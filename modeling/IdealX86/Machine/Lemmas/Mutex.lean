import IdealX86.Machine.Lemmas.Ipc

/-!
# ミューテックスの不変条件

持ち主と `locked_count` を履歴と結びつける不変条件を、`mutex_lock` と `mutex_unlock` の場合ごとに示す。持ち主の受け渡しは、
受け取る側が `mutex_lock` の中で止まっている間に行われるので、止まっている持ち主は別に扱う。
-/

namespace IdealX86

/-! ## 関わらない事象 -/

section
variable {m : MutexId} {es hist : List Event} (t : TaskId)

theorem nestedBy_cons (m : MutexId) (e : Event) (es : List Event) :
    nestedBy t m (e :: es) = nestedBy t m es + if e = .nested t m then 1 else 0 := by
  simp only [nestedBy, List.countP_cons]
  cases e <;> simp

theorem unlocksBy_cons (m : MutexId) (e : Event) (es : List Event) :
    unlocksBy t m (e :: es) = unlocksBy t m es + if e = .unlock t m then 1 else 0 := by
  simp only [unlocksBy, List.countP_cons]
  cases e <;> simp

theorem depth_append_of_other (h : ∀ e ∈ es, e.mutex ≠ some m) :
    depth t m (es ++ hist) = depth t m hist := by
  induction es with
  | nil => rfl
  | cons e es ih =>
      have hes := ih fun e he => h e (List.mem_cons_of_mem _ he)
      have he := h e (by simp)
      cases e with
      | lockRet t' m' => rwa [List.cons_append, depth, if_neg fun hm => he (congrArg some hm.2)]
      | unlock t' m' => rwa [List.cons_append, depth, if_neg fun hm => he (congrArg some hm.2)]
      | _ => exact hes

theorem Event.mutex_of_gets {e : Event} (h : e.gets m = true) : e.mutex = some m := by
  cases e with
  | got t' m' => exact congrArg some (of_decide_eq_true h)
  | handover t' m' => exact congrArg some (of_decide_eq_true h)
  | _ => cases h

theorem sinceGot_append_of_other (h : ∀ e ∈ es, e.mutex ≠ some m) :
    sinceGot m (es ++ hist) = es ++ sinceGot m hist := by
  refine List.takeWhile_append_of_pos fun e he => ?_
  rw [Bool.not_eq_true', Bool.eq_false_iff]
  exact fun hgets => h e he (Event.mutex_of_gets hgets)

/-- `m` の事象だけを数えるなら、`m` に関わらない事象は数に入らない。 -/
theorem countP_append_of_other {p : Event → Bool} (hp : ∀ e, p e = true → e.mutex = some m)
    (h : ∀ e ∈ es, e.mutex ≠ some m) : (es ++ hist).countP p = hist.countP p := by
  rw [List.countP_append, List.countP_eq_zero.mpr fun e he hpe => h e he (hp e hpe), Nat.zero_add]

theorem nestedBy_append_of_other (h : ∀ e ∈ es, e.mutex ≠ some m) :
    nestedBy t m (es ++ hist) = nestedBy t m hist := by
  refine countP_append_of_other (fun e he => ?_) h
  cases e with
  | nested t' m' => exact congrArg some (of_decide_eq_true he).2
  | _ => cases he

theorem unlocksBy_append_of_other (h : ∀ e ∈ es, e.mutex ≠ some m) :
    unlocksBy t m (es ++ hist) = unlocksBy t m hist := by
  refine countP_append_of_other (fun e he => ?_) h
  cases e with
  | unlock t' m' => exact congrArg some (of_decide_eq_true he).2
  | _ => cases he

end

/-! ## 不変条件 -/

namespace Machine

/-- `t` が `mutex_lock(m)` の中で止まっている。 -/
def Pends (c : Machine Queues) (m : MutexId) (t : TaskId) : Prop := c.susp t = some (.call (.mutexLock m))

structure MutexInv (c : Machine Queues) (m : MutexId) : Prop where
  zero : (c.kernel.mutexes m).owner = nullTask ↔ (c.kernel.mutexes m).lockedCount = 0
  nonneg : 0 ≤ (c.kernel.mutexes m).lockedCount
  owned : c.kernel.lists.wait (.mutex m) ≠ [] → (c.kernel.mutexes m).owner ≠ nullTask
  outside : (c.kernel.mutexes m).owner ∉ c.kernel.lists.wait (.mutex m)
  /-- 止まっているタスクは、待っているか、もう渡されている。 -/
  pends : ∀ {t}, c.Pends m t → t ∈ c.kernel.lists.wait (.mutex m) ∨ (c.kernel.mutexes m).owner = t
  /-- 渡されてからまだ戻っていない持ち主は、一度だけ取っている。 -/
  fresh : c.Pends m (c.kernel.mutexes m).owner → (c.kernel.mutexes m).lockedCount = 1
  since : (c.kernel.mutexes m).owner ≠ nullTask →
    (c.kernel.mutexes m).lockedCount + unlocksBy (c.kernel.mutexes m).owner m (sinceGot m c.hist) =
      1 + nestedBy (c.kernel.mutexes m).owner m (sinceGot m c.hist)
  inside : ¬ c.Pends m (c.kernel.mutexes m).owner →
    (depth (c.kernel.mutexes m).owner m c.hist : Int) = (c.kernel.mutexes m).lockedCount
  pendsDepth : c.Pends m (c.kernel.mutexes m).owner → depth (c.kernel.mutexes m).owner m c.hist = 0
  others : ∀ t, t ≠ (c.kernel.mutexes m).owner → depth t m c.hist = 0

variable {c c' : Machine Queues} {l : Label} {m : MutexId}

theorem MutexInv.of_other (h : c.MutexInv m) {es : List Event}
    (hm : c'.kernel.mutexes m = c.kernel.mutexes m)
    (hw : c'.kernel.lists.wait (.mutex m) = c.kernel.lists.wait (.mutex m))
    (hp : ∀ t, c'.Pends m t ↔ c.Pends m t) (hh : c'.hist = es ++ c.hist)
    (he : ∀ e ∈ es, e.mutex ≠ some m) : c'.MutexInv m := by
  refine ⟨?_, ?_, ?_, ?_, ?_, ?_, ?_, ?_, ?_, ?_⟩
  · rw [hm]; exact h.zero
  · rw [hm]; exact h.nonneg
  · rw [hm, hw]; exact h.owned
  · rw [hm, hw]; exact h.outside
  · intro t ht; rw [hm, hw]; exact h.pends ((hp t).mp ht)
  · rw [hm, hp]; exact h.fresh
  · rw [hm, hh, sinceGot_append_of_other he, unlocksBy_append_of_other _ he, nestedBy_append_of_other _ he]
    exact h.since
  · rw [hm, hp, hh, depth_append_of_other _ he]; exact h.inside
  · rw [hm, hp, hh, depth_append_of_other _ he]; exact h.pendsDepth
  · intro t; rw [hm, hh, depth_append_of_other _ he]; exact h.others t

/-! ## `mutex_lock` -/

theorem not_pends_curr (hnone : c.susp c.curr = none) : ¬ c.Pends m c.curr := by
  unfold Pends
  rw [hnone]
  simp

section
variable (h : c.MutexInv m) (hnone : c.susp c.curr = none)
include h

theorem MutexInv.lock_free (hnull : c.curr ≠ nullTask) (hpn : ∀ t, c.Pends m t → t ≠ nullTask)
    (h0 : (c.kernel.mutexes m).lockedCount = 0) (hm : c'.kernel.mutexes m = ⟨c.curr, 1⟩)
    (hw : c'.kernel.lists.wait (.mutex m) = c.kernel.lists.wait (.mutex m))
    (hp : ∀ t, c'.Pends m t ↔ c.Pends m t)
    (hh : c'.hist = .lockRet c.curr m :: .got c.curr m :: c.hist) : c'.MutexInv m := by
  have ho := h.zero.mpr h0
  have hwait : c.kernel.lists.wait (.mutex m) = [] := by
    by_contra hne; exact h.owned hne ho
  have hnp : ∀ t, ¬ c.Pends m t := by
    intro t ht
    rcases h.pends ht with hm | hm
    · rw [hwait] at hm; cases hm
    · exact hpn t ht (hm.symm.trans ho)
  have hd : ∀ t, depth t m c.hist = 0 := by
    intro t
    by_cases ht : t = (c.kernel.mutexes m).owner
    · have := h.inside (hnp _); rw [h0, ← ht] at this; exact_mod_cast this
    · exact h.others t ht
  have hs : sinceGot m c'.hist = [.lockRet c.curr m] := by rw [hh]; simp [sinceGot, Event.gets]
  constructor
  · rw [hm]; simp [hnull]
  · rw [hm]; simp
  · rw [hw, hwait]; simp
  · rw [hw, hwait]; simp
  · intro t ht; exact absurd ((hp t).mp ht) (hnp t)
  · rw [hm, hp]; intro ht; exact absurd ht (hnp _)
  · intro _; rw [hm, hs]; simp [unlocksBy, nestedBy]
  · intro _; rw [hm, hh]; simp [depth, hd]
  · rw [hm, hp]; intro ht; exact absurd ht (hnp _)
  · intro t ht
    rw [hm] at ht
    rw [hh]
    simp [depth, hd, Ne.symm ht]

include hnone in
theorem MutexInv.lock_nested (h0 : (c.kernel.mutexes m).lockedCount ≠ 0)
    (ho : (c.kernel.mutexes m).owner = c.curr)
    (hm : c'.kernel.mutexes m = ⟨c.curr, (c.kernel.mutexes m).lockedCount + 1⟩)
    (hw : c'.kernel.lists.wait (.mutex m) = c.kernel.lists.wait (.mutex m))
    (hp : ∀ t, c'.Pends m t ↔ c.Pends m t)
    (hh : c'.hist = .lockRet c.curr m :: .nested c.curr m :: c.hist) : c'.MutexInv m := by
  have hn := h.nonneg
  have hnull : c.curr ≠ nullTask := fun he => h0 (h.zero.mp (ho.trans he))
  have hnp := not_pends_curr (m := m) hnone
  have hs : sinceGot m c'.hist = .lockRet c.curr m :: .nested c.curr m :: sinceGot m c.hist := by
    rw [hh]; simp [sinceGot, Event.gets]
  have hsi := h.since (ho ▸ hnull)
  have hin := h.inside (ho ▸ hnp)
  rw [ho] at hsi hin
  constructor
  · rw [hm]; simp only [hnull, false_iff]; omega
  · rw [hm]; simp only; omega
  · rw [hm]; exact fun _ => hnull
  · rw [hm, hw, ← ho]; exact h.outside
  · intro t ht; rw [hm, hw]; exact (h.pends ((hp t).mp ht)).imp_right ho.symm.trans
  · rw [hm, hp]; intro ht; exact absurd ht hnp
  · intro _
    rw [hm, hs]
    simp [unlocksBy_cons, nestedBy_cons]
    omega
  · intro _
    rw [hm, hh]
    simp [depth]
    exact hin
  · rw [hm, hp]; intro ht; exact absurd ht hnp
  · intro t ht
    rw [hm] at ht
    have := h.others t (ho ▸ ht)
    rw [hh]
    simp [depth, this, Ne.symm ht]

theorem MutexInv.lock_wait (h0 : (c.kernel.mutexes m).lockedCount ≠ 0)
    (ho : (c.kernel.mutexes m).owner ≠ c.curr) (hm : c'.kernel.mutexes m = c.kernel.mutexes m)
    (hw : c'.kernel.lists.wait (.mutex m) = c.kernel.lists.wait (.mutex m) ++ [c.curr])
    (hp : ∀ t, c'.Pends m t ↔ c.Pends m t ∨ t = c.curr)
    (hh : c'.hist = .blocked c.curr m :: c.hist) : c'.MutexInv m := by
  have hnull : (c.kernel.mutexes m).owner ≠ nullTask := fun he => h0 (h.zero.mp he)
  have hpo : c'.Pends m (c.kernel.mutexes m).owner ↔ c.Pends m (c.kernel.mutexes m).owner := by
    rw [hp]; simp [ho]
  have hs : sinceGot m c'.hist = .blocked c.curr m :: sinceGot m c.hist := by
    rw [hh]; simp [sinceGot, Event.gets]
  have hd : ∀ t, depth t m c'.hist = depth t m c.hist := by intro t; rw [hh]; rfl
  constructor
  · rw [hm]; exact h.zero
  · rw [hm]; exact h.nonneg
  · rw [hm]; exact fun _ => hnull
  · rw [hm, hw]
    simp only [List.mem_append, List.mem_singleton, not_or]
    exact ⟨h.outside, ho⟩
  · intro t ht
    rw [hm, hw]
    rcases (hp t).mp ht with ht | rfl
    · exact (h.pends ht).imp_left (List.mem_append_left _)
    · exact .inl (by simp)
  · rw [hm, hpo]; exact h.fresh
  · rw [hm, hs]
    simpa [unlocksBy_cons, nestedBy_cons] using h.since
  · rw [hm, hpo, hd]; exact h.inside
  · rw [hm, hpo, hd]; exact h.pendsDepth
  · intro t; rw [hm, hd]; exact h.others t

/-! ## `mutex_unlock` -/

include hnone in
theorem MutexInv.unlock_handover {t : TaskId} {ts : List TaskId} (ho : (c.kernel.mutexes m).owner = c.curr)
    (h1 : (c.kernel.mutexes m).lockedCount = 1) (hwait : c.kernel.lists.wait (.mutex m) = t :: ts)
    (hnd : t ∉ ts) (ht : c.Pends m t) (hnull : t ≠ nullTask) (hm : c'.kernel.mutexes m = ⟨t, 1⟩)
    (hw : c'.kernel.lists.wait (.mutex m) = ts) (hp : ∀ t, c'.Pends m t ↔ c.Pends m t)
    (hh : c'.hist = .handover t m :: .unlock c.curr m :: c.hist) : c'.MutexInv m := by
  have hnp := not_pends_curr (m := m) hnone
  have hne : t ≠ c.curr := fun he => hnp (he ▸ ht)
  have hin := h.inside (ho ▸ hnp)
  rw [ho, h1] at hin
  have hs : sinceGot m c'.hist = [] := by rw [hh]; simp [sinceGot, Event.gets]
  have hd : ∀ u, depth u m c'.hist = 0 := by
    intro u
    rw [hh]
    by_cases hu : u = c.curr
    · subst hu; simp only [depth, and_self, ↓reduceIte]; omega
    · simp only [depth, Ne.symm hu, false_and, ↓reduceIte]; exact h.others u (ho ▸ hu)
  constructor
  · rw [hm]; simp [hnull]
  · rw [hm]; simp
  · rw [hm]; exact fun _ => hnull
  · rw [hm, hw]; exact hnd
  · intro u hu
    rw [hm, hw]
    have hu' := (hp u).mp hu
    rcases h.pends hu' with hx | hx
    · rw [hwait] at hx
      rcases List.mem_cons.mp hx with rfl | hx
      · exact .inr rfl
      · exact .inl hx
    · rw [ho] at hx; exact absurd (hx ▸ hu') hnp
  · rw [hm]; exact fun _ => rfl
  · intro _; rw [hm, hs]; rfl
  · rw [hm, hp]; exact fun hx => absurd ht hx
  · intro _; rw [hm]; exact hd t
  · intro u _; exact hd u

include hnone in
theorem MutexInv.unlock_last (ho : (c.kernel.mutexes m).owner = c.curr)
    (h1 : (c.kernel.mutexes m).lockedCount = 1) (hwait : c.kernel.lists.wait (.mutex m) = [])
    (hm : c'.kernel.mutexes m = ⟨nullTask, 0⟩) (hw : c'.kernel.lists.wait (.mutex m) = [])
    (hp : ∀ t, c'.Pends m t ↔ c.Pends m t) (hh : c'.hist = .unlock c.curr m :: c.hist) :
    c'.MutexInv m := by
  have hnp := not_pends_curr (m := m) hnone
  have hin := h.inside (ho ▸ hnp)
  rw [ho, h1] at hin
  have hnone' : ∀ t, ¬ c.Pends m t := by
    intro t ht
    rcases h.pends ht with hx | hx
    · rw [hwait] at hx; cases hx
    · rw [ho] at hx; exact hnp (hx ▸ ht)
  have hd : ∀ u, depth u m c'.hist = 0 := by
    intro u
    rw [hh]
    by_cases hu : u = c.curr
    · subst hu; simp only [depth, and_self, ↓reduceIte]; omega
    · simp only [depth, Ne.symm hu, false_and, ↓reduceIte]; exact h.others u (ho ▸ hu)
  constructor
  · rw [hm]; simp
  · rw [hm]
  · rw [hw]; simp
  · rw [hw]; simp
  · intro t ht; exact absurd ((hp t).mp ht) (hnone' t)
  · rw [hp]; exact fun ht => absurd ht (hnone' _)
  · rw [hm]; simp
  · intro _; rw [hd, hm]; rfl
  · intro _; exact hd _
  · intro u _; exact hd u

include hnone in
theorem MutexInv.unlock_nested (ho : (c.kernel.mutexes m).owner = c.curr)
    (h1 : (c.kernel.mutexes m).lockedCount ≠ 1) (hnull : c.curr ≠ nullTask)
    (hm : c'.kernel.mutexes m = ⟨c.curr, (c.kernel.mutexes m).lockedCount - 1⟩)
    (hw : c'.kernel.lists.wait (.mutex m) = c.kernel.lists.wait (.mutex m))
    (hp : ∀ t, c'.Pends m t ↔ c.Pends m t) (hh : c'.hist = .unlock c.curr m :: c.hist) :
    c'.MutexInv m := by
  have hnp := not_pends_curr (m := m) hnone
  have hin := h.inside (ho ▸ hnp)
  have hsi := h.since (ho ▸ hnull)
  have hn := h.nonneg
  have h0 : (c.kernel.mutexes m).lockedCount ≠ 0 := fun he => hnull (ho.symm.trans (h.zero.mpr he))
  rw [ho] at hin hsi
  have hs : sinceGot m c'.hist = .unlock c.curr m :: sinceGot m c.hist := by
    rw [hh]; simp [sinceGot, Event.gets]
  constructor
  · rw [hm]; simp only [hnull, false_iff]; omega
  · rw [hm]; simp only; omega
  · rw [hm]; exact fun _ => hnull
  · rw [hm, hw, ← ho]; exact h.outside
  · intro t ht; rw [hm, hw]; exact (h.pends ((hp t).mp ht)).imp_right ho.symm.trans
  · rw [hm, hp]; exact fun ht => absurd ht hnp
  · intro _
    rw [hm, hs]
    simp [unlocksBy_cons, nestedBy_cons]
    omega
  · intro _
    rw [hm, hh]
    simp only [depth, and_self, ↓reduceIte]
    omega
  · rw [hm, hp]; exact fun ht => absurd ht hnp
  · intro t ht
    rw [hm] at ht
    rw [hh]
    simp only [depth, Ne.symm ht, false_and, ↓reduceIte]
    exact h.others t (ho ▸ ht)

theorem MutexInv.unlock_other (ho : (c.kernel.mutexes m).owner ≠ c.curr)
    (hm : c'.kernel.mutexes m = c.kernel.mutexes m)
    (hw : c'.kernel.lists.wait (.mutex m) = c.kernel.lists.wait (.mutex m))
    (hp : ∀ t, c'.Pends m t ↔ c.Pends m t) (hh : c'.hist = .unlock c.curr m :: c.hist) :
    c'.MutexInv m := by
  have hs : sinceGot m c'.hist = .unlock c.curr m :: sinceGot m c.hist := by
    rw [hh]; simp [sinceGot, Event.gets]
  have hd : ∀ t, depth t m c'.hist = depth t m c.hist := by
    intro t
    rw [hh]
    by_cases ht : t = c.curr
    · subst ht; simp only [depth, and_self, ↓reduceIte]; rw [h.others _ (Ne.symm ho)]
    · simp only [depth, Ne.symm ht, false_and, ↓reduceIte]
  constructor
  · rw [hm]; exact h.zero
  · rw [hm]; exact h.nonneg
  · rw [hm, hw]; exact h.owned
  · rw [hm, hw]; exact h.outside
  · intro t ht; rw [hm, hw]; exact h.pends ((hp t).mp ht)
  · rw [hm, hp]; exact h.fresh
  · rw [hm, hs]
    simpa [unlocksBy_cons, nestedBy_cons, Ne.symm ho] using h.since
  · rw [hm, hp, hd]; exact h.inside
  · rw [hm, hp, hd]; exact h.pendsDepth
  · intro t; rw [hm, hd]; exact h.others t

theorem MutexInv.lock_ret (hs : c.Pends m c.curr) (hcw : c.curr ∉ c.kernel.lists.wait (.mutex m))
    (hnull : c.curr ≠ nullTask) (hk : c'.kernel = c.kernel)
    (hp : ∀ t, c'.Pends m t ↔ c.Pends m t ∧ t ≠ c.curr) (hh : c'.hist = .lockRet c.curr m :: c.hist) :
    (c'.kernel.mutexes m).owner = c.curr ∧ c'.MutexInv m := by
  have ho := (h.pends hs).resolve_left hcw
  have h1 := h.fresh (ho ▸ hs)
  have hd := h.pendsDepth (ho ▸ hs)
  have hsi := h.since (ho ▸ hnull)
  rw [ho] at hd
  have hsg : sinceGot m c'.hist = .lockRet c.curr m :: sinceGot m c.hist := by
    rw [hh]; simp [sinceGot, Event.gets]
  have hnp : ¬ c'.Pends m c.curr := by rw [hp]; simp
  refine ⟨hk ▸ ho, ?_⟩
  constructor
  · rw [hk]; exact h.zero
  · rw [hk]; exact h.nonneg
  · rw [hk]; exact h.owned
  · rw [hk]; exact h.outside
  · intro t ht; rw [hk]; exact h.pends ((hp t).mp ht).1
  · rw [hk, ho]; exact fun ht => absurd ht hnp
  · rw [hk, hsg]
    simpa [unlocksBy_cons, nestedBy_cons] using h.since
  · intro _
    rw [hk, ho, hh, h1]
    simp [depth, hd]
  · rw [hk, ho]; exact fun ht => absurd ht hnp
  · intro t ht
    rw [hk] at ht
    rw [hh]
    simp only [depth, Ne.symm (ho ▸ ht), false_and, ↓reduceIte]
    exact h.others t ht

end

end Machine

/-! ## 呼び出しの結果 -/

namespace Kernel

variable {σ : Type} [ListStore σ] (k : Kernel σ) {x : Call} {m : MutexId}

theorem call_mutexes_of_ne (h₁ : x ≠ .mutexLock m) (h₂ : x ≠ .mutexUnlock m) :
    (k.call x).mutexes m = k.mutexes m := by
  cases x with
  | sysSchedYield => exact congrFun (sysSchedYield_frame k).1 m
  | sysSleep ms => exact congrFun (sysSleep_frame k ms).1 m
  | semWait s =>
      simp only [call, semWait]
      split
      · rfl
      · exact congrFun (waitOn_frame k _).1 m
  | semNotify s =>
      simp only [call, semNotify_eq]
      split
      · simp [wakeFirst_frame k]
      · rfl
  | mutexLock m' =>
      have hm : m ≠ m' := fun he => h₁ (he ▸ rfl)
      simp only [call, mutexLock]
      split
      · simp [hm]
      · split
        · simp [hm]
        · exact congrFun (waitOn_frame k _).1 m
  | mutexUnlock m' =>
      have hm : m ≠ m' := fun he => h₂ (he ▸ rfl)
      simp only [call, mutexUnlock_eq]
      split
      · split
        · split <;> simp [wakeFirst_frame k, hm]
        · simp [hm]
      · rfl

theorem callEvents_other (h₁ : x ≠ .mutexLock m) (h₂ : x ≠ .mutexUnlock m) :
    ∀ e ∈ k.callEvents x, e.mutex ≠ some m := by
  cases x with
  | sysSchedYield => intro e he; cases he
  | sysSleep ms => intro e he; cases he
  | semWait s => simp only [callEvents]; split <;> simp [Event.mutex]
  | semNotify s => simp only [callEvents]; split <;> simp [Event.mutex]
  | mutexLock m' =>
      have hm : m' ≠ m := fun he => h₁ (he ▸ rfl)
      simp only [callEvents]
      split
      · simp [Event.mutex, hm]
      · split <;> simp [Event.mutex, hm]
  | mutexUnlock m' =>
      have hm : m' ≠ m := fun he => h₂ (he ▸ rfl)
      simp only [callEvents]
      split <;> simp [Event.mutex, hm]

end Kernel

namespace Machine

open Kernel

variable {c c' : Machine Queues} {l : Label} {m : MutexId} {x : Call}

theorem pends_call (hnone : c.susp c.curr = none)
    (hsusp : c'.susp = if (c.kernel.call x).currTask = c.curr then c.susp
      else Function.update c.susp c.curr (some (.call x))) (t : TaskId) :
    c'.Pends m t ↔
      c.Pends m t ∨ (t = c.curr ∧ x = .mutexLock m ∧ (c.kernel.call x).currTask ≠ c.curr) := by
  unfold Pends
  rw [hsusp]
  by_cases hc : (c.kernel.call x).currTask = c.curr
  · simp [hc]
  · rw [if_neg hc, Function.update_apply]
    by_cases ht : t = c.curr
    · subst ht; simp [hnone, hc]
    · simp [ht]

theorem pends_call_of_ne (hnone : c.susp c.curr = none)
    (hsusp : c'.susp = if (c.kernel.call x).currTask = c.curr then c.susp
      else Function.update c.susp c.curr (some (.call x)))
    (hx : x = .mutexLock m → (c.kernel.call x).currTask = c.curr) (t : TaskId) :
    c'.Pends m t ↔ c.Pends m t := by
  rw [pends_call hnone hsusp]
  constructor
  · rintro (hp | ⟨-, he, hne⟩)
    · exact hp
    · exact absurd (hx he) hne
  · exact .inl

theorem SuspInv.pends_ne_null (hs : c.SuspInv) (h : c.Inv) {t : TaskId} (ht : c.Pends m t) : t ≠ nullTask := by
  rcases hs.suspended ht rfl with hm | hm
  · exact h.kernel.placed.ne_null (l := .wait (.mutex m)) hm
  · exact h.kernel.placed.ne_null (l := .ready) hm

theorem Inv.curr_ne_null (h : c.Inv) (hi : c.curr ≠ idleTask) : c.curr ≠ nullTask :=
  h.kernel.placed.ne_null (l := .ready) (h.kernel.curr_mem hi)

theorem waitOn_switches (h : c.Inv) (hi : c.curr ≠ idleTask) (w : WaitId) :
    (c.kernel.waitOn w).currTask ≠ c.curr := by
  intro he
  have hk := h.kernel.waitOn hi w
  have hr := hk.curr_mem (by rw [he]; exact hi)
  have hw : c.curr ∈ (c.kernel.waitOn w).lists.wait w := by
    rw [h.kernel.waitOn_lists hi]; simp
  rw [he] at hr
  cases hk.placed.once (.wait w) .ready _ (by simp) (by simp) hw hr

theorem CallStep.mutexLock (hst : c.CallStep c' (.mutexLock m)) (h : c.Inv) (hs : c.SuspInv)
    (hm : c.MutexInv m) : c'.MutexInv m := by
  obtain ⟨hi, hnone, hk, hh, hsusp⟩ := hst
  by_cases h0 : (c.kernel.mutexes m).lockedCount = 0
  · have hc : c.kernel.call (.mutexLock m) = c.kernel.setMutex m ⟨c.curr, 1⟩ := by
      simp [Kernel.call, Kernel.mutexLock, h0]
    refine hm.lock_free (h.curr_ne_null hi) (fun t ht => hs.pends_ne_null h ht) h0 ?_ ?_
      (pends_call_of_ne hnone hsusp fun _ => by rw [hc]; rfl) ?_
    · rw [hk, hc]; simp
    · rw [hk, hc]; rfl
    · rw [hh]; simp [callEvents, h0]
  · by_cases ho : (c.kernel.mutexes m).owner = c.curr
    · have hc : c.kernel.call (.mutexLock m) =
          c.kernel.setMutex m ⟨c.curr, (c.kernel.mutexes m).lockedCount + 1⟩ := by
        simp [Kernel.call, Kernel.mutexLock, h0, ho]
      refine hm.lock_nested hnone h0 ho ?_ ?_ (pends_call_of_ne hnone hsusp fun _ => by rw [hc]; rfl) ?_
      · rw [hk, hc]; simp
      · rw [hk, hc]; rfl
      · rw [hh]; simp [callEvents, h0, ho]
    · have hc : c.kernel.call (.mutexLock m) = c.kernel.waitOn (.mutex m) := by
        simp [Kernel.call, Kernel.mutexLock, h0, ho]
      refine hm.lock_wait h0 ho ?_ ?_ (fun t => ?_) ?_
      · rw [hk, hc, (waitOn_frame _ _).1]
      · rw [hk, hc, h.kernel.waitOn_lists hi]; simp
      · rw [pends_call hnone hsusp, hc]
        simp [waitOn_switches h hi]
      · rw [hh]; simp [callEvents, h0, ho]

/-- 最後の解放は、最初に待っているタスクに渡す。 -/
theorem CallStep.mutexHandover (hst : c.CallStep c' (.mutexUnlock m)) (h : c.Inv) (hs : c.SuspInv)
    (hm : c.MutexInv m) (hho : c.kernel.handsOver m) : c'.MutexInv m := by
  obtain ⟨hi, hnone, hk, hh, hsusp⟩ := hst
  have hq := h.kernel.placed
  obtain ⟨t, ts, hw⟩ := wait_ne_nil _ hho.2.2
  have hwt : t ∈ c.kernel.lists.wait (.mutex m) := by simp [hw]
  have hnd := hq.nodup (.wait (.mutex m))
  rw [Queues.seq_wait, hw] at hnd
  have ht : c.Pends m t := by
    obtain ⟨y, hy, hyw⟩ := hs.waiting hwt
    cases y <;> cases hyw
    exact hy
  have hcall : c.kernel.call (.mutexUnlock m) = _ := mutexUnlock_of_handsOver hho
  rw [removeWaiter_of_cons hw] at hcall
  have hcount := hho.2.1
  refine hm.unlock_handover hnone hho.1 (by omega) hw (List.nodup_cons.mp hnd).1 ht
    (hq.ne_null (l := .wait (.mutex m)) hwt) ?_ ?_ (pends_call_of_ne hnone hsusp (by simp)) ?_
  · rw [hk, hcall]; simp
  · rw [hk, hcall, taskDispatch_lists, setMutex_lists, h.kernel.wakeFirst_lists hw]; simp
  · rw [hh, callEvents_of_handsOver hho, removeWaiter_of_cons hw]; rfl

theorem CallStep.mutexUnlock (hst : c.CallStep c' (.mutexUnlock m)) (h : c.Inv) (hs : c.SuspInv)
    (hm : c.MutexInv m) : c'.MutexInv m := by
  by_cases hho : c.kernel.handsOver m
  · exact hst.mutexHandover h hs hm hho
  · obtain ⟨hi, hnone, hk, hh, hsusp⟩ := hst
    have hp := pends_call_of_ne (m := m) hnone hsusp (by simp)
    have hcall : c.kernel.call (.mutexUnlock m) = _ := mutexUnlock_of_not hho
    have hev : c'.hist = .unlock c.curr m :: c.hist := by rw [hh, callEvents_of_not hho]; rfl
    by_cases ho : (c.kernel.mutexes m).owner = c.curr
    · rw [if_pos ho] at hcall
      by_cases h1 : (c.kernel.mutexes m).lockedCount - 1 = 0
      · rw [if_pos h1] at hcall
        have hwait : c.kernel.lists.wait (.mutex m) = [] := by
          by_contra hne
          exact hho ⟨ho, h1, by simpa using hne⟩
        refine hm.unlock_last hnone ho (by omega) hwait ?_ ?_ hp hev
        · rw [hk, hcall]; simp
        · rw [hk, hcall]; exact hwait
      · rw [if_neg h1, ho] at hcall
        refine hm.unlock_nested hnone ho (by omega) (h.curr_ne_null hi) ?_ ?_ hp hev
        · rw [hk, hcall]; simp
        · rw [hk, hcall]; rfl
    · rw [if_neg ho] at hcall
      refine hm.unlock_other ho ?_ ?_ hp hev
      · rw [hk, hcall]
      · rw [hk, hcall]

theorem CallStep.mutexInv (hst : c.CallStep c' x) (h : c.Inv) (hs : c.SuspInv) (hm : c.MutexInv m) :
    c'.MutexInv m := by
  by_cases h₁ : x = .mutexLock m
  · subst h₁; exact hst.mutexLock h hs hm
  · by_cases h₂ : x = .mutexUnlock m
    · subst h₂; exact hst.mutexUnlock h hs hm
    · refine hm.of_other ?_ ?_ (pends_call_of_ne hst.susp_none hst.susp fun he => absurd he h₁) hst.hist
        (callEvents_other _ h₁ h₂)
      · rw [hst.kernel, call_mutexes_of_ne _ h₁ h₂]
      · rw [hst.kernel]
        cases h.kernel.call_queue hst.curr x (.mutex m) with
        | same hq _ _ => exact hq
        | block hx _ _ _ => cases x <;> cases hx; exact absurd rfl h₁
        | wake t ts hx _ _ _ _ _ => cases x <;> cases hx; exact absurd rfl h₂

end Machine

end IdealX86
