import IdealX86.Machine.History
import IdealX86.Machine.Lemmas.Step

/-!
# 待ち行列と履歴

一歩を、待ち行列から見て三つに分ける。呼び出しを行う歩、止まっていた呼び出しから戻る歩、どちらでもない歩である。
どの待ち行列についても、待ちに入った順と起こされた順が一致することと、待っているタスクが呼び出しの中で止まっていることを示す。
-/

namespace IdealX86

open Kernel (InitPc)

/-! ## 呼び出しと一つの待ち行列 -/

namespace Kernel

/-- 呼び出し `x` の待ち行列 `w` への働きと、残す事象。 -/
inductive CallQueue (a : Kernel Queues) (x : Call) (w : WaitId) : Prop where
  | same (hw : (a.call x).lists.wait w = a.lists.wait w)
      (hb : (a.callEvents x).filterMap (Event.blockedOn w) = [])
      (hg : (a.callEvents x).filterMap (Event.wokenFrom w) = [])
  | block (hx : x.waitsOn = some w) (hw : (a.call x).lists.wait w = a.lists.wait w ++ [a.currTask])
      (hb : (a.callEvents x).filterMap (Event.blockedOn w) = [a.currTask])
      (hg : (a.callEvents x).filterMap (Event.wokenFrom w) = [])
  | wake (t : TaskId) (ts : List TaskId) (hx : x.wakes = some w) (ht : a.lists.wait w = t :: ts)
      (hw : (a.call x).lists.wait w = ts) (hr : (a.call x).lists.ready = a.lists.ready ++ [t])
      (hb : (a.callEvents x).filterMap (Event.blockedOn w) = [])
      (hg : (a.callEvents x).filterMap (Event.wokenFrom w) = [t])

variable {a : Kernel Queues}

theorem Inv.semWait_queue (h : a.Inv) (hc : a.currTask ≠ idleTask) (s : SemId) (w : WaitId) :
    CallQueue a (.semWait s) w := by
  by_cases hp : a.sems s > 0
  · refine .same ?_ ?_ ?_
    · simp [Kernel.call, Kernel.semWait, hp]
    · simp [Kernel.callEvents, hp, Event.blockedOn]
    · simp [Kernel.callEvents, hp, Event.wokenFrom]
  · have hk : a.call (.semWait s) = a.waitOn (.sem s) := by simp [Kernel.call, Kernel.semWait, hp]
    by_cases hw : w = .sem s
    · subst hw
      refine .block rfl ?_ ?_ ?_
      · rw [hk, h.waitOn_lists hc]; simp
      · simp [Kernel.callEvents, hp, Event.blockedOn]
      · simp [Kernel.callEvents, hp, Event.wokenFrom]
    · refine .same ?_ ?_ ?_
      · rw [hk, h.waitOn_lists hc]; simp [hw]
      · simp [Kernel.callEvents, hp, Event.blockedOn, hw]
      · simp [Kernel.callEvents, hp, Event.wokenFrom]

theorem Inv.semNotify_queue (h : a.Inv) (s : SemId) (w : WaitId) : CallQueue a (.semNotify s) w := by
  by_cases hp : ListStore.count a.lists (.wait (.sem s)) ≠ 0
  · obtain ⟨t, ts, ht⟩ := wait_ne_nil _ hp
    have hk : (a.call (.semNotify s)).lists = (a.wakeFirst (.sem s)).lists := by
      simp only [Kernel.call, semNotify_eq, if_pos hp, taskDispatch_lists]
    have he : a.callEvents (.semNotify s) = [.semWoken t s, .semNotified a.currTask s] := by
      simp only [Kernel.callEvents, if_pos hp, removeWaiter_of_cons ht]
    by_cases hw : w = .sem s
    · subst hw
      refine .wake t ts rfl ht ?_ ?_ ?_ ?_
      · rw [hk, h.wakeFirst_lists ht]; simp
      · rw [hk, h.wakeFirst_lists ht]
      · simp [he, Event.blockedOn]
      · simp [he, Event.wokenFrom]
    · refine .same ?_ ?_ ?_
      · rw [hk, h.wakeFirst_lists ht]; simp [hw]
      · simp [he, Event.blockedOn]
      · simp [he, Event.wokenFrom, hw]
  · refine .same ?_ ?_ ?_
    · simp only [Kernel.call, semNotify_eq, if_neg hp, setSem_lists]
    · simp only [Kernel.callEvents, if_neg hp]; rfl
    · simp only [Kernel.callEvents, if_neg hp]; rfl

theorem Inv.mutexLock_queue (h : a.Inv) (hc : a.currTask ≠ idleTask) (m : MutexId) (w : WaitId) :
    CallQueue a (.mutexLock m) w := by
  by_cases h0 : (a.mutexes m).lockedCount = 0
  · refine .same ?_ ?_ ?_
    · simp [Kernel.call, Kernel.mutexLock, h0]
    · simp [Kernel.callEvents, h0, Event.blockedOn]
    · simp [Kernel.callEvents, h0, Event.wokenFrom]
  · by_cases ho : (a.mutexes m).owner = a.currTask
    · refine .same ?_ ?_ ?_
      · simp [Kernel.call, Kernel.mutexLock, h0, ho]
      · simp [Kernel.callEvents, h0, ho, Event.blockedOn]
      · simp [Kernel.callEvents, h0, ho, Event.wokenFrom]
    · have hk : a.call (.mutexLock m) = a.waitOn (.mutex m) := by simp [Kernel.call, Kernel.mutexLock, h0, ho]
      by_cases hw : w = .mutex m
      · subst hw
        refine .block rfl ?_ ?_ ?_
        · rw [hk, h.waitOn_lists hc]; simp
        · simp [Kernel.callEvents, h0, ho, Event.blockedOn]
        · simp [Kernel.callEvents, h0, ho, Event.wokenFrom]
      · refine .same ?_ ?_ ?_
        · rw [hk, h.waitOn_lists hc]; simp [hw]
        · simp [Kernel.callEvents, h0, ho, Event.blockedOn, hw]
        · simp [Kernel.callEvents, h0, ho, Event.wokenFrom]

/-- `mutex_unlock` が待っているタスクへ渡す。 -/
def handsOver {σ : Type} [ListStore σ] (k : Kernel σ) (m : MutexId) : Prop :=
  (k.mutexes m).owner = k.currTask ∧ (k.mutexes m).lockedCount - 1 = 0 ∧
    ListStore.count k.lists (.wait (.mutex m)) ≠ 0

theorem mutexUnlock_of_handsOver {σ : Type} [ListStore σ] {k : Kernel σ} {m : MutexId} (h : k.handsOver m) :
    k.mutexUnlock m =
      ((k.wakeFirst (.mutex m)).setMutex m ⟨(k.removeWaiter (.mutex m)).1, 1⟩).taskDispatch := by
  rw [mutexUnlock_eq, if_pos h.1, if_pos h.2.1, if_pos h.2.2]

theorem mutexUnlock_of_not {σ : Type} [ListStore σ] {k : Kernel σ} {m : MutexId} (h : ¬ k.handsOver m) :
    k.mutexUnlock m =
      if (k.mutexes m).owner = k.currTask then
        k.setMutex m (if (k.mutexes m).lockedCount - 1 = 0 then ⟨nullTask, 0⟩
          else ⟨(k.mutexes m).owner, (k.mutexes m).lockedCount - 1⟩)
      else k := by
  rw [mutexUnlock_eq]
  split
  · split
    · rename_i h₁ h₂
      rw [if_neg fun h₃ => h ⟨h₁, h₂, h₃⟩]
    · rfl
  · rfl

theorem callEvents_of_handsOver {σ : Type} [ListStore σ] {k : Kernel σ} {m : MutexId} (h : k.handsOver m) :
    k.callEvents (.mutexUnlock m) =
      [.handover (k.removeWaiter (.mutex m)).1 m, .unlock k.currTask m] := if_pos h

theorem callEvents_of_not {σ : Type} [ListStore σ] {k : Kernel σ} {m : MutexId} (h : ¬ k.handsOver m) :
    k.callEvents (.mutexUnlock m) = [.unlock k.currTask m] := if_neg h

theorem Inv.mutexUnlock_queue (h : a.Inv) (m : MutexId) (w : WaitId) : CallQueue a (.mutexUnlock m) w := by
  by_cases hp : a.handsOver m
  · obtain ⟨t, ts, ht⟩ := wait_ne_nil _ hp.2.2
    have hk : (a.call (.mutexUnlock m)).lists = (a.wakeFirst (.mutex m)).lists := by
      simp only [Kernel.call, mutexUnlock_of_handsOver hp, taskDispatch_lists, setMutex_lists]
    have he : a.callEvents (.mutexUnlock m) = [.handover t m, .unlock a.currTask m] := by
      rw [callEvents_of_handsOver hp, removeWaiter_of_cons ht]
    by_cases hw : w = .mutex m
    · subst hw
      refine .wake t ts rfl ht ?_ ?_ ?_ ?_
      · rw [hk, h.wakeFirst_lists ht]; simp
      · rw [hk, h.wakeFirst_lists ht]
      · simp [he, Event.blockedOn]
      · simp [he, Event.wokenFrom]
    · refine .same ?_ ?_ ?_
      · rw [hk, h.wakeFirst_lists ht]; simp [hw]
      · simp [he, Event.blockedOn]
      · simp [he, Event.wokenFrom, hw]
  · have he := callEvents_of_not hp
    refine .same ?_ ?_ ?_
    · simp only [Kernel.call, mutexUnlock_of_not hp]
      split <;> rfl
    · rw [he]; rfl
    · rw [he]; rfl

theorem Inv.call_queue (h : a.Inv) (hc : a.currTask ≠ idleTask) (x : Call) (w : WaitId) :
    CallQueue a x w := by
  cases x with
  | sysSchedYield => exact .same (congrArg (·.wait w) h.sysSchedYield_lists) rfl rfl
  | sysSleep ms => exact .same (congrArg (·.wait w) (h.sysSleep_lists hc ms)) rfl rfl
  | semWait s => exact h.semWait_queue hc s w
  | semNotify s => exact h.semNotify_queue s w
  | mutexLock m => exact h.mutexLock_queue hc m w
  | mutexUnlock m => exact h.mutexUnlock_queue m w

theorem Inv.call_ready (h : a.Inv) (hc : a.currTask ≠ idleTask) (x : Call) {t : TaskId}
    (ht : t ∈ a.lists.ready) (hne : t ≠ a.currTask) : t ∈ (a.call x).lists.ready := by
  obtain ⟨ts, hr⟩ := h.ready_cons hc
  have ht' : t ∈ ts := by rw [hr] at ht; exact (List.mem_cons.mp ht).resolve_left hne
  obtain ⟨ys, hq | hq⟩ := (h.call_moves hc x).ready hr
  · rw [hq]; exact List.mem_append_left _ ht
  · rw [hq]; exact List.mem_append_left _ ht'

theorem CallMoves.curr {x : Call} {q : Queues} {w : WaitId} (h : CallMoves a x q) (hx : x.waitsOn = some w)
    (hm : a.currTask ∈ a.lists.ready) : a.currTask ∈ q.wait w ∨ a.currTask ∈ q.ready := by
  cases h with
  | same => exact .inr hm
  | rotate => exact .inr (List.mem_rotate.mpr hm)
  | drop ms he hz => rw [he] at hx; cases hx
  | sleep ms he hz => rw [he] at hx; cases hx
  | wait w' he =>
      rw [he] at hx
      cases hx
      exact .inl (by simp)
  | wake w' t ts he hw => exact .inr (List.mem_append_left _ hm)

end Kernel

/-! ## 待ち行列から見た一歩 -/

namespace Machine

variable {c c' : Machine Queues} {l : Label}

/-- 待ち行列、ミューテックス、セマフォ、履歴に触れない歩。呼び出しの中で止まっているタスクも変わらない。 -/
structure Quiet (c c' : Machine Queues) : Prop where
  mutexes : c'.kernel.mutexes = c.kernel.mutexes
  sems : c'.kernel.sems = c.kernel.sems
  wait : c'.kernel.lists.wait = c.kernel.lists.wait
  hist : c'.hist = c.hist
  ready : ∀ t ∈ c.kernel.lists.ready, t ∈ c'.kernel.lists.ready
  susp : ∀ t x, c'.susp t = some (.call x) ↔ c.susp t = some (.call x)

/-- 今のタスクが呼び出し `x` を行う。切り替わったなら、その中で止まる。 -/
structure CallStep (c c' : Machine Queues) (x : Call) : Prop where
  curr : c.curr ≠ idleTask
  susp_none : c.susp c.curr = none
  kernel : c'.kernel = c.kernel.call x
  hist : c'.hist = c.kernel.callEvents x ++ c.hist
  susp : c'.susp = if (c.kernel.call x).currTask = c.curr then c.susp
    else Function.update c.susp c.curr (some (.call x))

inductive IpcStep (c : Machine Queues) (l : Label) (c' : Machine Queues) : Prop where
  | call (x : Call) (hx : c.Calls l x) (h : c.CallStep c' x)
  | ret (x : Call) (hs : c.susp c.curr = some (.call x)) (hk : c'.kernel = c.kernel)
      (hh : c'.hist = x.returnEvents c.curr ++ c.hist) (hsusp : c'.susp = Function.update c.susp c.curr none)
  | quiet (h : c.Quiet c')

theorem doCall_hist {σ : Type} [ListStore σ] (c : Machine σ) (x : Call) :
    (c.doCall x).hist = c.kernel.callEvents x ++ c.hist := rfl

theorem doCall_susp {σ : Type} [ListStore σ] (c : Machine σ) (x : Call) :
    (c.doCall x).susp = if (c.kernel.call x).currTask = c.curr then c.susp
      else Function.update c.susp c.curr (some (.call x)) :=
  settle_susp c _ _

theorem quiet_of_susp {r : Option Suspended} {r' : Option Suspended} {t : TaskId}
    {f : TaskId → Option Suspended} (hr : f t = r) (h₁ : ∀ x, r ≠ some (.call x))
    (h₂ : ∀ x, r' ≠ some (.call x)) (u : TaskId) (x : Call) :
    Function.update f t r' u = some (.call x) ↔ f u = some (.call x) := by
  rw [Function.update_apply]
  split
  · rename_i hu
    rw [hu, hr]
    exact ⟨fun h => absurd h (h₂ x), fun h => absurd h (h₁ x)⟩
  · exact Iff.rfl

theorem quiet_doTickSleep (h : c.kernel.Inv) (hs : c.susp c.curr = none) : c.Quiet c.doTickSleep := by
  obtain ⟨hm, hse, -, -⟩ := h.tickSleep_frame
  refine ⟨?_, ?_, ?_, settle_hist _ _ _, ?_, fun t x => ?_⟩
  · rw [doTickSleep_kernel, hm]
  · rw [doTickSleep_kernel, hse]
  · rw [doTickSleep_kernel, h.tickSleep_lists]
  · intro t ht
    rw [doTickSleep_kernel, h.tickSleep_lists]
    exact List.mem_append_left _ ht
  · unfold doTickSleep
    rw [settle_susp]
    split
    · exact Iff.rfl
    · exact quiet_of_susp hs (by simp) (by simp) t x

theorem Quiet.trans {c₁ c₂ c₃ : Machine Queues} (h : c₁.Quiet c₂) (h' : c₂.Quiet c₃) : c₁.Quiet c₃ :=
  ⟨h'.mutexes.trans h.mutexes, h'.sems.trans h.sems, h'.wait.trans h.wait, h'.hist.trans h.hist,
    fun t ht => h'.ready t (h.ready t ht), fun t x => (h'.susp t x).trans (h.susp t x)⟩

theorem quiet_tickSlice (h : c.kernel.Inv) {f : TaskId → Option Suspended}
    (hf : ∀ t x, f t = some (.call x) ↔ c.susp t = some (.call x)) :
    c.Quiet { c with kernel := c.kernel.tickSlice, susp := f } := by
  obtain ⟨hm, hse, -, -⟩ := Kernel.tickSlice_frame c.kernel
  refine ⟨hm, hse, ?_, rfl, ?_, hf⟩
  · change c.kernel.tickSlice.lists.wait = c.kernel.lists.wait
    rw [h.tickSlice_lists]
  · intro t ht
    change t ∈ c.kernel.tickSlice.lists.ready
    rw [h.tickSlice_lists]
    dsimp only
    split
    · exact List.mem_rotate.mpr ht
    · exact ht

theorem quiet_doTick (h : c.kernel.Inv) (hs : c.susp c.curr = none) : c.Quiet c.doTick := by
  unfold doTick
  dsimp only
  split
  · rename_i he
    have h₁ := quiet_tickSlice h (c := c) (f := c.susp) fun _ _ => Iff.rfl
    refine h₁.trans (quiet_doTickSleep (c := { c with kernel := c.kernel.tickSlice }) h.tickSlice ?_)
    exact (congrArg c.susp he).trans hs
  · exact quiet_tickSlice h (quiet_of_susp hs (by simp) (by simp))

theorem quiet_setSusp (c : Machine Queues) {r : Suspended} (hs : c.susp c.curr = some r)
    (hr : ∀ x, r ≠ .call x) : c.Quiet (c.setSusp c.curr none) :=
  ⟨rfl, rfl, rfl, rfl, fun _ h => h, quiet_of_susp hs (by simpa using hr) (by simp)⟩

theorem quiet_initLocal (c : Machine Queues) {u : TaskId} (hu : u ≠ idleTask) (a : InitArgs) (pc : InitPc)
    (x : Code) : c.Quiet { c.setCode c.curr x with kernel := c.kernel.initLocal u a pc } := by
  have hl : ∀ k : Kernel Queues, (k.taskPublish u).lists.wait = k.lists.wait ∧
      ∀ t ∈ k.lists.ready, t ∈ (k.taskPublish u).lists.ready := by
    intro k
    rw [Kernel.taskPublish_lists k hu]
    exact ⟨rfl, fun t ht => List.mem_append_left _ ht⟩
  obtain ⟨-, hm, hs, -⟩ := Kernel.taskPublish_frame c.kernel u
  cases pc with
  | publish => exact ⟨hm, hs, (hl c.kernel).1, rfl, (hl c.kernel).2, fun _ _ => Iff.rfl⟩
  | _ => exact ⟨rfl, rfl, rfl, rfl, fun _ h => h, fun _ _ => Iff.rfl⟩

theorem Step.ipc (hst : c.Step l c') (h : c.Inv) : c.IpcStep l c' := by
  cases hst with
  | tick hs => exact .quiet (quiet_doTick h.kernel hs)
  | resume r hs =>
      cases r with
      | call x => exact .ret x hs rfl rfl rfl
      | tickSlice =>
          refine .quiet ((quiet_setSusp c hs (by simp)).trans (quiet_doTickSleep h.kernel ?_))
          exact Function.update_self _ _ _
      | tickEnd => exact .quiet (quiet_setSusp c hs (by simp))
  | call x hs ho hi =>
      exact .call x ⟨hi, .inl rfl⟩ ⟨hi, hs, doCall_kernel c x, doCall_hist c x, doCall_susp c x⟩
  | initStart u a hs ho hi hn hu => exact .quiet ⟨rfl, rfl, rfl, rfl, fun _ h => h, fun _ _ => Iff.rfl⟩
  | initStep u a pc hs hc =>
      have hi := h.curr_ne_idle hc
      unfold doInit
      cases hx : initCall pc with
      | some x =>
          exact .call x ⟨hi, .inr ⟨u, a, pc, rfl, hc, hx⟩⟩
            ⟨hi, hs, doCall_kernel _ x, doCall_hist _ x, doCall_susp _ x⟩
      | none => exact .quiet (quiet_initLocal c (h.fresh hc).2.2.1 a pc _)

/-! ## 待ち行列の不変条件 -/

/-- 待ちに入った順は、起こされた順に、今待っている並びを続けたものである。履歴は新しい順なので、逆に並ぶ。 -/
def Fifo (c : Machine Queues) : Prop :=
  ∀ w, c.hist.filterMap (Event.blockedOn w) =
    (c.kernel.lists.wait w).reverse ++ c.hist.filterMap (Event.wokenFrom w)

/-- 待っているタスクは、その待ち行列の呼び出しの中で止まっている。そこで止まっているタスクは、待っているか、もう
`ready_list` に戻されている。 -/
structure SuspInv (c : Machine Queues) : Prop where
  waiting : ∀ {t w}, t ∈ c.kernel.lists.wait w → ∃ x, c.susp t = some (.call x) ∧ x.waitsOn = some w
  suspended : ∀ {t x w}, c.susp t = some (.call x) → x.waitsOn = some w →
    t ∈ c.kernel.lists.wait w ∨ t ∈ c.kernel.lists.ready

theorem Fifo.order (h : c.Fifo) (w : WaitId) : c.hist.reverse.filterMap (Event.blockedOn w) =
    c.hist.reverse.filterMap (Event.wokenFrom w) ++ c.kernel.lists.wait w := by
  rw [List.filterMap_reverse, List.filterMap_reverse, h w, List.reverse_append, List.reverse_reverse]

theorem returnEvents_filterMap (t : TaskId) (x : Call) (w : WaitId) :
    (x.returnEvents t).filterMap (Event.blockedOn w) = [] ∧
      (x.returnEvents t).filterMap (Event.wokenFrom w) = [] := by
  cases x <;> exact ⟨rfl, rfl⟩

theorem IpcStep.fifo (hst : c.IpcStep l c') (h : c.Inv) (hf : c.Fifo) : c'.Fifo := by
  intro w
  have hw := hf w
  cases hst with
  | call x hx hcs =>
      rw [hcs.hist, hcs.kernel, List.filterMap_append, List.filterMap_append, hw]
      cases h.kernel.call_queue hx.1 x w with
      | same hq hb hg => simp [hq, hb, hg]
      | block _ hq hb hg => simp [hq, hb, hg]
      | wake t ts _ ht hq _ hb hg => simp [ht, hq, hb, hg]
  | ret x hs hk hh hsusp =>
      obtain ⟨hb, hg⟩ := returnEvents_filterMap c.curr x w
      rw [hh, hk, List.filterMap_append, List.filterMap_append, hw, hb, hg]
      rfl
  | quiet hq => rw [hq.hist, hq.wait, hw]

section
variable {x : Call} {t : TaskId} {w : WaitId}

theorem CallStep.susp_of_ne (hst : c.CallStep c' x) (ht : t ≠ c.curr) : c'.susp t = c.susp t := by
  rw [hst.susp]
  split
  · rfl
  · exact Function.update_of_ne ht _ _

/-- 今のタスクは切り替わったときだけ止まり、その呼び出しは `x` である。 -/
theorem CallStep.susp_curr (hst : c.CallStep c' x) {y : Call} (hy : c'.susp c.curr = some (.call y)) : y = x := by
  rw [hst.susp] at hy
  split at hy
  · rw [hst.susp_none] at hy
    cases hy
  · rw [Function.update_self] at hy
    cases hy
    rfl

/-- 今のタスクが待ちに入ったなら、切り替わっている。 -/
theorem CallStep.susp_waits (hst : c.CallStep c' x) (hk' : c'.kernel.Inv)
    (hm : c.curr ∈ (c.kernel.call x).lists.wait w) : c'.susp c.curr = some (.call x) := by
  rw [hst.susp, if_neg, Function.update_self]
  intro he
  rw [hst.kernel] at hk'
  have hm' := hk'.curr_mem (by rw [he]; exact hst.curr)
  rw [he] at hm'
  cases hk'.placed.once (.wait w) .ready _ (by simp) (by simp) hm hm'

theorem CallStep.waiting (hst : c.CallStep c' x) (h : c.Inv) (hk' : c'.kernel.Inv) (hs : c.SuspInv)
    (hm : t ∈ (c.kernel.call x).lists.wait w) : ∃ y, c'.susp t = some (.call y) ∧ y.waitsOn = some w := by
  -- すでに待っていたタスクは、今のタスクではない。
  have hold : t ∈ c.kernel.lists.wait w → ∃ y, c'.susp t = some (.call y) ∧ y.waitsOn = some w := by
    intro hm
    have hne : t ≠ c.curr := by rintro rfl; exact h.kernel.curr_not_waiting w hm
    rw [hst.susp_of_ne hne]
    exact hs.waiting hm
  cases h.kernel.call_queue hst.curr x w with
  | same hq _ _ => exact hold (hq ▸ hm)
  | block hxw hq _ _ =>
      by_cases hne : t = c.curr
      · subst hne
        exact ⟨x, hst.susp_waits hk' hm, hxw⟩
      · rw [hq] at hm
        exact hold ((List.mem_append.mp hm).resolve_right (by simpa using hne))
  | wake u us _ hu hq _ _ _ =>
      rw [hq] at hm
      exact hold (by rw [hu]; exact List.mem_cons_of_mem _ hm)

theorem CallStep.suspended (hst : c.CallStep c' x) (h : c.Inv) (hs : c.SuspInv) {y : Call}
    (hy : c'.susp t = some (.call y)) (hyw : y.waitsOn = some w) :
    t ∈ (c.kernel.call x).lists.wait w ∨ t ∈ (c.kernel.call x).lists.ready := by
  by_cases hne : t = c.curr
  · subst hne
    obtain rfl := hst.susp_curr hy
    exact (h.kernel.call_moves hst.curr y).curr hyw (h.kernel.curr_mem hst.curr)
  · rw [hst.susp_of_ne hne] at hy
    rcases hs.suspended hy hyw with hm | hm
    · cases h.kernel.call_queue hst.curr x w with
      | same hq _ _ => rw [hq]; exact .inl hm
      | block _ hq _ _ => rw [hq]; exact .inl (List.mem_append_left _ hm)
      | wake u us _ hu hq hr _ _ =>
          rw [hu] at hm
          rcases List.mem_cons.mp hm with rfl | hm
          · rw [hr]; exact .inr (by simp)
          · rw [hq]; exact .inl hm
    · exact .inr (h.kernel.call_ready hst.curr x hm hne)

end

theorem IpcStep.suspInv (hst : c.IpcStep l c') (h : c.Inv) (hk' : c'.kernel.Inv) (hs : c.SuspInv) :
    c'.SuspInv := by
  cases hst with
  | call x hx hcs =>
      constructor
      · intro t w hm
        rw [hcs.kernel] at hm
        exact hcs.waiting h hk' hs hm
      · intro t y w hy hyw
        rw [hcs.kernel]
        exact hcs.suspended h hs hy hyw
  | ret x hnone hk hh hsusp =>
      constructor
      · intro t w hm
        rw [hk] at hm
        have hne : t ≠ c.curr := by rintro rfl; exact h.kernel.curr_not_waiting w hm
        rw [hsusp, Function.update_of_ne hne]; exact hs.waiting hm
      · intro t y w hy hyw
        rw [hsusp, Function.update_apply] at hy
        split at hy
        · cases hy
        · rw [hk]; exact hs.suspended hy hyw
  | quiet hq =>
      constructor
      · intro t w hm
        rw [hq.wait] at hm
        obtain ⟨x, hx, hxw⟩ := hs.waiting hm
        exact ⟨x, (hq.susp t x).mpr hx, hxw⟩
      · intro t y w hy hyw
        rw [hq.wait]
        exact (hs.suspended ((hq.susp t y).mp hy) hyw).imp_right (hq.ready t)

theorem boot_fifo (b : BootArgs) : (Machine.boot ({} : Queues) b).Fifo := by
  intro w
  rw [boot_lists]
  rfl

theorem boot_suspInv (b : BootArgs) : (Machine.boot ({} : Queues) b).SuspInv := by
  constructor
  · intro t w hm
    rw [boot_lists] at hm
    cases hm
  · intro t x w hs; cases hs

end Machine

end IdealX86
