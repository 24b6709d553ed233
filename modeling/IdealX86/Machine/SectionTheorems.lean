import Mathlib.Algebra.BigOperators.Group.Finset.Basic
import Mathlib.Algebra.BigOperators.Group.Finset.Piecewise
import Mathlib.Algebra.Order.BigOperators.Group.Finset
import IdealX86.Machine.SemTheorems

/-!
# セマフォで守る区間

`sem_wait` と `sem_notify` で挟んだ区間に同時にいるタスクの数を調べる。`sem_notify` を区間の中のタスクだけが呼ぶなら、
許可は失われも増えもせず、初めの値が 1 のセマフォは相互排除になる。
-/

namespace IdealX86

/-! ## タスクごとの回数 -/

/-- `sem_wait(s)` を通ったタスク。待っていたタスクは、起こされたときに通ったとみなす。 -/
def Event.passTask (s : SemId) : Event → Option TaskId
  | .semTaken t s' => if s' = s then some t else none
  | .semWoken t s' => if s' = s then some t else none
  | _ => none

def Event.notifyTask (s : SemId) : Event → Option TaskId
  | .semNotified t s' => if s' = s then some t else none
  | _ => none

/-- `t` が `sem_wait(s)` を通った回数。 -/
def passesBy (t : TaskId) (s : SemId) (hist : List Event) : Nat :=
  hist.countP fun e => e.passTask s = some t

/-- `t` が `sem_notify(s)` を呼んだ回数。 -/
def notifiesBy (t : TaskId) (s : SemId) (hist : List Event) : Nat :=
  hist.countP fun e => e.notifyTask s = some t

/-- `t` が今いる、`sem_wait(s)` から `sem_notify(s)` までの区間の数。 -/
def inside (t : TaskId) (s : SemId) (hist : List Event) : Nat := passesBy t s hist - notifiesBy t s hist

section
variable {α κ : Type*} [DecidableEq κ] (key : α → Option κ) (T : Finset κ)

theorem sum_countP_key (es : List α) (hT : ∀ e ∈ es, ∀ t, key e = some t → t ∈ T) :
    ∑ t ∈ T, es.countP (fun e => key e = some t) = es.countP fun e => (key e).isSome := by
  induction es with
  | nil => simp
  | cons e es ih =>
      have ih := ih fun e' he' => hT e' (List.mem_cons_of_mem _ he')
      simp only [List.countP_cons, decide_eq_true_eq, Finset.sum_add_distrib, ih]
      congr 1
      cases hk : key e with
      | none => simp
      | some t => simp [hT e List.mem_cons_self t hk]

end

section
variable {s : SemId} {hist : List Event}

theorem countP_passTask : hist.countP (fun e => (e.passTask s).isSome) = taken s hist + woken s hist := by
  unfold taken woken
  induction hist with
  | nil => rfl
  | cons e es ih =>
      rw [List.countP_cons, List.countP_cons, List.countP_cons, ih]
      cases e with
      | semTaken t s' => by_cases hs : s' = s <;> simp [Event.passTask, hs]; omega
      | semWoken t s' => by_cases hs : s' = s <;> simp [Event.passTask, hs]; omega
      | _ => simp [Event.passTask]

theorem countP_notifyTask : hist.countP (fun e => (e.notifyTask s).isSome) = notified s hist := by
  refine List.countP_congr fun e _ => ?_
  cases e with
  | semNotified t s' => by_cases hs : s' = s <;> simp [Event.notifyTask, hs]
  | _ => simp [Event.notifyTask]

theorem notifiesBy_le {t : TaskId} : notifiesBy t s hist ≤ notified s hist := by
  rw [← countP_notifyTask]
  refine List.countP_mono_left fun e _ he => ?_
  rw [of_decide_eq_true he]
  rfl

def semTasks (s : SemId) (hist : List Event) : Finset TaskId :=
  (hist.filterMap (Event.passTask s) ++ hist.filterMap (Event.notifyTask s)).toFinset

theorem inside_eq_zero {t : TaskId} (ht : t ∉ semTasks s hist) : inside t s hist = 0 := by
  have hp : passesBy t s hist = 0 := by
    refine List.countP_eq_zero.mpr fun e he hpe => ht ?_
    simp only [semTasks, List.mem_toFinset, List.mem_append, List.mem_filterMap]
    exact .inl ⟨e, he, of_decide_eq_true hpe⟩
  rw [inside, hp, Nat.zero_sub]

theorem sum_inside (h : ∀ t, notifiesBy t s hist ≤ passesBy t s hist) :
    ∑ t ∈ semTasks s hist, inside t s hist + notified s hist = taken s hist + woken s hist := by
  have hp := sum_countP_key (Event.passTask s) (semTasks s hist) hist fun e he t hk => by
    simp only [semTasks, List.mem_toFinset, List.mem_append, List.mem_filterMap]
    exact .inl ⟨e, he, hk⟩
  have hn := sum_countP_key (Event.notifyTask s) (semTasks s hist) hist fun e he t hk => by
    simp only [semTasks, List.mem_toFinset, List.mem_append, List.mem_filterMap]
    exact .inr ⟨e, he, hk⟩
  rw [← countP_passTask, ← countP_notifyTask, ← hp, ← hn, ← Finset.sum_add_distrib]
  exact Finset.sum_congr rfl fun t _ => Nat.sub_add_cancel (h t)

end

theorem Kernel.notifiesBy_callEvents {σ : Type} [ListStore σ] (k : Kernel σ) (x : Call) (t : TaskId) (s : SemId) :
    notifiesBy t s (k.callEvents x) = if x = .semNotify s ∧ k.currTask = t then 1 else 0 := by
  by_cases hx : x = .semNotify s
  · subst hx
    simp only [callEvents]
    split <;> simp [notifiesBy, Event.notifyTask]
  · rw [if_neg fun h => hx h.1]
    have hz : notified s (k.callEvents x) = 0 := by
      by_cases hw : x = .semWait s
      · subst hw; simp only [callEvents]; split <;> simp [notified]
      · exact (callEvents_of_ne k hw hx).1
    exact Nat.le_zero.mp (hz ▸ notifiesBy_le)

namespace Machine

/-! ## 一歩 -/

/-- 実行される `sem_notify(s)` は、`sem_wait(s)` からの区間の中にいるタスクが呼ぶ。 -/
def NotifiesInside (s : SemId) {σ : Type} [ListStore σ] (c : Machine σ) (l : Label) : Prop :=
  l = .call (.semNotify s) → (c.step l).isSome → 0 < inside c.curr s c.hist

section
variable {c c' : Machine Queues} {l : Label} {s : SemId}

/-- どのタスクも、通った回数より多くは通知していない。 -/
def Balanced (s : SemId) {σ : Type} (c : Machine σ) : Prop :=
  ∀ t, notifiesBy t s c.hist ≤ passesBy t s c.hist

theorem CallStep.balanced {x : Call} (hst : c.CallStep c' x) (hb : c.Balanced s)
    (hQ : x = .semNotify s → 0 < inside c.curr s c.hist) : c'.Balanced s := by
  intro t
  rw [hst.hist]
  have hle := hb t
  have hn := Kernel.notifiesBy_callEvents c.kernel x t s
  have hadd : notifiesBy t s (c.kernel.callEvents x ++ c.hist) =
      notifiesBy t s (c.kernel.callEvents x) + notifiesBy t s c.hist := List.countP_append
  have hpass : passesBy t s (c.kernel.callEvents x ++ c.hist) =
      passesBy t s (c.kernel.callEvents x) + passesBy t s c.hist := List.countP_append
  rw [hadd, hpass, hn]
  split
  · rename_i hx
    have hin := hQ hx.1
    unfold inside at hin
    rw [Machine.curr, hx.2] at hin
    omega
  · omega

theorem IpcStep.balanced (hst : c.IpcStep l c') (hb : c.Balanced s)
    (hQ : l = .call (.semNotify s) → 0 < inside c.curr s c.hist) : c'.Balanced s := by
  cases hst with
  | call x hx hcs =>
      refine hcs.balanced hb fun he => hQ ?_
      rcases hx.2 with hl | ⟨_, _, pc, -, -, hp⟩
      · rw [hl, he]
      · rw [he] at hp; cases pc <;> cases hp
  | ret x _ _ hh _ =>
      intro t
      have he : notifiesBy t s (x.returnEvents c.curr) = 0 := by cases x <;> rfl
      have hle := hb t
      rw [hh]
      unfold notifiesBy at he hle ⊢
      unfold passesBy at hle ⊢
      rw [List.countP_append, List.countP_append, he]
      omega
  | quiet hq => intro t; rw [hq.hist]; exact hb t

end

/-! ## すべての実行 -/

variable {node : Node → Lib.Link Node} {b : BootArgs} {ls : List Label} {c : Machine Heap} {s : SemId}

theorem Reaches.balanced (h : Reaches node b ls c)
    (hQ : Lib.Along Machine.step (NotifiesInside s) (Machine.boot (Heap.empty node) b) ls) : c.Balanced s := by
  obtain ⟨d, hs, -, hb⟩ := Lib.exec_invariant_along
    (I := fun c : Machine Heap => ∃ d : Machine Queues, Sim c d ∧ d.Inv ∧ d.Balanced s)
    (fun c l c' ⟨d, hs, hd, hb⟩ hQ hst => by
      obtain ⟨d', hd', hs'⟩ := hs.step hd hst
      refine ⟨d', hs', hd.step hd', ((step_cases hd').ipc hd).balanced hb fun hl => ?_⟩
      rw [← hs.curr, ← hs.hist]
      exact hQ hl (by simp [hst])) h hQ
    ⟨_, sim_boot b node, inv_boot b, fun t => Nat.le_refl 0⟩
  intro t
  rw [hs.hist]
  exact hb t

/-- 実行されるすべての `sem_notify(s)` が区間の中のタスクのものなら、許可は失われも増えもしない。区間にいる数と値の和は
いつも初めの値で、区間にいる数はそれを超えず、待っているタスクがあれば許可はすべて使われている。初めの値が 1 なら、
区間にいるタスクは高々一つである。 -/
theorem semaphore_section (h : Reaches node b ls c) (hn : 0 ≤ b.sems s)
    (hQ : Lib.Along Machine.step (NotifiesInside s) (Machine.boot (Heap.empty node) b) ls) :
    (∃ T : Finset TaskId, (∀ t, t ∉ T → inside t s c.hist = 0) ∧
      ((∑ t ∈ T, inside t s c.hist : Nat) : Int) + c.kernel.sems s = b.sems s ∧
      (c.tasksOf (.wait (.sem s)) ≠ [] → ((∑ t ∈ T, inside t s c.hist : Nat) : Int) = b.sems s)) ∧
    (∀ T : Finset TaskId, ((∑ t ∈ T, inside t s c.hist : Nat) : Int) ≤ b.sems s) ∧
    (b.sems s = 1 → ∀ t t', 0 < inside t s c.hist → 0 < inside t' s c.hist → t = t') := by
  obtain ⟨d, hs, -, -, -, hse⟩ := h.ipc (P := fun d => d.SemInv s (b.sems s)) (boot_semInv b hn)
    fun d l d' hd _ hse hi => hi.semInv hd hse
  have hw := hs.tasksOf_eq (.wait (.sem s))
  have hsum := sum_inside (h.balanced hQ)
  have hledger := hse.ledger
  have hnonneg := hse.ok.nonneg
  rw [← hs.kernel.sems, ← hs.hist] at hledger
  rw [← hs.kernel.sems] at hnonneg
  have htotal : ((∑ t ∈ semTasks s c.hist, inside t s c.hist : Nat) : Int) + c.kernel.sems s = b.sems s := by
    omega
  have hbound : ∀ T : Finset TaskId, ((∑ t ∈ T, inside t s c.hist : Nat) : Int) ≤ b.sems s := by
    intro T
    have hle : ∑ t ∈ T, inside t s c.hist ≤ ∑ t ∈ semTasks s c.hist, inside t s c.hist :=
      Finset.sum_le_sum_of_ne_zero fun t _ ht => by
        by_contra hnot; exact ht (inside_eq_zero hnot)
    omega
  refine ⟨⟨_, fun t => inside_eq_zero, htotal, fun hne => ?_⟩, hbound, fun h1 t t' ht ht' => ?_⟩
  · have hz : c.kernel.sems s ≤ 0 := by
      by_contra hpos
      refine hne (hw.trans (hse.ok.empty ?_))
      rw [← hs.kernel.sems]; omega
    omega
  · by_contra hne
    have hpair := hbound {t, t'}
    rw [Finset.sum_pair hne] at hpair
    omega

def bootOne : BootArgs := { BootArgs.zero with sems := fun _ => 1 }

def notifiesInside (c : Machine Heap) : Label → Bool
  | .call (.semNotify s) => s ≠ 0 ∨ 0 < inside c.curr 0 c.hist
  | _ => true

/-- 区間にいたタスクの `sem_notify` で、待っていたタスクだけが区間に入る。 -/
theorem semaphore_section_handed :
    ∃ c, Reaches (fun _ => ⟨none, none⟩) bootOne (.call (.semWait 0) :: (initRun 3 13 ++
        [.call .sysSchedYield, .call (.semWait 0), .resume, .call (.semNotify 0)])) c ∧
      0 < inside 3 0 c.hist ∧ ∀ t, 0 < inside t 0 c.hist → t = 3 := by
  have hcount : Lib.countAlong Machine.step (fun c l => !notifiesInside c l)
      (Machine.boot (Heap.empty fun _ => ⟨none, none⟩) bootOne) (.call (.semWait 0) :: (initRun 3 13 ++
        [.call .sysSchedYield, .call (.semWait 0), .resume, .call (.semNotify 0)])) = 0 := by decide +kernel
  obtain ⟨c, hc, hp⟩ := Option.any_eq_true _ _ |>.mp
    (show (Lib.exec Machine.step (Machine.boot (Heap.empty fun _ => ⟨none, none⟩) bootOne)
      (.call (.semWait 0) :: (initRun 3 13 ++
        [.call .sysSchedYield, .call (.semWait 0), .resume, .call (.semNotify 0)]))).any
      (fun c => decide (0 < inside 3 0 c.hist)) = true by decide +kernel)
  have hin := of_decide_eq_true hp
  obtain ⟨-, -, hone⟩ := semaphore_section (s := 0) hc (by decide)
    ((Lib.along_of_countAlong_eq_zero hcount).mono fun c l hl => by
      rintro rfl -
      simpa [notifiesInside] using hl)
  exact ⟨c, hc, hin, fun t ht => hone rfl t 3 ht hin⟩

end Machine

end IdealX86
