import IdealX86.Machine.Lemmas.Sleep

/-!
# タスクの状態

`state` の欄は四つの関数が別々に書き換える。関数ごとに書き換えをまとめ、`state` とリストの一致が、どの歩で保たれ、どの歩で崩れるかを
示す。`TASK_WAITTING` はどこでも書かれない。
-/

namespace IdealX86

open Kernel (InitPc)

namespace Kernel

/-! ## 書き換え -/

section
variable {σ : Type} (k : Kernel σ) (t : TaskId)

def states (t : TaskId) : TaskState := (k.tasks t).state

theorem setState_states (st : TaskState) :
    (k.setTask t fun x => { x with state := st }).states = Function.update k.states t st := by
  funext u
  by_cases hu : u = t
  · subst hu
    simp [states, setTask]
  · simp [states, setTask, hu]

theorem setTask_states {f : Task → Task} (hf : ∀ x, (f x).state = x.state) : (k.setTask t f).states = k.states := by
  funext u
  simp only [states, setTask_tasks]
  split
  · rename_i hu
    rw [hu, hf]
  · rfl

@[simp] theorem tssFields_states (a : InitArgs) (i : Nat) : (k.tssFields t a i).states = k.states := by
  unfold tssFields
  exact setTask_states k t fun _ => rfl

@[simp] theorem countSlice_states : k.countSlice.states = k.states := setTask_states k _ fun _ => rfl

@[simp] theorem resetSlice_states : k.resetSlice.states = k.states := setTask_states k _ fun _ => rfl

variable [ListStore σ]

theorem taskFields_states (a : InitArgs) : (k.taskFields t a).states = Function.update k.states t .created := by
  funext u
  by_cases hu : u = t
  · subst hu
    simp [states, taskFields, setTask]
  · simp [states, taskFields, setTask, hu]

theorem taskSetReady_states (ht : t ≠ idleTask) :
    (k.taskSetReady t).states = Function.update k.states t .ready := by
  rw [taskSetReady, if_neg ht, setState_states]
  rfl

theorem taskSetSleep_states {ticks : UInt32} (hz : ticks ≠ 0) :
    (k.taskSetSleep t ticks).states = Function.update k.states t .sleep := by
  rw [taskSetSleep, if_neg hz, ← setState_states]
  funext u
  simp only [states, insertLast_tasks, setTask_tasks]
  split <;> rfl

@[simp] theorem taskSetBlock_states : (k.taskSetBlock t).states = k.states := by
  funext u
  simp [states]

theorem taskDispatch_states :
    k.taskDispatch.states =
      if k.taskNextRun = k.currTask then k.states else Function.update k.states k.taskNextRun .running := by
  unfold taskDispatch
  dsimp only
  by_cases h : k.taskNextRun = k.currTask
  · rw [if_neg (not_not.mpr h), if_pos h]
  · rw [if_pos h, if_neg h, setState_states]
    rfl

theorem wakeAll_states {ys : List TaskId} (hnd : ys.Nodup) (hi : idleTask ∉ ys) (u : TaskId) :
    (k.wakeAll ys).states u = if u ∈ ys ∧ k.wakes u = true then .ready else k.states u := by
  have htask := wakeAll_tasks k hnd (fun t ht => ne_of_mem_of_not_mem ht hi) u
  simp only [states, htask]
  by_cases hu : u ∈ ys <;> simp [hu]

end

/-- 起動のときの `task_init` は、`idle_task` を除いて `TASK_READY` にする。 -/
theorem taskInit_states {σ : Type} [ListStore σ] {k : Kernel σ} (hf : k.GdtFree) (u : TaskId) (x : InitArgs) :
    (k.taskInit u x).states = Function.update k.states u (if u = idleTask then .created else .ready) := by
  have htss : ∀ r, (k.tssSet u x r).states = k.states := by
    intro r
    cases r with
    | none => rfl
    | some i => exact tssFields_states _ u x i
  rw [taskInit_eq hf]
  by_cases hu : u = idleTask
  · rw [if_pos hu, ← htss, ← taskFields_states _ u x, taskPublish, taskSetReady, if_pos hu]
    rfl
  · rw [if_neg hu, ← htss]
    refine (taskSetReady_states _ u hu).trans ?_
    rw [taskFields_states, Function.update_idem]

/-! ## `TASK_WAITTING` -/

section
variable {σ : Type} {k k' : Kernel σ} {t : TaskId}

/-- どのタスクも `TASK_WAITTING` ではない。 -/
def NoWaitting (k : Kernel σ) : Prop := ∀ t, k.states t ≠ .waitting

theorem NoWaitting.of_states (h : k.NoWaitting) (he : k'.states = k.states) : k'.NoWaitting :=
  fun t => he ▸ h t

theorem NoWaitting.setState (h : k.NoWaitting) {st : TaskState} (hst : st ≠ .waitting)
    (he : k'.states = Function.update k.states t st) : k'.NoWaitting := by
  intro u
  rw [he, Function.update_apply]
  split
  · exact hst
  · exact h u

variable [ListStore σ]

theorem NoWaitting.taskSetReady (h : k.NoWaitting) (t : TaskId) : (k.taskSetReady t).NoWaitting := by
  by_cases ht : t = idleTask
  · rwa [Kernel.taskSetReady, if_pos ht]
  · exact h.setState (by simp) (taskSetReady_states k t ht)

theorem NoWaitting.taskDispatch (h : k.NoWaitting) : k.taskDispatch.NoWaitting := by
  have he := taskDispatch_states k
  split at he
  · exact h.of_states he
  · exact h.setState (by simp) he

theorem NoWaitting.rotate (h : k.NoWaitting) : k.rotate.NoWaitting :=
  ((h.of_states (taskSetBlock_states k _)).taskSetReady _).taskDispatch

theorem NoWaitting.sysSleep (h : k.NoWaitting) (ms : UInt32) : (k.sysSleep ms).NoWaitting := by
  have hb : (k.taskSetBlock k.currTask).NoWaitting := h.of_states (taskSetBlock_states k _)
  refine NoWaitting.taskDispatch ?_
  by_cases hz : sleepTicks ms = 0
  · rwa [taskSetSleep, if_pos hz]
  · exact hb.setState (by simp) (taskSetSleep_states _ k.currTask hz)

theorem NoWaitting.waitOn (h : k.NoWaitting) (w : WaitId) : (k.waitOn w).NoWaitting :=
  NoWaitting.taskDispatch (h.of_states (taskSetBlock_states k k.currTask))

theorem NoWaitting.wakeFirst (h : k.NoWaitting) (w : WaitId) : (k.wakeFirst w).NoWaitting :=
  NoWaitting.taskSetReady (k := (k.removeWaiter w).2) h _

theorem NoWaitting.mutexLock (h : k.NoWaitting) (m : MutexId) : (k.mutexLock m).NoWaitting := by
  unfold Kernel.mutexLock
  dsimp only
  split
  · exact h
  · split
    · exact h
    · exact h.waitOn _

theorem NoWaitting.mutexUnlock (h : k.NoWaitting) (m : MutexId) : (k.mutexUnlock m).NoWaitting := by
  rw [mutexUnlock_eq]
  split
  · split
    · split
      · exact NoWaitting.taskDispatch (k := (k.wakeFirst (.mutex m)).setMutex m _) (h.wakeFirst _)
      · exact h
    · exact h
  · exact h

theorem NoWaitting.call (h : k.NoWaitting) (x : Call) : (k.call x).NoWaitting := by
  cases x with
  | sysSchedYield =>
      change k.sysSchedYield.NoWaitting
      rw [sysSchedYield_eq]
      split
      · exact h.rotate
      · exact h
  | sysSleep ms => exact h.sysSleep ms
  | semWait s =>
      simp only [Kernel.call, semWait]
      split
      · exact h
      · exact h.waitOn _
  | semNotify s =>
      simp only [Kernel.call, semNotify_eq]
      split
      · exact (h.wakeFirst _).taskDispatch
      · exact h
  | mutexLock m => exact h.mutexLock m
  | mutexUnlock m => exact h.mutexUnlock m

theorem NoWaitting.tickSlice (h : k.NoWaitting) : k.tickSlice.NoWaitting := by
  have h₁ : k.countSlice.NoWaitting := h.of_states (countSlice_states k)
  rw [tickSlice_eq]
  split
  · exact NoWaitting.rotate (h₁.of_states (resetSlice_states _))
  · exact h₁

theorem NoWaitting.wakeOne (h : k.NoWaitting) (t : TaskId) : (k.wakeOne t).NoWaitting := by
  have hc : (k.countSleep t).NoWaitting := h.of_states (setTask_states _ _ fun _ => rfl)
  rw [wakeOne_eq]
  split
  · exact NoWaitting.taskSetReady (k := (k.countSleep t).taskSetWakeup t) hc t
  · exact hc

theorem NoWaitting.tickSleep (h : k.NoWaitting) : k.tickSleep.NoWaitting := by
  have hwalk : ∀ (fuel : Nat) (curr : Option Node) {k : Kernel σ}, k.NoWaitting →
      (sleepWalk fuel curr k).1.NoWaitting := by
    intro fuel
    induction fuel with
    | zero => exact fun _ _ h => h
    | succ fuel ih =>
        intro curr k h
        cases curr with
        | none => exact h
        | some n => exact ih _ (h.wakeOne _)
  exact (hwalk _ _ h).taskDispatch

theorem NoWaitting.initLocal (h : k.NoWaitting) (u : TaskId) (a : InitArgs) (pc : InitPc) :
    (k.initLocal u a pc).NoWaitting := by
  cases pc with
  | tss i => exact h.of_states (tssFields_states k u a i)
  | fields => exact h.setState (by simp) (taskFields_states k u a)
  | publish => exact h.taskSetReady u
  | _ => exact h

end

/-! ## 状態とリストの一致 -/

section
variable {a b : Kernel Queues} {t : TaskId}

/-- 今のタスクを除いて、タスクの状態は、つながれているリストと一致する。 -/
structure OthersAgree (a : Kernel Queues) : Prop where
  ready : ∀ t ∈ a.lists.ready, t ≠ a.currTask → a.states t = .ready
  sleep : ∀ t ∈ a.lists.sleep, a.states t = .sleep
  wait : ∀ w, ∀ t ∈ a.lists.wait w, a.states t = .waitting
  running : ∀ t, a.states t = .running → t = a.currTask

/-- 今のタスクも `TASK_RUNNING` である。 -/
structure Agrees (a : Kernel Queues) : Prop extends OthersAgree a where
  curr : a.states a.currTask = .running

/-- `a` から `b` への動きは、今のタスクを除いた一致を保ち、今のタスクの状態は、切り替わるなら `TASK_RUNNING`、そうでなければ元のままである。 -/
structure Kept (a b : Kernel Queues) : Prop where
  others : b.OthersAgree
  curr : b.states b.currTask = .running ∨ b.currTask = a.currTask ∧ b.states a.currTask = a.states a.currTask

theorem Agrees.kept (h : b.Agrees) : Kept a b := ⟨h.toOthersAgree, Or.inl h.curr⟩

theorem Kept.agrees (h : Kept a b) (ha : a.Agrees) : b.Agrees := by
  refine ⟨h.others, ?_⟩
  rcases h.curr with hc | ⟨hc, hst⟩
  · exact hc
  · rw [hc, hst]
    exact ha.curr

theorem Kept.trans {c : Kernel Queues} (h₁ : Kept a b) (h₂ : Kept b c) : Kept a c := by
  refine ⟨h₂.others, ?_⟩
  rcases h₂.curr with hc | ⟨hc, hst⟩
  · exact Or.inl hc
  · rcases h₁.curr with hc' | ⟨hc', hst'⟩
    · exact Or.inl (by rw [hc, hst, hc'])
    · rw [hc'] at hc hst
      exact Or.inr ⟨hc, hst.trans hst'⟩

theorem OthersAgree.of_same (h : a.OthersAgree) (hl : b.lists = a.lists) (hc : b.currTask = a.currTask)
    (hs : b.states = a.states) : Kept a b := by
  refine ⟨?_, Or.inr ⟨hc, by rw [hs]⟩⟩
  obtain ⟨h₁, h₂, h₃, h₄⟩ := h
  constructor <;> rw [hs] <;> (try rw [hl]) <;> (try rw [hc]) <;> assumption

/-- `TASK_WAITTING` のタスクがないので、一致しているなら待ち行列はすべて空である。 -/
theorem OthersAgree.wait_nil (h : a.OthersAgree) (hn : a.NoWaitting) (w : WaitId) : a.lists.wait w = [] :=
  List.eq_nil_iff_forall_not_mem.mpr fun t ht => hn t (h.wait w t ht)

theorem Inv.nextRun (h : a.taskDispatch.Inv) : a.taskNextRun = a.lists.ready.head?.getD idleTask := by
  have hh := h.head
  rw [taskDispatch_lists, taskDispatch_currTask] at hh
  exact hh.symm

/-- `task_dispatch` の前に、次のタスクを除いて状態がそろっていれば、後では一致する。 -/
theorem othersAgree_taskDispatch (hi : a.taskDispatch.Inv)
    (hready : ∀ t ∈ a.lists.ready, t ≠ a.taskNextRun → a.states t = .ready)
    (hsleep : ∀ t ∈ a.lists.sleep, a.states t = .sleep) (hwait : ∀ w, a.lists.wait w = [])
    (hrun : ∀ t, a.states t = .running → t = a.taskNextRun) : a.taskDispatch.OthersAgree := by
  have hnext : a.taskNextRun ∉ a.lists.sleep := by
    have h := hi.curr_not_asleep
    rwa [taskDispatch_lists, taskDispatch_currTask] at h
  have hst : ∀ t, t ≠ a.taskNextRun → a.taskDispatch.states t = a.states t := by
    intro t ht
    rw [taskDispatch_states]
    split
    · rfl
    · exact Function.update_of_ne ht _ _
  constructor
  · intro t ht hne
    rw [taskDispatch_currTask] at hne
    rw [taskDispatch_lists] at ht
    rw [hst t hne]
    exact hready t ht hne
  · intro t ht
    rw [taskDispatch_lists] at ht
    rw [hst t fun he => hnext (he ▸ ht)]
    exact hsleep t ht
  · intro w t ht
    rw [taskDispatch_lists, hwait w] at ht
    cases ht
  · intro t ht
    rw [taskDispatch_currTask]
    by_contra hne
    rw [hst t hne] at ht
    exact hne (hrun t ht)

section
variable (h : a.Inv) (ha : a.OthersAgree) (hn : a.NoWaitting)
include ha hn

/-- 今のタスクの状態を `st` に変え、それに合ったリストへ移して、ほかのタスクへ切り替わると、今のタスクも含めて一致する。 -/
theorem OthersAgree.leave {st : TaskState} (hi : b.taskDispatch.Inv)
    (hst : b.states = Function.update a.states a.currTask st) (hrun : st ≠ .running)
    (hnext : b.taskNextRun ≠ b.currTask) (hwait : b.lists.wait = a.lists.wait)
    (hready : ∀ t ∈ b.lists.ready, if t = a.currTask then st = .ready else t ∈ a.lists.ready)
    (hsleep : ∀ t ∈ b.lists.sleep, if t = a.currTask then st = .sleep else t ∈ a.lists.sleep) :
    b.taskDispatch.Agrees := by
  refine ⟨othersAgree_taskDispatch hi (fun t ht _ => ?_) (fun t ht => ?_) (fun w => ?_) (fun t ht => ?_), ?_⟩
  · have hm := hready t ht
    rw [hst, Function.update_apply]
    split at hm
    · rw [if_pos ‹_›, hm]
    · rw [if_neg ‹_›]
      exact ha.ready t hm ‹_›
  · have hm := hsleep t ht
    rw [hst, Function.update_apply]
    split at hm
    · rw [if_pos ‹_›, hm]
    · rw [if_neg ‹_›]
      exact ha.sleep t hm
  · rw [hwait]
    exact ha.wait_nil hn w
  · rw [hst, Function.update_apply] at ht
    split at ht
    · exact absurd ht hrun
    · exact absurd (ha.running t ht) ‹_›
  · rw [taskDispatch_currTask, taskDispatch_states, if_neg hnext]
    exact Function.update_self ..

include h

/-- 末尾へ回すと、ほかに待つタスクがあれば切り替わる。 -/
theorem OthersAgree.rotate (hlen : 1 < a.lists.ready.length) : a.rotate.Agrees := by
  have hc : a.currTask ≠ idleTask := fun he => by
    rw [h.ready_nil he] at hlen
    cases hlen
  obtain ⟨ts, hr⟩ := h.ready_cons hc
  obtain ⟨u, us, rfl⟩ : ∃ u us, ts = u :: us := by
    cases ts with
    | nil => rw [hr] at hlen; simp at hlen
    | cons u us => exact ⟨u, us, rfl⟩
  have hne : u ≠ a.currTask := fun he => h.curr_not_mem_tail hr (by simp [he])
  have hl := h.rotate_lists
  have hi := h.rotate
  unfold Kernel.rotate at hl hi ⊢
  rw [taskDispatch_lists] at hl
  refine ha.leave hn hi (by rw [taskSetReady_states _ _ hc, taskSetBlock_states]) (by simp) ?_ (by rw [hl]) ?_ ?_
  · rw [hi.nextRun, hl]
    simpa [hr] using hne
  · intro t ht
    rw [hl] at ht
    split
    · rfl
    · exact List.mem_rotate.mp ht
  · intro t ht
    rw [hl] at ht
    have hct : t ≠ a.currTask := fun he => h.curr_not_asleep (he ▸ ht)
    rw [if_neg hct]
    exact ht

/-- `sys_sleep` は、必ずほかのタスクへ切り替わる。眠る時間が 0 だと今のタスクの状態は変わらないので、それが `TASK_RUNNING` で
なければ一致する。 -/
theorem OthersAgree.sysSleep (hc : a.currTask ≠ idleTask) {ms : UInt32}
    (hz : sleepTicks ms ≠ 0 ∨ a.states a.currTask ≠ .running) : (a.sysSleep ms).Agrees := by
  obtain ⟨ts, hr⟩ := h.ready_cons hc
  have hnot := h.curr_not_mem_tail hr
  have hl := h.sysSleep_lists hc ms
  have hi := h.sysSleep hc ms
  unfold Kernel.sysSleep at hl hi ⊢
  rw [taskDispatch_lists] at hl
  have hst : ((a.taskSetBlock a.currTask).taskSetSleep a.currTask (sleepTicks ms)).states =
      Function.update a.states a.currTask (if sleepTicks ms = 0 then a.states a.currTask else .sleep) := by
    split
    · rename_i h₀
      rw [taskSetSleep, if_pos h₀, taskSetBlock_states, Function.update_eq_self]
    · rename_i h₀
      rw [taskSetSleep_states _ _ h₀, taskSetBlock_states]
  have hrun : (if sleepTicks ms = 0 then a.states a.currTask else .sleep) ≠ TaskState.running := by
    split
    · rename_i h₀
      exact hz.resolve_left (not_not.mpr h₀)
    · simp
  have hcurr : ((a.taskSetBlock a.currTask).taskSetSleep a.currTask (sleepTicks ms)).currTask = a.currTask := by
    unfold taskSetSleep
    split <;> simp
  refine ha.leave hn hi hst hrun ?_ (by rw [hl]) ?_ ?_
  · rw [hi.nextRun, hl, hcurr, hr]
    cases ts with
    | nil => exact Ne.symm hc
    | cons u us => exact fun he => hnot (List.mem_cons.mpr (Or.inl he.symm))
  · intro t ht
    rw [hl] at ht
    dsimp only at ht
    rw [hr] at ht ⊢
    have hct : t ≠ a.currTask := fun he => hnot (he ▸ ht)
    rw [if_neg hct]
    exact List.mem_cons_of_mem _ ht
  · intro t ht
    rw [hl] at ht
    dsimp only at ht
    by_cases h₀ : sleepTicks ms = 0
    · rw [if_pos h₀] at ht
      have hct : t ≠ a.currTask := fun he => h.curr_not_asleep (he ▸ ht)
      rw [if_neg hct]
      exact ht
    · rw [if_neg h₀] at ht ⊢
      split
      · rfl
      · rename_i hct
        rcases List.mem_append.mp ht with ht | ht
        · exact ht
        · exact absurd (List.mem_singleton.mp ht) hct

/-- 起こす間、今のタスクが先頭のままなら、一致が保たれる。 -/
theorem OthersAgree.tickSleep (hc : a.currTask = idleTask → ∀ t ∈ a.lists.sleep, a.wakes t = false) :
    Kept a a.tickSleep := by
  have hl := h.tickSleep_lists
  have hi := h.tickSleep
  have hidle : idleTask ∉ a.lists.sleep := h.placed.idle .sleep (by simp)
  have hnd : a.lists.sleep.Nodup := h.placed.nodup .sleep
  have hst := wakeAll_states a hnd hidle
  rw [tickSleep_eq h.placed] at hl hi ⊢
  rw [taskDispatch_lists] at hl
  have hnext : (a.wakeAll a.lists.sleep).taskNextRun = a.currTask := by
    rw [hi.nextRun, hl]
    by_cases hci : a.currTask = idleTask
    · have hnone : a.lists.sleep.filter a.wakes = [] :=
        List.filter_eq_nil_iff.mpr fun t ht => by rw [hc hci t ht]; simp
      simp [h.ready_nil hci, hnone, hci]
    · obtain ⟨ts, hr⟩ := h.ready_cons hci
      simp [hr]
  have hcurr : (a.wakeAll a.lists.sleep).currTask = a.currTask := (wakeAll_frame a _).1
  refine ⟨othersAgree_taskDispatch hi (fun t ht hnt => ?_) (fun t ht => ?_) (fun w => ?_) (fun t ht => ?_),
    Or.inr ⟨by rw [taskDispatch_currTask, hnext], ?_⟩⟩
  · rw [hl] at ht
    rw [hnext] at hnt
    rw [hst]
    split
    · rfl
    · rename_i hw
      rcases List.mem_append.mp ht with ht | ht
      · exact ha.ready t ht hnt
      · exact absurd (List.mem_filter.mp ht) hw
  · rw [hl] at ht
    obtain ⟨hm, hw⟩ := List.mem_filter.mp ht
    rw [hst, if_neg (by simpa [hm] using hw)]
    exact ha.sleep t hm
  · rw [hl]
    exact ha.wait_nil hn w
  · rw [hst] at ht
    split at ht
    · cases ht
    · rw [hnext]
      exact ha.running t ht
  · rw [taskDispatch_states, if_pos (hnext.trans hcurr.symm), hst, if_neg fun hh => h.curr_not_asleep hh.1]

end

/-! ## 呼び出しと `task_init` -/

/-- 呼び出し `x` が待ちに入る。 -/
def Blocks {σ : Type} (k : Kernel σ) : Call → Prop
  | .semWait s => k.sems s ≤ 0
  | .mutexLock m => (k.mutexes m).lockedCount ≠ 0 ∧ (k.mutexes m).owner ≠ k.currTask
  | _ => False

theorem Blocks.call_eq {σ : Type} [ListStore σ] {k : Kernel σ} {x : Call} (hb : k.Blocks x) :
    ∃ w, k.call x = k.waitOn w := by
  cases x with
  | semWait s =>
      have hs : k.sems s ≤ 0 := hb
      exact ⟨.sem s, if_neg (by omega)⟩
  | mutexLock m =>
      refine ⟨.mutex m, ?_⟩
      simp only [Kernel.call, Kernel.mutexLock]
      rw [if_neg hb.1, if_neg hb.2]
  | _ => cases hb

section
variable (h : a.Inv) (ha : a.OthersAgree) (hn : a.NoWaitting)
include ha hn

theorem OthersAgree.count_wait (w : WaitId) : ListStore.count a.lists (.wait w) = 0 := by
  simp [ha.wait_nil hn w]

include h

omit h in
/-- 待ちに入らず、眠らず、譲る相手もいない呼び出しは、リストも状態も変えない。 -/
theorem OthersAgree.call_same {x : Call} (hb : ¬ a.Blocks x) (hs : ∀ ms, x ≠ .sysSleep ms)
    (hy : x = .sysSchedYield → a.lists.ready.length ≤ 1) :
    (a.call x).lists = a.lists ∧ (a.call x).currTask = a.currTask ∧ (a.call x).states = a.states := by
  cases x with
  | sysSchedYield =>
      change a.sysSchedYield.lists = _ ∧ a.sysSchedYield.currTask = _ ∧ a.sysSchedYield.states = _
      have hlen := hy rfl
      rw [sysSchedYield_eq, if_neg (by simp only [Queues.count_eq, Queues.seq_ready]; omega)]
      exact ⟨rfl, rfl, rfl⟩
  | sysSleep ms => exact absurd rfl (hs ms)
  | semWait s =>
      have hpos : ¬ a.sems s ≤ 0 := hb
      simp only [Kernel.call, semWait]
      rw [if_pos (by omega)]
      exact ⟨rfl, rfl, rfl⟩
  | semNotify s =>
      simp only [Kernel.call, semNotify_eq]
      rw [if_neg (not_not.mpr (ha.count_wait hn _))]
      exact ⟨rfl, rfl, rfl⟩
  | mutexLock m =>
      simp only [Kernel.call, mutexLock]
      split
      · exact ⟨rfl, rfl, rfl⟩
      · rename_i h₁
        split
        · exact ⟨rfl, rfl, rfl⟩
        · rename_i h₂
          exact absurd ⟨h₁, h₂⟩ hb
  | mutexUnlock m =>
      simp only [Kernel.call, mutexUnlock_eq, ha.count_wait hn]
      split
      · split
        · exact ⟨rfl, rfl, rfl⟩
        · exact ⟨rfl, rfl, rfl⟩
      · exact ⟨rfl, rfl, rfl⟩

theorem OthersAgree.call (hc : a.currTask ≠ idleTask) {x : Call} (hb : ¬ a.Blocks x)
    (hz : ∀ ms, x = .sysSleep ms → sleepTicks ms ≠ 0) : Kept a (a.call x) := by
  by_cases hs : ∃ ms, x = .sysSleep ms
  · obtain ⟨ms, rfl⟩ := hs
    exact (ha.sysSleep h hn hc (Or.inl (hz ms rfl))).kept
  · by_cases hy : x = .sysSchedYield ∧ 1 < a.lists.ready.length
    · obtain ⟨rfl, hlen⟩ := hy
      change Kept a a.sysSchedYield
      rw [sysSchedYield_eq, if_pos (by simp only [Queues.count_eq, Queues.seq_ready]; omega)]
      exact (ha.rotate h hn hlen).kept
    · obtain ⟨hl, hcurr, hst⟩ := ha.call_same hn hb (not_exists.mp hs) fun he => by
        by_contra hlen
        exact hy ⟨he, by omega⟩
      exact ha.of_same hl hcurr hst

end

/-- まだ公開されていないタスクの状態を書き換え、`ready_list` につなぐとしても `TASK_READY` でつなぐなら、一致が保たれる。 -/
theorem OthersAgree.fresh {u : TaskId} {st : TaskState} (h : a.Inv) (ha : a.OthersAgree) (hi : a.currTask ≠ idleTask)
    (hu : u ∉ a.lists.task) (hc : b.currTask = a.currTask) (hst : b.states = Function.update a.states u st)
    (hrun : st ≠ .running) (hready : ∀ t ∈ b.lists.ready, t = u ∧ st = .ready ∨ t ∈ a.lists.ready)
    (hsleep : b.lists.sleep = a.lists.sleep) (hwait : b.lists.wait = a.lists.wait) : Kept a b := by
  have hne : ∀ (l : ListId) (t : TaskId), t ∈ a.lists.seq l → t ≠ u := fun l t ht he =>
    hu (he ▸ h.placed.known l t ht)
  have hcu : a.currTask ≠ u := hne .ready _ (h.curr_mem hi)
  refine ⟨⟨fun t ht hct => ?_, fun t ht => ?_, fun w t ht => ?_, fun t ht => ?_⟩,
    Or.inr ⟨hc, by rw [hst, Function.update_of_ne hcu]⟩⟩
  · rw [hc] at hct
    rw [hst, Function.update_apply]
    rcases hready t ht with ⟨rfl, he⟩ | hm
    · rw [if_pos rfl, he]
    · rw [if_neg (hne .ready t hm)]
      exact ha.ready t hm hct
  · rw [hsleep] at ht
    rw [hst, Function.update_of_ne (hne .sleep t ht)]
    exact ha.sleep t ht
  · rw [hwait] at ht
    rw [hst, Function.update_of_ne (hne (.wait w) t ht)]
    exact ha.wait w t ht
  · rw [hst, Function.update_apply] at ht
    rw [hc]
    split at ht
    · exact absurd ht hrun
    · exact ha.running t ht

theorem OthersAgree.initLocal {u : TaskId} (h : a.Inv) (ha : a.OthersAgree) (hi : a.currTask ≠ idleTask)
    (hu : u ∉ a.lists.task) (hui : u ≠ idleTask) (x : InitArgs) (pc : InitPc) : Kept a (a.initLocal u x pc) := by
  cases pc with
  | tss i => exact ha.of_same rfl rfl (tssFields_states a u x i)
  | fields => exact ha.fresh h hi hu rfl (taskFields_states a u x) (by simp) (fun t ht => Or.inr ht) rfl rfl
  | publish =>
      have hl : (a.initLocal u x .publish).lists = _ := taskPublish_lists a hui
      refine ha.fresh h hi hu (taskPublish_frame a u).1 (taskSetReady_states a u hui) (by simp) (fun t ht => ?_)
        (by rw [hl]) (by rw [hl])
      rw [hl] at ht
      rcases List.mem_append.mp ht with ht | ht
      · exact Or.inr ht
      · exact Or.inl ⟨List.mem_singleton.mp ht, rfl⟩
  | _ => exact ha.of_same rfl rfl rfl

/-! ## 一致の崩れる歩 -/

/-- 待ちに入ったタスクは、`TASK_WAITTING` にならない。 -/
theorem Inv.not_agrees_waitOn (h : a.Inv) (hc : a.currTask ≠ idleTask) {w : WaitId} (hn : (a.waitOn w).NoWaitting) :
    ¬ (a.waitOn w).Agrees := by
  intro ha
  refine hn a.currTask (ha.wait w a.currTask ?_)
  rw [h.waitOn_lists hc]
  simp

/-- 眠る時間が 0 だと、離れたタスクは `TASK_RUNNING` のまま残る。 -/
theorem Inv.not_agrees_sysSleep (h : a.Inv) (ha : a.Agrees) (hc : a.currTask ≠ idleTask) {ms : UInt32}
    (hz : sleepTicks ms = 0) : ¬ (a.sysSleep ms).Agrees := by
  intro ha'
  have hi := h.sysSleep hc ms
  have hl := h.sysSleep_lists hc ms
  have hcurr : (a.sysSleep ms).currTask ≠ a.currTask := by
    intro he
    have hm := hi.curr_mem (by rw [he]; exact hc)
    obtain ⟨ts, hr⟩ := h.ready_cons hc
    rw [hl, he, hr] at hm
    exact h.curr_not_mem_tail hr hm
  have hst : (a.sysSleep ms).states a.currTask = a.states a.currTask := by
    simp only [Kernel.sysSleep, taskSetSleep, hz, ↓reduceIte] at hcurr ⊢
    rw [taskDispatch_currTask] at hcurr
    rw [taskDispatch_states]
    split
    · simp
    · rw [Function.update_of_ne (Ne.symm hcurr), taskSetBlock_states]
  exact hcurr (ha'.running _ (hst.trans ha.curr)).symm

theorem Inv.tickSleep_states (h : a.Inv) (hc : t ∉ a.lists.sleep) (hne : a.tickSleep.currTask ≠ t ∨ a.currTask = t) :
    a.tickSleep.states t = a.states t := by
  have hidle : idleTask ∉ a.lists.sleep := h.placed.idle .sleep (by simp)
  have hnd : a.lists.sleep.Nodup := h.placed.nodup .sleep
  have hst := wakeAll_states a hnd hidle t
  rw [if_neg fun hh => hc hh.1] at hst
  rw [tickSleep_eq h.placed] at hne ⊢
  rw [taskDispatch_currTask] at hne
  rw [taskDispatch_states, ← hst]
  split
  · rfl
  · rename_i hsw
    rw [(wakeAll_frame a _).1] at hsw
    refine Function.update_of_ne (fun he => ?_) _ _
    rcases hne with hne | rfl
    · exact hne he.symm
    · exact hsw he.symm

theorem Inv.tickSleep_curr (h : a.Inv) (hc : a.currTask ≠ idleTask) : a.tickSleep.currTask = a.currTask := by
  have hh := h.tickSleep.head
  obtain ⟨ts, hr⟩ := h.ready_cons hc
  rw [h.tickSleep_lists, hr] at hh
  exact hh.symm

/-- 一人で時間片を使い切ったタスクは、切り替わらずに `TASK_READY` になる。 -/
theorem Inv.tickSlice_alone (h : a.Inv) (hc : a.currTask ≠ idleTask) (hs : a.sliceEnds = true)
    (hlen : a.lists.ready.length ≤ 1) :
    a.tickSlice.currTask = a.currTask ∧ a.tickSlice.states a.currTask = .ready := by
  have hcurr := h.tickSlice_currTask.mpr fun hh => by omega
  refine ⟨hcurr, ?_⟩
  rw [tickSlice_eq_sliceEnds, if_pos hs] at hcurr ⊢
  unfold Kernel.rotate at hcurr ⊢
  have hk : a.countSlice.resetSlice.currTask = a.currTask := rfl
  rw [taskDispatch_currTask, hk] at hcurr
  rw [taskDispatch_states, hk, hcurr, if_pos (by simp [hk]), taskSetReady_states _ _ hc]
  exact Function.update_self ..

theorem Inv.not_agrees_tickSlice (h : a.Inv) (hc : a.currTask ≠ idleTask) (hs : a.sliceEnds = true)
    (hlen : a.lists.ready.length ≤ 1) : ¬ a.tickSlice.tickSleep.Agrees := by
  obtain ⟨hcurr, hst⟩ := h.tickSlice_alone hc hs hlen
  intro ha
  have hcs : a.tickSlice.currTask ≠ idleTask := by rwa [hcurr]
  have hrun := ha.curr
  rw [h.tickSlice.tickSleep_curr hcs, h.tickSlice.tickSleep_states h.tickSlice.curr_not_asleep (Or.inr rfl),
    hcurr, hst] at hrun
  cases hrun

/-- `idle_task` は、離れても `TASK_RUNNING` のまま残る。 -/
theorem Inv.not_agrees_tickSleep (h : a.Inv) (ha : a.Agrees) (hc : a.currTask = idleTask) (ht : t ∈ a.lists.sleep)
    (hw : a.wakes t = true) : ¬ a.tickSleep.Agrees := by
  intro ha'
  have hidle : idleTask ∉ a.lists.sleep := h.placed.idle .sleep (by simp)
  have hready : a.tickSleep.lists.ready ≠ [] := by
    rw [h.tickSleep_lists]
    exact List.ne_nil_of_mem (List.mem_append_right _ (List.mem_filter.mpr ⟨ht, hw⟩))
  have hcurr : a.tickSleep.currTask ≠ idleTask := fun he => hready (h.tickSleep.ready_nil he)
  have hst := h.tickSleep_states hidle (Or.inl hcurr)
  rw [← hc] at hst hcurr
  exact hcurr (ha'.running _ (hst.trans ha.curr)).symm

/-- `idle_task` の時間片は、尽きても何も動かさない。 -/
theorem Inv.tickSlice_idle (h : a.Inv) (hc : a.currTask = idleTask) :
    a.tickSlice.currTask = a.currTask ∧ a.tickSlice.lists = a.lists ∧ a.tickSlice.states = a.states ∧
      ∀ t, a.tickSlice.wakes t = a.wakes t := by
  have hr := h.ready_nil hc
  have hcurr : a.tickSlice.currTask = a.currTask := h.tickSlice_currTask.mpr fun hh => by simp [hr] at hh
  have hcores : ∀ t, (a.tickSlice.tasks t).sleepTicks = (a.tasks t).sleepTicks := by
    intro t
    have hk := congrArg Task.sleepTicks (tickSlice_cores a t)
    split at hk <;> exact hk
  refine ⟨hcurr, ?_, ?_, fun t => by simp only [wakes, hcores]⟩
  · rw [h.tickSlice_lists]
    simp only [hr, List.rotate_nil, ite_self]
    rw [← hr]
  · rw [tickSlice_eq_sliceEnds] at hcurr ⊢
    split at hcurr
    · rename_i hs
      have hk : a.countSlice.resetSlice.currTask = idleTask := hc
      rw [if_pos hs]
      unfold Kernel.rotate at hcurr ⊢
      simp only [hk, taskSetBlock, taskSetReady, ↓reduceIte, taskDispatch_currTask] at hcurr ⊢
      rw [taskDispatch_states, hcurr, if_pos (by rw [hk, hc]), resetSlice_states, countSlice_states]
    · rename_i hs
      rw [if_neg hs, countSlice_states]

theorem OthersAgree.tickSlice (h : a.Inv) (ha : a.OthersAgree) (hn : a.NoWaitting)
    (hb : a.currTask ≠ idleTask → a.sliceEnds = true → 1 < a.lists.ready.length) : Kept a a.tickSlice := by
  have h₂ : a.countSlice.resetSlice.states = a.states := by simp
  by_cases hc : a.currTask = idleTask
  · obtain ⟨hcurr, hl, hst, -⟩ := h.tickSlice_idle hc
    exact ha.of_same hl hcurr hst
  · rw [tickSlice_eq_sliceEnds]
    split
    · rename_i hs
      have hk : Kept a a.countSlice.resetSlice := ha.of_same rfl rfl h₂
      exact (hk.others.rotate h.countSlice.resetSlice (hn.of_states h₂) (hb hc hs)).kept
    · exact ha.of_same rfl rfl (countSlice_states a)

end

end Kernel

/-! ## 機械の一歩 -/

namespace Machine

open Kernel

section
variable {σ : Type}

/-- 一致を崩す歩。`ready` と `sleep` は二つのリストの並びである。順に、待ちに入る呼び出し、一人で時間片を使い切る割り込み、眠る時間が 0 の
`sys_sleep`、`idle_task` の間に誰かを起こす割り込みである。 -/
def Breaks (c : Machine σ) (ready sleep : List TaskId) (l : Label) : Prop :=
  (∃ x, c.Calls l x ∧ c.kernel.Blocks x) ∨
    (l = .tick ∧ c.curr ≠ idleTask ∧ c.kernel.sliceEnds = true ∧ ready.length ≤ 1) ∨
    (∃ ms, l = .call (.sysSleep ms) ∧ sleepTicks ms = 0) ∨
    (l = .tick ∧ c.curr = idleTask ∧ ∃ t ∈ sleep, c.kernel.wakes t = true)

end

variable {c c' : Machine Queues} {l : Label}

/-- 状態についての不変条件。`idle_task` は、割り込みの前半では切り替わらない。 -/
structure StateInv (c : Machine Queues) : Prop where
  noWaitting : c.kernel.NoWaitting
  idle : c.susp idleTask ≠ some .tickSlice

theorem settle_idle {c : Machine Queues} (h : c.susp idleTask ≠ some .tickSlice) (k : Kernel Queues) {r : Suspended}
    (hr : r ≠ .tickSlice) : (c.settle k r).susp idleTask ≠ some .tickSlice := by
  rw [settle_susp]
  split
  · exact h
  · rw [Function.update_apply]
    split
    · simpa using hr
    · exact h

theorem Step.idle_susp (hst : c.Step l c') (h : c.Inv) (hs : c.susp idleTask ≠ some .tickSlice) :
    c'.susp idleTask ≠ some .tickSlice := by
  have hnone : ∀ {c : Machine Queues}, c.susp idleTask ≠ some .tickSlice →
      (c.setSusp c.curr none).susp idleTask ≠ some .tickSlice := by
    intro c hc
    change Function.update c.susp c.curr none idleTask ≠ _
    rw [Function.update_apply]
    split
    · simp
    · exact hc
  cases hst with
  | tick h₁ =>
      unfold doTick
      dsimp only
      split
      · exact settle_idle (c := { c with kernel := c.kernel.tickSlice }) hs _ (by simp)
      · rename_i hsw
        have hc : idleTask ≠ c.curr := fun he => hsw (h.kernel.tickSlice_idle he.symm).1
        rw [show ({ c.setSusp c.curr (some Suspended.tickSlice) with kernel := c.kernel.tickSlice } :
          Machine Queues).susp idleTask = c.susp idleTask from Function.update_of_ne hc _ _]
        exact hs
  | resume r h₁ =>
      cases r with
      | call x => exact hnone hs
      | tickSlice => exact settle_idle (hnone hs) _ (by simp)
      | tickEnd => exact hnone hs
  | call x h₁ ho hi => exact settle_idle hs _ (by simp)
  | initStart u a h₁ ho hi hn hu => exact hs
  | initStep u a pc h₁ hc =>
      unfold doInit
      dsimp only
      split
      · exact settle_idle (c := c.setCode c.curr _) hs _ (by simp)
      · exact hs

theorem Step.stateInv (hst : c.Step l c') (h : c.Inv) (hs : c.StateInv) : c'.StateInv :=
  ⟨hst.kernel h.idle hs.noWaitting (fun x _ => hs.noWaitting.call x) hs.noWaitting.tickSlice
    (fun _ hk => hk.tickSleep) fun u a pc _ => hs.noWaitting.initLocal u a pc, hst.idle_susp h hs.idle⟩

theorem Step.calls_kernel (hst : c.Step l c') {x : Call} (hx : c.Calls l x) : c'.kernel = c.kernel.call x := by
  cases hst with
  | call y hs ho hi =>
      rcases hx.2 with he | ⟨u, a, pc, he, -⟩
      · cases he
        exact doCall_kernel c x
      · cases he
  | initStep u a pc hs hc =>
      rcases hx.2 with he | ⟨v, b, pc', -, hc', hp⟩
      · cases he
      · rw [hc] at hc'
        cases hc'
        rw [doInit_kernel, hp]
  | _ => rcases hx.2 with he | ⟨u, a, pc, he, -⟩ <;> cases he

/-- 一致は、崩す歩でなければ保たれる。 -/
theorem Step.kept (hst : c.Step l c') (h : c.Inv) (hs : c.StateInv) (ha : c.kernel.OthersAgree)
    (hb : ¬ c.Breaks c.kernel.lists.ready c.kernel.lists.sleep l) : Kept c.kernel c'.kernel := by
  have hn := hs.noWaitting
  have hsame : Kept c.kernel c.kernel := ha.of_same rfl rfl rfl
  have hcall : ∀ x, c.Calls l x → Kept c.kernel (c.kernel.call x) := by
    intro x hx
    refine ha.call h.kernel hn hx.1 (fun hbl => hb (Or.inl ⟨x, hx, hbl⟩)) ?_
    rintro ms rfl hz
    rcases hx.2 with hl | ⟨u, a, pc, -, -, hp⟩
    · exact hb (Or.inr (Or.inr (Or.inl ⟨ms, hl, hz⟩)))
    · cases pc <;> cases hp
  cases hst with
  | tick h₁ =>
      have hslice := ha.tickSlice h.kernel hn fun hc he => by
        by_contra hlen
        exact hb (Or.inr (Or.inl ⟨rfl, hc, he, by omega⟩))
      rw [doTick_kernel]
      split
      · rename_i hcurr
        refine hslice.trans (hslice.others.tickSleep h.kernel.tickSlice hn.tickSlice fun hc t ht => ?_)
        rw [hcurr] at hc
        obtain ⟨-, hl, -, hw⟩ := h.kernel.tickSlice_idle hc
        rw [hl] at ht
        rw [hw]
        by_contra hne
        exact hb (Or.inr (Or.inr (Or.inr ⟨rfl, hc, t, ht, by simpa using hne⟩)))
      · exact hslice
  | resume r h₁ =>
      cases r with
      | call x => exact hsame
      | tickSlice =>
          have hk : (c.doResume .tickSlice).kernel = c.kernel.tickSleep := by simp [doResume]
          rw [hk]
          refine ha.tickSleep h.kernel hn fun hc => ?_
          have hc' : c.curr = idleTask := hc
          rw [hc'] at h₁
          exact absurd h₁ hs.idle
      | tickEnd => exact hsame
  | call x h₁ ho hi =>
      rw [doCall_kernel]
      exact hcall x ⟨hi, .inl rfl⟩
  | initStart u a h₁ ho hi hn hu => exact hsame
  | initStep u a pc h₁ hc =>
      have hi := h.curr_ne_idle hc
      rw [doInit_kernel]
      cases hx : initCall pc with
      | some x => exact hcall x ⟨hi, .inr ⟨u, a, pc, rfl, hc, hx⟩⟩
      | none => exact ha.initLocal h.kernel hi (h.fresh hc).2.1 (h.fresh hc).2.2.1 a pc

/-- 崩す歩では、必ず崩れる。 -/
theorem Step.not_agrees (hst : c.Step l c') (h : c.Inv) (hs : c.StateInv) (ha : c.kernel.Agrees)
    (hb : c.Breaks c.kernel.lists.ready c.kernel.lists.sleep l) : ¬ c'.kernel.Agrees := by
  have hn' := (hst.stateInv h hs).noWaitting
  rcases hb with ⟨x, hx, hbl⟩ | ⟨rfl, hc, he, hlen⟩ | ⟨ms, rfl, hz⟩ | ⟨rfl, hc, t, ht, hw⟩
  · obtain ⟨w, hw⟩ := hbl.call_eq
    rw [hst.calls_kernel hx, hw] at hn' ⊢
    exact h.kernel.not_agrees_waitOn hx.1 hn'
  · cases hst with
    | tick h₁ =>
        rw [doTick_kernel, if_pos (h.kernel.tickSlice_alone hc he hlen).1]
        exact h.kernel.not_agrees_tickSlice hc he hlen
  · cases hst with
    | call x h₁ ho hi =>
        rw [doCall_kernel]
        exact h.kernel.not_agrees_sysSleep ha hi hz
  · cases hst with
    | tick h₁ =>
        obtain ⟨hcurr, hl, hst', hw'⟩ := h.kernel.tickSlice_idle hc
        rw [doTick_kernel, if_pos hcurr]
        refine h.kernel.tickSlice.not_agrees_tickSleep ((ha.of_same hl hcurr hst').agrees ha) (hcurr.trans hc) (t := t) ?_ ?_
        · rw [hl]
          exact ht
        · rw [hw']
          exact hw

/-- `TASK_RUNNING` でないタスクが一人で走っているところからは、`sys_sleep` でない歩は一致をもたらさない。 -/
theorem Step.not_agrees_of_alone (hst : c.Step l c') (h : c.Inv) (hs : c.StateInv) (ha : c.kernel.OthersAgree)
    (hc : c.curr ≠ idleTask) (hr : c.kernel.states c.curr ≠ .running) (hlen : c.kernel.lists.ready.length ≤ 1)
    (hown : c.code c.curr = .own) (hl : ∀ ms, l ≠ .call (.sysSleep ms)) : ¬ c'.kernel.Agrees := by
  have hsame : ∀ {k : Kernel Queues}, k.currTask = c.curr → k.states c.curr = c.kernel.states c.curr → ¬ k.Agrees :=
    fun hk hst' hag => hr (by rw [← hst', ← hk]; exact hag.curr)
  have hsleep : ∀ {k : Kernel Queues}, k.Inv → k.currTask = c.curr → k.states = c.kernel.states → ¬ k.tickSleep.Agrees := by
    intro k hk hcurr hst'
    have hck : k.currTask ≠ idleTask := by rwa [hcurr]
    refine hsame ((hk.tickSleep_curr hck).trans hcurr) ?_
    rw [← hcurr, hk.tickSleep_states hk.curr_not_asleep (Or.inr rfl), hst']
  cases hst with
  | tick h₁ =>
      by_cases he : c.kernel.sliceEnds = true
      · rw [doTick_kernel, if_pos (h.kernel.tickSlice_alone hc he hlen).1]
        exact h.kernel.not_agrees_tickSlice hc he hlen
      · have hk : c.kernel.tickSlice = c.kernel.countSlice := by rw [tickSlice_eq_sliceEnds, if_neg he]
        rw [doTick_kernel, hk, if_pos (show c.kernel.countSlice.currTask = c.curr from rfl)]
        exact hsleep h.kernel.countSlice rfl (countSlice_states _)
  | resume r h₁ =>
      cases r with
      | call x => exact hsame rfl rfl
      | tickSlice =>
          have hk : (c.doResume .tickSlice).kernel = c.kernel.tickSleep := by simp [doResume]
          rw [hk]
          exact hsleep h.kernel rfl rfl
      | tickEnd => exact hsame rfl rfl
  | call x h₁ ho hi =>
      rw [doCall_kernel]
      by_cases hb : c.kernel.Blocks x
      · obtain ⟨w, hw⟩ := hb.call_eq
        rw [hw]
        exact h.kernel.not_agrees_waitOn hi (hs.noWaitting.waitOn w)
      · obtain ⟨-, hcurr, hst'⟩ := ha.call_same hs.noWaitting hb (fun ms he => hl ms (by rw [he])) fun _ => hlen
        exact hsame hcurr (by rw [hst'])
  | initStart u a h₁ ho hi hn hu => exact hsame rfl rfl
  | initStep u a pc h₁ hi =>
      rw [hown] at hi
      cases hi

/-! ## 起動の直後 -/

/-- 最初のタスクは `TASK_READY` のままで、`idle_task` は `TASK_CREATED` である。 -/
theorem boot_states (b : BootArgs) (t : TaskId) :
    (Machine.boot ({} : Queues) b).kernel.states t = if t = firstTask then .ready else .created := by
  have h₁ := taskInit_states (managed_gdtFree b) idleTask b.idle
  have h₂ := taskInit_states (idled_gdtFree b) firstTask b.first
  rw [if_pos rfl] at h₁
  rw [if_neg (by decide)] at h₂
  have hb : (Machine.boot ({} : Queues) b).kernel.states = ((idled b).taskInit firstTask b.first).states := rfl
  have hi : (idled b).states = ((managed b).taskInit idleTask b.idle).states := rfl
  have hm : (managed b).states = fun _ => .created := rfl
  rw [hb, h₂, hi, h₁, hm, Function.update_apply, Function.update_apply]
  simp only [ite_self]

theorem boot_stateInv (b : BootArgs) : (Machine.boot ({} : Queues) b).StateInv := by
  refine ⟨fun t => ?_, by simp [Machine.boot]⟩
  rw [boot_states]
  split <;> simp

theorem boot_othersAgree (b : BootArgs) : (Machine.boot ({} : Queues) b).kernel.OthersAgree := by
  have hc : (Machine.boot ({} : Queues) b).kernel.currTask = firstTask := rfl
  have hl := boot_lists b
  constructor
  · intro t ht hne
    rw [hl] at ht
    rw [hc] at hne
    exact absurd (List.mem_singleton.mp ht) hne
  · intro t ht
    rw [hl] at ht
    cases ht
  · intro w t ht
    rw [hl] at ht
    cases ht
  · intro t ht
    rw [boot_states] at ht
    split at ht <;> cases ht

end Machine

end IdealX86
