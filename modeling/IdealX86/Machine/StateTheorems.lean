import IdealX86.Machine.Lemmas.State
import IdealX86.Machine.SchedTheorems

/-!
# 状態の一致の定理

`state` の欄とリストの一致は、起動の直後には成り立たず、一歩で成り立つのは `sys_sleep` だけである。成り立っている状態からは、
それを崩す四つの種類の歩がない限り、ちょうど成り立ち続ける。
-/

namespace IdealX86

namespace Machine

variable {node : Node → Lib.Link Node} {b : BootArgs} {ls : List Label} {c c' : Machine Heap}
  {d : Machine Queues} {l : Label}

/-- 今のタスクだけが `TASK_RUNNING` で、`ready_list` のほかのタスクは `TASK_READY`、`sleep_list` のタスクは `TASK_SLEEP`、
待ち行列のタスクは `TASK_WAITTING` である。 -/
structure StateAgrees (c : Machine Heap) : Prop where
  curr : (c.kernel.tasks c.curr).state = .running
  ready : ∀ t ∈ c.tasksOf .ready, t ≠ c.curr → (c.kernel.tasks t).state = .ready
  sleep : ∀ t ∈ c.tasksOf .sleep, (c.kernel.tasks t).state = .sleep
  wait : ∀ w, ∀ t ∈ c.tasksOf (.wait w), (c.kernel.tasks t).state = .waitting
  running : ∀ t, (c.kernel.tasks t).state = .running → t = c.curr

/-- 実行される歩は、一致を崩す種類のものではない。 -/
def KeepsState (c : Machine Heap) (l : Label) : Prop :=
  (c.step l).isSome → ¬ c.Breaks (c.tasksOf .ready) (c.tasksOf .sleep) l

theorem Sim.stateAgrees_iff (h : Sim c d) : c.StateAgrees ↔ d.kernel.Agrees := by
  have ht := h.kernel.tasks
  have hc := h.kernel.currTask
  constructor
  · rintro ⟨h₁, h₂, h₃, h₄, h₅⟩
    simp only [h.tasksOf_eq, ht, hc] at h₁ h₂ h₃ h₄ h₅
    exact ⟨⟨h₂, h₃, h₄, h₅⟩, h₁⟩
  · rintro ⟨⟨h₂, h₃, h₄, h₅⟩, h₁⟩
    constructor <;> simp only [h.tasksOf_eq, ht, hc] <;> assumption

theorem Sim.breaks_iff (h : Sim c d) :
    c.Breaks (c.tasksOf .ready) (c.tasksOf .sleep) l ↔ d.Breaks d.kernel.lists.ready d.kernel.lists.sleep l := by
  have hb : ∀ x, c.kernel.Blocks x ↔ d.kernel.Blocks x := by
    intro x
    cases x <;> simp only [Kernel.Blocks, h.kernel.sems, h.kernel.mutexes, h.kernel.currTask]
  have hs : c.kernel.sliceEnds = d.kernel.sliceEnds := by
    simp only [Kernel.sliceEnds, h.kernel.tasks, h.kernel.currTask]
  have hw : ∀ t, c.kernel.wakes t = d.kernel.wakes t := by
    intro t
    simp only [Kernel.wakes, h.kernel.tasks]
  simp only [Breaks, Calls, h.curr, h.code, hb, hs, hw, h.tasksOf_eq, Queues.seq_ready, Queues.seq_sleep]

/-- 抽象の機械で、崩さない歩が保つもの。 -/
structure Running (c : Machine Heap) (d : Machine Queues) : Prop where
  sim : Sim c d
  inv : d.Inv
  state : d.StateInv
  agrees : d.kernel.Agrees

theorem Running.step (h : Running c d) (hk : c.KeepsState l) (hst : c.step l = some c') : ∃ d', Running c' d' := by
  obtain ⟨hs, hd, hi, ha⟩ := h
  obtain ⟨d', hd', hs'⟩ := hs.step hd hst
  have hb := hk (by simp [hst])
  rw [hs.breaks_iff] at hb
  have hkept := (step_cases hd').kept hd hi ha.toOthersAgree hb
  exact ⟨d', hs', hd.step hd', (step_cases hd').stateInv hd hi, hkept.agrees ha⟩

/-- 一致している状態からは、実行のすべての状態で一致することと、実行されるどの歩もそれを崩さないことが同値である。 -/
theorem Running.always_iff (h : Running c d) (ls : List Label) :
    Lib.Always Machine.step StateAgrees c ls ↔ Lib.Along Machine.step KeepsState c ls := by
  refine Lib.always_iff (I := fun c => ∃ d, Running c d) ?_ ?_ ?_ ls ⟨d, h⟩
  · rintro c ⟨d, hr⟩
    exact hr.sim.stateAgrees_iff.mpr hr.agrees
  · rintro c l ⟨d, hr⟩ hP hsome hb
    obtain ⟨c', d', hc', hd', hs'⟩ := (isSome_step_iff hr.sim hr.inv).mp hsome
    exact (step_cases hd').not_agrees hr.inv hr.state hr.agrees (hr.sim.breaks_iff.mp hb)
      (hs'.stateAgrees_iff.mp (hP c' hc'))
  · rintro c l c' ⟨d, hr⟩ hR hst
    exact hr.step hR hst

/-- 到達できる状態から、途中のすべての状態で一致することは、初めの状態で一致し、実行されるどの歩もそれを崩さないことと同値である。 -/
theorem Reaches.stateAgrees_always (h : Reaches node b ls c) (ls' : List Label) :
    Lib.Always Machine.step StateAgrees c ls' ↔ c.StateAgrees ∧ Lib.Along Machine.step KeepsState c ls' := by
  obtain ⟨d, hs, hd, hi⟩ := h.invariant (P := StateInv) (boot_stateInv b) fun d l d' hd hi hst => hst.stateInv hd hi
  have hrun : c.StateAgrees → Running c d := fun ha => ⟨hs, hd, hi, hs.stateAgrees_iff.mp ha⟩
  exact ⟨fun h => ⟨h.1, ((hrun h.1).always_iff ls').mp h⟩, fun h => ((hrun h.1).always_iff ls').mpr h.2⟩

/-! ## 起動からの実行 -/

/-- 初めに実行される歩は `sys_sleep` であり、その後のどの歩も一致を崩さない。 -/
def SleepsFirst (c : Machine Heap) : List Label → Prop
  | [] => True
  | l :: ls => ∀ c', c.step l = some c' → (∃ ms, l = .call (.sysSleep ms)) ∧ Lib.Along Machine.step KeepsState c' ls

/-- 起動の直後の一歩で一致するのは、その歩が `sys_sleep` のとき、そのときに限る。最初のタスクは `TASK_READY` のまま一人で走っている。 -/
theorem boot_step_agrees_iff (b : BootArgs) (node : Node → Lib.Link Node)
    (hst : (Machine.boot (Heap.empty node) b).step l = some c') :
    c'.StateAgrees ↔ ∃ ms, l = .call (.sysSleep ms) := by
  have hinv := inv_boot b
  have hs := boot_stateInv b
  have ha := boot_othersAgree b
  have hc : (Machine.boot ({} : Queues) b).curr = firstTask := rfl
  have hr : (Machine.boot ({} : Queues) b).kernel.states (Machine.boot ({} : Queues) b).curr ≠ .running := by
    rw [hc, boot_states, if_pos rfl]
    decide
  obtain ⟨d', hd', hs'⟩ := (sim_boot b node).step hinv hst
  rw [hs'.stateAgrees_iff]
  constructor
  · intro hag
    by_contra hl
    refine (step_cases hd').not_agrees_of_alone hinv hs ha (by rw [hc]; decide) hr ?_ rfl (not_exists.mp hl) hag
    rw [boot_lists]
    exact le_refl 1
  · rintro ⟨ms, rfl⟩
    cases step_cases hd' with
    | call x h₁ ho hi =>
        rw [doCall_kernel]
        exact ha.sysSleep hinv.kernel hs.noWaitting hi (Or.inr hr)

/-- 起動からの実行のどの歩の後でも一致するのは、初めの歩が `sys_sleep` で、その後に一致を崩す歩がないとき、そのときに限る。 -/
theorem stateAgrees_always_iff (node : Node → Lib.Link Node) (b : BootArgs) (ls : List Label) :
    Lib.Along Machine.step (fun c l => ∀ c', c.step l = some c' → c'.StateAgrees)
        (Machine.boot (Heap.empty node) b) ls ↔
      (Machine.boot (Heap.empty node) b).SleepsFirst ls := by
  cases ls with
  | nil => exact Iff.rfl
  | cons l ls =>
      have hreach : ∀ {c'}, (Machine.boot (Heap.empty node) b).step l = some c' → Reaches node b [l] c' :=
        fun hst => Lib.exec_cons.mpr ⟨_, hst, rfl⟩
      constructor
      · rintro ⟨hfirst, hrest⟩ c' hst
        have hag := hfirst c' hst
        exact ⟨(boot_step_agrees_iff b node hst).mp hag,
          (((hreach hst).stateAgrees_always ls).mp ⟨hag, hrest c' hst⟩).2⟩
      · intro h
        have hag : ∀ c', (Machine.boot (Heap.empty node) b).step l = some c' → c'.StateAgrees :=
          fun c' hst => (boot_step_agrees_iff b node hst).mpr (h c' hst).1
        exact ⟨hag, fun c' hst => (((hreach hst).stateAgrees_always ls).mpr ⟨hag c' hst, (h c' hst).2⟩).2⟩

/-- 最初のタスクが十回分眠り、誰も起きない割り込みが続くと、どの歩の後でも一致する。 -/
theorem stateAgrees_always_sleep :
    Lib.Along Machine.step (fun c l => ∀ c', c.step l = some c' → c'.StateAgrees)
      (Machine.boot (Heap.empty fun _ => ⟨none, none⟩) .zero) [.call (.sysSleep 100), .tick] := by
  have hrun : ((Machine.boot (Heap.empty fun _ => ⟨none, none⟩) .zero).step (.call (.sysSleep 100))).map
      (fun c => (c.curr, (c.tasksOf .sleep).filter c.kernel.wakes)) = some (idleTask, []) := by decide +kernel
  refine (stateAgrees_always_iff _ _ _).mpr fun c hc => ⟨⟨100, rfl⟩, fun _ hb => ?_, fun _ _ => trivial⟩
  rw [hc, Option.map_some, Option.some.injEq, Prod.mk.injEq] at hrun
  obtain ⟨hidle, hwake⟩ := hrun
  rcases hb with ⟨x, hx, hbl⟩ | ⟨-, hne, -⟩ | ⟨ms, hl, hz⟩ | ⟨-, -, t, ht, hw⟩
  · rcases hx.2 with hl | ⟨u, a, pc, hl, -⟩ <;> cases hl
  · exact hne hidle
  · cases hl
  · exact List.filter_eq_nil_iff.mp hwake t ht hw

/-- 最初のタスクが、数の 0 のセマフォを待つと、待ち行列につながれても `TASK_WAITTING` にならない。 -/
theorem semWait_leaves_ready : ∃ c, Reaches (fun _ => ⟨none, none⟩) .zero [.call (.semWait 0)] c ∧
    c.tasksOf (.wait (.sem 0)) = [firstTask] ∧ (c.kernel.tasks firstTask).state = .ready ∧ ¬ c.StateAgrees := by
  have hrun : (Lib.exec Machine.step (Machine.boot (Heap.empty fun _ => ⟨none, none⟩) .zero)
      [.call (.semWait 0)]).map (fun c => (c.tasksOf (.wait (.sem 0)), (c.kernel.tasks firstTask).state)) =
        some ([firstTask], .ready) := by decide +kernel
  obtain ⟨c, hc, hv⟩ := Option.map_eq_some_iff.mp hrun
  have hwait : c.tasksOf (.wait (.sem 0)) = [firstTask] := congrArg Prod.fst hv
  have hst : (c.kernel.tasks firstTask).state = .ready := congrArg Prod.snd hv
  refine ⟨c, hc, hwait, hst, fun ha => ?_⟩
  have hw := ha.wait (.sem 0) firstTask (by rw [hwait]; exact List.mem_singleton_self _)
  rw [hst] at hw
  cases hw

end Machine

end IdealX86
