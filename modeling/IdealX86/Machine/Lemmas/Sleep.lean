import IdealX86.Machine.Lemmas.Step

/-!
# 睡眠の数え下げ

`task_time_tick` の後半は、最初の `task_dispatch` で切り替わると後に残る。睡眠中のタスクの残りは、後半が実行されるたびに一つ減り、
ほかの歩では変わらない。
-/

namespace IdealX86

open Kernel (InitPc)

namespace Kernel

/-- `t` が `sleep_list` にあり、残りが `r` である。 -/
structure Asleep (a : Kernel Queues) (t : TaskId) (r : Int) : Prop where
  mem : t ∈ a.lists.sleep
  ticks : (a.tasks t).sleepTicks = r

variable {a : Kernel Queues} {t : TaskId} {r : Int}

theorem Inv.curr_not_asleep (h : a.Inv) : a.currTask ∉ a.lists.sleep := by
  intro hm
  have hi := h.placed.ne_idle (l := .sleep) (by simp) hm
  cases h.placed.once .sleep .ready _ (by simp) (by simp) hm (h.curr_mem hi)

theorem CallMoves.asleep {x : Call} {q : Queues} (h : CallMoves a x q) (ht : t ∈ a.lists.sleep) :
    t ∈ q.sleep := by
  cases h with
  | sleep ms hx hz => exact List.mem_append_left _ ht
  | _ => exact ht

theorem Asleep.call (h : a.Asleep t r) (ha : a.Inv) (hc : a.currTask ≠ idleTask) (x : Call) :
    (a.call x).Asleep t r := by
  refine ⟨(ha.call_moves hc x).asleep h.mem, ?_⟩
  rcases call_cores a x t with hk | ⟨ms, -, he, -, -⟩
  · rw [(cores_ext hk).1]; exact h.ticks
  · exact absurd (he ▸ h.mem) ha.curr_not_asleep

theorem Asleep.tickSlice (h : a.Asleep t r) (ha : a.Inv) : a.tickSlice.Asleep t r := by
  refine ⟨by rw [ha.tickSlice_lists]; exact h.mem, ?_⟩
  have hne : t ≠ a.currTask := fun he => ha.curr_not_asleep (he ▸ h.mem)
  have hk := congrArg Task.sleepTicks (tickSlice_cores a t)
  rw [if_neg hne] at hk
  exact hk.trans h.ticks

theorem Asleep.tickSleep (h : a.Asleep t r) (ha : a.Inv) :
    if r = 1 then t ∈ a.tickSleep.lists.ready else a.tickSleep.Asleep t (r - 1) := by
  have hw : a.wakes t = decide (r = 1) := by
    simp only [wakes, h.ticks]
    exact decide_eq_decide.mpr (by omega)
  split
  · rename_i hr
    rw [ha.tickSleep_lists]
    exact List.mem_append_right _ (List.mem_filter.mpr ⟨h.mem, by rw [hw]; exact decide_eq_true hr⟩)
  · rename_i hr
    refine ⟨?_, ?_⟩
    · rw [ha.tickSleep_lists]
      exact List.mem_filter.mpr ⟨h.mem, by rw [hw]; simp [hr]⟩
    · have hk := congrArg Task.sleepTicks (ha.tickSleep_cores t)
      rw [if_pos h.mem, h.ticks] at hk
      exact hk

theorem Asleep.initLocal (h : a.Asleep t r) (ha : a.Inv) {u : TaskId} (hu : u ∉ a.lists.task)
    (hi : u ≠ idleTask) (x : InitArgs) (pc : InitPc) : (a.initLocal u x pc).Asleep t r := by
  have hne : t ≠ u := fun he => hu (he ▸ ha.placed.known .sleep t h.mem)
  constructor
  · by_cases hp : pc = .publish
    · subst hp
      change t ∈ (a.taskPublish u).lists.sleep
      rw [taskPublish_lists a hi]
      exact h.mem
    · rw [(initLocal_lists a u x hp).1]; exact h.mem
  · rw [← h.ticks]
    cases pc with
    | tss i => simp [Kernel.initLocal, tssFields, setTask_tasks, hne]
    | fields => rw [Kernel.initLocal, (taskFields_frame a u x).2.2.2.2.2 t hne]
    | publish => exact (cores_ext (congrFun (taskPublish_frame a u).2.2.2.2.2 t)).1
    | _ => rfl

theorem Inv.sysSleep_asleep (h : a.Inv) (hc : a.currTask ≠ idleTask) {ms : UInt32} (hz : sleepTicks ms ≠ 0) :
    (a.sysSleep ms).Asleep a.currTask (sleepTicks ms).toNat := by
  constructor
  · rw [h.sysSleep_lists hc]
    simp [hz]
  · have hk := congrArg Task.sleepTicks (sysSleep_cores a ms a.currTask)
    rw [if_pos ⟨rfl, hz⟩] at hk
    exact hk

/-- 時間片が尽き、ほかに待つタスクがあるときだけ、割り込みの前半で切り替わる。 -/
theorem Inv.tickSlice_currTask (h : a.Inv) :
    a.tickSlice.currTask = a.currTask ↔ ¬ (a.sliceEnds = true ∧ 1 < a.lists.ready.length) := by
  have hhead := h.tickSlice.head
  rw [h.tickSlice_lists] at hhead
  rw [← hhead]
  by_cases he : a.sliceEnds = true
  · simp only [he, ↓reduceIte, true_and]
    by_cases hc : a.currTask = idleTask
    · simp [h.ready_nil hc, hc]
    · obtain ⟨ts, hts⟩ := h.ready_cons hc
      have hnot := h.curr_not_mem_tail hts
      cases ts with
      | nil => simp [hts]
      | cons u us =>
          have hne : u ≠ a.currTask := fun hu => hnot (by simp [hu])
          simp [hts, hne]
  · simp [he, h.head]

end Kernel

namespace Machine

variable {c c' : Machine Queues} {l : Label} {t : TaskId} {r : Int}

/-- `task_time_tick` の後半を実行する歩。 -/
def Walks (c : Machine Queues) (l : Label) : Prop :=
  (l = .tick ∧ c.kernel.tickSlice.currTask = c.curr) ∨ (l = .resume ∧ c.susp c.curr = some .tickSlice)

theorem Step.asleep_walks (hst : c.Step l c') (h : c.Inv) (ht : c.kernel.Asleep t r) (hw : c.Walks l) :
    if r = 1 then t ∈ c'.kernel.lists.ready else c'.kernel.Asleep t (r - 1) := by
  cases hst with
  | tick hs =>
      have he := hw.resolve_right nofun
      rw [doTick_kernel, if_pos he.2]
      exact (ht.tickSlice h.kernel).tickSleep h.kernel.tickSlice
  | resume q hs =>
      have he := (hw.resolve_left nofun).2
      rw [hs] at he
      cases he
      have hk : (c.doResume .tickSlice).kernel = c.kernel.tickSleep := by simp [doResume]
      rw [hk]
      exact ht.tickSleep h.kernel
  | _ => rcases hw with ⟨hl, -⟩ | ⟨hl, -⟩ <;> cases hl

theorem Step.asleep_of_not_walks (hst : c.Step l c') (h : c.Inv) (ht : c.kernel.Asleep t r)
    (hw : ¬ c.Walks l) : c'.kernel.Asleep t r := by
  cases hst with
  | tick hs =>
      have he : c.kernel.tickSlice.currTask ≠ c.curr := fun he => hw (.inl ⟨rfl, he⟩)
      rw [doTick_kernel, if_neg he]
      exact ht.tickSlice h.kernel
  | resume q hs =>
      cases q with
      | call x => exact ht
      | tickSlice => exact absurd (.inr ⟨rfl, hs⟩) hw
      | tickEnd => exact ht
  | call x hs ho hi => rw [doCall_kernel]; exact ht.call h.kernel hi x
  | initStart u a hs ho hi hn hu => exact ht
  | initStep u a pc hs hc =>
      rw [doInit_kernel]
      cases hx : initCall pc with
      | some x => exact ht.call h.kernel (h.curr_ne_idle hc) x
      | none => exact ht.initLocal h.kernel (h.fresh hc).2.1 (h.fresh hc).2.2.1 a pc

end Machine

end IdealX86
