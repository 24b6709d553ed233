import IdealX86.Core.Lemmas.Frame
import IdealX86.Core.Lemmas.Sim

/-!
# スケジューラの不変条件

抽象のカーネルで、タスクの居場所が正しく、今のタスクが `ready_list` の先頭（空なら `idle_task`）であることを、
カーネルの関数が保つことを示す。同じ前提のもとで、ヒープのカーネルとの対応も保たれる。
-/

namespace IdealX86.Kernel

open Queues

structure Inv (a : Kernel Queues) : Prop where
  placed : a.lists.Placed
  head : a.lists.ready.head?.getD idleTask = a.currTask

variable {k : Kernel Heap} {a : Kernel Queues} {t : TaskId}

theorem taskNextRun_eq (a : Kernel Queues) : a.taskNextRun = a.lists.ready.head?.getD idleTask := by
  unfold taskNextRun
  cases h : a.lists.ready with
  | nil => simp [h]
  | cons t ts => simp [h, runParent, ListId.node, show ((ts.length : Int) + 1 ≠ 0) by omega]

theorem Inv.of_placed (h : a.lists.Placed) : a.taskDispatch.Inv :=
  ⟨by simpa using h, by simp [taskNextRun_eq]⟩

theorem Inv.of_lists {b : Kernel Queues} (h : a.Inv) (hl : b.lists = a.lists) (hc : b.currTask = a.currTask) :
    b.Inv :=
  ⟨hl ▸ h.placed, by rw [hl, hc]; exact h.head⟩

theorem Inv.ready_cons (h : a.Inv) (hc : a.currTask ≠ idleTask) :
    ∃ ts, a.lists.ready = a.currTask :: ts := by
  have hh := h.head
  cases hr : a.lists.ready with
  | nil => simp only [hr, List.head?_nil, Option.getD_none] at hh; exact absurd hh.symm hc
  | cons t ts => simp only [hr, List.head?_cons, Option.getD_some] at hh; exact ⟨ts, by rw [hh]⟩

/-- 先頭のタスクは、残りにはもう現れない。 -/
theorem Inv.curr_not_mem_tail (h : a.Inv) {ts : List TaskId} (hr : a.lists.ready = a.currTask :: ts) :
    a.currTask ∉ ts := by
  have hnd := h.placed.nodup .ready
  rw [Queues.seq_ready, hr] at hnd
  exact (List.nodup_cons.mp hnd).1

theorem Inv.ready_nil (h : a.Inv) (hc : a.currTask = idleTask) : a.lists.ready = [] := by
  have hh := h.head
  cases hr : a.lists.ready with
  | nil => rfl
  | cons t ts =>
      simp only [hr, List.head?_cons, Option.getD_some, hc] at hh
      exact absurd hh (h.placed.ne_idle (l := .ready) (by simp) (by simp [hr]))

theorem Inv.curr_mem (h : a.Inv) (hc : a.currTask ≠ idleTask) : a.currTask ∈ a.lists.ready := by
  obtain ⟨ts, hr⟩ := h.ready_cons hc
  simp [hr]

theorem Inv.curr_not_waiting (h : a.Inv) (w : WaitId) : a.currTask ∉ a.lists.wait w := by
  intro hm
  have hi := h.placed.ne_idle (l := .wait w) (by simp) hm
  cases h.placed.once (.wait w) .ready _ (by simp) (by simp) hm (h.curr_mem hi)

/-! ## 外すことと戻すこと -/

theorem taskSetReady_lists (a : Kernel Queues) (ht : t ≠ idleTask) :
    (a.taskSetReady t).lists = a.lists.modify .ready (· ++ [t]) := by
  simp [taskSetReady, ht, Node.task]

theorem taskSetBlock_lists (a : Kernel Queues) (ht : t ≠ idleTask) :
    (a.taskSetBlock t).lists = a.lists.modify .ready (·.erase t) := by
  simp [taskSetBlock, ht, Node.task]

theorem Inv.block (h : a.Inv) :
    (a.taskSetBlock a.currTask).lists.Placed ∧ (a.taskSetBlock a.currTask).lists.Nowhere a.currTask := by
  by_cases hc : a.currTask = idleTask
  · rw [hc]
    simp only [taskSetBlock, ↓reduceIte]
    exact ⟨h.placed, h.placed.nowhere_idle⟩
  · rw [taskSetBlock_lists a hc]
    exact ⟨h.placed.erase (by simp) _, h.placed.nowhere_erase (l := .ready) (by simp) (h.curr_mem hc)⟩

theorem Inv.block_known (h : a.Inv) (hc : a.currTask ≠ idleTask) :
    a.currTask ∈ (a.taskSetBlock a.currTask).lists.task := by
  rw [taskSetBlock_lists a hc]
  exact h.placed.known .ready _ (h.curr_mem hc)

theorem Sim.block (hs : Sim k a) (h : a.Inv) :
    Sim (k.taskSetBlock k.currTask) (a.taskSetBlock a.currTask) := by
  rw [hs.currTask]
  exact hs.taskSetBlock h.curr_mem

theorem placed_taskSetReady (h : a.lists.Placed) (ht : a.lists.Nowhere t)
    (hk : t ≠ idleTask → t ∈ a.lists.task) : (a.taskSetReady t).lists.Placed := by
  by_cases hc : t = idleTask
  · simpa [taskSetReady, hc] using h
  · rw [taskSetReady_lists a hc]
    exact h.append (by simp) ht (hk hc) hc

/-! ## 末尾へ回すこと -/

theorem Inv.rotate (h : a.Inv) : a.rotate.Inv := by
  obtain ⟨hp, hn⟩ := h.block
  exact .of_placed (placed_taskSetReady hp hn h.block_known)

theorem Sim.rotate (hs : Sim k a) (h : a.Inv) : Sim k.rotate a.rotate := by
  have hb := hs.block h
  unfold Kernel.rotate
  rw [hs.currTask] at hb ⊢
  exact (hb.taskSetReady h.block.2).taskDispatch

theorem sysSchedYield_eq {σ : Type} [ListStore σ] (k : Kernel σ) :
    k.sysSchedYield = if ListStore.count k.lists .ready > 1 then k.rotate else k := rfl

theorem Inv.sysSchedYield (h : a.Inv) : a.sysSchedYield.Inv := by
  rw [sysSchedYield_eq]
  split
  · exact h.rotate
  · exact h

theorem Sim.sysSchedYield (hs : Sim k a) (h : a.Inv) : Sim k.sysSchedYield a.sysSchedYield := by
  rw [sysSchedYield_eq, sysSchedYield_eq, hs.count_eq]
  split
  · exact hs.rotate h
  · exact hs

theorem tickSlice_eq {σ : Type} [ListStore σ] (k : Kernel σ) :
    k.tickSlice = if (k.countSlice.tasks k.currTask).sliceTicks = 0 then k.countSlice.resetSlice.rotate
      else k.countSlice := rfl

theorem Inv.countSlice (h : a.Inv) : a.countSlice.Inv := h.of_lists rfl rfl

theorem Inv.resetSlice (h : a.Inv) : a.resetSlice.Inv := h.of_lists rfl rfl

theorem Inv.tickSlice (h : a.Inv) : a.tickSlice.Inv := by
  rw [tickSlice_eq]
  split
  · exact h.countSlice.resetSlice.rotate
  · exact h.countSlice

theorem Sim.countSlice (hs : Sim k a) : Sim k.countSlice a.countSlice := by
  unfold Kernel.countSlice
  rw [hs.currTask]
  exact hs.setTask _ _

theorem Sim.resetSlice (hs : Sim k a) : Sim k.resetSlice a.resetSlice := by
  unfold Kernel.resetSlice
  rw [hs.currTask]
  exact hs.setTask _ _

theorem Sim.tickSlice (hs : Sim k a) (h : a.Inv) : Sim k.tickSlice a.tickSlice := by
  have hc := hs.countSlice
  rw [tickSlice_eq, tickSlice_eq, hc.tasks, hs.currTask]
  split
  · exact hc.resetSlice.rotate h.countSlice.resetSlice
  · exact hc

/-! ## 眠ることと待つこと -/

theorem Inv.sysSleep (h : a.Inv) (hc : a.currTask ≠ idleTask) (ms : UInt32) : (a.sysSleep ms).Inv := by
  obtain ⟨hp, hn⟩ := h.block
  refine .of_placed ?_
  unfold taskSetSleep
  split
  · exact hp
  · exact hp.append (l := .sleep) (by simp) hn (h.block_known hc) hc

theorem Sim.sysSleep (hs : Sim k a) (h : a.Inv) (ms : UInt32) : Sim (k.sysSleep ms) (a.sysSleep ms) := by
  have hb := hs.block h
  unfold Kernel.sysSleep
  rw [hs.currTask] at hb ⊢
  exact (hb.taskSetSleep h.block.2 _).taskDispatch

theorem Inv.waitOn (h : a.Inv) (hc : a.currTask ≠ idleTask) (w : WaitId) : (a.waitOn w).Inv := by
  obtain ⟨hp, hn⟩ := h.block
  exact .of_placed (hp.append (l := .wait w) (by simp) hn (h.block_known hc) hc)

theorem Sim.waitOn (hs : Sim k a) (h : a.Inv) (w : WaitId) : Sim (k.waitOn w) (a.waitOn w) := by
  have hb := hs.block h
  unfold Kernel.waitOn
  rw [hs.currTask] at hb ⊢
  exact (hb.insertLast (l := .wait w) h.block.2.wait).taskDispatch

/-! ## 待ち行列の先頭を戻すこと -/

/-- 待ち行列の先頭を外して `ready_list` の末尾へ戻す。 -/
def wakeFirst {σ : Type} [ListStore σ] (k : Kernel σ) (w : WaitId) : Kernel σ :=
  (k.removeWaiter w).2.taskSetReady (k.removeWaiter w).1

theorem removeWaiter_of_cons {w : WaitId} {ts : List TaskId} (hw : a.lists.wait w = t :: ts) :
    (a.removeWaiter w).1 = t := by
  simp [removeWaiter, hw, waitParent, ListId.node]

theorem wait_ne_nil (w : WaitId) (hw : ListStore.count a.lists (.wait w) ≠ 0) :
    ∃ t ts, a.lists.wait w = t :: ts := by
  cases h : a.lists.wait w with
  | nil => simp [h] at hw
  | cons t ts => exact ⟨t, ts, rfl⟩

theorem Inv.wakeFirst_nowhere (h : a.Inv) {w : WaitId} {ts : List TaskId}
    (hw : a.lists.wait w = t :: ts) :
    (a.removeWaiter w).2.lists.Placed ∧ (a.removeWaiter w).2.lists.Nowhere t ∧
      t ∈ (a.removeWaiter w).2.lists.task :=
  ⟨h.placed.tail (l := .wait w) (by simp), h.placed.nowhere_tail (l := .wait w) (by simp) hw,
    h.placed.known (.wait w) t (by simp [hw])⟩

theorem placed_wakeFirst (h : a.Inv) {w : WaitId} {ts : List TaskId} (hw : a.lists.wait w = t :: ts) :
    (a.wakeFirst w).lists.Placed := by
  obtain ⟨h₁, h₂, h₃⟩ := h.wakeFirst_nowhere hw
  unfold wakeFirst
  rw [removeWaiter_of_cons hw]
  exact placed_taskSetReady h₁ h₂ fun _ => h₃

theorem Sim.wakeFirst (hs : Sim k a) (h : a.Inv) {w : WaitId} {ts : List TaskId}
    (hw : a.lists.wait w = t :: ts) : Sim (k.wakeFirst w) (a.wakeFirst w) := by
  obtain ⟨he, hr⟩ := hs.removeWaiter w
  unfold Kernel.wakeFirst
  rw [he]
  refine hr.taskSetReady ?_
  rw [removeWaiter_of_cons hw]
  exact (h.wakeFirst_nowhere hw).2.1

/-! ## ミューテックスとセマフォ -/

variable {m : MutexId} {s : SemId}

theorem mutexUnlock_eq {σ : Type} [ListStore σ] (k : Kernel σ) (m : MutexId) :
    k.mutexUnlock m =
      if (k.mutexes m).owner = k.currTask then
        if (k.mutexes m).lockedCount - 1 = 0 then
          if ListStore.count k.lists (.wait (.mutex m)) ≠ 0 then
            ((k.wakeFirst (.mutex m)).setMutex m ⟨(k.removeWaiter (.mutex m)).1, 1⟩).taskDispatch
          else k.setMutex m ⟨nullTask, 0⟩
        else k.setMutex m ⟨(k.mutexes m).owner, (k.mutexes m).lockedCount - 1⟩
      else k := rfl

theorem semNotify_eq {σ : Type} [ListStore σ] (k : Kernel σ) (s : SemId) :
    k.semNotify s = if ListStore.count k.lists (.wait (.sem s)) ≠ 0 then (k.wakeFirst (.sem s)).taskDispatch
      else k.setSem s (k.sems s + 1) := rfl

theorem Inv.mutexLock (h : a.Inv) (hc : a.currTask ≠ idleTask) (m : MutexId) : (a.mutexLock m).Inv := by
  unfold Kernel.mutexLock
  dsimp only
  split
  · exact h.of_lists rfl rfl
  · split
    · exact h.of_lists rfl rfl
    · exact h.waitOn hc _

theorem Sim.mutexLock (hs : Sim k a) (h : a.Inv) (m : MutexId) : Sim (k.mutexLock m) (a.mutexLock m) := by
  unfold Kernel.mutexLock
  simp only [hs.mutexes, hs.currTask]
  split
  · exact hs.setMutex _ _
  · split
    · exact hs.setMutex _ _
    · exact hs.waitOn h _

theorem Inv.mutexUnlock (h : a.Inv) (m : MutexId) : (a.mutexUnlock m).Inv := by
  rw [mutexUnlock_eq]
  split
  · split
    · split
      · obtain ⟨t, ts, hw⟩ := wait_ne_nil _ ‹_›
        exact .of_placed (placed_wakeFirst h hw)
      · exact h.of_lists rfl rfl
    · exact h.of_lists rfl rfl
  · exact h

theorem Sim.mutexUnlock (hs : Sim k a) (h : a.Inv) (m : MutexId) :
    Sim (k.mutexUnlock m) (a.mutexUnlock m) := by
  rw [mutexUnlock_eq, mutexUnlock_eq, hs.mutexes, hs.currTask, hs.count_eq, (hs.removeWaiter _).1]
  split
  · split
    · split
      · obtain ⟨t, ts, hw⟩ := wait_ne_nil _ ‹_›
        exact ((hs.wakeFirst h hw).setMutex _ _).taskDispatch
      · exact hs.setMutex _ _
    · exact hs.setMutex _ _
  · exact hs

theorem Inv.semWait (h : a.Inv) (hc : a.currTask ≠ idleTask) (s : SemId) : (a.semWait s).Inv := by
  unfold Kernel.semWait
  split
  · exact h.of_lists rfl rfl
  · exact h.waitOn hc _

theorem Sim.semWait (hs : Sim k a) (h : a.Inv) (s : SemId) : Sim (k.semWait s) (a.semWait s) := by
  unfold Kernel.semWait
  rw [hs.sems]
  split
  · exact hs.setSem _ _
  · exact hs.waitOn h _

theorem Inv.semNotify (h : a.Inv) (s : SemId) : (a.semNotify s).Inv := by
  rw [semNotify_eq]
  split
  · obtain ⟨t, ts, hw⟩ := wait_ne_nil _ ‹_›
    exact .of_placed (placed_wakeFirst h hw)
  · exact h.of_lists rfl rfl

theorem Sim.semNotify (hs : Sim k a) (h : a.Inv) (s : SemId) : Sim (k.semNotify s) (a.semNotify s) := by
  rw [semNotify_eq, semNotify_eq, hs.count_eq, hs.sems]
  split
  · obtain ⟨t, ts, hw⟩ := wait_ne_nil _ ‹_›
    exact (hs.wakeFirst h hw).taskDispatch
  · exact hs.setSem _ _

end IdealX86.Kernel
