import IdealX86.Core.Lemmas.SleepWalk
import Mathlib.Data.List.Rotate

/-!
# カーネルの関数の結果

不変条件のもとで、それぞれの関数が抽象の並びとタスクの欄をどう書き換えるかを、一つずつまとめる。
今のタスクは、どの関数の後でも `ready_list` の先頭（空なら `idle_task`）である。
-/

namespace IdealX86.Kernel

open Queues

variable {a : Kernel Queues} {t : TaskId}

/-! ## 並び -/

theorem Inv.block_lists (h : a.Inv) (hc : a.currTask ≠ idleTask) :
    (a.taskSetBlock a.currTask).lists = { a.lists with ready := a.lists.ready.tail } := by
  obtain ⟨ts, hr⟩ := h.ready_cons hc
  rw [taskSetBlock_lists a hc]
  simp [Queues.modify, hr]

theorem Inv.rotate_lists (h : a.Inv) : a.rotate.lists = { a.lists with ready := a.lists.ready.rotate 1 } := by
  simp only [Kernel.rotate, taskDispatch_lists]
  by_cases hc : a.currTask = idleTask
  · have hr := h.ready_nil hc
    rw [hc]
    simp only [taskSetReady, taskSetBlock, ↓reduceIte, hr, List.rotate_nil]
    rw [← hr]
  · obtain ⟨ts, hr⟩ := h.ready_cons hc
    rw [taskSetReady_lists _ hc, h.block_lists hc]
    simp [Queues.modify, hr]

theorem rotate_one_of_length_le {ts : List TaskId} (h : ts.length ≤ 1) : ts.rotate 1 = ts := by
  match ts, h with
  | [], _ => rfl
  | [t], _ => simp

theorem Inv.sysSchedYield_lists (h : a.Inv) :
    a.sysSchedYield.lists = { a.lists with ready := a.lists.ready.rotate 1 } := by
  rw [sysSchedYield_eq]
  split
  · exact h.rotate_lists
  · rename_i hn
    simp only [Queues.count_eq, seq_ready] at hn
    rw [rotate_one_of_length_le (by omega)]

theorem Inv.sysSleep_lists (h : a.Inv) (hc : a.currTask ≠ idleTask) (ms : UInt32) :
    (a.sysSleep ms).lists =
      { a.lists with ready := a.lists.ready.tail
                     sleep := if sleepTicks ms = 0 then a.lists.sleep else a.lists.sleep ++ [a.currTask] } := by
  simp only [Kernel.sysSleep, taskDispatch_lists, taskSetSleep]
  split
  · exact h.block_lists hc
  · simp [h.block_lists hc, Queues.modify, Node.task]

theorem Inv.waitOn_lists (h : a.Inv) (hc : a.currTask ≠ idleTask) (w : WaitId) :
    (a.waitOn w).lists =
      { a.lists with ready := a.lists.ready.tail
                     wait := Function.update a.lists.wait w (a.lists.wait w ++ [a.currTask]) } := by
  simp [Kernel.waitOn, h.block_lists hc, Queues.modify, Node.task]

theorem Inv.wakeFirst_lists (h : a.Inv) {w : WaitId} {ts : List TaskId} (hw : a.lists.wait w = t :: ts) :
    (a.wakeFirst w).lists =
      { a.lists with ready := a.lists.ready ++ [t], wait := Function.update a.lists.wait w ts } := by
  have hi := h.placed.ne_idle (l := .wait w) (t := t) (by simp) (by simp [hw])
  rw [wakeFirst, removeWaiter_of_cons hw, taskSetReady_lists _ hi]
  simp [Queues.modify, hw]

/-- この割り込みで時間片が尽きる。 -/
def sliceEnds {σ : Type} (k : Kernel σ) : Bool := (k.tasks k.currTask).sliceTicks - 1 = 0

theorem tickSlice_eq_sliceEnds {σ : Type} [ListStore σ] (k : Kernel σ) :
    k.tickSlice = if k.sliceEnds then k.countSlice.resetSlice.rotate else k.countSlice := by
  simp [tickSlice_eq, sliceEnds, countSlice, setTask_tasks]

theorem Inv.tickSlice_lists (h : a.Inv) :
    a.tickSlice.lists =
      { a.lists with ready := if a.sliceEnds then a.lists.ready.rotate 1 else a.lists.ready } := by
  rw [tickSlice_eq_sliceEnds]
  split
  · exact h.countSlice.resetSlice.rotate_lists
  · rfl

theorem Inv.tickSleep_lists (h : a.Inv) :
    a.tickSleep.lists =
      { a.lists with ready := a.lists.ready ++ a.lists.sleep.filter a.wakes
                     sleep := a.lists.sleep.filter (!a.wakes ·) } := by
  rw [tickSleep_eq h.placed, taskDispatch_lists]
  have hx : a.lists.sleep = [] ++ a.lists.sleep := rfl
  exact wakeAll_lists h.placed hx

/-! ## タスクの欄 -/

section
variable {σ : Type} [ListStore σ] (k : Kernel σ)

@[simp] theorem rotate_cores : k.rotate.cores = k.cores := by simp [rotate]

@[simp] theorem sysSchedYield_cores : k.sysSchedYield.cores = k.cores := by
  rw [sysSchedYield_eq]; split <;> simp

@[simp] theorem waitOn_cores (w : WaitId) : (k.waitOn w).cores = k.cores := by simp [waitOn]

@[simp] theorem wakeFirst_cores (w : WaitId) : (k.wakeFirst w).cores = k.cores := by simp [wakeFirst]

@[simp] theorem mutexLock_cores (m : MutexId) : (k.mutexLock m).cores = k.cores := by
  unfold mutexLock; dsimp only; split
  · simp
  · split <;> simp

@[simp] theorem mutexUnlock_cores (m : MutexId) : (k.mutexUnlock m).cores = k.cores := by
  rw [mutexUnlock_eq]; split
  · split
    · split <;> simp
    · simp
  · rfl

@[simp] theorem semWait_cores (s : SemId) : (k.semWait s).cores = k.cores := by
  unfold semWait; split <;> simp

@[simp] theorem semNotify_cores (s : SemId) : (k.semNotify s).cores = k.cores := by
  rw [semNotify_eq]; split <;> simp

theorem sysSleep_cores (ms : UInt32) (u : TaskId) :
    (k.sysSleep ms).cores u =
      if u = k.currTask ∧ sleepTicks ms ≠ 0 then { k.cores u with sleepTicks := (sleepTicks ms).toNat }
      else k.cores u := by
  simp only [sysSleep, taskDispatch_cores, taskSetSleep]
  split
  · rename_i h; simp [h]
  · rename_i h
    simp only [insertLast_cores, ne_eq, h, not_false_eq_true, and_true]
    simp only [cores, setTask_tasks, taskSetBlock_tasks]
    split
    · rename_i hu; rw [hu]; rfl
    · rfl

theorem tickSlice_cores (u : TaskId) :
    k.tickSlice.cores u =
      if u = k.currTask then
        { k.cores u with
          sliceTicks := if k.sliceEnds then (k.tasks u).timeTicks else (k.tasks u).sliceTicks - 1 }
      else k.cores u := by
  rw [tickSlice_eq_sliceEnds]
  split
  · rw [rotate_cores]
    simp only [cores, resetSlice, countSlice, setTask_tasks, setTask_currTask]
    split
    · rename_i hu; simp [hu, Task.core]
    · rfl
  · simp only [cores, countSlice, setTask_tasks]
    split
    · rename_i hu; simp [hu, Task.core]
    · rfl

end

theorem Inv.tickSleep_cores (h : a.Inv) (u : TaskId) :
    a.tickSleep.cores u =
      if u ∈ a.lists.sleep then { a.cores u with sleepTicks := (a.tasks u).sleepTicks - 1 }
      else a.cores u := by
  rw [tickSleep_eq h.placed, taskDispatch_cores]
  exact wakeAll_cores a (h.placed.nodup .sleep) u

/-! ## リストとタスクのほかの欄 -/

section
variable {σ : Type} [ListStore σ] (k : Kernel σ)

@[simp] theorem rotate_mutexes : k.rotate.mutexes = k.mutexes := by simp [rotate]
@[simp] theorem rotate_sems : k.rotate.sems = k.sems := by simp [rotate]
@[simp] theorem rotate_gdt : k.rotate.gdt = k.gdt := by simp [rotate]
@[simp] theorem rotate_tssAddr : k.rotate.tssAddr = k.tssAddr := by simp [rotate]

theorem sysSchedYield_frame : k.sysSchedYield.mutexes = k.mutexes ∧ k.sysSchedYield.sems = k.sems ∧
    k.sysSchedYield.gdt = k.gdt ∧ k.sysSchedYield.tssAddr = k.tssAddr := by
  rw [sysSchedYield_eq]; split <;> simp

theorem sysSleep_frame (ms : UInt32) : (k.sysSleep ms).mutexes = k.mutexes ∧
    (k.sysSleep ms).sems = k.sems ∧ (k.sysSleep ms).gdt = k.gdt ∧ (k.sysSleep ms).tssAddr = k.tssAddr := by
  simp only [sysSleep, taskSetSleep]
  split <;> simp

theorem waitOn_frame (w : WaitId) : (k.waitOn w).mutexes = k.mutexes ∧ (k.waitOn w).sems = k.sems ∧
    (k.waitOn w).gdt = k.gdt ∧ (k.waitOn w).tssAddr = k.tssAddr := by
  simp [waitOn]

theorem wakeFirst_frame (w : WaitId) : (k.wakeFirst w).mutexes = k.mutexes ∧
    (k.wakeFirst w).sems = k.sems ∧ (k.wakeFirst w).gdt = k.gdt ∧ (k.wakeFirst w).tssAddr = k.tssAddr ∧
    (k.wakeFirst w).currTask = k.currTask := by
  simp [wakeFirst]

theorem tickSlice_frame : k.tickSlice.mutexes = k.mutexes ∧ k.tickSlice.sems = k.sems ∧
    k.tickSlice.gdt = k.gdt ∧ k.tickSlice.tssAddr = k.tssAddr := by
  rw [tickSlice_eq_sliceEnds]; split <;> simp [countSlice, resetSlice]

end

theorem Inv.tickSleep_frame (h : a.Inv) : a.tickSleep.mutexes = a.mutexes ∧
    a.tickSleep.sems = a.sems ∧ a.tickSleep.gdt = a.gdt ∧ a.tickSleep.tssAddr = a.tssAddr := by
  obtain ⟨-, hm, hs, hg, ht⟩ := wakeAll_frame a a.lists.sleep
  rw [tickSleep_eq h.placed]
  simp [hm, hs, hg, ht]

end IdealX86.Kernel
