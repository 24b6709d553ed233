import IdealX86.Core.TaskInit

/-!
# 変わらない欄

カーネルの関数ごとに、触れない欄をまとめる。タスクの欄は、`state` を除いた残り（`cores`）で述べる。
-/

namespace IdealX86

def Task.core (x : Task) : Task := { x with state := .created }

namespace Kernel

variable {σ : Type} [ListStore σ] (k : Kernel σ) (t : TaskId)

def cores (t : TaskId) : Task := (k.tasks t).core

omit [ListStore σ] in
theorem cores_ext {k k' : Kernel σ} {t : TaskId} (ht : k.cores t = k'.cores t) :
    (k.tasks t).sleepTicks = (k'.tasks t).sleepTicks ∧ (k.tasks t).timeTicks = (k'.tasks t).timeTicks ∧
      (k.tasks t).sliceTicks = (k'.tasks t).sliceTicks ∧ (k.tasks t).tssSel = (k'.tasks t).tssSel := by
  have h₁ := congrArg Task.sleepTicks ht
  have h₂ := congrArg Task.timeTicks ht
  have h₃ := congrArg Task.sliceTicks ht
  have h₄ := congrArg Task.tssSel ht
  exact ⟨h₁, h₂, h₃, h₄⟩

/-! ## 欄への代入 -/

section
omit [ListStore σ]
variable (f : Task → Task) (m : MutexId) (x : Mutex) (s : SemId) (n : Int)

@[simp] theorem setTask_lists : (k.setTask t f).lists = k.lists := rfl
@[simp] theorem setTask_currTask : (k.setTask t f).currTask = k.currTask := rfl
@[simp] theorem setTask_mutexes : (k.setTask t f).mutexes = k.mutexes := rfl
@[simp] theorem setTask_sems : (k.setTask t f).sems = k.sems := rfl
@[simp] theorem setTask_gdt : (k.setTask t f).gdt = k.gdt := rfl
@[simp] theorem setTask_tssAddr : (k.setTask t f).tssAddr = k.tssAddr := rfl

theorem setTask_tasks (u : TaskId) :
    (k.setTask t f).tasks u = if u = t then f (k.tasks t) else k.tasks u := by
  simp [setTask, Function.update_apply]

theorem setTask_cores (st : TaskState) : (k.setTask t fun x => { x with state := st }).cores = k.cores := by
  funext u
  simp only [cores, setTask_tasks]
  split
  · rename_i h; rw [h]; rfl
  · rfl

@[simp] theorem setMutex_lists : (k.setMutex m x).lists = k.lists := rfl
@[simp] theorem setMutex_currTask : (k.setMutex m x).currTask = k.currTask := rfl
@[simp] theorem setMutex_sems : (k.setMutex m x).sems = k.sems := rfl
@[simp] theorem setMutex_gdt : (k.setMutex m x).gdt = k.gdt := rfl
@[simp] theorem setMutex_tssAddr : (k.setMutex m x).tssAddr = k.tssAddr := rfl
@[simp] theorem setMutex_cores : (k.setMutex m x).cores = k.cores := rfl
@[simp] theorem setMutex_mutexes : (k.setMutex m x).mutexes = Function.update k.mutexes m x := rfl

@[simp] theorem setSem_lists : (k.setSem s n).lists = k.lists := rfl
@[simp] theorem setSem_currTask : (k.setSem s n).currTask = k.currTask := rfl
@[simp] theorem setSem_mutexes : (k.setSem s n).mutexes = k.mutexes := rfl
@[simp] theorem setSem_gdt : (k.setSem s n).gdt = k.gdt := rfl
@[simp] theorem setSem_tssAddr : (k.setSem s n).tssAddr = k.tssAddr := rfl
@[simp] theorem setSem_cores : (k.setSem s n).cores = k.cores := rfl
@[simp] theorem setSem_sems : (k.setSem s n).sems = Function.update k.sems s n := rfl

end

/-! ## リストの操作 -/

section
variable (l : ListId) (n : Node) (w : WaitId)

@[simp] theorem insertLast_lists : (k.insertLast l n).lists = ListStore.insertLast k.lists l n := rfl
@[simp] theorem insertLast_currTask : (k.insertLast l n).currTask = k.currTask := rfl
@[simp] theorem insertLast_mutexes : (k.insertLast l n).mutexes = k.mutexes := rfl
@[simp] theorem insertLast_sems : (k.insertLast l n).sems = k.sems := rfl
@[simp] theorem insertLast_gdt : (k.insertLast l n).gdt = k.gdt := rfl
@[simp] theorem insertLast_tssAddr : (k.insertLast l n).tssAddr = k.tssAddr := rfl
@[simp] theorem insertLast_tasks : (k.insertLast l n).tasks = k.tasks := rfl
@[simp] theorem insertLast_cores : (k.insertLast l n).cores = k.cores := rfl

@[simp] theorem remove_lists : (k.remove l n).lists = ListStore.remove k.lists l n := rfl
@[simp] theorem remove_currTask : (k.remove l n).currTask = k.currTask := rfl
@[simp] theorem remove_mutexes : (k.remove l n).mutexes = k.mutexes := rfl
@[simp] theorem remove_sems : (k.remove l n).sems = k.sems := rfl
@[simp] theorem remove_gdt : (k.remove l n).gdt = k.gdt := rfl
@[simp] theorem remove_tssAddr : (k.remove l n).tssAddr = k.tssAddr := rfl
@[simp] theorem remove_tasks : (k.remove l n).tasks = k.tasks := rfl
@[simp] theorem remove_cores : (k.remove l n).cores = k.cores := rfl

@[simp] theorem removeWaiter_lists :
    (k.removeWaiter w).2.lists = (ListStore.removeFirst k.lists (.wait w)).2 := rfl
@[simp] theorem removeWaiter_currTask : (k.removeWaiter w).2.currTask = k.currTask := rfl
@[simp] theorem removeWaiter_mutexes : (k.removeWaiter w).2.mutexes = k.mutexes := rfl
@[simp] theorem removeWaiter_sems : (k.removeWaiter w).2.sems = k.sems := rfl
@[simp] theorem removeWaiter_gdt : (k.removeWaiter w).2.gdt = k.gdt := rfl
@[simp] theorem removeWaiter_tssAddr : (k.removeWaiter w).2.tssAddr = k.tssAddr := rfl
@[simp] theorem removeWaiter_cores : (k.removeWaiter w).2.cores = k.cores := rfl

end

/-! ## `task.c` の関数 -/

@[simp] theorem taskSetReady_currTask : (k.taskSetReady t).currTask = k.currTask := by
  unfold taskSetReady; split <;> rfl
@[simp] theorem taskSetReady_mutexes : (k.taskSetReady t).mutexes = k.mutexes := by
  unfold taskSetReady; split <;> rfl
@[simp] theorem taskSetReady_sems : (k.taskSetReady t).sems = k.sems := by
  unfold taskSetReady; split <;> rfl
@[simp] theorem taskSetReady_gdt : (k.taskSetReady t).gdt = k.gdt := by
  unfold taskSetReady; split <;> rfl
@[simp] theorem taskSetReady_tssAddr : (k.taskSetReady t).tssAddr = k.tssAddr := by
  unfold taskSetReady; split <;> rfl
@[simp] theorem taskSetReady_cores : (k.taskSetReady t).cores = k.cores := by
  unfold taskSetReady
  split
  · rfl
  · rw [setTask_cores, insertLast_cores]

@[simp] theorem taskSetBlock_currTask : (k.taskSetBlock t).currTask = k.currTask := by
  unfold taskSetBlock; split <;> rfl
@[simp] theorem taskSetBlock_mutexes : (k.taskSetBlock t).mutexes = k.mutexes := by
  unfold taskSetBlock; split <;> rfl
@[simp] theorem taskSetBlock_sems : (k.taskSetBlock t).sems = k.sems := by
  unfold taskSetBlock; split <;> rfl
@[simp] theorem taskSetBlock_gdt : (k.taskSetBlock t).gdt = k.gdt := by
  unfold taskSetBlock; split <;> rfl
@[simp] theorem taskSetBlock_tssAddr : (k.taskSetBlock t).tssAddr = k.tssAddr := by
  unfold taskSetBlock; split <;> rfl
@[simp] theorem taskSetBlock_tasks : (k.taskSetBlock t).tasks = k.tasks := by
  unfold taskSetBlock; split <;> rfl
@[simp] theorem taskSetBlock_cores : (k.taskSetBlock t).cores = k.cores := by
  unfold taskSetBlock; split <;> rfl

@[simp] theorem taskDispatch_lists : k.taskDispatch.lists = k.lists := by
  unfold taskDispatch; dsimp only; split <;> rfl
@[simp] theorem taskDispatch_mutexes : k.taskDispatch.mutexes = k.mutexes := by
  unfold taskDispatch; dsimp only; split <;> rfl
@[simp] theorem taskDispatch_sems : k.taskDispatch.sems = k.sems := by
  unfold taskDispatch; dsimp only; split <;> rfl
@[simp] theorem taskDispatch_gdt : k.taskDispatch.gdt = k.gdt := by
  unfold taskDispatch; dsimp only; split <;> rfl
@[simp] theorem taskDispatch_tssAddr : k.taskDispatch.tssAddr = k.tssAddr := by
  unfold taskDispatch; dsimp only; split <;> rfl
@[simp] theorem taskDispatch_cores : k.taskDispatch.cores = k.cores := by
  unfold taskDispatch
  dsimp only
  split
  · rw [setTask_cores]; rfl
  · rfl
@[simp] theorem taskDispatch_currTask : k.taskDispatch.currTask = k.taskNextRun := by
  unfold taskDispatch
  dsimp only
  split
  · rfl
  · rename_i h; exact (not_not.mp h).symm

end Kernel

end IdealX86
