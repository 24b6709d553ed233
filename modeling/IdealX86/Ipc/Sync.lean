import IdealX86.Core.Task

/-!
# `mutex.c` と `sem.c`

待つときは、`task_set_block` の後に `wait_node` を待ち行列につなぎ、`task_dispatch` を呼ぶ。
-/

namespace IdealX86.Kernel

variable {σ : Type} [ListStore σ] (k : Kernel σ)

def setMutex (m : MutexId) (x : Mutex) : Kernel σ :=
  { k with mutexes := Function.update k.mutexes m x }

def setSem (s : SemId) (count : Int) : Kernel σ :=
  { k with sems := Function.update k.sems s count }

/-- `list_remove_first(&wait_list)` で外した節のタスクと、外した後の状態。 -/
def removeWaiter (w : WaitId) : TaskId × Kernel σ :=
  let r := ListStore.removeFirst k.lists (.wait w)
  (waitParent r.1, { k with lists := r.2 })

/-- 今のタスクを待ち行列の末尾につないで、ほかのタスクへ移る。 -/
def waitOn (w : WaitId) : Kernel σ :=
  ((k.taskSetBlock k.currTask).insertLast (.wait w) (.wait k.currTask)).taskDispatch

/-! ## ミューテックス -/

def mutexInit (m : MutexId) : Kernel σ :=
  { k.setMutex m ⟨nullTask, 0⟩ with lists := ListStore.init k.lists (.wait (.mutex m)) }

/-- `mutex_lock`。持ち主が重ねて取ることを許す。 -/
def mutexLock (m : MutexId) : Kernel σ :=
  let x := k.mutexes m
  if x.lockedCount = 0 then k.setMutex m ⟨k.currTask, x.lockedCount + 1⟩
  else if x.owner = k.currTask then k.setMutex m ⟨x.owner, x.lockedCount + 1⟩
  else k.waitOn (.mutex m)

/-- `mutex_unlock`。最後の解放では、待っている先頭のタスクへ直接渡す。 -/
def mutexUnlock (m : MutexId) : Kernel σ :=
  let x := k.mutexes m
  if x.owner = k.currTask then
    if x.lockedCount - 1 = 0 then
      if ListStore.count k.lists (.wait (.mutex m)) ≠ 0 then
        let r := k.removeWaiter (.mutex m)
        ((r.2.taskSetReady r.1).setMutex m ⟨r.1, 1⟩).taskDispatch
      else k.setMutex m ⟨nullTask, 0⟩
    else k.setMutex m ⟨x.owner, x.lockedCount - 1⟩
  else k

/-! ## セマフォ -/

def semInit (s : SemId) (initCount : Int) : Kernel σ :=
  { k.setSem s initCount with lists := ListStore.init k.lists (.wait (.sem s)) }

def semWait (s : SemId) : Kernel σ :=
  if k.sems s > 0 then k.setSem s (k.sems s - 1) else k.waitOn (.sem s)

def semNotify (s : SemId) : Kernel σ :=
  if ListStore.count k.lists (.wait (.sem s)) ≠ 0 then
    let r := k.removeWaiter (.sem s)
    (r.2.taskSetReady r.1).taskDispatch
  else k.setSem s (k.sems s + 1)

end IdealX86.Kernel
