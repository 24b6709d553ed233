import IdealX86.Core.Kernel

/-!
# `task.c`：スケジューラ

`irq_enter_protection` と `irq_leave_protection` に挟まれた区間は割り込まれないので、一つの関数として書く。
`task_switch` は、切り替え先を `currTask` に書くところまでを表す。呼び出し側の残りのコードの扱いは
`Machine/Step.lean` に置く。`log_printf` はスケジューラの状態に触れないものとする。
-/

namespace IdealX86

def OS_TICKS_MS : UInt32 := 10
def TASK_TIME_SLICE_DEFAULT : Int := 10
def TASK_NAME_SIZE : Nat := 32

namespace Kernel

variable {σ : Type} [ListStore σ] (k : Kernel σ)

def setTask (t : TaskId) (f : Task → Task) : Kernel σ :=
  { k with tasks := Function.update k.tasks t (f (k.tasks t)) }

def insertLast (l : ListId) (n : Node) : Kernel σ :=
  { k with lists := ListStore.insertLast k.lists l n }

def remove (l : ListId) (n : Node) : Kernel σ :=
  { k with lists := ListStore.remove k.lists l n }

def taskSetReady (t : TaskId) : Kernel σ :=
  if t = idleTask then k
  else (k.insertLast .ready (.run t)).setTask t fun x => { x with state := .ready }

def taskSetBlock (t : TaskId) : Kernel σ :=
  if t = idleTask then k else k.remove .ready (.run t)

def taskNextRun : TaskId :=
  if ListStore.count k.lists .ready = 0 then idleTask else runParent (ListStore.first k.lists .ready)

/-- `task_dispatch` の、`task_switch` で切り替わるところまで。 -/
def taskDispatch : Kernel σ :=
  let next := k.taskNextRun
  if next ≠ k.currTask then
    { k with currTask := next }.setTask next fun x => { x with state := .running }
  else k

def sysSchedYield : Kernel σ :=
  if ListStore.count k.lists .ready > 1 then
    ((k.taskSetBlock k.currTask).taskSetReady k.currTask).taskDispatch
  else k

/-- `task_set_sleep`。`ticks` が 0 ならどこにもつながない。 -/
def taskSetSleep (t : TaskId) (ticks : UInt32) : Kernel σ :=
  if ticks = 0 then k
  else
    (k.setTask t fun x => { x with sleepTicks := ticks.toNat, state := .sleep }).insertLast .sleep (.run t)

def taskSetWakeup (t : TaskId) : Kernel σ := k.remove .sleep (.run t)

/-- `sys_sleep` が数える割り込みの回数。和は 32 ビットで桁あふれする。 -/
def sleepTicks (ms : UInt32) : UInt32 := (ms + (OS_TICKS_MS - 1)) / OS_TICKS_MS

def sysSleep (ms : UInt32) : Kernel σ :=
  ((k.taskSetBlock k.currTask).taskSetSleep k.currTask (sleepTicks ms)).taskDispatch

/-! ## `task_time_tick` -/

/-- 今のタスクを `ready_list` の末尾へ回して `task_dispatch` を呼ぶ。 -/
def rotate : Kernel σ := ((k.taskSetBlock k.currTask).taskSetReady k.currTask).taskDispatch

def countSlice : Kernel σ := k.setTask k.currTask fun x => { x with sliceTicks := x.sliceTicks - 1 }

def resetSlice : Kernel σ := k.setTask k.currTask fun x => { x with sliceTicks := x.timeTicks }

/-- `task_time_tick` の前半。時間片が尽きたら、それを戻し、末尾へ回して最初の `task_dispatch` を呼ぶ。 -/
def tickSlice : Kernel σ :=
  let t := k.currTask
  let k := k.setTask t fun x => { x with sliceTicks := x.sliceTicks - 1 }
  if (k.tasks t).sliceTicks = 0 then
    let k := k.setTask t fun x => { x with sliceTicks := x.timeTicks }
    ((k.taskSetBlock t).taskSetReady t).taskDispatch
  else k

/-- 睡眠中の一つのタスクの数え下げ。0 になったら起こす。 -/
def wakeOne (t : TaskId) : Kernel σ :=
  let k := k.setTask t fun x => { x with sleepTicks := x.sleepTicks - 1 }
  if (k.tasks t).sleepTicks = 0 then (k.taskSetWakeup t).taskSetReady t else k

/-- `sleep_list` をたどる `while (curr)`。次の節は、起こす前に読んでおく。残った `curr` も返す。 -/
def sleepWalk : Nat → Option Node → Kernel σ → Kernel σ × Option Node
  | 0, curr, k => (k, curr)
  | _ + 1, none, k => (k, none)
  | fuel + 1, some n, k =>
      let next := ListStore.next k.lists .sleep n
      sleepWalk fuel next (k.wakeOne (runParent (some n)))

/-- `task_time_tick` の後半。`sleep_list` をたどり、最後の `task_dispatch` を呼ぶ。節の数だけ回せば、たどり終わる。 -/
def tickSleep : Kernel σ :=
  (sleepWalk (ListStore.count k.lists .sleep).toNat (ListStore.first k.lists .sleep) k).1.taskDispatch

end Kernel

end IdealX86
