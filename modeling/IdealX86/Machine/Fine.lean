import IdealX86.Machine.Step

/-!
# 一文ごとの実行

`Machine/Step.lean` では、`irq_enter_protection` と `irq_leave_protection` に挟まれた区間を一歩とした。ここでは、区間を一文ずつ実行し、
`EFLAGS` の割り込みのビットを状態に持ち、立っていればどの文の前でも時計の割り込みが起こる。区間が割り込まれないことは、
仮定ではなく、`read_eflags`、`cli`、`write_eflags` の結果である。

`task_switch` は、今のビットを今のタスクの TSS に残し、次のタスクの TSS のビットを取り出す。`log_printf` は、`Machine/Step.lean` と
同じく省く。
-/

namespace IdealX86

open Kernel (InitPc)

inductive Stmt (σ : Type) where
  /-- `irq_state_t state = read_eflags()`。 -/
  | save
  | cli
  /-- `write_eflags(state)`。 -/
  | restore
  | iret
  | act (f : Kernel σ → Kernel σ)
  | branch (f : Kernel σ → List (Stmt σ))
  /-- `task_switch(from, to)`。 -/
  | switch

variable {σ : Type} [ListStore σ]

/-! ## カーネルの関数 -/

/-- `irq_enter_protection` と `irq_leave_protection` に挟まれた文。 -/
def protect (p : List (Stmt σ)) : List (Stmt σ) := .save :: .cli :: (p ++ [.restore])

def dispatchBody : List (Stmt σ) :=
  [.branch fun k =>
    let next := k.taskNextRun
    if next ≠ k.currTask then
      [.act fun k => { k with currTask := next },
       .act fun k => k.setTask next fun x => { x with state := .running }, .switch]
    else []]

def dispatchCode : List (Stmt σ) := protect dispatchBody

/-- 今のタスクを待ち行列の末尾につなぐ文。 -/
def waitCode (w : WaitId) : List (Stmt σ) :=
  .act (fun k => k.taskSetBlock k.currTask) :: .act (fun k => k.insertLast (.wait w) (.wait k.currTask)) :: dispatchCode

def mutexLockBody (m : MutexId) : List (Stmt σ) :=
  [.branch fun k =>
    if (k.mutexes m).lockedCount = 0 then
      [.act fun k => k.setMutex m { k.mutexes m with lockedCount := (k.mutexes m).lockedCount + 1 },
       .act fun k => k.setMutex m { k.mutexes m with owner := k.currTask }]
    else if (k.mutexes m).owner = k.currTask then
      [.act fun k => k.setMutex m { k.mutexes m with lockedCount := (k.mutexes m).lockedCount + 1 }]
    else waitCode (.mutex m)]

/-- 待っている先頭のタスクへの受け渡し。 -/
def handoverCode (m : MutexId) (task : TaskId) : List (Stmt σ) :=
  .act (fun k => (k.removeWaiter (.mutex m)).2) :: .act (·.taskSetReady task) ::
    .act (fun k => k.setMutex m { k.mutexes m with lockedCount := 1 }) ::
    .act (fun k => k.setMutex m { k.mutexes m with owner := task }) :: dispatchCode

def mutexUnlockBody (m : MutexId) : List (Stmt σ) :=
  [.branch fun k =>
    if (k.mutexes m).owner = k.currTask then
      [.act fun k => k.setMutex m { k.mutexes m with lockedCount := (k.mutexes m).lockedCount - 1 },
       .branch fun k =>
        if (k.mutexes m).lockedCount = 0 then
          [.act fun k => k.setMutex m { k.mutexes m with owner := nullTask },
           .branch fun k =>
            if ListStore.count k.lists (.wait (.mutex m)) ≠ 0 then handoverCode m (k.removeWaiter (.mutex m)).1
            else []]
        else []]
    else []]

def semWaitBody (s : SemId) : List (Stmt σ) :=
  [.branch fun k => if k.sems s > 0 then [.act fun k => k.setSem s (k.sems s - 1)] else waitCode (.sem s)]

def semNotifyBody (s : SemId) : List (Stmt σ) :=
  [.branch fun k =>
    if ListStore.count k.lists (.wait (.sem s)) ≠ 0 then
      let task := (k.removeWaiter (.sem s)).1
      .act (fun k => (k.removeWaiter (.sem s)).2) :: .act (·.taskSetReady task) :: dispatchCode
    else [.act fun k => k.setSem s (k.sems s + 1)]]

/-- 今のタスクを `ready_list` の末尾へ回す文。 -/
def rotateCode : List (Stmt σ) :=
  .act (fun k => k.taskSetBlock k.currTask) :: .act (fun k => k.taskSetReady k.currTask) :: dispatchCode

def sysSchedYieldBody : List (Stmt σ) :=
  [.branch fun k => if ListStore.count k.lists .ready > 1 then rotateCode else []]

def sysSleepBody (ms : UInt32) : List (Stmt σ) :=
  .act (fun k => k.taskSetBlock k.currTask) :: .act (fun k => k.taskSetSleep k.currTask (Kernel.sleepTicks ms)) ::
    dispatchCode

def Call.body : Call → List (Stmt σ)
  | .sysSchedYield => sysSchedYieldBody
  | .sysSleep ms => sysSleepBody ms
  | .semWait s => semWaitBody s
  | .semNotify s => semNotifyBody s
  | .mutexLock m => mutexLockBody m
  | .mutexUnlock m => mutexUnlockBody m

/-- `task_time_tick` の、`sleep_list` をたどるところから割り込みの終わりまで。 -/
def tickSleepCode : List (Stmt σ) :=
  .act (fun k =>
    (Kernel.sleepWalk (ListStore.count k.lists .sleep).toNat (ListStore.first k.lists .sleep) k).1) ::
    (dispatchCode ++ [.iret])

/-- 時計の割り込みの `do_handler_time`。 -/
def tickCode : List (Stmt σ) :=
  .act Kernel.countSlice ::
    .branch (fun k =>
      if (k.tasks k.currTask).sliceTicks = 0 then .act Kernel.resetSlice :: rotateCode else []) ::
    tickSleepCode

/-- `task_init` の、割り込みを禁じて実行する位置。 -/
def Kernel.InitPc.isProtected : InitPc → Bool
  | .lock => true
  | .unlock _ => true
  | .publish => true
  | _ => false

def initBody (u : TaskId) (pc : InitPc) : List (Stmt σ) :=
  match initCall pc with
  | some x => x.body
  | none => [.act (·.taskSetReady u), .act (·.insertLast .task (.all u))]

/-! ## 状態と一歩 -/

structure Fine (σ : Type) where
  kernel : Kernel σ
  cpu : TaskId
  /-- `EFLAGS` の割り込みのビット。 -/
  iff : Bool
  /-- タスクごとの、TSS の中の `EFLAGS` のビット。 -/
  tssIf : TaskId → Bool
  /-- カーネルの中の残りの文。 -/
  rest : TaskId → List (Stmt σ)
  /-- スタックの上にある、保存したビット。 -/
  saved : TaskId → List Bool
  code : TaskId → Code
  used : List TaskId

inductive FineLabel where
  | interrupt
  | run
  | call (x : Call)
  | initStart (u : TaskId) (a : InitArgs)
  | initStep

namespace Fine

variable (f : Fine σ)

def setRest (p : List (Stmt σ)) : Fine σ := { f with rest := Function.update f.rest f.cpu p }

def setSaved (s : List Bool) : Fine σ := { f with saved := Function.update f.saved f.cpu s }

def setCode (x : Code) : Fine σ := { f with code := Function.update f.code f.cpu x }

def popFlag : Fine σ :=
  { f.setSaved (f.saved f.cpu).tail with iff := (f.saved f.cpu).headD false }

/-- 一文の実行。`p` は、その後に残る文である。 -/
def doStmt (p : List (Stmt σ)) : Stmt σ → Fine σ
  | .save => (f.setRest p).setSaved (f.iff :: f.saved f.cpu)
  | .cli => { f.setRest p with iff := false }
  | .restore => (f.setRest p).popFlag
  | .iret => (f.setRest p).popFlag
  | .act g => { f.setRest p with kernel := g f.kernel }
  | .branch g => f.setRest (g f.kernel ++ p)
  | .switch =>
      let tssIf := Function.update f.tssIf f.cpu f.iff
      { f.setRest p with cpu := f.kernel.currTask, tssIf := tssIf, iff := tssIf f.kernel.currTask }

/-- 割り込みの受け取り。ビットを積んで落とす。 -/
def doInterrupt : Fine σ :=
  { (f.setRest (tickCode ++ f.rest f.cpu)).setSaved (f.iff :: f.saved f.cpu) with iff := false }

def doInit (u : TaskId) (a : InitArgs) (pc : InitPc) : Fine σ :=
  let f' := f.setCode (.next u a (Kernel.initNext f.kernel.gdt pc))
  if pc.isProtected then f'.setRest (protect (initBody u pc)) else { f' with kernel := f.kernel.initLocal u a pc }

/-- 一歩。カーネルの中の文が残っているタスクは、その続きしか実行できない。 -/
def step : FineLabel → Option (Fine σ)
  | .interrupt => if f.iff then some f.doInterrupt else none
  | .run =>
      match f.rest f.cpu with
      | [] => none
      | x :: p => some (f.doStmt p x)
  | .call x =>
      match f.rest f.cpu, f.code f.cpu with
      | [], .own => if f.cpu ≠ idleTask then some (f.setRest (protect x.body)) else none
      | _, _ => none
  | .initStart u a =>
      match f.rest f.cpu, f.code f.cpu with
      | [], .own =>
          if f.cpu ≠ idleTask ∧ u ≠ nullTask ∧ u ∉ f.used then
            some { f.setCode (.init u a .lock) with used := u :: f.used }
          else none
      | _, _ => none
  | .initStep =>
      match f.rest f.cpu, f.code f.cpu with
      | [], .init u a pc => some (f.doInit u a pc)
      | _, _ => none

/-- 起動の後。`iff` は、最初のタスクが割り込みを許して始まるかどうかである。ほかのタスクのビットは、`tss_init` が TSS に立てる。 -/
def boot (lists : σ) (b : BootArgs) (iff : Bool) : Fine σ where
  kernel := (Machine.boot lists b).kernel
  cpu := firstTask
  iff := iff
  tssIf := fun _ => true
  rest := fun _ => []
  saved := fun _ => []
  code := fun _ => .own
  used := (Machine.boot lists b).used

end Fine

end IdealX86
