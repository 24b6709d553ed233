import IdealX86.Core.TaskInit

/-!
# タスクの並行実行

カーネルの上で、今のタスクが呼び出しを行い、割り込みが許されている位置でいつでも時計の割り込みが起こる。
`task_dispatch` の中で切り替わると、呼び出し側の残りのコードは、そのタスクが次に選ばれるまで止まる。止まったところは
`susp` に残り、割り込みは禁じられたままなので、選ばれたタスクはまず残りを実行する（`Label.resume`）。

`hist` は性質を述べるための履歴で、新しい事象が前に来る。遷移は `hist` を読まない。
-/

namespace IdealX86

open Kernel (InitPc)

inductive Call where
  | sysSchedYield
  | sysSleep (ms : UInt32)
  | semWait (s : SemId)
  | semNotify (s : SemId)
  | mutexLock (m : MutexId)
  | mutexUnlock (m : MutexId)
  deriving DecidableEq

/-- `task_dispatch` の中で止まっているところ。 -/
inductive Suspended where
  /-- 呼び出しの最後の `task_dispatch`。残りは保護区間を出て戻るだけである。 -/
  | call (x : Call)
  /-- `task_time_tick` の最初の `task_dispatch`。残りは `sleep_list` をたどるところからである。 -/
  | tickSlice
  /-- `task_time_tick` の最後の `task_dispatch`。残りは割り込みから戻るだけである。 -/
  | tickEnd
  deriving DecidableEq

/-- 割り込みを許して実行しているコード。 -/
inductive Code where
  | own
  | init (u : TaskId) (a : InitArgs) (pc : InitPc)

/-- ミューテックスとセマフォの事象。空いているミューテックスは `got` で取られ、持ち主は `nested` で重ねて取り、待っていたタスクには
`handover` で渡る。`lockRet` は `mutex_lock` から戻ったこと、`semTaken` は `sem_wait` が待たずに通ったことを表す。 -/
inductive Event where
  | got (t : TaskId) (m : MutexId)
  | nested (t : TaskId) (m : MutexId)
  | blocked (t : TaskId) (m : MutexId)
  | handover (t : TaskId) (m : MutexId)
  | lockRet (t : TaskId) (m : MutexId)
  | unlock (t : TaskId) (m : MutexId)
  | semTaken (t : TaskId) (s : SemId)
  | semBlocked (t : TaskId) (s : SemId)
  | semWoken (t : TaskId) (s : SemId)
  | semNotified (t : TaskId) (s : SemId)
  deriving DecidableEq

structure Machine (σ : Type) where
  kernel : Kernel σ
  code : TaskId → Code
  susp : TaskId → Option Suspended
  /-- 今までに `task_init` に渡されたタスク。 -/
  used : List TaskId
  hist : List Event

inductive Label where
  | tick
  | resume
  | call (x : Call)
  | initStart (u : TaskId) (a : InitArgs)
  | initStep

def Label.isTick : Label → Bool
  | .tick => true
  | _ => false

variable {σ : Type} [ListStore σ]

namespace Kernel

variable (k : Kernel σ)

def call : Call → Kernel σ
  | .sysSchedYield => k.sysSchedYield
  | .sysSleep ms => k.sysSleep ms
  | .semWait s => k.semWait s
  | .semNotify s => k.semNotify s
  | .mutexLock m => k.mutexLock m
  | .mutexUnlock m => k.mutexUnlock m

def callEvents : Call → List Event
  | .sysSchedYield => []
  | .sysSleep _ => []
  | .semWait s =>
      if k.sems s > 0 then [.semTaken k.currTask s] else [.semBlocked k.currTask s]
  | .semNotify s =>
      if ListStore.count k.lists (.wait (.sem s)) ≠ 0 then
        [.semWoken (k.removeWaiter (.sem s)).1 s, .semNotified k.currTask s]
      else [.semNotified k.currTask s]
  | .mutexLock m =>
      if (k.mutexes m).lockedCount = 0 then [.lockRet k.currTask m, .got k.currTask m]
      else if (k.mutexes m).owner = k.currTask then [.lockRet k.currTask m, .nested k.currTask m]
      else [.blocked k.currTask m]
  | .mutexUnlock m =>
      if (k.mutexes m).owner = k.currTask ∧ (k.mutexes m).lockedCount - 1 = 0 ∧
          ListStore.count k.lists (.wait (.mutex m)) ≠ 0 then
        [.handover (k.removeWaiter (.mutex m)).1 m, .unlock k.currTask m]
      else [.unlock k.currTask m]

end Kernel

/-- 止まっていた呼び出しから戻るときの事象。 -/
def Call.returnEvents (t : TaskId) : Call → List Event
  | .mutexLock m => [.lockRet t m]
  | _ => []

/-- `task_init` の位置で行うミューテックスの呼び出し。 -/
def initCall : InitPc → Option Call
  | .lock => some (.mutexLock .gdt)
  | .unlock _ => some (.mutexUnlock .gdt)
  | _ => none

/-- `task_init` の次の位置。終わればタスク自身のコードへ戻る。 -/
def Code.next (u : TaskId) (a : InitArgs) : Option InitPc → Code
  | some pc => .init u a pc
  | none => .own

namespace Machine

variable (c : Machine σ)

abbrev curr : TaskId := c.kernel.currTask

def setSusp (t : TaskId) (r : Option Suspended) : Machine σ :=
  { c with susp := Function.update c.susp t r }

def setCode (t : TaskId) (x : Code) : Machine σ := { c with code := Function.update c.code t x }

/-- 割り込みを禁じた区間の実行。区間の中で切り替わったなら、今のタスクは `r` を残して止まる。 -/
def settle (k : Kernel σ) (r : Suspended) : Machine σ :=
  if k.currTask = c.curr then { c with kernel := k } else { c.setSusp c.curr (some r) with kernel := k }

def doCall (x : Call) : Machine σ :=
  { c.settle (c.kernel.call x) (.call x) with hist := c.kernel.callEvents x ++ c.hist }

def doTickSleep : Machine σ := c.settle c.kernel.tickSleep .tickEnd

/-- `task_time_tick`。最初の `task_dispatch` で切り替わると、後半は残る。 -/
def doTick : Machine σ :=
  let k := c.kernel.tickSlice
  if k.currTask = c.curr then { c with kernel := k }.doTickSleep
  else { c.setSusp c.curr (some .tickSlice) with kernel := k }

/-- 止まっていたところからの続き。 -/
def doResume : Suspended → Machine σ
  | .call x => { c.setSusp c.curr none with hist := x.returnEvents c.curr ++ c.hist }
  | .tickSlice => (c.setSusp c.curr none).doTickSleep
  | .tickEnd => c.setSusp c.curr none

def doInit (u : TaskId) (a : InitArgs) (pc : InitPc) : Machine σ :=
  let c' := c.setCode c.curr (.next u a (Kernel.initNext c.kernel.gdt pc))
  match initCall pc with
  | some x => c'.doCall x
  | none => { c' with kernel := c.kernel.initLocal u a pc }

/-- 一歩。止まっているところのあるタスクは、その続きしか実行できず、割り込みも受けない。 -/
def step : Label → Option (Machine σ)
  | .tick => if c.susp c.curr = none then some c.doTick else none
  | .resume =>
      match c.susp c.curr with
      | some r => some (c.doResume r)
      | none => none
  | .call x =>
      match c.susp c.curr, c.code c.curr with
      | none, .own => if c.curr ≠ idleTask then some (c.doCall x) else none
      | _, _ => none
  | .initStart u a =>
      match c.susp c.curr, c.code c.curr with
      | none, .own =>
          if c.curr ≠ idleTask ∧ u ≠ nullTask ∧ u ∉ c.used then
            some { c.setCode c.curr (.init u a .lock) with used := u :: c.used }
          else none
      | _, _ => none
  | .initStep =>
      match c.susp c.curr, c.code c.curr with
      | none, .init u a pc => some (c.doInit u a pc)
      | _, _ => none

end Machine

/-! ## 起動 -/

/-- 起動のときに決まる値。セマフォの初めの値、GDT の中身、`task_t` の配置と、二つのタスクの引数。 -/
structure BootArgs where
  idle : InitArgs
  first : InitArgs
  sems : SemId → Int
  gdt : Gdt
  tssAddr : TaskId → BitVec 32

/-- `mutex_init` と `sem_init` を済ませ、タスクがまだない状態。 -/
def Kernel.reset (lists : σ) (b : BootArgs) : Kernel σ where
  lists := lists
  tasks := fun _ => {}
  currTask := nullTask
  mutexes := fun _ => ⟨nullTask, 0⟩
  sems := b.sems
  gdt := b.gdt
  tssAddr := b.tssAddr

/-- `task_manager_init` と `task_first_init` の直後。 -/
def Machine.boot (lists : σ) (b : BootArgs) : Machine σ where
  kernel := ((Kernel.reset lists b).taskManagerInit b.idle).taskFirstInit b.first
  code := fun _ => .own
  susp := fun _ => none
  used := [firstTask, idleTask]
  hist := []

/-- どのリストも空のヒープ。節のリンクは問わない。 -/
def Heap.empty (node : Node → Lib.Link Node) : Heap := ⟨node, fun _ => ⟨none, none, 0⟩⟩

end IdealX86
