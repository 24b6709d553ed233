import IdealX86.Machine.Step
import IdealX86.Tools.Log

/-!
# ログを書きながらの並行実行

`Machine/Step.lean` の機械では `log_printf` を省いた。ここでは `log_printf` を一バイトずつ実行し、その途中の割り込みも扱う。
割り込みの `task_time_tick` は、割り込まれたタスクの続きとして、その中の `log_printf` も含めて実行される。
切り替わって戻った `task_dispatch` も `log_printf` を呼ぶ。

タスクごとに、カーネルの中でまだ実行していないコードを `rest` に残す。`issued` と呼び出しの番号は性質を述べるための履歴で、
何を書き、どう進むかには使わない。
-/

namespace IdealX86

open Kernel (InitPc)

/-- カーネルのコードの一つの位置。`f` は、そこで割り込みが許されていることを表す。`print` は `log_printf` に入るところで、
その中の `out` は一行のうち `rest` をまだ書いていない。`n` はその呼び出しの番号である。`dispatched u` は `u` へ切り替わった `task_switch` から戻った後、
`sliceEnd` は `task_time_tick` で時間片が尽きたときの `log_printf` の後、`tickSleep` は `sleep_list` をたどるところからである。 -/
inductive Instr where
  | print (f : Bool) (s : List Byte)
  | lock (f : Bool)
  | out (f : Bool) (n : Nat) (done rest : List Byte)
  | unlock (f : Bool)
  | dispatched (u : TaskId)
  | sliceEnd
  | tickSleep

def Instr.enabled : Instr → Bool
  | .print f _ => f
  | .lock f => f
  | .out f _ _ _ => f
  | .unlock f => f
  | _ => false

def Instr.done : Instr → List (Nat × Byte)
  | .out _ n done _ => done.map (n, ·)
  | _ => []

/-- コード `p` の中の、書きかけの行のもう書いたバイト。 -/
def written (p : List Instr) : List (Nat × Byte) := (p.map Instr.done).flatten

def logPrintf (f : Bool) (n : Nat) (s : List Byte) : List Instr := [.lock f, .out f n [] (logLine s), .unlock f]

/-! ## メッセージ -/

/-- `%s` で出力する `task->name`。`kernel_strncpy` は、先頭から `TASK_NAME_SIZE` 番目までのどこかに NUL を置く。 -/
def nameText (name : Int → Byte) : List Byte :=
  ((List.range (TASK_NAME_SIZE + 1)).map fun i => name i).takeWhile (· ≠ 0)

def dispatchText (name : Int → Byte) : List Byte := bytesOf "Dispatching task: " ++ nameText name

def sliceEndText : List Byte := bytesOf " ******************time slice end*************************** "

def tssFailedText : List Byte := bytesOf "alloc tss failed\n"

/-! ## 状態と一歩 -/

structure Console (σ : Type) where
  kernel : Kernel σ
  code : TaskId → Code
  /-- カーネルの中の残りのコード。 -/
  rest : TaskId → List Instr
  used : List TaskId
  /-- `COM1_PORT` に書いたバイトと、その `log_printf` の呼び出しの番号。 -/
  out : List (Nat × Byte)
  /-- `log_printf` に渡されたメッセージ。 -/
  issued : List (List Byte)

inductive ConsoleLabel where
  | tick
  | run
  | printf (s : List Byte)
  | call (x : Call)
  | initStart (u : TaskId) (a : InitArgs)
  | initStep

/-- `log_mutex` を操作する。`log.c` の静的な変数なので、タスクは直接には行わない。 -/
def Call.onLog : Call → Bool
  | .mutexLock .log => true
  | .mutexUnlock .log => true
  | _ => false

namespace Console

variable {σ : Type} [ListStore σ] (c : Console σ)

abbrev curr : TaskId := c.kernel.currTask

/-- `COM1_PORT` に書いたバイト。 -/
def sent : List Byte := c.out.map Prod.snd

def setRest (p : List Instr) : Console σ := { c with rest := Function.update c.rest c.curr p }

def setCode (x : Code) : Console σ := { c with code := Function.update c.code c.curr x }

/-- 割り込みを禁じた区間の実行。`p` は、その後に残るコードである。区間の中で切り替わったなら、`task_dispatch` の残りも加わる。 -/
def settle (k : Kernel σ) (p : List Instr) : Console σ :=
  { c.setRest (if k.currTask = c.curr then p else .dispatched k.currTask :: p) with kernel := k }

def doRun (p : List Instr) : Instr → Console σ
  | .print f s => { c.setRest (logPrintf f c.issued.length s ++ p) with issued := s :: c.issued }
  | .lock _ => c.settle (c.kernel.mutexLock .log) p
  | .out _ _ _ [] => c.setRest p
  | .out f n done (b :: bs) =>
      { c.setRest (if bs = [] then p else .out f n (done ++ [b]) bs :: p) with out := c.out ++ [(n, b)] }
  | .unlock _ => c.settle (c.kernel.mutexUnlock .log) p
  | .dispatched u => c.setRest (.print false (dispatchText (c.kernel.tasks u).name) :: p)
  | .sliceEnd => c.settle c.kernel.resetSlice.rotate p
  | .tickSleep => c.settle c.kernel.tickSleep p

/-- `task_time_tick` の残りのコード。`k` は `--slice_ticks` の後のカーネルである。 -/
def tickRest (k : Kernel σ) : List Instr :=
  if (k.tasks k.currTask).sliceTicks = 0 then [.print false sliceEndText, .sliceEnd, .tickSleep]
  else [.tickSleep]

def doTick : Console σ :=
  let k := c.kernel.countSlice
  { c.setRest (tickRest k ++ c.rest c.curr) with kernel := k }

/-- `tss_init` は、記述子が見つからないとメッセージを出す。 -/
def initPrints : InitPc → List Instr
  | .unlock none => [.print true tssFailedText]
  | _ => []

def doInit (u : TaskId) (a : InitArgs) (pc : InitPc) : Console σ :=
  let c' := c.setCode (.next u a (Kernel.initNext c.kernel.gdt pc))
  match initCall pc with
  | some x => c'.settle (c.kernel.call x) (initPrints pc)
  | none => { c' with kernel := c.kernel.initLocal u a pc }

/-- 今の位置で割り込みが許されている。タスク自身のコードでは、いつでも許されている。 -/
def interruptible : Bool :=
  match c.rest c.curr with
  | [] => true
  | i :: _ => i.enabled

def step : ConsoleLabel → Option (Console σ)
  | .tick => if c.interruptible then some c.doTick else none
  | .run =>
      match c.rest c.curr with
      | [] => none
      | i :: p => some (c.doRun p i)
  | .printf s =>
      match c.rest c.curr, c.code c.curr with
      | [], .own => if c.curr ≠ idleTask then some (c.setRest [.print true s]) else none
      | _, _ => none
  | .call x =>
      match c.rest c.curr, c.code c.curr with
      | [], .own =>
          if c.curr ≠ idleTask ∧ x.onLog = false then some (c.settle (c.kernel.call x) []) else none
      | _, _ => none
  | .initStart u a =>
      match c.rest c.curr, c.code c.curr with
      | [], .own =>
          if c.curr ≠ idleTask ∧ u ≠ nullTask ∧ u ∉ c.used then
            some { c.setCode (.init u a .lock) with used := u :: c.used }
          else none
      | _, _ => none
  | .initStep =>
      match c.rest c.curr, c.code c.curr with
      | [], .init u a pc => some (c.doInit u a pc)
      | _, _ => none

def boot (lists : σ) (b : BootArgs) : Console σ where
  kernel := (Machine.boot lists b).kernel
  code := (Machine.boot lists b).code
  rest := fun _ => []
  used := (Machine.boot lists b).used
  out := []
  issued := []

end Console

end IdealX86
