import IdealX86.Cpu.Gdt
import IdealX86.Tools.Klib
import IdealX86.Tools.List

/-!
# カーネルの状態

タスク、ミューテックス、セマフォはポインタの代わりに名前で指す。リストの持ち方だけを型引数 `σ` に出し、
`task.c`、`mutex.c`、`sem.c` の関数を `ListStore σ` の上に一度だけ書く。`list.c` のヒープを `σ` に取ったものが
ソースのカーネルで、並びそのもの（`Queues`）を取ったものがその抽象である。
-/

namespace IdealX86

/-- `task_t *`。0 は空のポインタである。 -/
abbrev TaskId := Nat

def nullTask : TaskId := 0
def idleTask : TaskId := 1
def firstTask : TaskId := 2

/-- `mutex_t *`。`gdt` は `cpu.c`、`log` は `log.c` の静的な変数である。 -/
inductive MutexId where
  | gdt
  | log
  | other (n : Nat)
  deriving DecidableEq

abbrev SemId := Nat

/-- `wait_list` の持ち主。 -/
inductive WaitId where
  | mutex (m : MutexId)
  | sem (s : SemId)
  deriving DecidableEq

inductive ListId where
  | ready
  | sleep
  | task
  | wait (w : WaitId)
  deriving DecidableEq

/-- `task_t` に埋め込まれた節。 -/
inductive Node where
  | run (t : TaskId)
  | all (t : TaskId)
  | wait (t : TaskId)
  deriving DecidableEq

/-- マクロ `list_node_parent(node, task_t, run_node)`。空のポインタには空のポインタを返す。 -/
def runParent : Option Node → TaskId
  | some (.run t) => t
  | _ => nullTask

/-- マクロ `list_node_parent(node, task_t, wait_node)`。 -/
def waitParent : Option Node → TaskId
  | some (.wait t) => t
  | _ => nullTask

inductive TaskState where
  | created
  | running
  | sleep
  | ready
  | waitting
  deriving DecidableEq

structure Tss where
  pre_link : BitVec 32 := 0
  esp0 : BitVec 32 := 0
  ss0 : BitVec 32 := 0
  esp1 : BitVec 32 := 0
  ss1 : BitVec 32 := 0
  esp2 : BitVec 32 := 0
  ss2 : BitVec 32 := 0
  cr3 : BitVec 32 := 0
  eip : BitVec 32 := 0
  eflags : BitVec 32 := 0
  eax : BitVec 32 := 0
  ecx : BitVec 32 := 0
  edx : BitVec 32 := 0
  ebx : BitVec 32 := 0
  esp : BitVec 32 := 0
  ebp : BitVec 32 := 0
  esi : BitVec 32 := 0
  edi : BitVec 32 := 0
  es : BitVec 32 := 0
  cs : BitVec 32 := 0
  ss : BitVec 32 := 0
  ds : BitVec 32 := 0
  fs : BitVec 32 := 0
  gs : BitVec 32 := 0
  ldt : BitVec 32 := 0
  iomap : BitVec 32 := 0
  deriving DecidableEq

def sizeofTss : BitVec 32 := 104

/-- `task_t`。埋め込まれた三つの節は `Node` で指す。`name` は配列の先頭から見たバイトである。 -/
structure Task where
  state : TaskState := .created
  sleepTicks : Int := 0
  timeTicks : Int := 0
  sliceTicks : Int := 0
  name : Int → Byte := fun _ => 0
  tss : Tss := {}
  tssSel : Int := 0

/-- `mutex_t`。`wait_list` は `ListId.wait (.mutex m)` で指す。 -/
structure Mutex where
  owner : TaskId
  lockedCount : Int
  deriving DecidableEq

/-- リストの操作。`list.c` の関数に一つずつ対応する。`next` は、節が今つながれているリストも受け取る。 -/
class ListStore (σ : Type) where
  nodeInit : σ → Node → σ
  init : σ → ListId → σ
  insertLast : σ → ListId → Node → σ
  removeFirst : σ → ListId → Option Node × σ
  remove : σ → ListId → Node → σ
  count : σ → ListId → Int
  first : σ → ListId → Option Node
  next : σ → ListId → Node → Option Node

/-- `task_manager`、`mutex_t` と `sem_t`、GDT をまとめたカーネルの状態。`tssAddr` は `&task->tss` を与える配置で、
変わらない。 -/
structure Kernel (σ : Type) where
  lists : σ
  tasks : TaskId → Task
  currTask : TaskId
  mutexes : MutexId → Mutex
  sems : SemId → Int
  gdt : Gdt
  tssAddr : TaskId → BitVec 32

/-! ## ソースのリスト -/

/-- `list.c` のリストを置くヒープ。 -/
abbrev Heap := ListHeap ListId Node

instance : ListStore Heap where
  nodeInit := ListHeap.listNodeInit
  init := ListHeap.listInit
  insertLast := ListHeap.listInsertLast
  removeFirst := ListHeap.listRemoveFirst
  remove := ListHeap.listRemove
  count := ListHeap.listCount
  first := ListHeap.listFirst
  next := fun h _ n => h.listNodeNext n

/-! ## 抽象のリスト -/

/-- リストを、つながれているタスクの並びで表す。 -/
structure Queues where
  ready : List TaskId := []
  sleep : List TaskId := []
  task : List TaskId := []
  wait : WaitId → List TaskId := fun _ => []

/-- 並びの中で `t` の次にあるタスク。 -/
def succOf (t : TaskId) : List TaskId → Option TaskId
  | [] => none
  | x :: xs => if x = t then xs.head? else succOf t xs

namespace Queues

/-- リスト `l` の並びを `f` で書き換える。 -/
def modify (q : Queues) (l : ListId) (f : List TaskId → List TaskId) : Queues :=
  match l with
  | .ready => { q with ready := f q.ready }
  | .sleep => { q with sleep := f q.sleep }
  | .task => { q with task := f q.task }
  | .wait w => { q with wait := Function.update q.wait w (f (q.wait w)) }

def seq (q : Queues) : ListId → List TaskId
  | .ready => q.ready
  | .sleep => q.sleep
  | .task => q.task
  | .wait w => q.wait w

end Queues

/-- リスト `l` につなぐ節。`ready_list` と `sleep_list` は同じ `run_node` を使う。 -/
def ListId.node : ListId → TaskId → Node
  | .ready, t => .run t
  | .sleep, t => .run t
  | .task, t => .all t
  | .wait _, t => .wait t

def Node.task : Node → TaskId
  | .run t => t
  | .all t => t
  | .wait t => t

instance : ListStore Queues where
  nodeInit q _ := q
  init q l := q.modify l fun _ => []
  insertLast q l n := q.modify l (· ++ [n.task])
  removeFirst q l := ((q.seq l).head?.map l.node, q.modify l List.tail)
  remove q l n := q.modify l (·.erase n.task)
  count q l := (q.seq l).length
  first q l := (q.seq l).head?.map l.node
  next q l n := (succOf n.task (q.seq l)).map l.node

end IdealX86
