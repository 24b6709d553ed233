import IdealX86.Ipc.Sync

/-!
# `task.c`：タスクの生成と起動

`task_init` は最後の区間だけが割り込みを禁じている。割り込まれうる途中の位置を `InitPc` に並べ、位置ごとの実行を
`initLocal` と `initNext` で表す。まだ公開していないタスクの欄への代入は、ほかのタスクから見えないので、まとめて一つの位置にする。
起動のときは割り込みが禁じられているので、`taskInit` として一度に実行する。
-/

namespace IdealX86

def EFLAGS_DEFAULT : BitVec 32 := 1 <<< 1
def EFLAGS_IF : BitVec 32 := 1 <<< 9

structure InitArgs where
  entry : BitVec 32
  esp : BitVec 32
  name : Nat → Byte

namespace Kernel

variable {σ : Type} [ListStore σ] (k : Kernel σ)

/-- `tss_init` が記述子に書く値。 -/
def tssDesc (u : TaskId) : DescValue :=
  descValue (k.tssAddr u) sizeofTss (SEG_P_PRESENT ||| SEG_DPL0 ||| SEG_TYPE_TSS)

/-- `tss_init` の `j` 番目の記述子への代入。 -/
def storeDesc (u : TaskId) (j i : Nat) : Kernel σ :=
  { k with gdt := Function.update k.gdt i (descStore (k.tssDesc u) j (k.gdt i)) }

/-- `tss_init` の、記述子を書いた後の部分。 -/
def tssFields (u : TaskId) (a : InitArgs) (i : Nat) : Kernel σ :=
  let ds := BitVec.ofNat 32 KERNEL_SELECTOR_DS
  k.setTask u fun x =>
    { x with
      tss := { eip := a.entry, esp := a.esp, esp0 := a.esp, ss := ds, ss0 := ds, es := ds, ds := ds,
               fs := ds, gs := ds, cs := BitVec.ofNat 32 KERNEL_SELECTOR_CS,
               eflags := EFLAGS_DEFAULT ||| EFLAGS_IF }
      tssSel := (i * 8 : Nat) }

/-- `task_init` の、公開する前の代入。 -/
def taskFields (u : TaskId) (a : InitArgs) : Kernel σ :=
  let k := k.setTask u fun x =>
    { x with name := kernelStrncpy x.name a.name TASK_NAME_SIZE, state := .created, sleepTicks := 0,
             timeTicks := TASK_TIME_SLICE_DEFAULT, sliceTicks := TASK_TIME_SLICE_DEFAULT }
  { k with lists := ListStore.nodeInit (ListStore.nodeInit (ListStore.nodeInit k.lists (.all u)) (.run u))
             (.wait u) }

/-- `task_init` の、割り込みを禁じた最後の区間。 -/
def taskPublish (u : TaskId) : Kernel σ := (k.taskSetReady u).insertLast .task (.all u)

/-! ## 割り込まれうる位置 -/

/-- `task_init` の割り込まれうる位置。順に、`gdt_alloc_desc` の `mutex_lock`、その `for` の `i` 回目、`mutex_unlock`
（`r` は見つけた番号）、`segment_desc_set` の `j` 番目の代入、`tss_init` の残り、`kernel_strncpy` からの代入、最後の区間の前である。 -/
inductive InitPc where
  | lock
  | scan (i : Nat)
  | unlock (r : Option Nat)
  | desc (j i : Nat)
  | tss (i : Nat)
  | fields
  | publish
  deriving DecidableEq

def initNext (gdt : Gdt) : InitPc → Option InitPc
  | .lock => some (.scan 1)
  | .scan i =>
      if i < GDT_TABLE_SIZE then
        if (gdt i).attr = 0 then some (.unlock (some i)) else some (.scan (i + 1))
      else some (.unlock none)
  | .unlock (some i) => some (.desc 0 i)
  | .unlock none => some .fields
  | .desc j i => if j < 4 then some (.desc (j + 1) i) else some (.tss i)
  | .tss _ => some .fields
  | .fields => some .publish
  | .publish => none

/-- 位置 `pc` での、ミューテックスの呼び出しを除いた実行。 -/
def initLocal (u : TaskId) (a : InitArgs) : InitPc → Kernel σ
  | .lock => k
  | .scan _ => k
  | .unlock _ => k
  | .desc j i => k.storeDesc u j i
  | .tss i => k.tssFields u a i
  | .fields => k.taskFields u a
  | .publish => k.taskPublish u

/-! ## 起動 -/

/-- `gdt_alloc_desc`。見つけた記述子の番号を返す。 -/
def gdtAllocDesc : Option Nat × Kernel σ :=
  let k := k.mutexLock .gdt
  (gdtFindFree k.gdt (GDT_TABLE_SIZE - 1) 1, k.mutexUnlock .gdt)

def tssInit (u : TaskId) (a : InitArgs) : Int × Kernel σ :=
  match k.gdtAllocDesc with
  | (none, k) => (-1, k)
  | (some i, k) =>
      (0, { k with gdt := segmentDescSet k.gdt (i * 8) (k.tssAddr u) sizeofTss
                            (SEG_P_PRESENT ||| SEG_DPL0 ||| SEG_TYPE_TSS) }.tssFields u a i)

/-- `task_init`。`tss_init` の戻り値は見ない。 -/
def taskInit (u : TaskId) (a : InitArgs) : Kernel σ :=
  ((k.tssInit u a).2.taskFields u a).taskPublish u

/-- 戻り値を含めた `task_init` の呼び出し。戻り値は `tss_init` の結果によらず 0 である。 -/
def taskInitCall (u : TaskId) (a : InitArgs) : Int × Kernel σ := (0, k.taskInit u a)

def taskManagerInit (idle : InitArgs) : Kernel σ :=
  let k := { k with lists := ListStore.init (ListStore.init (ListStore.init k.lists .ready) .task) .sleep }
  { k.taskInit idleTask idle with currTask := nullTask }

def taskFirstInit (first : InitArgs) : Kernel σ :=
  { k.taskInit firstTask first with currTask := firstTask }

end Kernel

end IdealX86
