import IdealX86.Cpu.Tss

/-!
# TSS の上のタスク

タスクのレジスタを TSS と GDT とメモリの上で、アドレスを変換しながら切り替える系と、タスクごとにレジスタを持つ抽象的な系を並べる。`gdt_alloc_desc` の
競合は別に扱うので、ここでは `tss_init` を一歩とする。
-/

namespace IdealX86

open Lib (Bytes load32 store32)
open Asm (Context Cpu Hw Unspec)

/-- `gdt_table` と、`task_t` の中の TSS の配置。 -/
structure TssLayout where
  tasks : List TaskId
  addr : TaskId → BitVec 32
  gdtBase : BitVec 32
  ne_zero : ∀ t ∈ tasks, addr t ≠ 0
  bound : ∀ t ∈ tasks, (addr t).toNat + 104 ≤ 2 ^ 32
  gdt_bound : gdtBase.toNat + 8 * GDT_TABLE_SIZE ≤ 2 ^ 32
  apart : ∀ t ∈ tasks, ∀ u ∈ tasks, t ≠ u →
    (addr t).toNat + 104 ≤ (addr u).toNat ∨ (addr u).toNat + 104 ≤ (addr t).toNat
  gdt_apart : ∀ t ∈ tasks,
    (addr t).toNat + 104 ≤ gdtBase.toNat ∨ gdtBase.toNat + 8 * GDT_TABLE_SIZE ≤ (addr t).toNat
  idle_mem : idleTask ∈ tasks
  first_mem : firstTask ∈ tasks

/-- アドレス `a` からの 4 バイトが、`base` からの `n` バイトと重ならない。 -/
def WordApart (a base : BitVec 32) (n : Nat) : Prop := n ≤ (a - base).toNat ∧ (a - base).toNat ≤ 2 ^ 32 - 4

instance (a base : BitVec 32) (n : Nat) : Decidable (WordApart a base n) := inferInstanceAs (Decidable (_ ∧ _))

/-- アドレス `a` からの 4 バイトは、GDT とも `used` のどのタスクの TSS とも重ならない。 -/
def TssLayout.MayStore (l : TssLayout) (used : List TaskId) (a : BitVec 32) : Prop :=
  WordApart a l.gdtBase (8 * GDT_TABLE_SIZE) ∧ ∀ t ∈ used, WordApart a (l.addr t) 104

instance (l : TssLayout) (used : List TaskId) (a : BitVec 32) : Decidable (l.MayStore used a) :=
  inferInstanceAs (Decidable (_ ∧ ∀ t ∈ used, _))

inductive SwitchOp where
  | work (x : Context)
  | store (a v : BitVec 32)
  | taskInit (t : TaskId) (a : InitArgs)
  | switch (t : TaskId)

/-! ## TSS の上の系 -/

structure TssSystem where
  hw : Hw
  tssSel : TaskId → Int
  currTask : TaskId
  /-- `task_init` に渡されたタスク。 -/
  inited : List TaskId
  /-- そのうち、`tss_init` が記述子を得たタスク。 -/
  used : List TaskId

namespace TssSystem

variable (u : Unspec) (l : TssLayout) (s : TssSystem)

/-- `tss_init`。記述子が空いていなければ、何も変えない。 -/
def tssInit (t : TaskId) (a : InitArgs) : TssSystem :=
  match gdtFindFree s.hw.gdt (GDT_TABLE_SIZE - 1) 1 with
  | none => s
  | some i =>
      { s with
        hw := { s.hw with
          gdt := segmentDescSet s.hw.gdt (i * 8) (l.addr t) sizeofTss (SEG_P_PRESENT ||| SEG_DPL0 ||| SEG_TYPE_TSS)
          cpu := { s.hw.cpu with mem := Asm.tssFields s.hw.cpu.mem (l.addr t) a } }
        tssSel := Function.update s.tssSel t (i * 8 : Nat)
        used := t :: s.used }

/-- `task_init`。`tss_init` の戻り値は調べない。 -/
def taskInit (t : TaskId) (a : InitArgs) : Option TssSystem :=
  if s.hw.GdtDirect ∧ s.hw.Direct (l.addr t) sizeofTss.toNat then
    some { s.tssInit l t a with inited := t :: s.inited }
  else none

/-- 一歩。どの歩でも、まず次の命令を取り出す。 -/
def step (op : SwitchOp) : Option TssSystem :=
  if s.hw.CodeDirect then
    match op with
    | .work x => some { s with hw := { s.hw with cpu := x.cpu s.hw.cpu.mem } }
    | .store a v =>
        if l.MayStore s.used a ∧ s.hw.Direct a 4 then
          some { s with hw := { s.hw with cpu := { s.hw.cpu with mem := store32 s.hw.cpu.mem a v } } }
        else none
    | .taskInit t a => if t ∈ l.tasks ∧ t ∉ s.inited then s.taskInit l t a else none
    | .switch t =>
        if t ∈ s.inited ∧ t ≠ s.currTask then
          (s.hw.switchToTss u (s.tssSel t)).map fun hw => { s with hw := hw, currTask := t }
        else none
  else none

/-- その歩の触れるメモリが、すべてそのままの物理アドレスに変換される。 -/
def Direct : SwitchOp → Prop
  | .work _ => s.hw.CodeDirect
  | .store a _ => s.hw.CodeDirect ∧ s.hw.Direct a 4
  | .taskInit t _ => s.hw.CodeDirect ∧ s.hw.GdtDirect ∧ s.hw.Direct (l.addr t) sizeofTss.toNat
  | .switch t => s.hw.CodeDirect ∧ s.hw.GdtDirect ∧ s.hw.Direct (l.addr s.currTask) sizeofTss.toNat ∧
      s.hw.Direct (l.addr t) sizeofTss.toNat

/-- `init_gdt` の直後。静的な `task_t` の `tss_sel` は 0 である。 -/
def reset (cpu : Cpu) (ctrl : Ctrl) : TssSystem :=
  ⟨⟨cpu, ctrl, initGdt, l.gdtBase, 0, 0⟩, fun _ => 0, nullTask, [], []⟩

/-- `init_gdt` の後に、`task_manager_init` と `task_first_init` の行う、TSS についての部分。 -/
def boot (cpu : Cpu) (ctrl : Ctrl) (idle first : InitArgs) : Option TssSystem := do
  let s ← (reset l cpu ctrl).taskInit l idleTask idle
  let s ← s.taskInit l firstTask first
  let hw ← s.hw.writeTr (BitVec.ofInt 16 (s.tssSel firstTask))
  if hw.Direct (l.addr firstTask) sizeofTss.toNat then
    -- `mmu_set_page_dir(task_manager.first_task.tss.cr3)`
    some { s with hw := hw.setPageDir (load32 hw.cpu.mem (l.addr firstTask + 28)), currTask := firstTask }
  else none

/-- 外から見えるもの：今のレジスタ、今のタスク、`task_init` に渡されたタスク、TSS のあるタスク、CR3。 -/
def view : Context × TaskId × List TaskId × List TaskId × BitVec 32 :=
  (s.hw.cpu.context, s.currTask, s.inited, s.used, s.hw.ctrl.cr3)

end TssSystem

/-! ## タスクごとのレジスタ -/

/-- TSS を持てるタスクの数。GDT の先頭と、二つのセグメントを除く。 -/
def maxTasks : Nat := GDT_TABLE_SIZE - 3

structure Contexts where
  context : Context
  saved : TaskId → Context
  currTask : TaskId
  inited : List TaskId
  used : List TaskId

namespace Contexts

variable (l : TssLayout) (s : Contexts)

def taskInit (t : TaskId) (a : InitArgs) : Contexts :=
  if s.used.length < maxTasks then
    { s with saved := Function.update s.saved t (.start a), inited := t :: s.inited, used := t :: s.used }
  else { s with inited := t :: s.inited }

/-- 今のレジスタを残し、`t` の残したレジスタを戻す。 -/
def switch (t : TaskId) : Contexts :=
  { s with context := s.saved t, saved := Function.update s.saved s.currTask s.context, currTask := t }

/-- 一歩。TSS のないタスクへの切り替えは、例外になる。 -/
def step : SwitchOp → Option Contexts
  | .work x => some { s with context := x }
  | .store a _ => if l.MayStore s.used a then some s else none
  | .taskInit t a => if t ∈ l.tasks ∧ t ∉ s.inited then some (s.taskInit t a) else none
  | .switch t => if t ∈ s.inited ∧ t ≠ s.currTask ∧ t ∈ s.used then some (s.switch t) else none

/-- 起動のレジスタのまま、最初のタスクになる。 -/
def boot (cpu : Cpu) (idle first : InitArgs) : Contexts where
  context := cpu.context
  saved t := if t = firstTask then .start first else .start idle
  currTask := firstTask
  inited := [firstTask, idleTask]
  used := [firstTask, idleTask]

/-- 外から見えるもの。CR3 はいつも 0 である。 -/
def view : Context × TaskId × List TaskId × List TaskId × BitVec 32 :=
  (s.context, s.currTask, s.inited, s.used, 0)

end Contexts

end IdealX86
