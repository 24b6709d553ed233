import IdealX86.Core.TaskInit
import IdealX86.Cpu.Asm
import IdealX86.Cpu.DescTheorems
import IdealX86.Cpu.Mmu

/-!
# TSS によるタスクの切り替え

TSS のセレクタへの `ljmp` と `ltr` で CPU の行うことを、`tss_t` のバイトの上で表す。セグメントの検査、LDTR、CR0 の TS は省く。
メモリは物理アドレスで引く。TSS と GDT に触れるのは、そこがそのままの物理アドレスに変換されるときだけとし、ほかのとき（変換されずに例外が
起こるときや、別のメモリに触れるとき）は `none` とする。TLB は、CR3 への書き込みで空になるので、表さない。
-/

namespace IdealX86.Asm

open Lib (Bytes load32 store32 storeWords)

/-- タスクの切り替えで入れ替わるレジスタ。 -/
structure Context where
  reg : Reg → BitVec 32
  seg : Seg → BitVec 16
  cs : BitVec 16
  ss : BitVec 16
  eip : BitVec 32
  eflags : BitVec 32

def Cpu.context (c : Cpu) : Context := ⟨c.reg, c.seg, c.cs, c.ss, c.eip, c.eflags⟩

def Context.cpu (x : Context) (mem : Bytes) : Cpu := ⟨x.reg, x.seg, x.cs, x.ss, x.eip, x.eflags, mem⟩

/-- CPU が TSS に残す、`eip` から `gs` までの語。 -/
def saveWords (u : Unspec) (c : Cpu) : List (BitVec 32) :=
  [c.eip, c.eflags, c.reg .eax, c.reg .ecx, c.reg .edx, c.reg .ebx, c.reg .esp, c.reg .ebp, c.reg .esi, c.reg .edi,
    c.segWord u (c.seg .es), c.segWord u c.cs, c.segWord u c.ss, c.segWord u (c.seg .ds), c.segWord u (c.seg .fs),
    c.segWord u (c.seg .gs)]

/-- CPU が TSS から取り出すレジスタ。 -/
def loadContext (mem : Bytes) (tss : BitVec 32) : Context where
  reg
    | .eax => load32 mem (tss + 40)
    | .ecx => load32 mem (tss + 44)
    | .edx => load32 mem (tss + 48)
    | .ebx => load32 mem (tss + 52)
    | .esp => load32 mem (tss + 56)
    | .ebp => load32 mem (tss + 60)
    | .esi => load32 mem (tss + 64)
    | .edi => load32 mem (tss + 68)
  seg
    | .es => (load32 mem (tss + 72)).setWidth 16
    | .ds => (load32 mem (tss + 84)).setWidth 16
    | .fs => (load32 mem (tss + 88)).setWidth 16
    | .gs => (load32 mem (tss + 92)).setWidth 16
  cs := (load32 mem (tss + 76)).setWidth 16
  ss := (load32 mem (tss + 80)).setWidth 16
  eip := load32 mem (tss + 32)
  eflags := load32 mem (tss + 36)

/-! ## アドレスの変換 -/

def translate (mem : Bytes) (r : Ctrl) (a : BitVec 32) : Option (BitVec 32) :=
  linear (fun x => mem (BitVec.ofNat 32 x)) r a

/-- `a` からの `n` バイトが、そのままの物理アドレスに変換される。 -/
def Direct (mem : Bytes) (r : Ctrl) (a : BitVec 32) (n : Nat) : Prop :=
  ∀ i < n, translate mem r (a + BitVec.ofNat 32 i) = some (a + BitVec.ofNat 32 i)

instance (mem : Bytes) (r : Ctrl) (a : BitVec 32) (n : Nat) : Decidable (Direct mem r a n) :=
  inferInstanceAs (Decidable (∀ i < n, _))

/-! ## CPU -/

structure Hw where
  cpu : Cpu
  ctrl : Ctrl
  gdt : Gdt
  /-- `gdt_table` のアドレス。 -/
  gdtBase : BitVec 32
  tr : BitVec 16
  /-- `tr` とともに読み込まれた、TSS の基底アドレス。 -/
  trBase : BitVec 32

namespace Hw

variable (h : Hw)

abbrev Direct (a : BitVec 32) (n : Nat) : Prop := Asm.Direct h.cpu.mem h.ctrl a n

/-- GDT の全体に触れることができる。 -/
abbrev GdtDirect : Prop := h.Direct h.gdtBase (8 * GDT_TABLE_SIZE)

/-- 次の命令を取り出すことができる。 -/
abbrev CodeDirect : Prop := h.Direct h.cpu.eip 1

/-- セレクタ `sel` の記述子が、使用中でない 32 ビットの TSS である。 -/
def IsAvailable (sel : BitVec 16) : Prop :=
  sel.toNat % 8 = 0 ∧ sel.toNat / 8 < GDT_TABLE_SIZE ∧ (h.gdt (sel.toNat / 8)).attr &&& 0x9F = 0x89 ∧
    103 ≤ x86Limit (h.gdt (sel.toNat / 8)).byte

instance (sel : BitVec 16) : Decidable (h.IsAvailable sel) := inferInstanceAs (Decidable (_ ∧ _ ∧ _ ∧ _))

def setBusy (sel : BitVec 16) (busy : Bool) : Hw :=
  { h with gdt := Function.update h.gdt (sel.toNat / 8) ((h.gdt (sel.toNat / 8)).setBusy busy) }

/-- `write_tr`。TSS でない記述子では例外が起こる。 -/
def writeTr (sel : BitVec 16) : Option Hw :=
  if h.GdtDirect ∧ h.IsAvailable sel then
    some { h.setBusy sel true with tr := sel, trBase := (h.gdt (sel.toNat / 8)).base }
  else none

/-- TSS への `far_jump`。今のレジスタを `tr` の TSS に残し、`sel` の TSS のレジスタに入れ替える。どの変換も、レジスタを残す前に
調べられる。ページングが有効なら、CR3 も入れ替わる。 -/
def farJump (u : Unspec) (sel : BitVec 16) : Option Hw :=
  let tss := (h.gdt (sel.toNat / 8)).base
  if h.GdtDirect ∧ h.IsAvailable sel ∧ h.Direct h.trBase sizeofTss.toNat ∧ h.Direct tss sizeofTss.toNat then
    let mem := storeWords h.cpu.mem (h.trBase + 32) (saveWords u h.cpu)
    let h := (h.setBusy h.tr false).setBusy sel true
    some { h with
      cpu := (loadContext mem tss).cpu mem
      ctrl := if h.ctrl.cr0.getLsbD 31 then { h.ctrl with cr3 := load32 mem (tss + 28) } else h.ctrl
      tr := sel
      trBase := tss }
  else none

/-- `switch_to_tss`。`far_jump` の引数は 16 ビットである。 -/
def switchToTss (u : Unspec) (tssSel : Int) : Option Hw := h.farJump u (BitVec.ofInt 16 tssSel)

/-- `mmu_set_page_dir`。 -/
def setPageDir (paddr : BitVec 32) : Hw := { h with ctrl := { h.ctrl with cr3 := paddr } }

end Hw

/-! ## `tss_init` -/

/-- `tss_init` の、`kernel_memset` から後の代入。続けて書かれた代入は、右から行う。 -/
def tssFields (mem : Bytes) (tss : BitVec 32) (a : InitArgs) : Bytes :=
  let ds := BitVec.ofNat 32 KERNEL_SELECTOR_DS
  let mem : Bytes := fun x =>
    kernelMemset (fun i => mem (BitVec.ofNat 32 i)) tss.toNat 0 sizeofTss.toNat x.toNat
  let mem := store32 mem (tss + 32) a.entry
  let mem := store32 (store32 mem (tss + 4) a.esp) (tss + 56) a.esp
  let mem := store32 (store32 mem (tss + 8) ds) (tss + 80) ds
  let mem := store32 (store32 (store32 (store32 mem (tss + 92) ds) (tss + 88) ds) (tss + 84) ds) (tss + 72) ds
  let mem := store32 mem (tss + 76) (BitVec.ofNat 32 KERNEL_SELECTOR_CS)
  store32 mem (tss + 36) (EFLAGS_DEFAULT ||| EFLAGS_IF)

def Context.start (a : InitArgs) : Context where
  reg r := if r = .esp then a.esp else 0
  seg _ := BitVec.ofNat 16 KERNEL_SELECTOR_DS
  cs := BitVec.ofNat 16 KERNEL_SELECTOR_CS
  ss := BitVec.ofNat 16 KERNEL_SELECTOR_DS
  eip := a.entry
  eflags := EFLAGS_DEFAULT ||| EFLAGS_IF

end IdealX86.Asm
