import IdealX86.Cpu.Gdt
import IdealX86.Cpu.Stub

/-!
# `irq.c`：割り込み記述子表

入り口のコードのアドレスは、その名前からアドレスへの関数 `addr` で与える。表の添字は、C の `int` のままにする。
-/

namespace IdealX86

open Asm (GateDesc)

def IDT_TABLE_NR : Int := 128

def GATE_P_PRESENT : BitVec 16 := 1 <<< 15
def GATE_DPL0 : BitVec 16 := 0
def GATE_TYPE_IDT : BitVec 16 := 0xE <<< 8

def IRQ0_TIMER : Int := 0x20

/-- `idt_table`。添字は 0 以上 `IDT_TABLE_NR` 未満を使う。 -/
abbrev Idt := Int → GateDesc

def gateDescSet (selector : BitVec 16) (offset : BitVec 32) (attr : BitVec 16) : GateDesc where
  offset15_0 := (offset &&& 0xffff).setWidth 16
  selector := selector
  attr := attr
  offset31_16 := (offset >>> 16 &&& 0xffff).setWidth 16

/-- `KERNEL_SELECTOR_CS` の、特権レベル 0 の 32 ビットの割り込みゲート。 -/
def irqGate (handler : BitVec 32) : GateDesc :=
  gateDescSet (BitVec.ofNat 16 KERNEL_SELECTOR_CS) handler (GATE_P_PRESENT ||| GATE_DPL0 ||| GATE_TYPE_IDT)

/-- `irq_install`。戻り値と、後の表を返す。 -/
def irqInstall (idt : Idt) (irqNum : Int) (handler : BitVec 32) : Int × Idt :=
  if irqNum ≥ IDT_TABLE_NR then (-1, idt) else (0, Function.update idt irqNum (irqGate handler))

/-- `irq_init` の呼ぶ `irq_install` の引数。入り口のコードは、`exception_handler_` の後の名前で表す。 -/
def irqHandlers : List (Int × String) :=
  [(0, "divider"), (1, "Debug"), (2, "NMI"), (3, "breakpoint"), (4, "overflow"), (5, "bound_range"),
    (6, "invalid_opcode"), (7, "device_unavailable"), (8, "double_fault"), (10, "invalid_tss"),
    (11, "segment_not_present"), (12, "stack_segment_fault"), (13, "general_protection"), (14, "page_fault"),
    (16, "fpu_error"), (17, "alignment_check"), (18, "machine_check"), (19, "smd_exception"),
    (20, "virtual_exception")]

def irqInstalls (idt : Idt) (calls : List (Int × BitVec 32)) : Idt :=
  calls.foldl (fun idt x => (irqInstall idt x.1 x.2).2) idt

variable (addr : String → BitVec 32)

/-- `irq_init` の `for`。 -/
def irqClear (idt : Idt) : Idt :=
  (List.range IDT_TABLE_NR.toNat).foldl (fun idt (i : Nat) => Function.update idt (i : Int) (irqGate (addr "unknown"))) idt

/-- `irq_init` の、表についての部分。 -/
def irqInit (idt : Idt) : Idt := irqInstalls (irqClear addr idt) (irqHandlers.map fun x => (x.1, addr x.2))

/-- `time_init` の、表についての部分。 -/
def timeInit (idt : Idt) : Idt := (irqInstall idt IRQ0_TIMER (addr "time")).2

end IdealX86
