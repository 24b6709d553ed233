import IdealX86.Cpu.Asm

/-!
# `start.S`：例外の入り口
-/

namespace IdealX86.Asm

/-- マクロ `exception_handler` の引数。 -/
structure Stub where
  name : String
  num : Int
  withErrorCode : Nat
  deriving DecidableEq

namespace Stub

variable (s : Stub)

/-- `call` の前まで。 -/
def save : List Insn :=
  (if s.withErrorCode = 0 then [.pushImm 0] else []) ++
    [.pushImm (BitVec.ofInt 32 s.num), .pusha, .pushSeg .ds, .pushSeg .es, .pushSeg .fs, .pushSeg .gs, .push .esp]

/-- `call` の後。 -/
def restore : List Insn :=
  [.addEsp 4, .popSeg .gs, .popSeg .fs, .popSeg .es, .popSeg .ds, .popa, .addEsp 8, .iret]

/-- マクロ `exception_handler` の展開。 -/
def code : List Insn := s.save ++ .call ("do_handler_" ++ s.name) :: restore

end Stub

/-- `start.S` の `exception_handler` の並び。 -/
def stubs : List Stub :=
  [⟨"unknown", -1, 0⟩, ⟨"divider", 0, 0⟩, ⟨"Debug", 1, 0⟩, ⟨"NMI", 2, 0⟩, ⟨"breakpoint", 3, 0⟩, ⟨"overflow", 4, 0⟩,
    ⟨"bound_range", 5, 0⟩, ⟨"invalid_opcode", 6, 0⟩, ⟨"device_unavailable", 7, 0⟩, ⟨"double_fault", 8, 1⟩,
    ⟨"invalid_tss", 10, 1⟩, ⟨"segment_not_present", 11, 1⟩, ⟨"stack_segment_fault", 12, 1⟩,
    ⟨"general_protection", 13, 1⟩, ⟨"page_fault", 14, 1⟩, ⟨"fpu_error", 16, 0⟩, ⟨"alignment_check", 17, 1⟩,
    ⟨"machine_check", 18, 0⟩, ⟨"smd_exception", 19, 0⟩, ⟨"virtual_exception", 20, 0⟩, ⟨"time", 0x20, 0⟩]

end IdealX86.Asm
