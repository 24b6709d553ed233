import IdealX86.Tools.Format
import IdealX86.Tools.Log

/-!
# `irq.c`：レジスタの表示

`dump_core_regs` が `log_printf` を呼ぶ列と、`log_printf` の `str_buf` への整形を表す。二つ目の書式には `%d` が六つあるのに引数は五つ
しか渡されないので、六つ目として読まれる値を引数 `sixth` とする。
-/

namespace IdealX86

/-- `exception_frame_t`。 -/
structure ExceptionFrame where
  gs : BitVec 32
  fs : BitVec 32
  es : BitVec 32
  ds : BitVec 32
  edi : BitVec 32
  esi : BitVec 32
  ebp : BitVec 32
  esp : BitVec 32
  ebx : BitVec 32
  edx : BitVec 32
  ecx : BitVec 32
  eax : BitVec 32
  num : BitVec 32
  errCode : BitVec 32
  eip : BitVec 32
  cs : BitVec 32
  eflags : BitVec 32

/-- `log_printf` の呼び出し：書式の文字列と、`va_arg` で順に読まれる値。 -/
structure LogCall where
  fmt : List Byte
  args : List (BitVec 32)

/-- `dump_core_regs` の呼ぶ `log_printf`。 -/
def dumpCoreRegs (frame : ExceptionFrame) (sixth : BitVec 32) : List LogCall :=
  [⟨bytesOf "IRQ: %d, error code: %d.", [frame.num, frame.errCode]⟩,
    ⟨bytesOf "CS: %d\nDS: %d\nES: %d\nSS: %d\nFS:%d\nGS:%d",
      [frame.cs, frame.ds, frame.es, frame.fs, frame.gs, sixth]⟩,
    ⟨bytesOf "EAX:0x%x\nEBX:0x%x\nECX:0x%x\nEDX:0x%x\nEDI:0x%x\nESI:0x%x\nEBP:0x%x\nESP:0x%x\n",
      [frame.eax, frame.ebx, frame.ecx, frame.edx, frame.edi, frame.esi, frame.ebp, frame.esp]⟩,
    ⟨bytesOf "EIP:0x%x\nEFLAGS:0x%x\n", [frame.eip, frame.eflags]⟩]

/-- `sizeof(str_buf)`。 -/
def strBufSize : Nat := 128

/-- `log_printf` が `str_buf` を消し、整形するところまで。 -/
def logPrintfFormat (fuel : Nat) (mem : Mem) (strBuf fmt : Nat) (args : List (BitVec 32)) : Option Mem :=
  kernelVsprintf fuel (kernelMemset mem strBuf 0 strBufSize) strBuf fmt args

end IdealX86
