import Mathlib.Algebra.Order.Ring.Int
import Mathlib.Data.List.Basic
import Mathlib.Logic.Function.Basic

/-!
# `loader_16.c`：メモリの検出

BIOS の呼び出し `int 0x15` の答えを、呼び出しの番号の関数として与える。`i` 番目の呼び出しの後の、レジスタの値と
`SMAP_entry` の中身が `answers i` である。`show_msg` による表示は結果に触れないので省く。
-/

namespace IdealX86

def BOOT_RAM_REGION_MAX : Nat := 10

structure RamRegion where
  start : BitVec 32
  size : BitVec 32
  deriving DecidableEq

/-- `boot_info_t`。配列は添え字の関数で表す。 -/
structure BootInfo where
  ramRegionCfg : Nat → RamRegion
  ramRegionCount : Int

def BootInfo.regions (b : BootInfo) : List RamRegion :=
  (List.range b.ramRegionCount.toNat).map b.ramRegionCfg

structure SMAPEntry where
  baseL : BitVec 32
  baseH : BitVec 32
  lengthL : BitVec 32
  lengthH : BitVec 32
  type : BitVec 32
  acpi : BitVec 32
  deriving DecidableEq

/-- `int 0x15` の答え。 -/
structure SMAPAnswer where
  signature : BitVec 32
  bytes : BitVec 32
  contID : BitVec 32
  entry : SMAPEntry
  deriving DecidableEq

def SMAP_SIGNATURE : BitVec 32 := 0x534D4150

/-- `boot_info` の末尾に領域を一つ加える。上位の 32 ビットは捨てられる。 -/
def BootInfo.record (b : BootInfo) (e : SMAPEntry) : BootInfo where
  ramRegionCfg := Function.update b.ramRegionCfg b.ramRegionCount.toNat ⟨e.baseL, e.lengthL⟩
  ramRegionCount := b.ramRegionCount + 1

/-- `detect_memory` の `for`。第一の引数は残りの回数である。 -/
def detectLoop (answers : Nat → SMAPAnswer) : Nat → Nat → BootInfo → BootInfo
  | 0, _, b => b
  | n + 1, i, b =>
      let a := answers i
      if a.signature ≠ SMAP_SIGNATURE then b
      else
        -- `bytes > 20 && (ACPI & 1) == 0` の `if` は、本体が空なので何もしない。
        let b := if a.entry.type = 1#32 then b.record a.entry else b
        if a.contID = 0#32 then b else detectLoop answers n (i + 1) b

def detectMemory (answers : Nat → SMAPAnswer) (b : BootInfo) : BootInfo :=
  detectLoop answers BOOT_RAM_REGION_MAX 0 { b with ramRegionCount := 0 }

end IdealX86
