import Mathlib.Logic.Function.Basic

/-!
# `cpu.c`：GDT の記述子
-/

namespace IdealX86

def GDT_TABLE_SIZE : Nat := 256

def KERNEL_SELECTOR_CS : Nat := 1 * 8
def KERNEL_SELECTOR_DS : Nat := 2 * 8

def SEG_G : BitVec 16 := 1 <<< 15
def SEG_D : BitVec 16 := 1 <<< 14
def SEG_P_PRESENT : BitVec 16 := 1 <<< 7
def SEG_DPL0 : BitVec 16 := 0
def SEG_S_NORMAL : BitVec 16 := 1 <<< 4
def SEG_TYPE_CODE : BitVec 16 := 1 <<< 3
def SEG_TYPE_DATA : BitVec 16 := 0
def SEG_TYPE_RW : BitVec 16 := 1 <<< 1
def SEG_TYPE_TSS : BitVec 16 := 9

/-- `segment_desc_t`。詰めて置かれ、8 バイトになる。 -/
structure SegmentDesc where
  limit15_0 : BitVec 16 := 0
  base15_0 : BitVec 16 := 0
  base23_16 : BitVec 8 := 0
  attr : BitVec 16 := 0
  base31_24 : BitVec 8 := 0
  deriving DecidableEq

/-- `gdt_table`。添字は `GDT_TABLE_SIZE` 未満を使う。 -/
abbrev Gdt := Nat → SegmentDesc

/-- `segment_desc_set` の引数から、単位の切り替えの後に残る値。 -/
structure DescValue where
  base : BitVec 32
  limit : BitVec 32
  attr : BitVec 16
  deriving DecidableEq

/-- 界限が長いときは、単位を 4KB に切り替える。 -/
def descValue (base limit : BitVec 32) (attr : BitVec 16) : DescValue :=
  if limit > 0xfffff then ⟨base, limit / 0x1000, attr ||| 0x8000⟩ else ⟨base, limit, attr⟩

/-- `segment_desc_set` の五つの代入。`attr` への代入が最後である。 -/
def descStore (v : DescValue) (j : Nat) (d : SegmentDesc) : SegmentDesc :=
  match j with
  | 0 => { d with limit15_0 := v.limit.setWidth 16 }
  | 1 => { d with base15_0 := v.base.setWidth 16 }
  | 2 => { d with base23_16 := (v.base >>> 16).setWidth 8 }
  | 3 => { d with base31_24 := (v.base >>> 24).setWidth 8 }
  | 4 => { d with attr := v.attr ||| ((v.limit >>> 16 &&& 0xF).setWidth 16 <<< 8) }
  | _ => d

def segmentDescSet (gdt : Gdt) (selector : Nat) (base limit : BitVec 32) (attr : BitVec 16) : Gdt :=
  let v := descValue base limit attr
  let store := fun d => descStore v 4 (descStore v 3 (descStore v 2 (descStore v 1 (descStore v 0 d))))
  Function.update gdt (selector / 8) (store (gdt (selector / 8)))

/-- 記述子の基底アドレスの読み出し（x86 の配置）。 -/
def SegmentDesc.base (d : SegmentDesc) : BitVec 32 :=
  d.base15_0.setWidth 32 ||| (d.base23_16.setWidth 32 <<< 16) ||| (d.base31_24.setWidth 32 <<< 24)

/-- CPU が TSS の記述子の使用中のビットに書いた後の記述子。 -/
def SegmentDesc.setBusy (d : SegmentDesc) (busy : Bool) : SegmentDesc :=
  { d with attr := d.attr &&& ~~~2 ||| (if busy then 2 else 0) }

/-- `gdt_alloc_desc` の探索。`i` から順に、`attr` が 0 の記述子を探す。 -/
def gdtFindFree (gdt : Gdt) : Nat → Nat → Option Nat
  | 0, _ => none
  | n + 1, i => if (gdt i).attr = 0 then some i else gdtFindFree gdt n (i + 1)

/-- `init_gdt` の後の表。 -/
def initGdt : Gdt :=
  let clear : Gdt := fun _ => {}
  let ds := segmentDescSet clear KERNEL_SELECTOR_DS 0 0xFFFFFFFF
    (SEG_P_PRESENT ||| SEG_DPL0 ||| SEG_S_NORMAL ||| SEG_TYPE_DATA ||| SEG_TYPE_RW ||| SEG_D ||| SEG_G)
  segmentDescSet ds KERNEL_SELECTOR_CS 0 0xFFFFFFFF
    (SEG_P_PRESENT ||| SEG_DPL0 ||| SEG_S_NORMAL ||| SEG_TYPE_CODE ||| SEG_TYPE_RW ||| SEG_D ||| SEG_G)

end IdealX86
