import IdealX86.Cpu.Gdt
import IdealX86.Tools.Klib

/-!
# `segment_desc_set` の定理

`segment_desc_set` の書く 8 バイトを x86 の配置で読み出すと、求めた基底アドレスと界限と属性になる。
-/

namespace IdealX86

/-! ## x86 の配置 -/

/-- `segment_desc_t` の 8 バイト。欄は詰めて置かれ、下位のバイトが先に並ぶ。 -/
def SegmentDesc.byte (d : SegmentDesc) : Nat → Byte
  | 0 => d.limit15_0.setWidth 8
  | 1 => (d.limit15_0 >>> 8).setWidth 8
  | 2 => d.base15_0.setWidth 8
  | 3 => (d.base15_0 >>> 8).setWidth 8
  | 4 => d.base23_16
  | 5 => d.attr.setWidth 8
  | 6 => (d.attr >>> 8).setWidth 8
  | _ => d.base31_24

def x86Base (b : Nat → Byte) : BitVec 32 := b 7 ++ b 4 ++ b 3 ++ b 2

/-- 界限の欄の 20 ビット。上の 4 ビットは 6 番のバイトの下半分にある。 -/
def x86LimitField (b : Nat → Byte) : BitVec 20 := (b 6).setWidth 4 ++ b 1 ++ b 0

def x86Granularity (b : Nat → Byte) : Bool := (b 6).getLsbD 7

/-- 実際の界限。単位が 4KB のときは、最後のページの終わりまでになる。 -/
def x86Limit (b : Nat → Byte) : BitVec 32 :=
  if x86Granularity b then (x86LimitField b).setWidth 32 <<< 12 ||| 0xFFF else (x86LimitField b).setWidth 32

/-- 界限の欄のビットを除いた属性。 -/
def x86Attr (b : Nat → Byte) : BitVec 16 := (b 6 &&& 0xF0) ++ b 5

/-- `attr` のうち、界限の上の 4 ビットが置かれる場所が空いている。 -/
def NibbleClear (attr : BitVec 16) : Prop := ∀ i, 8 ≤ i → i < 12 → attr.getLsbD i = false

variable {v : DescValue} {base limit : BitVec 32} {attr : BitVec 16}

/-! ## 書かれた記述子 -/

/-- 五つの代入の済んだ記述子。 -/
def storedDesc (v : DescValue) (d : SegmentDesc) : SegmentDesc :=
  descStore v 4 (descStore v 3 (descStore v 2 (descStore v 1 (descStore v 0 d))))

theorem segmentDescSet_eq (gdt : Gdt) (selector : Nat) (base limit : BitVec 32) (attr : BitVec 16) :
    segmentDescSet gdt selector base limit attr =
      Function.update gdt (selector / 8) (storedDesc (descValue base limit attr) (gdt (selector / 8))) := rfl

theorem setWidth_high_byte (x : BitVec 32) : (x.setWidth 16 >>> 8).setWidth 8 = (x >>> 8).setWidth 8 := by
  refine BitVec.eq_of_getLsbD_eq fun i hi => ?_
  simp [hi, show 8 + i < 16 by omega]

theorem x86Base_stored (v : DescValue) (d : SegmentDesc) : x86Base (storedDesc v d).byte = v.base := by
  have hlow : (v.base.setWidth 16).setWidth 8 = v.base.setWidth 8 := by simp
  simp only [x86Base, SegmentDesc.byte, storedDesc, descStore, setWidth_high_byte, hlow]
  exact append_bytes v.base

/-- 属性の欄のビット。界限の上の 4 ビットが、8 番から 11 番に重なる。 -/
theorem storedDesc_attr_getLsbD (v : DescValue) (d : SegmentDesc) {i : Nat} (hi : i < 16) :
    (storedDesc v d).attr.getLsbD i = (v.attr.getLsbD i || (decide (8 ≤ i ∧ i < 12) && v.limit.getLsbD (8 + i))) := by
  have hmask : ∀ k, (0xF : BitVec 32).getLsbD k = decide (k < 4) := by
    intro k
    rw [show (0xF : BitVec 32) = BitVec.ofNat 32 (2 ^ 4 - 1) from rfl, BitVec.getLsbD_ofNat, Nat.testBit_two_pow_sub_one]
    by_cases hk : k < 4
    · simp [hk, show k < 32 by omega]
    · simp [hk]
  simp only [storedDesc, descStore, BitVec.getLsbD_or, BitVec.getLsbD_shiftLeft, BitVec.getLsbD_setWidth,
    BitVec.getLsbD_and, BitVec.getLsbD_ushiftRight, hmask, hi]
  congr 1
  by_cases h₈ : i < 8
  · simp [h₈]
  · by_cases h₁₂ : i < 12
    · simp [h₁₂, show 8 ≤ i by omega, show i - 8 < 4 by omega, show 16 + (i - 8) = 8 + i by omega, h₈,
        show i - 8 < 16 by omega]
    · simp [h₁₂, show ¬ i - 8 < 4 by omega]

theorem x86LimitField_stored (h : NibbleClear v.attr) (d : SegmentDesc) :
    x86LimitField (storedDesc v d).byte = v.limit.setWidth 20 := by
  refine BitVec.eq_of_getLsbD_eq fun i hi => ?_
  have hattr : ∀ k < 4, (storedDesc v d).attr.getLsbD (8 + k) = v.limit.getLsbD (16 + k) := by
    intro k hk
    rw [storedDesc_attr_getLsbD v d (by omega), h (8 + k) (by omega) (by omega)]
    simp [show 8 + k < 12 by omega, show 8 + (8 + k) = 16 + k by omega]
  have hlow : (storedDesc v d).limit15_0 = v.limit.setWidth 16 := rfl
  simp only [x86LimitField, SegmentDesc.byte, hlow, setWidth_high_byte, BitVec.getLsbD_append, BitVec.getLsbD_setWidth,
    BitVec.getLsbD_ushiftRight]
  by_cases h₁ : i < 8
  · simp [h₁, hi, show i < 16 by omega]
  · by_cases h₂ : i < 16
    · simp [h₁, hi, show i - 8 < 8 by omega, show 8 + (i - 8) = i by omega]
    · have hk := hattr (i - 16) (by omega)
      simp [h₁, hi, show ¬ i - 8 < 8 by omega, show i - 8 - 8 = i - 16 by omega, hk, show i - 16 < 4 by omega,
        show i - 16 < 8 by omega, show 16 + (i - 16) = i by omega]

theorem x86Granularity_stored (v : DescValue) (d : SegmentDesc) :
    x86Granularity (storedDesc v d).byte = v.attr.getLsbD 15 := by
  have hbit := storedDesc_attr_getLsbD v d (show 15 < 16 by decide)
  simpa [x86Granularity, SegmentDesc.byte] using hbit

theorem x86Attr_stored (h : NibbleClear v.attr) (d : SegmentDesc) : x86Attr (storedDesc v d).byte = v.attr := by
  have hmask : ∀ k < 8, (0xF0 : BitVec 8).getLsbD k = decide (4 ≤ k) := by decide
  refine BitVec.eq_of_getLsbD_eq fun i hi => ?_
  have happend : (x86Attr (storedDesc v d).byte).getLsbD i =
      if i < 8 then ((storedDesc v d).byte 5).getLsbD i else ((storedDesc v d).byte 6 &&& 0xF0).getLsbD (i - 8) :=
    BitVec.getLsbD_append
  rw [happend]
  by_cases h₈ : i < 8
  · simp [h₈, SegmentDesc.byte, storedDesc_attr_getLsbD v d hi, show ¬ 8 ≤ i by omega]
  · have hhigh : ((storedDesc v d).byte 6).getLsbD (i - 8) = (storedDesc v d).attr.getLsbD i := by
      simp [SegmentDesc.byte, show i - 8 < 8 by omega, show 8 + (i - 8) = i by omega]
    rw [if_neg h₈, BitVec.getLsbD_and, hhigh, hmask _ (by omega), storedDesc_attr_getLsbD v d hi]
    by_cases h₁₂ : i < 12
    · simp [h i (by omega) h₁₂, show ¬ 4 ≤ i - 8 by omega]
    · simp [h₁₂, show 4 ≤ i - 8 by omega]

/-! ## 界限の単位 -/

theorem NibbleClear.descValue (h : NibbleClear attr) (base limit : BitVec 32) :
    NibbleClear (descValue base limit attr).attr := by
  intro i h₁ h₂
  unfold IdealX86.descValue
  split
  · have hbit : ∀ j < 12, (0x8000 : BitVec 16).getLsbD j = false := by decide
    rw [BitVec.getLsbD_or, h i h₁ h₂, hbit i h₂, Bool.or_self]
  · exact h i h₁ h₂

/-- 4KB を単位にした界限は、下の 12 ビットを立てたもとの界限である。 -/
theorem shiftLeft_div_page (limit : BitVec 32) :
    ((limit / 0x1000).setWidth 20).setWidth 32 <<< 12 ||| 0xFFF = limit ||| 0xFFF := by
  have hdiv : limit / (0x1000 : BitVec 32) = limit >>> (12 : Nat) := by
    refine BitVec.eq_of_toNat_eq ?_
    rw [BitVec.toNat_udiv, BitVec.toNat_ushiftRight, Nat.shiftRight_eq_div_pow]
    rfl
  have hlow : ∀ i < 32, (0xFFF : BitVec 32).getLsbD i = decide (i < 12) := by decide
  rw [hdiv]
  refine BitVec.eq_of_getLsbD_eq fun i hi => ?_
  simp only [BitVec.getLsbD_or, BitVec.getLsbD_shiftLeft, BitVec.getLsbD_setWidth, BitVec.getLsbD_ushiftRight,
    hlow i hi, hi]
  by_cases h : i < 12
  · simp [h]
  · simp [h, show i - 12 < 20 by omega, show i - 12 < 32 by omega, show 12 + (i - 12) = i by omega]

theorem setWidth_twenty (h : limit ≤ 0xFFFFF) : (limit.setWidth 20).setWidth 32 = limit := by
  refine BitVec.eq_of_toNat_eq ?_
  have hle : limit.toNat ≤ 0xFFFFF := h
  rw [BitVec.toNat_setWidth, BitVec.toNat_setWidth]
  omega

/-- `segment_desc_set` の書く 8 バイトを x86 の配置で読み出すと、基底アドレスは `base` であり、界限は、`0xFFFFF` 以下ならそのまま、
それより長ければ下の 12 ビットを立てたものである。属性は、単位のビットのほかはそのままであり、ほかの記述子は変わらない。 -/
theorem segmentDescSet_decodes (gdt : Gdt) (selector : Nat) (base limit : BitVec 32) {attr : BitVec 16}
    (hn : NibbleClear attr) (hg : limit ≤ 0xFFFFF → attr.getLsbD 15 = false) :
    let gdt' := segmentDescSet gdt selector base limit attr
    let b := (gdt' (selector / 8)).byte
    x86Base b = base ∧ x86Limit b = (if limit ≤ 0xFFFFF then limit else limit ||| 0xFFF) ∧
      x86Attr b = (if limit ≤ 0xFFFFF then attr else attr ||| SEG_G) ∧ ∀ i ≠ selector / 8, gdt' i = gdt i := by
  simp only [segmentDescSet_eq, Function.update_self]
  have hnibble := hn.descValue base limit
  refine ⟨?_, ?_, ?_, fun i hi => Function.update_of_ne hi _ _⟩
  · rw [x86Base_stored]
    unfold descValue
    split <;> rfl
  · rw [x86Limit, x86Granularity_stored, x86LimitField_stored hnibble]
    by_cases hlong : limit > 0xFFFFF
    · have hbit : (attr ||| 0x8000).getLsbD 15 = true := by simp
      rw [descValue, if_pos hlong, hbit, if_pos rfl, shiftLeft_div_page, if_neg (BitVec.not_le.mpr hlong)]
    · have hle : limit ≤ 0xFFFFF := BitVec.not_lt.mp hlong
      rw [descValue, if_neg hlong, hg hle, if_neg (by decide), setWidth_twenty hle, if_pos hle]
  · rw [x86Attr_stored hnibble]
    by_cases hlong : limit > 0xFFFFF
    · rw [descValue, if_pos hlong, if_neg (BitVec.not_le.mpr hlong)]
      rfl
    · rw [descValue, if_neg hlong, if_pos (BitVec.not_lt.mp hlong)]

/-- 上の 4 ビットまで使う 1MB 未満の界限と、それを越える界限。 -/
theorem segmentDescSet_decodes_both :
    x86Limit ((segmentDescSet (fun _ => {}) 0x18 0x12345678 0xABCDE 0x4092) 3).byte = 0xABCDE ∧
      x86Limit ((segmentDescSet (fun _ => {}) 0x18 0x12345678 0x100000 0x4092) 3).byte = 0x100FFF := by
  have hn : NibbleClear 0x4092 := by
    have hall : ∀ i < 12, 8 ≤ i → (0x4092 : BitVec 16).getLsbD i = false := by decide
    exact fun i h₁ h₂ => hall i h₂ h₁
  have hg : (0x4092 : BitVec 16).getLsbD 15 = false := by decide
  exact ⟨(segmentDescSet_decodes (fun _ => {}) 0x18 0x12345678 0xABCDE hn fun _ => hg).2.1,
    (segmentDescSet_decodes (fun _ => {}) 0x18 0x12345678 0x100000 hn fun _ => hg).2.1⟩

end IdealX86
