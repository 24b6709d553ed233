import IdealX86.Cpu.Gdt

/-!
# 記述子の書き込み

`segment_desc_set` の代入が `j` 番目の前まで済んだ記述子と、五つが済んだ後に読み出せる基底アドレス。
-/

namespace IdealX86

/-- `segment_desc_set` の `j` 番目より前の代入で、基底アドレスの欄が書かれている。 -/
structure Written (v : DescValue) (j : Nat) (d : SegmentDesc) : Prop where
  low : 1 < j → d.base15_0 = v.base.setWidth 16
  mid : 2 < j → d.base23_16 = (v.base >>> 16).setWidth 8
  high : 3 < j → d.base31_24 = (v.base >>> 24).setWidth 8

theorem Written.zero (v : DescValue) (d : SegmentDesc) : Written v 0 d := ⟨nofun, nofun, nofun⟩

theorem Written.store {v : DescValue} {j : Nat} {d : SegmentDesc} (h : Written v j d) :
    Written v (j + 1) (descStore v j d) := by
  match j, h with
  | 0, _ => exact ⟨nofun, nofun, nofun⟩
  | 1, _ => exact ⟨fun _ => rfl, nofun, nofun⟩
  | 2, h => exact ⟨fun _ => h.low (by omega), fun _ => rfl, nofun⟩
  | 3, h => exact ⟨fun _ => h.low (by omega), fun _ => h.mid (by omega), fun _ => rfl⟩
  | 4, h => exact ⟨fun _ => h.low (by omega), fun _ => h.mid (by omega), fun _ => h.high (by omega)⟩
  | j + 5, h => exact ⟨fun _ => h.low (by omega), fun _ => h.mid (by omega), fun _ => h.high (by omega)⟩

/-- 三つの欄に分けた基底アドレスは、読み出すと元に戻る。 -/
theorem base_eq (b : BitVec 32) :
    (b.setWidth 16).setWidth 32 ||| (((b >>> 16).setWidth 8).setWidth 32 <<< 16) |||
      (((b >>> 24).setWidth 8).setWidth 32 <<< 24) = b := by
  ext i hi
  simp only [BitVec.getElem_or, BitVec.getElem_setWidth, BitVec.getElem_shiftLeft, BitVec.getLsbD_setWidth,
    BitVec.getLsbD_ushiftRight]
  rw [← BitVec.getLsbD_eq_getElem hi]
  by_cases h₁ : i < 16
  · simp [h₁, show i < 24 by omega]
  · by_cases h₂ : i < 24
    · simp [h₁, h₂, show i - 16 < 8 by omega, show 16 + (i - 16) = i by omega]
    · simp [h₁, h₂, show ¬ i - 16 < 8 by omega, show i - 24 < 8 by omega, show 24 + (i - 24) = i by omega]

theorem Written.base {v : DescValue} {j : Nat} {d : SegmentDesc} (h : Written v j d) (hj : 4 ≤ j) :
    d.base = v.base := by
  rw [SegmentDesc.base, h.low (by omega), h.mid (by omega), h.high (by omega)]
  exact base_eq v.base

end IdealX86
