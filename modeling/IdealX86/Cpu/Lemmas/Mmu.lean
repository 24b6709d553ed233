import IdealX86.Cpu.Mmu

/-!
# アドレスの変換の補題
-/

namespace IdealX86

variable {mem : Mem} {r : Ctrl} {v : BitVec 32}

/-- ページディレクトリの、`v` の項目。 -/
def pdeOf (mem : Mem) (r : Ctrl) (v : BitVec 32) : BitVec 32 :=
  read32 mem ((r.cr3 >>> 12 <<< 12).toNat + 4 * pdeIndex v)

theorem pdeIndex_eq (v : BitVec 32) : pdeIndex v = v.toNat / 2 ^ 22 := by
  rw [pdeIndex, BitVec.toNat_ushiftRight, Nat.shiftRight_eq_div_pow]

/-- 最初の項目がアドレス 0 からの 4 MB のページを指すとき、最初の 4 MB はそのまま変換される。 -/
theorem linear_of_large (hpg : r.cr0.getLsbD 31 = true) (hpse : r.cr4.getLsbD 4 = true) (hpde : pdeOf mem r v = 0x83)
    (hv : v.toNat < 2 ^ 22) : linear mem r v = some v := by
  have hlow : v &&& 0x3FFFFF = v := by
    refine BitVec.eq_of_toNat_eq ?_
    rw [BitVec.toNat_and, show (0x3FFFFF : BitVec 32).toNat = 2 ^ 22 - 1 from rfl, Nat.and_two_pow_sub_one_eq_mod]
    exact Nat.mod_eq_of_lt hv
  rw [linear, if_pos hpg]
  change (if present (pdeOf mem r v) && (pdeOf mem r v).getLsbD 7 && r.cr4.getLsbD 4 then
    some (pdeOf mem r v &&& 0xFFC00000 ||| v &&& 0x3FFFFF) else _) = _
  rw [hpde, hpse, hlow, if_pos (by decide), show (0x83 &&& 0xFFC00000 : BitVec 32) = 0#32 by decide, BitVec.zero_or]

theorem linear_of_absent (hpg : r.cr0.getLsbD 31 = true) (hpde : present (pdeOf mem r v) = false) :
    linear mem r v = none := by
  have hwalk : walk mem (r.cr3 >>> 12 <<< 12).toNat v = none := if_neg (by rw [← pdeOf, hpde]; decide)
  rw [linear, if_pos hpg]
  change (if present (pdeOf mem r v) && (pdeOf mem r v).getLsbD 7 && r.cr4.getLsbD 4 then _ else
    (walk mem (r.cr3 >>> 12 <<< 12).toNat v).map (·.1)) = _
  rw [hpde, hwalk]
  rfl

end IdealX86
