import IdealX86.Tools.Lemmas.Itoa

/-!
# `kernel_itoa` の定理

底が 10 のときは、どの `int` についても正規の十進表記を書き、読み戻すともとの値になる。ほかの底では負号を書かないので、
符号なしの値として正しく書くのは `2 ^ 31` までである。
-/

namespace IdealX86

open Lib

variable {base : Nat}

theorem numeralText_injective (hb : ItoaBase base) : Function.Injective (numeralText base) := by
  intro n m h
  apply numeral_injective base
  rw [← map_digitValue_numeralText hb n, h, map_digitValue_numeralText hb]

/-! ## 十進表記 -/

def isDecimalDigit (c : Byte) : Bool := 48 ≤ c.toNat && c.toNat ≤ 57

/-- `text` が `num` の正規の十進表記の形である。負号は負の数だけに付き、数字の列は一桁の 0 のほかは 0 で始まらない。 -/
def CanonicalDecimal (num : Int) (text : List Byte) : Prop :=
  ∃ digits : List Byte, text = (if num < 0 then [45] else []) ++ digits ∧ digits ≠ [] ∧
    (∀ c ∈ digits, isDecimalDigit c) ∧ (digits.head? = some 48 → digits = [48])

def parseDigits (text : List Byte) : Option Nat :=
  text.foldlM (fun v c => if isDecimalDigit c then some (10 * v + (c.toNat - 48)) else none) 0

def parseDecimal : List Byte → Option Int
  | [] => none
  | c :: text =>
      if c = 45 then (parseDigits text).map fun n : Nat => -(n : Int)
      else (parseDigits (c :: text)).map fun n : Nat => (n : Int)

theorem digitChar_decimal {d : Nat} (h : d < 10) : isDecimalDigit (digitChar d) = true ∧ (digitChar d).toNat - 48 = d := by
  revert d
  decide

theorem foldlM_digitChar {l : List Nat} (h : ∀ d ∈ l, d < 10) (v : Nat) :
    (l.map digitChar).foldlM (fun v c => if isDecimalDigit c then some (10 * v + (c.toNat - 48)) else none) v =
      some (l.foldl (fun v d => 10 * v + d) v) := by
  induction l generalizing v with
  | nil => rfl
  | cons d l ih =>
      obtain ⟨h₁, h₂⟩ := digitChar_decimal (h d (by simp))
      rw [List.map_cons, List.foldlM_cons, h₁, h₂]
      exact ih (fun e he => h e (by simp [he])) _

theorem parseDigits_numeralText (n : Nat) : parseDigits (numeralText 10 n) = some n := by
  rw [parseDigits, numeralText, foldlM_digitChar fun d hd => numeral_lt (by decide) hd]
  exact congrArg some (numeralValue_numeral 10 n)

theorem canonicalDecimal_itoaText (num : Int) : CanonicalDecimal num (itoaText 10 num) := by
  refine ⟨numeralText 10 num.natAbs, by simp [itoaText], by simp [numeralText, numeral_ne_nil], ?_, ?_⟩
  · intro c hc
    obtain ⟨d, hd, rfl⟩ := List.mem_map.mp hc
    exact (digitChar_decimal (numeral_lt (by decide) hd)).1
  · intro h
    rw [numeralText, List.head?_map] at h
    obtain ⟨d, hd, hc⟩ := Option.map_eq_some_iff.mp h
    have hlt : d < 10 := numeral_lt (by decide) (List.mem_of_mem_head? hd)
    obtain rfl : d = 0 := by
      rw [← digitValue_digitChar (show d < 16 by omega), hc]
      rfl
    rw [numeralText, numeral_head?_zero hd]
    rfl

theorem parseDecimal_itoaText (num : Int) : parseDecimal (itoaText 10 num) = some num := by
  obtain ⟨c, l, hcl⟩ := List.exists_cons_of_ne_nil (show numeralText 10 num.natAbs ≠ [] by
    simp [numeralText, numeral_ne_nil])
  have hparse := parseDigits_numeralText num.natAbs
  by_cases hneg : num < 0
  · simp only [itoaText, hneg, and_self, ↓reduceIte, List.cons_append, List.nil_append, parseDecimal, hparse,
      Option.map_some, Option.some.injEq]
    omega
  · have hdigit : c ≠ 45 := by
      rintro rfl
      obtain ⟨d, hd, hc⟩ := List.mem_map.mp (hcl ▸ List.mem_cons_self : (45 : Byte) ∈ numeralText 10 num.natAbs)
      have h := (digitChar_decimal (numeral_lt (by decide) hd)).1
      rw [hc] at h
      exact absurd h (by decide)
    simp only [itoaText, hneg, false_and, ↓reduceIte, List.nil_append, hcl, parseDecimal, hdigit]
    rw [← hcl, hparse, Option.map_some, Option.some.injEq]
    omega

/-- どの 32 ビットの `int` についても、`kernel_itoa(num, buf, 10)` は 10 周の中で、表の 31 文字だけを引いて終わり、高々 12 バイトを
書く。残るのは `num` の正規の十進表記であり、読み戻すと `num` になる。 -/
theorem kernelItoa_decimal_round_trip (num : BitVec 32) (mem : Mem) (buf : Nat) {fuel : Nat} (hf : 10 ≤ fuel) :
    ∃ mem' text, kernelItoa fuel mem num.toInt buf 10 = some mem' ∧ CString mem' buf text ∧
      text.length + 1 ≤ 12 ∧ (∀ a, a < buf ∨ buf + (text.length + 1) ≤ a → mem' a = mem a) ∧
      CanonicalDecimal num.toInt text ∧ parseDecimal text = some num.toInt := by
  have hlen := length_numeralText_le_of_lt itoaBase_ten (show 1 ≤ 10 by decide)
    (Nat.lt_of_lt_of_le (natAbs_toInt_lt num) (show 2 ^ 32 ≤ 10 ^ 10 by decide))
  refine ⟨put mem buf (itoaText 10 num.toInt ++ [0]), itoaText 10 num.toInt,
    kernelItoa_eq itoaBase_ten mem num.toInt buf (by omega), cstring_put (itoaText_nonzero itoaBase_ten _),
    Nat.succ_le_succ (length_itoaText_decimal num), fun a ha => put_of_outside ?_, canonicalDecimal_itoaText _,
    parseDecimal_itoaText _⟩
  rw [List.length_append, List.length_singleton]
  exact ha

theorem kernelItoa_decimal_round_trip_min :
    ∃ mem' text, kernelItoa 10 (fun _ => 0xff) (0x80000000#32).toInt 0x1000 10 = some mem' ∧ CString mem' 0x1000 text ∧
      text.length + 1 ≤ 12 ∧ (∀ a, a < 0x1000 ∨ 0x1000 + (text.length + 1) ≤ a → mem' a = 0xff) ∧
      CanonicalDecimal (0x80000000#32).toInt text ∧ parseDecimal text = some (0x80000000#32).toInt :=
  kernelItoa_decimal_round_trip 0x80000000#32 (fun _ => 0xff) 0x1000 (by decide)

/-! ## 符号なしの表記 -/

/-- `kernel_itoa(v, buf, base)` は、どのメモリのどの `buf` でも 32 周の中で終わり、`buf` に `text` を残す。 -/
def Prints (base : Nat) (v : BitVec 32) (text : List Byte) : Prop :=
  ∀ fuel ≥ 32, ∀ mem buf, ∃ mem', kernelItoa fuel mem v.toInt buf base = some mem' ∧ CString mem' buf text

theorem prints_iff (hb : ItoaBase base) (v : BitVec 32) (text : List Byte) :
    Prints base v text ↔ text = itoaText base v.toInt := by
  have heq : ∀ fuel ≥ 32, ∀ mem buf, kernelItoa fuel mem v.toInt buf base =
      some (put mem buf (itoaText base v.toInt ++ [0])) := fun fuel hf mem buf =>
    kernelItoa_eq hb mem v.toInt buf (Nat.le_trans (length_numeralText_le hb (natAbs_toInt_lt v)) hf)
  constructor
  · intro h
    obtain ⟨mem', hret, hstr⟩ := h 32 (by decide) (fun _ => 0) 0
    rw [heq 32 (by decide), Option.some.injEq] at hret
    rw [← hret] at hstr
    exact hstr.unique (cstring_put (itoaText_nonzero hb _))
  · rintro rfl fuel hf mem buf
    exact ⟨_, heq fuel hf mem buf, cstring_put (itoaText_nonzero hb _)⟩

theorem natAbs_toInt_eq_toNat_iff (v : BitVec 32) : v.toInt.natAbs = v.toNat ↔ v.toNat ≤ 2 ^ 31 := by
  rw [BitVec.toInt_eq_toNat_cond]
  have := v.isLt
  split <;> omega

/-- 底が 2、8、16 のとき、`kernel_itoa` が符号なしの値の正規の表記を書くのは、値が `2 ^ 31` 以下のとき、そのときに限る。
その範囲では、異なる値は異なる文字列になる。 -/
theorem kernelItoa_unsigned_iff (hbase : base = 2 ∨ base = 8 ∨ base = 16) :
    (∀ v : BitVec 32, Prints base v (numeralText base v.toNat) ↔ v.toNat ≤ 2 ^ 31) ∧
      ∀ (v w : BitVec 32) (text : List Byte), v.toNat ≤ 2 ^ 31 → w.toNat ≤ 2 ^ 31 →
        Prints base v text → Prints base w text → v = w := by
  have hb : ItoaBase base := by unfold ItoaBase; omega
  have htext : ∀ num : Int, itoaText base num = numeralText base num.natAbs := fun num => by
    rw [itoaText, if_neg (by omega), List.nil_append]
  refine ⟨fun v => ?_, fun v w text hv hw hpv hpw => ?_⟩
  · rw [prints_iff hb, htext, (numeralText_injective hb).eq_iff, ← natAbs_toInt_eq_toNat_iff, eq_comm]
  · rw [prints_iff hb, htext] at hpv hpw
    have h := numeralText_injective hb (hpv.symm.trans hpw)
    rw [(natAbs_toInt_eq_toNat_iff v).mpr hv, (natAbs_toInt_eq_toNat_iff w).mpr hw] at h
    exact BitVec.eq_of_toNat_eq h

theorem kernelItoa_unsigned_iff_hex :
    (∀ v : BitVec 32, Prints 16 v (numeralText 16 v.toNat) ↔ v.toNat ≤ 2 ^ 31) ∧
      ∀ (v w : BitVec 32) (text : List Byte), v.toNat ≤ 2 ^ 31 → w.toNat ≤ 2 ^ 31 →
        Prints 16 v text → Prints 16 w text → v = w :=
  kernelItoa_unsigned_iff (.inr (.inr rfl))

/-- `0xFFFFFFFF` は、1 と同じく `"1"` と書かれる。 -/
theorem kernelItoa_all_ones_prints_one :
    Prints 16 0xFFFFFFFF [49] ∧ Prints 16 1 [49] ∧ ¬ Prints 16 0xFFFFFFFF (numeralText 16 (0xFFFFFFFF#32).toNat) := by
  have hone : numeralText 16 1 = [49] := by rw [numeralText, numeral_of_lt (by decide)]; rfl
  refine ⟨(prints_iff itoaBase_sixteen _ _).mpr hone.symm, (prints_iff itoaBase_sixteen _ _).mpr hone.symm, fun h => ?_⟩
  have heq : numeralText 16 (0xFFFFFFFF#32).toNat = numeralText 16 1 := (prints_iff itoaBase_sixteen _ _).mp h
  exact absurd (numeralText_injective itoaBase_sixteen heq) (by decide)

end IdealX86
