import IdealX86.Lib.Numeral
import IdealX86.Tools.Format

/-!
# `kernel_itoa` の補題

`kernel_itoa` は、負の数を反転せずに、C の剰余の符号をそのまま表の添字に使う。表は添字 15 を中心に対称なので、書かれる数字は
絶対値の数字である。
-/

namespace IdealX86

open Lib

def digitChar (d : Nat) : Byte := BitVec.ofNat 8 (if d < 10 then 48 + d else 55 + d)

def numeralText (base n : Nat) : List Byte := (numeral base n).map digitChar

/-- `kernel_itoa` の書く文字列。負号は底が 10 のときだけ付く。 -/
def itoaText (base : Nat) (num : Int) : List Byte :=
  (if num < 0 ∧ base = 10 then [45] else []) ++ numeralText base num.natAbs

def ItoaBase (base : Nat) : Prop := base = 2 ∨ base = 8 ∨ base = 10 ∨ base = 16

theorem itoaBase_ten : ItoaBase 10 := .inr (.inr (.inl rfl))

theorem itoaBase_sixteen : ItoaBase 16 := .inr (.inr (.inr rfl))

variable {base fuel buf a : Nat} {num : Int} {mem : Mem}

theorem ItoaBase.two_le (h : ItoaBase base) : 2 ≤ base := by
  rcases h with rfl | rfl | rfl | rfl <;> decide

theorem ItoaBase.le_sixteen (h : ItoaBase base) : base ≤ 16 := by
  rcases h with rfl | rfl | rfl | rfl <;> decide

/-- `kernel_itoa` の始めの検査を通る。 -/
theorem ItoaBase.known (h : ItoaBase base) :
    ¬((base : Int) ≠ 2 ∧ (base : Int) ≠ 8 ∧ (base : Int) ≠ 10 ∧ (base : Int) ≠ 16) := by
  unfold ItoaBase at h
  omega

/-! ## 数字 -/

theorem digitChar_ne_zero {d : Nat} (h : d < 16) : digitChar d ≠ 0 := by
  revert d
  decide

def digitValue (c : Byte) : Nat := if c.toNat < 58 then c.toNat - 48 else c.toNat - 55

theorem digitValue_digitChar {d : Nat} (h : d < 16) : digitValue (digitChar d) = d := by
  revert d
  decide

theorem map_digitValue_numeralText (hb : ItoaBase base) (n : Nat) :
    (numeralText base n).map digitValue = numeral base n := by
  have hdigit : ∀ d ∈ numeral base n, (digitValue ∘ digitChar) d = id d := fun d hd =>
    digitValue_digitChar (Nat.lt_of_lt_of_le (numeral_lt hb.two_le hd) hb.le_sixteen)
  rw [numeralText, List.map_map, List.map_congr_left hdigit, List.map_id]

theorem numeralText_nonzero (hb : ItoaBase base) (n : Nat) : ∀ c ∈ numeralText base n, c ≠ 0 := by
  intro c hc
  obtain ⟨d, hd, rfl⟩ := List.mem_map.mp hc
  exact digitChar_ne_zero (Nat.lt_of_lt_of_le (numeral_lt hb.two_le hd) hb.le_sixteen)

theorem itoaText_nonzero (hb : ItoaBase base) (num : Int) : ∀ c ∈ itoaText base num, c ≠ 0 := by
  intro c hc
  rcases List.mem_append.mp hc with hc | hc
  · split at hc
    · rw [List.mem_singleton.mp hc]
      decide
    · simp at hc
  · exact numeralText_nonzero hb _ c hc

theorem itoaText_ne_nil (base : Nat) (num : Int) : itoaText base num ≠ [] := by
  simp [itoaText, numeralText, numeral_ne_nil]

theorem length_numeralText_le_of_lt (hb : ItoaBase base) {n k : Nat} (hk : 1 ≤ k) (h : n < base ^ k) :
    (numeralText base n).length ≤ k := by
  rw [numeralText, List.length_map]
  exact length_numeral_le hb.two_le hk h

theorem length_numeralText_le (hb : ItoaBase base) {n : Nat} (h : n < 2 ^ 32) : (numeralText base n).length ≤ 32 :=
  length_numeralText_le_of_lt hb (by decide) (Nat.lt_of_lt_of_le h (Nat.pow_le_pow_left hb.two_le 32))

theorem length_itoaText_le (base : Nat) (num : Int) :
    (itoaText base num).length ≤ (numeralText base num.natAbs).length + 1 := by
  have hsign : (if num < 0 ∧ base = 10 then [45] else [] : List Byte).length ≤ 1 := by split <;> simp
  rw [itoaText, List.length_append]
  omega

theorem natAbs_toInt_lt (v : BitVec 32) : v.toInt.natAbs < 2 ^ 32 := by
  have h₁ := BitVec.two_mul_toInt_lt (x := v)
  have h₂ := BitVec.le_two_mul_toInt (x := v)
  omega

theorem length_itoaText_decimal (v : BitVec 32) : (itoaText 10 v.toInt).length ≤ 11 := by
  have hdigits := length_numeralText_le_of_lt itoaBase_ten (show 1 ≤ 10 by decide)
    (Nat.lt_of_lt_of_le (natAbs_toInt_lt v) (show 2 ^ 32 ≤ 10 ^ 10 by decide))
  exact Nat.le_trans (length_itoaText_le 10 v.toInt) (Nat.succ_le_succ hdigits)

theorem length_itoaText_hex (v : BitVec 32) : (itoaText 16 v.toInt).length ≤ 8 := by
  rw [itoaText, if_neg (by simp), List.nil_append]
  exact length_numeralText_le_of_lt itoaBase_sixteen (by decide)
    (Nat.lt_of_lt_of_le (natAbs_toInt_lt v) (by decide))

/-- 添字は表の中にあり、剰余の符号によらず絶対値の数字を引く。 -/
theorem numcharAt_tmod (hb : ItoaBase base) (num : Int) :
    numcharAt (num.tmod base + 15) = some (digitChar (num.natAbs % base)) := by
  have htable : ∀ i : Fin 31, numcharAt (i : Nat) = some (digitChar ((i : Nat) - 15 : Int).natAbs) := by decide
  have habs : (num.tmod base).natAbs = num.natAbs % base := by rw [Int.natAbs_tmod, Int.natAbs_natCast]
  have hlt : num.natAbs % base < base := Nat.mod_lt _ (by have := hb.two_le; omega)
  have h16 := hb.le_sixteen
  have hi : (num.tmod base + 15).toNat < 31 := by omega
  have h := htable ⟨(num.tmod base + 15).toNat, hi⟩
  rw [Int.toNat_of_nonneg (by omega), Int.add_sub_cancel, habs] at h
  exact h

/-- 数字を下の桁から書くループは、絶対値の数字の列を逆に書く。 -/
theorem itoaDigits_eq (hb : ItoaBase base) (mem : Mem) (str : Nat) (hf : (numeralText base num.natAbs).length ≤ fuel) :
    itoaDigits base fuel mem str num =
      some (put mem str (numeralText base num.natAbs).reverse, str + (numeralText base num.natAbs).length) := by
  have h₂ := hb.two_le
  induction fuel generalizing mem str num with
  | zero => simp [numeralText, numeral_ne_nil] at hf
  | succ fuel ih =>
      have hdiv : (num.tdiv base).natAbs = num.natAbs / base := Int.natAbs_tdiv num base
      simp only [itoaDigits, numcharAt_tmod hb, Option.bind_eq_bind, Option.bind_some]
      by_cases hlt : num.natAbs < base
      · have h₀ : num.tdiv base = 0 := by
          rw [← Int.natAbs_eq_zero, hdiv]
          exact Nat.div_eq_of_lt hlt
        simp [h₀, numeralText, numeral_of_lt hlt, Nat.mod_eq_of_lt hlt, put]
      · have hpos := Nat.div_pos (Nat.le_of_not_lt hlt) (show 0 < base by omega)
        have hne : num.tdiv base ≠ 0 := by omega
        have htext : numeralText base num.natAbs =
            numeralText base (num.tdiv base).natAbs ++ [digitChar (num.natAbs % base)] := by
          rw [hdiv, numeralText, numeral_of_le h₂ (by omega), List.map_append]
          rfl
        rw [htext, List.length_append, List.length_singleton] at hf ⊢
        rw [if_pos hne, ih _ _ (by omega), List.reverse_append, List.reverse_singleton, List.singleton_append, put,
          Nat.add_assoc, Nat.add_comm 1]

/-! ## 反転 -/

theorem put_cons_concat (x y : Byte) (l : List Byte) :
    put mem a (x :: (l ++ [y])) = put (Function.update (Function.update mem a x) (a + 1 + l.length) y) (a + 1) l := by
  rw [put, put_concat, ← put_update (by omega)]

/-- 両端を入れ替えるループは、並びを反転する。 -/
theorem itoaReverse_put (l : List Byte) (mem : Mem) (a fuel : Nat) (hf : l.length / 2 < fuel) :
    itoaReverse fuel (put mem a l) a (a + l.length - 1) = some (put mem a l.reverse) := by
  induction l using List.bidirectionalRec generalizing mem a fuel with
  | nil =>
      obtain _ | fuel := fuel
      · simp at hf
      · rw [itoaReverse, if_neg (by simp only [List.length_nil]; omega)]
        rfl
  | singleton x =>
      obtain _ | fuel := fuel
      · simp at hf
      · rw [itoaReverse, if_neg (by simp only [List.length_singleton]; omega)]
        rfl
  | cons_append x l y ih =>
      have hlen : (x :: (l ++ [y])).length = l.length + 2 := by simp
      rw [hlen] at hf ⊢
      obtain _ | fuel := fuel
      · omega
      · have hs : Spells (put mem a (x :: (l ++ [y]))) a (x :: (l ++ [y])) := spells_put
        have hx : put mem a (x :: (l ++ [y])) a = x := hs.1
        have hy : put mem a (x :: (l ++ [y])) (a + 1 + l.length) = y := (spells_append.mp hs.2).2.1
        rw [itoaReverse, if_pos (by omega), show a + (l.length + 2) - 1 = a + 1 + l.length by omega]
        simp only [hx, hy]
        -- 入れ替えた後の内側は、もとの並びのままである。
        have hswap : Function.update (Function.update (put mem a (x :: (l ++ [y]))) a y) (a + 1 + l.length) x =
            put (Function.update (Function.update mem a y) (a + 1 + l.length) x) (a + 1) l := by
          rw [put_cons_concat, ← put_update (by omega), ← put_update (by omega), Function.update_comm (by omega),
            Function.update_idem, Function.update_comm (by omega), Function.update_idem]
        rw [hswap, ih _ _ _ (by omega), List.reverse_cons, List.reverse_append, List.reverse_singleton,
          List.singleton_append, List.cons_append, put_cons_concat, List.length_reverse]

/-- NUL で終えてから両端を入れ替えるループは、文字列を反転する。 -/
theorem itoaReverse_terminated (l : List Byte) (mem : Mem) (a fuel : Nat) (hf : l.length / 2 < fuel) :
    itoaReverse fuel (Function.update (put mem a l) (a + l.length) 0) a (a + l.length - 1) =
      some (put mem a (l.reverse ++ [0])) := by
  rw [← put_update (by omega), itoaReverse_put l _ _ _ hf, put_update (by rw [List.length_reverse]; omega),
    put_concat, List.length_reverse]

/-- 数字を書き、NUL を置き、反転すると、上の桁から並ぶ。 -/
theorem itoaDigits_reverse (hb : ItoaBase base) (mem : Mem) (start : Nat)
    (hf : (numeralText base num.natAbs).length ≤ fuel) :
    ((itoaDigits base fuel mem start num).bind fun r =>
        itoaReverse fuel (Function.update r.1 r.2 0) start (r.2 - 1)) =
      some (put mem start (numeralText base num.natAbs ++ [0])) := by
  have hpos : 0 < (numeralText base num.natAbs).length :=
    List.length_pos_of_ne_nil (by simp [numeralText, numeral_ne_nil])
  have hrev := itoaReverse_terminated (numeralText base num.natAbs).reverse mem start fuel
    (by rw [List.length_reverse]; omega)
  rw [List.length_reverse, List.reverse_reverse] at hrev
  rw [itoaDigits_eq hb mem start hf, Option.bind_some, hrev]

/-- `kernel_itoa` は、`itoaText` と NUL をちょうど書く。 -/
theorem kernelItoa_eq (hb : ItoaBase base) (mem : Mem) (num : Int) (buf : Nat)
    (hf : (numeralText base num.natAbs).length ≤ fuel) :
    kernelItoa fuel mem num buf base = some (put mem buf (itoaText base num ++ [0])) := by
  have hten : (base : Int) = 10 ↔ base = 10 := by omega
  rw [kernelItoa, if_neg hb.known]
  simp only [hten]
  by_cases hneg : num < 0 ∧ base = 10
  · simp only [if_pos hneg, itoaText, List.cons_append, put]
    exact itoaDigits_reverse hb _ _ hf
  · simp only [if_neg hneg, itoaText, List.nil_append]
    exact itoaDigits_reverse hb _ _ hf

end IdealX86
