import IdealX86.Loader.IntToStr
import IdealX86.Tools.ItoaTheorems

/-!
# `int_to_str` の定理

`int_to_str` は負号ごと反転するので、負の数では負号が末尾に来る。カーネルの `kernel_itoa` と同じ十進表記になるための条件を示す。
-/

namespace IdealX86

open Lib

variable {mem : Mem} {fuel : Nat} {num : Int}

/-! ## 数字 -/

/-- 剰余の符号 `sign` のもとで、`int_to_str` の書く数字。負の剰余では `'0'` より前の文字になる。 -/
def signedDigitChar (sign : Int) (d : Nat) : Byte := BitVec.ofInt 8 (sign * d + 48)

def intToStrText (num : Int) : List Byte := (numeral 10 num.natAbs).map (signedDigitChar num.sign)

theorem signedDigitChar_ne_zero {sign : Int} (hs : sign = 1 ∨ sign = 0 ∨ sign = -1) {d : Nat} (hd : d < 10) :
    signedDigitChar sign d ≠ 0 := by
  rcases hs with rfl | rfl | rfl <;> revert d <;> decide

theorem tmod_ten (num : Int) : num.tmod 10 = num.sign * (num.natAbs % 10 : Nat) := by
  have habs : (num.tmod 10).natAbs = num.natAbs % 10 := Int.natAbs_tmod num 10
  rcases lt_trichotomy num 0 with hneg | rfl | hpos
  · have hle := Int.tmod_nonneg 10 (show 0 ≤ -num by omega)
    rw [Int.neg_tmod] at hle
    rw [Int.sign_eq_neg_one_of_neg hneg]
    omega
  · rfl
  · have hle := Int.tmod_nonneg 10 hpos.le
    rw [Int.sign_eq_one_of_pos hpos]
    omega

/-- 数字を下の桁から書くループは、数字の列を逆に書く。 -/
theorem intToStrDigits_eq (mem : Mem) (p : Nat) (hf : (intToStrText num).length ≤ fuel) :
    intToStrDigits 10 fuel mem p num =
      some (put mem p (intToStrText num).reverse, p + (intToStrText num).length) := by
  induction fuel generalizing mem p num with
  | zero => simp [intToStrText, numeral_ne_nil] at hf
  | succ fuel ih =>
      have hdiv : (num.tdiv 10).natAbs = num.natAbs / 10 := Int.natAbs_tdiv num 10
      have hchar : (if num.tmod 10 > 9 then num.tmod 10 - 10 + 97 else num.tmod 10 + 48) =
          num.sign * (num.natAbs % 10 : Nat) + 48 := by
        have hle := Int.tmod_lt_of_pos num (show (0 : Int) < 10 by decide)
        rw [if_neg (by omega), tmod_ten]
      simp only [intToStrDigits, hchar]
      by_cases hlt : num.natAbs < 10
      · have h₀ : num.tdiv 10 = 0 := by omega
        simp [h₀, intToStrText, numeral_of_lt hlt, Nat.mod_eq_of_lt hlt, put, signedDigitChar]
      · have hne : num.tdiv 10 ≠ 0 := by omega
        have hsign : (num.tdiv 10).sign = num.sign := by
          rw [Int.sign_tdiv, if_neg (show ¬ num.natAbs < Int.natAbs 10 from hlt)]
          exact mul_one _
        have htext : intToStrText num =
            intToStrText (num.tdiv 10) ++ [signedDigitChar num.sign (num.natAbs % 10)] := by
          rw [intToStrText, intToStrText, hdiv, hsign, numeral_of_le (by decide) (by omega), List.map_append]
          rfl
        rw [htext, List.length_append, List.length_singleton] at hf ⊢
        rw [if_pos hne, ih _ _ (by omega), List.reverse_append, List.reverse_singleton, List.singleton_append, put,
          Nat.add_assoc, Nat.add_comm 1]
        rfl

/-! ## 文字列 -/

/-- `int_to_str` の書く文字列。負号は末尾に来る。 -/
def loaderText (overflow num : Int) : List Byte :=
  if num < 0 then intToStrText (negateInt overflow num) ++ [45] else intToStrText num

theorem length_intToStrText_le {n : Int} (h : n.natAbs < 2 ^ 32) : (intToStrText n).length ≤ 10 := by
  rw [intToStrText, List.length_map]
  exact length_numeral_le (by decide) (by decide) (Nat.lt_of_lt_of_le h (by decide))

theorem natAbs_negateInt_lt (o num : BitVec 32) : (negateInt o.toInt num.toInt).natAbs < 2 ^ 32 := by
  have hnum := natAbs_toInt_lt num
  have ho := natAbs_toInt_lt o
  unfold negateInt
  split <;> omega

theorem intToStr_eq (o num : BitVec 32) (mem : Mem) (buffer : Nat) (hf : 32 ≤ fuel) :
    intToStr o.toInt fuel mem num.toInt buffer 10 = some (put mem buffer (loaderText o.toInt num.toInt ++ [0])) := by
  unfold intToStr loaderText
  by_cases hneg : num.toInt < 0
  · have hlen := length_intToStrText_le (natAbs_negateInt_lt o num)
    have hfuel : (intToStrText (negateInt o.toInt num.toInt)).length ≤ fuel := by omega
    -- 負号は数字と同じ並びの先頭にあるので、一緒に反転される。
    have hrev := itoaReverse_terminated (45 :: (intToStrText (negateInt o.toInt num.toInt)).reverse) mem buffer fuel
      (by rw [List.length_cons, List.length_reverse]; omega)
    rw [List.length_cons, List.length_reverse, List.reverse_cons, List.reverse_reverse, put, ← Nat.add_assoc,
      Nat.add_right_comm] at hrev
    simp only [if_pos hneg, intToStrDigits_eq _ _ hfuel, Option.bind_eq_bind, Option.bind_some]
    exact hrev
  · have hlen := length_intToStrText_le (natAbs_toInt_lt num)
    have hfuel : (intToStrText num.toInt).length ≤ fuel := by omega
    have hrev := itoaReverse_terminated (intToStrText num.toInt).reverse mem buffer fuel
      (by rw [List.length_reverse]; omega)
    rw [List.length_reverse, List.reverse_reverse] at hrev
    simp only [if_neg hneg, intToStrDigits_eq _ _ hfuel, Option.bind_eq_bind, Option.bind_some]
    exact hrev

theorem intToStrText_nonzero (n : Int) : ∀ c ∈ intToStrText n, c ≠ 0 := by
  intro c hc
  obtain ⟨d, hd, rfl⟩ := List.mem_map.mp hc
  refine signedDigitChar_ne_zero ?_ (numeral_lt (by decide) hd)
  rcases lt_trichotomy n 0 with h | h | h
  · exact .inr (.inr (Int.sign_eq_neg_one_of_neg h))
  · exact .inr (.inl (by rw [h]; rfl))
  · exact .inl (Int.sign_eq_one_of_pos h)

theorem loaderText_nonzero (overflow num : Int) : ∀ c ∈ loaderText overflow num, c ≠ 0 := by
  intro c hc
  unfold loaderText at hc
  split at hc
  · rcases List.mem_append.mp hc with hc | hc
    · exact intToStrText_nonzero _ c hc
    · rw [List.mem_singleton.mp hc]
      decide
  · exact intToStrText_nonzero _ c hc

/-- 0 以上の数では、カーネルと同じ文字列になる。 -/
theorem loaderText_of_nonneg (overflow : Int) (h : 0 ≤ num) : loaderText overflow num = itoaText 10 num := by
  rw [loaderText, if_neg (by omega), itoaText, if_neg (by omega), List.nil_append]
  rcases h.eq_or_lt with rfl | hpos
  · rfl
  · have hdigit : ∀ d < 10, signedDigitChar 1 d = digitChar d := by decide
    rw [numeralText, intToStrText, Int.sign_eq_one_of_pos hpos]
    exact List.map_congr_left fun d hd => hdigit d (numeral_lt (by decide) hd)

/-- 負の数では、末尾の文字が異なる。 -/
theorem loaderText_of_neg (overflow : Int) (h : num < 0) : loaderText overflow num ≠ itoaText 10 num := by
  intro he
  have hlast := congrArg List.getLast? he
  have hne : numeralText 10 num.natAbs ≠ [] := by simp [numeralText, numeral_ne_nil]
  rw [loaderText, if_pos h, itoaText, List.getLast?_append_of_ne_nil _ hne, List.getLast?_concat] at hlast
  obtain ⟨d, hd, hc⟩ := List.mem_map.mp (List.mem_of_getLast? hlast.symm)
  have hdigit : ∀ d < 10, digitChar d ≠ 45 := by decide
  exact hdigit d (numeral_lt (by decide) hd) hc

/-! ## 二つの表示 -/

/-- `int_to_str(num, buffer, 10)` は、どのメモリのどの `buffer` でも 32 周の中で終わり、`buffer` に `text` を残す。 -/
def LoaderPrints (o num : BitVec 32) (text : List Byte) : Prop :=
  ∀ fuel ≥ 32, ∀ mem buffer, ∃ mem', intToStr o.toInt fuel mem num.toInt buffer 10 = some mem' ∧ CString mem' buffer text

theorem loaderPrints_iff (o num : BitVec 32) (text : List Byte) :
    LoaderPrints o num text ↔ text = loaderText o.toInt num.toInt := by
  have hstr : ∀ mem buffer, CString (put mem buffer (loaderText o.toInt num.toInt ++ [0])) buffer
      (loaderText o.toInt num.toInt) := fun mem buffer => cstring_put (loaderText_nonzero _ _)
  constructor
  · intro h
    obtain ⟨mem', hret, htext⟩ := h 32 (by decide) (fun _ => 0) 0
    rw [intToStr_eq o num _ _ (by decide), Option.some.injEq] at hret
    rw [← hret] at htext
    exact htext.unique (hstr _ _)
  · rintro rfl fuel hf mem buffer
    exact ⟨_, intToStr_eq o num mem buffer hf, hstr mem buffer⟩

/-- ローダの `int_to_str` とカーネルの `kernel_itoa` が十進で同じ文字列を残すのは、0 以上の数のとき、そのときに限る。 -/
theorem intToStr_agrees_iff (o num : BitVec 32) :
    (∃ text, LoaderPrints o num text ∧ Prints 10 num text) ↔ 0 ≤ num.toInt := by
  simp only [loaderPrints_iff, prints_iff itoaBase_ten]
  constructor
  · rintro ⟨text, hl, hk⟩
    by_contra hneg
    exact loaderText_of_neg o.toInt (by omega) (hl.symm.trans hk)
  · intro h
    exact ⟨_, (loaderText_of_nonneg o.toInt h).symm, rfl⟩

/-- -5 は、ローダでは `"5-"`、カーネルでは `"-5"` になる。 -/
theorem intToStr_minus_five :
    LoaderPrints 0x80000000 (-5) [53, 45] ∧ Prints 10 (-5) [45, 53] ∧
      ¬ ∃ text, LoaderPrints 0x80000000 (-5) text ∧ Prints 10 (-5) text := by
  have hfive : numeral 10 5 = [5] := numeral_of_lt (by decide)
  have hnum : (-5 : BitVec 32).toInt = -5 := by decide
  have hl : loaderText (0x80000000 : BitVec 32).toInt (-5 : BitVec 32).toInt = [53, 45] := by
    rw [hnum, loaderText, if_pos (by decide), negateInt, if_neg (by decide), intToStrText]
    simp [hfive, signedDigitChar]
  have hk : itoaText 10 (-5 : BitVec 32).toInt = [45, 53] := by
    rw [hnum, itoaText, if_pos (by decide), numeralText]
    simp [hfive, digitChar]
  refine ⟨(loaderPrints_iff _ _ _).mpr hl.symm, (prints_iff itoaBase_ten _ _).mpr hk.symm, ?_⟩
  rintro ⟨text, h₁, h₂⟩
  rw [loaderPrints_iff, hl] at h₁
  rw [prints_iff itoaBase_ten, hk, h₁] at h₂
  exact absurd h₂ (by decide)

end IdealX86
