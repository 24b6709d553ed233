import Mathlib.Data.Nat.Digits.Defs
import Mathlib.Data.Nat.Digits.Lemmas

/-!
# 位取りの数字の列

自然数を、上の桁から並べた数字の列で表す。0 は一桁の 0 であり、それ以外は 0 で始まらない。
-/

namespace IdealX86.Lib

/-- `b` を底とする `n` の数字の列。上の桁から並べる。 -/
def numeral (b n : Nat) : List Nat := if n = 0 then [0] else (b.digits n).reverse

variable {b n m : Nat}

theorem numeral_of_lt (h : n < b) : numeral b n = [n] := by
  unfold numeral
  split
  · next h₀ => rw [h₀]
  · next h₀ => rw [Nat.digits_of_lt b n h₀ h, List.reverse_singleton]

theorem numeral_of_le (hb : 2 ≤ b) (h : b ≤ n) : numeral b n = numeral b (n / b) ++ [n % b] := by
  have hdiv : n / b ≠ 0 := by
    have := Nat.div_pos h (by omega)
    omega
  rw [numeral, if_neg (by omega), numeral, if_neg hdiv, Nat.digits_def' (by omega) (by omega), List.reverse_cons]

theorem numeral_ne_nil (b n : Nat) : numeral b n ≠ [] := by
  unfold numeral
  split
  · simp
  · next h => simpa using Nat.digits_ne_nil_iff_ne_zero.mpr h

theorem numeral_lt (hb : 2 ≤ b) {d : Nat} (hd : d ∈ numeral b n) : d < b := by
  unfold numeral at hd
  split at hd
  · rw [List.mem_singleton] at hd
    omega
  · exact Nat.digits_lt_base (by omega) (List.mem_reverse.mp hd)

/-- 数字の列の値。上の桁から読む。 -/
def numeralValue (b : Nat) (l : List Nat) : Nat := l.foldl (fun v d => b * v + d) 0

theorem numeralValue_reverse (b : Nat) (l : List Nat) : numeralValue b l.reverse = Nat.ofDigits b l := by
  induction l with
  | nil => rfl
  | cons d l ih =>
      rw [numeralValue] at ih
      rw [numeralValue, List.reverse_cons, List.foldl_append, ih, Nat.ofDigits_cons]
      simp [Nat.add_comm]

@[simp] theorem numeralValue_numeral (b n : Nat) : numeralValue b (numeral b n) = n := by
  unfold numeral
  split
  · next h => simp [numeralValue, h]
  · rw [numeralValue_reverse, Nat.ofDigits_digits]

theorem numeral_injective (b : Nat) : Function.Injective (numeral b) := by
  intro n m h
  rw [← numeralValue_numeral b n, h, numeralValue_numeral]

/-- 先頭の数字が 0 であるのは、0 を表す列だけである。 -/
theorem numeral_head?_zero (h : (numeral b n).head? = some 0) : numeral b n = [0] := by
  unfold numeral at h ⊢
  split
  · rfl
  · next hn =>
      rw [if_neg hn, List.head?_reverse, List.getLast?_eq_some_getLast (Nat.digits_ne_nil_iff_ne_zero.mpr hn)] at h
      exact absurd (Option.some.inj h) (Nat.getLast_digit_ne_zero b hn)

theorem length_numeral_le (hb : 2 ≤ b) {k : Nat} (hk : 1 ≤ k) (h : n < b ^ k) : (numeral b n).length ≤ k := by
  unfold numeral
  split
  · simpa using hk
  · rw [List.length_reverse]
    exact (Nat.digits_length_le_iff (by omega) n).mpr h

end IdealX86.Lib
