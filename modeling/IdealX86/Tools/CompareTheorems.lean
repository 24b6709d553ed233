import IdealX86.Tools.Cstring

/-!
# `kernel_strncmp` と `kernel_memcmp` の定理

どちらの `while (size--)` も、`size` を使いきって抜けると `size` は -1 になり、後の `size == 0` が成り立たない。値を返すための条件を
示す。
-/

namespace IdealX86

open Lib

variable {mem : Mem} {p q size : Nat} {s t : List Byte}

/-- 比較が値を返し、それが 0 であるのは `agree` のときに限る。 -/
def CmpCorrect (r : Option Int) (agree : Prop) : Prop := ∃ v, r = some v ∧ (v = 0 ↔ agree)

theorem cmpCorrect_none (agree : Prop) : ¬ CmpCorrect none agree := by
  rintro ⟨v, hv, -⟩
  simp at hv

/-! ## `kernel_memcmp` -/

def SameBytes (mem : Mem) (p q size : Nat) : Prop := ∀ i < size, mem (p + i) = mem (q + i)

theorem sameBytes_succ (size : Nat) :
    SameBytes mem p q (size + 1) ↔ mem p = mem q ∧ SameBytes mem (p + 1) (q + 1) size := by
  constructor
  · intro h
    refine ⟨h 0 (by omega), fun i hi => ?_⟩
    rw [Nat.add_assoc, Nat.add_assoc, Nat.add_comm 1]
    exact h (i + 1) (by omega)
  · rintro ⟨h₀, h⟩ i hi
    cases i with
    | zero => exact h₀
    | succ i =>
        have hi' := h i (by omega)
        rwa [Nat.add_assoc, Nat.add_assoc, Nat.add_comm 1] at hi'

/-- ループは、等しくないバイトがあれば 1 を返し、なければ -1 を残して抜ける。 -/
theorem memcmpLoop_result (mem : Mem) (p q size : Nat) :
    SameBytes mem p q size ∧ memcmpLoop mem size p q = .left (-1) ∨
      ¬ SameBytes mem p q size ∧ memcmpLoop mem size p q = .returned 1 := by
  induction size generalizing p q with
  | zero => exact .inl ⟨fun i hi => by omega, rfl⟩
  | succ size ih =>
      rw [sameBytes_succ, memcmpLoop]
      by_cases h₀ : mem p = mem q
      · simpa [h₀] using ih (p + 1) (q + 1)
      · exact .inr ⟨fun h => h₀ h.1, if_pos h₀⟩

theorem kernelMemcmp_correct_iff (hp : p ≠ 0) (hq : q ≠ 0) (size : Nat) :
    CmpCorrect (kernelMemcmp mem p q size) (SameBytes mem p q size) ↔
      size = 0 ∨ ∃ i < size, mem (p + i) ≠ mem (q + i) := by
  by_cases hz : size = 0
  · subst hz
    simp only [true_or, iff_true]
    exact ⟨0, by simp [kernelMemcmp], fun _ i hi => by omega, fun _ => rfl⟩
  · have hdiff : (∃ i < size, mem (p + i) ≠ mem (q + i)) ↔ ¬ SameBytes mem p q size := by
      simp [SameBytes]
    rw [kernelMemcmp, if_neg (by simp [hp, hq, hz]), hdiff]
    rcases memcmpLoop_result mem p q size with ⟨hsame, hloop⟩ | ⟨hsame, hloop⟩
    · rw [hloop]
      simp only [hz, hsame, not_true_eq_false, or_self, iff_false]
      exact cmpCorrect_none _
    · rw [hloop]
      simp only [hsame, not_false_eq_true, or_true, iff_true]
      exact ⟨1, rfl, by simp⟩

/-! ## `kernel_strncmp` -/

/-- 二つの文字列に、`size` より前の同じ番号で等しくない文字がある。 -/
def DifferBefore (s t : List Byte) (size : Nat) : Prop :=
  ∃ i < size, ∃ c d, s[i]? = some c ∧ t[i]? = some d ∧ c ≠ d

theorem differBefore_cons {c d : Byte} (size : Nat) :
    DifferBefore (c :: s) (d :: t) (size + 1) ↔ c ≠ d ∨ DifferBefore s t size := by
  constructor
  · rintro ⟨i, hi, c', d', hc, hd, hne⟩
    cases i with
    | zero =>
        obtain rfl : c = c' := by simpa using hc
        obtain rfl : d = d' := by simpa using hd
        exact .inl hne
    | succ i => exact .inr ⟨i, by omega, c', d', by simpa using hc, by simpa using hd, hne⟩
  · rintro (hne | ⟨i, hi, c', d', hc, hd, hne⟩)
    · exact ⟨0, by omega, c, d, rfl, rfl, hne⟩
    · exact ⟨i + 1, by omega, c', d', by simpa using hc, by simpa using hd, hne⟩

theorem not_differBefore (h : min size (min s.length t.length) = 0) : ¬ DifferBefore s t size := by
  rintro ⟨i, hi, c, d, hc, hd, -⟩
  have h₁ := (List.getElem?_eq_some_iff.mp hc).1
  have h₂ := (List.getElem?_eq_some_iff.mp hd).1
  omega

/-- ループは、等しくない文字を見つければ 1 を返す。短い方の文字列の終わりで抜けたときは残りの `size` を、`size` を使いきって抜けた
ときは -1 を残す。 -/
theorem strncmpLoop_result (hs : CString mem p s) (ht : CString mem q t) (size : Nat) :
    DifferBefore s t size ∧ strncmpLoop mem size p q = .returned 1 ∨
      ¬ DifferBefore s t size ∧ strncmpLoop mem size p q =
        .left (if min s.length t.length ≤ size then size - min s.length t.length else -1) := by
  induction s generalizing t p q size with
  | nil =>
      refine .inr ⟨not_differBefore (by simp), ?_⟩
      cases size <;> simp [strncmpLoop, cstring_nil.mp hs]
  | cons c s ih =>
      obtain ⟨hc, hc₀, hs'⟩ := cstring_cons.mp hs
      cases t with
      | nil =>
          refine .inr ⟨not_differBefore (by simp), ?_⟩
          cases size <;> simp [strncmpLoop, cstring_nil.mp ht]
      | cons d t =>
          obtain ⟨hd, hd₀, ht'⟩ := cstring_cons.mp ht
          have hnul : ¬ (c = 0 ∨ d = 0) := not_or.mpr ⟨hc₀, hd₀⟩
          cases size with
          | zero =>
              refine .inr ⟨not_differBefore (by simp), ?_⟩
              rw [strncmpLoop, hc, hd, if_neg hnul]
              simp
          | succ size =>
              rw [differBefore_cons, strncmpLoop, hc, hd, if_neg hnul]
              by_cases hcd : c = d
              · rw [if_neg (not_not.mpr hcd)]
                rcases ih hs' ht' size with ⟨hdiff, hloop⟩ | ⟨hdiff, hloop⟩
                · exact .inl ⟨.inr hdiff, hloop⟩
                · refine .inr ⟨not_or.mpr ⟨not_not.mpr hcd, hdiff⟩, ?_⟩
                  rw [hloop, List.length_cons, List.length_cons]
                  congr 1
                  split <;> split <;> omega
              · exact .inl ⟨.inl hcd, if_pos hcd⟩

theorem take_ne_of_differBefore (h : DifferBefore s t size) : s.take size ≠ t.take size := by
  obtain ⟨i, hi, c, d, hc, hd, hne⟩ := h
  intro he
  have hget := congrArg (·[i]?) he
  simp only [List.getElem?_take, hi, ↓reduceIte, hc, hd, Option.some.injEq] at hget
  exact hne hget

theorem take_min_eq (h : ¬ DifferBefore s t (min s.length t.length)) :
    s.take (min s.length t.length) = t.take (min s.length t.length) := by
  refine List.ext_getElem (by simp) fun i h₁ h₂ => ?_
  rw [List.length_take] at h₁ h₂
  rw [List.getElem_take, List.getElem_take]
  by_contra hne
  exact h ⟨i, by omega, _, _, List.getElem?_eq_getElem (by omega), List.getElem?_eq_getElem (by omega), hne⟩

theorem kernelStrncmp_correct_iff (hp : p ≠ 0) (hq : q ≠ 0) (hs : CString mem p s) (ht : CString mem q t) (size : Nat) :
    CmpCorrect (kernelStrncmp mem p q size) (s.take size = t.take size) ↔
      size = min s.length t.length ∨ DifferBefore s t size := by
  rw [kernelStrncmp, if_neg (by simp [hp, hq])]
  rcases strncmpLoop_result hs ht size with ⟨hdiff, hloop⟩ | ⟨hdiff, hloop⟩
  · rw [hloop]
    simp only [hdiff, or_true, iff_true]
    exact ⟨1, rfl, by simpa using take_ne_of_differBefore hdiff⟩
  · rw [hloop]
    simp only [hdiff, or_false]
    constructor
    · rintro ⟨v, hv, -⟩
      have hz := (Option.ite_none_right_eq_some.mp hv).1
      split at hz <;> omega
    · rintro rfl
      refine ⟨0, ?_, by simpa using take_min_eq hdiff⟩
      simp [CmpLoop.result]

/-- 二つの比較は、どれも等しい列では、最後の `return` に達しないので、値を返さない。正しい値を返すのは、`kernel_memcmp` では、
`size` が 0 のときと、先頭の `size` バイトに違いがあるとき、`kernel_strncmp` では、`size` が短い方の文字列の長さであるときと、
`size` より前に等しくない文字があるとき、そのときに限る。 -/
theorem kernelCmp_correct_iff (mem : Mem) (hp : p ≠ 0) (hq : q ≠ 0) (size : Nat) :
    (CmpCorrect (kernelMemcmp mem p q size) (SameBytes mem p q size) ↔
      size = 0 ∨ ∃ i < size, mem (p + i) ≠ mem (q + i)) ∧
    ∀ s t, CString mem p s → CString mem q t →
      (CmpCorrect (kernelStrncmp mem p q size) (s.take size = t.take size) ↔
        size = min s.length t.length ∨ DifferBefore s t size) :=
  ⟨kernelMemcmp_correct_iff hp hq size, fun _ _ hs ht => kernelStrncmp_correct_iff hp hq hs ht size⟩

/-- `0x1000` に `"ab"`、`0x2000` に `"ac"`、`0x3000` に `"ab"` を置いたメモリ。 -/
def cmpMem : Mem := put (put (put (fun _ => 0) 0x1000 [97, 98]) 0x2000 [97, 99]) 0x3000 [97, 98]

theorem cstring_cmpMem : CString cmpMem 0x1000 [97, 98] ∧ CString cmpMem 0x2000 [97, 99] :=
  ⟨⟨⟨rfl, rfl, trivial⟩, rfl, by decide⟩, ⟨⟨rfl, rfl, trivial⟩, rfl, by decide⟩⟩

theorem kernelCmp_correct_iff_ac :
    (CmpCorrect (kernelMemcmp cmpMem 0x1000 0x2000 3) (SameBytes cmpMem 0x1000 0x2000 3) ↔
      3 = 0 ∨ ∃ i < 3, cmpMem (0x1000 + i) ≠ cmpMem (0x2000 + i)) ∧
    (CmpCorrect (kernelStrncmp cmpMem 0x1000 0x2000 3) (([97, 98] : List Byte).take 3 = ([97, 99] : List Byte).take 3) ↔
      3 = min ([97, 98] : List Byte).length ([97, 99] : List Byte).length ∨ DifferBefore [97, 98] [97, 99] 3) := by
  have h := kernelCmp_correct_iff cmpMem (p := 0x1000) (q := 0x2000) (by decide) (by decide) 3
  exact ⟨h.1, h.2 _ _ cstring_cmpMem.1 cstring_cmpMem.2⟩

/-- 等しい二つの `"ab"` の比較は、どちらの関数でも値を返さない。 -/
theorem kernelCmp_equal_returns_nothing :
    ¬ CmpCorrect (kernelMemcmp cmpMem 0x1000 0x3000 2) (SameBytes cmpMem 0x1000 0x3000 2) ∧
      ¬ CmpCorrect (kernelStrncmp cmpMem 0x1000 0x3000 3)
        (([97, 98] : List Byte).take 3 = ([97, 98] : List Byte).take 3) := by
  have hmem : kernelMemcmp cmpMem 0x1000 0x3000 2 = none := by decide
  have hstr : kernelStrncmp cmpMem 0x1000 0x3000 3 = none := by decide
  rw [hmem, hstr]
  exact ⟨cmpCorrect_none _, cmpCorrect_none _⟩

end IdealX86
