import Mathlib.Data.List.Induction
import Mathlib.Logic.Function.Basic

/-!
# メモリの上の並び

アドレスから値への関数の上で、並びを順に書くことと、並びが置かれていることを定める。値の型は任意である。
-/

namespace IdealX86.Lib

variable {α : Type*} {mem mem' : Nat → α} {a x : Nat} {l l' : List α} {c : α}

/-- `a` から `l` を順に書く。 -/
def put (mem : Nat → α) (a : Nat) : List α → Nat → α
  | [] => mem
  | c :: l => put (Function.update mem a c) (a + 1) l

@[simp] theorem put_nil : put mem a [] = mem := rfl

theorem put_of_outside (h : x < a ∨ a + l.length ≤ x) : put mem a l x = mem x := by
  induction l generalizing mem a with
  | nil => rfl
  | cons c l ih =>
      rw [List.length_cons] at h
      rw [put, ih (by omega), Function.update_of_ne (by omega)]

theorem put_append : put mem a (l ++ l') = put (put mem a l) (a + l.length) l' := by
  induction l generalizing mem a with
  | nil => rfl
  | cons c l ih => rw [List.cons_append, put, put, ih, List.length_cons, Nat.add_assoc, Nat.add_comm 1]

theorem put_concat : put mem a (l ++ [c]) = Function.update (put mem a l) (a + l.length) c := put_append

/-- 範囲の外への書き込みは、並びを書く前でも後でもよい。 -/
theorem put_update (h : x < a ∨ a + l.length ≤ x) :
    put (Function.update mem x c) a l = Function.update (put mem a l) x c := by
  induction l generalizing mem a with
  | nil => rfl
  | cons d l ih =>
      rw [List.length_cons] at h
      rw [put, Function.update_comm (by omega), ih (by omega), put]

theorem put_getElem {i : Nat} (hi : i < l.length) : put mem a l (a + i) = l[i] := by
  induction l generalizing mem a i with
  | nil => simp at hi
  | cons c l ih =>
      cases i with
      | zero => rw [put, put_of_outside (by omega)]; exact Function.update_self _ _ _
      | succ i =>
          rw [put, ← Nat.add_assoc, Nat.add_right_comm, ih (by simpa using hi)]
          rfl

/-- 末尾に書いた一つの値は、そこから先に書くと消える。 -/
theorem put_put_concat (h : l' ≠ []) :
    put (put mem a (l ++ [c])) (a + l.length) l' = put mem a (l ++ l') := by
  cases l' with
  | nil => exact absurd rfl h
  | cons d l' => rw [put_concat, put, Function.update_idem, put_append, put]

/-! ## 並びが置かれていること -/

/-- `a` から `l` が並んでいる。 -/
def Spells (mem : Nat → α) : Nat → List α → Prop
  | _, [] => True
  | a, c :: l => mem a = c ∧ Spells mem (a + 1) l

theorem Spells.congr (hs : Spells mem a l) (h : ∀ x, a ≤ x → x < a + l.length → mem' x = mem x) :
    Spells mem' a l := by
  induction l generalizing a with
  | nil => trivial
  | cons c l ih =>
      rw [List.length_cons] at h
      exact ⟨(h a (by omega) (by omega)).trans hs.1, ih hs.2 fun x h₁ h₂ => h x (by omega) (by omega)⟩

theorem spells_append : Spells mem a (l ++ l') ↔ Spells mem a l ∧ Spells mem (a + l.length) l' := by
  induction l generalizing a with
  | nil => simp [Spells]
  | cons c l ih =>
      rw [List.cons_append, Spells, ih, Spells, and_assoc, List.length_cons, Nat.add_assoc, Nat.add_comm 1]

theorem Spells.getElem (hs : Spells mem a l) {i : Nat} (hi : i < l.length) : mem (a + i) = l[i] := by
  induction l generalizing a i with
  | nil => simp at hi
  | cons c l ih =>
      cases i with
      | zero => exact hs.1
      | succ i =>
          rw [← Nat.add_assoc, Nat.add_right_comm, ih hs.2 (by simpa using hi)]
          rfl

theorem spells_put : Spells (put mem a l) a l := by
  induction l generalizing mem a with
  | nil => trivial
  | cons c l ih =>
      refine ⟨?_, ih⟩
      rw [put, put_of_outside (by omega), Function.update_self]

end IdealX86.Lib
