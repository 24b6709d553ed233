import Mathlib.Algebra.BigOperators.Group.List.Basic
import Mathlib.Algebra.Order.Ring.Int

/-!
# 行列の中の順番

並びの中で、ある要素より前にある部分と、その重みの和をまとめる。末尾につなぐことでは変わらず、先頭を外すと減る。
-/

namespace IdealX86.Lib

variable {α : Type*} [DecidableEq α] {x y : α} {xs ys : List α}

/-- `xs` の中で `x` より前にある部分。 -/
def ahead (x : α) (xs : List α) : List α := xs.takeWhile (· ≠ x)

@[simp] theorem ahead_cons_self : ahead x (x :: xs) = [] := by simp [ahead]

theorem ahead_cons_of_ne (h : y ≠ x) : ahead x (y :: xs) = y :: ahead x xs := by simp [ahead, h]

theorem ahead_sublist : (ahead x xs).Sublist xs := List.takeWhile_sublist _

theorem ahead_append (h : x ∈ xs) : ahead x (xs ++ ys) = ahead x xs := by
  induction xs with
  | nil => cases h
  | cons z xs ih =>
      by_cases hz : z = x
      · simp [hz]
      · rw [List.cons_append, ahead_cons_of_ne hz, ahead_cons_of_ne hz,
          ih ((List.mem_cons.mp h).resolve_left (Ne.symm hz))]

theorem ahead_eq_nil (h : x ∈ xs) (ha : ahead x xs = []) : xs.head? = some x := by
  cases xs with
  | nil => cases h
  | cons z xs =>
      by_cases hz : z = x
      · simp [hz]
      · rw [ahead_cons_of_ne hz] at ha; cases ha

/-- `x` より前にある要素の重みの和。 -/
def weight (w : α → Int) (x : α) (xs : List α) : Int := ((ahead x xs).map w).sum

theorem weight_cons_of_ne (w : α → Int) (h : y ≠ x) : weight w x (y :: xs) = w y + weight w x xs := by
  simp [weight, ahead_cons_of_ne h]

theorem weight_append (w : α → Int) (h : x ∈ xs) : weight w x (xs ++ ys) = weight w x xs := by
  simp only [weight, ahead_append h]

theorem weight_congr {w w' : α → Int} (h : ∀ y ∈ xs, w' y = w y) : weight w' x xs = weight w x xs := by
  simp only [weight]
  exact congrArg List.sum (List.map_congr_left fun y hy => h y (ahead_sublist.subset hy))

theorem weight_le {w : α → Int} {n : Int} (h : ∀ y ∈ xs, w y ≤ n) :
    weight w x xs ≤ n * (ahead x xs).length := by
  have hs : ∀ zs : List α, (∀ y ∈ zs, w y ≤ n) → (zs.map w).sum ≤ n * zs.length := by
    intro zs hz
    induction zs with
    | nil => simp
    | cons z zs ih =>
        have h₁ := hz z (by simp)
        have h₂ := ih fun y hy => hz y (by simp [hy])
        simp only [List.map_cons, List.sum_cons, List.length_cons, Nat.cast_add, Nat.cast_one, mul_add, mul_one]
        omega
  exact hs _ fun y hy => h y (ahead_sublist.subset hy)

theorem length_le_weight {w : α → Int} (h : ∀ y ∈ xs, 1 ≤ w y) : (ahead x xs).length ≤ weight w x xs := by
  have hs : ∀ zs : List α, (∀ y ∈ zs, 1 ≤ w y) → (zs.length : Int) ≤ (zs.map w).sum := by
    intro zs hz
    induction zs with
    | nil => simp
    | cons z zs ih =>
        have h₁ := hz z (by simp)
        have h₂ := ih fun y hy => hz y (by simp [hy])
        simp only [List.map_cons, List.sum_cons, List.length_cons, Nat.cast_add, Nat.cast_one]
        omega
  exact hs _ fun y hy => h y (ahead_sublist.subset hy)

end IdealX86.Lib
