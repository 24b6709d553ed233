import Mathlib.Data.List.Nodup
import Mathlib.Logic.Function.Basic

/-!
# 双方向にたどれる節の並び

節の型 `ν` と、節ごとの前後のリンクを与える関数だけから、リンクが表す並びを定める。どのリストの実装にも依存しない。
-/

namespace IdealX86.Lib

variable {ν : Type*}

/-- 節の前後のリンク。`none` は空のポインタである。 -/
structure Link (ν : Type*) where
  pre : Option ν
  next : Option ν
  deriving DecidableEq

/-- リンク `lk` のもとで、`xs` が、前が `p`、後が `nx` の並びになっている。 -/
def Seg (lk : ν → Link ν) : Option ν → List ν → Option ν → Prop
  | _, [], _ => True
  | p, x :: xs, nx => lk x = ⟨p, xs.head?.or nx⟩ ∧ Seg lk (some x) xs nx

variable {lk lk' : ν → Link ν} {p p' nx nx' : Option ν} {xs ys : List ν} {x : ν}

theorem Seg.congr (h : ∀ y ∈ xs, lk' y = lk y) (hs : Seg lk p xs nx) : Seg lk' p xs nx := by
  induction xs generalizing p with
  | nil => trivial
  | cons y ys ih =>
      exact ⟨(h y (by simp)).trans hs.1, ih (fun z hz => h z (by simp [hz])) hs.2⟩

theorem seg_append :
    Seg lk p (xs ++ ys) nx ↔ Seg lk p xs (ys.head?.or nx) ∧ Seg lk (xs.getLast?.or p) ys nx := by
  induction xs generalizing p with
  | nil => simp [Seg]
  | cons x xs ih =>
      simp only [List.cons_append, Seg, ih, and_assoc]
      cases xs with
      | nil => simp
      | cons y ys' =>
          rw [List.getLast?_cons_cons]
          cases h : (y :: ys').getLast? with
          | none => simp at h
          | some z => simp

theorem Seg.link (hs : Seg lk p (xs ++ x :: ys) nx) :
    lk x = ⟨xs.getLast?.or p, ys.head?.or nx⟩ :=
  (seg_append.mp hs).2.1

/-! ## ポインタを通した書き換え -/

variable [DecidableEq ν]

/-- `o` の指す節の `next` を書き換える。空のポインタでは何もしない。 -/
def setNext (lk : ν → Link ν) (o v : Option ν) : ν → Link ν :=
  match o with
  | none => lk
  | some a => Function.update lk a ⟨(lk a).pre, v⟩

/-- `o` の指す節の `pre` を書き換える。空のポインタでは何もしない。 -/
def setPre (lk : ν → Link ν) (o v : Option ν) : ν → Link ν :=
  match o with
  | none => lk
  | some a => Function.update lk a ⟨v, (lk a).next⟩

theorem setNext_of_ne {o v : Option ν} (h : o ≠ some x) : setNext lk o v x = lk x := by
  cases o with
  | none => rfl
  | some a => exact Function.update_of_ne (fun e => h (by rw [e])) _ _

theorem setPre_of_ne {o v : Option ν} (h : o ≠ some x) : setPre lk o v x = lk x := by
  cases o with
  | none => rfl
  | some a => exact Function.update_of_ne (fun e => h (by rw [e])) _ _

theorem Seg.setNext (hs : Seg lk p xs nx) (hn : xs.Nodup) :
    Seg (setNext lk xs.getLast? nx') p xs nx' := by
  cases h : xs.getLast? with
  | none => rw [List.getLast?_eq_none_iff] at h; subst h; trivial
  | some a =>
      obtain ⟨ys, rfl⟩ := List.getLast?_eq_some_iff.mp h
      obtain ⟨h₁, h₂, _⟩ := seg_append.mp hs
      have ha : a ∉ ys := fun ha => (List.nodup_append.mp hn).2.2 a ha a (by simp) rfl
      refine seg_append.mpr ⟨h₁.congr ?_, ?_, trivial⟩
      · intro y hy
        exact setNext_of_ne (by rintro ⟨rfl⟩; exact ha hy)
      · simp [Lib.setNext, h₂]

theorem Seg.setPre (hs : Seg lk p xs nx) (hn : xs.Nodup) :
    Seg (setPre lk xs.head? p') p' xs nx := by
  cases xs with
  | nil => trivial
  | cons a ys =>
      refine ⟨by simp [Lib.setPre, hs.1], hs.2.congr ?_⟩
      intro y hy
      exact setPre_of_ne (by rintro ⟨rfl⟩; exact (List.nodup_cons.mp hn).1 hy)

end IdealX86.Lib
