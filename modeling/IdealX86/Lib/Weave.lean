import Mathlib.Data.List.Basic

/-!
# 混ぜ合わされた並び

いくつかの並びを混ぜ合わせた並びを、要素にどの並びのものかを添えた並びで表す。どの系にも依存しない。
-/

namespace IdealX86.Lib

variable {α : Type*} {w w' : List (Nat × α)} {i j : Nat} {a : α}

/-- `w` の中の `i` 番の並び。 -/
def part (w : List (Nat × α)) (i : Nat) : List α := (w.filter fun x => x.1 = i).map Prod.snd

@[simp] theorem part_nil (i : Nat) : part ([] : List (Nat × α)) i = [] := rfl

@[simp] theorem part_append (w w' : List (Nat × α)) (i : Nat) : part (w ++ w') i = part w i ++ part w' i := by
  simp [part]

@[simp] theorem part_singleton_self (i : Nat) (a : α) : part [(i, a)] i = [a] := by simp [part]

theorem part_singleton_of_ne (h : j ≠ i) (a : α) : part [(i, a)] j = [] := by simp [part, Ne.symm h]

theorem part_map_self (i : Nat) (l : List α) : part (l.map (i, ·)) i = l := by
  simp [part, List.filter_map, Function.comp_def]

theorem part_map_of_ne (h : j ≠ i) (l : List α) : part (l.map (j, ·)) i = [] := by
  simp [part, List.filter_map, Function.comp_def, h]

theorem part_eq_nil (h : ∀ x ∈ w, x.1 ≠ i) : part w i = [] := by
  rw [part, List.map_eq_nil_iff, List.filter_eq_nil_iff]
  intro x hx
  simpa using h x hx

theorem part_filter_ne {n : Nat} (h : i ≠ n) : part (w.filter fun x => x.1 ≠ n) i = part w i := by
  rw [part, part, List.filter_filter]
  refine congrArg _ (List.filter_congr fun x _ => ?_)
  by_cases hx : x.1 = i <;> simp [hx, h]

/-- どの要素も `n` 番より前の並びのものなら、並びを順に続けたものは、混ぜ合わせた並びの並べ替えである。 -/
theorem perm_flatMap_part {n : Nat} (h : ∀ x ∈ w, x.1 < n) :
    ((List.range n).flatMap (part w)).Perm (w.map Prod.snd) := by
  induction n generalizing w with
  | zero =>
      have hw : w = [] := List.eq_nil_iff_forall_not_mem.mpr fun x hx => absurd (h x hx) (Nat.not_lt_zero _)
      simp [hw]
  | succ n ih =>
      -- `n` 番のものを分けると、残りは `n` 番より前の並びのものだけである。
      have hrest : ∀ x ∈ w.filter (fun x => x.1 ≠ n), x.1 < n := by
        intro x hx
        obtain ⟨hm, hne⟩ := List.mem_filter.mp hx
        have hlt := h x hm
        have hne := of_decide_eq_true hne
        omega
      have hparts : (List.range n).flatMap (part w) =
          (List.range n).flatMap (part (w.filter fun x => x.1 ≠ n)) :=
        List.flatMap_congr fun i hi => (part_filter_ne (Nat.ne_of_lt (List.mem_range.mp hi))).symm
      have hsplit : (w.filter (fun x => x.1 ≠ n) ++ w.filter fun x => x.1 = n).Perm w := by
        have hperm := List.filter_append_perm (fun x : Nat × α => decide (x.1 ≠ n)) w
        simpa using hperm
      rw [List.range_succ, List.flatMap_append, List.flatMap_singleton, hparts]
      refine ((ih hrest).append_right _).trans ?_
      rw [part, ← List.map_append]
      exact hsplit.map _

end IdealX86.Lib
