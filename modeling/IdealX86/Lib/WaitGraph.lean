import Mathlib.Data.Set.Finite.Basic
import Mathlib.Order.WellFoundedSet
import Mathlib.Logic.Relation

/-!
# 待ちの関係

タスクが資源を待ち、資源には持ち主が高々一ついる系の、待ちの関係をまとめる。どの系にも依存しない。
資源に順序があり、どのタスクも持っている資源より上のものしか待たないなら、待ちの関係は輪にならない。
-/

namespace IdealX86.Lib

variable {T R ρ : Type*} {waits : T → R → Prop} {holder : R → T}

/-- `t` が、`u` の持つ資源を待っている。 -/
def WaitsFor (waits : T → R → Prop) (holder : R → T) (t u : T) : Prop := ∃ r, waits t r ∧ holder r = u

def Waiting (waits : T → R → Prop) (t : T) : Prop := ∃ r, waits t r

/-- 行き詰まった集まり。どのタスクも、集まりの中のタスクが持つ資源を待っている。 -/
def Stuck (waits : T → R → Prop) (holder : R → T) (S : Set T) : Prop := ∀ t ∈ S, ∃ r, waits t r ∧ holder r ∈ S

/-- 待っているタスクは、待っている資源より下の資源しか持たない。 -/
def Ordered [LT ρ] (waits : T → R → Prop) (holder : R → T) (rank : R → ρ) : Prop :=
  ∀ t r r', waits t r → holder r' = t → rank r' < rank r

section
variable [Preorder ρ] {rank : R → ρ} (h : Ordered waits holder rank)
include h

/-- 待ちの関係をたどると、最後の持ち主の資源は、最初に待つ資源より下にはない。 -/
theorem Ordered.rank_le {t u : T} (htu : Relation.TransGen (WaitsFor waits holder) t u) :
    ∃ r r', waits t r ∧ holder r' = u ∧ rank r ≤ rank r' := by
  induction htu with
  | single hw =>
      obtain ⟨r, hr, hu⟩ := hw
      exact ⟨r, r, hr, hu, le_rfl⟩
  | tail _ hw ih =>
      obtain ⟨r, r₁, hr, hu, hle⟩ := ih
      obtain ⟨r₂, hr₂, hv⟩ := hw
      exact ⟨r, r₂, hr, hv, hle.trans (h _ _ _ hr₂ hu).le⟩

theorem Ordered.acyclic (t : T) : ¬ Relation.TransGen (WaitsFor waits holder) t t := by
  intro ht
  obtain ⟨r, r', hr, hr', hle⟩ := h.rank_le ht
  exact lt_irrefl _ ((h _ _ _ hr hr').trans_le hle)

variable (hfin : {t | Waiting waits t}.Finite)
include hfin

theorem Ordered.not_stuck {S : Set T} (hS : Stuck waits holder S) : S = ∅ := by
  let before : T → T → Prop := fun u t => Relation.TransGen (WaitsFor waits holder) t u
  have hord : IsStrictOrder T before :=
    { irrefl := h.acyclic, trans := fun _ _ _ h₁ h₂ => h₂.trans h₁ }
  refine Set.eq_empty_of_forall_notMem fun t ht => ?_
  have hw : Waiting waits t := (hS t ht).imp fun _ hr => hr.1
  refine (hfin.wellFoundedOn (r := before)).induction (P := fun t => t ∉ S) hw (fun t _ ih ht => ?_) ht
  obtain ⟨r, hr, hu⟩ := hS t ht
  exact ih _ ((hS _ hu).imp fun _ hr => hr.1) (.single ⟨r, hr, rfl⟩) hu

/-- 待ちの関係をたどった先に、何も待っていないタスクがいる。 -/
theorem Ordered.exists_root {t : T} (ht : Waiting waits t) :
    ∃ u, Relation.TransGen (WaitsFor waits holder) t u ∧ ¬ Waiting waits u := by
  by_contra hroot
  -- いないなら、`t` からたどれるタスクの全体が行き詰まっている。
  have hwait : ∀ u, Relation.ReflTransGen (WaitsFor waits holder) t u → Waiting waits u := by
    intro u hu
    rcases Relation.reflTransGen_iff_eq_or_transGen.mp hu with rfl | hu
    · exact ht
    · by_contra hn; exact hroot ⟨u, hu, hn⟩
  have hS := h.not_stuck hfin (S := {u | Relation.ReflTransGen (WaitsFor waits holder) t u}) fun u hu =>
    (hwait u hu).imp fun r hr => ⟨hr, hu.tail ⟨r, hr, rfl⟩⟩
  exact Set.notMem_empty t (hS ▸ Relation.ReflTransGen.refl)

end

end IdealX86.Lib
