import Mathlib.Data.List.Basic

/-!
# ラベル付き遷移の実行

一歩を `step : σ → ι → Option σ`（そのラベルの遷移ができないときは `none`）で表した系の実行と、
実行についての帰納法をまとめる。どの系にも依存しない。
-/

namespace IdealX86.Lib

variable {σ τ ι : Type*}

/-- ラベルの列 `ls` を順に実行する。途中で遷移できないラベルがあれば `none` である。 -/
def exec (step : σ → ι → Option σ) : σ → List ι → Option σ
  | s, [] => some s
  | s, l :: ls => (step s l).bind (exec step · ls)

/-- 実行の各歩が、その直前の状態とラベルについて `Q` を満たす。 -/
def Along (step : σ → ι → Option σ) (Q : σ → ι → Prop) : σ → List ι → Prop
  | _, [] => True
  | s, l :: ls => Q s l ∧ ∀ s', step s l = some s' → Along step Q s' ls

/-- 実行の途中のすべての状態が `P` を満たす。 -/
def Always (step : σ → ι → Option σ) (P : σ → Prop) (s : σ) (ls : List ι) : Prop :=
  P s ∧ Along step (fun s l => ∀ s', step s l = some s' → P s') s ls

/-- 実行の歩のうち、直前の状態とラベルについて `p` を満たすものの数。 -/
def countAlong (step : σ → ι → Option σ) (p : σ → ι → Bool) : σ → List ι → Nat
  | _, [] => 0
  | s, l :: ls => (if p s l then 1 else 0) + ((step s l).map (countAlong step p · ls)).getD 0

variable {step : σ → ι → Option σ} {Q : σ → ι → Prop}

@[simp] theorem exec_nil (s : σ) : exec step s [] = some s := rfl

theorem exec_cons {s s'' : σ} {l : ι} {ls : List ι} :
    exec step s (l :: ls) = some s'' ↔ ∃ s', step s l = some s' ∧ exec step s' ls = some s'' := by
  simp [exec, Option.bind_eq_some_iff]

theorem exec_append {s s' s'' : σ} {ls ls' : List ι} (h : exec step s ls = some s') (h' : exec step s' ls' = some s'') :
    exec step s (ls ++ ls') = some s'' := by
  induction ls generalizing s with
  | nil => cases h; exact h'
  | cons l ls ih =>
      obtain ⟨s₁, h₁, h₂⟩ := exec_cons.mp h
      exact exec_cons.mpr ⟨s₁, h₁, ih h₂⟩

theorem countAlong_cons {p : σ → ι → Bool} {s s' : σ} {l : ι} {ls : List ι} (h : step s l = some s') :
    countAlong step p s (l :: ls) = (if p s l then 1 else 0) + countAlong step p s' ls := by
  simp [countAlong, h]

theorem always_cons {P : σ → Prop} {s s' : σ} {l : ι} {ls : List ι} (h : step s l = some s') :
    Always step P s (l :: ls) ↔ P s ∧ Always step P s' ls := by
  constructor
  · rintro ⟨hs, hl, hrest⟩; exact ⟨hs, hl s' h, hrest s' h⟩
  · rintro ⟨hs, hs', hrest⟩
    refine ⟨hs, fun s'' hst => ?_, fun s'' hst => ?_⟩ <;> (rw [h] at hst; cases hst)
    · exact hs'
    · exact hrest

/-! ## 不変条件 -/

theorem exec_invariant_along {I : σ → Prop}
    (hstep : ∀ s l s', I s → Q s l → step s l = some s' → I s')
    {s s' : σ} {ls : List ι} (hrun : exec step s ls = some s') (hQ : Along step Q s ls)
    (hs : I s) : I s' := by
  induction ls generalizing s with
  | nil => cases hrun; exact hs
  | cons l ls ih =>
      obtain ⟨s₁, h₁, h₂⟩ := exec_cons.mp hrun
      exact ih h₂ (hQ.2 _ h₁) (hstep _ _ _ hs hQ.1 h₁)

theorem along_of_countAlong_eq_zero {p : σ → ι → Bool} {s : σ} {ls : List ι}
    (h : countAlong step p s ls = 0) : Along step (fun s l => p s l = false) s ls := by
  induction ls generalizing s with
  | nil => trivial
  | cons l ls ih =>
      obtain ⟨h₁, h₂⟩ := Nat.add_eq_zero_iff.mp h
      refine ⟨by simpa using h₁, fun s' hst => ih ?_⟩
      simpa [hst] using h₂

theorem Along.mono {R : σ → ι → Prop} (hQR : ∀ s l, Q s l → R s l) {s : σ} {ls : List ι}
    (h : Along step Q s ls) : Along step R s ls := by
  induction ls generalizing s with
  | nil => trivial
  | cons l ls ih => exact ⟨hQR s l h.1, fun s' hst => ih (h.2 s' hst)⟩

theorem along_true (s : σ) (ls : List ι) : Along step (fun _ _ => True) s ls := by
  induction ls generalizing s with
  | nil => trivial
  | cons l ls ih => exact ⟨trivial, fun s' _ => ih s'⟩

theorem exec_invariant {I : σ → Prop} (hstep : ∀ s l s', I s → step s l = some s' → I s')
    {s s' : σ} {ls : List ι} (hrun : exec step s ls = some s') (hs : I s) : I s' :=
  exec_invariant_along (Q := fun _ _ => True) (fun s l s' h _ => hstep s l s' h) hrun
    (along_true s ls) hs

/-- 不変条件のもとで一歩ごとに同値な二つの条件は、実行の全体でも同値である。不変条件は、条件を満たす歩で
保たれれば足りる。 -/
theorem along_iff {I : σ → Prop} {Q R : σ → ι → Prop} (hQR : ∀ s l, I s → (Q s l ↔ R s l))
    (hstep : ∀ s l s', I s → R s l → step s l = some s' → I s')
    {s : σ} (ls : List ι) (hs : I s) : Along step Q s ls ↔ Along step R s ls := by
  induction ls generalizing s with
  | nil => exact Iff.rfl
  | cons l ls ih =>
      constructor
      · rintro ⟨hq, hrest⟩
        have hr := (hQR s l hs).mp hq
        exact ⟨hr, fun s' h => (ih (hstep _ _ _ hs hr h)).mp (hrest s' h)⟩
      · rintro ⟨hr, hrest⟩
        exact ⟨(hQR s l hs).mpr hr, fun s' h => (ih (hstep _ _ _ hs hr h)).mpr (hrest s' h)⟩

/-- 不変条件が `P` を含み、条件 `R` がちょうど次の状態の `P` を保証するとき、途中のすべての状態が `P` を満たすことは、
すべての歩が `R` を満たすことと同値である。 -/
theorem always_iff {I P : σ → Prop} {R : σ → ι → Prop} (hP : ∀ s, I s → P s)
    (hR : ∀ s l, I s → (∀ s', step s l = some s' → P s') → R s l)
    (hstep : ∀ s l s', I s → R s l → step s l = some s' → I s')
    {s : σ} (ls : List ι) (hs : I s) : Always step P s ls ↔ Along step R s ls := by
  have ha := along_iff (Q := fun s l => ∀ s', step s l = some s' → P s')
    (fun s l h => ⟨hR s l h, fun hr s' hst => hP s' (hstep s l s' h hr hst)⟩) hstep ls hs
  exact ⟨fun h => ha.mp h.2, fun h => ⟨hP s hs, ha.mpr h⟩⟩

theorem always_of_along {I P : σ → Prop} {R : σ → ι → Prop} (hP : ∀ s, I s → P s)
    (hstep : ∀ s l s', I s → R s l → step s l = some s' → I s')
    {s : σ} {ls : List ι} (hR : Along step R s ls) (hs : I s) : Always step P s ls := by
  induction ls generalizing s with
  | nil => exact ⟨hP s hs, trivial⟩
  | cons l ls ih =>
      obtain ⟨hr, hrest⟩ := hR
      have hnext : ∀ s', step s l = some s' → I s' := fun s' => hstep s l s' hs hr
      exact ⟨hP s hs, fun s' hst => hP s' (hnext s' hst), fun s' hst => (ih (hrest s' hst) (hnext s' hst)).2⟩

/-! ## 模倣 -/

theorem exec_sim {step' : τ → ι → Option τ} {R : σ → τ → Prop}
    (hstep : ∀ s t l s', R s t → step s l = some s' → ∃ t', step' t l = some t' ∧ R s' t')
    {s s' : σ} {t : τ} {ls : List ι} (hr : R s t) (hrun : exec step s ls = some s') :
    ∃ t', exec step' t ls = some t' ∧ R s' t' := by
  induction ls generalizing s t with
  | nil => cases hrun; exact ⟨t, rfl, hr⟩
  | cons l ls ih =>
      obtain ⟨s₁, h₁, h₂⟩ := exec_cons.mp hrun
      obtain ⟨t₁, ht₁, hr₁⟩ := hstep _ _ _ _ hr h₁
      obtain ⟨t', ht', hr'⟩ := ih hr₁ h₂
      exact ⟨t', exec_cons.mpr ⟨t₁, ht₁, ht'⟩, hr'⟩

/-- `Q` を満たす歩で対応する二つの系は、どの歩も `Q` を満たす実行で対応し続ける。 -/
theorem exec_rel_along {step' : τ → ι → Option τ} {R : σ → τ → Prop}
    (hstep : ∀ s t l, R s t → Q s l → Option.Rel R (step s l) (step' t l)) {s : σ} {t : τ} (h : R s t) {ls : List ι}
    (hQ : Along step Q s ls) : Option.Rel R (exec step s ls) (exec step' t ls) := by
  induction ls generalizing s t with
  | nil => exact .some h
  | cons l ls ih =>
      have hl := hstep s t l h hQ.1
      have hrest := hQ.2
      rw [exec, exec]
      generalize step s l = a at hl hrest ⊢
      generalize step' t l = b at hl ⊢
      cases hl with
      | some hR => exact ih hR (hrest _ rfl)
      | none => exact .none

end IdealX86.Lib
