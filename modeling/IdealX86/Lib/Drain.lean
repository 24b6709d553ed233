import IdealX86.Lib.Run

/-!
# 先読みの模倣

細かい系の一続きの遷移が、粗い系の一つの遷移に当たるとき、粗い系は一続きの初めに遷移し、細かい系は後から追いつく。追いつくまでの
あいだ細かい系は決まったラベルの遷移しかできない、という系の模倣をまとめる。どの系にも依存しない。
-/

namespace IdealX86.Lib

variable {σ τ ι κ : Type*} {step : σ → ι → Option σ} {step' : τ → κ → Option τ} {l₀ : ι} {busy R R' : σ → Prop}

/-- `busy` な状態だけを通って、`l₀` の遷移を何度かすると、`R` が成り立つ。 -/
inductive Drains (step : σ → ι → Option σ) (l₀ : ι) (busy R : σ → Prop) : σ → Prop where
  | now {s : σ} (h : R s) : Drains step l₀ busy R s
  | later {s s' : σ} (hb : busy s) (hst : step s l₀ = some s') (rest : Drains step l₀ busy R s') :
      Drains step l₀ busy R s

theorem Drains.mono (hR : ∀ s, R s → R' s) {s : σ} (h : Drains step l₀ busy R s) : Drains step l₀ busy R' s := by
  induction h with
  | now h => exact .now (hR _ h)
  | later hb hst _ ih => exact .later hb hst ih

/-- 追いついていない状態では、粗い系は動かない。追いついた状態での遷移だけを模倣すれば、実行の全体が模倣される。 -/
theorem exec_drains {R : σ → τ → Prop} (hbusy : ∀ s l s', busy s → step s l = some s' → l = l₀)
    (hstep : ∀ s t l s', R s t → step s l = some s' →
      ∃ ls' t', exec step' t ls' = some t' ∧ Drains step l₀ busy (R · t') s')
    {s s' : σ} {t : τ} {ls : List ι} (h : Drains step l₀ busy (R · t) s) (hrun : exec step s ls = some s') :
    ∃ ls' t', exec step' t ls' = some t' ∧ Drains step l₀ busy (R · t') s' := by
  induction ls generalizing s t with
  | nil => cases hrun; exact ⟨[], t, rfl, h⟩
  | cons l ls ih =>
      obtain ⟨s₁, h₁, h₂⟩ := exec_cons.mp hrun
      cases h with
      | now hR =>
          obtain ⟨ls₁, t₁, ht₁, hd⟩ := hstep _ _ _ _ hR h₁
          obtain ⟨ls₂, t₂, ht₂, hd'⟩ := ih hd h₂
          exact ⟨ls₁ ++ ls₂, t₂, exec_append ht₁ ht₂, hd'⟩
      | later hb hst rest =>
          obtain rfl := hbusy _ _ _ hb h₁
          rw [h₁] at hst
          cases hst
          exact ih rest h₂

theorem Drains.of_not_busy {s : σ} (h : Drains step l₀ busy R s) (hb : ¬ busy s) : R s := by
  cases h with
  | now hR => exact hR
  | later h _ _ => exact absurd h hb

end IdealX86.Lib
