import Mathlib.Tactic.Common

/-!
# 状態を読みながら待つこと

読むたびに変わる状態について、読んだ値が条件を満たすまで読み続ける `while` を表す。装置の種類は問わない。
-/

namespace IdealX86.Lib

variable {σ β : Type*} (read : σ → β × σ) (ready : β → Bool)

/-- 高々 `fuel` 回読む。条件を満たす値を読んだ直後の状態を返す。 -/
def poll : Nat → σ → Option σ
  | 0, _ => none
  | fuel + 1, s => if ready (read s).1 then some (read s).2 else poll fuel (read s).2

/-- `s` から読み続けると、ちょうど `n` 回は条件を満たさず、その次に満たして `s'` になる。 -/
inductive ReadyAfter : Nat → σ → σ → Prop where
  | now {s : σ} (h : ready (read s).1 = true) : ReadyAfter 0 s (read s).2
  | later {s s' : σ} {n : Nat} (h : ready (read s).1 = false) (rest : ReadyAfter n (read s).2 s') :
      ReadyAfter (n + 1) s s'

variable {read ready} {s s' : σ} {n fuel : Nat}

theorem ReadyAfter.poll (h : ReadyAfter read ready n s s') (hf : n < fuel) : poll read ready fuel s = some s' := by
  induction h generalizing fuel with
  | now h =>
      obtain ⟨fuel, rfl⟩ : ∃ f, fuel = f + 1 := ⟨fuel - 1, by omega⟩
      rw [Lib.poll, if_pos h]
  | later h _ ih =>
      obtain ⟨fuel, rfl⟩ : ∃ f, fuel = f + 1 := ⟨fuel - 1, by omega⟩
      rw [Lib.poll, if_neg (by simp [h])]
      exact ih (by omega)

theorem readyAfter_of_poll (h : poll read ready fuel s = some s') : ∃ n, ReadyAfter read ready n s s' := by
  induction fuel generalizing s with
  | zero => cases h
  | succ fuel ih =>
      rw [poll] at h
      split at h
      next hr => cases h; exact ⟨0, .now hr⟩
      next hr =>
          obtain ⟨n, hn⟩ := ih h
          exact ⟨n + 1, .later (by simpa using hr) hn⟩

theorem ReadyAfter.unique {m : Nat} {s'' : σ} (h : ReadyAfter read ready n s s') (h' : ReadyAfter read ready m s s'') :
    s' = s'' := by
  have := (h.poll (Nat.lt_succ_of_le (Nat.le_max_left n m))).symm.trans
    (h'.poll (Nat.lt_succ_of_le (Nat.le_max_right n m)))
  exact Option.some.inj this

theorem ReadyAfter.poll_eq_some (h : ReadyAfter read ready n s s') {s'' : σ} (hp : Lib.poll read ready fuel s = some s'') :
    s'' = s' := by
  obtain ⟨m, hm⟩ := readyAfter_of_poll hp
  exact hm.unique h

/-- 条件を満たさない値だけを読む状態からは、待ちは終わらない。 -/
theorem poll_eq_none {I : σ → Prop} (hI : ∀ s, I s → ready (read s).1 = false ∧ I (read s).2) (hs : I s) :
    poll read ready fuel s = none := by
  induction fuel generalizing s with
  | zero => rfl
  | succ fuel ih =>
      obtain ⟨hr, hnext⟩ := hI s hs
      rw [poll, if_neg (by simp [hr])]
      exact ih hnext

end IdealX86.Lib
