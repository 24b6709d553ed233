import IdealX86.Machine.LogTheorems

/-!
# シリアルポートへの出力

行が途中で分かれても、書くべきバイトは失われず、二度書かれず、行の中の順序も変わらないことを示す。
-/

namespace IdealX86.Console

variable {node : Node → Lib.Link Node} {b : BootArgs} {ls : List ConsoleLabel} {c : Console Heap}

theorem woven_of_exec (h : Lib.exec Console.step (Console.boot (Heap.empty node) b) ls = some c) : c.Woven :=
  Lib.exec_invariant (I := Woven) (fun _ _ _ h hst => (step_cases hst).woven h) h (woven_boot _ b)

theorem Woven.perm {σ : Type} {c : Console σ} (h : c.Woven) (hopen : ∀ t, openLines (c.rest t) = []) :
    c.sent.Perm (logLines c.issued.reverse) := by
  have hids : ∀ t i, i ∉ openIds (c.rest t) := fun t i hi => by
    rw [openIds, hopen t] at hi
    cases hi
  have hparts : (List.range c.issued.length).map (Lib.part c.out) = c.issued.reverse.map logLine := by
    refine List.ext_getElem (by simp) fun i hi _ => ?_
    have hlt : i < c.issued.length := by simpa using hi
    simp [h.complete i hlt fun t => hids t i, lineOf, List.getD_eq_getElem?_getD, hlt]
  have hlines : logLines c.issued.reverse = (List.range c.issued.length).flatMap (Lib.part c.out) := by
    rw [logLines, ← hparts, List.flatMap_def]
  rw [hlines]
  exact (Lib.perm_flatMap_part h.tags).symm

/-- 起動からのどの実行でも、出力は、`log_printf` に渡されたメッセージの行を混ぜ合わせたものである。割り込みが行の途中に入っても、
どの行のバイトも順序どおりに一度ずつ書かれ、まだ書かれていない残りは、ちょうど一つのタスクの残りのコードの中にある。書いている途中の
行がなければ、出力は、渡されたすべての行のバイトを並べ替えたものである。 -/
theorem output_of_exec (h : Lib.exec Console.step (Console.boot (Heap.empty node) b) ls = some c) :
    c.Woven ∧ ((∀ t, openLines (c.rest t) = []) → c.sent.Perm (logLines c.issued.reverse)) :=
  ⟨woven_of_exec h, (woven_of_exec h).perm⟩

/-- 行が途中で分かれる実行でも、書き終えた後の出力は、二つの行のバイトを並べ替えたものである。 -/
theorem output_of_exec_cut :
    ∃ c, Lib.exec Console.step (Console.boot (Heap.empty fun _ => ⟨none, none⟩) .zero) cutRun = some c ∧
      c.Woven ∧ ((∀ t, openLines (c.rest t) = []) →
        c.sent.Perm (logLines [bytesOf "ab", sliceEndText])) := by
  obtain ⟨c, hc, hp⟩ := Option.any_eq_true _ _ |>.mp
    (show (Lib.exec Console.step (Console.boot (Heap.empty fun _ => ⟨none, none⟩) .zero) cutRun).any
      (fun c => c.issued == [sliceEndText, bytesOf "ab"]) = true by decide +kernel)
  obtain ⟨hw, hperm⟩ := output_of_exec hc
  rw [beq_iff_eq.mp hp] at hperm
  exact ⟨c, hc, hw, hperm⟩

end IdealX86.Console
