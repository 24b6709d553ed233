import IdealX86.Machine.Lemmas.Line
import IdealX86.Machine.SchedTheorems

/-!
# ログの行

`log_printf` の行が分かれずに出力されるための条件を示す。`log_mutex` は持ち主が重ねて取れるので、行の途中で時間片が尽きると、
割り込みの中の `log_printf` は待たずに通り、その行が途中に入り込む。
-/

namespace IdealX86.Console

/-- 時間片の尽きる割り込みが、行の途中に来る。 -/
def cutsLine (c : Console Heap) : ConsoleLabel → Bool
  | .tick => c.interruptible && decide ((c.kernel.tasks c.curr).sliceTicks = 1) &&
      decide (written (c.rest c.curr) ≠ [])
  | _ => false

/-- 出力は、`log_printf` の別々の呼び出しの行を、一つずつ並べたものである。書きかけの行のあるタスクがいる間だけ、最後の行は途中でも
よい。 -/
def Atomic (c : Console Heap) : Prop := Lined c.issued (∃ t, written (c.rest t) ≠ []) c.out

variable {c c' : Console Heap} {d : Console Queues} {l : ConsoleLabel}

theorem Sim.atomic (h : Sim c d) (hd : d.LineInv) (hw : d.Woven) : c.Atomic := by
  unfold Atomic
  rw [h.issued, h.rest, h.out]
  exact hd.atomic hw

theorem Sim.lineInv (h : Sim c d) (hd : d.Inv) (hl : d.LineInv) (hw : d.Woven) (hq : c.cutsLine l = false)
    (hst : c.step l = some c') : ∃ d', Sim c' d' ∧ d'.Inv ∧ d'.LineInv ∧ d'.Woven := by
  obtain ⟨d', hst', hs'⟩ := h.step hd hst
  refine ⟨d', hs', (step_cases hst').inv hd, (step_cases hst').lineInv hd hl ?_, (step_cases hst').woven hw⟩
  rintro rfl hend
  have hi : c.interruptible = true := by
    by_contra hi
    simp [Console.step, hi] at hst
  simp only [Kernel.sliceEnds, decide_eq_true_eq, ← h.kernel.tasks, ← h.kernel.currTask] at hend
  simpa [cutsLine, hi, show (c.kernel.tasks c.curr).sliceTicks = 1 by simp only [Console.curr]; omega,
    h.restCurr] using hq

/-- 時間片の尽きる割り込みが行の途中に一度も来ない実行では、どの状態でも、出力は行を並べたものである。 -/
theorem atomic_always (node : Node → Lib.Link Node) (b : BootArgs) (ls : List ConsoleLabel)
    (h : Lib.countAlong Console.step cutsLine (Console.boot (Heap.empty node) b) ls = 0) :
    Lib.Always Console.step Atomic (Console.boot (Heap.empty node) b) ls := by
  refine Lib.always_of_along (I := fun c => ∃ d, Sim c d ∧ d.Inv ∧ d.LineInv ∧ d.Woven) ?_ ?_
    (Lib.along_of_countAlong_eq_zero h) ⟨_, sim_boot b node, inv_boot b, lineInv_boot b, woven_boot _ b⟩
  · rintro c ⟨d, hs, -, hl, hw⟩
    exact hs.atomic hl hw
  · rintro c l c' ⟨d, hs, hd, hl, hw⟩ hq hst
    exact hs.lineInv hd hl hw hq hst

def tickRuns (n : Nat) : List ConsoleLabel := (List.replicate n [.tick, .run]).flatten

/-- 最初のタスクが、`log_mutex` を取ってから一バイトも書かないうちに時間片を使い切る。切り替わった先のタスクは `log_mutex` を
待ち、最初のタスクが書き終わってから自分の行を書く。 -/
def contendRun : List ConsoleLabel :=
  .initStart 3 ⟨0, 0, fun _ => 0⟩ :: List.replicate 13 .initStep ++ tickRuns 9 ++
    [.printf (bytesOf "ab"), .run, .run, .tick] ++ List.replicate 67 .run ++
    [.printf (bytesOf "c"), .run, .run] ++ List.replicate 30 .run ++
    [.call .sysSchedYield] ++ List.replicate 28 .run

theorem atomic_always_contended :
    (Lib.exec Console.step (Console.boot (Heap.empty fun _ => ⟨none, none⟩) .zero) contendRun).isSome = true ∧
      Lib.Always Console.step Atomic (Console.boot (Heap.empty fun _ => ⟨none, none⟩) .zero) contendRun :=
  ⟨by decide +kernel, atomic_always _ _ _ (by decide +kernel)⟩

/-- 最初のタスクが `"ab"` の `a` を書いたところで、時間片の尽きる割り込みが来る。 -/
def cutRun : List ConsoleLabel :=
  tickRuns 9 ++ [.printf (bytesOf "ab"), .run, .run, .run, .tick] ++ List.replicate 72 .run

/-- 割り込みの行が `"ab"` の途中に入る。 -/
theorem sliceEnd_cuts_line :
    ∃ c, Lib.exec Console.step (Console.boot (Heap.empty fun _ => ⟨none, none⟩) .zero) cutRun = some c ∧
      c.sent = bytesOf "a" ++ logLine sliceEndText ++ bytesOf "b\r\n" ∧ ¬ c.Atomic := by
  obtain ⟨c, hc, hp⟩ := Option.any_eq_true _ _ |>.mp
    (show (Lib.exec Console.step (Console.boot (Heap.empty fun _ => ⟨none, none⟩) .zero) cutRun).any
      (fun c => c.sent == bytesOf "a" ++ logLine sliceEndText ++ bytesOf "b\r\n" &&
        c.issued == [sliceEndText, bytesOf "ab"]) = true by decide +kernel)
  simp only [Bool.and_eq_true, beq_iff_eq] at hp
  refine ⟨c, hc, hp.1, fun ha => ?_⟩
  have hne : c.out ≠ [] := fun hnil => by
    have hsent := hp.1
    rw [sent, hnil] at hsent
    exact absurd hsent (by decide +kernel)
  obtain ⟨m, hm, hpre⟩ := Lined.head ha hne
  change logLine m <+: c.sent ∨ c.sent <+: logLine m at hpre
  rw [hp.1] at hpre
  rw [hp.2] at hm
  have hnot : ∀ m ∈ [sliceEndText, bytesOf "ab"],
      ¬ (logLine m <+: bytesOf "a" ++ logLine sliceEndText ++ bytesOf "b\r\n" ∨
        bytesOf "a" ++ logLine sliceEndText ++ bytesOf "b\r\n" <+: logLine m) := by decide +kernel
  exact hnot m hm hpre

end IdealX86.Console
