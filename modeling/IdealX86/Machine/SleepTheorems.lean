import IdealX86.Machine.FairTheorems
import IdealX86.Machine.Lemmas.Sleep

/-!
# 睡眠の長さ

`sys_sleep` を呼んだタスクが、計算した回数の割り込みでちょうど `ready_list` に戻るための条件を示す。割り込みの前半で切り替わると
`sleep_list` をたどる後半が残り、別の時に実行されるので、戻る時もずれる。
-/

namespace IdealX86.Machine

variable {node : Node → Lib.Link Node} {b : BootArgs} {ls : List Label} {c c' c₁ c₂ c₃ : Machine Heap}
  {d : Machine Queues} {l : Label} {t : TaskId} {r : Int}

/-- この状態の割り込みは、前半で切り替わる。今のタスクの時間片が尽き、ほかにも `ready_list` にタスクがあるときである。 -/
def splits (c : Machine Heap) : Bool :=
  (c.kernel.tasks c.curr).sliceTicks = 1 ∧ 1 < c.kernel.lists.listCount .ready

def splitsTick (c : Machine Heap) (l : Label) : Bool := l.isTick && c.splits

def resumesTick (c : Machine Heap) : Label → Bool
  | .resume => c.susp c.curr = some .tickSlice
  | _ => false

def walksSleep (c : Machine Heap) (l : Label) : Bool := (l.isTick && !c.splits) || c.resumesTick l

/-- `t` は `pre` の間ずっと `sleep_list` にあり、次の割り込みの後の `c₃` では `ready_list` にある。 -/
def WakesInTick (t : TaskId) (c₁ : Machine Heap) (pre : List Label) (c₃ : Machine Heap) : Prop :=
  Lib.Always Machine.step (fun c => t ∈ c.tasksOf .sleep) c₁ pre ∧ t ∈ c₃.tasksOf .ready

/-! ## 抽象の機械との対応 -/

theorem Sim.splits_iff (h : Sim c d) :
    c.splits = true ↔ d.kernel.sliceEnds = true ∧ 1 < d.kernel.lists.ready.length := by
  have hc : c.kernel.lists.listCount .ready = (d.kernel.lists.ready.length : Int) := h.kernel.count_eq .ready
  simp only [splits, Kernel.sliceEnds, h.kernel.tasks, Machine.curr, h.kernel.currTask, hc, decide_eq_true_eq]
  omega

theorem Sim.walksSleep_iff (h : Sim c d) (hd : d.Inv) (l : Label) : c.walksSleep l = true ↔ d.Walks l := by
  have hs := h.splits_iff
  have ht := hd.kernel.tickSlice_currTask
  rw [← hs] at ht
  cases l with
  | tick => simp [walksSleep, Label.isTick, resumesTick, Walks, ht]
  | resume => simp [walksSleep, Label.isTick, resumesTick, Walks, h.susp, h.curr]
  | _ => simp [walksSleep, Label.isTick, resumesTick, Walks]

/-- 後半の実行の数は、割り込みの数から、切り替わって残した分を引き、残りを実行した分を足したものである。 -/
theorem walks_add_splits (hrun : Lib.exec Machine.step c ls = some c') :
    Lib.countAlong Machine.step walksSleep c ls + Lib.countAlong Machine.step splitsTick c ls =
      ticks ls + Lib.countAlong Machine.step resumesTick c ls := by
  induction ls generalizing c with
  | nil => rfl
  | cons l ls ih =>
      obtain ⟨c₁, h₁, h₂⟩ := Lib.exec_cons.mp hrun
      have hi := ih h₂
      rw [Lib.countAlong_cons h₁, Lib.countAlong_cons h₁, Lib.countAlong_cons h₁, ticks_cons]
      cases l with
      | tick => cases hs : c.splits <;> simp [walksSleep, splitsTick, resumesTick, Label.isTick, hs] <;> omega
      | resume => simp only [walksSleep, splitsTick, Label.isTick]; simp; omega
      | _ => simp [walksSleep, splitsTick, resumesTick, Label.isTick]; omega

/-! ## 数え下げの実行 -/

theorem Sim.asleep_exec (hs : Sim c d) (hd : d.Inv) (ht : d.kernel.Asleep t r) (hr : 1 ≤ r)
    (hrun : Lib.exec Machine.step c ls = some c') :
    (Lib.Always Machine.step (fun c => t ∈ c.tasksOf .sleep) c ls ↔
      (Lib.countAlong Machine.step walksSleep c ls : Int) < r) ∧
    ((Lib.countAlong Machine.step walksSleep c ls : Int) < r → ∃ d', Sim c' d' ∧ d'.Inv ∧
      d'.kernel.Asleep t (r - Lib.countAlong Machine.step walksSleep c ls)) := by
  induction ls generalizing c d r with
  | nil =>
      obtain rfl : c = c' := Option.some.inj hrun
      have hm : t ∈ c.tasksOf .sleep := by rw [hs.tasksOf_eq]; exact ht.mem
      refine ⟨⟨fun _ => by simp [Lib.countAlong]; omega, fun _ => ⟨hm, trivial⟩⟩, fun _ => ⟨d, hs, hd, ?_⟩⟩
      simpa [Lib.countAlong] using ht
  | cons l ls ih =>
      obtain ⟨c₁, h₁, h₂⟩ := Lib.exec_cons.mp hrun
      obtain ⟨d₁, hst₁, hs₁⟩ := hs.step hd h₁
      have hd₁ := hd.step hst₁
      have hm : t ∈ c.tasksOf .sleep := by rw [hs.tasksOf_eq]; exact ht.mem
      rw [Lib.always_cons h₁, Lib.countAlong_cons h₁]
      by_cases hw : c.walksSleep l = true
      · have hstep := (step_cases hst₁).asleep_walks hd ht ((hs.walksSleep_iff hd l).mp hw)
        rw [if_pos hw]
        by_cases h1 : r = 1
        · -- 最後の一回。`ready_list` に移るので、ここで `sleep_list` から外れる。
          rw [if_pos h1] at hstep
          have hn : t ∉ c₁.tasksOf .sleep := by
            rw [hs₁.tasksOf_eq]
            intro hm'
            cases hd₁.kernel.placed.once .sleep .ready t (by simp) (by simp) hm' hstep
          refine ⟨⟨fun h => absurd h.2.1 hn, fun h => ?_⟩, fun h => ?_⟩ <;> (exfalso; push_cast at h; omega)
        · rw [if_neg h1] at hstep
          obtain ⟨h₃, h₄⟩ := ih hs₁ hd₁ hstep (by omega) h₂
          refine ⟨⟨fun h => ?_, fun h => ⟨hm, h₃.mpr (by push_cast at h; omega)⟩⟩, fun h => ?_⟩
          · have := h₃.mp h.2; push_cast; omega
          · obtain ⟨d', h₅, h₆, h₇⟩ := h₄ (by push_cast at h; omega)
            refine ⟨d', h₅, h₆, ?_⟩
            push_cast
            rwa [show r - (1 + (Lib.countAlong Machine.step walksSleep c₁ ls : Int)) =
              r - 1 - Lib.countAlong Machine.step walksSleep c₁ ls by omega]
      · have hstep := (step_cases hst₁).asleep_of_not_walks hd ht (fun h => hw ((hs.walksSleep_iff hd l).mpr h))
        obtain ⟨h₃, h₄⟩ := ih hs₁ hd₁ hstep hr h₂
        rw [if_neg hw, Nat.zero_add]
        exact ⟨⟨fun h => h₃.mp h.2, fun h => ⟨hm, h₃.mpr h⟩⟩, h₄⟩

theorem Sim.asleep_tick (hs : Sim c d) (hd : d.Inv) (ht : d.kernel.Asleep t r)
    (hst : c.step .tick = some c') : t ∈ c'.tasksOf .ready ↔ r = 1 ∧ c.splits = false := by
  obtain ⟨d', hst', hs'⟩ := hs.step hd hst
  have hd' := hd.step hst'
  have hw := hs.walksSleep_iff hd .tick
  have hasleep : ∀ {r}, d'.kernel.Asleep t r → t ∉ d'.kernel.lists.ready := fun ha hr => by
    cases hd'.kernel.placed.once .sleep .ready t (by simp) (by simp) ha.mem hr
  rw [hs'.tasksOf_eq, Queues.seq_ready]
  cases hsp : c.splits with
  | false =>
      have hstep := (step_cases hst').asleep_walks hd ht (hw.mp (by simp [walksSleep, Label.isTick, hsp]))
      by_cases h1 : r = 1
      · rw [if_pos h1] at hstep; simp [h1, hstep]
      · rw [if_neg h1] at hstep; simp [h1, hasleep hstep]
  | true =>
      have hn : ¬ d.Walks .tick := fun h => by
        have := hw.mpr h
        simp [walksSleep, Label.isTick, hsp, resumesTick] at this
      simp [hasleep ((step_cases hst').asleep_of_not_walks hd ht hn)]

/-! ## ちょうどの長さ -/

/-- 到達できるどの状態からも、`sys_sleep` を呼んだタスクが計算した回数 `n` の割り込みでちょうど戻ることは、`n` 回目の割り込みの
前に、切り替わって残った後半と実行された残りの後半が同じ数で、`n` 回目の割り込みが切り替わらないことと同値である。 -/
theorem sysSleep_exact_iff (h : Reaches node b ls c) {ms : UInt32} (hz : Kernel.sleepTicks ms ≠ 0)
    (hst : c.step (.call (.sysSleep ms)) = some c₁) {pre : List Label}
    (hrun : Lib.exec Machine.step c₁ pre = some c₂) (hn : ticks pre + 1 = (Kernel.sleepTicks ms).toNat)
    (hlast : c₂.step .tick = some c₃) :
    WakesInTick c.curr c₁ pre c₃ ↔
      Lib.countAlong Machine.step splitsTick c₁ pre = Lib.countAlong Machine.step resumesTick c₁ pre ∧
        c₂.splits = false := by
  obtain ⟨d, -, hs, hd⟩ := h.sim
  obtain ⟨d₁, hst₁, hs₁⟩ := hs.step hd hst
  have hd₁ := hd.step hst₁
  have hasleep : d₁.kernel.Asleep c.curr (Kernel.sleepTicks ms).toNat := by
    cases step_cases hst₁ with
    | call x hsu ho hi =>
        rw [doCall_kernel, hs.curr]
        exact hd.kernel.sysSleep_asleep hi hz
  obtain ⟨ha, hb⟩ := hs₁.asleep_exec hd₁ hasleep (by omega) hrun
  have hcount := walks_add_splits hrun
  unfold WakesInTick
  rw [ha]
  constructor
  · rintro ⟨hlt, hr⟩
    obtain ⟨d₂, hs₂, hd₂, ha₂⟩ := hb hlt
    obtain ⟨h1, hsp⟩ := (hs₂.asleep_tick hd₂ ha₂ hlast).mp hr
    exact ⟨by omega, hsp⟩
  · rintro ⟨he, hsp⟩
    have hlt : (Lib.countAlong Machine.step walksSleep c₁ pre : Int) < (Kernel.sleepTicks ms).toNat := by omega
    obtain ⟨d₂, hs₂, hd₂, ha₂⟩ := hb hlt
    exact ⟨hlt, (hs₂.asleep_tick hd₂ ha₂ hlast).mpr ⟨by omega, hsp⟩⟩

theorem sysSleep_exact_alone :
    ∃ c c₁ c₂ c₃, Reaches (fun _ => ⟨none, none⟩) .zero [] c ∧
      c.step (.call (.sysSleep 20)) = some c₁ ∧ Lib.exec Machine.step c₁ [.tick] = some c₂ ∧
      c₂.step .tick = some c₃ ∧ WakesInTick c.curr c₁ [.tick] c₃ := by
  obtain ⟨c₁, h₁, hp₁⟩ := Option.any_eq_true _ _ |>.mp
    (show ((Machine.boot (Heap.empty fun _ => ⟨none, none⟩) .zero).step (.call (.sysSleep 20))).any
      (fun c₁ => (Lib.exec Machine.step c₁ [.tick]).any fun c₂ => (c₂.step .tick).isSome && !c₂.splits &&
        Lib.countAlong Machine.step splitsTick c₁ [.tick] ==
          Lib.countAlong Machine.step resumesTick c₁ [.tick]) = true by decide +kernel)
  obtain ⟨c₂, h₂, hp₂⟩ := Option.any_eq_true _ _ |>.mp hp₁
  simp only [Bool.and_eq_true, Bool.not_eq_true', beq_iff_eq] at hp₂
  obtain ⟨⟨hsome, hsp⟩, hc⟩ := hp₂
  obtain ⟨c₃, h₃⟩ := Option.isSome_iff_exists.mp hsome
  have hb : Reaches (fun _ => ⟨none, none⟩) .zero [] (Machine.boot (Heap.empty fun _ => ⟨none, none⟩) .zero) := rfl
  exact ⟨_, c₁, c₂, c₃, hb, h₁, h₂, h₃, (sysSleep_exact_iff hb (by decide) h₁ h₂ rfl h₃).mpr ⟨hc, hsp⟩⟩

/-- 十回目の割り込みで最初のタスクの時間片が尽き、切り替わった先のタスクが `sys_sleep(10)` を呼ぶ。残っていた後半が数え下げるので、
割り込みが一度も起こらないうちに `ready_list` に戻る。 -/
theorem sysSleep_wakes_without_tick :
    ∃ c c₁ c₂ c₃, Reaches (fun _ => ⟨none, none⟩) .zero (initRun 3 13 ++ List.replicate 10 .tick) c ∧
      c.curr = 3 ∧ c.step (.call (.sysSleep 10)) = some c₁ ∧
      Lib.exec Machine.step c₁ [.resume] = some c₂ ∧ 3 ∈ c₂.tasksOf .ready ∧
      ticks [.resume] + 1 = (Kernel.sleepTicks 10).toNat ∧ c₂.step .tick = some c₃ ∧
      ¬ WakesInTick 3 c₁ [.resume] c₃ := by
  obtain ⟨c, h, hp⟩ := Option.any_eq_true _ _ |>.mp
    (show (Lib.exec Machine.step (Machine.boot (Heap.empty fun _ => ⟨none, none⟩) .zero)
      (initRun 3 13 ++ List.replicate 10 .tick)).any (fun c => c.curr == 3 &&
        (c.step (.call (.sysSleep 10))).any fun c₁ => (c₁.step .resume).any fun c₂ =>
          (c₂.step .tick).isSome && decide (3 ∈ c₂.tasksOf .ready) && decide (3 ∉ c₂.tasksOf .sleep)) = true
      by decide +kernel)
  simp only [Bool.and_eq_true, beq_iff_eq] at hp
  obtain ⟨hcurr, hp⟩ := hp
  obtain ⟨c₁, h₁, hp₁⟩ := Option.any_eq_true _ _ |>.mp hp
  obtain ⟨c₂, h₂, hp₂⟩ := Option.any_eq_true _ _ |>.mp hp₁
  simp only [Bool.and_eq_true, decide_eq_true_eq] at hp₂
  obtain ⟨⟨hsome, hr⟩, hsl⟩ := hp₂
  obtain ⟨c₃, h₃⟩ := Option.isSome_iff_exists.mp hsome
  have h₂' : Lib.exec Machine.step c₁ [.resume] = some c₂ := Lib.exec_cons.mpr ⟨c₂, h₂, rfl⟩
  refine ⟨c, c₁, c₂, c₃, h, hcurr, h₁, h₂', hr, rfl, h₃, fun hw => ?_⟩
  exact hsl ((Lib.always_cons h₂).mp hw.1).2.1

end IdealX86.Machine
