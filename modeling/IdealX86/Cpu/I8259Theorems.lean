import IdealX86.Cpu.I8259
import IdealX86.Cpu.PicTheorems

/-!
# 割り込みの線の定理

起動の後の二つの 8259 は、どの装置がいつ線を立てても、時計の線だけを CPU に伝える。その振る舞いは、要求とサービス中の二つの値だけを持つ
時計の線と区別できない。
-/

namespace IdealX86

/-! ## 不変条件 -/

/-- 主のコントローラは線 0 と線 2 だけを、従のコントローラはどの線も伝えない。 -/
structure TimerOnly (r : PicRun) : Prop where
  base : r.bus.master.base = 0x20
  imr : r.bus.master.imr = 0xFA
  slave : r.bus.slave.imr = 0xFF
  phase : r.bus.master.phase = .ready
  manualEoi : r.bus.master.autoEoi = false
  isr : ∀ i, i ≠ 0 → r.bus.master.isr i = false
  vectors : ∀ v ∈ r.vectors, v = 0x20

variable {r r' : PicRun} {e : PicEvent}

theorem maskAnd_timer (sh : ShiftOne) : maskAnd sh (0xFF#8 &&& ~~~(1#8 <<< 2)) 0 = 0xFA := by
  refine BitVec.eq_of_getLsbD_eq fun k hk => ?_
  have h : (maskAnd sh (0xFF#8 &&& ~~~(1#8 <<< 2)) 0).getLsbD k = _ := maskAnd_getLsbD _ (n := 0) (by decide) hk
  have hbits : ∀ k : Fin 8, ((0xFF#8 &&& ~~~(1#8 <<< 2)).getLsbD k && !decide (k.val = 0)) =
      (0xFA#8).getLsbD k := by decide
  exact h.trans (hbits ⟨k, hk⟩)

theorem timerOnly_boot (sh : ShiftOne) (b : PicBus) : TimerOnly (PicRun.boot sh b) := by
  have himr : (PicRun.boot sh b).bus.master.imr = maskAnd sh (0xFF#8 &&& ~~~(1#8 <<< 2)) 0 := rfl
  exact ⟨rfl, himr.trans (maskAnd_timer sh), rfl, rfl, rfl, fun _ _ => rfl, by simp [PicRun.boot]⟩

/-! ## 要求 -/

theorem slave_request (h : TimerOnly r) (lines : Fin 8 → Bool) : r.bus.slave.request lines = none := by
  have hmask : ∀ i : Fin 8, r.bus.slave.imr.getLsbD i = true := by rw [h.slave]; decide
  have hnone : ((List.finRange 8).find? fun i => lines i && !r.bus.slave.imr.getLsbD i) = none :=
    List.find?_eq_none.mpr fun i _ => by simp only [hmask]; simp
  rw [I8259.request, hnone]
  rfl

theorem master_request (h : TimerOnly r) : r.bus.master.request r.bus.lines =
    if r.bus.master.irr 0 = true ∧ r.bus.master.isr 0 = false then some 0 else none := by
  have h₂ : r.bus.lines 2 = false := by simp [PicBus.lines, slave_request h]
  have h₀ : r.bus.lines 0 = r.bus.master.irr 0 := rfl
  have hmask : ∀ i : Fin 8, r.bus.master.imr.getLsbD i = !decide (i = 0 ∨ i = 2) := by rw [h.imr]; decide
  have hwant : (fun i => r.bus.lines i && !r.bus.master.imr.getLsbD i) =
      fun i => decide (i = 0) && r.bus.master.irr 0 := by
    funext i
    rw [hmask, Bool.not_not]
    by_cases hi₀ : i = 0
    · subst hi₀; simp [h₀]
    · by_cases hi₂ : i = 2
      · subst hi₂; simp [h₂]
      · simp [hi₀, hi₂]
  -- サービス中になりうるのは線 0 だけである。
  have hserve : (fun j => decide (j ≤ 0) && r.bus.master.isr j) = fun j => decide (j = 0) && r.bus.master.isr 0 := by
    funext j
    by_cases hj : j = 0
    · subst hj; simp
    · simp [hj, h.isr j hj]
  rw [I8259.request, hwant]
  cases r.bus.master.irr 0 with
  | false =>
      have hfind : ((List.finRange 8).find? fun i => decide (i = 0) && false) = none := by decide
      rw [hfind]
      rfl
  | true =>
      have hfind : ((List.finRange 8).find? fun i => decide (i = 0) && true) = some 0 := by decide
      rw [hfind, Option.filter_some, hserve]
      cases r.bus.master.isr 0 <;> simp

/-! ## 一歩 -/

theorem acknowledge_eq (h : TimerOnly r) : r.bus.acknowledge =
    if r.bus.master.irr 0 = true ∧ r.bus.master.isr 0 = false then
      some (0x20, { r.bus with master := r.bus.master.acknowledge 0 }) else none := by
  have hvector : r.bus.master.vector 0 = 0x20 := by simp [I8259.vector, h.base]
  rw [PicBus.acknowledge, master_request h]
  by_cases hp : r.bus.master.irr 0 = true ∧ r.bus.master.isr 0 = false
  · simp [if_pos hp, hvector]
  · simp only [if_neg hp]

theorem clearService_isr (h : TimerOnly r) (i : Fin 8) : r.bus.master.clearService.isr i = false := by
  unfold I8259.clearService
  split
  · rename_i j hj
    have hj₀ : j = 0 := by
      by_contra hne
      have hs := List.find?_some hj
      rw [h.isr j hne] at hs
      cases hs
    subst hj₀
    simp only [Function.update_apply]
    split
    · rfl
    · exact h.isr i ‹_›
  · rename_i hn
    simpa using List.find?_eq_none.mp hn i (List.mem_finRange i)

theorem picSendEoi_timer (b : PicBus) : picSendEoi b 0x20 = { b with master := b.master.clearService } := by
  have hc : b.master.writeCommand PIC_OCW2_EOI = b.master.clearService := rfl
  rw [← hc]
  rfl

theorem clearService_frame (c : I8259) : c.clearService = { c with isr := c.clearService.isr } := by
  unfold I8259.clearService
  split <;> rfl

theorem raise_frame (h : TimerOnly r) (i : Line) : TimerOnly { r with bus := r.bus.raise i } := by
  unfold PicBus.raise
  split
  · exact ⟨h.base, h.imr, h.slave, h.phase, h.manualEoi, h.isr, h.vectors⟩
  · exact ⟨h.base, h.imr, h.slave, h.phase, h.manualEoi, h.isr, h.vectors⟩

theorem TimerOnly.step (h : TimerOnly r) (hst : r.step e = some r') : TimerOnly r' := by
  cases e with
  | raise i => cases hst; exact raise_frame h i
  | acknowledge =>
      simp only [PicRun.step, acknowledge_eq h] at hst
      split at hst
      · cases hst
        refine ⟨h.base, h.imr, h.slave, h.phase, h.manualEoi, fun i hi => ?_, ?_⟩
        · simp only [I8259.acknowledge, h.manualEoi, Bool.false_eq_true, ↓reduceIte]
          rw [Function.update_of_ne hi]; exact h.isr i hi
        · simpa using h.vectors
      · cases hst
  | eoi =>
      cases hst
      rw [picSendEoi_timer]
      refine ⟨?_, ?_, h.slave, ?_, ?_, fun i _ => clearService_isr h i, h.vectors⟩
      · rw [clearService_frame]; exact h.base
      · rw [clearService_frame]; exact h.imr
      · rw [clearService_frame]; exact h.phase
      · rw [clearService_frame]; exact h.manualEoi

theorem raise_timer (r : PicRun) (i : Line) :
    PicRun.timer { r with bus := r.bus.raise i } = if i = 0 then { r.timer with pending := true } else r.timer := by
  unfold PicRun.timer PicBus.raise
  split
  · rename_i hi
    by_cases h₀ : i = 0
    · subst h₀; simp
    · have hne : (0 : Fin 8) ≠ ⟨i.val, hi⟩ := fun he => h₀ (Fin.ext (congrArg Fin.val he).symm)
      simp [h₀, hne]
  · rename_i hi
    have h₀ : i ≠ 0 := by rintro rfl; exact hi (by decide)
    simp [h₀]

/-- 二つの 8259 の一歩は、時計の線の一歩である。 -/
theorem timer_step (h : TimerOnly r) (e : PicEvent) : (r.step e).map PicRun.timer = r.timer.step e := by
  cases e with
  | raise i => simp only [PicRun.step, Option.map_some, raise_timer, TimerLine.step]
  | acknowledge =>
      simp only [PicRun.step, acknowledge_eq h, TimerLine.step]
      by_cases hp : r.bus.master.irr 0 = true ∧ r.bus.master.isr 0 = false
      · simp [hp, PicRun.timer, I8259.acknowledge, h.manualEoi]
      · simp [hp, PicRun.timer]
  | eoi =>
      simp only [PicRun.step, Option.map_some, TimerLine.step, picSendEoi_timer, PicRun.timer, clearService_isr h]
      rw [clearService_frame]

/-! ## すべての実行 -/

/-- 前の状態がどうであっても、`init_pic` と `irq_enable(IRQ0_TIMER)` の後の二つの 8259 は、装置がどの線をいつ立てても、時計の線だけの系と
同じに振る舞い、CPU の受け取る番号は `IRQ0_TIMER` だけである。受け取った割り込みは `pic_send_eoi` までは重ねて伝えられず、その後の要求は
必ず伝えられる。 -/
theorem pic_refines_timerLine (sh : ShiftOne) (b : PicBus) (es : List PicEvent) :
    (Lib.exec PicRun.step (.boot sh b) es).map PicRun.timer =
        Lib.exec TimerLine.step (PicRun.boot sh b).timer es ∧
      (PicRun.boot sh b).timer = ⟨false, false, 0⟩ ∧
      ∀ r, Lib.exec PicRun.step (.boot sh b) es = some r → ∀ v ∈ r.vectors, v = 0x20 := by
  have hall : ∀ (es : List PicEvent) (r : PicRun), TimerOnly r →
      (Lib.exec PicRun.step r es).map PicRun.timer = Lib.exec TimerLine.step r.timer es := by
    intro es
    induction es with
    | nil => intro r _; rfl
    | cons e es ih =>
        intro r h
        rw [Lib.exec, Lib.exec, ← timer_step h e]
        cases hst : r.step e with
        | none => rfl
        | some r' => exact ih r' (h.step hst)
  refine ⟨hall es _ (timerOnly_boot sh b), rfl, fun r hr => ?_⟩
  exact (Lib.exec_invariant (I := TimerOnly) (fun _ _ _ h hst => h.step hst) hr (timerOnly_boot sh b)).vectors

end IdealX86
