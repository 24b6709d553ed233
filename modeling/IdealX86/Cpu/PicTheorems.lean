import IdealX86.Cpu.Pic
import IdealX86.Lib.Run

/-!
# 割り込みのマスクの定理

`irq_enable` は 8 以上の線のマスクを主のコントローラに書き、`irq_disable` は求められた線のほかをすべて閉じる。
マスクが最後の要求に従うのは、主のコントローラの線を開く呼び出しだけを行うときである。
-/

namespace IdealX86

variable {sh : ShiftOne} {s s' : Pic} {c : IrqCall} {p : Ports}

namespace Pic

/-- どの線のマスクも、最後の要求に従っている。 -/
def Follows (s : Pic) : Prop := ∀ i, unmasked s.ports i = s.requested i

/-- 呼び出しの後も最後の要求に従っていて、ほかの線のマスクは変わらない。 -/
def FollowsAt (sh : ShiftOne) (s : Pic) (c : IrqCall) : Prop :=
  ∀ s', s.step sh c = some s' → s'.Follows ∧ ∀ i ≠ c.line, unmasked s'.ports i = unmasked s.ports i

/-- 主のコントローラの線を開く呼び出し。 -/
def EnablesMaster (c : IrqCall) : Prop := ∃ i : Line, i.val < 8 ∧ c = .enable i

/-- 従のコントローラはすべて閉じていて、主のコントローラの線 2 は開いている。 -/
structure Inv (s : Pic) : Prop where
  follows : s.Follows
  slave : s.ports PIC1_IMR = BitVec.allOnes 8
  cascade : unmasked s.ports 2 = true

theorem Inv.init (p : Ports) : (Pic.init p).Inv where
  follows _ := rfl
  slave := rfl
  cascade := by simp [unmasked, Pic.init, initPic, outb, PIC0_IMR, PIC1_IMR]

end Pic

/-! ## 一回の呼び出し -/

theorem ShiftOne.not_val_getLsbD (sh : ShiftOne) {n k : Nat} (hn : n < 8) (hk : k < 8) :
    (~~~sh.val n).getLsbD k = !decide (k = n) := by
  rw [sh.val_natCast n (by omega)]
  simp only [BitVec.getLsbD_not, BitVec.getLsbD_shiftLeft, BitVec.getLsbD_one]
  by_cases h : k < n
  · simp [h, show k < 32 by omega, show k ≠ n by omega]
  · by_cases he : k = n
    · simp [he, show n < 32 by omega]
    · simp [h, he, show k < 32 by omega, show k - n ≠ 0 by omega]

theorem maskAnd_getLsbD (v : Byte) {n k : Nat} (hn : n < 8) (hk : k < 8) :
    (maskAnd sh v n).getLsbD k = (v.getLsbD k && !decide (k = n)) := by
  simp only [maskAnd, BitVec.getLsbD_setWidth, BitVec.getLsbD_and, sh.not_val_getLsbD hn hk]
  simp [hk, show k < 32 by omega]

/-- 開いている線 `k` は、`k` を閉じる呼び出しの後も開いたままで、ほかの線を閉じる呼び出しで閉じる。 -/
theorem maskOr_getLsbD (sh : ShiftOne) (v : Byte) {n k : Nat} (hn : n < 8) (hk : k < 8) :
    (maskOr sh v n).getLsbD k = (v.getLsbD k || !decide (k = n)) := by
  simp only [maskOr, BitVec.getLsbD_setWidth, BitVec.getLsbD_or, sh.not_val_getLsbD hn hk]
  simp [hk, show k < 32 by omega]

theorem maskOr_allOnes (n : Int) : maskOr sh (BitVec.allOnes 8) n = BitVec.allOnes 8 := by
  refine BitVec.eq_of_getLsbD_eq fun k hk => ?_
  simp only [maskOr, BitVec.getLsbD_setWidth, BitVec.getLsbD_or, BitVec.getLsbD_allOnes, hk,
    show k < 32 by omega, decide_true, Bool.true_or, Bool.and_self]

/-- どの呼び出しも、従のコントローラのマスクには書かない。 -/
theorem IrqCall.run_slave (c : IrqCall) (p : Ports) : c.run sh p PIC1_IMR = p PIC1_IMR := by
  have h : ∀ v, outb p PIC0_IMR v PIC1_IMR = p PIC1_IMR := fun v => Function.update_of_ne (by decide) _ _
  cases c with
  | enable i => simp only [run, irqEnable]; split_ifs <;> simp [h]
  | disable i => simp only [run, irqDisable]; split_ifs <;> simp [h]

theorem run_enable_master {i : Line} (hi : i.val < 8) :
    IrqCall.run sh p (.enable i) = outb p PIC0_IMR (maskAnd sh (p PIC0_IMR) i.val) := by
  simp [IrqCall.run, irqEnable, inb, show (i.val : Int) < 8 by omega]

theorem run_disable_master {i : Line} (hi : i.val < 8) :
    IrqCall.run sh p (.disable i) = outb p PIC0_IMR (maskOr sh (p PIC0_IMR) i.val) := by
  simp [IrqCall.run, irqDisable, inb, show (i.val : Int) < 8 by omega]

theorem run_disable_slave (sh : ShiftOne) (p : Ports) {i : Line} (hi : ¬ i.val < 8) :
    ∃ n, IrqCall.run sh p (.disable i) = outb p PIC0_IMR (maskOr sh (p PIC1_IMR) n) := by
  refine ⟨(i.val : Int) - IRQ_PIC_START, ?_⟩
  simp [IrqCall.run, irqDisable, inb, show ¬ (i.val : Int) < 8 by omega]

theorem unmasked_enable_master {i : Line} (hi : i.val < 8) (k : Line) :
    unmasked (IrqCall.run sh p (.enable i)) k = (unmasked p k || decide (k = i)) := by
  unfold unmasked
  by_cases hk : k.val < 8
  · rw [if_pos hk, if_pos hk, run_enable_master hi]
    simp only [outb, Function.update_self, maskAnd_getLsbD _ hi hk, Fin.ext_iff]
    simp
  · rw [if_neg hk, if_neg hk, IrqCall.run_slave]
    simp [show k ≠ i by rintro rfl; exact hk hi]

/-- 開いている線 2 を含めて最後の要求に従っている状態では、線を閉じる呼び出しは必ず要求と食い違う。 -/
theorem Pic.Inv.disable_breaks (h : s.Inv) (i : Line) (hf : s.FollowsAt sh (.disable i)) : False := by
  obtain ⟨hf, -⟩ := hf _ rfl
  have h₂ := hf 2
  have hreq : s.requested 2 = true := by rw [← h.follows 2]; exact h.cascade
  by_cases hi : i.val < 8
  · simp only [IrqCall.line, IrqCall.isEnable, unmasked, run_disable_master hi, outb, Function.update_self] at h₂
    have hm := maskOr_getLsbD sh (s.ports PIC0_IMR) hi (by decide : 2 < 8)
    have hc := h.cascade
    simp only [unmasked] at hc
    by_cases he : i = 2
    · subst he
      simp_all
    · have hne : ¬ (2 : Nat) = i.val := fun e => he (Fin.ext e.symm)
      rw [Function.update_of_ne (Ne.symm he)] at h₂
      simp_all
  · obtain ⟨n, hn⟩ := run_disable_slave sh s.ports hi
    have hne : (2 : Line) ≠ i := by rintro rfl; exact hi (by decide)
    simp only [IrqCall.line, IrqCall.isEnable, unmasked, hn, outb, h.slave, maskOr_allOnes,
      Function.update_of_ne hne, hreq, Function.update_self, BitVec.getLsbD_allOnes] at h₂
    simp at h₂

theorem Pic.Inv.followsAt_iff (sh : ShiftOne) (h : s.Inv) (c : IrqCall) : s.FollowsAt sh c ↔ EnablesMaster c := by
  constructor
  · intro hf
    cases c with
    | disable i => exact (h.disable_breaks i hf).elim
    | enable i =>
        refine ⟨i, ?_, rfl⟩
        by_contra hi
        -- 従のコントローラの線は閉じたままなので、開けという要求に従わない。
        have hfi := (hf _ rfl).1 i
        simp only [IrqCall.line, IrqCall.isEnable, Function.update_self, unmasked, hi, ↓reduceIte,
          IrqCall.run_slave, h.slave, BitVec.getLsbD_allOnes] at hfi
        simp [show i.val - 8 < 8 by omega] at hfi
  · rintro ⟨i, hi, rfl⟩ s' hs'
    cases hs'
    refine ⟨fun k => ?_, fun k hk => ?_⟩
    · simp only [unmasked_enable_master hi, IrqCall.line, IrqCall.isEnable]
      by_cases hk : k = i
      · simp [hk]
      · simp [hk, h.follows k]
    · simp only [IrqCall.line] at hk
      simp [unmasked_enable_master hi, hk]

theorem Pic.Inv.step (h : s.Inv) (hc : EnablesMaster c) (hs : s.step sh c = some s') : s'.Inv := by
  have hf := (h.followsAt_iff sh c).mpr hc s' hs
  cases hs
  refine ⟨hf.1, (c.run_slave s.ports).trans h.slave, ?_⟩
  obtain ⟨i, hi, rfl⟩ := hc
  simp only
  rw [unmasked_enable_master hi, h.cascade, Bool.true_or]

/-- 呼び出しのどこまででも、マスクが最後の要求に従い、ほかの線のマスクが変わらないのは、すべての呼び出しが主の
コントローラの線を開くものであるとき、そのときに限る。 -/
theorem irq_masks_follow_iff (sh : ShiftOne) (p : Ports) (cs : List IrqCall) :
    (Pic.init p).Follows ∧ Lib.Along (Pic.step sh) (Pic.FollowsAt sh) (Pic.init p) cs ↔
      ∀ c ∈ cs, Pic.EnablesMaster c := by
  have hall : ∀ (cs : List IrqCall) (s : Pic),
      Lib.Along (Pic.step sh) (fun _ c => Pic.EnablesMaster c) s cs ↔ ∀ c ∈ cs, Pic.EnablesMaster c := by
    intro cs
    induction cs with
    | nil => exact fun _ => ⟨by simp, fun _ => trivial⟩
    | cons c cs ih =>
        intro s
        simp only [Lib.Along, Pic.step, Option.some.injEq, forall_eq', ih, List.forall_mem_cons]
  rw [← hall cs (Pic.init p)]
  have hiff := Lib.along_iff (I := Pic.Inv) (fun _ c h => h.followsAt_iff sh c)
    (fun s c s' h hc (hs : s.step sh c = some s') => h.step hc hs) cs (.init p)
  exact ⟨fun h => hiff.mp h.2, fun h => ⟨(Pic.Inv.init p).follows, hiff.mpr h⟩⟩

/-- 従のコントローラの線 8 を開けという要求で、代わりに主のコントローラの線 0 が開く。 -/
theorem irqEnable_slave_opens_timer :
    ¬ Lib.Along (Pic.step .shl) (Pic.FollowsAt .shl) (Pic.init fun _ => 0) [.enable 8] := by
  intro h
  have h₀ := (h.1 _ rfl).2 0 (by decide)
  exact absurd h₀ (by decide)

end IdealX86
