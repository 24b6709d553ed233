import IdealX86.Machine.Lemmas.Switch

/-!
# タスクの切り替えの正しさ

触れるメモリがそのままの物理アドレスに変換される限り、TSS の上の系は、タスクごとにレジスタを持つ系と同じに振る舞う。起動の後の CR3 は 0 で
あり、物理アドレス 0 のページディレクトリの最初の項目がなければ、命令を一つも取り出せない。
-/

namespace IdealX86

open Lib (Bytes load32 store32)
open Asm (Context Cpu Hw Unspec)

variable {l : TssLayout} {cpu : Cpu} {ctrl : Ctrl} {idle first : InitArgs} {s : TssSystem}

/-! ## 最初の 4 MB の中の実行 -/

namespace TssSystem

open Asm (LowMapped)

/-- GDT と TSS が最初の 4 MB の中にあって、`dir` からの語と重ならない。 -/
structure Low (l : TssLayout) (dir : BitVec 32) : Prop where
  gdt : l.gdtBase.toNat + 8 * GDT_TABLE_SIZE ≤ 2 ^ 22
  tss : ∀ t ∈ l.tasks, (l.addr t).toNat + 104 ≤ 2 ^ 22
  apart : ∀ t ∈ l.tasks, ∀ i : BitVec 32, i.toNat < 4 → ¬ Asm.InTss (l.addr t) (dir + i)

variable {t : TaskId} {a : InitArgs} {r : Ctrl}

/-- `tss_init` は、TSS のほかのメモリを変えない。 -/
structure TssKept (l : TssLayout) (s s' : TssSystem) : Prop where
  ctrl : s'.hw.ctrl = s.hw.ctrl
  gdtBase : s'.hw.gdtBase = s.hw.gdtBase
  eip : s'.hw.cpu.eip = s.hw.cpu.eip
  mem : ∀ x, (∀ t ∈ l.tasks, ¬ Asm.InTss (l.addr t) x) → s'.hw.cpu.mem x = s.hw.cpu.mem x

theorem tssInit_kept (s : TssSystem) (ht : t ∈ l.tasks) (a : InitArgs) : TssKept l s (s.tssInit l t a) := by
  rw [tssInit]
  split
  · exact ⟨rfl, rfl, rfl, fun _ _ => rfl⟩
  · exact ⟨rfl, rfl, rfl, fun x hx => Asm.tssFields_frame _ (l.bound t ht) a (hx t ht)⟩

theorem TssKept.trans {s₁ s₂ s₃ : TssSystem} (h : TssKept l s₁ s₂) (h' : TssKept l s₂ s₃) : TssKept l s₁ s₃ :=
  ⟨h'.ctrl.trans h.ctrl, h'.gdtBase.trans h.gdtBase, h'.eip.trans h.eip,
    fun x hx => (h'.mem x hx).trans (h.mem x hx)⟩

theorem TssKept.lowMapped {s' : TssSystem} (h : TssKept l s s') (hl : Low l (r.cr3 >>> 12 <<< 12))
    (hm : LowMapped s.hw.cpu.mem r) : LowMapped s'.hw.cpu.mem r :=
  hm.congr fun i hi => h.mem _ fun t ht => hl.apart t ht i hi

theorem taskInit_of_lowMapped (hl : Low l (r.cr3 >>> 12 <<< 12)) (ht : t ∈ l.tasks) (hr : s.hw.ctrl = r)
    (h : LowMapped s.hw.cpu.mem r) (hg : s.hw.gdtBase = l.gdtBase) (a : InitArgs) :
    s.taskInit l t a = some { s.tssInit l t a with inited := t :: s.inited } := by
  subst hr
  rw [taskInit, if_pos ⟨h.direct (by rw [hg]; exact hl.gdt), h.direct (hl.tss t ht)⟩]

/-- 起動の前の CR3 のもとで最初の 4 MB がそのまま変換されるなら、起動は終わり、TSS のほかのメモリは変わらない。 -/
theorem boot_of_lowMapped (hl : Low l (ctrl.cr3 >>> 12 <<< 12)) (h : LowMapped cpu.mem ctrl) (idle first : InitArgs) :
    ∃ s, boot l cpu ctrl idle first = some s ∧ s.hw.gdtBase = l.gdtBase ∧
      ∀ x, (∀ t ∈ l.tasks, ¬ Asm.InTss (l.addr t) x) → s.hw.cpu.mem x = cpu.mem x := by
  let s₁ : TssSystem := { (reset l cpu ctrl).tssInit l idleTask idle with inited := [idleTask] }
  have hk₁ : TssKept l (reset l cpu ctrl) s₁ := by
    obtain ⟨hc, hg, he, hm⟩ := tssInit_kept (reset l cpu ctrl) l.idle_mem idle
    exact ⟨hc, hg, he, hm⟩
  have h₁ : (reset l cpu ctrl).taskInit l idleTask idle = some s₁ := taskInit_of_lowMapped hl l.idle_mem rfl h rfl idle
  obtain ⟨s₂, hs₂⟩ : ∃ s₂, s₂ = beforeTr l cpu ctrl idle first := ⟨_, rfl⟩
  have hk₂ : TssKept l (reset l cpu ctrl) s₂ := by
    obtain ⟨hc, hg, he, hm⟩ := hk₁.trans (tssInit_kept s₁ l.first_mem first)
    rw [hs₂]
    exact ⟨hc, hg, he, hm⟩
  have h₂ : s₁.taskInit l firstTask first = some s₂ := by
    rw [hs₂]
    exact taskInit_of_lowMapped hl l.first_mem hk₁.ctrl (hk₁.lowMapped hl h) hk₁.gdtBase first
  have hb := beforeTr_spec l cpu ctrl idle first
  rw [← hs₂] at hb
  have hm₂ : LowMapped s₂.hw.cpu.mem ctrl := hk₂.lowMapped hl h
  have hg₂ : s₂.hw.gdtBase = l.gdtBase := hk₂.gdtBase
  have hmem : firstTask ∈ s₂.used := by rw [hb.used]; exact List.mem_cons_self
  have hav := hb.ok.available hmem (by rw [hb.curr]; decide)
  have hd : s₂.hw.GdtDirect := by
    rw [Hw.GdtDirect, Hw.Direct, hb.ctrl]
    exact hm₂.direct (by rw [hg₂]; exact hl.gdt)
  obtain ⟨hw, htr, hcpu, hctrl, hbase⟩ : ∃ hw, s₂.hw.writeTr (BitVec.ofInt 16 (s₂.tssSel firstTask)) = some hw ∧
      hw.cpu = s₂.hw.cpu ∧ hw.ctrl = ctrl ∧ hw.gdtBase = l.gdtBase := by
    rw [Hw.writeTr, if_pos ⟨hd, hav⟩]
    exact ⟨_, rfl, rfl, hb.ctrl, hg₂⟩
  have hdir : hw.Direct (l.addr firstTask) sizeofTss.toNat := by
    rw [Hw.Direct, hctrl, hcpu]
    exact hm₂.direct (hl.tss _ l.first_mem)
  have hboot : boot l cpu ctrl idle first = some { s₂ with
      hw := hw.setPageDir (load32 hw.cpu.mem (l.addr firstTask + 28)), currTask := firstTask } := by
    rw [boot]
    refine Option.bind_eq_some_iff.mpr ⟨s₁, h₁, Option.bind_eq_some_iff.mpr ⟨s₂, h₂, ?_⟩⟩
    refine Option.bind_eq_some_iff.mpr ⟨hw, htr, ?_⟩
    rw [if_pos hdir]
  refine ⟨_, hboot, hbase, fun x hx => ?_⟩
  change hw.cpu.mem x = cpu.mem x
  rw [hcpu]
  exact hk₂.mem x hx

/-- 最初の 4 MB がそのまま変換され、GDT は配置の通りにある。 -/
structure Mapped (l : TssLayout) (s : TssSystem) : Prop where
  low : LowMapped s.hw.cpu.mem s.hw.ctrl
  gdtBase : s.hw.gdtBase = l.gdtBase

/-- 最初の 4 MB の中で実行され、ページディレクトリの最初の項目を書き換えない一歩。 -/
def InLow (l : TssLayout) (x : Contexts) (op : SwitchOp) : Prop :=
  x.context.eip.toNat < 2 ^ 22 ∧ match op with
    | .work _ => True
    | .store a _ => 4 ≤ a.toNat ∧ a.toNat + 4 ≤ 2 ^ 22
    | .taskInit t _ => t ∈ l.tasks
    | .switch t => t ∈ l.tasks

variable {u : Unspec} {x : Contexts} {op : SwitchOp}

theorem Mapped.code (hm : Mapped l s) (h : Holds l s x) (hop : InLow l x op) : s.hw.CodeDirect := by
  have heip : s.hw.cpu.eip = x.context.eip := congrArg Context.eip h.context
  refine hm.low.direct ?_
  rw [heip]
  exact hop.1

theorem Mapped.direct (hm : Mapped l s) (hl : Low l 0) (h : Holds l s x) (hop : InLow l x op) : s.Direct l op := by
  have hcode := hm.code h hop
  have hgdt : s.hw.GdtDirect := hm.low.direct (by rw [hm.gdtBase]; exact hl.gdt)
  have htss : ∀ t ∈ l.tasks, s.hw.Direct (l.addr t) sizeofTss.toNat := fun t ht => hm.low.direct (hl.tss t ht)
  cases op with
  | work y => exact hcode
  | store a v => exact ⟨hcode, hm.low.direct hop.2.2⟩
  | taskInit t a => exact ⟨hcode, hgdt, htss t hop.2⟩
  | switch t => exact ⟨hcode, hgdt, htss _ (h.ok.tasks _ h.curr_mem), htss t hop.2⟩

/-- 最初の項目のバイトと、CR3 のほかの制御レジスタが変わらなければ、変換も変わらない。 -/
theorem Mapped.of_kept {s' : TssSystem} (hm : Mapped l s) (h₃ : s.hw.ctrl.cr3 = 0) (hctrl : s'.hw.ctrl = s.hw.ctrl)
    (hg : s'.hw.gdtBase = s.hw.gdtBase)
    (hmem : ∀ i : BitVec 32, i.toNat < 4 → s'.hw.cpu.mem (0 + i) = s.hw.cpu.mem (0 + i)) : Mapped l s' := by
  have hdir : s.hw.ctrl.cr3 >>> 12 <<< 12 = 0 := by rw [h₃]; decide
  refine ⟨?_, hg.trans hm.gdtBase⟩
  rw [hctrl]
  exact hm.low.congr (by rw [hdir]; exact hmem)

theorem Mapped.step {s' : TssSystem} (hm : Mapped l s) (hl : Low l 0) (h : Holds l s x) (hop : InLow l x op)
    (hs : s.step u l op = some s') (h' : s'.hw.ctrl.cr3 = 0) : Mapped l s' := by
  unfold TssSystem.step at hs
  rw [if_pos (hm.code h hop)] at hs
  cases op with
  | work y =>
      obtain rfl := Option.some.inj hs
      exact hm.of_kept h.cr3 rfl rfl fun _ _ => rfl
  | store a v =>
      simp only at hs
      split at hs
      · obtain rfl := Option.some.inj hs
        refine hm.of_kept h.cr3 rfl rfl fun i hi => Lib.store32_of_far _ ?_ v
        obtain ⟨-, h₄, h₂₂⟩ := hop
        bv_omega
      · cases hs
  | taskInit t a =>
      simp only at hs
      split at hs
      · obtain rfl := taskInit_eq_some hs
        obtain ⟨hc, hg, -, hmem⟩ := tssInit_kept s hop.2 a
        exact hm.of_kept h.cr3 hc hg fun i hi => hmem _ fun t ht => hl.apart t ht i hi
      · cases hs
  | switch t =>
      simp only at hs
      split at hs
      swap
      · cases hs
      obtain ⟨hw, hhw, rfl⟩ := Option.map_eq_some_iff.mp hs
      obtain ⟨hg, ⟨cr3, hctrl⟩, hmem⟩ := Hw.switchToTss_frame hhw
      have h₀ : cr3 = s.hw.ctrl.cr3 := by rw [h.cr3, ← h', hctrl]
      rw [h₀] at hctrl
      refine hm.of_kept h.cr3 hctrl hg fun i hi => hmem _ ?_
      rw [h.trBase]
      exact hl.apart _ (h.ok.tasks _ h.curr_mem) i hi

/-- 最初の 4 MB の中の実行では、触れるメモリはいつもそのまま変換される。 -/
theorem Mapped.along (hl : Low l 0) {ops : List SwitchOp} (hm : Mapped l s) (h : Holds l s x)
    (hops : Lib.Along (Contexts.step l) (InLow l) x ops) :
    Lib.Along (TssSystem.step u l) (TssSystem.Direct l) s ops := by
  induction ops generalizing s x with
  | nil => trivial
  | cons op ops ih =>
      obtain ⟨hop, hrest⟩ := hops
      have hd := hm.direct hl h hop
      refine ⟨hd, fun s' hs => ?_⟩
      have hrel := h.step (u := u) op hd
      rw [hs] at hrel
      cases hx : x.step l op with
      | none => rw [hx] at hrel; cases hrel
      | some x' =>
          rw [hx] at hrel
          cases hrel with
          | some h' => exact ih (hm.step hl h hop hs h'.cr3) h' (hrest x' hx)

/-! ## 起動の例 -/

def lowLayout : TssLayout where
  tasks := [idleTask, firstTask, 3]
  addr t := BitVec.ofNat 32 (0x10000 + 0x100 * t)
  gdtBase := 0x20000
  ne_zero := by decide
  bound := by decide
  gdt_bound := by decide
  apart := by decide
  gdt_apart := by decide
  idle_mem := by decide
  first_mem := by decide

/-- ローダーのページディレクトリは `0x30000` にあり、物理アドレス 0 の最初の項目は `entry` である。 -/
def lowCpu (entry : Byte) : Cpu where
  reg _ := 0
  seg _ := BitVec.ofNat 16 KERNEL_SELECTOR_DS
  cs := BitVec.ofNat 16 KERNEL_SELECTOR_CS
  ss := BitVec.ofNat 16 KERNEL_SELECTOR_DS
  eip := 0x40000
  eflags := EFLAGS_DEFAULT
  mem a := if a = 0x30000 then 0x83 else if a = 0 then entry else 0

def lowCtrl : Ctrl := ⟨0x80000001, 0x30000, 0x10⟩

theorem low_lowLayout {dir : BitVec 32} (h : dir = 0 ∨ dir = 0x30000) : Low lowLayout dir := by
  refine ⟨by decide, by decide, fun t ht i hi => ?_⟩
  have hbit : ∀ j : Fin 4, ¬ (dir + BitVec.ofNat 32 j.val - lowLayout.addr t).toNat < 104 := by
    have ht : t = idleTask ∨ t = firstTask ∨ t = 3 := by simpa [lowLayout] using ht
    rcases h with rfl | rfl <;> rcases ht with rfl | rfl | rfl <;> decide
  have hi' : BitVec.ofNat 32 i.toNat = i := by simp
  have := hbit ⟨i.toNat, hi⟩
  rwa [hi'] at this

theorem boot_low (entry : Byte) :
    ∃ s, boot lowLayout (lowCpu entry) lowCtrl ⟨0, 0, fun _ => 0⟩ ⟨0, 0, fun _ => 0⟩ = some s ∧
      s.hw.gdtBase = lowLayout.gdtBase ∧ load32 s.hw.cpu.mem 0 = load32 (lowCpu entry).mem 0 := by
  have hdir : lowCtrl.cr3 >>> 12 <<< 12 = 0x30000 := by decide
  have hm : LowMapped (lowCpu entry).mem lowCtrl :=
    ⟨by decide, by decide, by rw [hdir]; simp [load32, lowCpu]⟩
  obtain ⟨s, hs, hg, hmem⟩ := boot_of_lowMapped (low_lowLayout (.inr hdir)) hm ⟨0, 0, fun _ => 0⟩ ⟨0, 0, fun _ => 0⟩
  exact ⟨s, hs, hg, Lib.load32_congr fun i hi => hmem _ fun t ht => (low_lowLayout (.inl rfl)).apart t ht i hi⟩

end TssSystem

/-! ## タスクの切り替え -/

/-- 起動の後、どの歩でも触れるメモリがそのままの物理アドレスに変換される限り、TSS の上の系は、タスクごとにレジスタを持つ系と同じ歩だけが
できて、今のレジスタ、今のタスク、TSS のあるタスクがいつも一致し、CR3 は 0 のままである。したがって、切り替えられたタスクは、前に
切り替わったときのレジスタか、`tss_init` の定めたレジスタで続きを実行する。記述子の得られなかったタスクへの切り替えでは、例外が起こる。 -/
theorem tss_switch_refines (u : Unspec) (hs : TssSystem.boot l cpu ctrl idle first = some s) {ops : List SwitchOp}
    (hd : Lib.Along (TssSystem.step u l) (TssSystem.Direct l) s ops) :
    (Lib.exec (TssSystem.step u l) s ops).map TssSystem.view =
      (Lib.exec (Contexts.step l) (Contexts.boot cpu idle first) ops).map Contexts.view := by
  have hrel : Option.Rel (Holds l) (Lib.exec (TssSystem.step u l) s ops)
      (Lib.exec (Contexts.step l) (Contexts.boot cpu idle first) ops) :=
    Lib.exec_rel_along (fun _ _ op h hd => h.step op hd) (TssSystem.boot_holds hs).1 hd
  generalize Lib.exec (TssSystem.step u l) s ops = x at hrel ⊢
  generalize Lib.exec (Contexts.step l) (Contexts.boot cpu idle first) ops = y at hrel ⊢
  cases hrel with
  | some hR => rw [Option.map_some, Option.map_some, hR.view]
  | none => rfl

theorem tss_switch_refines_back :
    ∃ s, TssSystem.boot TssSystem.lowLayout (TssSystem.lowCpu 0x83) TssSystem.lowCtrl ⟨0, 0, fun _ => 0⟩
        ⟨0, 0, fun _ => 0⟩ = some s ∧
      (Lib.exec (TssSystem.step .zero TssSystem.lowLayout) s
        [.taskInit 3 ⟨0x50000, 0x60000, fun _ => 0⟩, .switch 3, .switch firstTask]).map TssSystem.view =
          some ((TssSystem.lowCpu 0x83).context, firstTask, [3, firstTask, idleTask], [3, firstTask, idleTask], 0) := by
  obtain ⟨s, hs, hg, h₀⟩ := TssSystem.boot_low 0x83
  obtain ⟨h, hctrl⟩ := TssSystem.boot_holds hs
  have hm : TssSystem.Mapped TssSystem.lowLayout s := by
    refine ⟨⟨by rw [hctrl]; decide, by rw [hctrl]; decide, ?_⟩, hg⟩
    rw [show s.hw.ctrl.cr3 >>> 12 <<< 12 = 0 by rw [hctrl]; decide, h₀]
    decide
  refine ⟨s, hs, (tss_switch_refines .zero hs (hm.along (TssSystem.low_lowLayout (.inl rfl)) h ?_)).trans rfl⟩
  refine ⟨⟨by decide, by decide⟩, fun x₁ h₁ => ?_⟩
  obtain rfl := Option.some.inj h₁
  refine ⟨⟨by decide, by decide⟩, fun x₂ h₂ => ?_⟩
  obtain rfl := Option.some.inj h₂
  exact ⟨⟨by decide, by decide⟩, fun _ _ => trivial⟩

/-- ページングが有効で、物理アドレス 0 のページディレクトリの最初の項目がなければ、`task_first_init` の `mmu_set_page_dir` の後は、次の
命令が取り出せず、どの一歩もできない。 -/
theorem boot_stops (u : Unspec) (hs : TssSystem.boot l cpu ctrl idle first = some s)
    (hpg : ctrl.cr0.getLsbD 31 = true) (heip : cpu.eip.toNat < 2 ^ 22)
    (h₀ : present (load32 s.hw.cpu.mem 0) = false) (op : SwitchOp) : s.step u l op = none := by
  obtain ⟨h, hctrl⟩ := TssSystem.boot_holds hs
  have heip' : s.hw.cpu.eip = cpu.eip := congrArg Context.eip h.context
  have hdir : s.hw.ctrl.cr3 >>> 12 <<< 12 = 0 := by
    rw [hctrl]
    exact (by decide : (0 : BitVec 32) >>> 12 <<< 12 = 0)
  have hstop : ¬ s.hw.CodeDirect :=
    Asm.not_direct_of_absent (by rw [hctrl]; exact hpg) (by rw [hdir]; exact h₀) (by rw [heip']; exact heip) Nat.one_pos
  unfold TssSystem.step
  exact if_neg hstop

theorem boot_stops_absent :
    ∃ s, TssSystem.boot TssSystem.lowLayout (TssSystem.lowCpu 0) TssSystem.lowCtrl ⟨0, 0, fun _ => 0⟩
        ⟨0, 0, fun _ => 0⟩ = some s ∧ s.step .zero TssSystem.lowLayout (.switch idleTask) = none := by
  obtain ⟨s, hs, -, h₀⟩ := TssSystem.boot_low 0
  refine ⟨s, hs, boot_stops .zero hs (by decide) (by decide) ?_ _⟩
  rw [h₀]
  decide

end IdealX86
