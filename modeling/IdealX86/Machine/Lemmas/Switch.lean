import IdealX86.Cpu.Lemmas.Tss
import IdealX86.Machine.InitTheorems
import IdealX86.Machine.Lemmas.Gdt
import IdealX86.Machine.Switch
import IdealX86.Lib.Run

/-!
# 二つの系の対応

TSS の上の系の不変条件と、タスクごとにレジスタを持つ系との対応が、一歩ごとに保たれることを示す。
-/

namespace IdealX86

open Lib (Bytes load32 store32 storeWords)
open Asm (Context Cpu Hw Unspec InTss loadContext saveWords)

/-! ## 配置 -/

namespace TssLayout

variable {l : TssLayout} {t v : TaskId} {x : BitVec 32}

theorem inTss_iff (ht : t ∈ l.tasks) :
    InTss (l.addr t) x ↔ (l.addr t).toNat ≤ x.toNat ∧ x.toNat < (l.addr t).toNat + 104 := by
  have hb := l.bound t ht
  have hsub : (x - l.addr t).toNat = (x.toNat + 2 ^ 32 - (l.addr t).toNat) % 2 ^ 32 := by bv_omega
  have hx := x.isLt
  rw [InTss, hsub]
  omega

theorem not_inTss (ht : t ∈ l.tasks) (hv : v ∈ l.tasks) (hne : v ≠ t) (hx : InTss (l.addr v) x) :
    ¬ InTss (l.addr t) x := by
  rw [inTss_iff hv] at hx
  rw [inTss_iff ht]
  rcases l.apart v hv t ht hne with h | h <;> omega

end TssLayout

/-! ## 記述子 -/

structure TssDesc (d : SegmentDesc) (base : BitVec 32) (busy : Bool) : Prop where
  base : d.base = base
  limit : d.limit15_0 = 104
  attr : d.attr = if busy then 0x8B else 0x89

namespace TssDesc

variable {d : SegmentDesc} {base : BitVec 32}

theorem attr_ne_zero {busy : Bool} (h : TssDesc d base busy) : d.attr ≠ 0 := by
  rw [h.attr]
  cases busy <;> decide

theorem available (h : TssDesc d base false) : d.attr &&& 0x9F = 0x89 ∧ 103 ≤ x86Limit d.byte := by
  have ha : d.attr = 0x89 := h.attr
  refine ⟨by rw [ha]; decide, ?_⟩
  have hbyte : x86Limit d.byte = x86Limit (⟨104, 0, 0, 0x89, 0⟩ : SegmentDesc).byte := by
    simp only [x86Limit, x86Granularity, x86LimitField, SegmentDesc.byte, h.limit, ha]
  rw [hbyte]
  decide

theorem setBusy {busy : Bool} (h : TssDesc d base busy) (busy' : Bool) : TssDesc (d.setBusy busy') base busy' := by
  refine ⟨h.base, h.limit, ?_⟩
  change d.attr &&& ~~~2 ||| (if busy' then 2 else 0) = _
  rw [h.attr]
  cases busy <;> cases busy' <;> decide

theorem stored (gdt : Gdt) (i : Nat) (base : BitVec 32) :
    TssDesc (segmentDescSet gdt (i * 8) base sizeofTss (SEG_P_PRESENT ||| SEG_DPL0 ||| SEG_TYPE_TSS) i) base false := by
  obtain ⟨ha, hb, -⟩ := segmentDescSet_tss gdt i base
  refine ⟨hb, ?_, ha⟩
  rw [segmentDescSet_eq, Nat.mul_div_cancel i (by decide), Function.update_self]
  rfl

end TssDesc

theorem freeEntries_congr {g g' : Gdt} (h : ∀ i, (g' i).attr = 0 ↔ (g i).attr = 0) : freeEntries g' = freeEntries g :=
  Finset.filter_congr fun i _ => h i

theorem freeEntries_erase {g g' : Gdt} {i : Nat} (hi : i ∈ freeEntries g) (hn : (g' i).attr ≠ 0)
    (ho : ∀ k ≠ i, g' k = g k) : (freeEntries g').card + 1 = (freeEntries g).card := by
  have herase : freeEntries g' = (freeEntries g).erase i := by
    ext k
    by_cases hk : k = i
    · subst hk
      exact iff_of_false (fun hm => hn (mem_freeEntries.mp hm).2) (Finset.notMem_erase k _)
    · rw [Finset.mem_erase, mem_freeEntries, mem_freeEntries, ho k hk]
      exact (and_iff_right hk).symm
  rw [herase, Finset.card_erase_add_one hi]

namespace TssSystem

variable {u : Unspec} {l : TssLayout} {s s' : TssSystem} {t : TaskId}

def index (s : TssSystem) (t : TaskId) : Nat := (s.tssSel t / 8).toNat

structure Ok (l : TssLayout) (s : TssSystem) : Prop where
  tasks : ∀ t ∈ s.used, t ∈ l.tasks
  sel : ∀ t ∈ s.used, s.tssSel t = (s.index t * 8 : Nat) ∧ s.index t < GDT_TABLE_SIZE
  /-- 使用中の記述子は、今のタスクのものだけである。 -/
  desc : ∀ t ∈ s.used, TssDesc (s.hw.gdt (s.index t)) (l.addr t) (t = s.currTask)
  distinct : ∀ t ∈ s.used, ∀ v ∈ s.used, s.index t = s.index v → t = v
  root : ∀ t ∈ s.used, load32 s.hw.cpu.mem (l.addr t + 28) = 0
  free : (freeEntries s.hw.gdt).card + s.used.length = maxTasks
  null : (s.hw.gdt 0).attr = 0
  sel_none : ∀ t, t ∉ s.used → s.tssSel t = 0

theorem Ok.ofInt_sel (h : s.Ok l) (ht : t ∈ s.used) :
    (BitVec.ofInt 16 (s.tssSel t)).toNat = s.index t * 8 := by
  obtain ⟨hs, hi⟩ := h.sel t ht
  rw [GDT_TABLE_SIZE] at hi
  rw [hs, BitVec.ofInt_natCast, BitVec.toNat_ofNat]
  omega

theorem Ok.sel_div (h : s.Ok l) (ht : t ∈ s.used) : (BitVec.ofInt 16 (s.tssSel t)).toNat / 8 = s.index t := by
  rw [h.ofInt_sel ht, Nat.mul_div_cancel _ (by decide)]

theorem Ok.setInited (h : s.Ok l) (ts : List TaskId) : Ok l { s with inited := ts } :=
  ⟨h.tasks, h.sel, h.desc, h.distinct, h.root, h.free, h.null, h.sel_none⟩

/-! ## 使用中のビット -/

/-- `busy` のタスクの記述子だけが使用中であり、空きは変わらない。 -/
structure Descs (l : TssLayout) (s : TssSystem) (gdt : Gdt) (busy : TaskId → Bool) : Prop where
  desc : ∀ t ∈ s.used, TssDesc (gdt (s.index t)) (l.addr t) (busy t)
  free : freeEntries gdt = freeEntries s.hw.gdt
  null : (gdt 0).attr = 0

theorem Ok.descs (h : s.Ok l) : Descs l s s.hw.gdt fun t => t = s.currTask := ⟨h.desc, rfl, h.null⟩

theorem Descs.setBusy {gdt : Gdt} {busy : TaskId → Bool} (h : Descs l s gdt busy) (hs : s.Ok l) (ht : t ∈ s.used)
    (b : Bool) :
    Descs l s (Function.update gdt (s.index t) ((gdt (s.index t)).setBusy b)) (Function.update busy t b) := by
  have hnew := (h.desc t ht).setBusy b
  refine ⟨fun v hv => ?_, ?_, ?_⟩
  · by_cases hvt : v = t
    · rw [hvt, Function.update_self, Function.update_self]
      exact hnew
    · rw [Function.update_of_ne hvt, Function.update_of_ne fun he => hvt (hs.distinct v hv t ht he)]
      exact h.desc v hv
  · refine (freeEntries_congr fun i => ?_).trans h.free
    by_cases hi : i = s.index t
    · rw [hi, Function.update_self]
      exact iff_of_false hnew.attr_ne_zero (h.desc t ht).attr_ne_zero
    · rw [Function.update_of_ne hi]
  · have hidx : 0 ≠ s.index t := fun he => (h.desc t ht).attr_ne_zero (by rw [← he]; exact h.null)
    rw [Function.update_of_ne hidx]
    exact h.null

/-- `t` のほかに使用中の記述子がなければ、使用中のものは `t` の記述子だけになる。 -/
theorem Descs.only {gdt : Gdt} {busy : TaskId → Bool} (h : Descs l s gdt (Function.update busy t true))
    (hb : ∀ v ∈ s.used, v ≠ t → busy v = false) :
    ∀ v ∈ s.used, TssDesc (gdt (s.index v)) (l.addr v) (v = t) := by
  intro v hv
  have hd := h.desc v hv
  by_cases hvt : v = t
  · rw [hvt, Function.update_self] at hd
    rw [hvt, decide_eq_true rfl]
    exact hd
  · rw [Function.update_of_ne hvt, hb v hv hvt] at hd
    rw [decide_eq_false hvt]
    exact hd

/-! ## `tss_init` -/

/-- `t` の TSS の加わった状態。 -/
structure Added (l : TssLayout) (s s' : TssSystem) (t : TaskId) (a : InitArgs) : Prop where
  ok : s'.Ok l
  used : s'.used = t :: s.used
  curr : s'.currTask = s.currTask
  sel : ∀ v ≠ t, s'.tssSel v = s.tssSel v
  context : s'.hw.cpu.context = s.hw.cpu.context
  ctrl : s'.hw.ctrl = s.hw.ctrl
  tr : s'.hw.tr = s.hw.tr
  trBase : s'.hw.trBase = s.hw.trBase
  start : loadContext s'.hw.cpu.mem (l.addr t) = .start a
  kept : ∀ v ∈ l.tasks, v ≠ t → loadContext s'.hw.cpu.mem (l.addr v) = loadContext s.hw.cpu.mem (l.addr v)

theorem Ok.tssInit (h : s.Ok l) (ht : t ∈ l.tasks) (hn : t ∉ s.used) (hc : t ≠ s.currTask) (a : InitArgs)
    (hlt : s.used.length < maxTasks) : Added l s (s.tssInit l t a) t a := by
  have hfree := h.free
  obtain ⟨j, hj⟩ := Finset.card_pos.mp (by omega : 0 < (freeEntries s.hw.gdt).card)
  rw [mem_freeEntries] at hj
  obtain ⟨i, hfind, h1, hi, h0⟩ := HasFreeDesc.find ⟨j, hj.1.1, hj.1.2, hj.2⟩
  obtain ⟨hstart, hroot⟩ := Asm.loadContext_tssFields s.hw.cpu.mem (l.ne_zero t ht) (l.bound t ht) a
  have hframe : ∀ v ∈ l.tasks, v ≠ t → ∀ x, InTss (l.addr v) x →
      Asm.tssFields s.hw.cpu.mem (l.addr t) a x = s.hw.cpu.mem x := fun v hv hne x hx =>
    Asm.tssFields_frame _ (l.bound t ht) a (TssLayout.not_inTss ht hv hne hx)
  obtain ⟨-, -, hother⟩ := segmentDescSet_tss s.hw.gdt i (l.addr t)
  have hdesc := TssDesc.stored s.hw.gdt i (l.addr t)
  have hne : ∀ v ∈ s.used, v ≠ t := fun v hv he => hn (he ▸ hv)
  -- 空いていた記述子は、どのタスクのものでもない。
  have hidx : ∀ v ∈ s.used, s.index v ≠ i := fun v hv he => (h.desc v hv).attr_ne_zero (by rw [he]; exact h0)
  rw [TssSystem.tssInit, hfind]
  dsimp only
  generalize segmentDescSet s.hw.gdt (i * 8) (l.addr t) sizeofTss (SEG_P_PRESENT ||| SEG_DPL0 ||| SEG_TYPE_TSS) = gdt
    at hother hdesc ⊢
  generalize Asm.tssFields s.hw.cpu.mem (l.addr t) a = mem at hstart hroot hframe ⊢
  have hsel : Function.update s.tssSel t ((i * 8 : Nat) : Int) t = (i * 8 : Nat) := Function.update_self ..
  have hold : ∀ v ≠ t, Function.update s.tssSel t ((i * 8 : Nat) : Int) v = s.tssSel v := fun v hv =>
    Function.update_of_ne hv ..
  generalize Function.update s.tssSel t ((i * 8 : Nat) : Int) = sel at hsel hold ⊢
  have hit : (sel t / 8).toNat = i := by rw [hsel]; omega
  have hiv : ∀ v ∈ s.used, (sel v / 8).toNat = s.index v := fun v hv => by rw [hold v (hne v hv)]; rfl
  refine ⟨⟨fun v hv => ?_, fun v hv => ?_, fun v hv => ?_, fun v hv w hw he => ?_, fun v hv => ?_, ?_, ?_,
    fun v hv => ?_⟩, rfl, rfl, hold, rfl, rfl, rfl, rfl, hstart,
    fun v hv hvt => Asm.loadContext_congr (hframe v hv hvt)⟩
  · rcases List.mem_cons.mp hv with rfl | hv
    · exact ht
    · exact h.tasks v hv
  · simp only [index]
    rcases List.mem_cons.mp hv with rfl | hv
    · rw [hit]
      exact ⟨hsel, hi⟩
    · rw [hiv v hv, hold v (hne v hv)]
      exact h.sel v hv
  · simp only [index]
    rcases List.mem_cons.mp hv with rfl | hv
    · rw [hit, decide_eq_false hc]
      exact hdesc
    · rw [hiv v hv, hother _ (hidx v hv)]
      exact h.desc v hv
  · simp only [index] at he
    rcases List.mem_cons.mp hv with hv | hv <;> rcases List.mem_cons.mp hw with hw | hw
    · rw [hv, hw]
    · rw [hv, hit, hiv w hw] at he
      exact absurd he.symm (hidx w hw)
    · rw [hw, hit, hiv v hv] at he
      exact absurd he (hidx v hv)
    · rw [hiv v hv, hiv w hw] at he
      exact h.distinct v hv w hw he
  · rcases List.mem_cons.mp hv with rfl | hv
    · exact hroot
    · exact (Asm.load32_tss_congr (hframe v (h.tasks v hv) (hne v hv)) (by decide)).trans (h.root v hv)
  · have hcard := freeEntries_erase (mem_freeEntries.mpr ⟨⟨h1, hi⟩, h0⟩) hdesc.attr_ne_zero hother
    change (freeEntries gdt).card + (s.used.length + 1) = maxTasks
    omega
  · change (gdt 0).attr = 0
    rw [hother 0 (by omega)]
    exact h.null
  · obtain ⟨hvt, hv⟩ := not_or.mp (List.mem_cons.not.mp hv)
    exact (hold v hvt).trans (h.sel_none v hv)

theorem Ok.tssInit_full (h : s.Ok l) (a : InitArgs) (hle : ¬ s.used.length < maxTasks) : s.tssInit l t a = s := by
  have hfree := h.free
  have hempty : freeEntries s.hw.gdt = ∅ := Finset.card_eq_zero.mp (by omega)
  have hnone : gdtFindFree s.hw.gdt (GDT_TABLE_SIZE - 1) 1 = none := by
    cases hf : gdtFindFree s.hw.gdt (GDT_TABLE_SIZE - 1) 1 with
    | none => rfl
    | some i =>
        obtain ⟨h₁, h₂, h₃⟩ := gdtFindFree_some hf
        have hmem : i ∈ freeEntries s.hw.gdt := by
          refine mem_freeEntries.mpr ⟨⟨h₁, ?_⟩, h₃⟩
          simp only [GDT_TABLE_SIZE] at h₂ ⊢
          omega
        rw [hempty] at hmem
        exact absurd hmem (Finset.notMem_empty i)
  rw [TssSystem.tssInit, hnone]

/-! ## `switch_to_tss` -/

/-- `t` に切り替わった状態。 -/
structure Switched (l : TssLayout) (s s' : TssSystem) (t : TaskId) : Prop where
  ok : s'.Ok l
  tr : s'.hw.tr = BitVec.ofInt 16 (s.tssSel t)
  trBase : s'.hw.trBase = l.addr t
  cr3 : s'.hw.ctrl.cr3 = 0
  context : s'.hw.cpu.context = loadContext s.hw.cpu.mem (l.addr t)
  saved : loadContext s'.hw.cpu.mem (l.addr s.currTask) = s.hw.cpu.context
  kept : ∀ v ∈ l.tasks, v ≠ s.currTask → loadContext s'.hw.cpu.mem (l.addr v) = loadContext s.hw.cpu.mem (l.addr v)

theorem Ok.available (h : s.Ok l) (ht : t ∈ s.used) (hne : t ≠ s.currTask) :
    s.hw.IsAvailable (BitVec.ofInt 16 (s.tssSel t)) := by
  have hd := h.desc t ht
  rw [decide_eq_false hne] at hd
  rw [Hw.IsAvailable, h.ofInt_sel ht, Nat.mul_div_cancel _ (by decide)]
  exact ⟨Nat.mul_mod_left _ _, (h.sel t ht).2, hd.available⟩

/-- TSS のないタスクの選択子は 0 で、切り替えると例外が起こる。 -/
theorem Ok.switch_none (h : s.Ok l) (ht : t ∉ s.used) : s.hw.switchToTss u (s.tssSel t) = none := by
  rw [Hw.switchToTss, Hw.farJump, if_neg]
  rintro ⟨-, ⟨-, -, ha, -⟩, -⟩
  have h₀ : (s.hw.gdt ((BitVec.ofInt 16 (s.tssSel t)).toNat / 8)).attr = 0 := by
    rw [h.sel_none t ht]
    exact h.null
  rw [h₀] at ha
  exact absurd ha (by decide)

theorem Ok.switch (h : s.Ok l) (hcu : s.currTask ∈ s.used) (htr : s.hw.tr = BitVec.ofInt 16 (s.tssSel s.currTask))
    (hbase : s.hw.trBase = l.addr s.currTask) (h₃ : s.hw.ctrl.cr3 = 0) (ht : t ∈ s.used) (hne : t ≠ s.currTask)
    (hd : s.Direct l (.switch t)) :
    ∃ hw, s.hw.switchToTss u (s.tssSel t) = some hw ∧ Switched l s { s with hw := hw, currTask := t } t := by
  have hframe : ∀ v ∈ l.tasks, v ≠ s.currTask → ∀ x, InTss (l.addr v) x →
      storeWords s.hw.cpu.mem (l.addr s.currTask + 32) (saveWords u s.hw.cpu) x = s.hw.cpu.mem x := by
    intro v hv hvc x hx
    refine Asm.storeWords_save_frame u _ _ (Or.inr ?_)
    have := TssLayout.not_inTss (h.tasks _ hcu) hv hvc hx
    rw [InTss] at this
    omega
  have hself := Asm.loadContext_save u s.hw.cpu s.hw.cpu.mem (l.addr s.currTask)
  have hroot : load32 (storeWords s.hw.cpu.mem (l.addr s.currTask + 32) (saveWords u s.hw.cpu))
      (l.addr s.currTask + 28) = 0 := by
    rw [← h.root _ hcu]
    refine Lib.load32_congr fun i hi => Asm.storeWords_save_frame u _ _ (Or.inl ?_)
    have hsub : (l.addr s.currTask + 28 + i - l.addr s.currTask).toNat = 28 + i.toNat := by bv_omega
    omega
  have hti : s.index t ≠ s.index s.currTask := fun he => hne (h.distinct t ht _ hcu he)
  have hdt := h.desc t ht
  have hdescs := (h.descs.setBusy h hcu false).setBusy h ht true
  rw [Function.update_of_ne hti] at hdescs
  obtain ⟨-, hgd, hcd, htd⟩ := hd
  have htss : (s.hw.gdt ((BitVec.ofInt 16 (s.tssSel t)).toNat / 8)).base = l.addr t := by
    rw [h.sel_div ht]
    exact hdt.base
  rw [Hw.switchToTss, Hw.farJump, if_pos ⟨hgd, h.available ht hne, hbase ▸ hcd, htss ▸ htd⟩]
  refine ⟨_, rfl, ?_⟩
  simp only [hbase, htr, Hw.setBusy, h.sel_div ht, h.sel_div hcu, hdt.base, Function.update_of_ne hti]
  generalize Function.update (Function.update s.hw.gdt (s.index s.currTask)
    ((s.hw.gdt (s.index s.currTask)).setBusy false)) (s.index t) ((s.hw.gdt (s.index t)).setBusy true) = gdt
    at hdescs ⊢
  generalize storeWords s.hw.cpu.mem (l.addr s.currTask + 32) (saveWords u s.hw.cpu) = mem at hframe hself hroot ⊢
  have hroot' : ∀ v ∈ s.used, load32 mem (l.addr v + 28) = 0 := by
    intro v hv
    by_cases hvc : v = s.currTask
    · rw [hvc, hroot]
    · exact (Asm.load32_tss_congr (hframe v (h.tasks v hv) hvc) (by decide)).trans (h.root v hv)
  refine ⟨⟨h.tasks, h.sel, fun v hv => ?_, h.distinct, hroot', ?_, ?_, h.sel_none⟩, rfl, rfl, ?_, ?_, hself,
    fun v hv hvc => Asm.loadContext_congr (hframe v hv hvc)⟩
  · refine hdescs.only (fun w _ hw => ?_) v hv
    by_cases hwc : w = s.currTask
    · rw [hwc, Function.update_self]
    · rw [Function.update_of_ne hwc, decide_eq_false hwc]
  · change (freeEntries gdt).card + s.used.length = maxTasks
    rw [hdescs.free]
    exact h.free
  · exact hdescs.null
  · split
    · exact hroot' t ht
    · exact h₃
  · exact Asm.loadContext_congr (hframe t (h.tasks t ht) hne)

end TssSystem

/-! ## 二つの系の対応 -/

/-- `s` は、タスクごとのレジスタ `a` を、CPU とそれぞれの TSS に持つ。 -/
structure Holds (l : TssLayout) (s : TssSystem) (a : Contexts) : Prop where
  ok : s.Ok l
  context : s.hw.cpu.context = a.context
  curr : s.currTask = a.currTask
  inited : s.inited = a.inited
  used : s.used = a.used
  used_inited : ∀ t ∈ s.used, t ∈ s.inited
  cr3 : s.hw.ctrl.cr3 = 0
  curr_mem : s.currTask ∈ s.used
  tr : s.hw.tr = BitVec.ofInt 16 (s.tssSel s.currTask)
  trBase : s.hw.trBase = l.addr s.currTask
  saved : ∀ t ∈ s.used, t ≠ s.currTask → loadContext s.hw.cpu.mem (l.addr t) = a.saved t

namespace Holds

variable {u : Unspec} {l : TssLayout} {s : TssSystem} {a : Contexts} {t : TaskId}

theorem view (h : Holds l s a) : s.view = a.view := by
  rw [TssSystem.view, Contexts.view, h.context, h.curr, h.inited, h.used, h.cr3]

theorem store (h : Holds l s a) {x v : BitVec 32} (hx : l.MayStore s.used x) :
    Holds l { s with hw := { s.hw with cpu := { s.hw.cpu with mem := store32 s.hw.cpu.mem x v } } } a := by
  have hframe : ∀ t ∈ s.used, ∀ y, InTss (l.addr t) y → store32 s.hw.cpu.mem x v y = s.hw.cpu.mem y := by
    intro t ht y hy
    obtain ⟨h₁, h₂⟩ := hx.2 t ht
    refine Lib.store32_of_far _ ?_ v
    have hsub : (y - x).toNat = ((y - l.addr t).toNat + 2 ^ 32 - (x - l.addr t).toNat) % 2 ^ 32 := by bv_omega
    rw [InTss] at hy
    omega
  refine ⟨⟨h.ok.tasks, h.ok.sel, h.ok.desc, h.ok.distinct, fun t ht => ?_, h.ok.free, h.ok.null, h.ok.sel_none⟩,
    h.context, h.curr, h.inited, h.used, h.used_inited, h.cr3, h.curr_mem, h.tr, h.trBase, fun t ht hne => ?_⟩
  · exact (Asm.load32_tss_congr (hframe t ht) (by decide)).trans (h.ok.root t ht)
  · exact (Asm.loadContext_congr (hframe t ht)).trans (h.saved t ht hne)

theorem taskInit (h : Holds l s a) (ht : t ∈ l.tasks) (hn : t ∉ s.inited) (x : InitArgs) :
    Holds l { s.tssInit l t x with inited := t :: s.inited } (a.taskInit t x) := by
  have hnu : t ∉ s.used := fun hu => hn (h.used_inited t hu)
  have hne : ∀ v ∈ s.used, v ≠ t := fun v hv he => hnu (he ▸ hv)
  by_cases hlt : s.used.length < maxTasks
  · have hadd := h.ok.tssInit ht hnu (hne _ h.curr_mem).symm x hlt
    rw [h.used] at hlt
    rw [Contexts.taskInit, if_pos hlt]
    refine ⟨hadd.ok.setInited _, hadd.context.trans h.context, hadd.curr.trans h.curr, ?_, ?_, ?_,
      (congrArg (·.cr3) hadd.ctrl).trans h.cr3, ?_, ?_, ?_, fun v hv hvc => ?_⟩
    · exact congrArg _ h.inited
    · exact hadd.used.trans (congrArg _ h.used)
    · intro v hv
      rcases List.mem_cons.mp (hadd.used ▸ hv) with rfl | hv
      · exact List.mem_cons_self
      · exact List.mem_cons_of_mem _ (h.used_inited v hv)
    · change (s.tssInit l t x).currTask ∈ (s.tssInit l t x).used
      rw [hadd.used, hadd.curr]
      exact List.mem_cons_of_mem _ h.curr_mem
    · change (s.tssInit l t x).hw.tr = BitVec.ofInt 16 ((s.tssInit l t x).tssSel (s.tssInit l t x).currTask)
      rw [hadd.tr, h.tr, hadd.curr, hadd.sel _ (hne _ h.curr_mem)]
    · change (s.tssInit l t x).hw.trBase = l.addr (s.tssInit l t x).currTask
      rw [hadd.trBase, h.trBase, hadd.curr]
    · change v ∈ (s.tssInit l t x).used at hv
      change v ≠ (s.tssInit l t x).currTask at hvc
      rw [hadd.used] at hv
      rw [hadd.curr] at hvc
      rcases List.mem_cons.mp hv with rfl | hv
      · exact hadd.start.trans (Function.update_self v _ a.saved).symm
      · refine (hadd.kept v (h.ok.tasks v hv) (hne v hv)).trans ((h.saved v hv hvc).trans ?_)
        exact (Function.update_of_ne (hne v hv) ..).symm
  · have hfull := h.ok.tssInit_full (t := t) x hlt
    rw [h.used] at hlt
    rw [hfull, Contexts.taskInit, if_neg hlt]
    exact ⟨h.ok.setInited _, h.context, h.curr, congrArg _ h.inited, h.used,
      fun v hv => List.mem_cons_of_mem _ (h.used_inited v hv), h.cr3, h.curr_mem, h.tr, h.trBase, h.saved⟩

theorem switch (h : Holds l s a) (ht : t ∈ s.used) (hne : t ≠ s.currTask) (hd : s.Direct l (.switch t)) :
    ∃ hw, s.hw.switchToTss u (s.tssSel t) = some hw ∧ Holds l { s with hw := hw, currTask := t } (a.switch t) := by
  obtain ⟨hw, hhw, hsw⟩ := h.ok.switch (u := u) h.curr_mem h.tr h.trBase h.cr3 ht hne hd
  refine ⟨hw, hhw, hsw.ok, hsw.context.trans (h.saved t ht hne), rfl, h.inited, h.used, h.used_inited, hsw.cr3, ht,
    hsw.tr, hsw.trBase, fun v hv hvt => ?_⟩
  rw [Contexts.switch]
  dsimp only
  rw [← h.curr]
  by_cases hvc : v = s.currTask
  · rw [hvc, Function.update_self, ← h.context]
    exact hsw.saved
  · rw [Function.update_of_ne hvc, ← h.saved v hv hvc]
    exact hsw.kept v (h.ok.tasks v hv) hvc

/-- 触れるメモリがそのまま変換される一歩は、タスクごとのレジスタの系の一歩と対応する。 -/
theorem step (h : Holds l s a) (op : SwitchOp) (hd : s.Direct l op) :
    Option.Rel (Holds l) (s.step u l op) (a.step l op) := by
  cases op with
  | work x =>
      rw [TssSystem.step, if_pos (show s.hw.CodeDirect from hd)]
      have hok := h.ok
      exact .some ⟨⟨hok.tasks, hok.sel, hok.desc, hok.distinct, hok.root, hok.free, hok.null, hok.sel_none⟩, rfl, h.curr,
        h.inited, h.used, h.used_inited, h.cr3, h.curr_mem, h.tr, h.trBase, h.saved⟩
  | store x v =>
      rw [TssSystem.step, if_pos hd.1, Contexts.step, ← h.used]
      by_cases hx : l.MayStore s.used x
      · rw [if_pos ⟨hx, hd.2⟩, if_pos hx]
        exact .some (h.store hx)
      · rw [if_neg fun hc => hx hc.1, if_neg hx]
        exact .none
  | taskInit t x =>
      rw [TssSystem.step, if_pos hd.1, Contexts.step, ← h.inited]
      split
      next ht =>
          rw [TssSystem.taskInit, if_pos hd.2]
          exact .some (h.taskInit ht.1 ht.2 x)
      next => exact .none
  | switch t =>
      rw [TssSystem.step, if_pos hd.1, Contexts.step, ← h.used, ← h.inited, ← h.curr]
      by_cases ht : t ∈ s.inited ∧ t ≠ s.currTask
      · rw [if_pos ht]
        by_cases hu : t ∈ s.used
        · obtain ⟨hw, hhw, hsw⟩ := h.switch (u := u) hu ht.2 hd
          rw [hhw, if_pos ⟨ht.1, ht.2, hu⟩]
          exact .some hsw
        · rw [h.ok.switch_none hu, if_neg fun hc => hu hc.2.2]
          exact .none
      · rw [if_neg ht, if_neg fun hc => ht ⟨hc.1, hc.2.1⟩]
        exact .none

end Holds

/-! ## 起動 -/

theorem free_initGdt : (freeEntries initGdt).card = maxTasks := by decide +kernel

namespace TssSystem

variable {l : TssLayout} {s s' : TssSystem} {t : TaskId}

theorem ok_reset (l : TssLayout) (cpu : Cpu) (ctrl : Ctrl) : (reset l cpu ctrl).Ok l := by
  have hnone : ∀ {P : TaskId → Prop}, ∀ t ∈ (reset l cpu ctrl).used, P t := fun t ht => absurd ht List.not_mem_nil
  have hnull : (initGdt 0).attr = 0 := by decide
  refine ⟨hnone, hnone, hnone, hnone, hnone, ?_, hnull, fun _ _ => rfl⟩
  change (freeEntries initGdt).card + 0 = maxTasks
  rw [Nat.add_zero, free_initGdt]

theorem taskInit_eq_some {a : InitArgs} (h : s.taskInit l t a = some s') :
    s' = { s.tssInit l t a with inited := t :: s.inited } := by
  rw [taskInit] at h
  split at h
  · exact (Option.some.inj h).symm
  · cases h

theorem Ok.writeTr (h : s.Ok l) (ht : t ∈ s.used) (hc : s.currTask ∉ s.used) {hw : Hw}
    (hhw : s.hw.writeTr (BitVec.ofInt 16 (s.tssSel t)) = some hw) (cr3 : BitVec 32) :
    hw.cpu = s.hw.cpu ∧ hw.ctrl = s.hw.ctrl ∧ hw.tr = BitVec.ofInt 16 (s.tssSel t) ∧ hw.trBase = l.addr t ∧
      Ok l { s with hw := hw.setPageDir cr3, currTask := t } := by
  have hne : ∀ v ∈ s.used, v ≠ s.currTask := fun v hv he => hc (he ▸ hv)
  rw [Hw.writeTr] at hhw
  split at hhw
  · obtain rfl := Option.some.inj hhw
    have hgdt : (s.hw.setBusy (BitVec.ofInt 16 (s.tssSel t)) true).gdt =
        Function.update s.hw.gdt (s.index t) ((s.hw.gdt (s.index t)).setBusy true) := by
      rw [Hw.setBusy, h.sel_div ht]
    have hdescs := h.descs.setBusy h ht true
    rw [← hgdt] at hdescs
    refine ⟨rfl, rfl, rfl, ?_, h.tasks, h.sel, fun v hv => ?_, h.distinct, h.root, ?_, hdescs.null, h.sel_none⟩
    · rw [h.sel_div ht]
      exact (h.desc t ht).base
    · exact hdescs.only (fun w hw _ => decide_eq_false (hne w hw)) v hv
    · change (freeEntries (s.hw.setBusy (BitVec.ofInt 16 (s.tssSel t)) true).gdt).card + s.used.length = maxTasks
      rw [hdescs.free]
      exact h.free
  · cases hhw

/-- `write_tr` の前の状態。二つのタスクの TSS がある。 -/
def beforeTr (l : TssLayout) (cpu : Cpu) (ctrl : Ctrl) (idle first : InitArgs) : TssSystem :=
  { tssInit l { (reset l cpu ctrl).tssInit l idleTask idle with inited := [idleTask] } firstTask first with
    inited := [firstTask, idleTask] }

structure BeforeTr (l : TssLayout) (cpu : Cpu) (ctrl : Ctrl) (idle first : InitArgs) (s : TssSystem) : Prop where
  ok : s.Ok l
  inited : s.inited = [firstTask, idleTask]
  used : s.used = [firstTask, idleTask]
  curr : s.currTask = nullTask
  context : s.hw.cpu.context = cpu.context
  ctrl : s.hw.ctrl = ctrl
  idle : loadContext s.hw.cpu.mem (l.addr idleTask) = .start idle

theorem beforeTr_spec (l : TssLayout) (cpu : Cpu) (ctrl : Ctrl) (idle first : InitArgs) :
    BeforeTr l cpu ctrl idle first (beforeTr l cpu ctrl idle first) := by
  have h₁ := (ok_reset l cpu ctrl).tssInit l.idle_mem List.not_mem_nil (show idleTask ≠ nullTask by decide) idle
    (show 0 < maxTasks by decide)
  have hcurr : (reset l cpu ctrl).currTask = nullTask := rfl
  have hused : (reset l cpu ctrl).used = [] := rfl
  have hcpu : (reset l cpu ctrl).hw.cpu = cpu := rfl
  have hctrl : (reset l cpu ctrl).hw.ctrl = ctrl := rfl
  unfold beforeTr
  generalize reset l cpu ctrl = s₀ at h₁ hcurr hused hcpu hctrl ⊢
  generalize s₀.tssInit l idleTask idle = s₁ at h₁ ⊢
  have hu₁ : s₁.used = [idleTask] := by rw [h₁.used, hused]
  have hn₁ : firstTask ∉ s₁.used := by rw [hu₁]; decide
  have hc₁ : firstTask ≠ s₁.currTask := by rw [h₁.curr, hcurr]; decide
  have h₂ := (h₁.ok.setInited [idleTask]).tssInit l.first_mem hn₁ hc₁ first
    (show s₁.used.length < maxTasks by rw [hu₁]; decide)
  generalize TssSystem.tssInit l { s₁ with inited := [idleTask] } firstTask first = s₂ at h₂ ⊢
  refine ⟨h₂.ok.setInited _, rfl, h₂.used.trans (congrArg _ hu₁), ?_, ?_, ?_, ?_⟩
  · exact h₂.curr.trans (h₁.curr.trans hcurr)
  · exact h₂.context.trans (h₁.context.trans (by rw [hcpu]))
  · exact h₂.ctrl.trans (h₁.ctrl.trans hctrl)
  · exact (h₂.kept _ l.idle_mem (by decide)).trans h₁.start

/-- 起動の終わったところでは、最初のタスクが動いていて、CR3 は 0 である。 -/
theorem boot_holds {cpu : Cpu} {ctrl : Ctrl} {idle first : InitArgs} (hs : boot l cpu ctrl idle first = some s) :
    Holds l s (Contexts.boot cpu idle first) ∧ s.hw.ctrl = { ctrl with cr3 := 0 } := by
  rw [boot] at hs
  obtain ⟨s₁, hs₁, hrest⟩ := Option.bind_eq_some_iff.mp hs
  obtain ⟨s₂, hs₂, hrest'⟩ := Option.bind_eq_some_iff.mp hrest
  obtain ⟨hw, hhw, hend⟩ := Option.bind_eq_some_iff.mp hrest'
  obtain rfl := taskInit_eq_some hs₁
  have hb : s₂ = beforeTr l cpu ctrl idle first := taskInit_eq_some hs₂
  have h₂ := beforeTr_spec l cpu ctrl idle first
  rw [← hb] at h₂
  have hmem : firstTask ∈ s₂.used := by rw [h₂.used]; exact List.mem_cons_self
  have hc₂ : s₂.currTask ∉ s₂.used := by
    rw [h₂.used, h₂.curr]
    decide
  obtain ⟨hwc, hwr, htr, hbase, hok⟩ := h₂.ok.writeTr hmem hc₂ hhw (load32 hw.cpu.mem (l.addr firstTask + 28))
  split at hend
  swap
  · cases hend
  have hroot := hok.root _ hmem
  obtain rfl := Option.some.inj hend
  refine ⟨⟨hok, ?_, rfl, h₂.inited, h₂.used, fun v hv => ?_, hroot, hmem, htr, hbase, fun t ht hne => ?_⟩, ?_⟩
  · change hw.cpu.context = cpu.context
    rw [hwc, h₂.context]
  · change v ∈ s₂.inited
    rw [h₂.inited]
    exact h₂.used ▸ hv
  · change t ∈ s₂.used at ht
    rw [h₂.used] at ht
    obtain rfl : t = idleTask := by
      rcases List.mem_cons.mp ht with ht | ht
      · exact absurd ht hne
      · exact List.mem_singleton.mp ht
    change loadContext hw.cpu.mem (l.addr idleTask) = .start idle
    rw [hwc]
    exact h₂.idle
  · change { hw.ctrl with cr3 := load32 hw.cpu.mem (l.addr firstTask + 28) } = _
    rw [show load32 hw.cpu.mem (l.addr firstTask + 28) = 0 from hroot, hwr, h₂.ctrl]

end TssSystem

end IdealX86
