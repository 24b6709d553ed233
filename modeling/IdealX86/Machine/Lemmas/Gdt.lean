import IdealX86.Cpu.Lemmas.Gdt
import IdealX86.Machine.Lemmas.Step
import Mathlib.Order.Interval.Finset.Nat

/-!
# 記述子の取得

`task_init` の途中のタスクがどの記述子を見つけたかを追う。見つけた記述子は、`attr` が書かれるまで、ほかの探索からは空いて見える。
-/

namespace IdealX86

open Kernel (InitPc)

namespace Kernel

def InitPc.entry : InitPc → Option Nat
  | .unlock r => r
  | .desc _ i => some i
  | .tss i => some i
  | _ => none

/-- 見つけたが、まだ `attr` を書いていない記述子の番号。 -/
def InitPc.reserves : InitPc → Option Nat
  | .unlock r => r
  | .desc _ i => some i
  | _ => none

def InitPc.searches : InitPc → Bool
  | .lock => true
  | .scan _ => true
  | _ => false

/-! ## 選択子と GDT を変える歩 -/

section
variable {σ : Type} [ListStore σ] (k : Kernel σ)

theorem call_tssSel (x : Call) (v : TaskId) : ((k.call x).tasks v).tssSel = (k.tasks v).tssSel := by
  rcases call_cores k x v with h | ⟨ms, -, -, -, h⟩
  · exact (cores_ext h).2.2.2
  · have h' := congrArg Task.tssSel h; exact h'

theorem tickSlice_tssSel (v : TaskId) : (k.tickSlice.tasks v).tssSel = (k.tasks v).tssSel := by
  have h := congrArg Task.tssSel (tickSlice_cores k v)
  by_cases hv : v = k.currTask
  · simp only [hv, ↓reduceIte] at h ⊢; exact h
  · simp only [hv, ↓reduceIte] at h; exact h

theorem initLocal_tssSel {u v : TaskId} (x : InitArgs) {pc : InitPc} (h : ∀ i, pc = .tss i → v ≠ u) :
    ((k.initLocal u x pc).tasks v).tssSel = (k.tasks v).tssSel := by
  cases pc with
  | tss i => simp [initLocal, tssFields, setTask_tasks, h i rfl]
  | fields =>
      simp only [initLocal, taskFields, setTask_tasks]
      split
      · rename_i hv; rw [hv]
      · rfl
  | publish => exact (cores_ext (congrFun (taskPublish_frame k u).2.2.2.2.2 v)).2.2.2
  | _ => rfl

theorem initLocal_tss (u : TaskId) (x : InitArgs) (i : Nat) :
    ((k.initLocal u x (.tss i)).tasks u).tssSel = (i * 8 : Nat) := by
  simp [initLocal, tssFields, setTask_tasks]

theorem initLocal_gdt (u : TaskId) (x : InitArgs) {pc : InitPc} (h : ∀ j i, pc ≠ .desc j i) :
    (k.initLocal u x pc).gdt = k.gdt := by
  cases pc with
  | desc j i => exact absurd rfl (h j i)
  | publish => exact (taskPublish_frame k u).2.2.2.1
  | _ => rfl

theorem initLocal_tssAddr (u : TaskId) (x : InitArgs) (pc : InitPc) :
    (k.initLocal u x pc).tssAddr = k.tssAddr := by
  cases pc with
  | publish => exact (taskPublish_frame k u).2.2.2.2.1
  | _ => rfl

end

theorem Inv.tickSleep_tssSel {a : Kernel Queues} (h : a.Inv) (v : TaskId) :
    (a.tickSleep.tasks v).tssSel = (a.tasks v).tssSel := by
  have hc := congrArg Task.tssSel (h.tickSleep_cores v)
  by_cases hv : v ∈ a.lists.sleep
  · simp only [hv, ↓reduceIte] at hc; exact hc
  · simp only [hv, ↓reduceIte] at hc; exact hc

end Kernel

def freeEntries (g : Gdt) : Finset Nat := (Finset.Ico 1 GDT_TABLE_SIZE).filter fun i => (g i).attr = 0

theorem mem_freeEntries {g : Gdt} {i : Nat} : i ∈ freeEntries g ↔ (1 ≤ i ∧ i < GDT_TABLE_SIZE) ∧ (g i).attr = 0 := by
  rw [freeEntries, Finset.mem_filter, Finset.mem_Ico]

def Label.starts : Label → Option TaskId
  | .initStart u _ => some u
  | _ => none

namespace Machine

variable {c c' : Machine Queues} {l : Label}

def sel {σ : Type} (c : Machine σ) (t : TaskId) : Int := (c.kernel.tasks t).tssSel

inductive GdtStep (c : Machine Queues) (l : Label) (c' : Machine Queues) : Prop where
  | quiet (hl : l.starts = none) (hc : c'.code = c.code) (hg : c'.kernel.gdt = c.kernel.gdt)
      (hs : ∀ v, c'.sel v = c.sel v)
  | start (u : TaskId) (a : InitArgs) (hl : l = .initStart u a) (ho : c.code c.curr = .own)
      (hu : u ∉ c.used) (hc : c'.code = Function.update c.code c.curr (.init u a .lock))
      (hg : c'.kernel.gdt = c.kernel.gdt) (hs : ∀ v, c'.sel v = c.sel v)
  | init (u : TaskId) (a : InitArgs) (pc : InitPc) (hl : l = .initStep)
      (ho : c.code c.curr = .init u a pc)
      (hc : c'.code = Function.update c.code c.curr (.next u a (Kernel.initNext c.kernel.gdt pc)))
      (hg : c'.kernel.gdt = (c.kernel.initLocal u a pc).gdt)
      (hs : ∀ v, c'.sel v = ((c.kernel.initLocal u a pc).tasks v).tssSel)

theorem doTick_gdt (h : c.Inv) : c.doTick.kernel.gdt = c.kernel.gdt ∧
    c.doTick.kernel.tssAddr = c.kernel.tssAddr ∧ ∀ v, c.doTick.sel v = c.sel v := by
  obtain ⟨-, -, hg, ha⟩ := Kernel.tickSlice_frame c.kernel
  obtain ⟨-, -, hg', ha'⟩ := h.kernel.tickSlice.tickSleep_frame
  simp only [sel, doTick_kernel]
  split
  · refine ⟨hg'.trans hg, ha'.trans ha, fun v => ?_⟩
    rw [h.kernel.tickSlice.tickSleep_tssSel, Kernel.tickSlice_tssSel]
  · exact ⟨hg, ha, Kernel.tickSlice_tssSel c.kernel⟩

theorem doResume_gdt (h : c.Inv) (r : Suspended) : (c.doResume r).kernel.gdt = c.kernel.gdt ∧
    (c.doResume r).kernel.tssAddr = c.kernel.tssAddr ∧ ∀ v, (c.doResume r).sel v = c.sel v := by
  cases r with
  | call x => exact ⟨rfl, rfl, fun _ => rfl⟩
  | tickSlice =>
      have hk : (c.doResume .tickSlice).kernel = c.kernel.tickSleep := by simp [doResume]
      obtain ⟨-, -, hg, ha⟩ := h.kernel.tickSleep_frame
      simp only [sel, hk]
      exact ⟨hg, ha, h.kernel.tickSleep_tssSel⟩
  | tickEnd => exact ⟨rfl, rfl, fun _ => rfl⟩

theorem doInit_gdt (c : Machine Queues) (u : TaskId) (a : InitArgs) (pc : InitPc) :
    (c.doInit u a pc).kernel.gdt = (c.kernel.initLocal u a pc).gdt ∧
      (c.doInit u a pc).kernel.tssAddr = c.kernel.tssAddr ∧
      ∀ v, (c.doInit u a pc).sel v = ((c.kernel.initLocal u a pc).tasks v).tssSel := by
  simp only [sel, doInit_kernel]
  have hcall : ∀ x, initCall pc = some x → c.kernel.initLocal u a pc = c.kernel := by
    cases pc <;> intro x hx <;> first | rfl | cases hx
  cases hx : initCall pc with
  | some x =>
      rw [hcall x hx]
      exact ⟨(Kernel.call_gdt _ x).1, (Kernel.call_gdt _ x).2, Kernel.call_tssSel _ x⟩
  | none => exact ⟨rfl, Kernel.initLocal_tssAddr _ u a pc, fun _ => rfl⟩

theorem Step.tssAddr (hst : c.Step l c') (h : c.Inv) : c'.kernel.tssAddr = c.kernel.tssAddr := by
  cases hst with
  | tick hs => exact (doTick_gdt h).2.1
  | resume r hs => exact (doResume_gdt h r).2.1
  | call x hs ho hi => rw [doCall_kernel]; exact (Kernel.call_gdt _ x).2
  | initStart u a hs ho hi hn hu => rfl
  | initStep u a pc hs hc => exact (doInit_gdt c u a pc).2.1

theorem Step.gdtStep (hst : c.Step l c') (h : c.Inv) : c.GdtStep l c' := by
  cases hst with
  | tick hs => exact .quiet rfl (doTick_frame c).1 (doTick_gdt h).1 (doTick_gdt h).2.2
  | resume r hs => exact .quiet rfl (doResume_frame c r).1 (doResume_gdt h r).1 (doResume_gdt h r).2.2
  | call x hs ho hi =>
      refine .quiet rfl (doCall_code c x) ?_ fun v => ?_
      · rw [doCall_kernel]; exact (Kernel.call_gdt _ x).1
      · simp only [sel, doCall_kernel]; exact Kernel.call_tssSel _ x v
  | initStart u a hs ho hi hn hu => exact .start u a rfl ho hu rfl rfl fun _ => rfl
  | initStep u a pc hs hc =>
      exact .init u a pc rfl hc (doInit_frame c u a pc).1 (doInit_gdt c u a pc).1 (doInit_gdt c u a pc).2.2

/-! ## 記述子の取得 -/

/-- `u` の `task_init` が記述子 `i` を得ている。途中なら見つけた番号が `i` で、書き終えていれば選択子が `i` を指す。 -/
inductive Obtained {σ : Type} (c : Machine σ) (u : TaskId) (i : Nat) : Prop where
  | held (t : TaskId) (a : InitArgs) (pc : InitPc) (hc : c.code t = .init u a pc) (hp : pc.entry = some i)
  | stored (hs : c.sel u = (i * 8 : Nat))
      (hu : ∀ t a pc, c.code t = .init u a pc → pc = .fields ∨ pc = .publish)

theorem Obtained.congr {v : TaskId} {i : Nat} (h : c.Obtained v i)
    (hc : ∀ t a pc, c'.code t = .init v a pc ↔ c.code t = .init v a pc) (hs : c'.sel v = c.sel v) :
    c'.Obtained v i := by
  cases h with
  | held t a pc hco hp => exact .held t a pc ((hc t a pc).mpr hco) hp
  | stored hse hu => exact .stored (hs.trans hse) fun t a pc h => hu t a pc ((hc t a pc).mp h)

/-- 一つのタスクの `task_init` は、一つの位置にしかない。 -/
theorem Inv.same_pc (h : c.Inv) {t t' u : TaskId} {a a' : InitArgs} {pc pc' : InitPc}
    (ht : c.code t = .init u a pc) (ht' : c.code t' = .init u a' pc') : pc = pc' := by
  obtain rfl := h.unique ht ht'
  rw [ht] at ht'
  cases ht'
  rfl

theorem Obtained.unique {u : TaskId} {i j : Nat} (h : c.Inv) (hi : c.Obtained u i) (hj : c.Obtained u j) :
    i = j := by
  cases hi with
  | held t a pc hc hp =>
      cases hj with
      | held t' a' pc' hc' hp' =>
          rw [h.same_pc hc hc'] at hp
          exact Option.some.inj (hp.symm.trans hp')
      | stored hs hu => rcases hu t a pc hc with rfl | rfl <;> cases hp
  | stored hs hu =>
      cases hj with
      | held t' a' pc' hc' hp' => rcases hu t' a' pc' hc' with rfl | rfl <;> cases hp'
      | stored hs' hu' => rw [hs] at hs'; omega

theorem not_obtained_of_searches {t u : TaskId} {a : InitArgs} {pc : InitPc} {i : Nat} (h : c.Inv)
    (hc : c.code t = .init u a pc) (hp : pc.searches = true) : ¬ c.Obtained u i := by
  intro ho
  cases ho with
  | held t' a' pc' hc' hp' =>
      rw [← h.same_pc hc hc'] at hp'
      cases pc <;> simp_all [InitPc.searches, InitPc.entry]
  | stored hs hu => rcases hu t a pc hc with rfl | rfl <;> cases hp

theorem code_update_iff {t₀ u v : TaskId} {a : InitArgs} {p : InitPc} {r : Option InitPc} (hv : v ≠ u)
    {f : TaskId → Code} (hf : f t₀ = .init u a p ∨ f t₀ = .own) (t : TaskId) (a' : InitArgs) (pc' : InitPc) :
    Function.update f t₀ (.next u a r) t = .init v a' pc' ↔ f t = .init v a' pc' := by
  rw [Function.update_apply]
  split
  · rename_i ht
    rw [ht]
    constructor
    · intro h
      cases r <;> cases h
      exact absurd rfl hv
    · intro h
      rcases hf with hf | hf <;> (rw [hf] at h; cases h)
      exact absurd rfl hv
  · exact Iff.rfl

theorem code_next (h : c.Inv) {u : TaskId} {a : InitArgs} {pc : InitPc} (ho : c.code c.curr = .init u a pc)
    (hc : c'.code = Function.update c.code c.curr (.next u a (Kernel.initNext c.kernel.gdt pc)))
    {t : TaskId} {a' : InitArgs} {pc' : InitPc} (ht : c'.code t = .init u a' pc') :
    t = c.curr ∧ Kernel.initNext c.kernel.gdt pc = some pc' := by
  rw [hc, Function.update_apply] at ht
  split at ht
  · rename_i he
    cases hn : Kernel.initNext c.kernel.gdt pc <;> rw [hn] at ht <;> cases ht
    exact ⟨he, rfl⟩
  · rename_i he; exact absurd (h.unique ht ho) he

theorem GdtStep.obtained_self (h : c.Inv) {u : TaskId} {a : InitArgs} {pc : InitPc} {i : Nat}
    (hcode : c.code c.curr = .init u a pc)
    (hc : c'.code = Function.update c.code c.curr (.next u a (Kernel.initNext c.kernel.gdt pc)))
    (hs : ∀ v, c'.sel v = ((c.kernel.initLocal u a pc).tasks v).tssSel) (ho : c.Obtained u i) :
    c'.Obtained u i := by
  have hcurr : ∀ pc', Kernel.initNext c.kernel.gdt pc = some pc' → c'.code c.curr = .init u a pc' := by
    intro pc' hn
    rw [hc, Function.update_self, hn]
    rfl
  have hn : pc.searches = false := by
    by_contra hp
    exact not_obtained_of_searches h hcode (by simpa using hp) ho
  have hsel : (∀ j, pc ≠ .tss j) → c'.sel u = c.sel u := fun hp => by
    rw [hs, Kernel.initLocal_tssSel _ _ fun j he => absurd he (hp j)]; rfl
  cases ho with
  | held t a' pc' hc' hp =>
      rw [← h.same_pc hcode hc'] at hp
      cases pc with
      | unlock r => cases hp; exact .held _ _ _ (hcurr (.desc 0 i) rfl) rfl
      | desc j i' =>
          cases hp
          by_cases hj : j < 4
          · exact .held _ _ _ (hcurr (.desc (j + 1) i) (if_pos hj)) rfl
          · exact .held _ _ _ (hcurr (.tss i) (if_neg hj)) rfl
      | tss i' =>
          cases hp
          refine .stored ((hs u).trans (Kernel.initLocal_tss c.kernel u a i)) fun t a' pc' ht => ?_
          have hx := (code_next h hcode hc ht).2
          cases hx
          exact .inl rfl
      | _ => cases hp
  | stored hse hu =>
      rcases hu _ _ _ hcode with rfl | rfl
      · refine .stored ((hsel (by simp)).trans hse) fun t a' pc' ht => ?_
        have hx := (code_next h hcode hc ht).2
        cases hx
        exact .inr rfl
      · refine .stored ((hsel (by simp)).trans hse) fun t a' pc' ht => ?_
        have hx := (code_next h hcode hc ht).2
        cases hx

theorem GdtStep.obtained (hst : c.GdtStep l c') (h : c.Inv) {v : TaskId} {i : Nat} (hu : v ∈ c.used)
    (ho : c.Obtained v i) : c'.Obtained v i := by
  cases hst with
  | quiet hl hc hg hs => exact ho.congr (fun t a pc => by rw [hc]) (hs v)
  | start u a hl hown hun hc hg hs =>
      have hv : v ≠ u := fun he => hun (he ▸ hu)
      refine ho.congr (fun t a' pc' => ?_) (hs v)
      rw [hc]
      exact code_update_iff (r := some .lock) (p := .lock) hv (.inr hown) t a' pc'
  | init u a pc hl hcode hc hg hs =>
      by_cases hv : v = u
      · subst hv; exact GdtStep.obtained_self h hcode hc hs ho
      · refine ho.congr (fun t a' pc' => ?_) ?_
        · rw [hc]; exact code_update_iff hv (.inl hcode) t a' pc'
        · rw [hs, Kernel.initLocal_tssSel _ _ fun _ _ => hv]; rfl

/-! ## 不変条件 -/

/-- 探索が、ほかの `task_init` が見つけてまだ書いていない記述子に行き当たらない。 -/
def NoClash {σ : Type} (c : Machine σ) (l : Label) : Prop :=
  ∀ u a i, l = .initStep → c.code c.curr = .init u a (.scan i) → i < GDT_TABLE_SIZE →
    (c.kernel.gdt i).attr = 0 →
    ∀ t u' a' pc', t ≠ c.curr → c.code t = .init u' a' pc' → pc'.reserves ≠ some i

/-- 書き終えた記述子 `i` は `u` の TSS を指し、空いて見えない。 -/
structure Complete (c : Machine Queues) (u : TaskId) (i : Nat) : Prop where
  base : (c.kernel.gdt i).base = c.kernel.tssAddr u
  attr : (c.kernel.gdt i).attr ≠ 0

/-- GDT が `g₀` のときから始まった `task_init`（対象の並びが `ts`）についての不変条件。 -/
structure GdtInv (g₀ : Gdt) (ts : List TaskId) (c : Machine Queues) : Prop where
  started : ∀ {t u a pc}, c.code t = .init u a pc → u ∈ ts
  used : ∀ {u}, u ∈ ts → u ∈ c.used
  /-- 始まった `task_init` は、探している途中か、もう記述子を得ている。 -/
  progress : ∀ {u}, u ∈ ts →
    (∃ t a pc, c.code t = .init u a pc ∧ pc.searches = true) ∨ ∃ i, c.Obtained u i
  distinct : ∀ {u v i}, u ∈ ts → v ∈ ts → c.Obtained u i → c.Obtained v i → u = v
  scanned : ∀ {t u a i}, c.code t = .init u a (.scan i) → ∀ j, 1 ≤ j → j < i → (c.kernel.gdt j).attr ≠ 0
  marked : ∀ i, (c.kernel.gdt i).attr ≠ 0 → (g₀ i).attr ≠ 0 ∨ ∃ u ∈ ts, c.Obtained u i
  /-- 得た記述子は、まだ書いている途中か、書き終えている。 -/
  content : ∀ {u i}, u ∈ ts → c.Obtained u i →
    (∃ t a pc, c.code t = .init u a pc ∧ pc.reserves = some i) ∨ c.Complete u i
  writing : ∀ {t u a j i}, c.code t = .init u a (.desc j i) →
    j ≤ 4 ∧ Written (c.kernel.tssDesc u) j (c.kernel.gdt i)

variable {g₀ : Gdt} {ts : List TaskId}

theorem GdtInv.scan_lt (hg : GdtInv g₀ ts c) (h : c.Inv) (hfree : ts.length ≤ (freeEntries g₀).card)
    {t u : TaskId} {a : InitArgs} {i : Nat} (hc : c.code t = .init u a (.scan i)) : i < GDT_TABLE_SIZE := by
  by_contra hi
  -- 空いていた記述子はすべて取られていて、取ったのは `u` のほかのタスクである。
  have htaken : ∀ j ∈ freeEntries g₀, ∃ v ∈ ts, v ≠ u ∧ c.Obtained v j := by
    intro j hj
    rw [mem_freeEntries] at hj
    obtain ⟨⟨h1, hlt⟩, h0⟩ := hj
    obtain ⟨v, hv, ho⟩ := (hg.marked j (hg.scanned hc j h1 (by omega))).resolve_left fun hn => hn h0
    refine ⟨v, hv, fun he => ?_, ho⟩
    exact not_obtained_of_searches h hc rfl (he ▸ ho)
  choose! f hf using htaken
  have hle : (freeEntries g₀).card ≤ (ts.toFinset.erase u).card := by
    refine Finset.card_le_card_of_injOn f (fun j hj => ?_) fun j hj k hk he => ?_
    · exact Finset.mem_coe.mpr (Finset.mem_erase.mpr ⟨(hf j hj).2.1, List.mem_toFinset.mpr (hf j hj).1⟩)
    · have ho := (hf k hk).2.2
      rw [← he] at ho
      exact Obtained.unique h (hf j hj).2.2 ho
  have hu : u ∈ ts.toFinset := List.mem_toFinset.mpr (hg.started hc)
  have hpos := Finset.card_pos.mpr ⟨u, hu⟩
  have hlen := List.toFinset_card_le ts
  rw [Finset.card_erase_of_mem hu] at hle
  omega

/-! ## 一歩での保存 -/

theorem Obtained.congr_iff {v : TaskId} {i : Nat}
    (hc : ∀ t a pc, c'.code t = .init v a pc ↔ c.code t = .init v a pc) (hs : c'.sel v = c.sel v) :
    c'.Obtained v i ↔ c.Obtained v i :=
  ⟨fun h => h.congr (fun t a pc => (hc t a pc).symm) hs.symm, fun h => h.congr hc hs⟩

theorem GdtInv.quiet (hg : GdtInv g₀ ts c) (hc : c'.code = c.code) (hgd : c'.kernel.gdt = c.kernel.gdt)
    (hs : ∀ v, c'.sel v = c.sel v) (ha : c'.kernel.tssAddr = c.kernel.tssAddr)
    (hu : ∀ u ∈ c.used, u ∈ c'.used) : GdtInv g₀ ts c' := by
  have ho : ∀ v i, c'.Obtained v i ↔ c.Obtained v i := fun v i =>
    Obtained.congr_iff (fun t a pc => by rw [hc]) (hs v)
  have hd : ∀ u, c'.kernel.tssDesc u = c.kernel.tssDesc u := fun u => by simp [Kernel.tssDesc, ha]
  refine ⟨?_, fun h => hu _ (hg.used h), ?_, ?_, ?_, ?_, ?_, ?_⟩
  · rw [hc]; exact hg.started
  · intro u hm; simp only [hc, ho]; exact hg.progress hm
  · intro u v i h₁ h₂ h₃ h₄; exact hg.distinct h₁ h₂ ((ho u i).mp h₃) ((ho v i).mp h₄)
  · rw [hc, hgd]; exact hg.scanned
  · intro i; simp only [hgd, ho]; exact hg.marked i
  · intro u i h₁ h₂
    rw [hc]
    refine (hg.content h₁ ((ho u i).mp h₂)).imp_right fun h => ?_
    exact ⟨by rw [hgd, ha]; exact h.base, hgd ▸ h.attr⟩
  · intro t u a j i h
    rw [hc] at h
    rw [hgd, hd]
    exact hg.writing h

/-- `u` のほかの `task_init` は動かない。 -/
structure OthersRest (c c' : Machine Queues) (u : TaskId) : Prop where
  code : ∀ {v}, v ≠ u → ∀ t a pc, c'.code t = .init v a pc ↔ c.code t = .init v a pc
  sel : ∀ {v}, v ≠ u → c'.sel v = c.sel v
  tssAddr : c'.kernel.tssAddr = c.kernel.tssAddr
  used : ∀ v ∈ c.used, v ∈ c'.used

/-- `u` の `task_init` だけについての条件。 -/
structure OwnGdt (c : Machine Queues) (u : TaskId) : Prop where
  used : u ∈ c.used
  progress : (∃ t a pc, c.code t = .init u a pc ∧ pc.searches = true) ∨ ∃ i, c.Obtained u i
  scanned : ∀ {t a i}, c.code t = .init u a (.scan i) → ∀ j, 1 ≤ j → j < i → (c.kernel.gdt j).attr ≠ 0
  content : ∀ {i}, c.Obtained u i →
    (∃ t a pc, c.code t = .init u a pc ∧ pc.reserves = some i) ∨ c.Complete u i
  writing : ∀ {t a j i}, c.code t = .init u a (.desc j i) →
    j ≤ 4 ∧ Written (c.kernel.tssDesc u) j (c.kernel.gdt i)

section
variable {u v : TaskId}

theorem OthersRest.obtained (hr : OthersRest c c' u) (hv : v ≠ u) {i : Nat} :
    c'.Obtained v i ↔ c.Obtained v i := Obtained.congr_iff (hr.code hv) (hr.sel hv)

theorem GdtInv.own (hg : GdtInv g₀ ts c) (hu : u ∈ ts) : c.OwnGdt u :=
  ⟨hg.used hu, hg.progress hu, hg.scanned, hg.content hu, hg.writing⟩

/-- 動かない `task_init` の条件は、その記述子が書き換わらなければ保たれる。 -/
theorem OwnGdt.rest (ho : c.OwnGdt v) (hr : OthersRest c c' u) (hv : v ≠ u)
    (hkeep : ∀ k, (c.kernel.gdt k).attr ≠ 0 → (c'.kernel.gdt k).attr ≠ 0)
    (hsame : ∀ k, c.Obtained v k → c'.kernel.gdt k = c.kernel.gdt k) : c'.OwnGdt v := by
  refine ⟨hr.used v ho.used, ?_, ?_, ?_, ?_⟩
  · rcases ho.progress with ⟨t, a, pc, ht, hp⟩ | ⟨i, hi⟩
    · exact .inl ⟨t, a, pc, (hr.code hv t a pc).mpr ht, hp⟩
    · exact .inr ⟨i, (hr.obtained hv).mpr hi⟩
  · intro t a i ht j h₁ hj
    exact hkeep j (ho.scanned ((hr.code hv t a _).mp ht) j h₁ hj)
  · intro i hi
    have hi' := (hr.obtained hv).mp hi
    have hk := hsame i hi'
    rcases ho.content hi' with ⟨t, a, pc, ht, hp⟩ | hcm
    · exact .inl ⟨t, a, pc, (hr.code hv t a pc).mpr ht, hp⟩
    · exact .inr ⟨by rw [hk, hr.tssAddr]; exact hcm.base, hk ▸ hcm.attr⟩
  · intro t a j i ht
    have ht' := (hr.code hv t a _).mp ht
    rw [hsame i (.held _ _ _ ht' rfl), Kernel.tssDesc, hr.tssAddr]
    exact ho.writing ht'

/-- `u` だけが動く歩では、`u` の条件と、`u` の得た記述子がほかと重ならないことだけを確かめればよい。 -/
theorem GdtInv.move {ts' : List TaskId} (hg : GdtInv g₀ ts c) (hr : OthersRest c c' u)
    (hts : ∀ v, v ∈ ts' ↔ v ∈ ts ∨ v = u) (hown : c'.OwnGdt u)
    (hkeep : ∀ k, (c.kernel.gdt k).attr ≠ 0 → (c'.kernel.gdt k).attr ≠ 0)
    (hsame : ∀ v ∈ ts, v ≠ u → ∀ k, c.Obtained v k → c'.kernel.gdt k = c.kernel.gdt k)
    (hapart : ∀ v ∈ ts, v ≠ u → ∀ k, c'.Obtained u k → ¬ c.Obtained v k)
    (hmark : ∀ k, (c'.kernel.gdt k).attr ≠ 0 → (c.kernel.gdt k).attr ≠ 0 ∨ c'.Obtained u k)
    (hstay : u ∈ ts → ∀ k, c.Obtained u k → c'.Obtained u k) : GdtInv g₀ ts' c' := by
  have hu : u ∈ ts' := (hts u).mpr (.inr rfl)
  have hall : ∀ {v}, v ∈ ts' → c'.OwnGdt v := by
    intro v hv
    by_cases hvu : v = u
    · rw [hvu]; exact hown
    · have hv' := ((hts v).mp hv).resolve_right hvu
      exact (hg.own hv').rest hr hvu hkeep (hsame v hv' hvu)
  have hstarted : ∀ {t v a pc}, c'.code t = .init v a pc → v ∈ ts' := by
    intro t v a pc ht
    by_cases hvu : v = u
    · rw [hvu]; exact hu
    · exact (hts v).mpr (.inl (hg.started ((hr.code hvu t a pc).mp ht)))
  refine ⟨hstarted, fun hv => (hall hv).used, fun hv => (hall hv).progress, ?_,
    fun ht => (hall (hstarted ht)).scanned ht, ?_, fun hv => (hall hv).content,
    fun ht => (hall (hstarted ht)).writing ht⟩
  · intro v w k hv hw hvk hwk
    by_cases hvu : v = u <;> by_cases hwu : w = u
    · rw [hvu, hwu]
    · subst hvu
      exact absurd ((hr.obtained hwu).mp hwk) (hapart w (((hts w).mp hw).resolve_right hwu) hwu k hvk)
    · subst hwu
      exact absurd ((hr.obtained hvu).mp hvk) (hapart v (((hts v).mp hv).resolve_right hvu) hvu k hwk)
    · exact hg.distinct (((hts v).mp hv).resolve_right hvu) (((hts w).mp hw).resolve_right hwu)
        ((hr.obtained hvu).mp hvk) ((hr.obtained hwu).mp hwk)
  · intro k hk
    rcases hmark k hk with hk | hk
    · rcases hg.marked k hk with hm | ⟨v, hv, hvk⟩
      · exact .inl hm
      · refine .inr ⟨v, (hts v).mpr (.inl hv), ?_⟩
        by_cases hvu : v = u
        · subst hvu; exact hstay hv k hvk
        · exact (hr.obtained hvu).mpr hvk
    · exact .inr ⟨u, hu, hk⟩

end

theorem GdtInv.start (hg : GdtInv g₀ ts c) (h' : c'.Inv) {u : TaskId} {a : InitArgs}
    (ho : c.code c.curr = .own) (hun : u ∉ c.used)
    (hc : c'.code = Function.update c.code c.curr (.init u a .lock)) (hgd : c'.kernel.gdt = c.kernel.gdt)
    (hs : ∀ v, c'.sel v = c.sel v) (ha : c'.kernel.tssAddr = c.kernel.tssAddr)
    (hu : ∀ u ∈ c.used, u ∈ c'.used) : GdtInv g₀ (ts ++ [u]) c' := by
  have hcu : c'.code c.curr = .init u a .lock := by rw [hc, Function.update_self]
  have hr : OthersRest c c' u := by
    refine ⟨fun hv t a' pc' => ?_, fun _ => hs _, ha, hu⟩
    rw [hc]
    exact code_update_iff (r := some .lock) (p := .lock) hv (.inr ho) t a' pc'
  have hnu : ∀ {i}, ¬ c'.Obtained u i := not_obtained_of_searches h' hcu rfl
  -- `u` の位置は `lock` だけである。
  have hlock : ∀ {t a' pc'}, c'.code t = .init u a' pc' → pc' = .lock := fun ht => h'.same_pc ht hcu
  have hown : c'.OwnGdt u := by
    refine ⟨(h'.fresh hcu).1, .inl ⟨_, a, .lock, hcu, rfl⟩, fun ht => ?_, fun ho => absurd ho hnu, fun ht => ?_⟩
    · cases hlock ht
    · cases hlock ht
  refine hg.move hr (by simp) hown (fun k hk => hgd ▸ hk) (fun _ _ _ k _ => by rw [hgd]) ?_ ?_ ?_
  · exact fun _ _ _ k hk => absurd hk hnu
  · exact fun k hk => .inl (hgd ▸ hk)
  · exact fun hm => absurd (hg.used hm) hun

/-- 今のタスクの `task_init` が一つ進む歩。`g` は進んだ後の GDT である。 -/
structure InitStep (c c' : Machine Queues) (u : TaskId) (a : InitArgs) (pc : InitPc) : Prop where
  inv : c.Inv
  inv' : c'.Inv
  before : c.code c.curr = .init u a pc
  code : c'.code = Function.update c.code c.curr (.next u a (Kernel.initNext c.kernel.gdt pc))
  gdt : c'.kernel.gdt = (c.kernel.initLocal u a pc).gdt
  sel : ∀ v, c'.sel v = ((c.kernel.initLocal u a pc).tasks v).tssSel
  tssAddr : c'.kernel.tssAddr = c.kernel.tssAddr
  used : ∀ u ∈ c.used, u ∈ c'.used

section
variable {u : TaskId} {a : InitArgs} {pc : InitPc}

theorem InitStep.rest (hi : InitStep c c' u a pc) : OthersRest c c' u := by
  refine ⟨fun hv t a' pc' => ?_, fun hv => ?_, hi.tssAddr, hi.used⟩
  · rw [hi.code]
    exact code_update_iff hv (.inl hi.before) t a' pc'
  · rw [hi.sel, Kernel.initLocal_tssSel _ _ fun _ _ => hv]
    rfl

theorem InitStep.self_code (hi : InitStep c c' u a pc) {t : TaskId} {a' : InitArgs} {pc' : InitPc}
    (ht : c'.code t = .init u a' pc') : Kernel.initNext c.kernel.gdt pc = some pc' :=
  (code_next hi.inv hi.before hi.code ht).2

theorem InitStep.next_code (hi : InitStep c c' u a pc) {pc' : InitPc}
    (hn : Kernel.initNext c.kernel.gdt pc = some pc') : c'.code c.curr = .init u a pc' := by
  rw [hi.code, Function.update_self, hn]
  rfl

theorem InitStep.self_obtained (hi : InitStep c c' u a pc) {i : Nat} (ho : c.Obtained u i) :
    c'.Obtained u i := GdtStep.obtained_self hi.inv hi.before hi.code hi.sel ho

/-- 探し終えた `task_init` は、記述子を得ている。 -/
theorem InitStep.obtains (hi : InitStep c c' u a pc) (hg : GdtInv g₀ ts c) (hpc : pc.searches = false) :
    ∃ i, c.Obtained u i := by
  rcases hg.progress (hg.started hi.before) with ⟨t, a', pc', ht, hp⟩ | ho
  · rw [hi.inv.same_pc ht hi.before, hpc] at hp
    cases hp
  · exact ho

theorem InitStep.obtained_iff (hi : InitStep c c' u a pc) (hg : GdtInv g₀ ts c)
    (hpc : pc.searches = false ∨ ∃ pc', Kernel.initNext c.kernel.gdt pc = some pc' ∧ pc'.searches = true)
    {i : Nat} : c'.Obtained u i ↔ c.Obtained u i := by
  refine ⟨fun ho => ?_, hi.self_obtained⟩
  rcases hpc with hpc | ⟨pc', hn, hp⟩
  · obtain ⟨j, hj⟩ := hi.obtains hg hpc
    rwa [Obtained.unique hi.inv' ho (hi.self_obtained hj)]
  · exact absurd ho (not_obtained_of_searches hi.inv' (hi.next_code hn) hp)

/-- すでに始まった `task_init` の歩では、対象の並びは変わらない。 -/
theorem InitStep.mem_iff (hi : InitStep c c' u a pc) (hg : GdtInv g₀ ts c) (v : TaskId) :
    v ∈ ts ↔ v ∈ ts ∨ v = u := by
  refine ⟨.inl, fun h => h.elim id fun he => ?_⟩
  rw [he]
  exact hg.started hi.before

/-- 見つける歩のほかの `task_init` の歩。今のタスク自身の条件だけを前提に残す。 -/
theorem GdtInv.advance (hg : GdtInv g₀ ts c) (hi : InitStep c c' u a pc)
    (hpc : pc.searches = false ∨ ∃ pc', Kernel.initNext c.kernel.gdt pc = some pc' ∧ pc'.searches = true)
    (hkeep : ∀ k, (c.kernel.gdt k).attr ≠ 0 → (c'.kernel.gdt k).attr ≠ 0)
    (hsame : ∀ k, ¬ c.Obtained u k → c'.kernel.gdt k = c.kernel.gdt k)
    (hscan : ∀ i, Kernel.initNext c.kernel.gdt pc = some (.scan i) →
      ∀ j, 1 ≤ j → j < i → (c.kernel.gdt j).attr ≠ 0)
    (hcont : ∀ i, c.Obtained u i →
      (∃ pc', Kernel.initNext c.kernel.gdt pc = some pc' ∧ pc'.reserves = some i) ∨ c'.Complete u i)
    (hwrite : ∀ j i, Kernel.initNext c.kernel.gdt pc = some (.desc j i) →
      j ≤ 4 ∧ Written (c.kernel.tssDesc u) j (c'.kernel.gdt i)) : GdtInv g₀ ts c' := by
  have hob : ∀ {i}, c'.Obtained u i ↔ c.Obtained u i := hi.obtained_iff hg hpc
  have hu := hg.started hi.before
  refine hg.move hi.rest (hi.mem_iff hg) ⟨hi.used _ (hg.used hu), ?_, ?_, ?_, ?_⟩ hkeep ?_ ?_ ?_ fun _ k => hob.mpr
  · rcases hpc with hpc | ⟨pc', hn, hp⟩
    · obtain ⟨i, ho⟩ := hi.obtains hg hpc
      exact .inr ⟨i, hob.mpr ho⟩
    · exact .inl ⟨_, _, _, hi.next_code hn, hp⟩
  · intro t a' i ht j h₁ hj
    exact hkeep j (hscan i (hi.self_code ht) j h₁ hj)
  · intro i ho
    rcases hcont i (hob.mp ho) with ⟨pc', hn, hp⟩ | hcm
    · exact .inl ⟨_, _, pc', hi.next_code hn, hp⟩
    · exact .inr hcm
  · intro t a' j i ht
    rw [Kernel.tssDesc, hi.tssAddr]
    exact hwrite j i (hi.self_code ht)
  · -- ほかのタスクの記述子は書かれない。
    exact fun v hv hne k ho => hsame k fun hk => hne (hg.distinct hv hu ho hk)
  · exact fun v hv hne k hk ho => hne (hg.distinct hv hu ho (hob.mp hk))
  · intro k hk
    by_cases ho : c.Obtained u k
    · exact .inr (hob.mpr ho)
    · exact .inl (hsame k ho ▸ hk)

theorem InitStep.entry_of_obtained (hi : InitStep c c' u a pc) {i : Nat} (ho : c.Obtained u i) :
    pc.entry = some i ∨ ((pc = .fields ∨ pc = .publish) ∧ pc.entry = none) := by
  cases ho with
  | held t a' pc' hc hp =>
      rw [hi.inv.same_pc hc hi.before] at hp
      exact .inl hp
  | stored hs hu => rcases hu _ _ _ hi.before with rfl | rfl <;> simp [InitPc.entry]

theorem InitStep.gdt_eq (hi : InitStep c c' u a pc) (hp : ∀ j i, pc ≠ .desc j i) :
    c'.kernel.gdt = c.kernel.gdt := by
  rw [hi.gdt, Kernel.initLocal_gdt _ _ _ hp]

theorem GdtInv.complete_of_done (hg : GdtInv g₀ ts c) (hi : InitStep c c' u a pc)
    (hp : ∀ j i, pc ≠ .desc j i) (hr : pc.reserves = none) {i : Nat} (ho : c.Obtained u i) :
    c'.Complete u i := by
  rcases hg.content (hg.started hi.before) ho with ⟨t, a', pc', ht, hp'⟩ | hcm
  · rw [hi.inv.same_pc ht hi.before, hr] at hp'
    cases hp'
  · exact ⟨by rw [hi.gdt_eq hp, hi.tssAddr]; exact hcm.base, hi.gdt_eq hp ▸ hcm.attr⟩

theorem GdtInv.pass (hg : GdtInv g₀ ts c) (hi : InitStep c c' u a pc) (hp : ∀ j i, pc ≠ .desc j i)
    (hpc : pc.searches = false ∨ ∃ pc', Kernel.initNext c.kernel.gdt pc = some pc' ∧ pc'.searches = true)
    (hscan : ∀ i, Kernel.initNext c.kernel.gdt pc = some (.scan i) →
      ∀ j, 1 ≤ j → j < i → (c.kernel.gdt j).attr ≠ 0)
    (hcont : ∀ i, c.Obtained u i →
      (∃ pc', Kernel.initNext c.kernel.gdt pc = some pc' ∧ pc'.reserves = some i) ∨ c'.Complete u i)
    (hdesc : ∀ j i, Kernel.initNext c.kernel.gdt pc = some (.desc j i) → j = 0) : GdtInv g₀ ts c' := by
  have hgd := hi.gdt_eq hp
  refine hg.advance hi hpc (fun k hk => hgd ▸ hk) (fun k _ => by rw [hgd]) hscan hcont fun j i hn => ?_
  rw [hdesc j i hn]
  exact ⟨by omega, Written.zero _ _⟩

theorem GdtInv.pass_done (hg : GdtInv g₀ ts c) (hi : InitStep c c' u a pc) (hp : ∀ j i, pc ≠ .desc j i)
    (hs : pc.searches = false) (hr : pc.reserves = none)
    (hscan : ∀ i, Kernel.initNext c.kernel.gdt pc ≠ some (.scan i))
    (hdesc : ∀ j i, Kernel.initNext c.kernel.gdt pc ≠ some (.desc j i)) : GdtInv g₀ ts c' :=
  hg.pass hi hp (.inl hs) (fun i hn => absurd hn (hscan i))
    (fun _ ho => .inr (hg.complete_of_done hi hp hr ho)) (fun j i hn => absurd hn (hdesc j i))

theorem tssDesc_attr (k : Kernel Queues) (u : TaskId) (d : SegmentDesc) :
    (descStore (k.tssDesc u) 4 d).attr ≠ 0 := by
  simp [descStore, Kernel.tssDesc, descValue, sizeofTss, SEG_P_PRESENT, SEG_DPL0, SEG_TYPE_TSS]

theorem descStore_attr (v : DescValue) {j : Nat} (hj : j < 4) (d : SegmentDesc) :
    (descStore v j d).attr = d.attr := by
  match j, hj with
  | 0, _ => rfl
  | 1, _ => rfl
  | 2, _ => rfl
  | 3, _ => rfl

theorem GdtInv.write {j i : Nat} (hg : GdtInv g₀ ts c) (hi : InitStep c c' u a (.desc j i)) :
    GdtInv g₀ ts c' := by
  obtain ⟨hj, hw⟩ := hg.writing hi.before
  have hgd : c'.kernel.gdt =
      Function.update c.kernel.gdt i (descStore (c.kernel.tssDesc u) j (c.kernel.gdt i)) := hi.gdt
  have hgi : c'.kernel.gdt i = descStore (c.kernel.tssDesc u) j (c.kernel.gdt i) := by
    rw [hgd, Function.update_self]
  have ho : c.Obtained u i := .held _ _ _ hi.before rfl
  have hstore := hw.store
  refine hg.advance hi (.inl rfl) ?_ ?_ ?_ ?_ ?_
  · intro k hk
    by_cases hki : k = i
    · subst hki
      rw [hgi]
      by_cases h4 : j < 4
      · rw [descStore_attr _ h4]; exact hk
      · rw [show j = 4 by omega]; exact tssDesc_attr _ _ _
    · rw [hgd, Function.update_of_ne hki]; exact hk
  · intro k hk
    have hki : k ≠ i := fun he => hk (he ▸ ho)
    rw [hgd, Function.update_of_ne hki]
  · intro k hn
    simp only [Kernel.initNext] at hn
    split at hn <;> cases hn
  · intro k hk
    obtain rfl := Obtained.unique hi.inv hk ho
    by_cases h4 : j < 4
    · exact .inl ⟨_, if_pos h4, rfl⟩
    · refine .inr ⟨?_, ?_⟩
      · rw [hgi, hstore.base (by omega), hi.tssAddr]; rfl
      · rw [hgi, show j = 4 by omega]; exact tssDesc_attr _ _ _
  · intro j' i' hn
    simp only [Kernel.initNext] at hn
    split at hn
    · cases hn; exact ⟨by omega, hgi ▸ hstore⟩
    · cases hn

/-- 空いている記述子を見つける歩。ほかに見つけたタスクがなければ、得た記述子は重ならない。 -/
theorem GdtInv.find {i : Nat} (hg : GdtInv g₀ ts c) (hi : InitStep c c' u a (.scan i))
    (hlt : i < GDT_TABLE_SIZE) (h0 : (c.kernel.gdt i).attr = 0)
    (hcl : ∀ t u' a' pc', t ≠ c.curr → c.code t = .init u' a' pc' → pc'.reserves ≠ some i) :
    GdtInv g₀ ts c' := by
  have hn : Kernel.initNext c.kernel.gdt (.scan i) = some (.unlock (some i)) := by
    simp [Kernel.initNext, hlt, h0]
  have hgd := hi.gdt_eq (by simp)
  have hcu := hi.next_code hn
  have hu := hg.started hi.before
  have hou : c'.Obtained u i := .held _ _ _ hcu rfl
  have hnot : ∀ {v}, v ∈ ts → v ≠ u → ¬ c.Obtained v i := by
    intro v hv hne ho
    rcases hg.content hv ho with ⟨t, a', pc', ht, hp⟩ | hcm
    · refine hcl t v a' pc' (fun he => ?_) ht hp
      rw [he, hi.before] at ht
      cases ht
      exact hne rfl
    · exact hcm.attr h0
  have hself : ∀ {t a' pc'}, c'.code t = .init u a' pc' → pc' = .unlock (some i) := fun ht =>
    Option.some.inj ((hi.self_code ht).symm.trans hn)
  have hown : c'.OwnGdt u := by
    refine ⟨hi.used _ (hg.used hu), .inr ⟨i, hou⟩, fun ht => ?_, fun ho => ?_, fun ht => ?_⟩
    · cases hself ht
    · obtain rfl := Obtained.unique hi.inv' ho hou
      exact .inl ⟨_, _, _, hcu, rfl⟩
    · cases hself ht
  refine hg.move hi.rest (hi.mem_iff hg) hown (fun k hk => hgd ▸ hk) (fun _ _ _ k _ => by rw [hgd]) ?_ ?_ ?_
  · intro v hv hne k hk ho
    obtain rfl := Obtained.unique hi.inv' hk hou
    exact hnot hv hne ho
  · exact fun k hk => .inl (hgd ▸ hk)
  · exact fun _ k => hi.self_obtained

theorem GdtInv.initStep (hg : GdtInv g₀ ts c) (hi : InitStep c c' u a pc)
    (hfree : ts.length ≤ (freeEntries g₀).card) (hcl : NoClash c .initStep) : GdtInv g₀ ts c' := by
  have hno : pc.searches = true → ∀ i, ¬ c.Obtained u i := fun hp i =>
    not_obtained_of_searches hi.inv hi.before hp
  cases pc with
  | lock =>
      refine hg.pass hi (by simp) (.inr ⟨_, rfl, rfl⟩) (fun i hn => ?_) (fun i ho => absurd ho (hno rfl i))
        (by simp [Kernel.initNext])
      cases hn
      intro j h1 hj
      omega
  | scan i =>
      have hlt := hg.scan_lt hi.inv hfree hi.before
      by_cases h0 : (c.kernel.gdt i).attr = 0
      · exact hg.find hi hlt h0 (hcl u a i rfl hi.before hlt h0)
      · have hn : Kernel.initNext c.kernel.gdt (.scan i) = some (.scan (i + 1)) := by
          simp only [Kernel.initNext, if_pos hlt, if_neg h0]
        refine hg.pass hi (by simp) (.inr ⟨_, hn, rfl⟩) (fun k hk => ?_) (fun k ho => absurd ho (hno rfl k))
          fun j k hk => ?_
        · rw [hn] at hk
          cases hk
          intro j h1 hj
          by_cases hji : j = i
          · rw [hji]; exact h0
          · exact hg.scanned hi.before j h1 (by omega)
        · rw [hn] at hk; cases hk
  | unlock r =>
      refine hg.pass hi (by simp) (.inl rfl) (fun i hn => by cases r <;> cases hn) (fun i ho => ?_)
        fun j i hn => by cases r <;> cases hn; rfl
      rcases hi.entry_of_obtained ho with he | ⟨he | he, -⟩
      · cases he; exact .inl ⟨_, rfl, rfl⟩
      · cases he
      · cases he
  | desc j i => exact hg.write hi
  | tss i => exact hg.pass_done hi (by simp) rfl rfl (by simp [Kernel.initNext]) (by simp [Kernel.initNext])
  | fields => exact hg.pass_done hi (by simp) rfl rfl (by simp [Kernel.initNext]) (by simp [Kernel.initNext])
  | publish => exact hg.pass_done hi (by simp) rfl rfl (by simp [Kernel.initNext]) (by simp [Kernel.initNext])

end

theorem Step.used_mono (hst : c.Step l c') : ∀ u ∈ c.used, u ∈ c'.used := by
  intro u hu
  cases hst with
  | tick hs => rw [(doTick_frame c).2.1]; exact hu
  | resume r hs => rw [(doResume_frame c r).2]; exact hu
  | call x hs ho hi => rw [doCall_used]; exact hu
  | initStart v a hs ho hi hn hv => exact List.mem_cons_of_mem _ hu
  | initStep v a pc hs hc => rw [(doInit_frame c v a pc).2]; exact hu

theorem Step.gdtInv (hst : c.Step l c') (h : c.Inv) (hg : GdtInv g₀ ts c)
    (hfree : ts.length ≤ (freeEntries g₀).card) (hcl : NoClash c l) :
    GdtInv g₀ (ts ++ l.starts.toList) c' := by
  have ha := hst.tssAddr h
  have hu := hst.used_mono
  have h' := hst.inv h
  cases hst.gdtStep h with
  | quiet hl hc hgd hs =>
      rw [hl, Option.toList_none, List.append_nil]
      exact hg.quiet hc hgd hs ha hu
  | start u a hl ho hun hc hgd hs =>
      subst hl
      exact hg.start h' ho hun hc hgd hs ha hu
  | init u a pc hl ho hc hgd hs =>
      subst hl
      rw [show ts ++ Label.initStep.starts.toList = ts from List.append_nil ts]
      exact hg.initStep ⟨h, h', ho, hc, hgd, hs, ha, hu⟩ hfree hcl

end Machine

end IdealX86
