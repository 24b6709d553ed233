import IdealX86.Machine.Lemmas.Gdt
import IdealX86.Machine.SchedTheorems

/-!
# セグメントの保存

並行する `task_init` は、同じ記述子を書くことがある。それでも、起動のときに使われている記述子は、どの実行でも書き換えられない。
CPU も、セグメントを読み込むときと TSS に切り替えるときに、記述子の一つのビットを変える。
-/

namespace IdealX86

open Kernel (InitPc)

namespace SegmentDesc

/-- CPU の書き込み。コードとデータの記述子には参照のビットを立て、TSS の記述子では使用中のビットを `busy` にする。 -/
def cpuWrite (d : SegmentDesc) (busy : Bool) : SegmentDesc :=
  if d.attr &&& 0x90 = 0x90 then { d with attr := d.attr ||| 1 }
  else if d.attr &&& 0x9D = 0x89 then d.setBusy busy
  else d

/-- `d'` は、`d` を CPU が書き換えたものか、`d` のままである。 -/
def SameForCpu (d d' : SegmentDesc) : Prop := d' = d ∨ ∃ busy, d' = d.cpuWrite busy

variable {d d' : SegmentDesc}

/-- 使用中のビットを含まない区画 `m` は、使用中のビットを変えても変わらない。 -/
theorem setBusy_attr_and (d : SegmentDesc) (busy : Bool) {m : BitVec 16} (hm : ~~~2 &&& m = m) :
    (d.setBusy busy).attr &&& m = d.attr &&& m := by
  have hb : (if busy then 2 else 0 : BitVec 16) &&& m = 0 := by
    cases busy
    · exact BitVec.zero_and
    · rw [if_pos rfl, ← hm, ← BitVec.and_assoc, show (2 &&& ~~~2 : BitVec 16) = 0 by decide]
      exact BitVec.zero_and
  rw [setBusy, BitVec.and_or_distrib_right, BitVec.and_assoc, hm, hb]
  exact BitVec.or_zero

theorem setBusy_setBusy (d : SegmentDesc) (busy busy' : Bool) : (d.setBusy busy).setBusy busy' = d.setBusy busy' := by
  rw [setBusy, setBusy_attr_and d busy (by decide)]
  rfl

theorem accessed_and {attr : BitVec 16} (h : attr &&& 0x90 = 0x90) : (attr ||| 1) &&& 0x90 = 0x90 := by
  rw [BitVec.and_or_distrib_right, h]
  decide

theorem cpuWrite_cpuWrite (d : SegmentDesc) (busy busy' : Bool) :
    (d.cpuWrite busy).cpuWrite busy' = d.cpuWrite busy' := by
  unfold cpuWrite
  split
  next h => simp only [accessed_and h, ↓reduceIte, BitVec.or_assoc, BitVec.or_self]
  next h =>
      split
      next ht =>
          rw [if_neg (by rwa [setBusy_attr_and _ _ (by decide)]), if_pos (by rwa [setBusy_attr_and _ _ (by decide)]),
            setBusy_setBusy]
      next => rfl

theorem SameForCpu.write (h : d.SameForCpu d') (busy : Bool) : d.SameForCpu (d'.cpuWrite busy) := by
  rcases h with rfl | ⟨busy', rfl⟩
  · exact .inr ⟨busy, rfl⟩
  · exact .inr ⟨busy, cpuWrite_cpuWrite d busy' busy⟩

theorem cpuWrite_attr_ne_zero (h : d.attr ≠ 0) (busy : Bool) : (d.cpuWrite busy).attr ≠ 0 := by
  unfold cpuWrite
  split
  next hs =>
      intro h₀
      have hm := accessed_and hs
      change d.attr ||| 1 = 0 at h₀
      rw [h₀] at hm
      exact absurd hm (by decide)
  next =>
      split
      next ht =>
          intro h₀
          have hm : (d.setBusy busy).attr &&& 0x9D = d.attr &&& 0x9D := setBusy_attr_and d busy (by decide)
          rw [h₀, ht] at hm
          exact absurd hm (by decide)
      next => exact h

theorem SameForCpu.attr_ne_zero (h : d.SameForCpu d') (h₀ : d.attr ≠ 0) : d'.attr ≠ 0 := by
  rcases h with rfl | ⟨busy, rfl⟩
  · exact h₀
  · exact cpuWrite_attr_ne_zero h₀ busy

end SegmentDesc

namespace Machine

def tssAttr : BitVec 16 := SEG_P_PRESENT ||| SEG_DPL0 ||| SEG_TYPE_TSS

def setGdt {σ : Type} (c : Machine σ) (gdt : Gdt) : Machine σ := { c with kernel := { c.kernel with gdt := gdt } }

inductive CpuLabel where
  | kernel (l : Label)
  /-- CPU が `i` 番の記述子に書く。 -/
  | write (i : Nat) (busy : Bool)

/-- カーネルの一歩か、CPU の書き込み。CPU は、どの歩の間にも書くことができる。 -/
def cpuStep {σ : Type} [ListStore σ] (c : Machine σ) : CpuLabel → Option (Machine σ)
  | .kernel l => c.step l
  | .write i busy => some (c.setGdt (Function.update c.kernel.gdt i ((c.kernel.gdt i).cpuWrite busy)))

/-- `attr` が、空いて見えるか、TSS のものである。 -/
def FreeOrTss (attr : BitVec 16) : Prop := attr = 0 ∨ attr = tssAttr ∨ attr = tssAttr ||| 2

/-- `g₀` で使われている記述子と先頭の記述子は、CPU の書くビットのほかは変わらず、ほかの記述子は、空いて見えるか TSS のものである。 -/
def KeepsSegments {σ : Type} (g₀ : Gdt) (c : Machine σ) : Prop :=
  ∀ i, if i = 0 ∨ (g₀ i).attr ≠ 0 then (g₀ i).SameForCpu (c.kernel.gdt i) else FreeOrTss (c.kernel.gdt i).attr

variable {g₀ : Gdt} {c c' : Machine Queues} {l : Label}

theorem FreeOrTss.cpuWrite {d : SegmentDesc} (h : FreeOrTss d.attr) (busy : Bool) :
    FreeOrTss (d.cpuWrite busy).attr := by
  have htss : d.attr = tssAttr ∨ d.attr = tssAttr ||| 2 → FreeOrTss (d.cpuWrite busy).attr := by
    intro ht
    have hs : ¬ d.attr &&& 0x90 = 0x90 := by rcases ht with h | h <;> (rw [h]; decide)
    have hm : d.attr &&& 0x9D = 0x89 := by rcases ht with h | h <;> (rw [h]; decide)
    have hc : d.attr &&& ~~~2 = tssAttr := by rcases ht with h | h <;> (rw [h]; decide)
    rw [SegmentDesc.cpuWrite, if_neg hs, if_pos hm]
    change FreeOrTss (d.attr &&& ~~~2 ||| (if busy then 2 else 0))
    rw [hc]
    cases busy
    · exact .inr (.inl (by decide))
    · exact .inr (.inr rfl)
  rcases h with h₀ | h | h
  · rw [SegmentDesc.cpuWrite, if_neg (by rw [h₀]; decide), if_neg (by rw [h₀]; decide)]
    exact .inl h₀
  · exact htss (.inl h)
  · exact htss (.inr h)

structure SegmentInv (g₀ : Gdt) (c : Machine Queues) : Prop where
  scan : ∀ {t u a i}, c.code t = .init u a (.scan i) → 1 ≤ i
  /-- `task_init` の見つけた記述子は、`g₀` で空いている。 -/
  entry : ∀ {t u a pc i}, c.code t = .init u a pc → pc.entry = some i → 1 ≤ i ∧ (g₀ i).attr = 0
  keeps : c.KeepsSegments g₀

theorem KeepsSegments.attr_ne_zero {σ : Type} {c : Machine σ} (h : c.KeepsSegments g₀) {i : Nat}
    (hi : (g₀ i).attr ≠ 0) : (c.kernel.gdt i).attr ≠ 0 := by
  have h' := h i
  rw [if_pos (.inr hi)] at h'
  exact h'.attr_ne_zero hi

theorem KeepsSegments.write {σ : Type} {c : Machine σ} (h : c.KeepsSegments g₀) (i : Nat) (busy : Bool) :
    (c.setGdt (Function.update c.kernel.gdt i ((c.kernel.gdt i).cpuWrite busy))).KeepsSegments g₀ := by
  intro j
  have hj := h j
  by_cases he : j = i
  · subst he
    simp only [setGdt, Function.update_self]
    split at hj
    next hi => rw [if_pos hi]; exact hj.write busy
    next hi => rw [if_neg hi]; exact hj.cpuWrite busy
  · simpa only [setGdt, Function.update_of_ne he] using hj

theorem storeDesc_attr (k : Kernel Queues) (u : TaskId) (j : Nat) (d : SegmentDesc) :
    (descStore (k.tssDesc u) j d).attr = d.attr ∨ (descStore (k.tssDesc u) j d).attr = tssAttr := by
  by_cases h₄ : j = 4
  · have hv : k.tssDesc u = ⟨k.tssAddr u, sizeofTss, tssAttr⟩ := by
      rw [Kernel.tssDesc, descValue, if_neg (by decide)]
      rfl
    have hattr : tssAttr ||| ((sizeofTss >>> 16 &&& 0xF).setWidth 16 <<< 8) = tssAttr := by decide
    right
    rw [h₄, hv]
    exact hattr
  · left
    rcases j with _ | _ | _ | _ | _ | j
    case succ.succ.succ.succ.zero => exact absurd rfl h₄
    all_goals rfl

theorem SegmentInv.storeDesc (h : SegmentInv g₀ c) {t u : TaskId} {a : InitArgs} {j i : Nat}
    (ho : c.code t = .init u a (.desc j i)) (m : Nat) :
    if m = 0 ∨ (g₀ m).attr ≠ 0 then (g₀ m).SameForCpu ((c.kernel.storeDesc u j i).gdt m)
    else FreeOrTss ((c.kernel.storeDesc u j i).gdt m).attr := by
  obtain ⟨h₁, h₀⟩ := h.entry ho rfl
  by_cases hm : m = i
  · subst hm
    have hfree : ¬ (m = 0 ∨ (g₀ m).attr ≠ 0) := by
      rintro (hz | hne)
      · omega
      · exact hne h₀
    have hold := h.keeps m
    rw [if_neg hfree] at hold ⊢
    simp only [Kernel.storeDesc, Function.update_self]
    rcases storeDesc_attr c.kernel u j (c.kernel.gdt m) with ha | ha
    · rwa [ha]
    · exact .inr (.inl ha)
  · simp only [Kernel.storeDesc, Function.update_of_ne hm]
    exact h.keeps m

/-- 次の位置で得ている記述子も、`g₀` で空いている。 -/
theorem SegmentInv.next (h : SegmentInv g₀ c) {t u : TaskId} {a : InitArgs} {pc pc' : InitPc}
    (ho : c.code t = .init u a pc) (hn : Kernel.initNext c.kernel.gdt pc = some pc') :
    (∀ i, pc' = .scan i → 1 ≤ i) ∧ ∀ i, pc'.entry = some i → 1 ≤ i ∧ (g₀ i).attr = 0 := by
  cases pc with
  | lock =>
      cases hn
      refine ⟨fun i he => ?_, fun i he => ?_⟩ <;> cases he
      exact le_refl 1
  | scan i =>
      have h₁ := h.scan ho
      rw [Kernel.initNext] at hn
      split at hn
      · split at hn
        · next h₀ =>
            cases hn
            refine ⟨fun j he => ?_, fun j he => ?_⟩ <;> cases he
            refine ⟨h₁, ?_⟩
            -- `g₀` で使われている記述子なら、今も空いて見えない。
            by_contra hne
            exact h.keeps.attr_ne_zero hne h₀
        · cases hn
          refine ⟨fun j he => ?_, fun j he => ?_⟩ <;> cases he
          omega
      · cases hn
        refine ⟨fun j he => ?_, fun j he => ?_⟩ <;> cases he
  | unlock r =>
      cases r with
      | none => cases hn; refine ⟨fun j he => ?_, fun j he => ?_⟩ <;> cases he
      | some i =>
          cases hn
          refine ⟨fun j he => ?_, fun j he => ?_⟩ <;> cases he
          exact h.entry ho rfl
  | desc j i =>
      rw [Kernel.initNext] at hn
      split at hn
      all_goals
        cases hn
        refine ⟨fun m he => ?_, fun m he => ?_⟩ <;> cases he
        exact h.entry ho rfl
  | tss i => cases hn; refine ⟨fun j he => ?_, fun j he => ?_⟩ <;> cases he
  | fields => cases hn; refine ⟨fun j he => ?_, fun j he => ?_⟩ <;> cases he
  | publish => cases hn

theorem GdtStep.segmentInv (hst : c.GdtStep l c') (h : SegmentInv g₀ c) : SegmentInv g₀ c' := by
  cases hst with
  | quiet hl hc hg hs =>
      exact ⟨fun ho => h.scan (hc ▸ ho), fun ho => h.entry (hc ▸ ho), fun i => by rw [hg]; exact h.keeps i⟩
  | start u a hl hown hu hc hg hs =>
      refine ⟨fun {t u' a' i} ho => ?_, fun {t u' a' pc i} ho he => ?_, fun i => by rw [hg]; exact h.keeps i⟩
      · rw [hc, Function.update_apply] at ho
        split at ho
        · cases ho
        · exact h.scan ho
      · rw [hc, Function.update_apply] at ho
        split at ho
        · cases ho; cases he
        · exact h.entry ho he
  | init u a pc hl hcode hc hg hs =>
      have hself : ∀ {t u' a' pc'}, c'.code t = .init u' a' pc' →
          c.code t = .init u' a' pc' ∨ Kernel.initNext c.kernel.gdt pc = some pc' := by
        intro t u' a' pc' ho
        rw [hc, Function.update_apply] at ho
        split at ho
        · cases hn : Kernel.initNext c.kernel.gdt pc <;> rw [hn] at ho <;> cases ho
          exact .inr rfl
        · exact .inl ho
      refine ⟨fun ho => ?_, fun ho he => ?_, fun i => ?_⟩
      · exact (hself ho).elim h.scan fun hn => (h.next hcode hn).1 _ rfl
      · exact (hself ho).elim (fun ho => h.entry ho he) fun hn => (h.next hcode hn).2 _ he
      · rw [hg]
        by_cases hd : ∃ j m, pc = .desc j m
        · obtain ⟨j, m, rfl⟩ := hd
          exact h.storeDesc hcode i
        · rw [Kernel.initLocal_gdt _ _ _ fun j m he => hd ⟨j, m, he⟩]
          exact h.keeps i

theorem segmentInv_boot (b : BootArgs) :
    SegmentInv (Machine.boot ({} : Queues) b).kernel.gdt (Machine.boot ({} : Queues) b) := by
  refine ⟨fun ho => ?_, fun ho => ?_, fun i => ?_⟩
  · cases ho
  · cases ho
  split
  next => exact .inl rfl
  next hi =>
      left
      by_contra hne
      exact hi (.inr hne)

/-! ## CPU の書き込み -/

theorem Sim.setGdt {c : Machine Heap} {d : Machine Queues} (h : Sim c d) (gdt : Gdt) :
    Sim (c.setGdt gdt) (d.setGdt gdt) :=
  { h with kernel := { h.kernel with gdt := rfl } }

theorem Inv.setGdt (h : c.Inv) (gdt : Gdt) : (c.setGdt gdt).Inv :=
  h.of_same (h.kernel.of_lists rfl rfl) rfl rfl rfl

theorem SegmentInv.write (h : SegmentInv g₀ c) (i : Nat) (busy : Bool) :
    SegmentInv g₀ (c.setGdt (Function.update c.kernel.gdt i ((c.kernel.gdt i).cpuWrite busy))) :=
  ⟨h.scan, h.entry, h.keeps.write i busy⟩

/-- 起動からのどの実行でも、起動のときに使われている記述子（カーネルのセグメントと、最初の二つのタスクの TSS）と先頭の記述子は、CPU の書く
参照と使用中のビットのほかは変わらず、ほかの記述子は、空いて見えるか TSS のものである。同じ記述子を書く `task_init` が並行しても、CPU が
いつ書いても成り立つ。 -/
theorem gdt_keeps_segments (node : Node → Lib.Link Node) (b : BootArgs) (ls : List CpuLabel) :
    Lib.Always cpuStep (KeepsSegments (Machine.boot (Heap.empty node) b).kernel.gdt)
      (Machine.boot (Heap.empty node) b) ls := by
  have hg := (sim_boot b node).kernel.gdt
  refine Lib.always_of_along (R := fun _ _ => True)
    (I := fun c => ∃ d, Sim c d ∧ d.Inv ∧ SegmentInv (Machine.boot ({} : Queues) b).kernel.gdt d) ?_ ?_
    (Lib.along_true _ _) ⟨_, sim_boot b node, inv_boot b, segmentInv_boot b⟩
  · rintro c ⟨d, hs, -, hd⟩ i
    rw [hg, hs.kernel.gdt]
    exact hd.keeps i
  · rintro c l c' ⟨d, hs, hd, hk⟩ - hst
    cases l with
    | kernel l =>
        obtain ⟨d', hst', hs'⟩ := hs.step hd hst
        have hstep := step_cases hst'
        exact ⟨d', hs', hstep.inv hd, (hstep.gdtStep hd).segmentInv hk⟩
    | write i busy =>
        cases hst
        rw [hs.kernel.gdt]
        exact ⟨_, hs.setGdt _, hd.setGdt _, hk.write i busy⟩

end Machine

end IdealX86
