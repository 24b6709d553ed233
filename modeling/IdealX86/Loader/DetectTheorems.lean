import IdealX86.Loader.Detect

/-!
# メモリの検出の定理

`detect_memory` は、無視すべき項目も、4 GB より上の項目も区別せずに記録する。使える RAM をちょうど記録するための条件を示す。
-/

namespace IdealX86

/-! ## BIOS の答えの意味 -/

namespace SMAPEntry

def base (e : SMAPEntry) : Nat := e.baseH.toNat * 2 ^ 32 + e.baseL.toNat

def length (e : SMAPEntry) : Nat := e.lengthH.toNat * 2 ^ 32 + e.lengthL.toNat

def region (e : SMAPEntry) : RamRegion := ⟨e.baseL, e.lengthL⟩

/-- 記録された領域は、BIOS がその項目で報告した範囲にある。 -/
def Real (e : SMAPEntry) : Prop :=
  ∀ addr, e.region.start.toNat ≤ addr → addr < e.region.start.toNat + e.region.size.toNat →
    e.base ≤ addr ∧ addr < e.base + e.length

end SMAPEntry

namespace SMAPAnswer

/-- 20 バイトより長く、ACPI のビット 0 が落ちている項目は、無視しなければならない。 -/
def Ignored (a : SMAPAnswer) : Prop := 20 < a.bytes.toNat ∧ a.entry.acpi &&& 1#32 = 0#32

instance (a : SMAPAnswer) : Decidable a.Ignored := inferInstanceAs (Decidable (_ ∧ _))

def Usable (a : SMAPAnswer) : Prop := a.entry.type = 1#32 ∧ ¬ a.Ignored

instance (a : SMAPAnswer) : Decidable a.Usable := inferInstanceAs (Decidable (_ ∧ _))

end SMAPAnswer

variable {answers : Nat → SMAPAnswer} {b : BootInfo} {i j n : Nat}

/-- `i` 番目から `j` 番目の答えまで、署名の誤りはなく、`j` の前に続きの終わりもない。 -/
def SeenFrom (answers : Nat → SMAPAnswer) (i j : Nat) : Prop :=
  (∀ k ≤ j, i ≤ k → (answers k).signature = SMAP_SIGNATURE) ∧ ∀ k < j, i ≤ k → (answers k).contID ≠ 0#32

instance : Decidable (SeenFrom answers i j) := inferInstanceAs (Decidable (_ ∧ _))

/-- 止まるまでに見た答え。 -/
def seenAnswers (answers : Nat → SMAPAnswer) : List SMAPAnswer :=
  ((List.range BOOT_RAM_REGION_MAX).filter (SeenFrom answers 0 ·)).map answers

/-- `boot_info` は、見た答えのうち使えるものを順にちょうど記録し、どの領域も報告された RAM である。 -/
structure BootInfo.Reports (b : BootInfo) (answers : Nat → SMAPAnswer) : Prop where
  count : b.ramRegionCount ≤ BOOT_RAM_REGION_MAX
  regions : b.regions = ((seenAnswers answers).filter (·.Usable)).map (·.entry.region)
  real : ∀ a ∈ (seenAnswers answers).filter (·.Usable), a.entry.Real

/-! ## 繰り返しの結果 -/

theorem seenFrom_self : SeenFrom answers i i ↔ (answers i).signature = SMAP_SIGNATURE :=
  ⟨fun h => h.1 i (le_refl i) (le_refl i), fun h =>
    ⟨fun k hk hi => by rw [le_antisymm hk hi]; exact h, fun k hk hi => by omega⟩⟩

theorem seenFrom_succ (h : i < j) : SeenFrom answers i j ↔
    (answers i).signature = SMAP_SIGNATURE ∧ (answers i).contID ≠ 0#32 ∧ SeenFrom answers (i + 1) j := by
  constructor
  · rintro ⟨hs, hc⟩
    exact ⟨hs i h.le (le_refl i), hc i h (le_refl i), fun k hk hi => hs k hk (by omega),
      fun k hk hi => hc k hk (by omega)⟩
  · rintro ⟨hs, hc, hs', hc'⟩
    refine ⟨fun k hk hi => ?_, fun k hk hi => ?_⟩
    · rcases Nat.eq_or_lt_of_le hi with rfl | hi
      · exact hs
      · exact hs' k hk hi
    · rcases Nat.eq_or_lt_of_le hi with rfl | hi
      · exact hc
      · exact hc' k hk hi

theorem filter_seenFrom (answers : Nat → SMAPAnswer) (i n : Nat) :
    (List.range' i (n + 1)).filter (SeenFrom answers i ·) =
      if (answers i).signature = SMAP_SIGNATURE then
        i :: if (answers i).contID = 0#32 then [] else (List.range' (i + 1) n).filter (SeenFrom answers (i + 1) ·)
      else [] := by
  have hrest : ∀ j ∈ List.range' (i + 1) n, i < j := fun j hj => by
    have := List.mem_range'_1.mp hj; omega
  rw [List.range'_succ, List.filter_cons]
  by_cases hs : (answers i).signature = SMAP_SIGNATURE
  · simp only [seenFrom_self.mpr hs, decide_true, ↓reduceIte, hs, List.cons.injEq, true_and]
    by_cases hc : (answers i).contID = 0#32
    · rw [if_pos hc, List.filter_eq_nil_iff]
      intro j hj
      simp [seenFrom_succ (hrest j hj), hc]
    · rw [if_neg hc]
      refine List.filter_congr fun j hj => ?_
      simp [seenFrom_succ (hrest j hj), hs, hc]
  · have hself : ¬ SeenFrom answers i i := fun h => hs (seenFrom_self.mp h)
    simp only [hself, decide_false, Bool.false_eq_true, ↓reduceIte, hs]
    rw [List.filter_eq_nil_iff]
    intro j hj
    simp [seenFrom_succ (hrest j hj), hs]

theorem BootInfo.regions_record (h : 0 ≤ b.ramRegionCount) (e : SMAPEntry) :
    (b.record e).regions = b.regions ++ [e.region] := by
  have hn : (b.ramRegionCount + 1).toNat = b.ramRegionCount.toNat + 1 := by omega
  simp only [regions, record, hn, List.range_succ, List.map_append, List.map_singleton,
    Function.update_self, SMAPEntry.region]
  congr 1
  refine List.map_congr_left fun k hk => Function.update_of_ne ?_ _ _
  have := List.mem_range.mp hk
  omega

/-- `for` は、見た答えのうち型が 1 のものを、そのまま順に加える。 -/
theorem detectLoop_spec (answers : Nat → SMAPAnswer) (n i : Nat) (h : 0 ≤ b.ramRegionCount) :
    (detectLoop answers n i b).regions = b.regions ++
        ((((List.range' i n).filter (SeenFrom answers i ·)).map answers).filter (·.entry.type = 1#32)).map
          (·.entry.region) ∧
      0 ≤ (detectLoop answers n i b).ramRegionCount ∧
      (detectLoop answers n i b).ramRegionCount ≤ b.ramRegionCount + n := by
  induction n generalizing i b with
  | zero => simp [detectLoop, h]
  | succ n ih =>
      rw [filter_seenFrom]
      simp only [detectLoop]
      by_cases hs : (answers i).signature = SMAP_SIGNATURE
      · simp only [hs, ne_eq, not_true_eq_false, ↓reduceIte, List.map_cons, List.filter_cons]
        -- `i` 番目の答えを記録した後の状態から、残りの繰り返しを続ける。
        obtain ⟨b', hb'⟩ : ∃ b', b' = if (answers i).entry.type = 1#32 then b.record (answers i).entry else b :=
          ⟨_, rfl⟩
        have hreg : b'.regions = b.regions ++
            if (answers i).entry.type = 1#32 then [(answers i).entry.region] else [] := by
          rw [hb']
          split
          · exact BootInfo.regions_record h _
          · simp
        have hcount : 0 ≤ b'.ramRegionCount ∧ b'.ramRegionCount ≤ b.ramRegionCount + 1 := by
          rw [hb']
          split
          · simp only [BootInfo.record]; omega
          · omega
        rw [← hb']
        by_cases hc : (answers i).contID = 0#32
        · simp only [hc, ↓reduceIte, List.map_nil, List.filter_nil, hreg]
          refine ⟨?_, hcount.1, by have := hcount.2; push_cast; omega⟩
          split <;> simp_all
        · simp only [hc, ↓reduceIte]
          obtain ⟨h₁, h₂, h₃⟩ := ih (i + 1) hcount.1
          refine ⟨?_, h₂, by have := hcount.2; push_cast; omega⟩
          rw [h₁, hreg]
          split <;> simp_all
      · simp only [hs, ne_eq, not_false_eq_true, ↓reduceIte, List.map_nil, List.filter_nil, List.append_nil,
          true_and]
        exact ⟨h, by push_cast; omega⟩

theorem detectMemory_regions (answers : Nat → SMAPAnswer) (b : BootInfo) :
    (detectMemory answers b).regions =
        ((seenAnswers answers).filter (·.entry.type = 1#32)).map (·.entry.region) ∧
      (detectMemory answers b).ramRegionCount ≤ BOOT_RAM_REGION_MAX := by
  obtain ⟨h₁, -, h₃⟩ := detectLoop_spec (b := { b with ramRegionCount := 0 }) answers BOOT_RAM_REGION_MAX 0 (le_refl 0)
  refine ⟨?_, by simpa [detectMemory] using h₃⟩
  rw [detectMemory, h₁, seenAnswers, List.range_eq_range']
  rfl

/-- 記録された領域が報告された範囲にあるのは、先頭が 4 GB より下にあるか、領域が空のとき、そのときに限る。 -/
theorem SMAPEntry.real_iff (e : SMAPEntry) : e.Real ↔ e.baseH = 0#32 ∨ e.lengthL = 0#32 := by
  have hL := e.baseL.isLt
  constructor
  · intro h
    by_contra hne
    rw [not_or] at hne
    have hb : e.baseH.toNat ≠ 0 := fun h' => hne.1 (BitVec.eq_of_toNat_eq h')
    have hl : e.lengthL.toNat ≠ 0 := fun h' => hne.2 (BitVec.eq_of_toNat_eq h')
    have hle := (h e.baseL.toNat (le_refl _) (by simp only [region]; omega)).1
    simp only [base] at hle
    omega
  · rintro (h | h) addr h₁ h₂
    · simp only [region, base, length, h] at h₁ h₂ ⊢
      simp only [BitVec.toNat_ofNat, Nat.zero_mod, Nat.zero_mul]
      omega
    · simp only [region, h, BitVec.toNat_ofNat, Nat.zero_mod] at h₁ h₂
      omega

/-- `detect_memory` が使える RAM をちょうど報告するのは、見た型 1 の答えがすべて、無視すべきものでなく、先頭が 4 GB より
下にある（または下位の長さが 0 の）とき、そのときに限る。 -/
theorem detectMemory_reports_iff (answers : Nat → SMAPAnswer) (b : BootInfo) :
    (detectMemory answers b).Reports answers ↔
      ∀ a ∈ seenAnswers answers, a.entry.type = 1#32 →
        ¬ a.Ignored ∧ (a.entry.baseH = 0#32 ∨ a.entry.lengthL = 0#32) := by
  obtain ⟨hreg, hcount⟩ := detectMemory_regions answers b
  constructor
  · intro h a ha htype
    -- 使えるものは型 1 のものの部分列なので、長さが等しければ同じ並びである。
    have hlen := congrArg List.length (hreg.symm.trans h.regions)
    simp only [List.length_map] at hlen
    have hsub : ((seenAnswers answers).filter (·.Usable)).Sublist
        ((seenAnswers answers).filter (·.entry.type = 1#32)) := by
      have hff : (seenAnswers answers).filter (·.Usable) =
          ((seenAnswers answers).filter (·.entry.type = 1#32)).filter (¬ ·.Ignored) := by
        rw [List.filter_filter]
        refine List.filter_congr fun x _ => Bool.eq_iff_iff.mpr ?_
        simp only [decide_not, Bool.and_eq_true, Bool.not_eq_true', decide_eq_true_eq, decide_eq_false_iff_not]
        exact and_comm
      rw [hff]
      exact List.filter_sublist
    have heq := hsub.eq_of_length hlen.symm
    have hmem : a ∈ (seenAnswers answers).filter (·.Usable) := by
      rw [heq]
      simp [ha, htype]
    exact ⟨(by simpa using (List.mem_filter.mp hmem).2 : a.Usable).2, (a.entry.real_iff).mp (h.real a hmem)⟩
  · intro h
    refine ⟨hcount, ?_, fun a ha => ?_⟩
    · rw [hreg]
      congr 1
      refine List.filter_congr fun a ha => ?_
      by_cases htype : a.entry.type = 1#32
      · simp [SMAPAnswer.Usable, htype, (h a ha htype).1]
      · simp [SMAPAnswer.Usable, htype]
    · obtain ⟨hseen, hus⟩ := List.mem_filter.mp ha
      have hus : a.Usable := by simpa using hus
      exact a.entry.real_iff.mpr (h a hseen hus.1).2

/-- 4 GB からの 1 GB の RAM が、アドレス 0 からの領域として記録される。 -/
theorem detectMemory_truncates_base :
    ¬ (detectMemory (fun _ => ⟨SMAP_SIGNATURE, 24, 0, ⟨0, 1, 0x40000000, 0, 1, 1⟩⟩)
        ⟨fun _ => ⟨0, 0⟩, 0⟩).Reports
      fun _ => ⟨SMAP_SIGNATURE, 24, 0, ⟨0, 1, 0x40000000, 0, 1, 1⟩⟩ := by
  intro h
  have hreal := h.real ⟨SMAP_SIGNATURE, 24, 0, ⟨0, 1, 0x40000000, 0, 1, 1⟩⟩ (by decide)
  exact absurd ((SMAPEntry.real_iff _).mp hreal) (by decide)

end IdealX86
