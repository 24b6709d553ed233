import IdealX86.Core.MemoryInit
import Mathlib.Data.Finset.Card
import Mathlib.Order.Interval.Finset.Nat

/-!
# 物理メモリの初期化の定理

`total_mem_size` はすべての領域の大きさの和なので、1 MB を引いた値は、1 MB より下の RAM が 1 MB に満たない分だけ小さい。
和が 1 MB に満たないときは差が桁あふれし、ないメモリまで割り当て器に渡る。
-/

namespace IdealX86

variable {b : BootInfo} {h : Nat}

/-! ## 領域の配置 -/

def RamRegion.addrs (r : RamRegion) : Finset Nat := Finset.Ico r.start.toNat (r.start.toNat + r.size.toNat)

def BootInfo.IsRam (b : BootInfo) (a : Nat) : Prop := ∃ r ∈ b.regions, a ∈ r.addrs

/-- 領域は十個までで、互いに交わらず、`2 ^ 32` を越えない。1 MB 以上の RAM は、1 MB から始まる大きさ `h` の一続きの
区間である。 -/
structure BootInfo.NoHoles (b : BootInfo) (h : Nat) : Prop where
  count : b.ramRegionCount ≤ BOOT_RAM_REGION_MAX
  disjoint : b.regions.Pairwise fun r r' => Disjoint r.addrs r'.addrs
  bound : ∀ r ∈ b.regions, r.start.toNat + r.size.toNat ≤ 2 ^ 32
  ext : ∀ a, MEM_EXT_START ≤ a → (b.IsRam a ↔ a < MEM_EXT_START + h)

def BootInfo.ramSize (b : BootInfo) : Nat := (b.regions.map (·.size.toNat)).sum

/-! ## 和 -/

theorem totalMemLoop_eq (cfg : Nat → RamRegion) (i n : Nat) (s : BitVec 32) :
    totalMemLoop cfg i n s =
      s + BitVec.ofNat 32 (((List.range' i n).map fun k => (cfg k).size.toNat).sum) := by
  induction n generalizing i s with
  | zero => simp [totalMemLoop]
  | succ n ih =>
      rw [totalMemLoop, ih, List.range'_succ, List.map_cons, List.sum_cons, BitVec.ofNat_add,
        BitVec.ofNat_toNat, BitVec.setWidth_eq, BitVec.add_assoc]

theorem totalMemSize_eq (b : BootInfo) : totalMemSize b = BitVec.ofNat 32 b.ramSize := by
  simp [totalMemSize, totalMemLoop_eq, BootInfo.ramSize, BootInfo.regions, List.range_eq_range',
    Function.comp_def]

theorem memoryInit_size (mem : Mem) (memFree : Nat) (b : BootInfo) :
    (memoryInit mem memFree b).paddrAlloc.size =
      (2 ^ 32 - MEM_EXT_START + b.ramSize % 2 ^ 32) % 2 ^ 32 / MEM_PAGE_SIZE * MEM_PAGE_SIZE := by
  simp only [memoryInit, addrAllocInit, down2_page_toNat, totalMemSize_eq, BitVec.toNat_sub, BitVec.toNat_ofNat]
  rfl

/-! ## 1 MB の上と下への分け方 -/

/-- 交わらない領域の大きさの和は、覆うアドレスの数である。 -/
theorem sum_size_eq_card {rs : List RamRegion}
    (hd : rs.Pairwise fun r r' => Disjoint r.addrs r'.addrs) :
    ∃ s : Finset Nat, (∀ a, a ∈ s ↔ ∃ r ∈ rs, a ∈ r.addrs) ∧ s.card = (rs.map (·.size.toNat)).sum := by
  induction rs with
  | nil => exact ⟨∅, by simp, rfl⟩
  | cons r rs ih =>
      obtain ⟨hr, hrs⟩ := List.pairwise_cons.mp hd
      obtain ⟨s, hs, hcard⟩ := ih hrs
      have hdis : Disjoint r.addrs s := by
        rw [Finset.disjoint_left]
        intro a ha has
        obtain ⟨r', hr', ha'⟩ := (hs a).mp has
        exact Finset.disjoint_left.mp (hr r' hr') ha ha'
      refine ⟨r.addrs ∪ s, fun a => by simp [hs], ?_⟩
      rw [Finset.card_union_of_disjoint hdis, hcard, List.map_cons, List.sum_cons]
      simp [RamRegion.addrs]

/-- 大きさの和は、1 MB より下の RAM の大きさと `h` の和である。 -/
theorem BootInfo.NoHoles.ramSize_eq (hb : b.NoHoles h) :
    ∃ low ≤ MEM_EXT_START, b.ramSize = low + h ∧ MEM_EXT_START + h ≤ 2 ^ 32 := by
  obtain ⟨s, hs, hcard⟩ := sum_size_eq_card hb.disjoint
  have hhigh : s.filter (¬ · < MEM_EXT_START) = Finset.Ico MEM_EXT_START (MEM_EXT_START + h) := by
    ext a
    simp only [Finset.mem_filter, hs, not_lt, Finset.mem_Ico]
    constructor
    · rintro ⟨ha, hle⟩
      exact ⟨hle, (hb.ext a hle).mp ha⟩
    · rintro ⟨hle, ha⟩
      exact ⟨(hb.ext a hle).mpr ha, hle⟩
  have hlow : (s.filter (· < MEM_EXT_START)).card ≤ MEM_EXT_START := by
    calc (s.filter (· < MEM_EXT_START)).card ≤ (Finset.range MEM_EXT_START).card :=
          Finset.card_le_card fun a ha => Finset.mem_range.mpr (Finset.mem_filter.mp ha).2
      _ = MEM_EXT_START := Finset.card_range _
  refine ⟨_, hlow, ?_, ?_⟩
  · rw [ramSize, ← hcard, ← Finset.card_filter_add_card_filter_not (s := s) (· < MEM_EXT_START), hhigh]
    simp
  · by_cases h₀ : h = 0
    · simp [h₀, MEM_EXT_START]
    · -- 区間の最後のアドレスは、ある領域の中にある。
      obtain ⟨r, hr, ha⟩ := (hb.ext (MEM_EXT_START + h - 1) (by omega)).mpr (by omega)
      have h₁ := (Finset.mem_Ico.mp ha).2
      have h₂ := hb.bound r hr
      omega

/-! ## 管理される範囲 -/

/-- 割り当て器に渡る範囲が 1 MB からの RAM に収まるのは、領域の大きさの和が 1 MB 以上のとき、そのときに限る。 -/
theorem memoryInit_range_iff (mem : Mem) (memFree : Nat) {b : BootInfo} {h : Nat} (hb : b.NoHoles h) :
    (∀ a, MEM_EXT_START ≤ a → a < MEM_EXT_START + (memoryInit mem memFree b).paddrAlloc.size →
        a < MEM_EXT_START + h) ↔ MEM_EXT_START ≤ b.ramSize := by
  obtain ⟨low, hlow, hsize, hbound⟩ := hb.ramSize_eq
  have hinside : (∀ a, MEM_EXT_START ≤ a → a < MEM_EXT_START + (memoryInit mem memFree b).paddrAlloc.size →
      a < MEM_EXT_START + h) ↔ (memoryInit mem memFree b).paddrAlloc.size ≤ h := by
    constructor
    · intro hall
      by_contra hlt
      have := hall (MEM_EXT_START + h) (by omega) (by omega)
      omega
    · intro hle a h₁ h₂
      omega
  rw [hinside, memoryInit_size, hsize]
  simp only [MEM_EXT_START, MEM_PAGE_SIZE] at hlow hbound ⊢
  omega

def BootInfo.ofRegions (rs : List RamRegion) : BootInfo := ⟨fun i => rs.getD i ⟨0, 0⟩, rs.length⟩

theorem BootInfo.noHoles_two (n : BitVec 32) (hn : MEM_EXT_START + n.toNat ≤ 2 ^ 32) :
    (BootInfo.ofRegions [⟨0, 0xA0000⟩, ⟨0x100000, n⟩]).NoHoles n.toNat := by
  have hr : (BootInfo.ofRegions [⟨0, 0xA0000⟩, ⟨0x100000, n⟩]).regions = [⟨0, 0xA0000⟩, ⟨0x100000, n⟩] := rfl
  have hlow : ∀ a, a ∈ RamRegion.addrs ⟨0, 0xA0000⟩ ↔ a < 0xA0000 := fun a => by simp [RamRegion.addrs]
  have hext : ∀ a, a ∈ RamRegion.addrs ⟨0x100000, n⟩ ↔ 0x100000 ≤ a ∧ a < 0x100000 + n.toNat :=
    fun a => by simp [RamRegion.addrs]
  refine ⟨by simp [ofRegions, BOOT_RAM_REGION_MAX], ?_, ?_, fun a ha => ?_⟩
  · rw [hr, List.pairwise_pair, Finset.disjoint_left]
    intro a h₁ h₂
    rw [hlow] at h₁
    rw [hext] at h₂
    omega
  · rw [hr]
    simpa [MEM_EXT_START] using hn
  · simp only [IsRam, hr, List.mem_cons, List.not_mem_nil, or_false, exists_eq_or_imp, exists_eq_left, hlow, hext,
      MEM_EXT_START] at ha ⊢
    omega

/-- 640 KB の低位の領域と、1 MB からの 1 MB の領域。 -/
theorem memoryInit_range_iff_two_regions :
    (∀ a, MEM_EXT_START ≤ a → a < MEM_EXT_START + (memoryInit (fun _ => 0) 0x20000
          (.ofRegions [⟨0, 0xA0000⟩, ⟨0x100000, 0x100000⟩])).paddrAlloc.size → a < MEM_EXT_START + 0x100000) ↔
      MEM_EXT_START ≤ (BootInfo.ofRegions [⟨0, 0xA0000⟩, ⟨0x100000, 0x100000⟩]).ramSize :=
  memoryInit_range_iff _ _ (BootInfo.noHoles_two 0x100000 (by decide))

/-- 640 KB と 1 MB からの 64 KB しかない計算機では、4 GB 近くの範囲が割り当て器に渡る。 -/
theorem memoryInit_range_underflows :
    (BootInfo.ofRegions [⟨0, 0xA0000⟩, ⟨0x100000, 0x10000⟩]).NoHoles 0x10000 ∧
    ¬ ∀ a, MEM_EXT_START ≤ a → a < MEM_EXT_START + (memoryInit (fun _ => 0) 0x20000
        (.ofRegions [⟨0, 0xA0000⟩, ⟨0x100000, 0x10000⟩])).paddrAlloc.size → a < MEM_EXT_START + 0x10000 := by
  refine ⟨BootInfo.noHoles_two 0x10000 (by decide), fun hall => ?_⟩
  have h := hall (MEM_EXT_START + 0x10000) (by decide)
  rw [memoryInit_size] at h
  exact absurd (h (by decide)) (by decide)

end IdealX86
