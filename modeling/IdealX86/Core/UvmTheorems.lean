import IdealX86.Core.Uvm
import IdealX86.Tools.Lemmas.Bitmap

/-!
# 利用者のアドレス空間の定理

`memory_destroy_uvm` が落とすビットが、アドレス空間の持つページのビットとちょうど一致することを示す。
-/

namespace IdealX86

variable {s s' s'' : AllocState} {S T : Nat → Prop} {pageDir : Nat}

/-! ## 管理される範囲 -/

/-- 割り当て器は、ページの境界で区切られ `2 ^ 32` を越えない範囲を管理している。 -/
structure AddrAlloc.Valid (al : AddrAlloc) : Prop where
  pageSize : al.pageSize = MEM_PAGE_SIZE
  bitcount : al.bitmap.bitcount = (al.size / MEM_PAGE_SIZE : Nat)
  start_aligned : al.start % MEM_PAGE_SIZE = 0
  size_aligned : al.size % MEM_PAGE_SIZE = 0
  bound : al.start + al.size ≤ 2 ^ 32

def AddrAlloc.page (al : AddrAlloc) (j : Nat) : Nat := al.start + j * MEM_PAGE_SIZE

def AddrAlloc.pages (al : AddrAlloc) : Nat := al.size / MEM_PAGE_SIZE

def AddrAlloc.Storage (al : AddrAlloc) (a : Nat) : Prop :=
  al.bitmap.bits ≤ a ∧ a < al.bitmap.bits + al.bitmap.byteLen

/-! ## 解放の効果 -/

/-- `s` から `s'` へ、範囲の中にあって `S` を満たすページのビットだけが落ちる。 -/
structure Clears (s s' : AllocState) (S : Nat → Prop) : Prop where
  alloc : s'.alloc = s.alloc
  searchIdx : s'.searchIdx = s.searchIdx
  cleared : ∀ j < s.alloc.pages, S (s.alloc.page j) → bitmapGetBit s'.mem s.alloc.bitmap j = 0
  kept : ∀ j : Nat, ¬ (j < s.alloc.pages ∧ S (s.alloc.page j)) →
    bitmapGetBit s'.mem s.alloc.bitmap j = bitmapGetBit s.mem s.alloc.bitmap j
  frame : ∀ a, ¬ s.alloc.Storage a → s'.mem a = s.mem a

theorem Clears.refl (s : AllocState) : Clears s s fun _ => False :=
  ⟨rfl, rfl, fun _ _ h => h.elim, fun _ _ => rfl, fun _ _ => rfl⟩

theorem Clears.trans (h₁ : Clears s s' S) (h₂ : Clears s' s'' T) : Clears s s'' fun a => S a ∨ T a := by
  have ha := h₁.alloc
  obtain ⟨ha₂, hi₂, hc₂, hk₂, hf₂⟩ := h₂
  rw [ha] at ha₂ hc₂ hk₂ hf₂
  refine ⟨ha₂, hi₂.trans h₁.searchIdx, fun j hj hS => ?_, fun j hj => ?_, fun a hs => (hf₂ a hs).trans (h₁.frame a hs)⟩
  · by_cases hT : T (s.alloc.page j)
    · exact hc₂ j hj hT
    · rw [hk₂ j (fun h => hT h.2)]
      exact h₁.cleared j hj (hS.resolve_right hT)
  · rw [hk₂ j (fun h => hj ⟨h.1, Or.inr h.2⟩), h₁.kept j (fun h => hj ⟨h.1, Or.inl h.2⟩)]

theorem Clears.congr (h : Clears s s' S) (hST : ∀ a, S a ↔ T a) : Clears s s' T := by
  rwa [show S = T from funext fun a => propext (hST a)] at h

theorem Clears.read32 (h : Clears s s' S) {a : Nat} (ha : a + 4 ≤ 2 ^ 32)
    (hs : ∀ k < 4, ¬ s.alloc.Storage (a + k)) : read32 s'.mem a = read32 s.mem a := by
  refine read32_congr fun k hk => ?_
  rw [Nat.mod_eq_of_lt (by omega)]
  exact h.frame _ (hs k hk)

/-- 解放するアドレスの番号。アドレスが範囲より下なら、差が一周する。 -/
def AddrAlloc.freeIdx (al : AddrAlloc) (addr : Nat) : Nat := (addr + 2 ^ 32 - al.start) % 2 ^ 32 / MEM_PAGE_SIZE

theorem AddrAlloc.Valid.page_eq_iff {al : AddrAlloc} (hv : al.Valid) {addr j : Nat} (ha : addr % MEM_PAGE_SIZE = 0)
    (hlt : addr < 2 ^ 32) (hj : j < al.pages) : al.page j = addr ↔ j = al.freeIdx addr := by
  obtain ⟨-, -, hsa, hza, hb⟩ := hv
  simp only [page, pages, freeIdx, MEM_PAGE_SIZE] at *
  omega

theorem addrFreePage_mem (hv : s.alloc.Valid) (addr : Nat) :
    (addrFreePage s addr 1).mem =
      if s.alloc.freeIdx addr < s.alloc.pages then bitmapWriteBit s.mem s.alloc.bitmap (s.alloc.freeIdx addr) 0
      else s.mem := by
  have hlt : (s.alloc.freeIdx addr : Int) < s.alloc.bitmap.bitcount ↔ s.alloc.freeIdx addr < s.alloc.pages := by
    rw [hv.bitcount, AddrAlloc.pages]
    exact Nat.cast_lt
  simp only [addrFreePage, bitmapSetBit, hv.pageSize, Int.toNat_one, bitmapSetLoop]
  exact if_congr hlt rfl rfl

/-- 管理されるページのビットは、置き場の中にある。 -/
theorem AddrAlloc.Valid.storage_byteAddr {al : AddrAlloc} (hv : al.Valid) {j : Nat} (hj : j < al.pages) :
    al.Storage (al.bitmap.byteAddr j) := by
  refine ⟨by simp [Bitmap.byteAddr], ?_⟩
  simp only [Bitmap.byteAddr, Bitmap.byteLen, hv.bitcount, pages] at hj ⊢
  omega

/-- ページの境界にあるアドレスの解放は、それが範囲の中にあるときだけ、そのページのビットを落とす。範囲の外のアドレスでは、
差が一周しても番号が範囲に入らない。 -/
theorem addrFreePage_clears (hv : s.alloc.Valid) {addr : Nat} (ha : addr % MEM_PAGE_SIZE = 0) (hlt : addr < 2 ^ 32) :
    Clears s (addrFreePage s addr 1) (· = addr) := by
  have hmem := addrFreePage_mem hv addr
  refine ⟨rfl, rfl, fun j hj hS => ?_, fun j hj => ?_, fun a hs => ?_⟩
  · have hji := (hv.page_eq_iff ha hlt hj).mp hS
    rw [hmem, ← hji, if_pos hj, bitmapGetBit_writeBit _ _ _ (by omega) (by omega), if_pos rfl, if_neg (by decide)]
  · rw [hmem]
    split
    · rename_i hi
      have hne : s.alloc.freeIdx addr ≠ j := by
        rintro rfl
        exact hj ⟨hi, (hv.page_eq_iff ha hlt hi).mpr rfl⟩
      rw [bitmapGetBit_writeBit _ _ _ (by omega) (by omega), if_neg (by exact_mod_cast hne)]
    · rfl
  · rw [hmem]
    split
    · rename_i hi
      refine bitmapWriteBit_of_ne _ _ _ ?_
      rintro rfl
      exact hs (hv.storage_byteAddr hi)
    · rfl

/-! ## アドレス空間の持つページ -/

/-- ページ表の、存在する項目が指すページ枠。 -/
def FrameOf (mem : Mem) (table n a : Nat) : Prop :=
  ∃ j < n, present (read32 mem (table + 4 * j)) = true ∧ a = (ptePaddr (read32 mem (table + 4 * j))).toNat

def pdeAt (mem : Mem) (pageDir i : Nat) : BitVec 32 := read32 mem (pageDir + 4 * i)

/-- ディレクトリの `i` 番目の項目が指すページ表。 -/
def tableAt (mem : Mem) (pageDir i : Nat) : Nat := (pdePaddr (pdeAt mem pageDir i)).toNat

/-- ディレクトリの `i` 番目の項目が存在し、その先のページ表か、ページ表の指すページ枠である。 -/
def PdeOwns (mem : Mem) (pageDir i a : Nat) : Prop :=
  present (pdeAt mem pageDir i) = true ∧
    (FrameOf mem (tableAt mem pageDir i) PTE_CNT a ∨ a = tableAt mem pageDir i)

/-- アドレス空間の持つページ。利用者の側の項目からたどれるページと、ディレクトリ自身である。 -/
def Owned (mem : Mem) (pageDir a : Nat) : Prop :=
  (∃ i, pdeIndex MEMORY_TASK_BASE ≤ i ∧ i < PDE_CNT ∧ PdeOwns mem pageDir i a) ∨ a = pageDir

/-- ビット列の置き場は、ディレクトリとも、`i` 番目から先の項目のページ表とも重ならない。 -/
structure ApartFrom (s : AllocState) (pageDir i : Nat) : Prop where
  dir : ∀ a, pageDir ≤ a → a < pageDir + MEM_PAGE_SIZE → ¬ s.alloc.Storage a
  table : ∀ k, i ≤ k → k < PDE_CNT → present (pdeAt s.mem pageDir k) = true →
    ∀ a, tableAt s.mem pageDir k ≤ a → a < tableAt s.mem pageDir k + MEM_PAGE_SIZE → ¬ s.alloc.Storage a

theorem paddr_aligned (v : BitVec 32) :
    (v >>> 12 <<< 12).toNat % MEM_PAGE_SIZE = 0 ∧ (v >>> 12 <<< 12).toNat + MEM_PAGE_SIZE ≤ 2 ^ 32 := by
  have hv := v.isLt
  rw [BitVec.toNat_shiftLeft, BitVec.toNat_ushiftRight, Nat.shiftRight_eq_div_pow, Nat.shiftLeft_eq]
  simp only [MEM_PAGE_SIZE]
  omega

/-! ## 繰り返し -/

theorem destroyPteLoop_clears (n table : Nat) (hv : s.alloc.Valid) (hb : table + 4 * n ≤ 2 ^ 32)
    (hs : ∀ a, table ≤ a → a < table + 4 * n → ¬ s.alloc.Storage a) :
    Clears s (destroyPteLoop n table s) (FrameOf s.mem table n) := by
  induction n generalizing table s with
  | zero => exact (Clears.refl s).congr fun a => by simp [FrameOf]
  | succ n ih =>
      -- 先頭の項目を除いた残りの項目の値は、先頭の解放で変わらない。
      have hrest : ∀ {s₁ S}, Clears s s₁ S → Clears s (destroyPteLoop n (table + 4) s₁)
          fun a => S a ∨ FrameOf s.mem (table + 4) n a := by
        intro s₁ S h₁
        have h₂ := ih (s := s₁) (table + 4) (by rw [h₁.alloc]; exact hv) (by omega)
          (fun a h h' => by rw [h₁.alloc]; exact hs a (by omega) (by omega))
        refine h₁.trans (h₂.congr fun a => ?_)
        simp only [FrameOf]
        refine exists_congr fun j => and_congr_right fun hj => ?_
        rw [h₁.read32 (by omega) fun k hk => hs _ (by omega) (by omega)]
      have hsplit : ∀ a, FrameOf s.mem table (n + 1) a ↔
          (present (read32 s.mem table) = true ∧ a = (ptePaddr (read32 s.mem table)).toNat) ∨
            FrameOf s.mem (table + 4) n a := by
        intro a
        simp only [FrameOf, Nat.exists_lt_succ_left, Nat.mul_zero, Nat.add_zero]
        simp only [show ∀ j, table + 4 + 4 * j = table + 4 * (j + 1) from fun j => by omega]
      simp only [destroyPteLoop]
      split
      · rename_i hp
        have hfree := addrFreePage_clears hv (paddr_aligned (read32 s.mem table)).1
          (by have := (paddr_aligned (read32 s.mem table)).2; simp only [MEM_PAGE_SIZE] at this; omega)
        refine (hrest hfree).congr fun a => ?_
        rw [hsplit, hp]
        simp [ptePaddr]
      · rename_i hp
        refine (hrest (Clears.refl s)).congr fun a => ?_
        rw [hsplit]
        simp [hp]

/-- 置き場の外にあるディレクトリの項目の値は、解放で変わらない。 -/
theorem Clears.pdeAt (h : Clears s s' S) {i k : Nat} (hb : pageDir + MEM_PAGE_SIZE ≤ 2 ^ 32)
    (hap : ApartFrom s pageDir i) (hk : k < PDE_CNT) : pdeAt s'.mem pageDir k = pdeAt s.mem pageDir k := by
  simp only [MEM_PAGE_SIZE, PDE_CNT] at hb hk
  exact h.read32 (by omega) fun j hj => hap.dir _ (by omega) (by simp only [MEM_PAGE_SIZE]; omega)

theorem Clears.pdeOwns (h : Clears s s' S) {i k : Nat} (hb : pageDir + MEM_PAGE_SIZE ≤ 2 ^ 32)
    (hap : ApartFrom s pageDir i) (hi : i ≤ k) (hk : k < PDE_CNT) (a : Nat) :
    PdeOwns s'.mem pageDir k a ↔ PdeOwns s.mem pageDir k a := by
  have hpde := h.pdeAt hb hap hk
  simp only [PdeOwns, tableAt, hpde]
  refine and_congr_right fun hp => or_congr ?_ Iff.rfl
  have htb := (paddr_aligned (IdealX86.pdeAt s.mem pageDir k)).2
  simp only [FrameOf]
  refine exists_congr fun j => and_congr_right fun hj => ?_
  simp only [PTE_CNT, MEM_PAGE_SIZE] at hj htb
  rw [h.read32 (by simp only [pdePaddr]; omega) fun m hm =>
    hap.table k hi hk hp _ (by simp only [tableAt]; omega) (by simp only [tableAt, MEM_PAGE_SIZE]; omega)]

theorem Clears.apartFrom (h : Clears s s' S) {i : Nat} (hb : pageDir + MEM_PAGE_SIZE ≤ 2 ^ 32)
    (hap : ApartFrom s pageDir i) : ApartFrom s' pageDir (i + 1) := by
  refine ⟨fun a h₁ h₂ => by rw [h.alloc]; exact hap.dir a h₁ h₂, fun k hi hk hp a h₁ h₂ => ?_⟩
  rw [tableAt, h.pdeAt hb hap hk] at h₁ h₂
  rw [h.pdeAt hb hap hk] at hp
  rw [h.alloc]
  exact hap.table k (by omega) hk hp a h₁ h₂

theorem destroyPde_clears (hv : s.alloc.Valid) {i : Nat} (hb : pageDir + MEM_PAGE_SIZE ≤ 2 ^ 32)
    (hap : ApartFrom s pageDir i) (hi : i < PDE_CNT) (hp : present (pdeAt s.mem pageDir i) = true) :
    Clears s (addrFreePage (destroyPteLoop PTE_CNT (tableAt s.mem pageDir i) s)
        (tableAt (destroyPteLoop PTE_CNT (tableAt s.mem pageDir i) s).mem pageDir i) 1)
      (PdeOwns s.mem pageDir i) := by
  obtain ⟨hal, htb⟩ : tableAt s.mem pageDir i % MEM_PAGE_SIZE = 0 ∧ tableAt s.mem pageDir i + MEM_PAGE_SIZE ≤ 2 ^ 32 :=
    paddr_aligned (pdeAt s.mem pageDir i)
  have h₁ := destroyPteLoop_clears PTE_CNT (tableAt s.mem pageDir i) hv htb
    (fun a h h' => hap.table i (le_refl i) hi hp a h h')
  have hsame : tableAt (destroyPteLoop PTE_CNT (tableAt s.mem pageDir i) s).mem pageDir i =
      tableAt s.mem pageDir i := by
    rw [tableAt, h₁.pdeAt hb hap hi, tableAt]
  rw [hsame]
  have h₂ := addrFreePage_clears (s := destroyPteLoop PTE_CNT (tableAt s.mem pageDir i) s)
    (by rw [h₁.alloc]; exact hv) hal
    (by simp only [MEM_PAGE_SIZE] at htb; omega)
  exact (h₁.trans h₂).congr fun a => by simp [PdeOwns, hp]

theorem destroyPdeLoop_clears (n : Nat) {i : Nat} (hv : s.alloc.Valid) (hb : pageDir + MEM_PAGE_SIZE ≤ 2 ^ 32)
    (hap : ApartFrom s pageDir i) (hi : i + n = PDE_CNT) :
    Clears s (destroyPdeLoop n (pageDir + 4 * i) s)
      fun a => ∃ k, i ≤ k ∧ k < PDE_CNT ∧ PdeOwns s.mem pageDir k a := by
  induction n generalizing i s with
  | zero => exact (Clears.refl s).congr fun a => ⟨False.elim, fun ⟨k, h₁, h₂, _⟩ => by omega⟩
  | succ n ih =>
      have hrest : ∀ {s₁ S}, Clears s s₁ S → (∀ a, S a ↔ PdeOwns s.mem pageDir i a) →
          Clears s (destroyPdeLoop n (pageDir + 4 * i + 4) s₁)
            fun a => ∃ k, i ≤ k ∧ k < PDE_CNT ∧ PdeOwns s.mem pageDir k a := by
        intro s₁ S h₁ hS
        have h₂ := ih (s := s₁) (i := i + 1) (by rw [h₁.alloc]; exact hv) (h₁.apartFrom hb hap) (by omega)
        refine (h₁.trans h₂).congr fun a => ?_
        constructor
        · rintro (ha | ⟨k, hik, hk, ha⟩)
          · exact ⟨i, le_refl i, by omega, (hS a).mp ha⟩
          · exact ⟨k, by omega, hk, (h₁.pdeOwns hb hap (by omega) hk a).mp ha⟩
        · rintro ⟨k, hik, hk, ha⟩
          rcases Nat.eq_or_lt_of_le hik with rfl | hik
          · exact Or.inl ((hS a).mpr ha)
          · exact Or.inr ⟨k, hik, hk, (h₁.pdeOwns hb hap (by omega) hk a).mpr ha⟩
      simp only [destroyPdeLoop]
      split
      · rename_i hp
        exact hrest (destroyPde_clears hv hb hap (by omega) hp) fun _ => Iff.rfl
      · rename_i hp
        exact hrest (Clears.refl s) fun a => ⟨False.elim, fun h => hp h.1⟩

/-- `memory_destroy_uvm` は、管理される範囲のうちアドレス空間の持つページのビットをちょうど落とし、ほかのビットにも、
ビット列の置き場の外のメモリにも触れない。 -/
theorem memoryDestroyUvm_clears (hv : s.alloc.Valid) (h₀ : pageDir ≠ 0) (hal : pageDir % MEM_PAGE_SIZE = 0)
    (hlt : pageDir < 2 ^ 32) (hap : ApartFrom s pageDir (pdeIndex MEMORY_TASK_BASE)) :
    ∃ s', memoryDestroyUvm s pageDir = some s' ∧ Clears s s' (Owned s.mem pageDir) := by
  have hb : pageDir + MEM_PAGE_SIZE ≤ 2 ^ 32 := by simp only [MEM_PAGE_SIZE] at hal ⊢; omega
  have h₁ := destroyPdeLoop_clears (PDE_CNT - pdeIndex MEMORY_TASK_BASE) hv hb hap (by decide)
  have h₂ := addrFreePage_clears (by rw [h₁.alloc]; exact hv) hal hlt
  exact ⟨_, if_neg h₀, h₁.trans h₂⟩

/-- 四ページの範囲がすべて使用中で、ディレクトリの 512 番の先に一つのページ表と一つのページ枠がある。 -/
def AllocState.oneTable : AllocState where
  mem a :=
    if a = 0x9000 then 0x0F
    else if a = 0x101800 then 0x01
    else if a = 0x101801 then 0x20
    else if a = 0x101802 then 0x10
    else if a = 0x102000 then 0x01
    else if a = 0x102001 then 0x30
    else if a = 0x102002 then 0x10
    else 0
  alloc := ⟨⟨4, 0x9000⟩, 0x100000, 4 * 4096, 4096⟩
  searchIdx := 0

theorem AllocState.oneTable_apart : ApartFrom oneTable 0x101000 (pdeIndex MEMORY_TASK_BASE) := by
  have hst : ∀ a, oneTable.alloc.Storage a → a = 0x9000 := by
    rintro a ⟨h₁, h₂⟩
    simp only [oneTable, Bitmap.byteLen] at h₁ h₂
    omega
  have htable : ∀ k < PDE_CNT, present (pdeAt oneTable.mem 0x101000 k) = true →
      0x9000 < tableAt oneTable.mem 0x101000 k := by
    intro k hk hp
    by_cases h₅₁₂ : k = 512
    · subst h₅₁₂
      decide +kernel
    · have hzero : pdeAt oneTable.mem 0x101000 k = 0 := by
        refine read32_eq_zero fun j hj => ?_
        rw [PDE_CNT] at hk
        simp only [oneTable]
        iterate 7 rw [if_neg (by omega)]
      rw [hzero] at hp
      exact absurd hp (by decide)
  refine ⟨fun a h₁ _ hs => ?_, fun k _ hk hp a h₁ _ hs => ?_⟩
  · have := hst a hs
    omega
  · have := hst a hs
    have := htable k hk hp
    omega

/-- 512 番の項目のページ表から指されるページ枠は、範囲の三番のページであり、そのビットが落ちる。 -/
theorem memoryDestroyUvm_clears_oneTable :
    ∃ s', memoryDestroyUvm AllocState.oneTable 0x101000 = some s' ∧
      Clears AllocState.oneTable s' (Owned AllocState.oneTable.mem 0x101000) ∧
      bitmapGetBit s'.mem s'.alloc.bitmap 3 = 0 := by
  obtain ⟨s', hs', h⟩ := memoryDestroyUvm_clears (s := AllocState.oneTable)
    ⟨rfl, rfl, by decide, by decide, by decide⟩ (show 0x101000 ≠ 0 by decide) (by decide) (by decide)
    AllocState.oneTable_apart
  refine ⟨s', hs', h, ?_⟩
  rw [h.alloc]
  have hframe : FrameOf AllocState.oneTable.mem (tableAt AllocState.oneTable.mem 0x101000 512) PTE_CNT 0x103000 :=
    ⟨0, by decide, by decide +kernel, by decide +kernel⟩
  exact h.cleared 3 (by decide) (Or.inl ⟨512, by decide, by decide, by decide +kernel, Or.inl hframe⟩)

end IdealX86
