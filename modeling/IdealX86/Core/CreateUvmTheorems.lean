import IdealX86.Core.UvmTheorems
import IdealX86.Cpu.Lemmas.Mmu

/-!
# 新しいアドレス空間の定理

`memory_create_uvm` の作るページディレクトリは、`MEMORY_TASK_BASE` より下ではカーネルのページディレクトリと同じ変換を与え、
それより上では何も変換しない。書き込みは新しいページと割り当て器の状態だけに触れる。
-/

namespace IdealX86

variable {s : AllocState} {mem mem' : Mem} {kernelPageDir pageDir : Nat}

/-! ## ページの割り当て -/

/-- `addr_alloc_page` は、ビット列の置き場のほかのメモリを変えない。 -/
theorem addrAllocPage_of_not_storage {pageCount : Int} (hc : 1 ≤ pageCount) (hi : 0 ≤ s.searchIdx) {a : Nat}
    (ha : ¬ s.alloc.Storage a) : (addrAllocPage s pageCount).2.mem a = s.mem a := by
  have hout : a < s.alloc.bitmap.bits ∨ s.alloc.bitmap.bits + s.alloc.bitmap.byteLen ≤ a := by
    unfold AddrAlloc.Storage at ha
    omega
  simp only [addrAllocPage]
  cases bitmapAllocNbits_end s.mem s.alloc.bitmap 0 s.searchIdx hc with
  | found r hr hend =>
      rw [hend]
      exact bitmapSetLoop_of_outside _ _ (hi.trans hr.le) hout
  | none _ hend => rw [hend]

/-- 割り当てたアドレスは、ページの境界にあって `2 ^ 32` を越えない。 -/
theorem addrAllocPage_aligned (pageCount : Int) (hsize : s.alloc.pageSize = MEM_PAGE_SIZE)
    (hstart : s.alloc.start % MEM_PAGE_SIZE = 0) :
    (addrAllocPage s pageCount).1 % MEM_PAGE_SIZE = 0 ∧
      (addrAllocPage s pageCount).1 + MEM_PAGE_SIZE ≤ 2 ^ 32 := by
  simp only [addrAllocPage, hsize]
  split
  · simp only [MEM_PAGE_SIZE] at hstart ⊢
    omega
  · simp [MEM_PAGE_SIZE]

/-! ## 項目の写し -/

/-- 範囲 `[a, a + n)` の外を変えない。 -/
def KeepsOutside (mem mem' : Mem) (a n : Nat) : Prop := ∀ x, x < a ∨ a + n ≤ x → mem' x = mem x

theorem KeepsOutside.read32 {a n b : Nat} (h : KeepsOutside mem mem' a n) (hb : b + 4 ≤ 2 ^ 32)
    (hout : b + 4 ≤ a ∨ a + n ≤ b) : read32 mem' b = read32 mem b := by
  refine read32_congr fun k hk => ?_
  rw [Nat.mod_eq_of_lt (by omega)]
  exact h _ (by omega)

/-- `i` 番目から `n` 個の項目が写され、ほかは変わらない。 -/
theorem createUvmLoop_spec (kernelPageDir pageDir n i : Nat) (mem : Mem) (hk : kernelPageDir + 4 * (i + n) ≤ 2 ^ 32)
    (hp : pageDir + 4 * (i + n) ≤ 2 ^ 32)
    (hapart : kernelPageDir + 4 * (i + n) ≤ pageDir ∨ pageDir + 4 * (i + n) ≤ kernelPageDir) :
    KeepsOutside mem (createUvmLoop kernelPageDir pageDir n i mem) (pageDir + 4 * i) (4 * n) ∧
      ∀ j, i ≤ j → j < i + n →
        read32 (createUvmLoop kernelPageDir pageDir n i mem) (pageDir + 4 * j) = read32 mem (kernelPageDir + 4 * j) := by
  induction n generalizing i mem with
  | zero => exact ⟨fun _ _ => rfl, fun j h₁ h₂ => by omega⟩
  | succ n ih =>
      have hwrite : KeepsOutside mem (write32 mem (pageDir + 4 * i) (read32 mem (kernelPageDir + 4 * i)))
          (pageDir + 4 * i) 4 := fun x hx => write32_of_outside mem _ (by omega) hx
      obtain ⟨hkeep, hcopy⟩ := ih (i + 1) (write32 mem (pageDir + 4 * i) (read32 mem (kernelPageDir + 4 * i)))
        (by omega) (by omega) (by omega)
      rw [createUvmLoop]
      refine ⟨fun x hx => ?_, fun j h₁ h₂ => ?_⟩
      · rw [hkeep x (by omega), hwrite x (by omega)]
      · by_cases hj : j = i
        · rw [hj, hkeep.read32 (by omega) (by omega), read32_write32 _ _ (by omega)]
        · rw [hcopy j (by omega) (by omega), hwrite.read32 (by omega) (by omega)]

/-! ## 変換 -/

theorem pdeIndex_lt (v : BitVec 32) : pdeIndex v < PDE_CNT := by
  rw [pdeIndex_eq, PDE_CNT]
  omega

theorem pteIndex_lt (v : BitVec 32) : pteIndex v < PTE_CNT := by
  rw [pteIndex, BitVec.toNat_and]
  exact Nat.lt_of_le_of_lt Nat.and_le_right (by decide)

/-- `MEMORY_TASK_BASE` は、ページディレクトリを半分に分ける。 -/
theorem pdeIndex_lt_iff (v : BitVec 32) : pdeIndex v < pdeIndex MEMORY_TASK_BASE ↔ v.toNat < MEMORY_TASK_BASE.toNat := by
  have hbase : MEMORY_TASK_BASE.toNat = 2 ^ 31 := by decide
  rw [pdeIndex_eq, pdeIndex_eq, hbase]
  omega

/-- 項目の値と、その指すページ表が同じなら、変換も同じである。 -/
theorem walk_congr {dir dir' : Nat} {v : BitVec 32}
    (hpde : read32 mem' (dir' + 4 * pdeIndex v) = read32 mem (dir + 4 * pdeIndex v))
    (hpte : present (read32 mem (dir + 4 * pdeIndex v)) = true →
      read32 mem' ((pdePaddr (read32 mem (dir + 4 * pdeIndex v))).toNat + 4 * pteIndex v) =
        read32 mem ((pdePaddr (read32 mem (dir + 4 * pdeIndex v))).toNat + 4 * pteIndex v)) :
    walk mem' dir' v = walk mem dir v := by
  simp only [walk, hpde]
  split
  · next h => rw [hpte h]
  · rfl

/-! ## 新しいページディレクトリ -/

/-- 新しいページディレクトリの内容：前半はカーネルの項目で、後半は 0 である。 -/
structure NewDir (mem mem' : Mem) (kernelPageDir pageDir : Nat) : Prop where
  keeps : KeepsOutside mem mem' pageDir MEM_PAGE_SIZE
  kernel : ∀ j < pdeIndex MEMORY_TASK_BASE, read32 mem' (pageDir + 4 * j) = read32 mem (kernelPageDir + 4 * j)
  user : ∀ j, pdeIndex MEMORY_TASK_BASE ≤ j → j < PDE_CNT → read32 mem' (pageDir + 4 * j) = 0

/-- 割り当て器の状態と、カーネルのページディレクトリの置き場についての前提。`memory_init` が定め、以後は変わらない。 -/
structure UvmReady (s : AllocState) (kernelPageDir : Nat) : Prop where
  pageSize : s.alloc.pageSize = MEM_PAGE_SIZE
  start_aligned : s.alloc.start % MEM_PAGE_SIZE = 0
  searchIdx_nonneg : 0 ≤ s.searchIdx
  dir_aligned : kernelPageDir % MEM_PAGE_SIZE = 0
  dir_bound : kernelPageDir + MEM_PAGE_SIZE ≤ 2 ^ 32

theorem newDir_of_apart (mem : Mem) (hd : pageDir ≠ 0) (hp : pageDir + MEM_PAGE_SIZE ≤ 2 ^ 32)
    (hk : kernelPageDir + MEM_PAGE_SIZE ≤ 2 ^ 32)
    (hapart : kernelPageDir + MEM_PAGE_SIZE ≤ pageDir ∨ pageDir + MEM_PAGE_SIZE ≤ kernelPageDir) :
    NewDir mem (createUvmLoop kernelPageDir pageDir (pdeIndex MEMORY_TASK_BASE) 0
      (kernelMemset mem pageDir 0 MEM_PAGE_SIZE)) kernelPageDir pageDir := by
  have hhalf : pdeIndex MEMORY_TASK_BASE = 512 := by decide
  simp only [MEM_PAGE_SIZE] at hp hk hapart
  have hset : KeepsOutside mem (kernelMemset mem pageDir 0 MEM_PAGE_SIZE) pageDir MEM_PAGE_SIZE := fun x hx => by
    rw [kernelMemset_apply hd (n := MEM_PAGE_SIZE) (by decide), if_neg (by omega)]
  obtain ⟨hkeep, hcopy⟩ := createUvmLoop_spec kernelPageDir pageDir 512 0
    (kernelMemset mem pageDir 0 MEM_PAGE_SIZE) (by omega) (by omega) (by omega)
  rw [hhalf]
  refine ⟨fun x hx => ?_, fun j hj => ?_, fun j h₁ h₂ => ?_⟩
  · simp only [MEM_PAGE_SIZE] at hx
    rw [hkeep x (by omega), hset x (by simp only [MEM_PAGE_SIZE]; omega)]
  · rw [hcopy j (by omega) (by omega), hset.read32 (by omega) (by simp only [MEM_PAGE_SIZE]; omega)]
  · simp only [PDE_CNT] at h₂
    rw [hhalf] at h₁
    rw [hkeep.read32 (by omega) (by omega)]
    refine read32_eq_zero fun k hk => ?_
    rw [Nat.mod_eq_of_lt (by omega), kernelMemset_apply hd (n := MEM_PAGE_SIZE) (by decide), if_pos (by simp only [MEM_PAGE_SIZE]; omega)]

namespace NewDir

variable (h : NewDir mem mem' kernelPageDir pageDir) {v : BitVec 32}
include h

/-- ディレクトリとそのページ表が新しいページになければ、ページ表の項目は変わらない。 -/
theorem read_table {pde : BitVec 32} (ha : pageDir % MEM_PAGE_SIZE = 0) (hne : (pdePaddr pde).toNat ≠ pageDir) :
    read32 mem' ((pdePaddr pde).toNat + 4 * pteIndex v) = read32 mem ((pdePaddr pde).toNat + 4 * pteIndex v) := by
  obtain ⟨hal, hb⟩ := paddr_aligned pde
  have hi := pteIndex_lt v
  unfold pdePaddr at hne ⊢
  simp only [MEM_PAGE_SIZE, PTE_CNT] at ha hal hb hi
  exact h.keeps.read32 (by omega) (by simp only [MEM_PAGE_SIZE]; omega)

variable (ha : pageDir % MEM_PAGE_SIZE = 0)
  (htab : ∀ i < PDE_CNT, present (pdeAt mem kernelPageDir i) = true → tableAt mem kernelPageDir i ≠ pageDir)
include ha htab

theorem walk_new (hv : v.toNat < MEMORY_TASK_BASE.toNat) : walk mem' pageDir v = walk mem kernelPageDir v :=
  walk_congr (h.kernel _ ((pdeIndex_lt_iff v).mpr hv)) fun hpde => h.read_table ha (htab _ (pdeIndex_lt v) hpde)

theorem walk_kernel (hk : kernelPageDir + MEM_PAGE_SIZE ≤ 2 ^ 32)
    (hapart : kernelPageDir + MEM_PAGE_SIZE ≤ pageDir ∨ pageDir + MEM_PAGE_SIZE ≤ kernelPageDir) :
    walk mem' kernelPageDir v = walk mem kernelPageDir v := by
  have hi := pdeIndex_lt v
  simp only [MEM_PAGE_SIZE, PDE_CNT] at hk hapart hi
  exact walk_congr (h.keeps.read32 (by omega) (by simp only [MEM_PAGE_SIZE]; omega)) fun hpde =>
    h.read_table ha (htab _ (pdeIndex_lt v) hpde)

omit ha htab in
theorem walk_user (hv : MEMORY_TASK_BASE.toNat ≤ v.toNat) : walk mem' pageDir v = none := by
  have hi : ¬ pdeIndex v < pdeIndex MEMORY_TASK_BASE := by
    rw [pdeIndex_lt_iff]
    omega
  rw [walk, h.user _ (by omega) (pdeIndex_lt v)]
  rfl

end NewDir

/-- `memory_create_uvm` の作るアドレス空間は、カーネルの側をちょうど共有する。新しいページがカーネルのページディレクトリでも、
そこからたどれるページ表でもなければ、`MEMORY_TASK_BASE` より下のどのアドレスも、カーネルのページディレクトリと同じ物理アドレスと
権限に変換され、それより上のどのアドレスも変換されず、新しいページと割り当て器の状態のほかは変わらない。0 を返すときに変わるのは
割り当て器の状態だけである。 -/
theorem memoryCreateUvm_shares_kernel (h : UvmReady s kernelPageDir) :
    let mem := (addrAllocPage s 1).2.mem
    let r := memoryCreateUvm s kernelPageDir
    (r.1 ≠ 0 → r.1 ≠ kernelPageDir →
      (∀ i < PDE_CNT, present (pdeAt mem kernelPageDir i) = true → tableAt mem kernelPageDir i ≠ r.1) →
        (∀ v : BitVec 32, v.toNat < MEMORY_TASK_BASE.toNat →
          walk r.2.mem r.1 v = walk r.2.mem kernelPageDir v ∧ walk r.2.mem r.1 v = walk mem kernelPageDir v) ∧
        (∀ v : BitVec 32, MEMORY_TASK_BASE.toNat ≤ v.toNat → walk r.2.mem r.1 v = none) ∧
        ∀ a, a < r.1 ∨ r.1 + MEM_PAGE_SIZE ≤ a → ¬ s.alloc.Storage a → r.2.mem a = s.mem a) ∧
    (r.1 = 0 → ∀ a, ¬ s.alloc.Storage a → r.2.mem a = s.mem a) := by
  have halloc : ∀ a, ¬ s.alloc.Storage a → (addrAllocPage s 1).2.mem a = s.mem a := fun a ha =>
    addrAllocPage_of_not_storage (by decide) h.searchIdx_nonneg ha
  obtain ⟨hal, hbound⟩ := addrAllocPage_aligned 1 h.pageSize h.start_aligned
  by_cases h₀ : (addrAllocPage s 1).1 = 0
  · simp only [memoryCreateUvm, h₀, ↓reduceIte]
    exact ⟨fun hne => absurd rfl hne, fun _ => halloc⟩
  · simp only [memoryCreateUvm, h₀, ↓reduceIte]
    refine ⟨fun _ hne htab => ?_, fun he => he.elim⟩
    have hapart : kernelPageDir + MEM_PAGE_SIZE ≤ (addrAllocPage s 1).1 ∨
        (addrAllocPage s 1).1 + MEM_PAGE_SIZE ≤ kernelPageDir := by
      have hka := h.dir_aligned
      simp only [MEM_PAGE_SIZE] at hal hka ⊢
      omega
    have hnew := newDir_of_apart (addrAllocPage s 1).2.mem h₀ hbound h.dir_bound hapart
    refine ⟨fun v hv => ⟨?_, hnew.walk_new hal htab hv⟩, fun v hv => hnew.walk_user hv, fun a ha hst => ?_⟩
    · rw [hnew.walk_new hal htab hv, hnew.walk_kernel hal htab h.dir_bound hapart]
    · rw [hnew.keeps a ha, halloc a hst]

/-- 8 ページの割り当て器。どのバイトも 3 なので、初めの二ページは使われていて、どの項目も `0x03030303` である。 -/
def uvmExample : AllocState where
  alloc := { bitmap := ⟨8, 0x9000⟩, start := 0x100000, size := 8 * MEM_PAGE_SIZE, pageSize := MEM_PAGE_SIZE }
  mem := fun _ => 3
  searchIdx := 0

theorem pdeAt_uvmExample (i : Nat) (hi : i < PDE_CNT) :
    pdeAt (addrAllocPage uvmExample 1).2.mem 0x20000 i = 0x03030303 := by
  have hcongr : pdeAt (addrAllocPage uvmExample 1).2.mem 0x20000 i = pdeAt uvmExample.mem 0x20000 i := by
    refine read32_congr fun k hk => addrAllocPage_of_not_storage (by decide) (by decide) ?_
    have hbytes : uvmExample.alloc.bitmap.byteLen = 1 := by decide
    have hbits : uvmExample.alloc.bitmap.bits = 0x9000 := rfl
    rw [PDE_CNT] at hi
    rw [AddrAlloc.Storage, hbytes, hbits]
    omega
  have hmem : uvmExample.mem = fun _ => 3 := rfl
  rw [hcongr, pdeAt, hmem, read32]
  decide

theorem memoryCreateUvm_shares_kernel_third :
    (memoryCreateUvm uvmExample 0x20000).1 = 0x102000 ∧
      ∀ v : BitVec 32, v.toNat < MEMORY_TASK_BASE.toNat →
        walk (memoryCreateUvm uvmExample 0x20000).2.mem 0x102000 v =
          walk (memoryCreateUvm uvmExample 0x20000).2.mem 0x20000 v := by
  have hpage : (addrAllocPage uvmExample 1).1 = 0x102000 := by decide
  have hdir : (memoryCreateUvm uvmExample 0x20000).1 = 0x102000 := by
    rw [memoryCreateUvm, hpage, if_neg (by decide)]
  have h : UvmReady uvmExample 0x20000 := ⟨rfl, by decide, by decide, by decide, by decide⟩
  have hshare := (memoryCreateUvm_shares_kernel h).1
  rw [hdir] at hshare
  refine ⟨hdir, fun v hv => ((hshare (by decide) (by decide) fun i hi _ => ?_).1 v hv).1⟩
  rw [tableAt, pdeAt_uvmExample i hi]
  decide

end IdealX86
