import IdealX86.Core.Memory
import IdealX86.Loader.Detect

/-!
# `memory.c`：物理メモリの初期化

`memory_init` が割り当て器に渡す範囲を求めるところまでを表す。`uint32_t` の和と差は 32 ビットで桁あふれする。
-/

namespace IdealX86

def MEM_EBDA_START : Nat := 0x00080000
def MEM_EXT_START : Nat := 1024 * 1024
def MEM_EXT_END : Nat := 128 * 1024 * 1024 - 1

/-- `size` を `bound` の倍数へ切り下げる。 -/
def down2 (size bound : BitVec 32) : BitVec 32 := size &&& ~~~(bound - 1)

/-- `size` を `bound` の倍数へ切り上げる。 -/
def up2 (size bound : BitVec 32) : BitVec 32 := (size + bound - 1) &&& ~~~(bound - 1)

/-- `total_mem_size` の `for`。第二の引数は残りの回数である。 -/
def totalMemLoop (cfg : Nat → RamRegion) : Nat → Nat → BitVec 32 → BitVec 32
  | _, 0, memSize => memSize
  | i, n + 1, memSize => totalMemLoop cfg (i + 1) n (memSize + (cfg i).size)

def totalMemSize (b : BootInfo) : BitVec 32 := totalMemLoop b.ramRegionCfg 0 b.ramRegionCount.toNat 0

structure MemoryInit where
  mem : Mem
  paddrAlloc : AddrAlloc
  /-- ビット列の後の、空いているメモリの先頭。`MEM_EBDA_START` に達していれば `ASSERT` で止まる。 -/
  memFree : Int

/-- `memory_init`。`memFree` は `mem_free_start` のアドレスである。 -/
def memoryInit (mem : Mem) (memFree : Nat) (b : BootInfo) : MemoryInit :=
  let memUp1MBFree := totalMemSize b - BitVec.ofNat 32 MEM_EXT_START
  let memUp1MBFree := down2 memUp1MBFree (BitVec.ofNat 32 MEM_PAGE_SIZE)
  let r := addrAllocInit mem memFree MEM_EXT_START memUp1MBFree.toNat MEM_PAGE_SIZE
  ⟨r.1, r.2, memFree + bitmapByteCount ((r.2.size / MEM_PAGE_SIZE : Nat) : Int)⟩

/-! ## 切り下げと切り上げ -/

theorem and_not_page_toNat (x : BitVec 32) :
    (x &&& ~~~(BitVec.ofNat 32 MEM_PAGE_SIZE - 1)).toNat = x.toNat / MEM_PAGE_SIZE * MEM_PAGE_SIZE := by
  have hshift : x &&& ~~~(BitVec.ofNat 32 MEM_PAGE_SIZE - 1) = x >>> 12 <<< 12 := by
    refine BitVec.eq_of_getLsbD_eq fun i hi => ?_
    have hmask : (~~~(BitVec.ofNat 32 MEM_PAGE_SIZE - 1)).getLsbD i = decide (12 ≤ i) := by
      revert i
      decide
    simp only [BitVec.getLsbD_and, hmask, BitVec.getLsbD_shiftLeft, hi, BitVec.getLsbD_ushiftRight]
    by_cases h : 12 ≤ i
    · simp [h, show ¬ i < 12 by omega]
    · simp [h, show i < 12 by omega]
  have hx := x.isLt
  rw [hshift, BitVec.toNat_shiftLeft, BitVec.toNat_ushiftRight, Nat.shiftRight_eq_div_pow,
    Nat.shiftLeft_eq, MEM_PAGE_SIZE]
  omega

theorem down2_page_toNat (x : BitVec 32) :
    (down2 x (BitVec.ofNat 32 MEM_PAGE_SIZE)).toNat = x.toNat / MEM_PAGE_SIZE * MEM_PAGE_SIZE :=
  and_not_page_toNat x

theorem up2_page_toNat (x : BitVec 32) (h : x.toNat + MEM_PAGE_SIZE ≤ 2 ^ 32) :
    (up2 x (BitVec.ofNat 32 MEM_PAGE_SIZE)).toNat =
      (x.toNat + (MEM_PAGE_SIZE - 1)) / MEM_PAGE_SIZE * MEM_PAGE_SIZE := by
  have hadd : (x + BitVec.ofNat 32 MEM_PAGE_SIZE - 1).toNat = x.toNat + (MEM_PAGE_SIZE - 1) := by
    simp only [MEM_PAGE_SIZE] at h ⊢
    rw [BitVec.toNat_sub, BitVec.toNat_add, BitVec.toNat_ofNat]
    simp only [BitVec.ofNat_eq_ofNat, BitVec.toNat_ofNat]
    omega
  rw [up2, and_not_page_toNat, hadd]

end IdealX86
