import IdealX86.Core.MemoryInit
import IdealX86.Cpu.Mmu

/-!
# `memory.c`：カーネルのページ表

ページ表の項目の置き場を型 `π` で表し、ソースにない `find_pte(page_dir, vaddr, 1)` を引数に取る。`find_pte` はページ表を足す
ことがあり、呼び出しのたびに成功も失敗もしうる。そのために持つ状態を型 `ω` で表す。失敗すると `none` を返す。
-/

namespace IdealX86

/-- ページ表の項目の値と、`find_pte` の使うそのほかの状態。 -/
structure PageTables (π ω : Type) where
  ptes : π → BitVec 32
  rest : ω

/-- `memory_create_map` の終わり方。`ASSERT` に反すると戻らない。 -/
inductive MapOutcome (τ : Type) where
  | returned (ret : Int) (s : τ)
  | panicked

variable {π : Type} [DecidableEq π]

section
variable {ω : Type} (findPteFrom : PageTables π ω → BitVec 32 → Option π × PageTables π ω) (perm : BitVec 32)

/-- `memory_create_map` の `for`。再帰の引数は残りの回数 `count - i` である。 -/
def createMapLoop : Nat → BitVec 32 → BitVec 32 → PageTables π ω → MapOutcome (PageTables π ω)
  | 0, _, _, s => .returned 0 s
  | n + 1, vaddr, paddr, s =>
      match findPteFrom s vaddr with
      | (none, s) => .returned (-1) s
      | (some pte, s) =>
          if present (s.ptes pte) then .panicked
          else
            createMapLoop n (vaddr + BitVec.ofNat 32 MEM_PAGE_SIZE) (paddr + BitVec.ofNat 32 MEM_PAGE_SIZE)
              { s with ptes := Function.update s.ptes pte (paddr ||| perm ||| PTE_P) }

def memoryCreateMapFrom (vaddr paddr : BitVec 32) (count : Int) (s : PageTables π ω) : MapOutcome (PageTables π ω) :=
  createMapLoop findPteFrom perm count.toNat vaddr paddr s

end

/-- `memory_create_map` の書く項目は有効である。 -/
theorem present_map (p perm : BitVec 32) : present (p ||| perm ||| PTE_P) = true := by
  simp [present, PTE_P]

/-- 状態によらない `find_pte` を使う `memory_create_map`。 -/
def memoryCreateMap (findPte : BitVec 32 → Option π) (perm vaddr paddr : BitVec 32) (count : Int) (ptes : π → BitVec 32) :
    MapOutcome (PageTables π Unit) :=
  memoryCreateMapFrom (fun s v => (findPte v, s)) perm vaddr paddr count ⟨ptes, ()⟩

structure MemoryMap where
  vstart : BitVec 32
  vend : BitVec 32
  pstart : BitVec 32
  perm : BitVec 32
  deriving DecidableEq

namespace MemoryMap

variable (m : MemoryMap)

/-- `create_kernel_table` の `vstart`。 -/
def vfirst : BitVec 32 := down2 m.vstart (BitVec.ofNat 32 MEM_PAGE_SIZE)

/-- `create_kernel_table` の `page_count`。`int` の差と商である。 -/
def pageCount : Int :=
  ((up2 m.vend (BitVec.ofNat 32 MEM_PAGE_SIZE)).toInt - m.vfirst.toInt).tdiv MEM_PAGE_SIZE

end MemoryMap

/-- `create_kernel_table` の `for`。`memory_create_map` の戻り値は見ない。 -/
def createTableLoop (findPte : BitVec 32 → Option π) : List MemoryMap → (π → BitVec 32) → Option (π → BitVec 32)
  | [], ptes => some ptes
  | m :: ms, ptes =>
      match memoryCreateMap findPte m.perm m.vfirst m.pstart m.pageCount ptes with
      | .returned _ s => createTableLoop findPte ms s.ptes
      | .panicked => none

/-! ## カーネルの配置 -/

/-- `kernel.lds` が `e_text` と `s_data` に与えるアドレスと、ソースにない `CONSOLE_DISP_ADDR`、`CONSOLE_DISP_END`、
`CONSOLE_VIDEO_BASE` の値。画面の範囲は `0x80000` と 1 MB の間にあり、ページの境界で区切られている。 -/
structure KernelLayout where
  eText : BitVec 32
  dispAddr : BitVec 32
  dispEnd : BitVec 32
  videoBase : BitVec 32
  eText_gt : 0x10000 < eText.toNat
  eText_lt : eText.toNat < MEM_EBDA_START
  disp_ge : MEM_EBDA_START ≤ dispAddr.toNat
  disp_le : dispAddr.toNat ≤ dispEnd.toNat
  disp_end : dispEnd.toNat ≤ MEM_EXT_START
  dispAddr_aligned : dispAddr.toNat % MEM_PAGE_SIZE = 0
  dispEnd_aligned : dispEnd.toNat % MEM_PAGE_SIZE = 0
  videoBase_aligned : videoBase.toNat % MEM_PAGE_SIZE = 0

namespace KernelLayout

variable (l : KernelLayout)

def kernelBase : BitVec 32 := 0
def sText : BitVec 32 := 0x10000
def sData : BitVec 32 := l.eText

def kernelMap : List MemoryMap :=
  [⟨kernelBase, sText, 0, PTE_W⟩,
   ⟨sText, l.eText, sText, 0⟩,
   ⟨l.sData, BitVec.ofNat 32 (MEM_EBDA_START - 1), l.sData, PTE_W⟩,
   ⟨l.dispAddr, l.dispEnd - 1, l.videoBase, PTE_W⟩,
   ⟨BitVec.ofNat 32 MEM_EXT_START, BitVec.ofNat 32 MEM_EXT_END, BitVec.ofNat 32 MEM_EXT_START, PTE_W⟩]

/-- `create_kernel_table`。`ASSERT` に反すると `none` である。`ptes` は、ページディレクトリを消した後の項目の値である。 -/
def createKernelTable (findPte : BitVec 32 → Option π) (ptes : π → BitVec 32) : Option (π → BitVec 32) :=
  createTableLoop findPte l.kernelMap ptes

end KernelLayout

end IdealX86
