import IdealX86.Core.Memory
import IdealX86.Cpu.Mmu

/-!
# `memory.c`：利用者のアドレス空間

ページ表は物理アドレスで読む。`paddr_alloc` とその置き場、そしてページ表は、同じメモリの上にある。
-/

namespace IdealX86

def MEMORY_TASK_BASE : BitVec 32 := 0x80000000

/-! ## `memory_create_uvm` -/

/-- カーネルの側の項目を写す `for`。第一の引数は残りの項目の数である。 -/
def createUvmLoop (kernelPageDir pageDir : Nat) : Nat → Nat → Mem → Mem
  | 0, _, mem => mem
  | n + 1, i, mem =>
      createUvmLoop kernelPageDir pageDir n (i + 1)
        (write32 mem (pageDir + 4 * i) (read32 mem (kernelPageDir + 4 * i)))

/-- `memory_create_uvm`。作ったページディレクトリのアドレスを返し、ページが取れなければ 0 を返す。 -/
def memoryCreateUvm (s : AllocState) (kernelPageDir : Nat) : Nat × AllocState :=
  let r := addrAllocPage s 1
  if r.1 = 0 then (0, r.2)
  else
    let mem := kernelMemset r.2.mem r.1 0 MEM_PAGE_SIZE
    let userPdeStart := pdeIndex MEMORY_TASK_BASE
    (r.1, { r.2 with mem := createUvmLoop kernelPageDir r.1 userPdeStart 0 mem })

/-! ## `memory_destroy_uvm` -/

/-- 内側の `for`。第一の引数は残りの項目の数である。 -/
def destroyPteLoop : Nat → Nat → AllocState → AllocState
  | 0, _, s => s
  | n + 1, pte, s =>
      if present (read32 s.mem pte) then
        destroyPteLoop n (pte + 4) (addrFreePage s (ptePaddr (read32 s.mem pte)).toNat 1)
      else destroyPteLoop n (pte + 4) s

/-- 外側の `for`。ページ表の項目を解放した後に、ページ表を解放する。 -/
def destroyPdeLoop : Nat → Nat → AllocState → AllocState
  | 0, _, s => s
  | n + 1, pde, s =>
      if present (read32 s.mem pde) then
        let s := destroyPteLoop PTE_CNT (pdePaddr (read32 s.mem pde)).toNat s
        destroyPdeLoop n (pde + 4) (addrFreePage s (pdePaddr (read32 s.mem pde)).toNat 1)
      else destroyPdeLoop n (pde + 4) s

/-- `memory_destroy_uvm`。`page_dir` が 0 なら `ASSERT` で止まる。 -/
def memoryDestroyUvm (s : AllocState) (pageDir : Nat) : Option AllocState :=
  let userPdeStart := pdeIndex MEMORY_TASK_BASE
  if pageDir = 0 then none
  else
    let s := destroyPdeLoop (PDE_CNT - userPdeStart) (pageDir + 4 * userPdeStart) s
    some (addrFreePage s pageDir 1)

end IdealX86
