import IdealX86.Tools.Bitmap

/-!
# `memory.c`：ページの割り当て

`uint32_t` の値は `2 ^ 32` 未満の自然数で表し、和と積は `2 ^ 32` の剰余を取る。
`alloc->mutex` は二つの関数の本体の全体を囲み、呼び出しを一つずつに並べるだけなので、ここでは一回の呼び出しを
不可分に扱い、実行を呼び出しの列とする。
-/

namespace IdealX86

def MEM_PAGE_SIZE : Nat := 4096

structure AddrAlloc where
  bitmap : Bitmap
  start : Nat
  size : Nat
  pageSize : Nat
  deriving DecidableEq

def addrAllocInit (mem : Mem) (bits start size pageSize : Nat) : Mem × AddrAlloc :=
  let r := bitmapInit mem bits ((size / pageSize : Nat) : Int) 0
  (r.1, ⟨r.2, start, size, pageSize⟩)

/-- 割り当て器の触れる状態：メモリ、`addr_alloc_t`、`bitmap_alloc_nbits` の `search_idx`。 -/
structure AllocState where
  mem : Mem
  alloc : AddrAlloc
  searchIdx : Int

/-- `addr_alloc_page`。割り当てたアドレスを返し、失敗では 0 を返す。 -/
def addrAllocPage (s : AllocState) (pageCount : Int) : Nat × AllocState :=
  let r := bitmapAllocNbits s.searchIdx s.mem s.alloc.bitmap 0 pageCount
  let addr := if r.ret ≥ 0 then (s.alloc.start + r.ret.toNat * s.alloc.pageSize) % 2 ^ 32 else 0
  (addr, ⟨r.mem, s.alloc, r.searchIdx⟩)

def addrFreePage (s : AllocState) (addr : Nat) (pageCount : Int) : AllocState :=
  let pgIndex : Nat := (addr + 2 ^ 32 - s.alloc.start) % 2 ^ 32 / s.alloc.pageSize
  ⟨bitmapSetBit s.mem s.alloc.bitmap (pgIndex : Int) pageCount 0, s.alloc, s.searchIdx⟩

/-! ## 割り当てと解放の実行 -/

/-- `addr_alloc_page(alloc, pages)` が返した区間。 -/
structure Block where
  addr : Nat
  pages : Nat
  deriving DecidableEq

def Block.page (b : Block) (i : Nat) : Nat := b.addr + i * MEM_PAGE_SIZE

def Block.Disjoint (a b : Block) : Prop :=
  ∀ i < a.pages, ∀ j < b.pages, a.page i ≠ b.page j

instance (a b : Block) : Decidable (a.Disjoint b) :=
  inferInstanceAs (Decidable (∀ i < a.pages, ∀ j < b.pages, a.page i ≠ b.page j))

/-- 割り当て器の状態と、返されてまだ解放されていない区間の並び。 -/
structure Arena extends AllocState where
  live : List Block

inductive AllocOp where
  | alloc (n : Nat)
  | free (b : Block)
  deriving DecidableEq

/-- 呼び出しの一回分。ページ数は 1 以上で、解放するのは返された区間の全体に限る。 -/
def Arena.step (s : Arena) : AllocOp → Option Arena
  | .alloc n =>
      if 1 ≤ n then
        let r := addrAllocPage s.toAllocState n
        some ⟨r.2, if r.1 ≠ 0 then ⟨r.1, n⟩ :: s.live else s.live⟩
      else none
  | .free b =>
      if b ∈ s.live then some ⟨addrFreePage s.toAllocState b.addr b.pages, s.live.erase b⟩ else none

/-- `addr_alloc_init` の直後。探索の位置は、それまでにほかのビット列で進んだ値でもよい。 -/
def Arena.init (mem : Mem) (bits start size : Nat) (searchIdx : Int) : Arena :=
  let r := addrAllocInit mem bits start size MEM_PAGE_SIZE
  ⟨⟨r.1, r.2, searchIdx⟩, []⟩

end IdealX86
