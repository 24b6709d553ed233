import IdealX86.Core.Lemmas.AddrAlloc
import IdealX86.Core.Uvm

/-!
# アドレス空間の生成と破棄の実行

`memory_create_uvm` と `memory_destroy_uvm` の呼び出しと、一語ずつの書き込みが、任意の順に続く実行である。書き込みは、ページ表や
ページディレクトリへの写像の書き込みでも、ほかの書き込みでもよい。
`addr_alloc_page` の `mutex` は、`Core/Memory.lean` と同じく、呼び出しを一つずつに並べるだけである。
-/

namespace IdealX86

/-- `memory_init` の後のメモリの配置。カーネルのページディレクトリ、ビット列の置き場、管理する範囲の順に、重ならずに並ぶ。 -/
structure SpaceLayout extends PageRange where
  kernelPageDir : Nat
  dir_below : kernelPageDir + MEM_PAGE_SIZE ≤ bits
  storage_below : bits + (Bitmap.mk (size / MEM_PAGE_SIZE : Nat) bits).byteLen ≤ start

/-- 割り当て器の状態と、`memory_create_uvm` が返してまだ破棄されていないページディレクトリの並び。 -/
structure Spaces extends AllocState where
  dirs : List Nat

inductive SpaceOp where
  | create
  | destroy (dir : Nat)
  | store (a : Nat) (v : BitVec 32)

def Spaces.Apart (a n b m : Nat) : Prop := a + n ≤ b ∨ b + m ≤ a

instance (a n b m : Nat) : Decidable (Spaces.Apart a n b m) := inferInstanceAs (Decidable (_ ∨ _))

namespace Spaces

/-- 書き込めるのは、割り当て器だけが書くビット列の置き場のほかである。 -/
def MayStore (s : Spaces) (a : Nat) : Prop :=
  a + 4 ≤ 2 ^ 32 ∧ Apart a 4 s.alloc.bitmap.bits s.alloc.bitmap.byteLen

instance (s : Spaces) (a : Nat) : Decidable (s.MayStore a) := inferInstanceAs (Decidable (_ ∧ _))

def step (kernelPageDir : Nat) (s : Spaces) : SpaceOp → Option Spaces
  | .create =>
      let r := memoryCreateUvm s.toAllocState kernelPageDir
      some ⟨r.2, if r.1 ≠ 0 then r.1 :: s.dirs else s.dirs⟩
  | .destroy dir =>
      if dir ∈ s.dirs then
        (memoryDestroyUvm s.toAllocState dir).map fun s' => ⟨s', s.dirs.erase dir⟩
      else none
  | .store a v =>
      if s.MayStore a then some { s with mem := write32 s.mem a v } else none

end Spaces

/-- `memory_init` の直後。探索の位置は、それまでにほかのビット列で進んだ値でもよい。 -/
def SpaceLayout.boot (l : SpaceLayout) (mem : Mem) (searchIdx : Nat) : Spaces :=
  ⟨(l.arena mem searchIdx).toAllocState, []⟩

end IdealX86
