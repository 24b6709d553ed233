import IdealX86.Tools.Klib

/-!
# `mmu.h`：ページ表

ページ表とページディレクトリの項目は 32 ビットの値で表し、ビットの区画は値から読み出す。
-/

namespace IdealX86

def PDE_CNT : Nat := 1024
def PTE_CNT : Nat := 1024

def PTE_P : BitVec 32 := 1 <<< 0
def PTE_W : BitVec 32 := 1 <<< 1

/-- `pde_t` と `pte_t` の `present`。 -/
def present (v : BitVec 32) : Bool := v.getLsbD 0

def pdeIndex (vaddr : BitVec 32) : Nat := (vaddr >>> 22).toNat

def pdePaddr (pde : BitVec 32) : BitVec 32 := pde >>> 12 <<< 12

def pteIndex (vaddr : BitVec 32) : Nat := (vaddr >>> 12 &&& 0x3FF).toNat

def ptePaddr (pte : BitVec 32) : BitVec 32 := pte >>> 12 <<< 12

def pteFlags (pte : BitVec 32) : BitVec 32 := pte &&& 0xFFF

/-! ## アドレスの変換 -/

/-- ページディレクトリ `pageDir` からの二段の変換。物理アドレスと、二つの項目の権限を与える。 -/
def walk (mem : Mem) (pageDir : Nat) (vaddr : BitVec 32) : Option (BitVec 32 × BitVec 32 × BitVec 32) :=
  let pde := read32 mem (pageDir + 4 * pdeIndex vaddr)
  if present pde then
    let pte := read32 mem ((pdePaddr pde).toNat + 4 * pteIndex vaddr)
    if present pte then some (ptePaddr pte ||| (vaddr &&& 0xFFF), pteFlags pde, pteFlags pte) else none
  else none

structure Ctrl where
  cr0 : BitVec 32
  cr3 : BitVec 32
  cr4 : BitVec 32
  deriving DecidableEq

/-- CPU のアドレスの変換。`CR4.PSE` のもとで PS の立つ項目は、4 MB のページを指す。 -/
def linear (mem : Mem) (r : Ctrl) (vaddr : BitVec 32) : Option (BitVec 32) :=
  if r.cr0.getLsbD 31 then
    let pageDir := (r.cr3 >>> 12 <<< 12).toNat
    let pde := read32 mem (pageDir + 4 * pdeIndex vaddr)
    if present pde && pde.getLsbD 7 && r.cr4.getLsbD 4 then
      some (pde &&& 0xFFC00000 ||| vaddr &&& 0x3FFFFF)
    else (walk mem pageDir vaddr).map (·.1)
  else some vaddr

end IdealX86
