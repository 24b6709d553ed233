import IdealX86.Core.Memory
import IdealX86.Tools.Lemmas.Bitmap

/-!
# 割り当て器の補題

`addr_alloc_page` は見つけた区間に `~bit = -1` を書き、`bitmap_set_bit` は 1 でない値をすべて 0 として書く。
そのためビット列はいつも 0 で、割り当ての結果は探索の位置だけで決まる。
-/

namespace IdealX86

/-- 管理する範囲。先頭は正でページの境界にあり、末尾は `2 ^ 32` を超えない。ビット列の置き場は空でない。 -/
structure PageRange where
  bits : Nat
  start : Nat
  size : Nat
  bits_ne : bits ≠ 0
  start_pos : 0 < start
  aligned : start % MEM_PAGE_SIZE = 0
  bound : start + size ≤ 2 ^ 32

namespace PageRange

variable (r : PageRange)

def pages : Nat := r.size / MEM_PAGE_SIZE

/-- `addr_alloc_init` の直後の状態。 -/
def arena (mem : Mem) (searchIdx : Int) : Arena := Arena.init mem r.bits r.start r.size searchIdx

structure Ok (s : Arena) : Prop where
  start : s.alloc.start = r.start
  pageSize : s.alloc.pageSize = MEM_PAGE_SIZE
  bitcount : s.alloc.bitmap.bitcount = r.pages
  zero : BitsZero s.mem s.alloc.bitmap
  nonneg : 0 ≤ s.searchIdx

/-- 探索の位置から見て `n` ページの割り当てが成り立つ。位置は範囲の中にあり、残りは `n - 1` ページ以上ある。 -/
def Fits (s : Arena) (n : Nat) : Prop :=
  1 ≤ n ∧ s.searchIdx < r.pages ∧ s.searchIdx + n ≤ r.pages + 1

end PageRange

variable {r : PageRange} {s s' : Arena} {n : Nat}

theorem PageRange.page_lt (k : Nat) (hk : k < r.pages) : r.start + k * MEM_PAGE_SIZE < 2 ^ 32 := by
  have hb := r.bound
  simp only [pages, MEM_PAGE_SIZE] at hk ⊢
  omega

theorem PageRange.Ok.init (mem : Mem) {i : Int} (hi : 0 ≤ i) : r.Ok (r.arena mem i) where
  start := rfl
  pageSize := rfl
  bitcount := rfl
  zero := bitmapInit_zero r.bits_ne (by have := r.bound; simp only [MEM_PAGE_SIZE]; omega)
  nonneg := hi

/-! ## 一回の呼び出し -/

theorem PageRange.Ok.alloc_fits (h : r.Ok s) (hf : r.Fits s n) :
    (addrAllocPage s.toAllocState n).1 = r.start + s.searchIdx.toNat * MEM_PAGE_SIZE ∧
      (addrAllocPage s.toAllocState n).2.searchIdx = s.searchIdx + n - 1 := by
  obtain ⟨hn, hs, hfit⟩ := hf
  have h₀ := h.nonneg
  have hlt := r.page_lt s.searchIdx.toNat (by omega)
  have hr := bitmapAllocNbits_zero_some h.zero h₀ (by omega : (1 : Int) ≤ n)
    (by rw [h.bitcount]; exact hs) (by rw [h.bitcount]; exact hfit)
  simp only [addrAllocPage, hr, ge_iff_le, h₀, ↓reduceIte, h.start, h.pageSize, and_true]
  exact Nat.mod_eq_of_lt hlt

/-- 割り当てが成り立たないときは 0 を返し、探索の位置は範囲の末尾から動かなくなる。 -/
theorem PageRange.Ok.alloc_not_fits (h : r.Ok s) (hn : 1 ≤ n) (hf : ¬ r.Fits s n) :
    (addrAllocPage s.toAllocState n).1 = 0 ∧
      (addrAllocPage s.toAllocState n).2.searchIdx = max s.searchIdx r.pages := by
  have hnot : ¬ (s.searchIdx < s.alloc.bitmap.bitcount ∧
      s.searchIdx + (n : Int) ≤ s.alloc.bitmap.bitcount + 1) := by
    rw [h.bitcount]
    exact fun hs => hf ⟨hn, hs⟩
  have hr := bitmapAllocNbits_zero_none s.mem (by omega) hnot
  simp [addrAllocPage, hr, h.bitcount]

theorem PageRange.Ok.alloc_ne_zero_iff (h : r.Ok s) (hn : 1 ≤ n) :
    (addrAllocPage s.toAllocState n).1 ≠ 0 ↔ r.Fits s n := by
  have hpos := r.start_pos
  by_cases hf : r.Fits s n
  · rw [(h.alloc_fits hf).1]
    exact ⟨fun _ => hf, fun _ => by omega⟩
  · rw [(h.alloc_not_fits hn hf).1]
    exact ⟨fun h => absurd rfl h, fun h => absurd h hf⟩

/-! ## 実行で保たれること -/

theorem PageRange.Ok.step (h : r.Ok s) {op : AllocOp} (hstep : s.step op = some s') : r.Ok s' := by
  cases op with
  | alloc n =>
      simp only [Arena.step] at hstep
      split at hstep
      · rename_i hn
        cases hstep
        refine ⟨h.start, h.pageSize, h.bitcount, ?_, ?_⟩
        · -- 成功では見つけた区間に -1 を書き、失敗ではメモリを変えない。
          have hn' : (1 : Int) ≤ n := by omega
          by_cases hf : s.searchIdx < s.alloc.bitmap.bitcount ∧
              s.searchIdx + n ≤ s.alloc.bitmap.bitcount + 1
          · simp only [addrAllocPage, bitmapAllocNbits_zero_some h.zero h.nonneg hn' hf.1 hf.2]
            exact bitmapSetBit_zero (by decide) h.zero
          · simp only [addrAllocPage, bitmapAllocNbits_zero_none s.mem hn' hf]
            exact h.zero
        · have h₀ := h.nonneg
          by_cases hf : r.Fits s n
          · simp only [(h.alloc_fits hf).2]
            omega
          · simp only [(h.alloc_not_fits hn hf).2]
            exact le_max_of_le_left h₀
      · cases hstep
  | free b =>
      simp only [Arena.step] at hstep
      split at hstep
      · cases hstep
        exact ⟨h.start, h.pageSize, h.bitcount, bitmapSetBit_zero (by decide) h.zero, h.nonneg⟩
      · cases hstep

end IdealX86
