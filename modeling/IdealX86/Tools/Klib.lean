import Mathlib.Algebra.Order.Ring.Int
import Mathlib.Data.List.Basic
import Mathlib.Logic.Function.Basic

/-!
# `klib.c`：メモリと文字列の操作

メモリはアドレスからバイトへの関数で表す。`kernel_memset` の `while (size--)` は、残りの回数についての再帰で表す。
-/

namespace IdealX86

abbrev Byte := BitVec 8

abbrev Mem := Nat → Byte

/-- アドレス `a` からの、リトルエンディアンの 32 ビットの値。アドレスは 32 ビットで一周する。 -/
def read32 (mem : Mem) (a : Nat) : BitVec 32 :=
  mem ((a + 3) % 2 ^ 32) ++ mem ((a + 2) % 2 ^ 32) ++ mem ((a + 1) % 2 ^ 32) ++ mem (a % 2 ^ 32)

def read16 (mem : Mem) (a : Nat) : BitVec 16 := mem ((a + 1) % 2 ^ 32) ++ mem (a % 2 ^ 32)

theorem read32_congr {mem mem' : Mem} {a : Nat} (h : ∀ k < 4, mem' ((a + k) % 2 ^ 32) = mem ((a + k) % 2 ^ 32)) :
    read32 mem' a = read32 mem a := by
  have h₀ : mem' (a % 2 ^ 32) = mem (a % 2 ^ 32) := h 0 (by decide)
  rw [read32, h 3 (by decide), h 2 (by decide), h 1 (by decide), h₀, read32]

theorem read32_eq_zero {mem : Mem} {a : Nat} (h : ∀ k < 4, mem ((a + k) % 2 ^ 32) = 0) : read32 mem a = 0 := by
  have hz : read32 mem a = read32 (fun _ => 0) a := read32_congr h
  rw [hz, read32]
  decide

/-- アドレス `a` に、32 ビットの値をリトルエンディアンで書く。 -/
def write32 (mem : Mem) (a : Nat) (v : BitVec 32) : Mem :=
  let mem := Function.update mem (a % 2 ^ 32) (v.setWidth 8)
  let mem := Function.update mem ((a + 1) % 2 ^ 32) ((v >>> 8).setWidth 8)
  let mem := Function.update mem ((a + 2) % 2 ^ 32) ((v >>> 16).setWidth 8)
  Function.update mem ((a + 3) % 2 ^ 32) ((v >>> 24).setWidth 8)

theorem write32_of_outside (mem : Mem) {a : Nat} (v : BitVec 32) (ha : a + 4 ≤ 2 ^ 32) {x : Nat}
    (hx : x < a ∨ a + 4 ≤ x) : write32 mem a v x = mem x := by
  simp only [write32]
  rw [Function.update_of_ne (by omega), Function.update_of_ne (by omega), Function.update_of_ne (by omega),
    Function.update_of_ne (by omega)]

/-- 四つのバイトに分けた値は、並べると元に戻る。 -/
theorem append_bytes (v : BitVec 32) :
    (v >>> 24).setWidth 8 ++ (v >>> 16).setWidth 8 ++ (v >>> 8).setWidth 8 ++ v.setWidth 8 = v := by
  refine BitVec.eq_of_getLsbD_eq fun i hi => ?_
  simp only [BitVec.getLsbD_append, BitVec.getLsbD_setWidth, BitVec.getLsbD_ushiftRight]
  by_cases h₁ : i < 8
  · simp [h₁]
  · by_cases h₂ : i < 16
    · simp [h₁, show i - 8 < 8 by omega, show 8 + (i - 8) = i by omega]
    · by_cases h₃ : i < 24
      · simp [h₁, show ¬ i - 8 < 8 by omega, show i - 8 - 8 < 8 by omega, show 16 + (i - 8 - 8) = i by omega]
      · simp [h₁, show ¬ i - 8 < 8 by omega, show ¬ i - 8 - 8 < 8 by omega, show i - 8 - 8 - 8 < 8 by omega,
          show 24 + (i - 8 - 8 - 8) = i by omega]

theorem read32_write32 (mem : Mem) {a : Nat} (v : BitVec 32) (ha : a + 4 ≤ 2 ^ 32) : read32 (write32 mem a v) a = v := by
  have h₀ : a % 2 ^ 32 = a := Nat.mod_eq_of_lt (by omega)
  have h₁ : (a + 1) % 2 ^ 32 = a + 1 := Nat.mod_eq_of_lt (by omega)
  have h₂ : (a + 2) % 2 ^ 32 = a + 2 := Nat.mod_eq_of_lt (by omega)
  have h₃ : (a + 3) % 2 ^ 32 = a + 3 := Nat.mod_eq_of_lt (by omega)
  rw [read32, write32, h₀, h₁, h₂, h₃]
  simpa [Function.update_apply] using append_bytes v

def kernelMemsetLoop (mem : Mem) (d : Nat) (v : Byte) : Nat → Mem
  | 0 => mem
  | size + 1 => kernelMemsetLoop (Function.update mem d v) (d + 1) v size

/-- `kernel_memset`。空のポインタと大きさ 0 では何もしない。`while (size--)` は 0 で止まるので、負の大きさでは
32 ビットで一周するまで続く。 -/
def kernelMemset (mem : Mem) (dest : Nat) (v : Byte) (size : Int) : Mem :=
  if dest = 0 ∨ size = 0 then mem else kernelMemsetLoop mem dest v (BitVec.ofInt 32 size).toNat

theorem kernelMemsetLoop_apply (mem : Mem) (d : Nat) (v : Byte) (size a : Nat) :
    kernelMemsetLoop mem d v size a = if d ≤ a ∧ a < d + size then v else mem a := by
  induction size generalizing mem d with
  | zero => simp [kernelMemsetLoop, show ¬(d ≤ a ∧ a < d) by omega]
  | succ n ih =>
      rw [kernelMemsetLoop, ih]
      by_cases ha : a = d
      · subst ha
        simp [show ¬(a + 1 ≤ a) by omega]
      · rw [Function.update_of_ne ha]
        congr 1
        simp only [eq_iff_iff]
        omega

theorem kernelMemset_int_apply {mem : Mem} {dest : Nat} (hd : dest ≠ 0) (v : Byte) (size : Int) (a : Nat) :
    kernelMemset mem dest v size a =
      if dest ≤ a ∧ a < dest + (BitVec.ofInt 32 size).toNat then v else mem a := by
  unfold kernelMemset
  by_cases hs : size = 0
  · subst hs
    simp [show ¬(dest ≤ a ∧ a < dest) by omega]
  · rw [if_neg (by simp [hd, hs]), kernelMemsetLoop_apply]

theorem kernelMemset_apply {mem : Mem} {dest n : Nat} {v : Byte} (hd : dest ≠ 0) (hn : n < 2 ^ 32) (a : Nat) :
    kernelMemset mem dest v n a = if dest ≤ a ∧ a < dest + n then v else mem a := by
  have hsize : (BitVec.ofInt 32 (n : Int)).toNat = n := by
    rw [BitVec.toNat_ofInt]
    omega
  rw [kernelMemset_int_apply hd, hsize]

/-! ## 文字列の写し -/

/-- `kernel_strncpy` の `while (size-- && *s)`。`dest` は書き込み先のポインタから見たバイトで、`d` と `s` は同じ `p` だけ
進んでいる。抜けたときの `p` と `size` も返す。 -/
def kernelStrncpyLoop (src : Nat → Byte) : Nat → (Int → Byte) → Nat → (Int → Byte) × Nat × Int
  | 0, dest, p => (dest, p, -1)
  | size + 1, dest, p =>
      if src p = 0 then (dest, p, size)
      else kernelStrncpyLoop src size (Function.update dest p (src p)) (p + 1)

/-- `kernel_strncpy`。`src` は NUL で終わる文字列である。 -/
def kernelStrncpy (dest : Int → Byte) (src : Nat → Byte) (size : Nat) : Int → Byte :=
  if size = 0 then dest
  else
    let r := kernelStrncpyLoop src size dest 0
    if r.2.2 = 0 then Function.update r.1 (r.2.1 - 1) 0 else Function.update r.1 r.2.1 0

end IdealX86
