import IdealX86.Lib.Span
import IdealX86.Tools.Klib

/-!
# `klib.c`：メモリの上の文字列

文字列はメモリに置かれ、NUL で終わる。`kernel_strncpy` の写し元と写し先は、重なっていてもよい。
-/

namespace IdealX86

open Lib

/-- アドレス `a` に、NUL で終わる文字列 `text` が置かれている。 -/
structure CString (mem : Mem) (a : Nat) (text : List Byte) : Prop where
  spells : Spells mem a text
  nul : mem (a + text.length) = 0
  nonzero : ∀ c ∈ text, c ≠ 0

/-- `kernel_strlen` の `while`。`fuel` 周の中で終わらなければ `none`。 -/
def kernelStrlenLoop (mem : Mem) : Nat → Nat → Nat → Option Nat
  | 0, _, _ => none
  | fuel + 1, p, len => if mem p ≠ 0 then kernelStrlenLoop mem fuel (p + 1) (len + 1) else some len

/-- `kernel_strlen`。空のポインタでは 0 を返す。 -/
def kernelStrlen (fuel : Nat) (mem : Mem) (s : Nat) : Option Nat :=
  if s = 0 then some 0 else kernelStrlenLoop mem fuel s 0

/-- `kernel_strncpy` の `while (size-- && *s)`。抜けたときの `d` と `size` も返す。 -/
def strncpyLoop : Nat → Mem → Nat → Nat → Mem × Nat × Int
  | 0, mem, d, _ => (mem, d, -1)
  | size + 1, mem, d, s =>
      if mem s = 0 then (mem, d, size)
      else strncpyLoop size (Function.update mem d (mem s)) (d + 1) (s + 1)

/-- メモリの上の `kernel_strncpy`。`size` は 0 以上とする。 -/
def kernelStrncpyAt (mem : Mem) (dest src size : Nat) : Mem :=
  if dest = 0 ∨ src = 0 ∨ size = 0 then mem
  else
    let r := strncpyLoop size mem dest src
    if r.2.2 = 0 then Function.update r.1 (r.2.1 - 1) 0 else Function.update r.1 r.2.1 0

/-! ## 比較 -/

/-- 比較の `while` の終わり方。途中で値を返すか、`size` を残して抜ける。 -/
inductive CmpLoop where
  | returned (v : Int)
  | left (size : Int)

/-- `kernel_strncmp` の `while (*s1 && *s2 && size--)`。 -/
def strncmpLoop (mem : Mem) : Nat → Nat → Nat → CmpLoop
  | 0, s1, s2 => if mem s1 = 0 ∨ mem s2 = 0 then .left 0 else .left (-1)
  | size + 1, s1, s2 =>
      if mem s1 = 0 ∨ mem s2 = 0 then .left (size + 1 : Nat)
      else if mem s1 ≠ mem s2 then .returned 1
      else strncmpLoop mem size (s1 + 1) (s2 + 1)

/-- `kernel_memcmp` の `while (size--)`。 -/
def memcmpLoop (mem : Mem) : Nat → Nat → Nat → CmpLoop
  | 0, _, _ => .left (-1)
  | size + 1, s1, s2 => if mem s1 ≠ mem s2 then .returned 1 else memcmpLoop mem size (s1 + 1) (s2 + 1)

/-- ループの後の `if (size == 0) return 0;`。どの `return` にも達しないときは `none`。 -/
def CmpLoop.result : CmpLoop → Option Int
  | .returned v => some v
  | .left size => if size = 0 then some 0 else none

/-- `kernel_strncmp`。`size` は 0 以上とする。 -/
def kernelStrncmp (mem : Mem) (s1 s2 size : Nat) : Option Int :=
  if s1 = 0 ∨ s2 = 0 then some 0 else (strncmpLoop mem size s1 s2).result

/-- `kernel_memcmp`。`size` は 0 以上とする。 -/
def kernelMemcmp (mem : Mem) (d1 d2 size : Nat) : Option Int :=
  if d1 = 0 ∨ d2 = 0 ∨ size = 0 then some 0 else (memcmpLoop mem size d1 d2).result

/-! ## 文字列の読み取り -/

variable {mem mem' : Mem} {a : Nat} {c : Byte} {text : List Byte}

theorem cstring_nil : CString mem a [] ↔ mem a = 0 :=
  ⟨fun h => h.nul, fun h => ⟨trivial, h, by simp⟩⟩

theorem cstring_cons : CString mem a (c :: text) ↔ mem a = c ∧ c ≠ 0 ∧ CString mem (a + 1) text := by
  have hlen : a + (c :: text).length = a + 1 + text.length := by rw [List.length_cons]; omega
  constructor
  · intro h
    refine ⟨h.spells.1, h.nonzero c (by simp), h.spells.2, ?_, fun d hd => h.nonzero d (by simp [hd])⟩
    rw [← hlen]
    exact h.nul
  · rintro ⟨h₁, h₂, h⟩
    refine ⟨⟨h₁, h.spells⟩, ?_, ?_⟩
    · rw [hlen]
      exact h.nul
    · rintro d (_ | ⟨_, hd⟩)
      · exact h₂
      · exact h.nonzero d hd

theorem CString.congr (hs : CString mem a text) (h : ∀ x, a ≤ x → x ≤ a + text.length → mem' x = mem x) :
    CString mem' a text :=
  ⟨hs.spells.congr fun x h₁ h₂ => h x h₁ (by omega), (h _ (by omega) (by omega)).trans hs.nul, hs.nonzero⟩

/-- 同じ場所の文字列は一つに決まる。 -/
theorem CString.unique {text' : List Byte} (h : CString mem a text) (h' : CString mem a text') : text = text' := by
  induction text generalizing a text' with
  | nil =>
      cases text' with
      | nil => rfl
      | cons d l =>
          obtain ⟨h₁, h₂, _⟩ := cstring_cons.mp h'
          exact absurd (h₁ ▸ cstring_nil.mp h) h₂
  | cons c text ih =>
      obtain ⟨h₁, h₂, h₃⟩ := cstring_cons.mp h
      cases text' with
      | nil => exact absurd (h₁ ▸ cstring_nil.mp h') h₂
      | cons d l =>
          obtain ⟨h₁', _, h₃'⟩ := cstring_cons.mp h'
          rw [← h₁, ← h₁', ih h₃ h₃']

theorem cstring_put (h : ∀ c ∈ text, c ≠ 0) : CString (put mem a (text ++ [0])) a text := by
  have hs : Spells (put mem a (text ++ [0])) a (text ++ [0]) := spells_put
  rw [spells_append] at hs
  exact ⟨hs.1, hs.2.1, h⟩

theorem CString.strlenLoop (h : CString mem a text) {fuel : Nat} (hf : text.length < fuel) (len : Nat) :
    kernelStrlenLoop mem fuel a len = some (len + text.length) := by
  induction text generalizing a fuel len with
  | nil =>
      obtain _ | fuel := fuel
      · simp at hf
      · simp [kernelStrlenLoop, cstring_nil.mp h]
  | cons c text ih =>
      obtain ⟨h₁, h₂, h₃⟩ := cstring_cons.mp h
      rw [List.length_cons] at hf ⊢
      obtain _ | fuel := fuel
      · omega
      · rw [kernelStrlenLoop, if_pos (by rw [h₁]; exact h₂), ih h₃ (by omega)]
        congr 1
        omega

theorem CString.strlen (h : CString mem a text) (ha : a ≠ 0) {fuel : Nat} (hf : text.length < fuel) :
    kernelStrlen fuel mem a = some text.length := by
  rw [kernelStrlen, if_neg ha, h.strlenLoop hf, Nat.zero_add]

end IdealX86
