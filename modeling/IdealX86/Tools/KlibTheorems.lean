import IdealX86.Tools.Cstring

/-!
# `kernel_strncpy` の定理

`kernel_strncpy` は、`size` から 1 を引いてから文字を見るので、文字列がちょうど入るときと入りきらないときに NUL を置く場所を
誤る。正しく写すための条件を示す。
-/

namespace IdealX86

open Lib

variable {mem : Mem} {dest src d s size : Nat} {text : List Byte}

/-- 大きさ `size` の `dest` に `text` を写した結果。書き込みは `dest` の中に収まり、`text` の先頭の `size - 1` 文字までと
NUL が置かれる。 -/
structure BoundedCopy (mem mem' : Mem) (dest size : Nat) (text : List Byte) : Prop where
  frame : ∀ x, x < dest ∨ dest + size ≤ x → mem' x = mem x
  copied : Spells mem' dest (text.take (size - 1) ++ [0])

/-! ## ループの終わり方 -/

/-- 文字列が `size` より短く、書き込みがまだ読んでいない文字に触れなければ、文字列の全体が写される。 -/
theorem strncpyLoop_copies (h : CString mem s text) (hapart : d ≤ s ∨ s + text.length < d) (hlen : text.length < size) :
    strncpyLoop size mem d s = (put mem d text, d + text.length, (size : Int) - 1 - text.length) := by
  induction text generalizing mem d s size with
  | nil =>
      obtain _ | size := size
      · simp at hlen
      · simp [strncpyLoop, cstring_nil.mp h]
  | cons c text ih =>
      obtain ⟨h₁, h₂, h₃⟩ := cstring_cons.mp h
      rw [List.length_cons] at hapart hlen
      obtain _ | size := size
      · omega
      · have h₃' : CString (Function.update mem d c) (s + 1) text :=
          h₃.congr fun x hx₁ hx₂ => Function.update_of_ne (by omega) _ _
        rw [strncpyLoop, h₁, if_neg h₂, ih h₃' (by omega) (by omega), put, List.length_cons]
        refine Prod.ext rfl (Prod.ext ?_ ?_)
        · simp only
          omega
        · simp only
          omega

/-- 読むバイトがどれも 0 でなければ、`size` を使いきるまで写し、写した場所に 0 は残らない。`d` が `s` より先にあるときは、
`d` から先のバイトは読まれる前に書かれる。 -/
theorem strncpyLoop_exhausts (h : ∀ x, s ≤ x → x < s + size → mem x ≠ 0 ∨ (s < d ∧ d ≤ x)) :
    (strncpyLoop size mem d s).2 = (d + size, -1) ∧
      ∀ x, (mem x ≠ 0 ∨ (d ≤ x ∧ x < d + size)) → (strncpyLoop size mem d s).1 x ≠ 0 := by
  induction size generalizing mem d s with
  | zero => exact ⟨rfl, fun x hx => hx.resolve_right (by omega)⟩
  | succ size ih =>
      have hs : mem s ≠ 0 := (h s (by omega) (by omega)).resolve_right (by omega)
      have hupd : ∀ x, mem x ≠ 0 ∨ x = d → Function.update mem d (mem s) x ≠ 0 := by
        intro x hx
        by_cases hd : x = d
        · rw [hd, Function.update_self]
          exact hs
        · rw [Function.update_of_ne hd]
          exact hx.resolve_right hd
      have hnext : ∀ x, s + 1 ≤ x → x < s + 1 + size →
          Function.update mem d (mem s) x ≠ 0 ∨ (s + 1 < d + 1 ∧ d + 1 ≤ x) := by
        intro x hx₁ hx₂
        by_cases hd : x = d
        · exact .inl (hupd x (.inr hd))
        · rcases h x (by omega) (by omega) with hx | hx
          · exact .inl (hupd x (.inl hx))
          · exact .inr (by omega)
      rw [strncpyLoop, if_neg hs]
      obtain ⟨h₁, h₂⟩ := ih hnext
      refine ⟨by rw [h₁]; congr 1; omega, fun x hx => h₂ x ?_⟩
      by_cases hd : x = d
      · exact .inl (hupd x (.inr hd))
      · rcases hx with hx | hx
        · exact .inl (hupd x (.inl hx))
        · exact .inr (by omega)

/-! ## 写しの正しさ -/

theorem kernelStrncpyAt_of_lt (hd : dest ≠ 0) (hs : src ≠ 0) (h : CString mem src text)
    (hapart : dest ≤ src ∨ src + text.length < dest) (hlen : text.length + 1 < size) :
    kernelStrncpyAt mem dest src size = put mem dest (text ++ [0]) := by
  rw [kernelStrncpyAt, if_neg (by omega), strncpyLoop_copies h hapart (by omega)]
  simp only
  rw [if_neg (by omega), put_concat]

/-- 文字列が `size - 1` 文字のときは、最後の文字の上に NUL を書く。 -/
theorem kernelStrncpyAt_of_eq (hd : dest ≠ 0) (hs : src ≠ 0) (h : CString mem src text)
    (hapart : dest ≤ src ∨ src + text.length < dest) (hlen : text.length + 1 = size) :
    kernelStrncpyAt mem dest src size = Function.update (put mem dest text) (dest + text.length - 1) 0 := by
  rw [kernelStrncpyAt, if_neg (by omega), strncpyLoop_copies h hapart (by omega)]
  simp only
  rw [if_pos (by omega)]

/-- 写し先の中に NUL を残さない。 -/
theorem kernelStrncpyAt_no_nul (hd : dest ≠ 0) (hs : src ≠ 0) (hsize : size ≠ 0) (h : CString mem src text)
    (hbad : size ≤ text.length ∨ (src < dest ∧ dest ≤ src + text.length)) {x : Nat} (h₁ : dest ≤ x)
    (h₂ : x < dest + size) : kernelStrncpyAt mem dest src size x ≠ 0 := by
  have hnz : ∀ y, src ≤ y → y < src + text.length → mem y ≠ 0 := by
    intro y hy₁ hy₂
    have hi : y - src < text.length := by omega
    have hy : mem (src + (y - src)) = text[y - src] := h.spells.getElem hi
    rw [Nat.add_sub_cancel' hy₁] at hy
    rw [hy]
    exact h.nonzero _ (List.getElem_mem hi)
  have hread : ∀ y, src ≤ y → y < src + size → mem y ≠ 0 ∨ (src < dest ∧ dest ≤ y) := by
    intro y hy₁ hy₂
    by_cases hy : y < src + text.length
    · exact .inl (hnz y hy₁ hy)
    · exact .inr (by omega)
  obtain ⟨hend, hkeep⟩ := strncpyLoop_exhausts hread
  rw [kernelStrncpyAt, if_neg (by omega)]
  simp only [hend]
  rw [if_neg (by decide), Function.update_of_ne (by omega)]
  exact hkeep x (.inr ⟨h₁, h₂⟩)

/-- 文字列が空でなく、ちょうど `size - 1` 文字のとき、最後の文字が失われる。 -/
theorem not_boundedCopy_of_full (hd : dest ≠ 0) (hs : src ≠ 0) (h : CString mem src text)
    (hapart : dest ≤ src ∨ src + text.length < dest) (hlen : text.length + 1 = size) (hne : text ≠ []) :
    ¬ BoundedCopy mem (kernelStrncpyAt mem dest src size) dest size text := by
  intro hcopy
  have hpos := List.length_pos_of_ne_nil hne
  have hspells := (spells_append.mp hcopy.copied).1
  rw [List.take_of_length_le (by omega)] at hspells
  have hlast := hspells.getElem (show text.length - 1 < text.length by omega)
  rw [kernelStrncpyAt_of_eq hd hs h hapart hlen, show dest + (text.length - 1) = dest + text.length - 1 by omega,
    Function.update_self] at hlast
  exact h.nonzero _ (List.getElem_mem _) hlast.symm

/-- 空の文字列を大きさ 1 の `dest` に写すと、`dest` の手前に NUL を書き、`dest` には書かない。 -/
theorem not_boundedCopy_of_empty (hd : dest ≠ 0) (hs : src ≠ 0) :
    ¬ BoundedCopy (Function.update (fun _ => 1) src 0)
      (kernelStrncpyAt (Function.update (fun _ => 1) src 0) dest src 1) dest 1 [] := by
  intro hcopy
  have hstr : CString (Function.update (fun _ => 1) src 0) src [] := cstring_nil.mpr (Function.update_self _ _ _)
  have hprev := hcopy.frame (dest - 1) (by omega)
  have hnul := hcopy.copied.1
  have heq : kernelStrncpyAt (Function.update (fun _ => 1) src 0) dest src 1 = _ :=
    kernelStrncpyAt_of_eq hd hs hstr (by simp only [List.length_nil]; omega) rfl
  rw [heq] at hprev hnul
  simp only [put_nil, List.length_nil, Nat.add_zero] at hprev hnul
  rw [Function.update_self] at hprev
  rw [Function.update_of_ne (by omega)] at hnul
  by_cases hsrc : dest = src
  · rw [Function.update_of_ne (by omega)] at hprev
    exact absurd hprev (by decide)
  · rw [Function.update_of_ne hsrc] at hnul
    exact absurd hnul (by decide)

/-- `kernel_strncpy` が、前のメモリの内容によらず `dest` の中だけに正しく写すのは、文字列が NUL を含めて `size` より短く、
写し先が文字列の途中から始まらないとき、そのときに限る。 -/
theorem kernelStrncpyAt_boundedCopy_iff (hd : dest ≠ 0) (hs : src ≠ 0) (hsize : 1 ≤ size)
    (htext : ∀ c ∈ text, c ≠ 0) :
    (∀ mem, CString mem src text → BoundedCopy mem (kernelStrncpyAt mem dest src size) dest size text) ↔
      text.length + 1 < size ∧ (dest ≤ src ∨ src + text.length < dest) := by
  constructor
  · intro h
    -- 写し元の文字列のほかは 1 であるメモリで、性質を見る。
    have hstr : CString (put (fun _ => 1) src (text ++ [0])) src text := cstring_put htext
    have hcopy := h _ hstr
    by_cases hbad : size ≤ text.length ∨ (src < dest ∧ dest ≤ src + text.length)
    · have hnul := (spells_append.mp hcopy.copied).2.1
      rw [List.length_take] at hnul
      exact absurd hnul (kernelStrncpyAt_no_nul hd hs (by omega) hstr hbad (by omega) (by omega))
    · refine ⟨?_, by omega⟩
      by_contra hlen
      by_cases hempty : text = []
      · subst hempty
        obtain rfl : size = 1 := by
          simp only [List.length_nil] at hlen
          omega
        exact not_boundedCopy_of_empty hd hs hcopy
      · exact not_boundedCopy_of_full hd hs hstr (by omega) (by omega) hempty hcopy
  · rintro ⟨hlen, hapart⟩ mem hstr
    rw [kernelStrncpyAt_of_lt hd hs hstr hapart hlen]
    refine ⟨fun x hx => put_of_outside ?_, ?_⟩
    · rw [List.length_append, List.length_singleton]
      omega
    · rw [List.take_of_length_le (by omega)]
      exact spells_put

theorem kernelStrncpyAt_boundedCopy_iff_ab :
    (∀ mem, CString mem 0x2000 [97, 98] →
        BoundedCopy mem (kernelStrncpyAt mem 0x1000 0x2000 4) 0x1000 4 [97, 98]) ↔
      [97, 98].length + 1 < 4 ∧ (0x1000 ≤ 0x2000 ∨ 0x2000 + [97, 98].length < 0x1000) :=
  kernelStrncpyAt_boundedCopy_iff (by decide) (by decide) (by decide) (by decide)

/-- `"ab"` を大きさ 3 の `dest` に写すと、`'b'` の上に NUL が書かれる。 -/
theorem kernelStrncpyAt_ab_size_three :
    ¬ ∀ mem, CString mem 0x2000 [97, 98] →
      BoundedCopy mem (kernelStrncpyAt mem 0x1000 0x2000 3) 0x1000 3 [97, 98] := by
  intro h
  have hstr : CString (put (fun _ => 1) 0x2000 ([97, 98] ++ [0])) 0x2000 [97, 98] := cstring_put (by decide)
  have hb := (h _ hstr).copied.2.1
  exact absurd hb (by decide)

/-! ## 名前の写しとの対応

`task_init` の名前の写しは、`kernelStrncpy` が写し先から見たバイトの列として表す。写し元が離れていれば、二つは同じ働きをする。
-/

def bytesFrom (mem : Mem) (dest : Nat) : Int → Byte := fun i => mem (dest + i).toNat

theorem bytesFrom_update (mem : Mem) (p : Int) (c : Byte) (hp : 0 < dest + p) :
    bytesFrom (Function.update mem (dest + p).toNat c) dest = Function.update (bytesFrom mem dest) p c := by
  funext i
  by_cases hi : i = p
  · rw [hi, Function.update_self, bytesFrom, Function.update_self]
  · rw [Function.update_of_ne hi, bytesFrom, Function.update_of_ne (by omega), bytesFrom]

/-- 二つのループは、同じ周で抜け、同じバイトを写す。 -/
theorem kernelStrncpyLoop_bytesFrom (hd : dest ≠ 0) (f : Nat → Byte) (mem : Mem) (p : Nat)
    (hread : ∀ q < size, mem (src + (p + q)) = f (p + q)) (hapart : src + size ≤ dest ∨ dest + size ≤ src) :
    kernelStrncpyLoop f size (bytesFrom mem dest) p =
        (bytesFrom (strncpyLoop size mem (dest + p) (src + p)).1 dest,
          (strncpyLoop size mem (dest + p) (src + p)).2.1 - dest, (strncpyLoop size mem (dest + p) (src + p)).2.2) ∧
      dest ≤ (strncpyLoop size mem (dest + p) (src + p)).2.1 := by
  induction size generalizing mem p with
  | zero => simp [kernelStrncpyLoop, strncpyLoop]
  | succ size ih =>
      have h₀ : mem (src + p) = f p := hread 0 (by omega)
      simp only [kernelStrncpyLoop, strncpyLoop, h₀]
      by_cases hz : f p = 0
      · simp [hz]
      · simp only [hz, ↓reduceIte]
        have hupd := bytesFrom_update mem (p : Int) (f p) (show 0 < (dest : Int) + p by omega)
        rw [show (dest + p : Int).toNat = dest + p by omega] at hupd
        rw [← hupd]
        refine ih (Function.update mem (dest + p) (f p)) (p + 1) (fun q hq => ?_) (by omega)
        have hq' := hread (q + 1) (by omega)
        rw [show p + (q + 1) = p + 1 + q by omega] at hq'
        rw [Function.update_of_ne (by omega), hq']

theorem kernelStrncpyAt_bytesFrom (hd : 1 < dest) (hs : src ≠ 0) (mem : Mem)
    (hapart : src + size ≤ dest ∨ dest + size ≤ src) :
    bytesFrom (kernelStrncpyAt mem dest src size) dest =
      kernelStrncpy (bytesFrom mem dest) (fun q => mem (src + q)) size := by
  by_cases hsize : size = 0
  · simp [kernelStrncpyAt, kernelStrncpy, hsize]
  · have hloop := kernelStrncpyLoop_bytesFrom (by omega) (fun q => mem (src + q)) mem 0 (fun q _ => rfl) hapart
    simp only [Nat.add_zero] at hloop
    obtain ⟨heq, hle⟩ := hloop
    rw [kernelStrncpyAt, if_neg (by omega), kernelStrncpy, if_neg hsize, heq]
    generalize strncpyLoop size mem dest src = r at heq hle ⊢
    simp only
    split
    · rw [← bytesFrom_update r.1 _ 0 (by omega)]
      congr 2
      omega
    · rw [← bytesFrom_update r.1 _ 0 (by omega)]
      congr 2
      omega

end IdealX86
