import IdealX86.Loader.Lemmas.Elf
import Mathlib.Data.Nat.Find

/-!
# 見出しに重なる書き込み

二つの `for` は `p_filesz` と `p_memsz` を一回ごとに読み直すので、写したバイトや書いた 0 が見出しに重なると回数が変わる。
途中まで書いたメモリを入力から直接与え、そこにある欄の値で回数を定める。
-/

namespace IdealX86

variable {mem : Mem} {s : LoadState} {phdr fileBuffer src p q a j k n m z fuel : Nat} {f : Nat → Byte}

/-! ## 途中まで書いたメモリ -/

/-- 一周する `p` からの隔たり。 -/
def offsetFrom (p a : Nat) : Nat := (a + 2 ^ 32 - p % 2 ^ 32) % 2 ^ 32

/-- `p` から `n` バイトに `f` の値を重ねたメモリ。 -/
def overlay (mem : Mem) (p n : Nat) (f : Nat → Byte) : Mem := fun a =>
  if a < 2 ^ 32 ∧ offsetFrom p a < n then f (offsetFrom p a) else mem a

theorem overlay_zero (mem : Mem) (p : Nat) (f : Nat → Byte) : overlay mem p 0 f = mem :=
  funext fun _ => if_neg fun h => Nat.not_lt_zero _ h.2

theorem overlay_succ (mem : Mem) (p : Nat) (f : Nat → Byte) (hn : n < 2 ^ 32) :
    overlay mem p (n + 1) f = Function.update (overlay mem p n f) ((p + n) % 2 ^ 32) (f n) := by
  funext a
  by_cases ha : a = (p + n) % 2 ^ 32
  · have hoff : a < 2 ^ 32 ∧ offsetFrom p a = n := by
      unfold offsetFrom
      omega
    rw [overlay, hoff.2, if_pos ⟨hoff.1, by omega⟩, ha, Function.update_self]
  · have hoff : a < 2 ^ 32 ∧ offsetFrom p a < n + 1 ↔ a < 2 ^ 32 ∧ offsetFrom p a < n := by
      unfold offsetFrom
      omega
    rw [Function.update_of_ne ha, overlay, overlay]
    exact if_congr hoff rfl rfl

/-- 写しの `i` 番目のバイト。写し元の先に写し先が重なっていれば、写したバイトがまた写される。 -/
def copyByte (mem : Mem) (src p i : Nat) : Byte := mem ((src + i % offsetFrom src p) % 2 ^ 32)

/-- `src` から `p` へ `n` バイトを写したメモリ。 -/
def copied (mem : Mem) (src p n : Nat) : Mem := overlay mem p n (copyByte mem src p)

/-- 次に写すバイトは、元のメモリにあるか、隔たりの分だけ前に写されている。 -/
theorem copied_src (mem : Mem) (src p : Nat) (hj : j < 2 ^ 32) :
    copied mem src p j ((src + j) % 2 ^ 32) = copyByte mem src p j := by
  have hlt : (src + j) % 2 ^ 32 < 2 ^ 32 := Nat.mod_lt _ (by decide)
  by_cases hd : offsetFrom src p = 0
  · have hout : ¬ offsetFrom p ((src + j) % 2 ^ 32) < j := by
      unfold offsetFrom at hd ⊢
      omega
    rw [copied, overlay, if_neg fun h => hout h.2, copyByte, hd, Nat.mod_zero]
  · by_cases hjd : j < offsetFrom src p
    · have hout : ¬ offsetFrom p ((src + j) % 2 ^ 32) < j := by
        unfold offsetFrom at hd hjd ⊢
        omega
      rw [copied, overlay, if_neg fun h => hout h.2, copyByte, Nat.mod_eq_of_lt hjd]
    · have hin : offsetFrom p ((src + j) % 2 ^ 32) = j - offsetFrom src p := by
        unfold offsetFrom at hd hjd ⊢
        omega
      rw [copied, overlay, hin, if_pos ⟨hlt, by omega⟩, copyByte, copyByte, Nat.mod_eq_sub_mod (by omega : j ≥ _)]

/-- `q` から `n` バイトに 0 を書いたメモリ。 -/
def cleared (mem : Mem) (q n : Nat) : Mem := overlay mem q n fun _ => 0

/-! ## 読み直される回数 -/

/-- 読み直される回数 `bound` に、`n` 回で初めて達する。 -/
structure StopsAt (bound : Nat → Nat) (n : Nat) : Prop where
  reached : bound n ≤ n
  first : ∀ k < n, k < bound k

theorem exists_stopsAt (bound : Nat → BitVec 32) : ∃ n < 2 ^ 32, StopsAt (fun k => (bound k).toNat) n := by
  have hex : ∃ n, (bound n).toNat ≤ n := ⟨2 ^ 32 - 1, by have := (bound (2 ^ 32 - 1)).isLt; omega⟩
  refine ⟨Nat.find hex, ?_, Nat.find_spec hex, fun k hk => not_le.mp (Nat.find_min hex hk)⟩
  have hle := Nat.find_min' hex (m := 2 ^ 32 - 1) (by have := (bound (2 ^ 32 - 1)).isLt; omega)
  omega

theorem StopsAt.unique {bound : Nat → Nat} (h : StopsAt bound n) (h' : StopsAt bound m) : n = m := by
  rcases Nat.lt_trichotomy n m with hlt | heq | hlt
  · exact absurd (h'.first n hlt) (not_lt.mpr h.reached)
  · exact heq
  · exact absurd (h.first m hlt) (not_lt.mpr h'.reached)

/-! ## 二つの `for` に共通の形 -/

/-- `p` から順に一バイトずつ書く。回数 `bound` も書く値 `value` も、そのつどメモリから決まる。 -/
def writeLoop (bound : Mem → BitVec 32) (value : Mem → Nat → Byte) (p : Nat) : Nat → Nat → LoadState → LoadState
  | 0, _, s => s
  | fuel + 1, j, s =>
      if j < (bound s.mem).toNat then
        writeLoop bound value p fuel (j + 1) (s.store (p + j) (value s.mem j))
      else s

theorem copyLoop_eq_writeLoop (phdr src p fuel j : Nat) (s : LoadState) :
    copyLoop phdr fuel j (src + j) (p + j) s =
      writeLoop (pFilesz · phdr) (fun mem i => mem ((src + i) % 2 ^ 32)) p fuel j s := by
  induction fuel generalizing j s with
  | zero => rfl
  | succ fuel ih =>
      rw [copyLoop, writeLoop, Nat.add_assoc src, Nat.add_assoc p]
      exact if_congr Iff.rfl (ih (j + 1) _) rfl

theorem zeroLoop_eq_writeLoop (phdr q fuel j : Nat) (s : LoadState) :
    zeroLoop phdr fuel j (q + j) s = writeLoop (fun mem => pMemsz mem phdr - pFilesz mem phdr) (fun _ _ => 0) q fuel j s := by
  induction fuel generalizing j s with
  | zero => rfl
  | succ fuel ih =>
      rw [zeroLoop, writeLoop, Nat.add_assoc]
      exact if_congr Iff.rfl (ih (j + 1) _) rfl

section
variable {bound : Mem → BitVec 32} {value : Mem → Nat → Byte}

/-- `j` 回目に書く値が `f j` なら、途中のメモリは `f` を重ねたものであり、回数はその欄の値で決まる。 -/
theorem writeLoop_overlay (hval : ∀ j < 2 ^ 32, value (overlay mem p j f) j = f j) (hlt : n < 2 ^ 32)
    (hn : StopsAt (fun k => (bound (overlay mem p k f)).toNat) n) (hj : j + m = n) (hf : m ≤ fuel)
    (hs : s.mem = overlay mem p j f) :
    (writeLoop bound value p fuel j s).mem = overlay mem p n f ∧
      ∀ a, a ∈ (writeLoop bound value p fuel j s).written ↔ Span (p + j) m a ∨ a ∈ s.written := by
  induction m generalizing fuel j s with
  | zero =>
      obtain rfl : j = n := hj
      have hdone : writeLoop bound value p fuel j s = s := by
        cases fuel with
        | zero => rfl
        | succ fuel => exact if_neg (by rw [hs]; exact not_lt.mpr hn.reached)
      rw [hdone]
      refine ⟨hs, fun a => ⟨Or.inr, fun h => h.resolve_left ?_⟩⟩
      rintro ⟨k, hk, -⟩
      omega
  | succ m ih =>
      obtain ⟨fuel, rfl⟩ : ∃ f, fuel = f + 1 := ⟨fuel - 1, by omega⟩
      have hgo : j < (bound s.mem).toNat := by
        rw [hs]
        exact hn.first j (by omega)
      have hstore : (s.store (p + j) (value s.mem j)).mem = overlay mem p (j + 1) f := by
        rw [LoadState.store, hs, hval j (by omega), overlay_succ _ _ _ (by omega)]
      obtain ⟨hmem, hlog⟩ := ih (j := j + 1) (by omega) (show m ≤ fuel by omega) hstore
      rw [writeLoop, if_pos hgo]
      refine ⟨hmem, fun a => ?_⟩
      rw [hlog, span_succ]
      simp only [LoadState.store, List.mem_cons, Nat.add_assoc]
      tauto

end

theorem copyLoop_copied (hlt : n < 2 ^ 32) (hn : StopsAt (fun k => (pFilesz (copied s.mem src p k) phdr).toNat) n) :
    (copyLoop phdr (2 ^ 32) 0 src p s).mem = copied s.mem src p n ∧
      ∀ a, a ∈ (copyLoop phdr (2 ^ 32) 0 src p s).written ↔ Span p n a ∨ a ∈ s.written := by
  have heq := copyLoop_eq_writeLoop phdr src p (2 ^ 32) 0 s
  rw [Nat.add_zero, Nat.add_zero] at heq
  rw [heq]
  exact writeLoop_overlay (fun j hj => copied_src s.mem src p hj) hlt hn (Nat.zero_add n) hlt.le (overlay_zero _ _ _).symm

theorem zeroLoop_cleared (hlt : z < 2 ^ 32)
    (hz : StopsAt (fun k => (pMemsz (cleared s.mem q k) phdr - pFilesz (cleared s.mem q k) phdr).toNat) z) (a : Nat) :
    a ∈ (zeroLoop phdr (2 ^ 32) 0 q s).written ↔ Span q z a ∨ a ∈ s.written := by
  have heq := zeroLoop_eq_writeLoop phdr q (2 ^ 32) 0 s
  rw [Nat.add_zero] at heq
  rw [heq]
  exact (writeLoop_overlay (fun _ _ => rfl) hlt hz (Nat.zero_add z) hlt.le (overlay_zero _ _ _).symm).2 a

/-! ## 一つの見出しの書き込み -/

/-- ファイルから `k` バイトを写したメモリ。 -/
def fileCopied (mem : Mem) (fileBuffer phdr k : Nat) : Mem :=
  copied mem (fileBuffer + (pOffset mem phdr).toNat) (pPaddr mem phdr).toNat k

def zeroStart (mem : Mem) (phdr : Nat) : Nat := (pPaddr mem phdr).toNat + (pFilesz mem phdr).toNat

/-- `k` バイトを写したときの `p_filesz`。 -/
def copyCount (mem : Mem) (fileBuffer phdr k : Nat) : Nat := (pFilesz (fileCopied mem fileBuffer phdr k) phdr).toNat

/-- `k` バイトに 0 を書いたときの `p_memsz - p_filesz`。 -/
def zeroCount (mem : Mem) (phdr k : Nat) : Nat :=
  (pMemsz (cleared mem (zeroStart mem phdr) k) phdr - pFilesz (cleared mem (zeroStart mem phdr) k) phdr).toNat

/-- 写すのは `p_paddr` から `n` バイト、0 を書くのは、写した後の欄の言うところから `z` バイトである。 -/
theorem loadSegment_written (hld : pType mem phdr = PT_LOAD) (hn : StopsAt (copyCount mem fileBuffer phdr) n)
    (hz : StopsAt (zeroCount (fileCopied mem fileBuffer phdr n) phdr) z) (hnlt : n < 2 ^ 32) (hzlt : z < 2 ^ 32) (a : Nat) :
    a ∈ (loadSegment fileBuffer phdr ⟨mem, []⟩).written ↔
      Span (pPaddr mem phdr).toNat n a ∨ Span (zeroStart (fileCopied mem fileBuffer phdr n) phdr) z a := by
  obtain ⟨hmem, hlog⟩ := copyLoop_copied (s := ⟨mem, []⟩) hnlt hn
  rw [loadSegment, if_neg (not_not.mpr hld)]
  dsimp only
  generalize copyLoop phdr (2 ^ 32) 0 (fileBuffer + (pOffset mem phdr).toNat) (pPaddr mem phdr).toNat ⟨mem, []⟩ = s
    at hmem hlog ⊢
  have hmem' : s.mem = fileCopied mem fileBuffer phdr n := hmem
  rw [← hmem'] at hz ⊢
  refine (zeroLoop_cleared hzlt hz a).trans ?_
  rw [hlog]
  simp only [List.not_mem_nil, or_false]
  exact or_comm

/-! ## 範囲の包含 -/

/-- 一つの範囲がもう一つの範囲に収まるのは、空であるか、始まりの隔たりと長さの和が越えないときである。 -/
theorem span_subset_iff (hn : n < 2 ^ 32) (hm : m < 2 ^ 32) :
    (∀ a, Span q n a → Span p m a) ↔ n = 0 ∨ offsetFrom p q + n ≤ m := by
  have hoff : offsetFrom p q < 2 ^ 32 := Nat.mod_lt _ (by decide)
  have hat : ∀ k, (q + k) % 2 ^ 32 = (p + (offsetFrom p q + k)) % 2 ^ 32 := fun k => by
    unfold offsetFrom
    omega
  constructor
  · intro h
    by_contra hno
    -- 収まらないときは、`p` から `m` 以上離れたところに書かれる。
    obtain ⟨k, hk, hfar⟩ : ∃ k < n, m ≤ offsetFrom p q + k ∧ offsetFrom p q + k < 2 ^ 32 :=
      ⟨m - offsetFrom p q, by omega, by omega, by omega⟩
    obtain ⟨i, hi, he⟩ := h _ ⟨k, hk, rfl⟩
    rw [hat] at he
    omega
  · rintro (rfl | hle) a ⟨k, hk, rfl⟩
    · exact absurd hk (Nat.not_lt_zero k)
    · exact ⟨offsetFrom p q + k, by omega, hat k⟩

end IdealX86
