import IdealX86.Loader.Elf

/-!
# 二つの `for` の効果

見出しの欄が書き込み先の外にあれば、二つの `for` は決まった範囲だけに書く。
-/

namespace IdealX86

variable {s s' s'' : LoadState} {phdr src dest fuel j n m p a w : Nat}

/-! ## 一周する範囲 -/

/-- `p` から `n` バイトの範囲。アドレスは 32 ビットで一周する。 -/
def Span (p n a : Nat) : Prop := ∃ k < n, a = (p + k) % 2 ^ 32

theorem Span.mono (h : Span p n a) (hnm : n ≤ m) : Span p m a := by
  obtain ⟨k, hk, rfl⟩ := h
  exact ⟨k, by omega, rfl⟩

theorem span_succ : Span p (n + 1) a ↔ a = p % 2 ^ 32 ∨ Span (p + 1) n a := by
  constructor
  · rintro ⟨k, hk, rfl⟩
    cases k with
    | zero => exact Or.inl rfl
    | succ k => exact Or.inr ⟨k, by omega, by rw [Nat.add_right_comm p 1 k, Nat.add_assoc]⟩
  · rintro (rfl | ⟨k, hk, rfl⟩)
    · exact ⟨0, by omega, rfl⟩
    · exact ⟨k + 1, by omega, by rw [Nat.add_right_comm p 1 k, Nat.add_assoc]⟩

theorem span_add : Span p (n + m) a ↔ Span p n a ∨ Span (p + n) m a := by
  constructor
  · rintro ⟨k, hk, rfl⟩
    by_cases hn : k < n
    · exact Or.inl ⟨k, hn, rfl⟩
    · exact Or.inr ⟨k - n, by omega, by rw [Nat.add_assoc, Nat.add_sub_cancel' (by omega)]⟩
  · rintro (⟨k, hk, rfl⟩ | ⟨k, hk, rfl⟩)
    · exact ⟨k, by omega, rfl⟩
    · exact ⟨n + k, by omega, by rw [Nat.add_assoc]⟩

/-- 範囲のすぐ後ろのアドレスは、一周しない長さの範囲には入らない。 -/
theorem not_span_end (hn : n < 2 ^ 32) : ¬ Span p n ((p + n) % 2 ^ 32) := by
  rintro ⟨k, hk, he⟩
  omega

theorem span_of_le (hb : p + n ≤ 2 ^ 32) : Span p n a ↔ p ≤ a ∧ a < p + n := by
  constructor
  · rintro ⟨k, hk, rfl⟩
    omega
  · rintro ⟨h₁, h₂⟩
    exact ⟨a - p, by omega, by omega⟩

/-- 幅 `w` の欄 `a` は、`p` から `n` バイトの範囲の外にある。 -/
def Apart (p n a w : Nat) : Prop := ∀ k < w, ¬ Span p n ((a + k) % 2 ^ 32)

theorem Apart.mono (h : Apart p n a w) (hmn : m ≤ n) : Apart p m a w :=
  fun k hk hs => h k hk (hs.mono hmn)

theorem Apart.tail (h : Apart p (n + 1) a w) : Apart (p + 1) n a w :=
  fun k hk hs => h k hk (span_succ.mpr (Or.inr hs))

theorem Apart.drop (h : Apart p n a w) {b v : Nat} (hb : b + v ≤ w) : Apart p n (a + b) v := by
  intro k hk hs
  rw [Nat.add_assoc] at hs
  exact h (b + k) (by omega) hs

/-! ## 書き込みの範囲 -/

/-- `s` から `s'` へ、`p` から `n` バイトの範囲だけに書く。 -/
structure Writes (s s' : LoadState) (p n : Nat) : Prop where
  frame : ∀ a, ¬ Span p n a → s'.mem a = s.mem a
  log : ∀ a, a ∈ s'.written ↔ Span p n a ∨ a ∈ s.written

theorem Writes.refl (s : LoadState) (p : Nat) : Writes s s p 0 := by
  have hno : ∀ a, ¬ Span p 0 a := by
    rintro a ⟨k, hk, -⟩
    omega
  exact ⟨fun _ _ => rfl, fun a => by simp [hno a]⟩

theorem Writes.cons {v : Byte} (h : Writes (s.store p v) s' (p + 1) n) : Writes s s' p (n + 1) := by
  refine ⟨fun a ha => ?_, fun a => ?_⟩
  · rw [span_succ, not_or] at ha
    rw [h.frame a ha.2]
    exact Function.update_of_ne ha.1 _ _
  · rw [h.log, span_succ]
    simp only [LoadState.store, List.mem_cons]
    tauto

theorem store_writes (s : LoadState) (p : Nat) (v : Byte) : Writes s (s.store p v) p 1 :=
  (Writes.refl (s.store p v) (p + 1)).cons

/-- 範囲の外にある 32 ビットの欄の値は変わらない。 -/
theorem Writes.read32 (h : Writes s s' p n) (ha : Apart p n a 4) : read32 s'.mem a = read32 s.mem a :=
  read32_congr fun k hk => h.frame _ (ha k hk)

def LoadState.storeAll (s : LoadState) (dest : Nat) : List Byte → LoadState
  | [] => s
  | v :: vs => (s.store dest v).storeAll (dest + 1) vs

theorem storeAll_writes (s : LoadState) (dest : Nat) (vs : List Byte) :
    Writes s (s.storeAll dest vs) dest vs.length := by
  induction vs generalizing s dest with
  | nil => exact Writes.refl s dest
  | cons v vs ih => exact (ih (s.store dest v) (dest + 1)).cons

/-- 一周しない長さなら、書いた値はそのまま残る。 -/
theorem storeAll_apply (s : LoadState) (dest : Nat) {vs : List Byte} {v : Byte} (hn : vs.length < 2 ^ 32) {k : Nat}
    (hk : vs[k]? = some v) :
    (s.storeAll dest vs).mem ((dest + k) % 2 ^ 32) = v := by
  induction vs generalizing s dest k with
  | nil => cases hk
  | cons u vs ih =>
      rw [List.length_cons] at hn
      cases k with
      | zero =>
          cases hk
          have hout : ¬ Span (dest + 1) vs.length (dest % 2 ^ 32) := by
            rintro ⟨k, hk, he⟩
            omega
          exact ((storeAll_writes _ _ vs).frame _ hout).trans (Function.update_self ..)
      | succ k =>
          rw [LoadState.storeAll, Nat.add_comm k 1, ← Nat.add_assoc]
          exact ih _ _ (by omega) hk

theorem storeAll_append (s : LoadState) (dest : Nat) (us vs : List Byte) :
    s.storeAll dest (us ++ vs) = (s.storeAll dest us).storeAll (dest + us.length) vs := by
  induction us generalizing s dest with
  | nil => rfl
  | cons u us ih =>
      rw [List.cons_append, LoadState.storeAll, ih, LoadState.storeAll, List.length_cons, Nat.add_comm us.length 1,
        Nat.add_assoc]

/-! ## 二つの `for` -/

/-- 見出しの `p_filesz` が書き込み先の外にあれば、写しの `for` は残りの `p_filesz - j` バイトを書く。写し元も外にあれば、
書く値は写し元のバイトである。 -/
theorem copyLoop_storeAll (src : Nat) (hn : (pFilesz s.mem phdr).toNat = j + n) (hf : n ≤ fuel)
    (hap : Apart dest n (phdr + 16) 4) :
    ∃ vs : List Byte, copyLoop phdr fuel j src dest s = s.storeAll dest vs ∧ vs.length = n ∧
      (Apart dest n src n → ∀ k < n, vs[k]? = some (s.mem ((src + k) % 2 ^ 32))) := by
  induction n generalizing fuel j src dest s with
  | zero =>
      refine ⟨[], ?_, rfl, fun _ k hk => absurd hk (Nat.not_lt_zero k)⟩
      cases fuel with
      | zero => rfl
      | succ fuel => exact if_neg (by omega)
  | succ n ih =>
      obtain ⟨fuel, rfl⟩ : ∃ f, fuel = f + 1 := ⟨fuel - 1, by omega⟩
      have hsame : pFilesz (s.store dest (s.mem (src % 2 ^ 32))).mem phdr = pFilesz s.mem phdr :=
        (store_writes s dest _).read32 (hap.mono (by omega))
      obtain ⟨vs, hrun, hlen, hval⟩ := ih (s := s.store dest (s.mem (src % 2 ^ 32))) (j := j + 1) (src + 1)
        (by rw [hsame]; omega) (show n ≤ fuel by omega) hap.tail
      refine ⟨s.mem (src % 2 ^ 32) :: vs, ?_, by rw [List.length_cons, hlen], fun hsrc k hk => ?_⟩
      · rw [copyLoop, if_pos (by omega)]
        exact hrun
      · cases k with
        | zero => rfl
        | succ k =>
            -- 写し元のバイトは、先頭への書き込みでは変わらない。
            have hne : (src + (k + 1)) % 2 ^ 32 ≠ dest % 2 ^ 32 := fun e =>
              hsrc (k + 1) hk (span_succ.mpr (Or.inl e))
            have hsrc' : Apart (dest + 1) n (src + 1) n := (hsrc.drop (by omega)).tail
            rw [List.getElem?_cons_succ, hval hsrc' k (by omega), Nat.add_assoc, Nat.add_comm 1 k]
            exact congrArg some (Function.update_of_ne hne _ _)

/-- 見出しの `p_filesz` と `p_memsz` が書き込み先の外にあれば、後の `for` は差の分だけ 0 を書く。 -/
theorem zeroLoop_storeAll (hn : (pMemsz s.mem phdr - pFilesz s.mem phdr).toNat = j + n) (hf : n ≤ fuel)
    (hap : Apart dest n (phdr + 16) 8) :
    zeroLoop phdr fuel j dest s = s.storeAll dest (List.replicate n 0) := by
  induction n generalizing fuel j dest s with
  | zero =>
      cases fuel with
      | zero => rfl
      | succ fuel => exact if_neg (by omega)
  | succ n ih =>
      obtain ⟨fuel, rfl⟩ : ∃ f, fuel = f + 1 := ⟨fuel - 1, by omega⟩
      have hw := store_writes s dest 0
      have hap₁ := hap.mono (show 1 ≤ n + 1 by omega)
      have hfsz : pFilesz (s.store dest 0).mem phdr = pFilesz s.mem phdr :=
        hw.read32 (hap₁.drop (show 0 + 4 ≤ 8 by omega))
      have hmsz : pMemsz (s.store dest 0).mem phdr = pMemsz s.mem phdr :=
        hw.read32 (hap₁.drop (show 4 + 4 ≤ 8 by omega))
      rw [zeroLoop, if_pos (by omega), ih (by rw [hfsz, hmsz]; omega) (by omega) hap.tail]
      rfl

/-- 差が 0 でなければ、後の `for` は必ず先頭に書く。 -/
theorem zeroLoop_head (hn : j < (pMemsz s.mem phdr - pFilesz s.mem phdr).toNat) :
    dest % 2 ^ 32 ∈ (zeroLoop phdr (fuel + 1) j dest s).written := by
  have hmono : ∀ {f j d : Nat} {s : LoadState} {a : Nat}, a ∈ s.written → a ∈ (zeroLoop phdr f j d s).written := by
    intro f
    induction f with
    | zero => exact fun h => h
    | succ f ih =>
        intro j d s a h
        simp only [zeroLoop]
        split
        · exact ih (List.mem_cons_of_mem _ h)
        · exact h
  rw [zeroLoop, if_pos hn]
  exact hmono List.mem_cons_self

/-! ## 一つの見出し -/

structure Segment where
  offset : Nat
  paddr : Nat
  filesz : Nat
  memsz : Nat
  deriving DecidableEq

def segmentOf (mem : Mem) (phdr : Nat) : Segment where
  offset := (pOffset mem phdr).toNat
  paddr := (pPaddr mem phdr).toNat
  filesz := (pFilesz mem phdr).toNat
  memsz := (pMemsz mem phdr).toNat

/-- 見出しの `p_paddr`、`p_filesz`、`p_memsz` が、`p_paddr` から `n` バイトの範囲の外にある。 -/
def HeaderApart (mem : Mem) (phdr n : Nat) : Prop := Apart (segmentOf mem phdr).paddr n (phdr + 12) 12

/-- 写しの後も見出しの欄は元のままなので、後の `for` は `p_paddr + p_filesz` から始まる。 -/
theorem loadSegment_copied (fileBuffer : Nat) {g : Segment} (hg : segmentOf s.mem phdr = g)
    (hld : pType s.mem phdr = PT_LOAD) (hap : HeaderApart s.mem phdr g.filesz) :
    ∃ vs : List Byte, vs.length = g.filesz ∧
      (Apart g.paddr g.filesz (fileBuffer + g.offset) g.filesz →
        ∀ k < g.filesz, vs[k]? = some (s.mem ((fileBuffer + g.offset + k) % 2 ^ 32))) ∧
      pFilesz (s.storeAll g.paddr vs).mem phdr = pFilesz s.mem phdr ∧
      pMemsz (s.storeAll g.paddr vs).mem phdr = pMemsz s.mem phdr ∧
      loadSegment fileBuffer phdr s =
        zeroLoop phdr (2 ^ 32) 0 (g.paddr + g.filesz) (s.storeAll g.paddr vs) := by
  subst hg
  have hap' : Apart (pPaddr s.mem phdr).toNat (pFilesz s.mem phdr).toNat (phdr + 12) 12 := hap
  obtain ⟨vs, hrun, hlen, hval⟩ := copyLoop_storeAll (fileBuffer + (pOffset s.mem phdr).toNat)
    (Nat.zero_add _).symm (pFilesz s.mem phdr).isLt.le (hap'.drop (show 4 + 4 ≤ 12 by omega))
  have hw := storeAll_writes s (pPaddr s.mem phdr).toNat vs
  rw [hlen] at hw
  have hpa : pPaddr (s.storeAll (pPaddr s.mem phdr).toNat vs).mem phdr = pPaddr s.mem phdr :=
    hw.read32 (hap'.drop (show 0 + 4 ≤ 12 by omega))
  have hfs : pFilesz (s.storeAll (pPaddr s.mem phdr).toNat vs).mem phdr = pFilesz s.mem phdr :=
    hw.read32 (hap'.drop (show 4 + 4 ≤ 12 by omega))
  have hms : pMemsz (s.storeAll (pPaddr s.mem phdr).toNat vs).mem phdr = pMemsz s.mem phdr :=
    hw.read32 (hap'.drop (show 8 + 4 ≤ 12 by omega))
  refine ⟨vs, hlen, hval, hfs, hms, ?_⟩
  rw [loadSegment, if_neg (not_not.mpr hld)]
  simp only [hrun, hpa, hfs]
  rfl

/-- 整った見出しの処理は、ファイルのバイトと 0 を `p_paddr` から順に書く。 -/
theorem loadSegment_storeAll (fileBuffer : Nat) {g : Segment} (hg : segmentOf s.mem phdr = g)
    (hld : pType s.mem phdr = PT_LOAD) (hle : g.filesz ≤ g.memsz) (hap : HeaderApart s.mem phdr g.memsz) :
    ∃ vs : List Byte, loadSegment fileBuffer phdr s = s.storeAll g.paddr vs ∧ vs.length = g.memsz ∧
      (Apart g.paddr g.filesz (fileBuffer + g.offset) g.filesz →
        ∀ k < g.filesz, vs[k]? = some (s.mem ((fileBuffer + g.offset + k) % 2 ^ 32))) ∧
      ∀ k, g.filesz ≤ k → k < g.memsz → vs[k]? = some 0 := by
  obtain ⟨vs, hlen, hval, hfs, hms, hrun⟩ := loadSegment_copied fileBuffer hg hld (hap.mono hle)
  subst hg
  have hsub : (pMemsz s.mem phdr - pFilesz s.mem phdr).toNat = (segmentOf s.mem phdr).memsz - (segmentOf s.mem phdr).filesz :=
    BitVec.toNat_sub_of_le hle
  -- 0 を書く範囲は、見出しの言う範囲の後ろの部分である。
  have hap' : Apart ((segmentOf s.mem phdr).paddr + (segmentOf s.mem phdr).filesz)
      ((segmentOf s.mem phdr).memsz - (segmentOf s.mem phdr).filesz) (phdr + 16) 8 := by
    refine fun k hk hs => hap.drop (show 4 + 8 ≤ 12 by omega) k hk ?_
    rw [← Nat.add_sub_cancel' hle, span_add]
    exact Or.inr hs
  refine ⟨vs ++ List.replicate ((segmentOf s.mem phdr).memsz - (segmentOf s.mem phdr).filesz) 0, ?_, ?_, ?_, ?_⟩
  · rw [hrun, storeAll_append, hlen]
    refine zeroLoop_storeAll (by rw [hfs, hms, hsub, Nat.zero_add]) ?_ hap'
    rw [← hsub]
    exact (pMemsz s.mem phdr - pFilesz s.mem phdr).isLt.le
  · rw [List.length_append, List.length_replicate, hlen]
    omega
  · intro hsrc k hk
    rw [List.getElem?_append_left (by omega)]
    exact hval hsrc k hk
  · intro k h₁ h₂
    rw [List.getElem?_append_right (by omega), List.getElem?_replicate, if_pos (by omega)]

/-- 短い `p_memsz` では差が一周して、`p_filesz` バイトのすぐ後ろにも書く。 -/
theorem loadSegment_passes_end (fileBuffer : Nat) {g : Segment} (hg : segmentOf s.mem phdr = g)
    (hld : pType s.mem phdr = PT_LOAD) (hlt : g.memsz < g.filesz) (hap : HeaderApart s.mem phdr g.filesz) :
    (g.paddr + g.filesz) % 2 ^ 32 ∈ (loadSegment fileBuffer phdr s).written := by
  obtain ⟨vs, hlen, -, hfs, hms, hrun⟩ := loadSegment_copied fileBuffer hg hld hap
  subst hg
  rw [hrun]
  refine zeroLoop_head ?_
  have h₁ := (pMemsz s.mem phdr).isLt
  have h₂ := (pFilesz s.mem phdr).isLt
  have hlt' : (pMemsz s.mem phdr).toNat < (pFilesz s.mem phdr).toNat := hlt
  rw [hfs, hms, BitVec.toNat_sub]
  omega

end IdealX86
