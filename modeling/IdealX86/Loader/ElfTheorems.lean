import IdealX86.Loader.Lemmas.Overlap
import Mathlib.Data.Finset.Card

/-!
# ELF の展開の定理

整ったファイルは見出しの言うとおりに展開される。見出しの `p_memsz` が `p_filesz` より短いと、差が一周して範囲の外に書く。
-/

namespace IdealX86

variable {mem mem' : Mem} {s : LoadState} {fileBuffer size phdr i n a : Nat}

/-! ## 整ったファイル -/

def Segment.Dest (g : Segment) (a : Nat) : Prop := g.paddr ≤ a ∧ a < g.paddr + g.memsz

def segmentAt (mem : Mem) (fileBuffer i : Nat) : Segment := segmentOf mem (phdrAt mem fileBuffer i)

/-- `i` 番目の見出しは、展開される区画のものである。 -/
def IsLoad (mem : Mem) (fileBuffer i : Nat) : Prop :=
  i < (ePhnum mem fileBuffer).toNat ∧ pType mem (phdrAt mem fileBuffer i) = PT_LOAD

instance (mem : Mem) (fileBuffer i : Nat) : Decidable (IsLoad mem fileBuffer i) :=
  inferInstanceAs (Decidable (_ ∧ _))

/-- 区画のバイトは大きさ `size` のファイルの中にあり、置かれる範囲は一周せず、ファイルに重ならない。 -/
structure Segment.Fits (g : Segment) (fileBuffer size : Nat) : Prop where
  filesz_le : g.filesz ≤ g.memsz
  source : g.offset + g.filesz ≤ size
  bound : g.paddr + g.memsz ≤ 2 ^ 32
  apart : ∀ a, g.Dest a → ¬ (fileBuffer ≤ a ∧ a < fileBuffer + size)

/-- `fileBuffer` から `size` バイトに、展開できる ELF ファイルがある。`Elf32_Ehdr` は 52 バイトである。 -/
structure ElfFile (mem : Mem) (fileBuffer size : Nat) : Prop where
  magic : elfMagic mem fileBuffer = true
  bound : fileBuffer + size ≤ 2 ^ 32
  header : 52 ≤ size
  table : (ePhoff mem fileBuffer).toNat + 32 * (ePhnum mem fileBuffer).toNat ≤ size
  fits : ∀ i, IsLoad mem fileBuffer i → (segmentAt mem fileBuffer i).Fits fileBuffer size
  disjoint : ∀ i j, IsLoad mem fileBuffer i → IsLoad mem fileBuffer j → i ≠ j →
    ∀ a, (segmentAt mem fileBuffer i).Dest a → ¬ (segmentAt mem fileBuffer j).Dest a

/-! ## 展開の結果 -/

/-- 区画の範囲に、ファイルのバイトとそれに続く 0 が並ぶ。 -/
structure Segment.Placed (g : Segment) (mem mem' : Mem) (fileBuffer : Nat) : Prop where
  bytes : ∀ k < g.filesz, mem' (g.paddr + k) = mem (fileBuffer + g.offset + k)
  zeros : ∀ k, g.filesz ≤ k → k < g.memsz → mem' (g.paddr + k) = 0

/-- 先頭から `n` 個の見出しの区画が展開され、ほかのアドレスは元のままである。 -/
structure Loaded (mem mem' : Mem) (fileBuffer n : Nat) : Prop where
  placed : ∀ i < n, IsLoad mem fileBuffer i → (segmentAt mem fileBuffer i).Placed mem mem' fileBuffer
  frame : ∀ a, (∀ i < n, IsLoad mem fileBuffer i → ¬ (segmentAt mem fileBuffer i).Dest a) → mem' a = mem a

theorem Loaded.zero (mem : Mem) (fileBuffer : Nat) : Loaded mem mem fileBuffer 0 :=
  ⟨fun _ h => absurd h (Nat.not_lt_zero _), fun _ _ => rfl⟩

section
variable (hf : ElfFile mem fileBuffer size) (hl : Loaded mem mem' fileBuffer n)
include hf hl

theorem Loaded.file_eq {k : Nat} (hk : k < size) :
    mem' ((fileBuffer + k) % 2 ^ 32) = mem ((fileBuffer + k) % 2 ^ 32) := by
  have hb := hf.bound
  rw [Nat.mod_eq_of_lt (by omega)]
  exact hl.frame _ fun i _ hi hd => (hf.fits i hi).apart _ hd ⟨by omega, by omega⟩

theorem Loaded.read32_eq {k : Nat} (hk : k + 4 ≤ size) :
    read32 mem' (fileBuffer + k) = read32 mem (fileBuffer + k) := by
  refine read32_congr fun j hj => ?_
  rw [Nat.add_assoc]
  exact hl.file_eq hf (by omega)

theorem Loaded.ePhnum_eq : ePhnum mem' fileBuffer = ePhnum mem fileBuffer := by
  have hh := hf.header
  rw [ePhnum, read16, hl.file_eq hf (by omega), Nat.add_assoc, hl.file_eq hf (by omega)]
  rfl

theorem Loaded.phdrAt_eq (i : Nat) : phdrAt mem' fileBuffer i = phdrAt mem fileBuffer i := by
  have hh := hf.header
  rw [phdrAt, ePhoff, hl.read32_eq hf (by omega)]
  rfl

theorem Loaded.phdr_eq (hi : i < (ePhnum mem fileBuffer).toNat) {k : Nat} (hk : k + 4 ≤ 32) :
    read32 mem' (phdrAt mem fileBuffer i + k) = read32 mem (phdrAt mem fileBuffer i + k) := by
  have ht := hf.table
  rw [phdrAt, Nat.add_assoc, Nat.add_assoc]
  exact hl.read32_eq hf (by omega)

theorem Loaded.segmentOf_eq (hi : i < (ePhnum mem fileBuffer).toNat) :
    segmentOf mem' (phdrAt mem fileBuffer i) = segmentAt mem fileBuffer i := by
  rw [segmentOf, pOffset, pPaddr, pFilesz, pMemsz, hl.phdr_eq hf hi (by omega), hl.phdr_eq hf hi (by omega),
    hl.phdr_eq hf hi (by omega), hl.phdr_eq hf hi (by omega)]
  rfl

theorem Loaded.pType_eq (hi : i < (ePhnum mem fileBuffer).toNat) :
    pType mem' (phdrAt mem fileBuffer i) = pType mem (phdrAt mem fileBuffer i) := by
  have h := hl.phdr_eq hf hi (show 0 + 4 ≤ 32 by omega)
  rwa [Nat.add_zero] at h

end

/-- 展開される見出しの処理は、区画の範囲だけに書き、そこに区画を置く。 -/
theorem loadSegment_placed (hf : ElfFile mem fileBuffer size) (hl : Loaded mem s.mem fileBuffer n)
    (hi : IsLoad mem fileBuffer i) :
    (segmentAt mem fileBuffer i).Placed mem (loadSegment fileBuffer (phdrAt mem fileBuffer i) s).mem fileBuffer ∧
      ∀ a, ¬ (segmentAt mem fileBuffer i).Dest a →
        (loadSegment fileBuffer (phdrAt mem fileBuffer i) s).mem a = s.mem a := by
  obtain ⟨hle, hsrc, hbd, hap⟩ := hf.fits i hi
  have hb := hf.bound
  have ht := hf.table
  have hi' := hi.1
  have hg := hl.segmentOf_eq hf hi.1
  -- ファイルの中のアドレスは、どれも書き込み先の外にある。
  have hfile : ∀ {m k w : Nat}, m ≤ (segmentAt mem fileBuffer i).memsz → k + w ≤ size →
      Apart (segmentAt mem fileBuffer i).paddr m (fileBuffer + k) w := by
    intro m k w hm hk j hj hs
    rw [span_of_le (by omega), Nat.mod_eq_of_lt (by omega)] at hs
    exact hap _ ⟨hs.1, by omega⟩ ⟨by omega, by omega⟩
  have hhdr : HeaderApart s.mem (phdrAt mem fileBuffer i) (segmentAt mem fileBuffer i).memsz := by
    rw [HeaderApart, hg, phdrAt, Nat.add_assoc, Nat.add_assoc]
    exact hfile le_rfl (by omega)
  obtain ⟨vs, hrun, hlen, hbytes, hzeros⟩ := loadSegment_storeAll fileBuffer hg
    ((hl.pType_eq hf hi.1).trans hi.2) hle hhdr
  have hvs : vs.length < 2 ^ 32 := by
    rw [hlen]
    exact (pMemsz mem (phdrAt mem fileBuffer i)).isLt
  have hbytes' := hbytes (hfile hle hsrc)
  have hput : ∀ {k v}, k < (segmentAt mem fileBuffer i).memsz → vs[k]? = some v →
      (s.storeAll (segmentAt mem fileBuffer i).paddr vs).mem ((segmentAt mem fileBuffer i).paddr + k) = v := by
    intro k v hk hv
    have h := storeAll_apply s (segmentAt mem fileBuffer i).paddr hvs hv
    rwa [Nat.mod_eq_of_lt (by omega)] at h
  rw [hrun]
  refine ⟨⟨fun k hk => hput (by omega) ?_, fun k h₁ h₂ => hput h₂ (hzeros k h₁ h₂)⟩, fun a ha => ?_⟩
  · rw [hbytes' k hk, Nat.add_assoc, hl.file_eq hf (by omega), Nat.mod_eq_of_lt (by omega)]
  · refine (storeAll_writes s _ vs).frame a fun hs => ha ?_
    rw [hlen] at hs
    exact (span_of_le hbd).mp hs

/-- 一つの見出しの処理で、展開された見出しが一つ増える。 -/
theorem loadSegment_loaded (hf : ElfFile mem fileBuffer size) (hl : Loaded mem s.mem fileBuffer i)
    (hi : i < (ePhnum mem fileBuffer).toNat) :
    Loaded mem (loadSegment fileBuffer (phdrAt s.mem fileBuffer i) s).mem fileBuffer (i + 1) := by
  rw [hl.phdrAt_eq hf]
  by_cases hld : pType mem (phdrAt mem fileBuffer i) = PT_LOAD
  · obtain ⟨hpl, hfr⟩ := loadSegment_placed hf hl ⟨hi, hld⟩
    refine ⟨fun j hj hjl => ?_, fun a ha => ?_⟩
    · rcases Nat.lt_succ_iff_lt_or_eq.mp hj with hlt | rfl
      · -- 前に置かれた区画の範囲は、今の区画の範囲と重ならない。
        obtain ⟨hb, hz⟩ := hl.placed j hlt hjl
        have hle := (hf.fits j hjl).filesz_le
        have hkeep : ∀ k < (segmentAt mem fileBuffer j).memsz,
            (loadSegment fileBuffer (phdrAt mem fileBuffer i) s).mem ((segmentAt mem fileBuffer j).paddr + k) =
              s.mem ((segmentAt mem fileBuffer j).paddr + k) := fun k hk =>
          hfr _ (hf.disjoint j i hjl ⟨hi, hld⟩ (by omega) _ ⟨by omega, by omega⟩)
        exact ⟨fun k hk => (hkeep k (by omega)).trans (hb k hk), fun k h₁ h₂ => (hkeep k h₂).trans (hz k h₁ h₂)⟩
      · exact hpl
    · rw [hfr a (ha i (by omega) ⟨hi, hld⟩)]
      exact hl.frame a fun j hj => ha j (by omega)
  · have hskip : loadSegment fileBuffer (phdrAt mem fileBuffer i) s = s := by
      rw [loadSegment, if_pos (by rwa [hl.pType_eq hf hi])]
    rw [hskip]
    refine ⟨fun j hj hjl => ?_, fun a ha => hl.frame a fun j hj => ha j (by omega)⟩
    rcases Nat.lt_succ_iff_lt_or_eq.mp hj with hlt | rfl
    · exact hl.placed j hlt hjl
    · exact absurd hjl.2 hld

theorem loadLoop_loaded (hf : ElfFile mem fileBuffer size) {fuel : Nat} (hl : Loaded mem s.mem fileBuffer i)
    (hn : (ePhnum mem fileBuffer).toNat = i + n) (hfuel : n ≤ fuel) :
    Loaded mem (loadLoop fileBuffer fuel i s).mem fileBuffer (ePhnum mem fileBuffer).toNat := by
  induction n generalizing fuel i s with
  | zero =>
      have hdone : loadLoop fileBuffer fuel i s = s := by
        cases fuel with
        | zero => rfl
        | succ fuel => exact if_neg (by rw [hl.ePhnum_eq hf]; omega)
      rw [hdone, hn]
      exact hl
  | succ n ih =>
      obtain ⟨fuel, rfl⟩ : ∃ f, fuel = f + 1 := ⟨fuel - 1, by omega⟩
      rw [loadLoop, if_pos (by rw [hl.ePhnum_eq hf]; omega)]
      exact ih (loadSegment_loaded hf hl (by omega)) (by omega) (by omega)

/-- `reload_elf_file` は、整ったファイルの区画をすべて置き、ほかのアドレスに触れず、`e_entry` を返す。先頭の四バイトが違えば、
何も変えずに 0 を返す。 -/
theorem reloadElfFile_loaded (s : LoadState) (fileBuffer size : Nat) :
    (ElfFile s.mem fileBuffer size →
      (reloadElfFile fileBuffer s).1 = eEntry s.mem fileBuffer ∧
        Loaded s.mem (reloadElfFile fileBuffer s).2.mem fileBuffer (ePhnum s.mem fileBuffer).toNat) ∧
      (elfMagic s.mem fileBuffer = false → reloadElfFile fileBuffer s = (0, s)) := by
  refine ⟨fun hf => ?_, fun h => by rw [reloadElfFile, h]; rfl⟩
  have hl := loadLoop_loaded hf (Loaded.zero s.mem fileBuffer) (Nat.zero_add _).symm (ePhnum s.mem fileBuffer).isLt.le
  have hh := hf.header
  rw [reloadElfFile, hf.magic, if_pos rfl]
  exact ⟨hl.read32_eq hf (by omega), hl⟩

/-- アドレス 0x10000 に、二つの区画を持つファイルがある。一つ目の区画の `p_filesz` と `p_memsz` は引数で与える。 -/
def LoadState.twoSegments (filesz memsz : Byte) : LoadState where
  mem a :=
    let ehdr : List Byte := [0x7F, 0x45, 0x4C, 0x46, 1, 1, 1, 0, 0, 0, 0, 0, 0, 0, 0, 0, 2, 0, 3, 0, 1, 0, 0, 0,
      0, 0, 0x20, 0, 52, 0, 0, 0, 0, 0, 0, 0, 0, 0, 0, 0, 52, 0, 32, 0, 2, 0, 0, 0, 0, 0, 0, 0]
    let phdr₀ : List Byte := [1, 0, 0, 0, 116, 0, 0, 0, 0, 0, 0x20, 0, 0, 0, 0x20, 0, filesz, 0, 0, 0, memsz, 0, 0, 0,
      7, 0, 0, 0, 0, 0x10, 0, 0]
    let phdr₁ : List Byte := [1, 0, 0, 0, 118, 0, 0, 0, 0x10, 0, 0x20, 0, 0x10, 0, 0x20, 0, 1, 0, 0, 0, 1, 0, 0, 0,
      7, 0, 0, 0, 0, 0x10, 0, 0]
    if a < 0x10000 then 0 else (ehdr ++ phdr₀ ++ phdr₁ ++ [0xAB, 0xCD, 0xEF]).getD (a - 0x10000) 0
  written := []

/-- アドレス 0x10000 のファイルの見出しが、ファイルの先頭の 84 バイトを 0x10000 に置くように言う。 -/
def LoadState.inPlace : LoadState where
  mem a :=
    let phdr : List Byte := [1, 0, 0, 0, 0, 0, 0, 0, 0, 0, 1, 0, 0, 0, 1, 0, 84, 0, 0, 0, 84, 0, 0, 0, 7, 0, 0, 0, 0, 0x10, 0, 0]
    if a < 0x10034 then (twoSegments 2 4).mem a else phdr.getD (a - 0x10034) 0
  written := []

theorem LoadState.twoSegments_elfFile : ElfFile (twoSegments 2 4).mem 0x10000 119 := by
  have hnum : ∀ {i}, IsLoad (twoSegments 2 4).mem 0x10000 i → i = 0 ∨ i = 1 := by
    rintro i ⟨hi, -⟩
    rw [show (ePhnum (twoSegments 2 4).mem 0x10000).toNat = 2 by decide +kernel] at hi
    omega
  have h₀ : segmentAt (twoSegments 2 4).mem 0x10000 0 = ⟨116, 0x200000, 2, 4⟩ := by decide +kernel
  have h₁ : segmentAt (twoSegments 2 4).mem 0x10000 1 = ⟨118, 0x200010, 1, 1⟩ := by decide +kernel
  refine ⟨by decide +kernel, by decide, by decide, by decide +kernel, fun i hi => ?_, fun i j hi hj hne a => ?_⟩
  · rcases hnum hi with rfl | rfl
    · rw [h₀]
      exact ⟨by decide, by decide, by decide, fun a h => by simp only [Segment.Dest] at h; omega⟩
    · rw [h₁]
      exact ⟨by decide, by decide, by decide, fun a h => by simp only [Segment.Dest] at h; omega⟩
  · rcases hnum hi with rfl | rfl <;> rcases hnum hj with rfl | rfl
    · exact absurd rfl hne
    · rw [h₀, h₁]
      simp only [Segment.Dest]
      omega
    · rw [h₀, h₁]
      simp only [Segment.Dest]
      omega
    · exact absurd rfl hne

/-- 一つ目の区画の最後のバイトは 0 で埋められ、二つ目の区画のバイトはファイルから写される。 -/
theorem reloadElfFile_loaded_twoSegments :
    (reloadElfFile 0x10000 (LoadState.twoSegments 2 4)).1 = 0x200000 ∧
      (reloadElfFile 0x10000 (LoadState.twoSegments 2 4)).2.mem 0x200003 = 0 ∧
      (reloadElfFile 0x10000 (LoadState.twoSegments 2 4)).2.mem 0x200010 = 0xEF := by
  obtain ⟨hret, hl⟩ :=
    (reloadElfFile_loaded (LoadState.twoSegments 2 4) 0x10000 119).1 LoadState.twoSegments_elfFile
  have h₀ : segmentAt (LoadState.twoSegments 2 4).mem 0x10000 0 = ⟨116, 0x200000, 2, 4⟩ := by decide +kernel
  have h₁ : segmentAt (LoadState.twoSegments 2 4).mem 0x10000 1 = ⟨118, 0x200010, 1, 1⟩ := by decide +kernel
  have hp₀ := (hl.placed 0 (by decide +kernel) (by decide +kernel)).zeros 3
  have hp₁ := (hl.placed 1 (by decide +kernel) (by decide +kernel)).bytes 0
  rw [h₀] at hp₀
  rw [h₁] at hp₁
  refine ⟨hret.trans (by decide +kernel), hp₀ (by decide) (by decide), ?_⟩
  exact (hp₁ (by decide)).trans (by decide +kernel)

/-! ## 整わない見出し -/

/-- 一つの見出しの処理の書き込みは、`p_paddr` から `p_filesz` と `p_memsz` の大きい方の長さの範囲に収まる。 -/
structure Segment.Confines (g : Segment) (written : List Nat) : Prop where
  inside : ∀ a ∈ written, Span g.paddr (max g.filesz g.memsz) a
  count : written.toFinset.card ≤ max g.filesz g.memsz

/-- 範囲に収まる書き込みは、範囲の長さより多くのアドレスには及ばない。 -/
theorem Segment.confines_of_inside {g : Segment} {written : List Nat}
    (h : ∀ a ∈ written, Span g.paddr (max g.filesz g.memsz) a) : g.Confines written := by
  refine ⟨h, ?_⟩
  have hsub : written.toFinset ⊆
      (Finset.range (max g.filesz g.memsz)).image fun k => (g.paddr + k) % 2 ^ 32 := by
    intro a ha
    obtain ⟨k, hk, rfl⟩ := h a (List.mem_toFinset.mp ha)
    exact Finset.mem_image.mpr ⟨k, Finset.mem_range.mpr hk, rfl⟩
  calc written.toFinset.card
      ≤ ((Finset.range (max g.filesz g.memsz)).image fun k => (g.paddr + k) % 2 ^ 32).card := Finset.card_le_card hsub
    _ ≤ (Finset.range (max g.filesz g.memsz)).card := Finset.card_image_le
    _ = max g.filesz g.memsz := Finset.card_range _

/-- 短い `p_memsz` では、範囲のすぐ後ろへの書き込みがある。 -/
theorem loadSegment_not_confined (fileBuffer : Nat) (hld : pType mem phdr = PT_LOAD)
    (hlt : (segmentOf mem phdr).memsz < (segmentOf mem phdr).filesz)
    (hap : HeaderApart mem phdr (segmentOf mem phdr).filesz) :
    ¬ (segmentOf mem phdr).Confines (loadSegment fileBuffer phdr ⟨mem, []⟩).written := by
  intro h
  have hmem := loadSegment_passes_end (s := ⟨mem, []⟩) fileBuffer rfl hld hlt hap
  have hin := h.inside _ hmem
  rw [Nat.max_eq_left hlt.le] at hin
  exact not_span_end (pFilesz mem phdr).isLt hin

/-- 見出しの欄が範囲の外にあれば、書き込みが範囲に収まるのは `p_filesz ≤ p_memsz` のとき、そのときに限る。 -/
theorem loadSegment_confined_iff_of_apart (mem : Mem) (fileBuffer phdr : Nat) (hld : pType mem phdr = PT_LOAD)
    (hap : HeaderApart mem phdr (max (segmentOf mem phdr).filesz (segmentOf mem phdr).memsz)) :
    (segmentOf mem phdr).Confines (loadSegment fileBuffer phdr ⟨mem, []⟩).written ↔
      (segmentOf mem phdr).filesz ≤ (segmentOf mem phdr).memsz := by
  constructor
  · intro h
    by_contra hlt
    exact loadSegment_not_confined fileBuffer hld (by omega) (hap.mono (le_max_left _ _)) h
  · intro hle
    rw [max_eq_right hle] at hap
    obtain ⟨vs, hrun, hlen, -⟩ := loadSegment_storeAll (s := ⟨mem, []⟩) fileBuffer rfl hld hle hap
    refine Segment.confines_of_inside fun a ha => ?_
    rw [hrun, (storeAll_writes _ _ vs).log] at ha
    rw [Nat.max_eq_right hle, ← hlen]
    exact ha.resolve_right List.not_mem_nil

/-- 読み直される欄の値で決まる二つの回数 `n` と `z` が、範囲に収まる。`n` はファイルのバイトを写しながら読む `p_filesz` に初めて達する
回数、`z` は写した後に 0 を書きながら読む `p_memsz - p_filesz` に初めて達する回数である。 -/
def Segment.StaysInside (g : Segment) (mem : Mem) (fileBuffer phdr : Nat) : Prop :=
  ∃ n z, StopsAt (copyCount mem fileBuffer phdr) n ∧ StopsAt (zeroCount (fileCopied mem fileBuffer phdr n) phdr) z ∧
    n ≤ max g.filesz g.memsz ∧
    (z = 0 ∨ offsetFrom g.paddr (zeroStart (fileCopied mem fileBuffer phdr n) phdr) + z ≤ max g.filesz g.memsz)

/-- 一つの見出しの処理の書き込みが範囲に収まるのは、写したバイトと書いた 0 を重ねた見出しから決まる二つの回数が収まるとき、
そのときに限る。 -/
theorem loadSegment_confined_iff (mem : Mem) (fileBuffer phdr : Nat) (hld : pType mem phdr = PT_LOAD) :
    (segmentOf mem phdr).Confines (loadSegment fileBuffer phdr ⟨mem, []⟩).written ↔
      (segmentOf mem phdr).StaysInside mem fileBuffer phdr := by
  obtain ⟨n, hnlt, hn⟩ : ∃ n < 2 ^ 32, StopsAt (copyCount mem fileBuffer phdr) n := exists_stopsAt _
  obtain ⟨z, hzlt, hz⟩ : ∃ z < 2 ^ 32, StopsAt (zeroCount (fileCopied mem fileBuffer phdr n) phdr) z := exists_stopsAt _
  have hwritten := loadSegment_written hld hn hz hnlt hzlt
  have hmax : max (segmentOf mem phdr).filesz (segmentOf mem phdr).memsz < 2 ^ 32 :=
    max_lt (pFilesz mem phdr).isLt (pMemsz mem phdr).isLt
  have hself : offsetFrom (segmentOf mem phdr).paddr (segmentOf mem phdr).paddr = 0 := by
    unfold offsetFrom
    omega
  have hcopy := span_subset_iff (p := (segmentOf mem phdr).paddr) (q := (segmentOf mem phdr).paddr) hnlt hmax
  have hzero := span_subset_iff (p := (segmentOf mem phdr).paddr)
    (q := zeroStart (fileCopied mem fileBuffer phdr n) phdr) hzlt hmax
  constructor
  · intro h
    refine ⟨n, z, hn, hz, ?_, hzero.mp fun a ha => h.inside a ((hwritten a).mpr (Or.inr ha))⟩
    have := hcopy.mp fun a ha => h.inside a ((hwritten a).mpr (Or.inl ha))
    omega
  · rintro ⟨n', z', hn', hz', hnle, hzle⟩
    obtain rfl := hn.unique hn'
    obtain rfl := hz.unique hz'
    refine Segment.confines_of_inside fun a ha => ?_
    rcases (hwritten a).mp ha with ha | ha
    · exact hcopy.mpr (Or.inr (by omega)) a ha
    · exact hzero.mpr hzle a ha

/-- 離れた区画に展開される見出しと、ファイルの先頭の 84 バイトを同じところへ写す、範囲の中にある見出し。 -/
theorem loadSegment_confined_iff_examples :
    (segmentOf (LoadState.twoSegments 2 4).mem 0x10034).Confines
        (loadSegment 0x10000 0x10034 (LoadState.twoSegments 2 4)).written ∧
      (segmentOf LoadState.inPlace.mem 0x10034).Confines (loadSegment 0x10000 0x10034 LoadState.inPlace).written := by
  constructor
  · refine (loadSegment_confined_iff (LoadState.twoSegments 2 4).mem 0x10000 0x10034 (by decide +kernel)).mpr ?_
    exact ⟨2, 2, ⟨by decide +kernel, by decide +kernel⟩, ⟨by decide +kernel, by decide +kernel⟩, by decide +kernel,
      by decide +kernel⟩
  · refine (loadSegment_confined_iff LoadState.inPlace.mem 0x10000 0x10034 (by decide +kernel)).mpr ?_
    exact ⟨84, 0, ⟨by decide +kernel, by decide +kernel⟩, ⟨by decide +kernel, by decide +kernel⟩, by decide +kernel,
      Or.inl rfl⟩

/-- 一つ目の区画の `p_filesz` が 2 で `p_memsz` が 1 だと、アドレス 0x200002 から先にも 0 が書かれる。 -/
theorem loadSegment_writes_outside :
    elfMagic (LoadState.twoSegments 2 1).mem 0x10000 = true ∧
      phdrAt (LoadState.twoSegments 2 1).mem 0x10000 0 = 0x10034 ∧
      pType (LoadState.twoSegments 2 1).mem 0x10034 = PT_LOAD ∧
      ¬ (segmentOf (LoadState.twoSegments 2 1).mem 0x10034).Confines
        (loadSegment 0x10000 0x10034 (LoadState.twoSegments 2 1)).written := by
  have hg : segmentOf (LoadState.twoSegments 2 1).mem 0x10034 = ⟨116, 0x200000, 2, 1⟩ := by decide +kernel
  refine ⟨by decide +kernel, by decide +kernel, by decide +kernel, ?_⟩
  refine loadSegment_not_confined 0x10000 (by decide +kernel) (by rw [hg]; decide) ?_
  rw [HeaderApart, hg]
  intro k hk hs
  rw [span_of_le (by decide)] at hs
  dsimp only at hs
  omega

end IdealX86
