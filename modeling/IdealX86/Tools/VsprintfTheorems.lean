import IdealX86.Tools.Lemmas.Vsprintf
import Mathlib.Data.List.TakeWhile

/-!
# `kernel_vsprintf` と `kernel_sprintf` の定理

0 で埋めたバッファには、書式と引数の定める文字列がちょうど残る。`kernel_sprintf` はバッファを消さず、NUL も書かないので、結果の
文字列が前の内容によらないための条件を示す。
-/

namespace IdealX86

open Lib

variable {mem : Mem} {buf size fmt : Nat} {text : List Byte} {args : List (BitVec 32)} {ps : List Piece}

/-! ## 消してあるバッファ -/

theorem terminator_cases (ps : List Piece) : terminator ps = [] ∨ terminator ps = [0] := by
  induction ps with
  | nil => exact .inl rfl
  | cons pc ps ih =>
      cases pc with
      | text l => exact ih
      | number base num =>
          rw [terminator]
          split
          · exact .inr rfl
          · exact ih

theorem eq_zero_of_mem_terminator {c : Byte} (hc : c ∈ terminator ps) : c = 0 := by
  rcases terminator_cases ps with h | h
  · simp [h] at hc
  · simpa [h] using hc

/-- 0 で埋めたバッファに書いた `kernel_vsprintf` は終わり、書式の文字、文字列、文字、数の表記を順につないだものがちょうど残る。
その後のバイトは 0 のままであり、バッファの外は変わらない。 -/
theorem kernelVsprintf_cleared (h : FormatInput mem buf size fmt text args ps)
    (hzero : ∀ i < size, mem (buf + i) = 0) :
    ∃ N, ∀ fuel ≥ N, ∃ mem', kernelVsprintf fuel mem buf fmt args = some mem' ∧
      Spells mem' buf (piecesBytes ps) ∧
      (∀ i, (piecesBytes ps).length ≤ i → i < size → mem' (buf + i) = 0) ∧
      ∀ x, x < buf ∨ buf + size ≤ x → mem' x = mem x := by
  obtain ⟨N, hN⟩ := h.vsprintf
  have hfits := h.fits
  have hterm : (terminator ps).length ≤ 1 := by rcases terminator_cases ps with h | h <;> simp [h]
  refine ⟨N, fun fuel hf => ⟨_, hN fuel hf, (spells_append.mp spells_put).1, fun i h₁ h₂ => ?_, fun x hx => ?_⟩⟩
  · by_cases hi : i < (piecesBytes ps ++ terminator ps).length
    · rw [put_getElem hi, List.getElem_append_right h₁]
      exact eq_zero_of_mem_terminator (List.getElem_mem _)
    · rw [put_of_outside (by omega)]
      exact hzero i h₂
  · rw [put_of_outside]
    rw [List.length_append]
    omega

/-! ### 書式 `"%s=%d"` -/

/-- `0x2000` に `"%s=%d"`、`0x2010` に `"%s="`、`0x3000` に `"ok"` を置いたメモリ。 -/
def sampleMem : Mem :=
  put (put (put (fun _ => 0) 0x2000 [37, 115, 61, 37, 100]) 0x2010 [37, 115, 61]) 0x3000 [111, 107]

def samplePieces : List Piece := [.text [111, 107], .text [61], .number 10 7]

theorem stringArg_sample : StringArg sampleMem 0x1000 0x1008 0x3000 [111, 107] :=
  .inr ⟨by decide, ⟨⟨rfl, rfl, trivial⟩, rfl, by decide⟩, .inr (by decide)⟩

theorem formatInput_sample : FormatInput sampleMem 0x1000 8 0x2000 [37, 115, 61, 37, 100] [0x3000, 7] samplePieces where
  buf_ne_zero := by decide
  fmt_string := ⟨⟨rfl, rfl, rfl, rfl, rfl, trivial⟩, rfl, by decide⟩
  fmt_apart := by decide
  renders := .string _ _ stringArg_sample (.literal _ (.decimal _ .nil))
  fits := by
    have hseven : itoaText 10 7 = [55] := by
      rw [itoaText, if_neg (by decide), numeralText, numeral_of_lt (by decide)]
      rfl
    simp [samplePieces, Piece.bytes, hseven]

theorem formatInput_unterminated :
    FormatInput sampleMem 0x1000 8 0x2010 [37, 115, 61] [0x3000] [.text [111, 107], .text [61]] where
  buf_ne_zero := by decide
  fmt_string := ⟨⟨rfl, rfl, rfl, trivial⟩, rfl, by decide⟩
  fmt_apart := by decide
  renders := .string _ _ stringArg_sample (.literal _ .nil)
  fits := by decide

theorem kernelVsprintf_cleared_seven :
    ∃ N, ∀ fuel ≥ N, ∃ mem', kernelVsprintf fuel sampleMem 0x1000 0x2000 [0x3000, 7] = some mem' ∧
      Spells mem' 0x1000 (piecesBytes samplePieces) ∧
      (∀ i, (piecesBytes samplePieces).length ≤ i → i < 8 → mem' (0x1000 + i) = 0) ∧
      ∀ x, x < 0x1000 ∨ 0x1000 + 8 ≤ x → mem' x = sampleMem x :=
  kernelVsprintf_cleared formatInput_sample (by decide)

/-! ## 前の内容 -/

/-- 大きさ `size` のバッファにある、NUL で終わる文字列。 -/
def bufferString (mem : Mem) (buf size : Nat) : List Byte :=
  ((List.range size).map fun i => mem (buf + i)).takeWhile (· ≠ 0)

/-- `kernel_sprintf` の後の文字列が、バッファの前の内容によらない。 -/
def IgnoresOldContents (mem : Mem) (buf size fmt : Nat) (args : List (BitVec 32)) : Prop :=
  ∀ mem₁ mem₂ : Mem, (∀ x, x < buf ∨ buf + size ≤ x → mem₁ x = mem x ∧ mem₂ x = mem x) →
    ∃ N, ∀ fuel ≥ N, ∃ mem₁' mem₂', kernelSprintf fuel mem₁ buf fmt args = some mem₁' ∧
      kernelSprintf fuel mem₂ buf fmt args = some mem₂' ∧ bufferString mem₁' buf size = bufferString mem₂' buf size

/-- 最後に出力したものが数である。その後には空の文字列しかない。 -/
def EndsWithNumber (ps : List Piece) : Prop :=
  ∃ ps₁ base num ps₂, ps = ps₁ ++ .number base num :: ps₂ ∧ ∀ pc ∈ ps₂, pc = .text []

/-! ### 残る NUL -/

theorem Piece.bytes_eq_nil_iff (pc : Piece) : pc.bytes = [] ↔ pc = .text [] := by
  cases pc with
  | text l => simp [bytes]
  | number base num => simp [bytes, itoaText_ne_nil]

theorem piecesBytes_eq_nil_iff : piecesBytes ps = [] ↔ ∀ pc ∈ ps, pc = .text [] := by
  simp only [piecesBytes, List.flatMap_eq_nil_iff, Piece.bytes_eq_nil_iff]

theorem endsWithNumber_cons (pc : Piece) :
    EndsWithNumber (pc :: ps) ↔
      EndsWithNumber ps ∨ ((∃ base num, pc = .number base num) ∧ ∀ q ∈ ps, q = .text []) := by
  constructor
  · rintro ⟨ps₁, base, num, ps₂, heq, hall⟩
    cases ps₁ with
    | nil =>
        obtain ⟨rfl, rfl⟩ := List.cons.inj heq
        exact .inr ⟨⟨base, num, rfl⟩, hall⟩
    | cons q ps₁ => exact .inl ⟨ps₁, base, num, ps₂, (List.cons.inj heq).2, hall⟩
  · rintro (⟨ps₁, base, num, ps₂, rfl, hall⟩ | ⟨⟨base, num, rfl⟩, hall⟩)
    · exact ⟨pc :: ps₁, base, num, ps₂, rfl, hall⟩
    · exact ⟨[], base, num, ps, rfl, hall⟩

theorem terminator_eq_zero_iff : terminator ps = [0] ↔ EndsWithNumber ps := by
  induction ps with
  | nil => simp [terminator, EndsWithNumber]
  | cons pc ps ih =>
      rw [endsWithNumber_cons, ← ih]
      cases pc with
      | text l => simp [terminator]
      | number base num =>
          rw [terminator]
          by_cases hps : piecesBytes ps = []
          · have hall := piecesBytes_eq_nil_iff.mp hps
            rw [if_pos hps]
            exact ⟨fun _ => .inr ⟨⟨base, num, rfl⟩, hall⟩, fun _ => rfl⟩
          · simp [hps, ← piecesBytes_eq_nil_iff]

theorem mem_of_literal_mem {c : Byte} {state : FmtState} (h : .literal c ∈ directives state text) : c ∈ text := by
  induction text generalizing state with
  | nil => cases state <;> simp [directives] at h
  | cons d text ih =>
      cases state with
      | normal =>
          rw [directives] at h
          split at h
          · exact List.mem_cons_of_mem _ (ih h)
          · rcases List.mem_cons.mp h with hd | h
            · cases hd
              exact List.mem_cons_self
            · exact List.mem_cons_of_mem _ (ih h)
      | readFmt =>
          rw [directives] at h
          rcases List.mem_cons.mp h with hd | h
          · unfold directiveOf at hd
            split_ifs at hd
          · exact List.mem_cons_of_mem _ (ih h)

/-- NUL は `%c` からだけ出る。 -/
theorem Renders.zero_mem_bytes {lo hi : Nat} {ds : List Directive} (h : Renders mem lo hi ds args ps)
    (hlit : ∀ c, .literal c ∈ ds → c ≠ 0) : ∀ pc ∈ ps, 0 ∈ pc.bytes ↔ pc = .text [0] := by
  have hnum : ∀ {base : Nat} (num : BitVec 32), ItoaBase base →
      (0 ∈ (Piece.number base num).bytes ↔ Piece.number base num = .text [0]) := fun num hb => by
    simpa [Piece.bytes] using fun h₀ => itoaText_nonzero hb num.toInt 0 h₀ rfl
  induction h with
  | nil => simp
  | literal c _ ih =>
      refine List.forall_mem_cons.mpr ⟨?_, ih fun d hd => hlit d (List.mem_cons_of_mem _ hd)⟩
      simp only [Piece.bytes, List.mem_singleton, Piece.text.injEq, List.cons.injEq, and_true]
      exact eq_comm
  | ignored _ ih => exact ih fun d hd => hlit d (List.mem_cons_of_mem _ hd)
  | string p s harg _ ih =>
      refine List.forall_mem_cons.mpr ⟨?_, ih fun d hd => hlit d (List.mem_cons_of_mem _ hd)⟩
      have hs : (0 : Byte) ∉ s := by
        rcases harg with ⟨_, rfl⟩ | ⟨_, hstr, _⟩
        · simp
        · exact fun h₀ => hstr.nonzero 0 h₀ rfl
      refine ⟨fun h₀ => absurd h₀ hs, fun heq => ?_⟩
      rw [heq]
      exact List.mem_singleton_self 0
  | decimal num _ ih =>
      exact List.forall_mem_cons.mpr ⟨hnum num itoaBase_ten, ih fun d hd => hlit d (List.mem_cons_of_mem _ hd)⟩
  | hex num _ ih =>
      exact List.forall_mem_cons.mpr ⟨hnum num itoaBase_sixteen, ih fun d hd => hlit d (List.mem_cons_of_mem _ hd)⟩
  | char c _ ih =>
      refine List.forall_mem_cons.mpr ⟨?_, ih fun d hd => hlit d (List.mem_cons_of_mem _ hd)⟩
      simp only [Piece.bytes, List.mem_singleton, Piece.text.injEq, List.cons.injEq, and_true]
      exact eq_comm

theorem FormatInput.zero_mem_iff (h : FormatInput mem buf size fmt text args ps) :
    0 ∈ piecesBytes ps ↔ .text [0] ∈ ps := by
  have hpiece := h.renders.zero_mem_bytes fun c hc => h.fmt_string.nonzero c (mem_of_literal_mem hc)
  rw [piecesBytes, List.mem_flatMap]
  constructor
  · rintro ⟨pc, hpc, h₀⟩
    rw [← (hpiece pc hpc).mp h₀]
    exact hpc
  · intro h₀
    exact ⟨_, h₀, (hpiece _ h₀).mpr rfl⟩

/-! ### バッファの文字列 -/

theorem range_map_put {l : List Byte} (hl : l.length ≤ size) :
    ((List.range size).map fun i => put mem buf l (buf + i)) =
      l ++ (List.range (size - l.length)).map fun i => mem (buf + l.length + i) := by
  obtain ⟨k, rfl⟩ := Nat.exists_eq_add_of_le hl
  have hfirst : ((List.range l.length).map fun i => put mem buf l (buf + i)) = l := by
    refine List.ext_getElem (by simp) fun i h₁ h₂ => ?_
    rw [List.getElem_map, List.getElem_range, put_getElem h₂]
  rw [List.range_add, List.map_append, hfirst, List.map_map, Nat.add_sub_cancel_left]
  congr 1
  refine List.map_congr_left fun i _ => ?_
  rw [Function.comp_apply, put_of_outside (by omega), Nat.add_assoc]

theorem bufferString_put_of_mem {l : List Byte} (hl : l.length ≤ size) (h₀ : 0 ∈ l) :
    bufferString (put mem buf l) buf size = l.takeWhile (· ≠ 0) := by
  rw [bufferString, range_map_put hl, List.takeWhile_append, if_neg]
  intro hlen
  have hall := List.takeWhile_eq_self_iff.mp ((List.takeWhile_prefix _).eq_of_length hlen)
  exact absurd (hall 0 h₀) (by decide)

theorem bufferString_put_of_not_mem {l : List Byte} (hl : l.length ≤ size) (h₀ : 0 ∉ l) :
    bufferString (put mem buf l) buf size = l ++ bufferString mem (buf + l.length) (size - l.length) := by
  have hall : ∀ c ∈ l, decide (c ≠ 0) = true := by
    intro c hc
    rw [decide_eq_true_eq]
    rintro rfl
    exact h₀ hc
  rw [bufferString, range_map_put hl, List.takeWhile_append_of_pos hall, bufferString]

/-! ### 条件 -/

theorem FormatInput.congr {mem' : Mem} (h : FormatInput mem buf size fmt text args ps)
    (hm : ∀ x, x < buf ∨ buf + size ≤ x → mem' x = mem x) : FormatInput mem' buf size fmt text args ps where
  buf_ne_zero := h.buf_ne_zero
  fmt_string := h.fmt_string.congr fun x h₁ h₂ => hm x (by have := h.fmt_apart; omega)
  fmt_apart := h.fmt_apart
  renders := h.renders.congr hm
  fits := h.fits

def fillBuffer (mem : Mem) (buf size : Nat) (c : Byte) : Mem := fun x => if buf ≤ x ∧ x < buf + size then c else mem x

theorem fillBuffer_of_outside (c : Byte) : ∀ x, x < buf ∨ buf + size ≤ x → fillBuffer mem buf size c x = mem x := by
  intro x hx
  rw [fillBuffer, if_neg (by omega)]

theorem bufferString_fill {k : Nat} (hk : k < size) (c : Byte) :
    (bufferString (fillBuffer mem buf size c) (buf + k) (size - k) = []) ↔ c = 0 := by
  obtain ⟨m, hm⟩ : ∃ m, size - k = m + 1 := ⟨size - k - 1, by omega⟩
  have hhead : fillBuffer mem buf size c (buf + k + 0) = c := by rw [fillBuffer, if_pos (by omega)]
  rw [bufferString, hm, List.range_succ_eq_map, List.map_cons, List.takeWhile_cons, hhead]
  by_cases hc : c = 0
  · rw [if_neg (by simp [hc])]
    exact ⟨fun _ => hc, fun _ => rfl⟩
  · rw [if_pos (by simpa using hc)]
    exact ⟨fun h => by simp at h, fun h => absurd h hc⟩

/-- NUL を出さず、数で終わらなければ、0 で埋めたバッファと 1 で埋めたバッファとで文字列が異なる。 -/
theorem FormatInput.not_ignoresOldContents (h : FormatInput mem buf size fmt text args ps) (h₀ : 0 ∉ piecesBytes ps)
    (hterm : terminator ps = []) : ¬ IgnoresOldContents mem buf size fmt args := by
  intro hsame
  have hfits := h.fits
  obtain ⟨N, hN⟩ := hsame (fillBuffer mem buf size 0) (fillBuffer mem buf size 1) fun x hx =>
    ⟨fillBuffer_of_outside 0 x hx, fillBuffer_of_outside 1 x hx⟩
  obtain ⟨N₁, hN₁⟩ := (h.congr (fillBuffer_of_outside 0)).vsprintf
  obtain ⟨N₂, hN₂⟩ := (h.congr (fillBuffer_of_outside 1)).vsprintf
  obtain ⟨mem₁, mem₂, hr₁, hr₂, hstr⟩ := hN (max N (max N₁ N₂)) (by omega)
  rw [kernelSprintf, hN₁ _ (by omega), Option.some.injEq, hterm, List.append_nil] at hr₁
  rw [kernelSprintf, hN₂ _ (by omega), Option.some.injEq, hterm, List.append_nil] at hr₂
  rw [← hr₁, ← hr₂, bufferString_put_of_not_mem (by omega) h₀, bufferString_put_of_not_mem (by omega) h₀,
    List.append_cancel_left_eq, (bufferString_fill (by omega) 0).mpr rfl] at hstr
  exact absurd ((bufferString_fill (by omega) 1).mp hstr.symm) (by decide)

theorem FormatInput.ignoresOldContents (h : FormatInput mem buf size fmt text args ps)
    (h₀ : 0 ∈ piecesBytes ps ++ terminator ps) : IgnoresOldContents mem buf size fmt args := by
  intro mem₁ mem₂ hm
  have hlen : (piecesBytes ps ++ terminator ps).length ≤ size := by
    have hfits := h.fits
    rw [List.length_append]
    rcases terminator_cases ps with ht | ht <;> simp only [ht, List.length_nil, List.length_singleton] <;> omega
  obtain ⟨N₁, hN₁⟩ := (h.congr fun x hx => (hm x hx).1).vsprintf
  obtain ⟨N₂, hN₂⟩ := (h.congr fun x hx => (hm x hx).2).vsprintf
  refine ⟨max N₁ N₂, fun fuel hf => ⟨_, _, hN₁ fuel (by omega), hN₂ fuel (by omega), ?_⟩⟩
  rw [bufferString_put_of_mem hlen h₀, bufferString_put_of_mem hlen h₀]

/-- `kernel_sprintf` の後の文字列が前の内容によらないのは、`%c` が NUL を出すか、最後に出力したものが数であるとき、そのときに
限る。 -/
theorem kernelSprintf_ignoresOldContents_iff (h : FormatInput mem buf size fmt text args ps) :
    IgnoresOldContents mem buf size fmt args ↔ .text [0] ∈ ps ∨ EndsWithNumber ps := by
  rw [← h.zero_mem_iff, ← terminator_eq_zero_iff]
  constructor
  · intro hsame
    by_contra hno
    rw [not_or] at hno
    exact h.not_ignoresOldContents hno.1 ((terminator_cases ps).resolve_right hno.2) hsame
  · rintro (h₀ | ht)
    · exact h.ignoresOldContents (List.mem_append_left _ h₀)
    · exact h.ignoresOldContents (by simp [ht])

theorem kernelSprintf_ignoresOldContents_iff_seven :
    IgnoresOldContents sampleMem 0x1000 8 0x2000 [0x3000, 7] ↔
      .text [0] ∈ samplePieces ∨ EndsWithNumber samplePieces :=
  kernelSprintf_ignoresOldContents_iff formatInput_sample

/-- 書式 `"%s="` と文字列 `"ok"` では、`"ok="` の後に前の内容が続く。 -/
theorem kernelSprintf_keeps_old_contents : ¬ IgnoresOldContents sampleMem 0x1000 8 0x2010 [0x3000] :=
  formatInput_unterminated.not_ignoresOldContents (by decide) rfl

end IdealX86
