import IdealX86.Cpu.Dump
import IdealX86.Tools.Lemmas.VsprintfChecked
import IdealX86.Tools.VsprintfTheorems

/-!
# `dump_core_regs` の定理

`kernel_vsprintf` は `str_buf` の大きさを知らない。書式ごとに、32 ビットの値の表記の長さの上限を足すと、どのレジスタの値でも
128 バイトに収まることが分かる。
-/

namespace IdealX86

open Lib

variable {mem : Mem} {lo hi : Nat} {ds : List Directive} {args : List (BitVec 32)} {ps : List Piece}

/-! ## 出力の長さの上限 -/

namespace Directive

def argCount : Directive → Nat
  | literal _ => 0
  | ignored => 0
  | _ => 1

/-- 出力の長さの上限。文字列の長さには上限がない。 -/
def maxLength : Directive → Nat
  | literal _ => 1
  | string => 0
  | decimal => 11
  | char => 1
  | hex => 8
  | ignored => 0

/-- 文字と数の指示。出力は、上限のある NUL でない文字である。 -/
def plain : Directive → Bool
  | literal c => c ≠ 0
  | decimal => true
  | hex => true
  | _ => false

end Directive

theorem exists_cons_of_succ_le {n : Nat} (h : 1 + n ≤ args.length) :
    ∃ num args', args = num :: args' ∧ n ≤ args'.length := by
  obtain ⟨num, args', rfl⟩ := List.exists_cons_of_length_pos (show 0 < args.length by omega)
  rw [List.length_cons] at h
  exact ⟨num, args', rfl, by omega⟩

/-- 文字と数だけの書式には、引数が足りれば部品の列がある。 -/
theorem exists_renders (mem : Mem) (lo hi : Nat) (hplain : ∀ d ∈ ds, d.plain = true)
    (hargs : (ds.map Directive.argCount).sum ≤ args.length) : ∃ ps, Renders mem lo hi ds args ps := by
  induction ds generalizing args with
  | nil => exact ⟨[], .nil⟩
  | cons d ds ih =>
      obtain ⟨hd, hds⟩ := List.forall_mem_cons.mp hplain
      rw [List.map_cons, List.sum_cons] at hargs
      cases d with
      | literal c =>
          obtain ⟨ps, h⟩ := ih hds (Nat.le_trans (Nat.le_add_left _ _) hargs)
          exact ⟨_, .literal c h⟩
      | decimal =>
          obtain ⟨num, args', rfl, hle⟩ := exists_cons_of_succ_le hargs
          obtain ⟨ps, h⟩ := ih hds hle
          exact ⟨_, .decimal num h⟩
      | hex =>
          obtain ⟨num, args', rfl, hle⟩ := exists_cons_of_succ_le hargs
          obtain ⟨ps, h⟩ := ih hds hle
          exact ⟨_, .hex num h⟩
      | string => cases hd
      | char => cases hd
      | ignored => cases hd

theorem length_piecesBytes_cons_le {d : Directive} {pc : Piece} (hpc : pc.bytes.length ≤ d.maxLength)
    (hps : (piecesBytes ps).length ≤ (ds.map Directive.maxLength).sum) :
    (piecesBytes (pc :: ps)).length ≤ ((d :: ds).map Directive.maxLength).sum := by
  rw [piecesBytes_cons, List.length_append, List.map_cons, List.sum_cons]
  exact Nat.add_le_add hpc hps

theorem Renders.length_le (h : Renders mem lo hi ds args ps) (hplain : ∀ d ∈ ds, d.plain = true) :
    (piecesBytes ps).length ≤ (ds.map Directive.maxLength).sum := by
  induction h with
  | nil => simp
  | literal c _ ih => exact length_piecesBytes_cons_le (Nat.le_refl 1) (ih (List.forall_mem_cons.mp hplain).2)
  | decimal num _ ih =>
      exact length_piecesBytes_cons_le (length_itoaText_decimal num) (ih (List.forall_mem_cons.mp hplain).2)
  | hex num _ ih => exact length_piecesBytes_cons_le (length_itoaText_hex num) (ih (List.forall_mem_cons.mp hplain).2)
  | ignored _ _ => cases hplain _ List.mem_cons_self
  | string _ _ _ _ _ => cases hplain _ List.mem_cons_self
  | char _ _ _ => cases hplain _ List.mem_cons_self

theorem Renders.nonzero (h : Renders mem lo hi ds args ps) (hplain : ∀ d ∈ ds, d.plain = true) :
    ∀ c ∈ piecesBytes ps, c ≠ 0 := by
  induction h with
  | nil => simp
  | literal c _ ih =>
      obtain ⟨hc, hds⟩ := List.forall_mem_cons.mp hplain
      have hne : c ≠ 0 := by simpa [Directive.plain] using hc
      exact List.forall_mem_append.mpr ⟨by simpa [Piece.bytes] using hne, ih hds⟩
  | decimal num _ ih =>
      exact List.forall_mem_append.mpr
        ⟨itoaText_nonzero itoaBase_ten _, ih (List.forall_mem_cons.mp hplain).2⟩
  | hex num _ ih =>
      exact List.forall_mem_append.mpr
        ⟨itoaText_nonzero itoaBase_sixteen _, ih (List.forall_mem_cons.mp hplain).2⟩
  | ignored _ _ => cases hplain _ List.mem_cons_self
  | string _ _ _ _ _ => cases hplain _ List.mem_cons_self
  | char _ _ _ => cases hplain _ List.mem_cons_self

/-! ## `str_buf` -/

/-- 呼び出しの書式は文字と数だけからなり、引数は足り、どの値でも出力と NUL が `str_buf` に入る。 -/
structure LogCall.Fits (call : LogCall) : Prop where
  plain : ∀ d ∈ directives .normal call.fmt, d.plain = true
  args : ((directives .normal call.fmt).map Directive.argCount).sum ≤ call.args.length
  length : ((directives .normal call.fmt).map Directive.maxLength).sum < strBufSize

/-- 最も長いのは三つ目の書式で、NUL を入れて高々 121 バイトである。 -/
theorem dumpCoreRegs_fits (frame : ExceptionFrame) (sixth : BitVec 32) :
    ∀ call ∈ dumpCoreRegs frame sixth, call.Fits := by
  intro call hcall
  simp only [dumpCoreRegs, List.mem_cons, List.not_mem_nil, or_false] at hcall
  rcases hcall with rfl | rfl | rfl | rfl
  all_goals refine ⟨?_, ?_, ?_⟩ <;> dsimp only [List.length] <;> decide +kernel

/-- `log_printf` の局所変数 `str_buf` と書式の置き場所。書式は `str_buf` の外にある。 -/
structure LogPlaced (mem : Mem) (strBuf fmt : Nat) (text : List Byte) : Prop where
  buf_ne_zero : strBuf ≠ 0
  fmt_string : CString mem fmt text
  fmt_apart : fmt + text.length < strBuf ∨ strBuf + strBufSize ≤ fmt

/-- `logPrintfFormat` の整形を、`str_buf` の外に書くと `none` になるものに替える。 -/
def logPrintfFormatChecked (fuel : Nat) (mem : Mem) (strBuf fmt : Nat) (args : List (BitVec 32)) : Option Mem :=
  kernelVsprintfChecked strBuf (strBuf + strBufSize) fuel (kernelMemset mem strBuf 0 strBufSize) strBuf fmt args

theorem LogPlaced.formatInput {strBuf fmt : Nat} {call : LogCall} (h : LogPlaced mem strBuf fmt call.fmt)
    (hfit : call.Fits) :
    ∃ ps, FormatInput (kernelMemset mem strBuf 0 strBufSize) strBuf strBufSize fmt call.fmt call.args ps := by
  obtain ⟨ps, hr⟩ :=
    exists_renders (kernelMemset mem strBuf 0 strBufSize) strBuf (strBuf + strBufSize) hfit.plain hfit.args
  have hapart := h.fmt_apart
  refine ⟨ps, h.buf_ne_zero, h.fmt_string.congr fun x h₁ h₂ => ?_, hapart, hr,
    Nat.lt_of_le_of_lt (hr.length_le hfit.plain) hfit.length⟩
  rw [kernelMemset_apply h.buf_ne_zero (n := strBufSize) (by decide), if_neg (by omega)]

/-- どの例外フレームでも、六つ目の `%d` に何が読まれても、`dump_core_regs` の呼ぶ `log_printf` は `str_buf` の中だけに書いて終わり、
NUL で終わる文字列を `str_buf` の中に残す。`str_buf` の外は変わらない。 -/
theorem dumpCoreRegs_within_strBuf (frame : ExceptionFrame) (sixth : BitVec 32) :
    ∀ call ∈ dumpCoreRegs frame sixth, ∀ mem strBuf fmt, LogPlaced mem strBuf fmt call.fmt →
      ∃ N, ∀ fuel ≥ N, ∃ mem', logPrintfFormatChecked fuel mem strBuf fmt call.args = some mem' ∧
        logPrintfFormat fuel mem strBuf fmt call.args = some mem' ∧
        (∃ text, CString mem' strBuf text ∧ text.length < strBufSize) ∧
        ∀ x, x < strBuf ∨ strBuf + strBufSize ≤ x → mem' x = mem x := by
  intro call hcall mem strBuf fmt hplaced
  have hfit := dumpCoreRegs_fits frame sixth call hcall
  obtain ⟨ps, hin⟩ := hplaced.formatInput hfit
  have hlen : (piecesBytes ps).length < strBufSize := hin.fits
  obtain ⟨N₁, hchecked⟩ := hin.vsprintf_checked
  obtain ⟨N₂, hrun⟩ := kernelVsprintf_cleared hin fun i hi => by
    rw [kernelMemset_apply hplaced.buf_ne_zero (n := strBufSize) (by decide), if_pos (by omega)]
  refine ⟨max N₁ N₂, fun fuel hf => ?_⟩
  obtain ⟨mem', heq, hspells, hzero, hout⟩ := hrun fuel (by omega)
  refine ⟨mem', (hchecked fuel (by omega)).trans heq, heq,
    ⟨piecesBytes ps, ⟨hspells, hzero _ (Nat.le_refl _) hlen, hin.renders.nonzero hfit.plain⟩, hlen⟩, fun x hx => ?_⟩
  rw [hout x hx, kernelMemset_apply hplaced.buf_ne_zero (n := strBufSize) (by decide), if_neg (by omega)]

/-- すべてのレジスタが `0x80000000` のフレーム。 -/
def minFrame : ExceptionFrame where
  gs := 0x80000000
  fs := 0x80000000
  es := 0x80000000
  ds := 0x80000000
  edi := 0x80000000
  esi := 0x80000000
  ebp := 0x80000000
  esp := 0x80000000
  ebx := 0x80000000
  edx := 0x80000000
  ecx := 0x80000000
  eax := 0x80000000
  num := 0x80000000
  errCode := 0x80000000
  eip := 0x80000000
  cs := 0x80000000
  eflags := 0x80000000

def segmentsFormat : List Byte := bytesOf "CS: %d\nDS: %d\nES: %d\nSS: %d\nFS:%d\nGS:%d"

/-- 二つ目の書式を `0x2000` に置いたメモリ。 -/
def segmentsMem : Mem := put (fun _ => 0) 0x2000 (segmentsFormat ++ [0])

theorem logPlaced_segments : LogPlaced segmentsMem 0x1000 0x2000 segmentsFormat where
  buf_ne_zero := by decide
  fmt_string := cstring_put (List.forall_mem_ne'.mpr (by decide +kernel))
  fmt_apart := .inr (by decide)

theorem dumpCoreRegs_within_strBuf_segments :
    ∃ N, ∀ fuel ≥ N, ∃ mem',
      logPrintfFormatChecked fuel segmentsMem 0x1000 0x2000 (List.replicate 5 0x80000000 ++ [7]) = some mem' ∧
      logPrintfFormat fuel segmentsMem 0x1000 0x2000 (List.replicate 5 0x80000000 ++ [7]) = some mem' ∧
      (∃ text, CString mem' 0x1000 text ∧ text.length < strBufSize) ∧
      ∀ x, x < 0x1000 ∨ 0x1000 + strBufSize ≤ x → mem' x = segmentsMem x :=
  dumpCoreRegs_within_strBuf minFrame 7 ⟨segmentsFormat, _⟩ (.tail _ (.head _)) segmentsMem 0x1000 0x2000
    logPlaced_segments

end IdealX86
