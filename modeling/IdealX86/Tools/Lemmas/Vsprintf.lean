import IdealX86.Tools.Lemmas.Itoa

/-!
# `kernel_vsprintf` の補題

書式と引数の列が定める出力を、部品の列で表す。数の部品は、書いた文字の後に NUL を一つ残し、次の出力があればそれに消される。
-/

namespace IdealX86

open Lib

/-! ## 書式の意味 -/

/-- 書式の指示。`ignored` は、`%` の後のそのほかの文字である。 -/
inductive Directive where
  | literal (c : Byte)
  | string
  | decimal
  | char
  | hex
  | ignored
  deriving DecidableEq

def directiveOf (c : Byte) : Directive :=
  if c = 115 then .string
  else if c = 100 then .decimal
  else if c = 99 then .char
  else if c = 120 then .hex
  else .ignored

/-- 書式の文字列が表す指示の列。末尾の `%` は何も表さない。 -/
def directives : FmtState → List Byte → List Directive
  | _, [] => []
  | .normal, c :: fmt => if c = 37 then directives .readFmt fmt else .literal c :: directives .normal fmt
  | .readFmt, c :: fmt => directiveOf c :: directives .normal fmt

inductive Piece where
  | text (l : List Byte)
  | number (base : Nat) (num : BitVec 32)

namespace Piece

def bytes : Piece → List Byte
  | text l => l
  | number base num => itoaText base num.toInt

/-- 実際に書くバイト。数の後には NUL が付く。 -/
def written : Piece → List Byte
  | text l => l
  | number base num => itoaText base num.toInt ++ [0]

end Piece

/-- `%s` の引数 `p` が文字列 `s` を与える。文字列は `lo` から `hi` の手前までの範囲の外にある。空のポインタは空の文字列である。 -/
def StringArg (mem : Mem) (lo hi : Nat) (p : BitVec 32) (s : List Byte) : Prop :=
  p = 0 ∧ s = [] ∨ p ≠ 0 ∧ CString mem p.toNat s ∧ (p.toNat + s.length < lo ∨ hi ≤ p.toNat)

/-- 引数の列が、指示の順に値を与え、部品の列ができる。 -/
inductive Renders (mem : Mem) (lo hi : Nat) : List Directive → List (BitVec 32) → List Piece → Prop where
  | nil {args} : Renders mem lo hi [] args []
  | literal {ds args ps} (c : Byte) : Renders mem lo hi ds args ps →
      Renders mem lo hi (.literal c :: ds) args (.text [c] :: ps)
  | ignored {ds args ps} : Renders mem lo hi ds args ps → Renders mem lo hi (.ignored :: ds) args ps
  | string {ds args ps} (p : BitVec 32) (s : List Byte) : StringArg mem lo hi p s → Renders mem lo hi ds args ps →
      Renders mem lo hi (.string :: ds) (p :: args) (.text s :: ps)
  | decimal {ds args ps} (num : BitVec 32) : Renders mem lo hi ds args ps →
      Renders mem lo hi (.decimal :: ds) (num :: args) (.number 10 num :: ps)
  | hex {ds args ps} (num : BitVec 32) : Renders mem lo hi ds args ps →
      Renders mem lo hi (.hex :: ds) (num :: args) (.number 16 num :: ps)
  | char {ds args ps} (c : BitVec 32) : Renders mem lo hi ds args ps →
      Renders mem lo hi (.char :: ds) (c :: args) (.text [c.setWidth 8] :: ps)

def piecesBytes (ps : List Piece) : List Byte := ps.flatMap Piece.bytes

/-- 最後に残る NUL。数の後に何も書かれなかったときだけある。 -/
def terminator : List Piece → List Byte
  | [] => []
  | .text _ :: ps => terminator ps
  | .number _ _ :: ps => if piecesBytes ps = [] then [0] else terminator ps

variable {mem mem' : Mem} {lo hi : Nat} {ds : List Directive} {args : List (BitVec 32)} {ps : List Piece} {o : Output}

@[simp] theorem piecesBytes_nil : piecesBytes [] = [] := rfl

@[simp] theorem piecesBytes_cons (pc : Piece) (ps : List Piece) : piecesBytes (pc :: ps) = pc.bytes ++ piecesBytes ps := rfl

theorem terminator_eq_nil (h : piecesBytes ps = []) : terminator ps = [] := by
  induction ps with
  | nil => rfl
  | cons pc ps ih =>
      rw [piecesBytes_cons, List.append_eq_nil_iff] at h
      cases pc with
      | text l => exact ih h.2
      | number base num => exact absurd h.1 (itoaText_ne_nil base num.toInt)

/-- 一つの部品を書いてから残りを書くと、全体を書いたことになる。 -/
theorem put_piece (mem : Mem) (p : Nat) (pc : Piece) (ps : List Piece) :
    put (put mem p pc.written) (p + pc.bytes.length) (piecesBytes ps ++ terminator ps) =
      put mem p (piecesBytes (pc :: ps) ++ terminator (pc :: ps)) := by
  rw [piecesBytes_cons, List.append_assoc]
  cases pc with
  | text l => exact put_append.symm
  | number base num =>
      simp only [Piece.written, Piece.bytes, terminator]
      by_cases hps : piecesBytes ps = []
      · rw [terminator_eq_nil hps, hps, if_pos rfl]
        rfl
      · rw [if_neg hps, put_put_concat (by simp [hps])]

theorem Piece.length_written_le (pc : Piece) : pc.written.length ≤ pc.bytes.length + 1 := by
  cases pc <;> simp [written, bytes]

/-- 範囲の外のメモリが同じなら、同じ部品の列ができる。 -/
theorem Renders.congr (h : Renders mem lo hi ds args ps) (hm : ∀ x, x < lo ∨ hi ≤ x → mem' x = mem x) :
    Renders mem' lo hi ds args ps := by
  induction h with
  | nil => exact .nil
  | literal c _ ih => exact .literal c ih
  | ignored _ ih => exact .ignored ih
  | string p s harg _ ih =>
      refine .string p s (harg.imp_right ?_) ih
      rintro ⟨hne, hs, hapart⟩
      exact ⟨hne, hs.congr fun x h₁ h₂ => hm x (by omega), hapart⟩
  | decimal num _ ih => exact .decimal num ih
  | hex num _ ih => exact .hex num ih
  | char c _ ih => exact .char c ih

/-! ## 一つの指示 -/

theorem vsprintfCopy_eq {p str : Nat} {s : List Byte} (hs : Spells mem str s)
    (hapart : str + s.length ≤ p ∨ p + s.length ≤ str) :
    vsprintfCopy s.length mem p str = (put mem p s, p + s.length) := by
  induction s generalizing mem p str with
  | nil => rfl
  | cons c s ih =>
      rw [List.length_cons] at hapart ⊢
      have hs' : Spells (Function.update mem p c) (str + 1) s :=
        hs.2.congr fun x h₁ h₂ => Function.update_of_ne (by omega) _ _
      rw [vsprintfCopy, hs.1, ih hs' (by omega), put, Nat.add_assoc, Nat.add_comm 1]

theorem vsprintfNumber_eq {base : Nat} (hb : ItoaBase base) (num : BitVec 32) {p : Nat} (hp : p ≠ 0) {fuel : Nat}
    (hf : 64 ≤ fuel) : vsprintfNumber fuel base ⟨mem, p, num :: args⟩ =
      some ⟨put mem p (itoaText base num.toInt ++ [0]), p + (itoaText base num.toInt).length, args⟩ := by
  have hlen := length_numeralText_le hb (natAbs_toInt_lt num)
  have htext := length_itoaText_le base num.toInt
  have hstr : CString (put mem p (itoaText base num.toInt ++ [0])) p (itoaText base num.toInt) :=
    cstring_put (itoaText_nonzero hb _)
  simp only [vsprintfNumber, kernelItoa_eq hb mem num.toInt p (show _ ≤ fuel by omega), Option.bind_eq_bind,
    Option.bind_some, hstr.strlen hp (show _ < fuel by omega)]

/-- `%` の後の一文字の働き：何もしないか、部品を一つ書いて `p` をその長さだけ進める。 -/
inductive Taken (ch : Byte) (o : Output) (ds : List Directive) (ps : List Piece) (lo hi : Nat) : Prop where
  | nothing : (∀ fuel, vsprintfDirective fuel ch o = some o) → Renders o.mem lo hi ds o.args ps → Taken ch o ds ps lo hi
  | piece (pc : Piece) (ps' : List Piece) (args : List (BitVec 32)) (N : Nat) : ps = pc :: ps' →
      (∀ fuel ≥ N, vsprintfDirective fuel ch o = some ⟨put o.mem o.p pc.written, o.p + pc.bytes.length, args⟩) →
      Renders o.mem lo hi ds args ps' → Taken ch o ds ps lo hi

theorem vsprintfString_eq {q : BitVec 32} {s : List Byte} (harg : StringArg mem lo hi q s) {p : Nat} (hp : lo ≤ p)
    (hfit : p + s.length ≤ hi) {fuel : Nat} (hf : s.length < fuel) :
    vsprintfString fuel ⟨mem, p, q :: args⟩ = some ⟨put mem p s, p + s.length, args⟩ := by
  rcases harg with ⟨rfl, rfl⟩ | ⟨hne, hs, hapart⟩
  · rfl
  · have hq : q.toNat ≠ 0 := fun h => hne (BitVec.eq_of_toNat_eq h)
    have hcopy : vsprintfCopy s.length mem p q.toNat = (put mem p s, p + s.length) :=
      vsprintfCopy_eq hs.spells (by omega)
    simp only [vsprintfString, hs.strlen hq hf, Option.bind_eq_bind, Option.bind_some, hcopy]

theorem directive_taken {ch : Byte} (h : Renders o.mem lo hi (directiveOf ch :: ds) o.args ps) (hlo : lo ≠ 0)
    (hp : lo ≤ o.p) (hfit : o.p + (piecesBytes ps).length < hi) : Taken ch o ds ps lo hi := by
  obtain ⟨mem, p, args⟩ := o
  simp only at h hp hfit
  generalize hd : directiveOf ch = d at h
  unfold directiveOf at hd
  cases h with
  | literal c h' => split_ifs at hd
  | ignored h' =>
      refine .nothing (fun fuel => ?_) h'
      unfold vsprintfDirective
      split_ifs at hd ⊢
      rfl
  | string q s harg h' =>
      obtain rfl : ch = 115 := by split_ifs at hd; assumption
      refine .piece _ _ _ (s.length + 1) rfl (fun fuel hf => ?_) h'
      rw [piecesBytes_cons, List.length_append, Piece.bytes] at hfit
      exact vsprintfString_eq harg hp (by omega) hf
  | decimal num h' =>
      obtain rfl : ch = 100 := by split_ifs at hd; assumption
      exact .piece _ _ _ 64 rfl (fun fuel hf => vsprintfNumber_eq itoaBase_ten num (by omega) hf) h'
  | hex num h' =>
      obtain rfl : ch = 120 := by split_ifs at hd; assumption
      exact .piece _ _ _ 64 rfl (fun fuel hf => vsprintfNumber_eq itoaBase_sixteen num (by omega) hf) h'
  | char c h' =>
      obtain rfl : ch = 99 := by split_ifs at hd; assumption
      exact .piece _ _ _ 0 rfl (fun fuel _ => rfl) h'

/-! ## 書式の走査 -/

/-- 一つの部品を書いても、範囲の外は変わらない。 -/
theorem put_written_of_outside {p : Nat} {pc : Piece} (hp : lo ≤ p) (hfit : p + (piecesBytes (pc :: ps)).length < hi)
    (mem : Mem) :
    ∀ x, x < lo ∨ hi ≤ x → put mem p pc.written x = mem x := by
  intro x hx
  have hlen := pc.length_written_le
  rw [piecesBytes_cons, List.length_append] at hfit
  exact put_of_outside (by omega)

/-- 走査は、十分な周の数のもとで終わり、メモリ `mem'` を残す。 -/
def LoopEnds (text : List Byte) (state : FmtState) (fmt : Nat) (o : Output) (mem' : Mem) : Prop :=
  ∃ N, ∀ fuel ≥ N, ∀ n > text.length, ∃ o', vsprintfLoop fuel n state fmt o = some o' ∧ o'.mem = mem'

theorem LoopEnds.nil {state : FmtState} {fmt : Nat} (h : o.mem fmt = 0) : LoopEnds [] state fmt o o.mem := by
  refine ⟨0, fun fuel _ n hn => ?_⟩
  obtain _ | n := n
  · simp at hn
  · exact ⟨o, by simp [vsprintfLoop, h], rfl⟩

/-- 一文字を読む周の後に残りの走査が終われば、全体の走査が終わる。 -/
theorem LoopEnds.cons {text : List Byte} {state state' : FmtState} {fmt : Nat} {o' : Output} (c : Byte) (N₀ : Nat)
    (h : LoopEnds text state' (fmt + 1) o' mem')
    (hstep : ∀ fuel ≥ N₀, ∀ n, vsprintfLoop fuel (n + 1) state fmt o = vsprintfLoop fuel n state' (fmt + 1) o') :
    LoopEnds (c :: text) state fmt o mem' := by
  obtain ⟨N, hN⟩ := h
  refine ⟨max N₀ N, fun fuel hf n hn => ?_⟩
  obtain _ | n := n
  · simp at hn
  · rw [hstep fuel (by omega) n]
    exact hN fuel (by omega) n (by simpa using hn)

/-- 走査の途中：残りの書式 `text` と引数から部品の列 `ps` ができ、書式は出力の範囲の外にあり、出力の後に一バイト残る。 -/
structure Scanning (lo hi : Nat) (text : List Byte) (state : FmtState) (fmt : Nat) (o : Output) (ps : List Piece) :
    Prop where
  renders : Renders o.mem lo hi (directives state text) o.args ps
  fmt_string : CString o.mem fmt text
  fmt_apart : fmt + text.length < lo ∨ hi ≤ fmt
  le : lo ≤ o.p
  fits : o.p + (piecesBytes ps).length < hi

/-- 書き込みは範囲の中に収まるので、部品を一つ書いた後も、残りの書式と引数は変わらない。 -/
theorem Scanning.piece {c : Byte} {text : List Byte} {state : FmtState} {fmt : Nat} {pc : Piece}
    {args : List (BitVec 32)} (h : Scanning lo hi (c :: text) state fmt o (pc :: ps))
    (h' : Renders o.mem lo hi (directives .normal text) args ps) :
    Scanning lo hi text .normal (fmt + 1) ⟨put o.mem o.p pc.written, o.p + pc.bytes.length, args⟩ ps := by
  obtain ⟨-, hfmt, hapart, hp, hfit⟩ := h
  obtain ⟨-, -, hrest⟩ := cstring_cons.mp hfmt
  have hout := put_written_of_outside hp hfit o.mem
  rw [List.length_cons] at hapart
  rw [piecesBytes_cons, List.length_append] at hfit
  exact ⟨h'.congr hout, hrest.congr fun x h₁ h₂ => hout x (by omega), by omega, by simp only; omega, by simp only; omega⟩

theorem Scanning.skip {c : Byte} {text : List Byte} {state state' : FmtState} {fmt : Nat}
    (h : Scanning lo hi (c :: text) state fmt o ps) (h' : Renders o.mem lo hi (directives state' text) o.args ps) :
    Scanning lo hi text state' (fmt + 1) o ps := by
  obtain ⟨-, hfmt, hapart, hp, hfit⟩ := h
  rw [List.length_cons] at hapart
  exact ⟨h', (cstring_cons.mp hfmt).2.2, by omega, hp, hfit⟩

/-- 走査は、十分な周の数のもとで終わり、部品の列の文字列と、残る NUL を書く。 -/
theorem Scanning.ends {text : List Byte} {state : FmtState} {fmt : Nat} (hlo : lo ≠ 0)
    (h : Scanning lo hi text state fmt o ps) :
    LoopEnds text state fmt o (put o.mem o.p (piecesBytes ps ++ terminator ps)) := by
  -- 書式の残りについての帰納法。
  induction text generalizing state fmt o ps with
  | nil =>
      obtain ⟨hr, hfmt, -⟩ := h
      cases hr
      exact .nil (cstring_nil.mp hfmt)
  | cons c text ih =>
      have hr := h.renders
      obtain ⟨hc, hne, -⟩ := cstring_cons.mp h.fmt_string
      cases state with
      | normal =>
          rw [directives] at hr
          by_cases hpct : c = 37
          · rw [if_pos hpct] at hr
            refine (ih (h.skip hr)).cons c 0 fun fuel _ n => ?_
            simp only [vsprintfLoop, hc, hpct, ↓reduceIte]
            rfl
          · rw [if_neg hpct] at hr
            cases hr with
            | literal _ hr' =>
                rw [← put_piece]
                refine (ih (h.piece hr')).cons c 0 fun fuel _ n => ?_
                simp only [vsprintfLoop, hc, hne, hpct, ↓reduceIte]
                rfl
      | readFmt =>
          cases directive_taken hr hlo h.le h.fits with
          | nothing hrun hr' =>
              refine (ih (h.skip hr')).cons c 0 fun fuel _ n => ?_
              simp only [vsprintfLoop, hc, hne, ↓reduceIte, hrun fuel, Option.bind_some]
          | piece pc ps' args N hps hrun hr' =>
              subst hps
              rw [← put_piece]
              refine (ih (h.piece hr')).cons c N fun fuel hf n => ?_
              simp only [vsprintfLoop, hc, hne, ↓reduceIte, hrun fuel hf, Option.bind_some]

/-- `kernel_vsprintf` の引数。バッファは空のポインタでなく、書式も文字列の引数もその外にあり、出力と NUL が入る大きさがある。 -/
structure FormatInput (mem : Mem) (buf size fmt : Nat) (text : List Byte) (args : List (BitVec 32)) (ps : List Piece) :
    Prop where
  buf_ne_zero : buf ≠ 0
  fmt_string : CString mem fmt text
  fmt_apart : fmt + text.length < buf ∨ buf + size ≤ fmt
  renders : Renders mem buf (buf + size) (directives .normal text) args ps
  fits : (piecesBytes ps).length + 1 ≤ size

theorem FormatInput.scanning {buf size fmt : Nat} {text : List Byte} (h : FormatInput mem buf size fmt text args ps) :
    Scanning buf (buf + size) text .normal fmt ⟨mem, buf, args⟩ ps where
  renders := h.renders
  fmt_string := h.fmt_string
  fmt_apart := h.fmt_apart
  le := Nat.le_refl buf
  fits := by
    have hfits := h.fits
    simp only
    omega

/-- `kernel_vsprintf` は終わり、部品の列の文字列と、残る NUL をちょうど書く。 -/
theorem FormatInput.vsprintf {buf size fmt : Nat} {text : List Byte} (h : FormatInput mem buf size fmt text args ps) :
    ∃ N, ∀ fuel ≥ N, kernelVsprintf fuel mem buf fmt args =
      some (put mem buf (piecesBytes ps ++ terminator ps)) := by
  obtain ⟨N, hN⟩ := h.scanning.ends h.buf_ne_zero
  refine ⟨max N (text.length + 1), fun fuel hf => ?_⟩
  obtain ⟨o', hrun, hmem⟩ := hN fuel (by omega) fuel (by omega)
  rw [kernelVsprintf, hrun, Option.map_some, hmem]

end IdealX86
