import IdealX86.Tools.Lemmas.Vsprintf

/-!
# 書き込む範囲

`kernel_vsprintf` の書き込む範囲は、同じ手順に検査を加えたもので示す：`lo` から `hi` の手前までの外に書くと `none` になる。
-/

namespace IdealX86

open Lib

/-! ## 検査つきの手順 -/

def storeChecked (lo hi : Nat) (mem : Mem) (a : Nat) (c : Byte) : Option Mem :=
  if lo ≤ a ∧ a < hi then some (Function.update mem a c) else none

def itoaDigitsChecked (lo hi : Nat) (base : Int) : Nat → Mem → Nat → Int → Option (Mem × Nat)
  | 0, _, _, _ => none
  | fuel + 1, mem, str, num => do
      let c ← numcharAt (num.tmod base + 15)
      let mem ← storeChecked lo hi mem str c
      let num := num.tdiv base
      if num ≠ 0 then itoaDigitsChecked lo hi base fuel mem (str + 1) num else some (mem, str + 1)

def itoaReverseChecked (lo hi : Nat) : Nat → Mem → Nat → Nat → Option Mem
  | 0, _, _, _ => none
  | fuel + 1, mem, start, str =>
      if start < str then do
        let temp := mem start
        let mem ← storeChecked lo hi mem start (mem str)
        let mem ← storeChecked lo hi mem str temp
        itoaReverseChecked lo hi fuel mem (start + 1) (str - 1)
      else some mem

def kernelItoaChecked (lo hi fuel : Nat) (mem : Mem) (num : Int) (buf : Nat) (base : Int) : Option Mem :=
  if base ≠ 2 ∧ base ≠ 8 ∧ base ≠ 10 ∧ base ≠ 16 then storeChecked lo hi mem buf 0
  else do
    let start := if num < 0 ∧ base = 10 then buf + 1 else buf
    let mem ← if num < 0 ∧ base = 10 then storeChecked lo hi mem buf 45 else some mem
    let (mem, str) ← itoaDigitsChecked lo hi base fuel mem start num
    let mem ← storeChecked lo hi mem str 0
    itoaReverseChecked lo hi fuel mem start (str - 1)

def vsprintfCopyChecked (lo hi : Nat) : Nat → Mem → Nat → Nat → Option (Mem × Nat)
  | 0, mem, p, _ => some (mem, p)
  | len + 1, mem, p, str => do
      let mem ← storeChecked lo hi mem p (mem str)
      vsprintfCopyChecked lo hi len mem (p + 1) (str + 1)

def vsprintfNumberChecked (lo hi fuel : Nat) (base : Int) (o : Output) : Option Output :=
  match o.args with
  | [] => none
  | num :: args => do
      let mem ← kernelItoaChecked lo hi fuel o.mem num.toInt o.p base
      let len ← kernelStrlen fuel mem o.p
      some ⟨mem, o.p + len, args⟩

def vsprintfStringChecked (lo hi fuel : Nat) (o : Output) : Option Output :=
  match o.args with
  | [] => none
  | str :: args => do
      let len ← kernelStrlen fuel o.mem str.toNat
      let r ← vsprintfCopyChecked lo hi len o.mem o.p str.toNat
      some ⟨r.1, r.2, args⟩

def vsprintfCharChecked (lo hi : Nat) (o : Output) : Option Output :=
  match o.args with
  | [] => none
  | c :: args => do
      let mem ← storeChecked lo hi o.mem o.p (c.setWidth 8)
      some ⟨mem, o.p + 1, args⟩

def vsprintfDirectiveChecked (lo hi fuel : Nat) (ch : Byte) (o : Output) : Option Output :=
  if ch = 115 then vsprintfStringChecked lo hi fuel o
  else if ch = 100 then vsprintfNumberChecked lo hi fuel 10 o
  else if ch = 99 then vsprintfCharChecked lo hi o
  else if ch = 120 then vsprintfNumberChecked lo hi fuel 16 o
  else some o

def vsprintfLoopChecked (lo hi fuel : Nat) : Nat → FmtState → Nat → Output → Option Output
  | 0, _, _, _ => none
  | n + 1, state, fmt, o =>
      let ch := o.mem fmt
      if ch = 0 then some o
      else
        match state with
        | .normal =>
            if ch = 37 then vsprintfLoopChecked lo hi fuel n .readFmt (fmt + 1) o
            else do
              let mem ← storeChecked lo hi o.mem o.p ch
              vsprintfLoopChecked lo hi fuel n .normal (fmt + 1) ⟨mem, o.p + 1, o.args⟩
        | .readFmt => do
            let o ← vsprintfDirectiveChecked lo hi fuel ch o
            vsprintfLoopChecked lo hi fuel n .normal (fmt + 1) o

def kernelVsprintfChecked (lo hi fuel : Nat) (mem : Mem) (strBuf fmt : Nat) (args : List (BitVec 32)) : Option Mem :=
  (vsprintfLoopChecked lo hi fuel fuel .normal fmt ⟨mem, strBuf, args⟩).map (·.mem)

variable {mem mem' : Mem} {lo hi fuel : Nat} {ds : List Directive} {args : List (BitVec 32)} {ps : List Piece}
  {o : Output}

theorem storeChecked_eq {a : Nat} (h₁ : lo ≤ a) (h₂ : a < hi) (mem : Mem) (c : Byte) :
    storeChecked lo hi mem a c = some (Function.update mem a c) :=
  if_pos ⟨h₁, h₂⟩

/-! ## `kernel_itoa` の書く範囲 -/

theorem itoaDigits_lt {base num : Int} {str e : Nat} (h : itoaDigits base fuel mem str num = some (mem', e)) :
    str < e := by
  induction fuel generalizing mem str num with
  | zero => simp [itoaDigits] at h
  | succ fuel ih =>
      simp only [itoaDigits, Option.bind_eq_bind, Option.bind_eq_some_iff] at h
      obtain ⟨c, -, h⟩ := h
      split at h
      · have := ih h
        omega
      · cases h
        omega

theorem itoaDigitsChecked_eq {base num : Int} {str e : Nat} (h : itoaDigits base fuel mem str num = some (mem', e))
    (hlo : lo ≤ str) (hhi : e ≤ hi) : itoaDigitsChecked lo hi base fuel mem str num = some (mem', e) := by
  induction fuel generalizing mem str num with
  | zero => simp [itoaDigits] at h
  | succ fuel ih =>
      have hlt := itoaDigits_lt h
      simp only [itoaDigits, Option.bind_eq_bind, Option.bind_eq_some_iff] at h
      obtain ⟨c, hc, h⟩ := h
      simp only [itoaDigitsChecked, hc, Option.bind_eq_bind, Option.bind_some,
        storeChecked_eq hlo (show str < hi by omega)]
      by_cases hnum : num.tdiv base ≠ 0
      · rw [if_pos hnum] at h ⊢
        exact ih h (by omega)
      · rw [if_neg hnum] at h ⊢
        exact h

theorem itoaReverseChecked_eq {start str : Nat} (hlo : lo ≤ start) (hhi : str < hi) (mem : Mem) :
    itoaReverseChecked lo hi fuel mem start str = itoaReverse fuel mem start str := by
  induction fuel generalizing mem start str with
  | zero => rfl
  | succ fuel ih =>
      simp only [itoaReverseChecked, itoaReverse]
      by_cases hlt : start < str
      · rw [if_pos hlt, if_pos hlt, storeChecked_eq hlo (by omega), Option.bind_eq_bind, Option.bind_some,
          storeChecked_eq (by omega) hhi, Option.bind_some]
        exact ih (by omega) (by omega) _
      · rw [if_neg hlt, if_neg hlt]

theorem itoaDigitsChecked_reverse {base start : Nat} {num : Int} (hb : ItoaBase base) (mem : Mem) (hlo : lo ≤ start)
    (hhi : start + (numeralText base num.natAbs).length < hi) (hf : (numeralText base num.natAbs).length ≤ fuel) :
    ((itoaDigitsChecked lo hi base fuel mem start num).bind fun r =>
        (storeChecked lo hi r.1 r.2 0).bind fun mem => itoaReverseChecked lo hi fuel mem start (r.2 - 1)) =
      (itoaDigits base fuel mem start num).bind fun r =>
        itoaReverse fuel (Function.update r.1 r.2 0) start (r.2 - 1) := by
  have hdigits := itoaDigits_eq hb mem start hf
  rw [itoaDigitsChecked_eq hdigits hlo (by omega), hdigits, Option.bind_some, Option.bind_some,
    storeChecked_eq (by omega) hhi, Option.bind_some, itoaReverseChecked_eq hlo (by omega)]

/-- `kernel_itoa` は、表記とその後の NUL の位置に書く。 -/
theorem kernelItoaChecked_eq {base buf : Nat} {num : Int} (hb : ItoaBase base) (mem : Mem) (hlo : lo ≤ buf)
    (hhi : buf + (itoaText base num).length < hi) (hf : (numeralText base num.natAbs).length ≤ fuel) :
    kernelItoaChecked lo hi fuel mem num buf base = kernelItoa fuel mem num buf base := by
  have hten : (base : Int) = 10 ↔ base = 10 := by omega
  rw [itoaText, List.length_append] at hhi
  rw [kernelItoaChecked, kernelItoa, if_neg hb.known, if_neg hb.known]
  simp only [hten]
  by_cases hneg : num < 0 ∧ base = 10
  · rw [if_pos hneg, List.length_singleton] at hhi
    simp only [if_pos hneg, storeChecked_eq hlo (show buf < hi by omega), Option.bind_eq_bind, Option.bind_some]
    exact itoaDigitsChecked_reverse hb _ (by omega) (by omega) hf
  · rw [if_neg hneg, List.length_nil] at hhi
    simp only [if_neg hneg, Option.bind_eq_bind, Option.bind_some]
    exact itoaDigitsChecked_reverse hb _ hlo (by omega) hf

/-! ## 一つの指示の書く範囲 -/

theorem vsprintfNumberChecked_eq {base : Nat} (hb : ItoaBase base) (num : BitVec 32) {p : Nat} (hlo : lo ≤ p)
    (hhi : p + (itoaText base num.toInt).length < hi) (hf : 64 ≤ fuel) :
    vsprintfNumberChecked lo hi fuel base ⟨mem, p, num :: args⟩ = vsprintfNumber fuel base ⟨mem, p, num :: args⟩ := by
  have hlen := length_numeralText_le hb (natAbs_toInt_lt num)
  simp only [vsprintfNumberChecked, vsprintfNumber]
  rw [kernelItoaChecked_eq hb mem hlo hhi (by omega)]

theorem vsprintfCopyChecked_eq {len p str : Nat} (hlo : lo ≤ p) (hhi : p + len ≤ hi) :
    vsprintfCopyChecked lo hi len mem p str = some (vsprintfCopy len mem p str) := by
  induction len generalizing mem p str with
  | zero => rfl
  | succ len ih =>
      rw [vsprintfCopyChecked, vsprintfCopy, storeChecked_eq hlo (by omega), Option.bind_eq_bind, Option.bind_some]
      exact ih (by omega) (by omega)

theorem vsprintfStringChecked_eq {q : BitVec 32} {s : List Byte} (harg : StringArg mem lo hi q s) {p : Nat}
    (hlo : lo ≤ p) (hhi : p + s.length ≤ hi) (hf : s.length < fuel) :
    vsprintfStringChecked lo hi fuel ⟨mem, p, q :: args⟩ = vsprintfString fuel ⟨mem, p, q :: args⟩ := by
  have hlen : kernelStrlen fuel mem q.toNat = some s.length := by
    rcases harg with ⟨rfl, rfl⟩ | ⟨hne, hs, -⟩
    · rfl
    · exact hs.strlen (fun h => hne (BitVec.eq_of_toNat_eq h)) hf
  simp only [vsprintfStringChecked, vsprintfString, hlen, Option.bind_eq_bind, Option.bind_some,
    vsprintfCopyChecked_eq hlo hhi]

theorem vsprintfCharChecked_eq (c : BitVec 32) {p : Nat} (hlo : lo ≤ p) (hhi : p < hi) :
    vsprintfCharChecked lo hi ⟨mem, p, c :: args⟩ = vsprintfChar ⟨mem, p, c :: args⟩ := by
  simp only [vsprintfCharChecked, vsprintfChar, storeChecked_eq hlo hhi, Option.bind_eq_bind, Option.bind_some]

/-- `%` の後の一文字の働きは、`lo` から `hi` の手前までに書く。 -/
theorem vsprintfDirectiveChecked_eq {ch : Byte} (h : Renders o.mem lo hi (directiveOf ch :: ds) o.args ps)
    (hp : lo ≤ o.p) (hfit : o.p + (piecesBytes ps).length < hi) :
    ∃ N, ∀ fuel ≥ N, vsprintfDirectiveChecked lo hi fuel ch o = vsprintfDirective fuel ch o := by
  obtain ⟨mem, p, args⟩ := o
  simp only at h hp hfit
  generalize hd : directiveOf ch = d at h
  unfold directiveOf at hd
  cases h with
  | literal c h' => split_ifs at hd
  | ignored h' =>
      refine ⟨0, fun fuel _ => ?_⟩
      unfold vsprintfDirectiveChecked vsprintfDirective
      split_ifs at hd ⊢
      rfl
  | string q s harg h' =>
      obtain rfl : ch = 115 := by split_ifs at hd; assumption
      rw [piecesBytes_cons, List.length_append, Piece.bytes] at hfit
      exact ⟨s.length + 1, fun fuel hf => vsprintfStringChecked_eq harg hp (by omega) hf⟩
  | decimal num h' =>
      obtain rfl : ch = 100 := by split_ifs at hd; assumption
      rw [piecesBytes_cons, List.length_append, Piece.bytes] at hfit
      exact ⟨64, fun fuel hf => vsprintfNumberChecked_eq itoaBase_ten num hp (by omega) hf⟩
  | hex num h' =>
      obtain rfl : ch = 120 := by split_ifs at hd; assumption
      rw [piecesBytes_cons, List.length_append, Piece.bytes] at hfit
      exact ⟨64, fun fuel hf => vsprintfNumberChecked_eq itoaBase_sixteen num hp (by omega) hf⟩
  | char c h' =>
      obtain rfl : ch = 99 := by split_ifs at hd; assumption
      rw [piecesBytes_cons, List.length_append, Piece.bytes, List.length_singleton] at hfit
      exact ⟨0, fun fuel _ => vsprintfCharChecked_eq c hp (by omega)⟩

/-! ## 走査の書く範囲 -/

/-- 走査は、十分な周の数のもとで、`lo` から `hi` の手前までに書く。 -/
theorem Scanning.checked {text : List Byte} {state : FmtState} {fmt : Nat} (hlo : lo ≠ 0)
    (h : Scanning lo hi text state fmt o ps) :
    ∃ N, ∀ fuel ≥ N, ∀ n, vsprintfLoopChecked lo hi fuel n state fmt o = vsprintfLoop fuel n state fmt o := by
  induction text generalizing state fmt o ps with
  | nil =>
      refine ⟨0, fun fuel _ n => ?_⟩
      obtain _ | n := n
      · rfl
      · simp only [vsprintfLoopChecked, vsprintfLoop, cstring_nil.mp h.fmt_string, ↓reduceIte]
  | cons c text ih =>
      have hr := h.renders
      obtain ⟨hc, hne, -⟩ := cstring_cons.mp h.fmt_string
      cases state with
      | normal =>
          rw [directives] at hr
          by_cases hpct : c = 37
          · rw [if_pos hpct] at hr
            obtain ⟨N, hN⟩ := ih (h.skip hr)
            refine ⟨N, fun fuel hf n => ?_⟩
            obtain _ | n := n
            · rfl
            · simp only [vsprintfLoopChecked, vsprintfLoop, hc, hpct, ↓reduceIte, hN fuel hf n]
          · rw [if_neg hpct] at hr
            cases hr with
            | literal _ hr' =>
                obtain ⟨N, hN⟩ := ih (h.piece hr')
                refine ⟨N, fun fuel hf n => ?_⟩
                obtain _ | n := n
                · rfl
                · have hstore := storeChecked_eq h.le (Nat.lt_of_le_of_lt (Nat.le_add_right _ _) h.fits) o.mem c
                  simp only [vsprintfLoopChecked, vsprintfLoop, hc, hne, hpct, ↓reduceIte, hstore, Option.bind_eq_bind,
                    Option.bind_some]
                  exact hN fuel hf n
      | readFmt =>
          obtain ⟨N₁, hdir⟩ := vsprintfDirectiveChecked_eq hr h.le h.fits
          -- 指示が何も書かなくても、部品を書いても、残りの走査は範囲の中に書く。
          have hrest : ∃ N, ∀ fuel ≥ N, ∀ n, ∀ o' ∈ vsprintfDirective fuel c o,
              vsprintfLoopChecked lo hi fuel n .normal (fmt + 1) o' = vsprintfLoop fuel n .normal (fmt + 1) o' := by
            cases directive_taken hr hlo h.le h.fits with
            | nothing hrun hr' =>
                obtain ⟨N, hN⟩ := ih (h.skip hr')
                refine ⟨N, fun fuel hf n o' ho => ?_⟩
                rw [hrun fuel, Option.mem_some_iff] at ho
                exact ho ▸ hN fuel hf n
            | piece pc ps' args N' hps hrun hr' =>
                subst hps
                obtain ⟨N, hN⟩ := ih (h.piece hr')
                refine ⟨max N N', fun fuel hf n o' ho => ?_⟩
                rw [hrun fuel (by omega), Option.mem_some_iff] at ho
                exact ho ▸ hN fuel (by omega) n
          obtain ⟨N₂, hrest⟩ := hrest
          refine ⟨max N₁ N₂, fun fuel hf n => ?_⟩
          obtain _ | n := n
          · rfl
          · simp only [vsprintfLoopChecked, vsprintfLoop, hc, hne, ↓reduceIte, hdir fuel (by omega), Option.bind_eq_bind]
            exact Option.bind_congr fun o' ho => hrest fuel (by omega) n o' ho

/-- 出力と NUL が入る大きさのバッファの外には、`kernel_vsprintf` は書かない。 -/
theorem FormatInput.vsprintf_checked {buf size fmt : Nat} {text : List Byte}
    (h : FormatInput mem buf size fmt text args ps) :
    ∃ N, ∀ fuel ≥ N, kernelVsprintfChecked buf (buf + size) fuel mem buf fmt args =
      kernelVsprintf fuel mem buf fmt args := by
  obtain ⟨N, hN⟩ := h.scanning.checked h.buf_ne_zero
  refine ⟨N, fun fuel hf => ?_⟩
  rw [kernelVsprintfChecked, kernelVsprintf, hN fuel hf fuel]

end IdealX86
