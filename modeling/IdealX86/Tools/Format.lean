import IdealX86.Tools.Cstring

/-!
# `klib.c`：書式つきの文字列

`kernel_itoa`、`kernel_vsprintf`、`kernel_sprintf` を表す。繰り返しには周の数の上限 `fuel` を与え、その中で終わらないときと、
表の外を引くときと、引数が足りないときは `none` とする。`va_list` は、まだ読んでいない引数の 32 ビットの値の列である。
-/

namespace IdealX86

/-! ## `kernel_itoa` -/

/-- `"FEDCBA9876543210123456789ABCDEF"` の 31 文字。 -/
def numchar : List Byte :=
  "FEDCBA9876543210123456789ABCDEF".toList.map fun c => BitVec.ofNat 8 c.toNat

/-- `numchar[i]`。31 文字の外では `none`。 -/
def numcharAt (i : Int) : Option Byte := if 0 ≤ i then numchar[i.toNat]? else none

/-- 数字を下の桁から書く `do`。抜けたときの `str` も返す。 -/
def itoaDigits (base : Int) : Nat → Mem → Nat → Int → Option (Mem × Nat)
  | 0, _, _, _ => none
  | fuel + 1, mem, str, num => do
      let c ← numcharAt (num.tmod base + 15)
      let mem := Function.update mem str c
      let num := num.tdiv base
      if num ≠ 0 then itoaDigits base fuel mem (str + 1) num else some (mem, str + 1)

/-- `start` から `str` までを反転する `while`。 -/
def itoaReverse : Nat → Mem → Nat → Nat → Option Mem
  | 0, _, _, _ => none
  | fuel + 1, mem, start, str =>
      if start < str then
        let temp := mem start
        let mem := Function.update mem start (mem str)
        itoaReverse fuel (Function.update mem str temp) (start + 1) (str - 1)
      else some mem

/-- `kernel_itoa`。負号は底が 10 のときだけ書く。 -/
def kernelItoa (fuel : Nat) (mem : Mem) (num : Int) (buf : Nat) (base : Int) : Option Mem :=
  if base ≠ 2 ∧ base ≠ 8 ∧ base ≠ 10 ∧ base ≠ 16 then some (Function.update mem buf 0)
  else do
    let start := if num < 0 ∧ base = 10 then buf + 1 else buf
    let mem := if num < 0 ∧ base = 10 then Function.update mem buf 45 else mem
    let (mem, str) ← itoaDigits base fuel mem start num
    itoaReverse fuel (Function.update mem str 0) start (str - 1)

/-! ## `kernel_vsprintf` -/

inductive FmtState where
  | normal
  | readFmt
  deriving DecidableEq

/-- `%s` の `while (len--)`。進んだ `p` も返す。 -/
def vsprintfCopy : Nat → Mem → Nat → Nat → Mem × Nat
  | 0, mem, p, _ => (mem, p)
  | len + 1, mem, p, str => vsprintfCopy len (Function.update mem p (mem str)) (p + 1) (str + 1)

structure Output where
  mem : Mem
  p : Nat
  args : List (BitVec 32)

/-- `%d` と `%x`：`kernel_itoa` の後に、書かれた長さだけ `p` を進める。 -/
def vsprintfNumber (fuel : Nat) (base : Int) (o : Output) : Option Output :=
  match o.args with
  | [] => none
  | num :: args => do
      let mem ← kernelItoa fuel o.mem num.toInt o.p base
      let len ← kernelStrlen fuel mem o.p
      some ⟨mem, o.p + len, args⟩

def vsprintfString (fuel : Nat) (o : Output) : Option Output :=
  match o.args with
  | [] => none
  | str :: args => do
      let len ← kernelStrlen fuel o.mem str.toNat
      let r := vsprintfCopy len o.mem o.p str.toNat
      some ⟨r.1, r.2, args⟩

def vsprintfChar (o : Output) : Option Output :=
  match o.args with
  | [] => none
  | c :: args => some ⟨Function.update o.mem o.p (c.setWidth 8), o.p + 1, args⟩

/-- `READ_FMT` で読んだ文字の働き。`s`、`d`、`c`、`x` のほかは何もしない。 -/
def vsprintfDirective (fuel : Nat) (ch : Byte) (o : Output) : Option Output :=
  if ch = 115 then vsprintfString fuel o
  else if ch = 100 then vsprintfNumber fuel 10 o
  else if ch = 99 then vsprintfChar o
  else if ch = 120 then vsprintfNumber fuel 16 o
  else some o

/-- `while ((ch = *fmt++))`。 -/
def vsprintfLoop (fuel : Nat) : Nat → FmtState → Nat → Output → Option Output
  | 0, _, _, _ => none
  | n + 1, state, fmt, o =>
      let ch := o.mem fmt
      if ch = 0 then some o
      else
        match state with
        | .normal =>
            if ch = 37 then vsprintfLoop fuel n .readFmt (fmt + 1) o
            else vsprintfLoop fuel n .normal (fmt + 1) ⟨Function.update o.mem o.p ch, o.p + 1, o.args⟩
        | .readFmt => (vsprintfDirective fuel ch o).bind (vsprintfLoop fuel n .normal (fmt + 1))

/-- `kernel_vsprintf`。 -/
def kernelVsprintf (fuel : Nat) (mem : Mem) (strBuf fmt : Nat) (args : List (BitVec 32)) : Option Mem :=
  (vsprintfLoop fuel fuel .normal fmt ⟨mem, strBuf, args⟩).map (·.mem)

/-- `kernel_sprintf`。バッファを消す行は注釈になっていて、消さない。 -/
def kernelSprintf (fuel : Nat) (mem : Mem) (buffer fmt : Nat) (args : List (BitVec 32)) : Option Mem :=
  kernelVsprintf fuel mem buffer fmt args

end IdealX86
