import IdealX86.Tools.Format

/-!
# `loader_16.c`：数の表示

`int_to_str` は負の数の符号を反転してから数字を書く。C では `-INT_MIN` の値が定まらないので、その値を引数 `overflow` とする。
-/

namespace IdealX86

/-- `-num`。`num` が `INT_MIN` のときは `overflow`。 -/
def negateInt (overflow num : Int) : Int := if num = -2 ^ 31 then overflow else -num

/-- 数字を下の桁から書く `do`。抜けたときの `p` も返す。 -/
def intToStrDigits (base : Int) : Nat → Mem → Nat → Int → Option (Mem × Nat)
  | 0, _, _, _ => none
  | fuel + 1, mem, p, num =>
      let i := num.tmod base
      let mem := Function.update mem p (BitVec.ofInt 8 (if i > 9 then i - 10 + 97 else i + 48))
      let num := num.tdiv base
      if num ≠ 0 then intToStrDigits base fuel mem (p + 1) num else some (mem, p + 1)

/-- `int_to_str`。末尾の `while` は `kernel_itoa` のものと同じであるが、負号の後からではなく `buffer` から反転する。 -/
def intToStr (overflow : Int) (fuel : Nat) (mem : Mem) (num : Int) (buffer : Nat) (base : Int) : Option Mem := do
  let p := if num < 0 then buffer + 1 else buffer
  let mem := if num < 0 then Function.update mem buffer 45 else mem
  let num := if num < 0 then negateInt overflow num else num
  let (mem, p) ← intToStrDigits base fuel mem p num
  itoaReverse fuel (Function.update mem p 0) buffer (p - 1)

end IdealX86
