import IdealX86.Lib.WordStack
import IdealX86.Cpu.Dump

/-!
# x86 の命令

`start.S` のマクロが使う命令だけの x86 を、32 ビットの保護モードの特権レベル 0 で表す。ソースにもマニュアルにも値の定めのない部分
（積んだセグメントの上位 16 ビット、`add` の後のフラグ、命令の長さ、例外の種類による RF）は `Unspec` の任意の関数とする。
-/

namespace IdealX86.Asm

open Lib (Bytes load32 store32)

inductive Reg where
  | eax | ecx | edx | ebx | esp | ebp | esi | edi
  deriving DecidableEq

inductive Seg where
  | ds | es | fs | gs
  deriving DecidableEq

structure Cpu where
  reg : Reg → BitVec 32
  seg : Seg → BitVec 16
  cs : BitVec 16
  ss : BitVec 16
  eip : BitVec 32
  eflags : BitVec 32
  mem : Bytes

inductive Insn where
  | pushImm (v : BitVec 32)
  | push (r : Reg)
  | pusha
  | popa
  | pushSeg (s : Seg)
  | popSeg (s : Seg)
  /-- `add $n, %esp`。 -/
  | addEsp (n : BitVec 32)
  | call (f : String)
  | iret
  deriving DecidableEq

structure Unspec where
  /-- 積んだセグメントの上位 16 ビット。 -/
  high : Cpu → BitVec 16
  /-- `add` の後のフラグ。 -/
  flags : Cpu → BitVec 32
  len : Insn → BitVec 32
  /-- 割り込みで積む EFLAGS に RF を立てるか。例外の種類による。 -/
  resume : Cpu → Bool

/-- 定めのない部分を 0 とし、どの命令も 1 バイトとする。 -/
def Unspec.zero : Unspec := ⟨fun _ => 0, fun _ => 0, fun _ => 1, fun _ => false⟩

namespace Cpu

variable (c : Cpu)

abbrev esp : BitVec 32 := c.reg .esp

def setReg (r : Reg) (v : BitVec 32) : Cpu := { c with reg := Function.update c.reg r v }

def push (v : BitVec 32) : Cpu := { c.setReg .esp (c.esp - 4) with mem := store32 c.mem (c.esp - 4) v }

def top : BitVec 32 := load32 c.mem c.esp

def drop (n : BitVec 32) : Cpu := c.setReg .esp (c.esp + n)

def segWord (u : Unspec) (s : BitVec 16) : BitVec 32 := u.high c ++ s

/-- `pusha`。積む `esp` は、初めの値である。 -/
def pusha : Cpu :=
  [Reg.eax, .ecx, .edx, .ebx, .esp, .ebp, .esi, .edi].foldl (fun c' r => c'.push (c.reg r)) c

/-- `pop` の後に先頭の語を `r` に入れる。 -/
def pop (r : Reg) : Cpu := (c.drop 4).setReg r c.top

/-- `popa`。`esp` の語は読み飛ばす。 -/
def popa : Cpu :=
  let c := [Reg.edi, .esi, .ebp].foldl pop c
  [Reg.ebx, .edx, .ecx, .eax].foldl pop (c.drop 4)

def popSeg (s : Seg) : Cpu := { c.drop 4 with seg := Function.update c.seg s (c.top.setWidth 16) }

/-- `iret`。同じ特権レベルへ戻る。 -/
def iret : Cpu :=
  let c₁ := { c.drop 4 with eip := c.top }
  let c₂ := { c₁.drop 4 with cs := c₁.top.setWidth 16 }
  { c₂.drop 4 with eflags := c₂.top }

def ret : Cpu := { c.drop 4 with eip := c.top }

end Cpu

/-- C の関数。入ったところの状態から、`ret` した直後の状態を与える。戻らないときは `none` である。 -/
abbrev Callees := String → Cpu → Option Cpu

variable (u : Unspec) (callees : Callees)

/-- 一つの命令。呼んだ関数が戻り先でないところへ移ったときは、続きを問わない。 -/
def Insn.exec (i : Insn) (c : Cpu) : Option Cpu :=
  let next := { c with eip := c.eip + u.len i }
  match i with
  | .pushImm v => some (next.push v)
  | .push r => some (next.push (c.reg r))
  | .pusha => some next.pusha
  | .popa => some next.popa
  | .pushSeg s => some (next.push (c.segWord u (c.seg s)))
  | .popSeg s => some (next.popSeg s)
  | .addEsp n => some { next.drop n with eflags := u.flags c }
  | .call f => (callees f (next.push next.eip)).filter fun c' => c'.eip = next.eip
  | .iret => some c.iret

def exec : List Insn → Cpu → Option Cpu
  | [], c => some c
  | i :: is, c => (i.exec u callees c).bind (exec is)

/-! ## 割り込みの配送 -/

structure GateDesc where
  offset15_0 : BitVec 16
  selector : BitVec 16
  attr : BitVec 16
  offset31_16 : BitVec 16
  deriving DecidableEq

/-- CPU が読む、ゲートの飛び先。 -/
def GateDesc.offset (g : GateDesc) : BitVec 32 := g.offset31_16 ++ g.offset15_0

/-- 割り込みゲートを通るときに落とされる `TF`、`IF`、`NT`、`RF`、`VM`。 -/
def gateFlags : BitVec 32 := 1 <<< 8 ||| 1 <<< 9 ||| 1 <<< 14 ||| 1 <<< 16 ||| 1 <<< 17

/-- 割り込まれた状態。戻った後の命令のために、RF が立つことがある。 -/
def Cpu.interrupted (c : Cpu) : Cpu := { c with eflags := if u.resume c then c.eflags ||| 1 <<< 16 else c.eflags }

/-- ゲート `g` による割り込みの配送。`e` は、CPU が積むエラーコードである。特権レベルは変わらないので、`ss` と `esp` は積まれない。 -/
def deliver (g : GateDesc) (e : Option (BitVec 32)) (c : Cpu) : Cpu :=
  let c := c.interrupted u
  let pushed := ((c.push c.eflags).push (c.segWord u c.cs)).push c.eip
  let pushed := match e with
    | some v => pushed.push v
    | none => pushed
  { pushed with cs := g.selector, eip := g.offset, eflags := c.eflags &&& ~~~gateFlags }

/-! ## 例外フレーム -/

/-- アドレス `p` にある `exception_frame_t`。 -/
def readFrame (mem : Bytes) (p : BitVec 32) : ExceptionFrame where
  gs := load32 mem p
  fs := load32 mem (p + 4)
  es := load32 mem (p + 8)
  ds := load32 mem (p + 12)
  edi := load32 mem (p + 16)
  esi := load32 mem (p + 20)
  ebp := load32 mem (p + 24)
  esp := load32 mem (p + 28)
  ebx := load32 mem (p + 32)
  edx := load32 mem (p + 36)
  ecx := load32 mem (p + 40)
  eax := load32 mem (p + 44)
  num := load32 mem (p + 48)
  errCode := load32 mem (p + 52)
  eip := load32 mem (p + 56)
  cs := load32 mem (p + 60)
  eflags := load32 mem (p + 64)

end IdealX86.Asm
