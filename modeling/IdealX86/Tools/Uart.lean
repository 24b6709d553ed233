import IdealX86.Lib.Poll
import IdealX86.Tools.Log

/-!
# `log.c`：シリアルポートの 16550

`Tools/Log.lean` では、`COM1_PORT` に書かれるバイトだけを残した。ここでは、その先の 16550 を状態機械で表し、`log_init` の設定と、
送信できるまで待つ `while` も実行する。書かれたバイトは FIFO に入り、ポートの読み書きの合間に、好きな速さで線に送り出される。
-/

namespace IdealX86

def COM1_PORT : Nat := 0x3F8

/-! ## 16550 -/

structure SerialLine where
  /-- ポートを読み書きする直前に送り出されるバイトの数。読み書きの通し番号と、読み出しかどうかで決まる。 -/
  pace : Nat → Bool → Nat
  /-- 状態のレジスタを読むたびの、ほかのビット。 -/
  junk : Nat → Byte

/-- 読み続ければ、いつかは送り出される。 -/
def SerialLine.Live (l : SerialLine) : Prop := ∀ t, ∃ t' ≥ t, 0 < l.pace t' true

/-- 線の上の一つのバイトと、送ったときの速さと形式。 -/
structure Frame where
  data : Byte
  divisor : BitVec 16
  lcr : Byte
  deriving DecidableEq

structure Uart where
  ier : Byte
  fcr : Byte
  lcr : Byte
  mcr : Byte
  dll : Byte
  dlm : Byte
  fifo : List Byte
  wire : List Frame
  clock : Nat

namespace Uart

variable (l : SerialLine) (u : Uart)

def frame (b : Byte) : Frame := ⟨b, u.dlm ++ u.dll, u.lcr⟩

/-- 読み書きの直前に送り出す。折り返しの設定では、線には出ない。 -/
def pass (read : Bool) : Uart :=
  let n := l.pace u.clock read
  { u with fifo := u.fifo.drop n, clock := u.clock + 1
           wire := if u.mcr.getLsbD 4 then u.wire else u.wire ++ (u.fifo.take n).map u.frame }

/-- 送信するバイトを受け取る。FIFO は 16 バイトで、いっぱいなら新しいバイトは失われる。FIFO を使わない設定では、前のバイトが
失われる。 -/
def transmit (v : Byte) : Uart :=
  if u.fcr.getLsbD 0 then
    if u.fifo.length < 16 then { u with fifo := u.fifo ++ [v] } else u
  else { u with fifo := [v] }

/-- ポートへの書き込み。`lcr` のビット 7 が立っていると、初めの二つのポートは速さの設定である。 -/
def outb (port : Nat) (v : Byte) : Uart :=
  let u := u.pass l false
  if port = COM1_PORT then (if u.lcr.getLsbD 7 then { u with dll := v } else u.transmit v)
  else if port = COM1_PORT + 1 then (if u.lcr.getLsbD 7 then { u with dlm := v } else { u with ier := v })
  else if port = COM1_PORT + 2 then { u with fcr := v, fifo := if v.getLsbD 2 then [] else u.fifo }
  else if port = COM1_PORT + 3 then { u with lcr := v }
  else if port = COM1_PORT + 4 then { u with mcr := v }
  else u

/-- 状態のレジスタの読み出し。ほかのポートは読まない。 -/
def inb (port : Nat) : Byte × Uart :=
  let rest := l.junk u.clock &&& 0xDF
  let u := u.pass l true
  (if port = COM1_PORT + 5 then (if u.fifo = [] then rest ||| 0x20 else rest) else 0, u)

end Uart

/-! ## `log.c` -/

section
variable (l : SerialLine)

/-- `log_init` の `outb` の列。 -/
def logInit (u : Uart) : Uart :=
  let u := u.outb l (COM1_PORT + 1) 0x00
  let u := u.outb l (COM1_PORT + 3) 0x80
  let u := u.outb l (COM1_PORT + 0) 0x03
  let u := u.outb l (COM1_PORT + 1) 0x00
  let u := u.outb l (COM1_PORT + 3) 0x03
  let u := u.outb l (COM1_PORT + 2) 0xC7
  u.outb l (COM1_PORT + 4) 0x0F

/-- `while ((inb(COM1_PORT + 5) & 0x20) == 0)`。 -/
def pollSerial (fuel : Nat) (u : Uart) : Option Uart :=
  Lib.poll (Uart.inb l · (COM1_PORT + 5)) (fun v => v &&& 0x20 ≠ 0) fuel u

/-- `while (*p != '\0')`。 -/
def putBytes (fuel : Nat) : List Byte → Uart → Option Uart
  | [], u => some u
  | b :: bs, u => (pollSerial l fuel u).bind fun u => putBytes fuel bs (u.outb l COM1_PORT b)

/-- `log_printf` の、メッセージ `s` の送信。CR と LF の前では待たない。 -/
def sendMessage (fuel : Nat) (s : List Byte) (u : Uart) : Option Uart :=
  (putBytes l fuel (s.takeWhile (· ≠ 0)) u).map fun u => (u.outb l COM1_PORT 13).outb l COM1_PORT 10

def sendMessages (fuel : Nat) : List (List Byte) → Uart → Option Uart
  | [], u => some u
  | s :: ss, u => (sendMessage l fuel s u).bind (sendMessages fuel ss)

end

end IdealX86
