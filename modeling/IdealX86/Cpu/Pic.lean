import IdealX86.Tools.Klib

/-!
# `irq.c`：割り込みコントローラ

I/O ポートをアドレスからバイトへの関数で表し、ポート `0x21` と `0xA1` を二つのコントローラのマスクとして読む。
-/

namespace IdealX86

abbrev Ports := Nat → Byte

def outb (p : Ports) (port : Nat) (data : Byte) : Ports := Function.update p port data

def inb (p : Ports) (port : Nat) : Byte := p port

def PIC0_ICW1 : Nat := 0x20
def PIC0_ICW2 : Nat := 0x21
def PIC0_ICW3 : Nat := 0x21
def PIC0_ICW4 : Nat := 0x21
def PIC0_IMR : Nat := 0x21

def PIC1_ICW1 : Nat := 0xa0
def PIC1_ICW2 : Nat := 0xa1
def PIC1_ICW3 : Nat := 0xa1
def PIC1_ICW4 : Nat := 0xa1
def PIC1_IMR : Nat := 0xa1

def PIC_ICW1_ICW4 : Byte := 1 <<< 0
def PIC_ICW1_ALWAYS_1 : Byte := 1 <<< 4
def PIC_ICW4_8086 : Byte := 1 <<< 0

def IRQ_PIC_START : Int := 0x20

def initPic (p : Ports) : Ports :=
  let p := outb p PIC0_ICW1 (PIC_ICW1_ALWAYS_1 ||| PIC_ICW1_ICW4)
  let p := outb p PIC0_ICW2 (BitVec.ofInt 8 IRQ_PIC_START)
  let p := outb p PIC0_ICW3 (1 <<< 2)
  let p := outb p PIC0_ICW4 PIC_ICW4_8086
  let p := outb p PIC1_ICW1 (PIC_ICW1_ICW4 ||| PIC_ICW1_ALWAYS_1)
  let p := outb p PIC1_ICW2 (BitVec.ofInt 8 (IRQ_PIC_START + 8))
  let p := outb p PIC1_ICW3 2
  let p := outb p PIC1_ICW4 PIC_ICW4_8086
  let p := outb p PIC0_IMR (0xFF#8 &&& ~~~(1#8 <<< 2))
  outb p PIC1_IMR 0xFF

/-- `int` の式 `1 << n` の値。C が値を定めるのは `n` が 0 から 31 のときだけで、それ以外の値は問わない。 -/
structure ShiftOne where
  val : Int → BitVec 32
  val_natCast : ∀ n : Nat, n < 32 → val n = 1#32 <<< n

/-- x86 の `shl` は、回数の下位 5 ビットだけを使う。 -/
def ShiftOne.shl : ShiftOne where
  val n := 1#32 <<< (n % 32).toNat
  val_natCast n hn := by rw [show ((n : Int) % 32).toNat = n by omega]

variable (sh : ShiftOne)

/-- `uint8_t mask = inb(port) & ~(1 << n)`。 -/
def maskAnd (v : Byte) (n : Int) : Byte := (v.setWidth 32 &&& ~~~sh.val n).setWidth 8

/-- `uint8_t mask = inb(port) | ~(1 << n)`。 -/
def maskOr (v : Byte) (n : Int) : Byte := (v.setWidth 32 ||| ~~~sh.val n).setWidth 8

def irqEnable (p : Ports) (irqNum : Int) : Ports :=
  if irqNum < IRQ_PIC_START then p
  else
    let irqNum := irqNum - IRQ_PIC_START
    if irqNum < 8 then outb p PIC0_IMR (maskAnd sh (inb p PIC0_IMR) irqNum)
    else
      let irqNum := irqNum - 8
      outb p PIC0_IMR (maskAnd sh (inb p PIC1_IMR) irqNum)

/-- `irq_disable`。8 以上の線では、もう一度 `IRQ_PIC_START` を引く。 -/
def irqDisable (p : Ports) (irqNum : Int) : Ports :=
  if irqNum < IRQ_PIC_START then p
  else
    let irqNum := irqNum - IRQ_PIC_START
    if irqNum < 8 then outb p PIC0_IMR (maskOr sh (inb p PIC0_IMR) irqNum)
    else
      let irqNum := irqNum - IRQ_PIC_START
      outb p PIC0_IMR (maskOr sh (inb p PIC1_IMR) irqNum)

/-! ## 呼び出しの列 -/

/-- 割り込みの線。番号は `0x20` から `0x2F` である。 -/
abbrev Line := Fin 16

inductive IrqCall where
  | enable (i : Line)
  | disable (i : Line)
  deriving DecidableEq

namespace IrqCall

def line : IrqCall → Line
  | .enable i => i
  | .disable i => i

def isEnable : IrqCall → Bool
  | .enable _ => true
  | .disable _ => false

def run (p : Ports) : IrqCall → Ports
  | .enable i => irqEnable sh p (IRQ_PIC_START + i.val)
  | .disable i => irqDisable sh p (IRQ_PIC_START + i.val)

end IrqCall

/-- 線 `i` のマスクのビットが落ちている。 -/
def unmasked (p : Ports) (i : Line) : Bool :=
  if i.val < 8 then !(p PIC0_IMR).getLsbD i.val else !(p PIC1_IMR).getLsbD (i.val - 8)

/-- ポートと、線ごとの最後の要求。要求がまだなければ、`init_pic` の残した値とする。 -/
structure Pic where
  ports : Ports
  requested : Line → Bool

def Pic.step (s : Pic) (c : IrqCall) : Option Pic :=
  some ⟨c.run sh s.ports, Function.update s.requested c.line c.isEnable⟩

/-- `init_pic` の直後。 -/
def Pic.init (p : Ports) : Pic := ⟨initPic p, unmasked (initPic p)⟩

end IdealX86
