import IdealX86.Cpu.Pic

/-!
# 8259 と割り込みの線

`Cpu/Pic.lean` では、ポートを読み書きできるだけの番地とした。ここでは、その先の二つの 8259 を状態機械で表し、同じ `outb` の列を
受け取らせる。初期化の語は順に受け取られ、同じポートへの書き込みの意味は、受け取った語の数で変わる。
-/

namespace IdealX86

/-- ポートの先にあるもの。 -/
class PortIo (σ : Type) where
  inb : σ → Nat → Byte
  outb : σ → Nat → Byte → σ

instance : PortIo Ports := ⟨inb, outb⟩

/-! ## ポートの先を問わない関数 -/

section
variable {σ : Type} [PortIo σ] (s : σ)

def initPicIo : σ :=
  let s := PortIo.outb s PIC0_ICW1 (PIC_ICW1_ALWAYS_1 ||| PIC_ICW1_ICW4)
  let s := PortIo.outb s PIC0_ICW2 (BitVec.ofInt 8 IRQ_PIC_START)
  let s := PortIo.outb s PIC0_ICW3 (1 <<< 2)
  let s := PortIo.outb s PIC0_ICW4 PIC_ICW4_8086
  let s := PortIo.outb s PIC1_ICW1 (PIC_ICW1_ICW4 ||| PIC_ICW1_ALWAYS_1)
  let s := PortIo.outb s PIC1_ICW2 (BitVec.ofInt 8 (IRQ_PIC_START + 8))
  let s := PortIo.outb s PIC1_ICW3 2
  let s := PortIo.outb s PIC1_ICW4 PIC_ICW4_8086
  let s := PortIo.outb s PIC0_IMR (0xFF#8 &&& ~~~(1#8 <<< 2))
  PortIo.outb s PIC1_IMR 0xFF

def irqEnableIo (sh : ShiftOne) (irqNum : Int) : σ :=
  if irqNum < IRQ_PIC_START then s
  else
    let irqNum := irqNum - IRQ_PIC_START
    if irqNum < 8 then PortIo.outb s PIC0_IMR (maskAnd sh (PortIo.inb s PIC0_IMR) irqNum)
    else
      let irqNum := irqNum - 8
      PortIo.outb s PIC0_IMR (maskAnd sh (PortIo.inb s PIC1_IMR) irqNum)

def PIC0_OCW2 : Nat := 0x20
def PIC1_OCW2 : Nat := 0xa0
def PIC_OCW2_EOI : Byte := 1 <<< 5

def picSendEoi (irqNum : Int) : σ :=
  let s := if irqNum - IRQ_PIC_START ≥ 8 then PortIo.outb s PIC1_OCW2 PIC_OCW2_EOI else s
  PortIo.outb s PIC0_OCW2 PIC_OCW2_EOI

end

theorem initPicIo_ports (p : Ports) : initPicIo p = initPic p := rfl

theorem irqEnableIo_ports (sh : ShiftOne) (p : Ports) (irqNum : Int) : irqEnableIo p sh irqNum = irqEnable sh p irqNum :=
  rfl

/-! ## 一つの 8259 -/

/-- 次にデータのポートで受け取る語。 -/
inductive InitPhase where
  | icw2
  | icw3
  | icw4
  /-- 初期化は済み、マスクを受け取る。 -/
  | ready
  deriving DecidableEq

structure I8259 where
  base : Byte
  imr : Byte
  irr : Fin 8 → Bool
  /-- CPU が受け取り、まだ EOI のない線。 -/
  isr : Fin 8 → Bool
  phase : InitPhase
  single : Bool
  icw4 : Bool
  autoEoi : Bool

namespace I8259

variable (c : I8259)

/-- 優先順位のもっとも高い、サービス中の線を下ろす。 -/
def clearService : I8259 :=
  match (List.finRange 8).find? c.isr with
  | some i => { c with isr := Function.update c.isr i false }
  | none => c

/-- 偶数のポートへの書き込み。ビット 4 の立つ語は ICW1 で、状態を消して初期化を始める。EOI のほかの OCW2 と OCW3 は使わない。 -/
def writeCommand (v : Byte) : I8259 :=
  if v.getLsbD 4 then
    { c with imr := 0, irr := fun _ => false, isr := fun _ => false, phase := .icw2, single := v.getLsbD 1,
             icw4 := v.getLsbD 0, autoEoi := false }
  else if v = PIC_OCW2_EOI then c.clearService
  else c

/-- 奇数のポートへの書き込み。 -/
def writeData (v : Byte) : I8259 :=
  match c.phase with
  | .icw2 =>
      { c with base := v &&& 0xF8, phase := if c.single then (if c.icw4 then .icw4 else .ready) else .icw3 }
  | .icw3 => { c with phase := if c.icw4 then .icw4 else .ready }
  | .icw4 => { c with autoEoi := v.getLsbD 1, phase := .ready }
  | .ready => { c with imr := v }

/-- 要求 `lines` のうち、CPU に伝える線。同じか上の優先順位のサービス中の線があれば、伝えない。 -/
def request (lines : Fin 8 → Bool) : Option (Fin 8) :=
  ((List.finRange 8).find? fun i => lines i && !c.imr.getLsbD i).filter fun i =>
    !(List.finRange 8).any fun j => decide (j ≤ i) && c.isr j

def acknowledge (i : Fin 8) : I8259 :=
  { c with irr := Function.update c.irr i false
           isr := if c.autoEoi then c.isr else Function.update c.isr i true }

def vector (i : Fin 8) : Byte := c.base + BitVec.ofNat 8 i.val

end I8259

/-! ## 二つの 8259 -/

structure PicBus where
  master : I8259
  slave : I8259

namespace PicBus

variable (b : PicBus)

/-- データのポートから読めるのはマスクである。ほかのポートからは読まない。 -/
def inb (port : Nat) : Byte :=
  if port = PIC0_IMR then b.master.imr else if port = PIC1_IMR then b.slave.imr else 0

def outb (port : Nat) (v : Byte) : PicBus :=
  if port = PIC0_ICW1 then { b with master := b.master.writeCommand v }
  else if port = PIC0_IMR then { b with master := b.master.writeData v }
  else if port = PIC1_ICW1 then { b with slave := b.slave.writeCommand v }
  else if port = PIC1_IMR then { b with slave := b.slave.writeData v }
  else b

instance : PortIo PicBus := ⟨inb, outb⟩

/-- 主のコントローラの線。線 2 には、従のコントローラの要求がつながっている。 -/
def lines : Fin 8 → Bool := fun i => if i = 2 then (b.slave.request b.slave.irr).isSome else b.master.irr i

/-- CPU の割り込みの受け取り。番号を返す。 -/
def acknowledge : Option (Byte × PicBus) :=
  match b.master.request b.lines with
  | none => none
  | some i =>
      if i = 2 then
        (b.slave.request b.slave.irr).map fun j =>
          (b.slave.vector j, ⟨b.master.acknowledge 2, b.slave.acknowledge j⟩)
      else some (b.master.vector i, { b with master := b.master.acknowledge i })

def raise (i : Line) : PicBus :=
  if h : i.val < 8 then { b with master := { b.master with irr := Function.update b.master.irr ⟨i.val, h⟩ true } }
  else { b with slave := { b.slave with irr := Function.update b.slave.irr ⟨i.val - 8, by omega⟩ true } }

end PicBus

/-! ## 実行 -/

inductive PicEvent where
  | raise (i : Line)
  | acknowledge
  /-- `do_handler_time` の `pic_send_eoi(IRQ0_TIMER)`。 -/
  | eoi
  deriving DecidableEq

/-- 二つの 8259 と、CPU の受け取った番号の列。新しい番号が前に来る。 -/
structure PicRun where
  bus : PicBus
  vectors : List Byte

def PicRun.step (r : PicRun) : PicEvent → Option PicRun
  | .raise i => some { r with bus := r.bus.raise i }
  | .acknowledge => r.bus.acknowledge.map fun x => ⟨x.2, x.1 :: r.vectors⟩
  | .eoi => some { r with bus := picSendEoi r.bus 0x20 }

/-- `irq_init` の `init_pic` と、`time_init` の `irq_enable(IRQ0_TIMER)` の直後。前の状態は問わない。 -/
def PicRun.boot (sh : ShiftOne) (b : PicBus) : PicRun := ⟨irqEnableIo (initPicIo b) sh 0x20, []⟩

/-! ## 抽象の線 -/

/-- 時計の線。`count` は CPU が受け取った回数である。 -/
structure TimerLine where
  pending : Bool
  inService : Bool
  count : Nat
  deriving DecidableEq

/-- サービス中でなければ、立っている線を CPU が受け取れる。 -/
def TimerLine.step (t : TimerLine) : PicEvent → Option TimerLine
  | .raise i => some (if i = 0 then { t with pending := true } else t)
  | .acknowledge =>
      if t.pending = true ∧ t.inService = false then some ⟨false, true, t.count + 1⟩ else none
  | .eoi => some { t with inService := false }

def PicRun.timer (r : PicRun) : TimerLine := ⟨r.bus.master.irr 0, r.bus.master.isr 0, r.vectors.length⟩

end IdealX86
