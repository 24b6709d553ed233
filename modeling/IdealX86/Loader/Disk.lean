import IdealX86.Lib.Poll
import IdealX86.Loader.Elf

/-!
# `loader_32.c`：ディスクの読み出し

`read_disk` の相手は、ポート `0x1F0` から `0x1F7` につながるディスクである。ディスクは状態機械で表す。セクタを用意するあいだは
状態のポートに BSY を立て、用意ができると DRQ を立てて、512 バイトを 16 ビットずつ渡す。BSY は、命令を受け取ったときと、セクタの最後の語を
渡したときに、直ちに立つものとする。用意にかかる時間と、意味を持たないビットは、何でもよい。
-/

namespace IdealX86

def SECTOR_SIZE : Nat := 512

/-! ## ディスク -/

structure Drive where
  /-- 番号ごとのセクタの中身。ないセクタと、読めないセクタは `none` である。 -/
  media : Nat → Option (Vector Byte 512)
  /-- そのセクタを用意するあいだに、状態のポートが読まれる回数。 -/
  delay : Nat → Nat
  /-- 状態のポートを読むたびの、意味を持たないビット。 -/
  junk : Nat → Byte

inductive AtaPhase where
  | idle
  /-- セクタを用意している。残りの待ちと、セクタの番号と、それを含めた残りの数と、中身。 -/
  | busy (wait sector left : Nat) (bytes : List Byte)
  | data (sector left : Nat) (bytes : List Byte)
  | failed

/-- ポートから書かれる値。二度書くレジスタは、今の値と前の値を持つ。 -/
structure Ata where
  device : Byte
  count : Byte × Byte
  low : Byte × Byte
  mid : Byte × Byte
  high : Byte × Byte
  phase : AtaPhase
  reads : Nat

def ATA_BSY : Byte := 0x80
def ATA_DRQ : Byte := 0x08
def ATA_ERR : Byte := 0x01

/-- 命令 `READ SECTORS EXT`。 -/
def ATA_READ_EXT : Byte := 0x24

namespace Ata

variable (d : Drive) (a : Ata)

def lba : Nat := (a.high.2 ++ a.mid.2 ++ a.low.2 ++ a.high.1 ++ a.mid.1 ++ a.low.1).toNat

/-- 読むセクタの数。0 は 65536 を表す。 -/
def sectors : Nat :=
  let n := (a.count.2 ++ a.count.1).toNat
  if n = 0 then 65536 else n

/-- セクタ `sector` から残り `left` 個を渡す番になる。 -/
def serve (sector left : Nat) : AtaPhase :=
  if left = 0 then .idle
  else
    match d.media sector with
    | none => .failed
    | some v => .busy (d.delay sector) sector left v.toList

def accepts : Bool :=
  match a.phase with
  | .idle | .failed => true
  | .busy .. | .data .. => false

/-- ポートへの書き込み。命令の途中の書き込みは、受け取られない。命令が実行されるのは、0 番のディスクが番号で指されているときである。 -/
def outb (port : Nat) (v : Byte) : Ata :=
  if !a.accepts then a
  else
    match port with
    | 0x1F2 => { a with count := (v, a.count.1) }
    | 0x1F3 => { a with low := (v, a.low.1) }
    | 0x1F4 => { a with mid := (v, a.mid.1) }
    | 0x1F5 => { a with high := (v, a.high.1) }
    | 0x1F6 => { a with device := v }
    | 0x1F7 =>
        { a with phase := if v = ATA_READ_EXT ∧ a.device &&& 0x50 = 0x40 then serve d a.lba a.sectors else .failed }
    | _ => a

/-- 状態のポート `0x1F7`。 -/
def readStatus : Byte × Ata :=
  let rest := d.junk a.reads &&& 0x76
  match a.phase with
  | .idle => (rest, { a with reads := a.reads + 1 })
  | .busy (n + 1) sector left bytes =>
      (d.junk a.reads ||| ATA_BSY, { a with phase := .busy n sector left bytes, reads := a.reads + 1 })
  | .busy 0 sector left bytes => (rest ||| ATA_DRQ, { a with phase := .data sector left bytes, reads := a.reads + 1 })
  | .data .. => (rest ||| ATA_DRQ, { a with reads := a.reads + 1 })
  | .failed => (rest ||| ATA_ERR, { a with reads := a.reads + 1 })

/-- データのポート `0x1F0`。最後の語を渡すと、次のセクタの番になる。 -/
def inw : BitVec 16 × Ata :=
  match a.phase with
  | .data sector left (lo :: hi :: bytes) =>
      (hi ++ lo,
        { a with phase := if bytes = [] then serve d (sector + 1) (left - 1) else .data sector left bytes })
  | _ => (0, a)

end Ata

/-! ## `read_disk` -/

section
variable (d : Drive)

def diskCommand (sector sectorCount : BitVec 32) (a : Ata) : Ata :=
  let a := a.outb d 0x1F6 0xE0
  let a := a.outb d 0x1F2 ((sectorCount >>> 8).setWidth 8)
  let a := a.outb d 0x1F3 ((sector >>> 24).setWidth 8)
  let a := a.outb d 0x1F4 0
  let a := a.outb d 0x1F5 0
  let a := a.outb d 0x1F2 (sectorCount.setWidth 8)
  let a := a.outb d 0x1F3 (sector.setWidth 8)
  let a := a.outb d 0x1F4 ((sector >>> 8).setWidth 8)
  let a := a.outb d 0x1F5 ((sector >>> 16).setWidth 8)
  a.outb d 0x1F7 0x24

/-- `while ((inb(0x1f7) & 0x88) != 0x8)`。 -/
def pollDisk (fuel : Nat) (a : Ata) : Option Ata :=
  Lib.poll (Ata.readStatus d) (fun v => v &&& 0x88 = 0x8) fuel a

/-- `*data_buf++ = inw(0x1f0)` の `for`。第一の引数は残りの回数である。 -/
def readWords : Nat → Nat → Ata → LoadState → Ata × LoadState
  | 0, _, a, s => (a, s)
  | n + 1, dataBuf, a, s =>
      let r := a.inw d
      readWords n (dataBuf + 2) r.2 ((s.store dataBuf (r.1.setWidth 8)).store (dataBuf + 1) ((r.1 >>> 8).setWidth 8))

/-- `while (sector_count--)`。第一の引数は一つの待ちで状態を読む回数の限りで、第二の引数は残りのセクタの数である。 -/
def readSectors (fuel : Nat) : Nat → Nat → Ata → LoadState → Option (Ata × LoadState)
  | 0, _, a, s => some (a, s)
  | n + 1, dataBuf, a, s =>
      (pollDisk d fuel a).bind fun a =>
        let r := readWords d (SECTOR_SIZE / 2) dataBuf a s
        readSectors fuel n (dataBuf + SECTOR_SIZE) r.1 r.2

/-- `read_disk`。ポインタは `inw` のたびに 2 進むので、セクタごとに `SECTOR_SIZE` 進む。 -/
def readDisk (fuel : Nat) (sector sectorCount : BitVec 32) (buffer : Nat) (a : Ata) (s : LoadState) :
    Option (Ata × LoadState) :=
  readSectors d fuel sectorCount.toNat buffer (diskCommand d sector sectorCount a) s

end

end IdealX86
