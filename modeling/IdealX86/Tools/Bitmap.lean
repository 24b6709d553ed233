import IdealX86.Tools.Klib

/-!
# `bitmap.c`

ビットの列は `bits` の指すアドレスから 8 ビットずつ詰めて置かれる。C の `int` は `Int` で表し、桁あふれの起こりうる
`bitmap_byte_count` だけは 32 ビットで計算する。
`bitmap_alloc_nbits` の `static int search_idx` は、呼び出しをまたぐ状態なので引数と結果に出す。
`log_printf` はビット列にも探索の位置にも触れないので省く。
-/

namespace IdealX86

structure Bitmap where
  bitcount : Int
  bits : Nat
  deriving DecidableEq

/-- `bitmap_byte_count`。和は 32 ビットの `int` で一周し、商は 0 の側へ丸める。 -/
def bitmapByteCount (bitcount : Int) : Int := (BitVec.ofInt 32 (bitcount + 7)).toInt.tdiv 8

/-- `bitmap_init`。書き換えたメモリと、できた `bitmap_t` を返す。 -/
def bitmapInit (mem : Mem) (bits : Nat) (bitcount initBit : Int) : Mem × Bitmap :=
  (kernelMemset mem bits (if initBit ≠ 0 then 0xff else 0) (bitmapByteCount bitcount), ⟨bitcount, bits⟩)

/-- ビットの置かれているバイトの数。 -/
def Bitmap.byteLen (b : Bitmap) : Nat := ((b.bitcount + 7) / 8).toNat

/-- ビット `index` の入っているバイトのアドレス。 -/
def Bitmap.byteAddr (b : Bitmap) (index : Int) : Nat := b.bits + (index / 8).toNat

/-- 整数 `1 << (index % 8)` の下位 8 ビット。 -/
def bitMask (index : Int) : Byte := 1#8 <<< (index % 8).toNat

def bitmapGetBit (mem : Mem) (b : Bitmap) (index : Int) : Int :=
  if mem (b.byteAddr index) &&& bitMask index ≠ 0 then 1 else 0

/-- `bitmap_set_bit` の一回分。`bit == 1` のときだけ立て、それ以外の値では落とす。 -/
def bitmapWriteBit (mem : Mem) (b : Bitmap) (index bit : Int) : Mem :=
  if bit = 1 then Function.update mem (b.byteAddr index) (mem (b.byteAddr index) ||| bitMask index)
  else Function.update mem (b.byteAddr index) (mem (b.byteAddr index) &&& ~~~bitMask index)

/-- `bitmap_set_bit` の繰り返し。再帰の引数は残りの回数 `count - i` である。 -/
def bitmapSetLoop (b : Bitmap) (bit : Int) : Nat → Mem → Int → Mem
  | 0, mem, _ => mem
  | n + 1, mem, index =>
      if index < b.bitcount then bitmapSetLoop b bit n (bitmapWriteBit mem b index bit) (index + 1)
      else mem

def bitmapSetBit (mem : Mem) (b : Bitmap) (index count bit : Int) : Mem :=
  bitmapSetLoop b bit count.toNat mem index

/-! ## `bitmap_alloc_nbits` -/

structure Probe where
  i : Int
  searchIdx : Int
  okIdx : Int
  deriving DecidableEq

/-- 内側の `for`。一回ごとに `search_idx` が増えるので、再帰の引数はビット列の残りの長さで足りる。 -/
def bitmapProbe (mem : Mem) (b : Bitmap) (bit count : Int) : Nat → Probe → Probe
  | 0, p => p
  | fuel + 1, p =>
      if p.i < count ∧ p.searchIdx < b.bitcount then
        if bitmapGetBit mem b p.searchIdx ≠ bit then ⟨p.i, p.searchIdx + 1, -1⟩
        else bitmapProbe mem b bit count fuel ⟨p.i + 1, p.searchIdx + 1, p.okIdx⟩
      else p

structure AllocNbits where
  ret : Int
  mem : Mem
  searchIdx : Int

/-- 外側の `while`。見つけた区間には `~bit` を書く。 -/
def bitmapSearch (mem : Mem) (b : Bitmap) (bit count : Int) : Nat → Int → AllocNbits
  | 0, s => ⟨-1, mem, s⟩
  | fuel + 1, s =>
      if s < b.bitcount then
        if bitmapGetBit mem b s ≠ bit then bitmapSearch mem b bit count fuel (s + 1)
        else
          let p := bitmapProbe mem b bit count (b.bitcount - s).toNat ⟨1, s, s⟩
          if p.i ≥ count then ⟨p.okIdx, bitmapSetBit mem b p.okIdx count (~~~bit), p.searchIdx⟩
          else bitmapSearch mem b bit count fuel p.searchIdx
      else ⟨-1, mem, s⟩

/-- `bitmap_alloc_nbits`。外側の一周ごとに `search_idx` が増えるか戻るので、周の数は残りの長さで足りる。 -/
def bitmapAllocNbits (searchIdx : Int) (mem : Mem) (b : Bitmap) (bit count : Int) : AllocNbits :=
  bitmapSearch mem b bit count (b.bitcount - searchIdx).toNat searchIdx

end IdealX86
