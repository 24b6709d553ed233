import IdealX86.Tools.Klib

/-!
# `loader_32.c`：ELF ファイルの展開

ファイルはすでにメモリの上にあり、`reload_elf_file` は見出しの欄をそこから直接読む。書き込み先が見出しに重なることもあるので、
コードが欄を読むたびにメモリを読み直す。アドレスは 32 ビットで一周する。
-/

namespace IdealX86

def ELF_MAGIC : Byte := 0x7F

def PT_LOAD : BitVec 32 := 1

/-! ## `Elf32_Ehdr` と `Elf32_Phdr` の欄 -/

def eIdent (mem : Mem) (elfHdr k : Nat) : Byte := mem ((elfHdr + k) % 2 ^ 32)
def eEntry (mem : Mem) (elfHdr : Nat) : BitVec 32 := read32 mem (elfHdr + 24)
def ePhoff (mem : Mem) (elfHdr : Nat) : BitVec 32 := read32 mem (elfHdr + 28)
def ePhnum (mem : Mem) (elfHdr : Nat) : BitVec 16 := read16 mem (elfHdr + 44)

def pType (mem : Mem) (phdr : Nat) : BitVec 32 := read32 mem phdr
def pOffset (mem : Mem) (phdr : Nat) : BitVec 32 := read32 mem (phdr + 4)
def pPaddr (mem : Mem) (phdr : Nat) : BitVec 32 := read32 mem (phdr + 12)
def pFilesz (mem : Mem) (phdr : Nat) : BitVec 32 := read32 mem (phdr + 16)
def pMemsz (mem : Mem) (phdr : Nat) : BitVec 32 := read32 mem (phdr + 20)

/-! ## 展開 -/

/-- メモリと、書き込んだアドレスの記録。記録はコードにはなく、どこに書いたかを述べるために添える。 -/
structure LoadState where
  mem : Mem
  written : List Nat

/-- `*dest++ = v` の一回分。 -/
def LoadState.store (s : LoadState) (dest : Nat) (v : Byte) : LoadState :=
  ⟨Function.update s.mem (dest % 2 ^ 32) v, dest % 2 ^ 32 :: s.written⟩

/-- ファイルの中身を写す `for`。`int` の `j` は符号なしの `p_filesz` と比べられるので、`j` は 32 ビットの値そのものでよい。 -/
def copyLoop (phdr : Nat) : Nat → Nat → Nat → Nat → LoadState → LoadState
  | 0, _, _, _, s => s
  | fuel + 1, j, src, dest, s =>
      if j < (pFilesz s.mem phdr).toNat then
        copyLoop phdr fuel (j + 1) (src + 1) (dest + 1) (s.store dest (s.mem (src % 2 ^ 32)))
      else s

/-- 残りに 0 を書く `for`。差 `p_memsz - p_filesz` は 32 ビットで一周する。 -/
def zeroLoop (phdr : Nat) : Nat → Nat → Nat → LoadState → LoadState
  | 0, _, _, s => s
  | fuel + 1, j, dest, s =>
      if j < (pMemsz s.mem phdr - pFilesz s.mem phdr).toNat then
        zeroLoop phdr fuel (j + 1) (dest + 1) (s.store dest 0)
      else s

/-- 一つの見出しの処理。比べる相手は `2 ^ 32` より小さいので、どちらの `for` も `2 ^ 32` 回は回らない。 -/
def loadSegment (fileBuffer phdr : Nat) (s : LoadState) : LoadState :=
  if pType s.mem phdr ≠ PT_LOAD then s
  else
    let s := copyLoop phdr (2 ^ 32) 0 (fileBuffer + (pOffset s.mem phdr).toNat) (pPaddr s.mem phdr).toNat s
    zeroLoop phdr (2 ^ 32) 0 ((pPaddr s.mem phdr).toNat + (pFilesz s.mem phdr).toNat) s

/-- `i` 番目の見出しのアドレス。`Elf32_Phdr` は 32 バイトである。 -/
def phdrAt (mem : Mem) (fileBuffer i : Nat) : Nat := fileBuffer + (ePhoff mem fileBuffer).toNat + 32 * i

/-- 見出しを順に処理する `for`。`e_phnum` は 16 ビットなので、`2 ^ 16` 回は回らない。 -/
def loadLoop (fileBuffer : Nat) : Nat → Nat → LoadState → LoadState
  | 0, _, s => s
  | fuel + 1, i, s =>
      if i < (ePhnum s.mem fileBuffer).toNat then
        loadLoop fileBuffer fuel (i + 1) (loadSegment fileBuffer (phdrAt s.mem fileBuffer i) s)
      else s

/-- ファイルの先頭の四バイトの検査。 -/
def elfMagic (mem : Mem) (fileBuffer : Nat) : Bool :=
  eIdent mem fileBuffer 0 = ELF_MAGIC ∧ eIdent mem fileBuffer 1 = 0x45 ∧
    eIdent mem fileBuffer 2 = 0x4C ∧ eIdent mem fileBuffer 3 = 0x46

def reloadElfFile (fileBuffer : Nat) (s : LoadState) : BitVec 32 × LoadState :=
  if elfMagic s.mem fileBuffer then
    let s := loadLoop fileBuffer (2 ^ 16) 0 s
    (eEntry s.mem fileBuffer, s)
  else (0, s)

end IdealX86
