import IdealX86.Core.Uvm
import IdealX86.Loader.Disk

/-!
# `loader_32.c`：カーネルの起動

`load_kernel` は、ディスクからファイルを読み、展開し、ページングを有効にして、カーネルの入り口に飛ぶ。
-/

namespace IdealX86

def SYS_KERNEL_ADDR : Nat := 1024 * 1024

/-! ## 制御レジスタ -/

/-- `read_cr0`。戻り値は `uint16_t` で、上位 16 ビットは落ちる。 -/
def readCr0 (r : Ctrl) : BitVec 16 := r.cr0.setWidth 16

/-- `read_cr4`。戻り値は `uint16_t` である。 -/
def readCr4 (r : Ctrl) : BitVec 16 := r.cr4.setWidth 16

/-! ## `enable_page_mode` -/

def PDE_P : BitVec 32 := 1 <<< 0
def PDE_W : BitVec 32 := 1 <<< 1
def PDE_PS : BitVec 32 := 1 <<< 7
def CR4_PSE : BitVec 32 := 1 <<< 4
def CR0_PG : BitVec 32 := 1 <<< 31

/-- `enable_page_mode` の `page_dir` の初めの値。関数はこれを書き換えない。 -/
def pageDirInit (i : Nat) : BitVec 32 := if i = 0 then PDE_P ||| PDE_W ||| PDE_PS ||| 0 else 0

/-- `enable_page_mode`。`pageDir` は `page_dir` のアドレスである。 -/
def enablePageMode (pageDir : BitVec 32) (r : Ctrl) : Ctrl :=
  let cr4 : BitVec 32 := (readCr4 r).setWidth 32
  let r := { r with cr4 := cr4 ||| CR4_PSE }
  let r := { r with cr3 := pageDir }
  { r with cr0 := (readCr0 r).setWidth 32 ||| CR0_PG }

/-! ## `load_kernel` -/

inductive BootOutcome where
  /-- `dile_error` から戻らない。 -/
  | error
  /-- `boot_info` のアドレスを渡して、入り口に飛ぶ。 -/
  | entered (kernelEntry bootInfo : BitVec 32) (r : Ctrl) (s : LoadState)

/-- `load_kernel`。`none` は、`read_disk` の待ちが終わらないことを表す。 -/
def loadKernel (d : Drive) (fuel : Nat) (pageDir bootInfo : BitVec 32) (a : Ata) (r : Ctrl) (s : LoadState) :
    Option BootOutcome :=
  (readDisk d fuel 100 500 SYS_KERNEL_ADDR a s).map fun x =>
    let y := reloadElfFile SYS_KERNEL_ADDR x.2
    if y.1 = 0 then .error else .entered y.1 bootInfo (enablePageMode pageDir r) y.2

end IdealX86
