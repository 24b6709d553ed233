import IdealX86.Loader.DiskTheorems
import IdealX86.Loader.ElfTheorems
import IdealX86.Cpu.Lemmas.Mmu
import IdealX86.Loader.LoadKernel

/-!
# カーネルの起動の定理

ディスクに整った ELF ファイルがあれば、カーネルは、見出しの言うとおりに置かれ、最初の 4 MB だけが見える状態で、`e_entry` から始まる。
-/

namespace IdealX86

variable {d : Drive} {a : Ata} {r : Ctrl} {s : LoadState} {mem mem' : Mem} {fuel : Nat} {pageDir bootInfo : BitVec 32}

/-! ## 読んだファイル -/

/-- ディスクのセクタ 100 から 599 を、`SYS_KERNEL_ADDR` から置いたメモリ。 -/
def kernelImage (d : Drive) (mem : Mem) : Mem := fun x =>
  if SYS_KERNEL_ADDR ≤ x ∧ x < SYS_KERNEL_ADDR + 512 * 500 then
    ((d.media (100 + (x - SYS_KERNEL_ADDR) / 512)).map fun v => v.toList.getD ((x - SYS_KERNEL_ADDR) % 512) 0).getD 0
  else mem x

theorem DiskRead.kernelImage_eq (h : DiskRead d 100 500 SYS_KERNEL_ADDR mem mem') : mem' = kernelImage d mem := by
  funext x
  rw [kernelImage]
  by_cases hx : SYS_KERNEL_ADDR ≤ x ∧ x < SYS_KERNEL_ADDR + 512 * 500
  · have hlt : (x - SYS_KERNEL_ADDR) % 512 < 512 := Nat.mod_lt _ (by decide)
    obtain ⟨v, hv, hb⟩ := h.bytes ((x - SYS_KERNEL_ADDR) / 512) (by omega)
    have hat : (SYS_KERNEL_ADDR + 512 * ((x - SYS_KERNEL_ADDR) / 512) + (x - SYS_KERNEL_ADDR) % 512) % 2 ^ 32 = x := by
      simp only [SYS_KERNEL_ADDR] at hx ⊢
      omega
    have hbyte := hb ⟨(x - SYS_KERNEL_ADDR) % 512, hlt⟩
    rw [hat] at hbyte
    rw [if_pos hx, hv, hbyte]
    simp [List.getD_eq_getElem?_getD, hlt]
  · rw [if_neg hx]
    refine h.frame x ?_
    rw [span_of_le (by decide)]
    exact hx

/-! ## ページング -/

/-- `page_dir` は初めの値のままで、ファイルの置き場にも、展開される区画にも重ならない。 -/
structure PageDirReady (d : Drive) (mem : Mem) (pageDir : BitVec 32) : Prop where
  aligned : pageDir.toNat % 4096 = 0
  init : ∀ i < PDE_CNT, read32 mem (pageDir.toNat + 4 * i) = pageDirInit i
  file : ∀ x, pageDir.toNat ≤ x → x < pageDir.toNat + 4096 →
    ¬ (SYS_KERNEL_ADDR ≤ x ∧ x < SYS_KERNEL_ADDR + 512 * 500)
  segments : ∀ i, IsLoad (kernelImage d mem) SYS_KERNEL_ADDR i → ∀ x, pageDir.toNat ≤ x → x < pageDir.toNat + 4096 →
    ¬ (segmentAt (kernelImage d mem) SYS_KERNEL_ADDR i).Dest x

theorem shift_aligned {v : BitVec 32} (h : v.toNat % 4096 = 0) : v >>> 12 <<< 12 = v := by
  have hlt := v.isLt
  refine BitVec.eq_of_toNat_eq ?_
  rw [BitVec.toNat_shiftLeft, BitVec.toNat_ushiftRight, Nat.shiftRight_eq_div_pow, Nat.shiftLeft_eq]
  omega

/-- `page_dir` の初めの値のもとでは、最初の 4 MB だけが、同じアドレスに変換される。 -/
theorem linear_enablePageMode (h : ∀ i < PDE_CNT, read32 mem (pageDir.toNat + 4 * i) = pageDirInit i)
    (ha : pageDir.toNat % 4096 = 0) (r : Ctrl) (v : BitVec 32) :
    linear mem (enablePageMode pageDir r) v = if v.toNat < 2 ^ 22 then some v else none := by
  have hpg : (enablePageMode pageDir r).cr0.getLsbD 31 = true := by
    simp [enablePageMode, CR0_PG]
  have hpse : (enablePageMode pageDir r).cr4.getLsbD 4 = true := by
    simp [enablePageMode, CR4_PSE]
  have hdir : ((enablePageMode pageDir r).cr3 >>> 12 <<< 12).toNat = pageDir.toNat :=
    congrArg BitVec.toNat (shift_aligned ha)
  have hidx := pdeIndex_eq v
  have hlt := v.isLt
  have hpde := h (pdeIndex v) (by rw [hidx, PDE_CNT]; omega)
  rw [← hdir] at hpde
  by_cases hv : v.toNat < 2 ^ 22
  · -- 最初の項目は、アドレス 0 からの 4 MB のページを指す。
    rw [if_pos hv]
    refine linear_of_large hpg hpse (hpde.trans ?_) hv
    rw [show pdeIndex v = 0 by omega]
    rfl
  · rw [if_neg hv]
    refine linear_of_absent hpg (congrArg present hpde |>.trans ?_)
    rw [pageDirInit, if_neg (by omega)]
    rfl

/-! ## 起動 -/

theorem PageDirReady.loaded (hp : PageDirReady d mem pageDir)
    (hl : Loaded (kernelImage d mem) mem' SYS_KERNEL_ADDR (ePhnum (kernelImage d mem) SYS_KERNEL_ADDR).toNat) {i : Nat}
    (hi : i < PDE_CNT) : read32 mem' (pageDir.toNat + 4 * i) = pageDirInit i := by
  have hlt := pageDir.isLt
  have hal := hp.aligned
  have hi' := hi
  rw [PDE_CNT] at hi'
  rw [← hp.init i hi]
  refine read32_congr fun k hk => ?_
  rw [Nat.mod_eq_of_lt (by omega), hl.frame _ fun j _ hj => hp.segments j hj _ (by omega) (by omega), kernelImage,
    if_neg (hp.file _ (by omega) (by omega))]

theorem reloadElfFile_of_elfFile {fileBuffer size : Nat} (hf : ElfFile s.mem fileBuffer size) :
    (reloadElfFile fileBuffer s).1 = eEntry s.mem fileBuffer ∧
      Loaded s.mem (reloadElfFile fileBuffer s).2.mem fileBuffer (ePhnum s.mem fileBuffer).toNat := by
  have hh := hf.header
  have hl := loadLoop_loaded hf (Loaded.zero s.mem fileBuffer) (Nat.zero_add _).symm (ePhnum s.mem fileBuffer).isLt.le
  rw [reloadElfFile, if_pos hf.magic]
  exact ⟨hl.read32_eq hf (by omega), hl⟩

/-- `load_kernel` の、ディスクを読んだ後の部分。 -/
def bootFrom (pageDir bootInfo : BitVec 32) (r : Ctrl) (s : LoadState) : BootOutcome :=
  let y := reloadElfFile SYS_KERNEL_ADDR s
  if y.1 = 0 then .error else .entered y.1 bootInfo (enablePageMode pageDir r) y.2

/-- ディスクの読める起動だけが `read_disk` から戻り、その先は読んだファイルで決まる。 -/
theorem loadKernel_some {o : BootOutcome} (ha : a.accepts = true)
    (h : loadKernel d fuel pageDir bootInfo a r s = some o) :
    (∀ k < 500, (d.media (100 + k)).isSome) ∧
      ∃ s', s'.mem = kernelImage d s.mem ∧ o = bootFrom pageDir bootInfo r s' := by
  obtain ⟨⟨a', s'⟩, hd, rfl⟩ := Option.map_eq_some_iff.mp h
  obtain ⟨-, hr, -⟩ := readDisk_some ha hd
  have hr' : DiskRead d 100 500 SYS_KERNEL_ADDR s.mem s'.mem := hr
  refine ⟨fun k hk => ?_, s', hr'.kernelImage_eq, rfl⟩
  obtain ⟨v, hv, -⟩ := hr'.bytes k hk
  rw [hv]
  rfl

variable (r s pageDir bootInfo) in
theorem loadKernel_isSome (ha : a.accepts = true) (hread : ∀ k < 500, (d.media (100 + k)).isSome) :
    ∃ fuel, (loadKernel d fuel pageDir bootInfo a r s).isSome := by
  obtain ⟨F, hF⟩ := readDisk_isSome 100 500 ha (by decide) hread SYS_KERNEL_ADDR s
  exact ⟨F, by rw [loadKernel, Option.isSome_map]; exact hF F le_rfl⟩

/-- `load_kernel` は、どのセクタも読め、ファイルの `e_entry` が 0 でないとき、またそのときに限り、カーネルに飛ぶ。そのとき、入り口は `e_entry` で、
引数は `boot_info` で、どの区画もファイルの言うとおりに置かれ、ほかのアドレスは元のままで、ちょうど最初の 4 MB が同じアドレスで見える。先頭の四バイトの違う
ファイルでは、飛ばない。 -/
theorem loadKernel_enters (d : Drive) (pageDir bootInfo : BitVec 32) (a : Ata) (r : Ctrl) (s : LoadState)
    (ha : a.accepts = true) :
    (ElfFile (kernelImage d s.mem) SYS_KERNEL_ADDR (512 * 500) → PageDirReady d s.mem pageDir →
      ((∃ fuel e b r' s', loadKernel d fuel pageDir bootInfo a r s = some (.entered e b r' s')) ↔
        (∀ k < 500, (d.media (100 + k)).isSome) ∧ eEntry (kernelImage d s.mem) SYS_KERNEL_ADDR ≠ 0) ∧
      ∀ fuel e b r' s', loadKernel d fuel pageDir bootInfo a r s = some (.entered e b r' s') →
        e = eEntry (kernelImage d s.mem) SYS_KERNEL_ADDR ∧ b = bootInfo ∧
          Loaded (kernelImage d s.mem) s'.mem SYS_KERNEL_ADDR (ePhnum (kernelImage d s.mem) SYS_KERNEL_ADDR).toNat ∧
          ∀ v, linear s'.mem r' v = if v.toNat < 2 ^ 22 then some v else none) ∧
    (elfMagic (kernelImage d s.mem) SYS_KERNEL_ADDR = false → ∀ fuel e b r' s',
      loadKernel d fuel pageDir bootInfo a r s ≠ some (.entered e b r' s')) := by
  refine ⟨fun hf hp => ⟨⟨?_, ?_⟩, ?_⟩, ?_⟩
  · rintro ⟨fuel, e, b, r', s', h⟩
    obtain ⟨hread, s₁, hmem, ho⟩ := loadKernel_some ha h
    rw [← hmem] at hf ⊢
    refine ⟨hread, fun he => ?_⟩
    rw [bootFrom, (reloadElfFile_of_elfFile hf).1, if_pos he] at ho
    cases ho
  · rintro ⟨hread, he⟩
    obtain ⟨fuel, h⟩ := loadKernel_isSome r s pageDir bootInfo ha hread
    obtain ⟨o, h⟩ := Option.isSome_iff_exists.mp h
    obtain ⟨-, s₁, hmem, rfl⟩ := loadKernel_some ha h
    rw [← hmem] at hf he
    rw [bootFrom, if_neg (by rw [(reloadElfFile_of_elfFile hf).1]; exact he)] at h
    exact ⟨fuel, _, _, _, _, h⟩
  · intro fuel e b r' s' h
    obtain ⟨-, s₁, hmem, ho⟩ := loadKernel_some ha h
    have hf₁ := hf
    rw [← hmem] at hf₁
    obtain ⟨hret, hl⟩ := reloadElfFile_of_elfFile hf₁
    rw [bootFrom] at ho
    split at ho
    · cases ho
    · cases ho
      rw [hmem] at hl hret
      exact ⟨hret, rfl, hl, linear_enablePageMode (fun i hi => hp.loaded hl hi) hp.aligned r⟩
  · intro hm fuel e b r' s' h
    obtain ⟨-, s₁, hmem, ho⟩ := loadKernel_some ha h
    rw [← hmem] at hm
    have hz : reloadElfFile SYS_KERNEL_ADDR s₁ = (0, s₁) := by rw [reloadElfFile, if_neg (by simp [hm])]
    rw [bootFrom, hz, if_pos rfl] at ho
    cases ho

/-! ## 一つの区画のカーネル -/

def Drive.ofFile (file : List Byte) : Drive where
  media i := if 100 ≤ i ∧ i < 600 then some (Vector.ofFn fun j => file.getD (512 * (i - 100) + j.val) 0) else none
  delay i := i
  junk n := BitVec.ofNat 8 n

theorem kernelImage_ofFile (file : List Byte) (mem : Mem) :
    kernelImage (.ofFile file) mem = fun x =>
      if SYS_KERNEL_ADDR ≤ x ∧ x < SYS_KERNEL_ADDR + 512 * 500 then file.getD (x - SYS_KERNEL_ADDR) 0 else mem x := by
  funext x
  rw [kernelImage]
  by_cases hx : SYS_KERNEL_ADDR ≤ x ∧ x < SYS_KERNEL_ADDR + 512 * 500
  · have hlt : (x - SYS_KERNEL_ADDR) % 512 < 512 := Nat.mod_lt _ (by decide)
    rw [if_pos hx, if_pos hx, Drive.ofFile]
    dsimp only
    rw [if_pos (by omega), Option.map_some, Option.getD_some, Nat.add_sub_cancel_left]
    rw [List.getD_eq_getElem?_getD, List.getElem?_eq_getElem (by simpa using hlt), Option.getD_some]
    simp [Nat.div_add_mod]
  · rw [if_neg hx, if_neg hx]

def smallKernel : List Byte :=
  [0x7F, 0x45, 0x4C, 0x46, 1, 1, 1, 0, 0, 0, 0, 0, 0, 0, 0, 0, 2, 0, 3, 0, 1, 0, 0, 0,
    4, 0, 1, 0, 52, 0, 0, 0, 0, 0, 0, 0, 0, 0, 0, 0, 52, 0, 32, 0, 1, 0, 0, 0, 0, 0, 0, 0,
    1, 0, 0, 0, 84, 0, 0, 0, 0, 0, 1, 0, 0, 0, 1, 0, 6, 0, 0, 0, 8, 0, 0, 0, 7, 0, 0, 0, 0, 0x10, 0, 0,
    0xDE, 0xAD, 0xBE, 0xEF, 0xEB, 0xFE]

/-- `page_dir` を `0x9000` に置いたメモリ。 -/
def loaderMem : Mem := fun x => if x = 0x9000 then 0x83 else 0

def smallImage : Mem := fun x =>
  if SYS_KERNEL_ADDR ≤ x ∧ x < SYS_KERNEL_ADDR + 512 * 500 then smallKernel.getD (x - SYS_KERNEL_ADDR) 0 else loaderMem x

theorem kernelImage_small : kernelImage (.ofFile smallKernel) loaderMem = smallImage := kernelImage_ofFile _ _

theorem isLoad_small {i : Nat} (h : IsLoad smallImage SYS_KERNEL_ADDR i) : i = 0 := by
  have hi := h.1
  rw [show (ePhnum smallImage SYS_KERNEL_ADDR).toNat = 1 by decide +kernel] at hi
  omega

theorem segmentAt_small : segmentAt smallImage SYS_KERNEL_ADDR 0 = ⟨84, 0x10000, 6, 8⟩ := by decide +kernel

theorem pageDirReady_small : PageDirReady (.ofFile smallKernel) loaderMem 0x9000 := by
  have hdir : (0x9000 : BitVec 32).toNat = 0x9000 := rfl
  refine ⟨by decide, fun i hi => ?_, fun x h₁ h₂ => ?_, fun i hi x h₁ h₂ hd => ?_⟩
  · rw [PDE_CNT] at hi
    by_cases h : i = 0
    · subst h
      decide
    · rw [pageDirInit, if_neg h, hdir]
      exact read32_eq_zero fun k hk => if_neg (by omega)
  · rw [hdir] at h₁ h₂
    simp only [SYS_KERNEL_ADDR]
    omega
  · rw [kernelImage_small] at hi hd
    rw [hdir] at h₁ h₂
    rw [isLoad_small hi, segmentAt_small] at hd
    simp only [Segment.Dest] at hd
    omega

theorem elfFile_small : ElfFile smallImage SYS_KERNEL_ADDR (512 * 500) := by
  refine ⟨by decide +kernel, by decide, by decide, by decide +kernel, fun i hi => ?_, fun i j hi hj hne => ?_⟩
  · rw [isLoad_small hi, segmentAt_small]
    refine ⟨by decide, by decide, by decide, fun a h => ?_⟩
    simp only [Segment.Dest, SYS_KERNEL_ADDR] at h ⊢
    omega
  · exact absurd ((isLoad_small hi).trans (isLoad_small hj).symm) hne

/-- 小さなカーネルは、入り口 `0x10004` から始まり、区画のバイトと、それに続く 0 が置かれている。 -/
theorem loadKernel_enters_small :
    ∃ fuel r' s', loadKernel (.ofFile smallKernel) fuel 0x9000 0x8500 .powerOn ⟨0x11, 0, 0⟩ ⟨loaderMem, []⟩ =
        some (.entered 0x10004 0x8500 r' s') ∧
      s'.mem 0x10003 = 0xEF ∧ s'.mem 0x10007 = 0 ∧ linear s'.mem r' 0x10004 = some 0x10004 := by
  have hboot := (loadKernel_enters (.ofFile smallKernel) 0x9000 0x8500 .powerOn ⟨0x11, 0, 0⟩ ⟨loaderMem, []⟩ rfl).1
  dsimp only at hboot
  rw [kernelImage_small] at hboot
  obtain ⟨hiff, hall⟩ := hboot elfFile_small pageDirReady_small
  have hentry : eEntry smallImage SYS_KERNEL_ADDR = 0x10004 := by decide +kernel
  have hread : ∀ k < 500, ((Drive.ofFile smallKernel).media (100 + k)).isSome := by
    intro k hk
    rw [Drive.ofFile]
    dsimp only
    rw [if_pos (by omega)]
    rfl
  obtain ⟨fuel, e, b, r', s', h⟩ := hiff.mpr ⟨hread, by rw [hentry]; decide⟩
  obtain ⟨rfl, rfl, hl, hmap⟩ := hall fuel e b r' s' h
  obtain ⟨hbytes, hzeros⟩ := hl.placed 0 (by decide +kernel) (by decide +kernel)
  rw [segmentAt_small] at hbytes hzeros
  rw [hentry] at h
  exact ⟨fuel, r', s', h, (hbytes 3 (by decide)).trans (by decide +kernel), hzeros 7 (by decide) (by decide),
    (hmap 0x10004).trans (if_pos (by decide))⟩

end IdealX86
