import IdealX86.Core.CreateUvmTheorems
import IdealX86.Core.Spaces
import IdealX86.Lib.Run

/-!
# アドレス空間の生成と破棄の定理

アドレス空間は、できたときのカーネルの側の項目を写して持つので、後の書き込みが項目を変えなければ共有が続く。一ページの割り当ては
探索の位置を進めないので、どのアドレス空間にも同じページが渡り、利用者の側が保たれるための条件が決まる。
-/

namespace IdealX86

open Lib

variable {l : SpaceLayout} {i : Nat} {s s' s'' : AllocState}

namespace SpaceLayout

variable (l : SpaceLayout)

/-- `addr_alloc_init` の後の `paddr_alloc`。 -/
def alloc : AddrAlloc := ⟨⟨l.pages, l.bits⟩, l.start, l.size, MEM_PAGE_SIZE⟩

def page (i : Nat) : Nat := l.start + i * MEM_PAGE_SIZE

theorem storage_bound {a : Nat} (ha : l.alloc.Storage a) : l.kernelPageDir + MEM_PAGE_SIZE ≤ a ∧ a < l.start := by
  obtain ⟨h₁, h₂⟩ := ha
  have hd := l.dir_below
  have hs := l.storage_below
  simp only [alloc, PageRange.pages] at h₁ h₂
  omega

theorem dir_bound : l.kernelPageDir + MEM_PAGE_SIZE ≤ l.start := by
  have hd := l.dir_below
  have hs := l.storage_below
  omega

theorem page_bound (hi : i < l.pages) : l.page i + MEM_PAGE_SIZE ≤ 2 ^ 32 := by
  have hb := l.bound
  simp only [page, PageRange.pages, MEM_PAGE_SIZE] at hi ⊢
  omega

end SpaceLayout

/-! ## 割り当て器の状態 -/

/-- 探索の位置は `i` のままで、どのビットも 0 である。 -/
structure AllocReady (l : SpaceLayout) (i : Nat) (s : AllocState) : Prop where
  alloc : s.alloc = l.alloc
  searchIdx : s.searchIdx = i
  zero : BitsZero s.mem l.alloc.bitmap

namespace AllocReady

theorem ok (h : AllocReady l i s) : l.Ok ⟨s, []⟩ :=
  ⟨by rw [h.alloc]; rfl, by rw [h.alloc]; rfl, by rw [h.alloc]; rfl, by rw [h.alloc]; exact h.zero,
    by rw [h.searchIdx]; exact Int.natCast_nonneg i⟩

theorem congr (h : AllocReady l i s) (ha : s'.alloc = s.alloc) (hi : s'.searchIdx = s.searchIdx)
    (hm : ∀ a, l.alloc.Storage a → s'.mem a = s.mem a) : AllocReady l i s' := by
  refine ⟨ha.trans h.alloc, hi.trans h.searchIdx, fun j h₀ hj => ?_⟩
  have hz := h.zero j h₀ hj
  rw [bitmapGetBit_eq_zero] at hz ⊢
  rw [hm _ ⟨by simp [Bitmap.byteAddr], ?_⟩, hz]
  simp only [Bitmap.byteAddr, Bitmap.byteLen]
  omega

theorem allocPage (h : AllocReady l i s) :
    AllocReady l i (addrAllocPage s 1).2 ∧ (addrAllocPage s 1).1 = if i < l.pages then l.page i else 0 := by
  have hst : Arena.step ⟨s, []⟩ (.alloc 1) = some _ := rfl
  have hok := h.ok.step hst
  have halloc : (addrAllocPage s 1).2.alloc = l.alloc := h.alloc
  have hfits : l.Fits ⟨s, []⟩ 1 ↔ i < l.pages := by
    simp only [PageRange.Fits, h.searchIdx]
    omega
  have hzero : BitsZero (addrAllocPage s 1).2.mem l.alloc.bitmap := by
    rw [← halloc]
    exact hok.zero
  split
  next hi =>
      obtain ⟨ha, hidx⟩ := h.ok.alloc_fits (hfits.mpr hi)
      refine ⟨⟨halloc, ?_, hzero⟩, ?_⟩
      · exact hidx.trans (by rw [h.searchIdx]; omega)
      · rw [SpaceLayout.page, ← Int.toNat_natCast i, ← h.searchIdx]
        exact ha
  next hi =>
      obtain ⟨ha, hidx⟩ := h.ok.alloc_not_fits (le_refl 1) (hfits.not.mpr hi)
      refine ⟨⟨halloc, ?_, hzero⟩, ha⟩
      exact hidx.trans (by rw [h.searchIdx]; omega)

theorem allocPage_frame (h : AllocReady l i s) {a : Nat} (ha : ¬ l.alloc.Storage a) :
    (addrAllocPage s 1).2.mem a = s.mem a :=
  addrAllocPage_of_not_storage (le_refl 1) (by rw [h.searchIdx]; exact Int.natCast_nonneg i) (by rwa [h.alloc])

end AllocReady

/-! ## `memory_create_uvm` -/

/-- 範囲にページがあれば、`memory_create_uvm` はいつも `i` 番目のページを新しいディレクトリにする。 -/
theorem AllocReady.create (h : AllocReady l i s) (hi : i < l.pages) :
    (memoryCreateUvm s l.kernelPageDir).1 = l.page i ∧ AllocReady l i (memoryCreateUvm s l.kernelPageDir).2 ∧
      NewDir (addrAllocPage s 1).2.mem (memoryCreateUvm s l.kernelPageDir).2.mem l.kernelPageDir (l.page i) := by
  obtain ⟨hr, hp⟩ := h.allocPage
  rw [if_pos hi] at hp
  have hpos : l.page i ≠ 0 := by
    have := l.start_pos
    rw [SpaceLayout.page]
    omega
  have hdir := l.dir_bound
  have hstart : l.start ≤ l.page i := Nat.le_add_right _ _
  have hbound := l.page_bound hi
  have hnew := newDir_of_apart (addrAllocPage s 1).2.mem hpos hbound (by omega) (Or.inl (hdir.trans hstart))
  simp only [memoryCreateUvm, hp, if_neg hpos]
  generalize createUvmLoop l.kernelPageDir (l.page i) (pdeIndex MEMORY_TASK_BASE) 0
    (kernelMemset (addrAllocPage s 1).2.mem (l.page i) 0 MEM_PAGE_SIZE) = mem at hnew ⊢
  refine ⟨trivial, hr.congr rfl rfl fun a ha => hnew.keeps a (Or.inl ?_), hnew⟩
  have := (l.storage_bound ha).2
  omega

theorem AllocReady.create_fail (h : AllocReady l i s) (hi : ¬ i < l.pages) :
    memoryCreateUvm s l.kernelPageDir = (0, (addrAllocPage s 1).2) := by
  obtain ⟨-, hp⟩ := h.allocPage
  rw [if_neg hi] at hp
  rw [memoryCreateUvm, if_pos hp]

/-! ## `memory_destroy_uvm` -/

/-- `s` から `s'` まで、どのビットも立たず、ビット列の置き場のほかは変わらない。 -/
structure Freed (s s' : AllocState) : Prop where
  alloc : s'.alloc = s.alloc
  searchIdx : s'.searchIdx = s.searchIdx
  zero : BitsZero s.mem s.alloc.bitmap → BitsZero s'.mem s.alloc.bitmap
  frame : ∀ a, ¬ s.alloc.Storage a → s'.mem a = s.mem a

theorem Freed.refl (s : AllocState) : Freed s s := ⟨rfl, rfl, id, fun _ _ => rfl⟩

theorem Freed.trans (h₁ : Freed s s') (h₂ : Freed s' s'') : Freed s s'' := by
  obtain ⟨ha, hi, hz, hf⟩ := h₂
  rw [h₁.alloc] at ha hz hf
  exact ⟨ha, hi.trans h₁.searchIdx, fun h => hz (h₁.zero h), fun a hs => (hf a hs).trans (h₁.frame a hs)⟩

theorem freed_addrFreePage (s : AllocState) (addr : Nat) : Freed s (addrFreePage s addr 1) := by
  refine ⟨rfl, rfl, fun h => bitmapSetBit_zero (by decide) h, fun a hs => ?_⟩
  refine bitmapSetLoop_of_outside _ _ (Int.natCast_nonneg _) ?_
  unfold AddrAlloc.Storage at hs
  omega

theorem freed_destroyPteLoop (n pte : Nat) (s : AllocState) : Freed s (destroyPteLoop n pte s) := by
  induction n generalizing pte s with
  | zero => exact .refl s
  | succ n ih =>
      rw [destroyPteLoop]
      split
      · exact (freed_addrFreePage s _).trans (ih _ _)
      · exact ih _ _

theorem freed_destroyPdeLoop (n pde : Nat) (s : AllocState) : Freed s (destroyPdeLoop n pde s) := by
  induction n generalizing pde s with
  | zero => exact .refl s
  | succ n ih =>
      rw [destroyPdeLoop]
      split
      · exact ((freed_destroyPteLoop _ _ s).trans (freed_addrFreePage _ _)).trans (ih _ _)
      · exact ih _ _

/-- ディレクトリの内容を問わず、破棄はビットを落とすだけである。 -/
theorem freed_memoryDestroyUvm {dir : Nat} (h : memoryDestroyUvm s dir = some s') : Freed s s' := by
  rw [memoryDestroyUvm] at h
  split at h
  · cases h
  · cases h
    exact (freed_destroyPdeLoop _ _ s).trans (freed_addrFreePage _ _)

theorem AllocReady.freed (h : AllocReady l i s) (hf : Freed s s') : AllocReady l i s' := by
  have hz := hf.zero
  rw [h.alloc] at hz
  exact ⟨hf.alloc.trans h.alloc, hf.searchIdx.trans h.searchIdx, hz h.zero⟩

/-! ## 不変条件 -/

namespace Spaces

variable {s s' : Spaces}

structure Inv (l : SpaceLayout) (i : Nat) (s : Spaces) : Prop where
  ready : AllocReady l i s.toAllocState
  /-- 生きているディレクトリは、どれも `i` 番目のページである。 -/
  dirs : ∀ d ∈ s.dirs, i < l.pages ∧ d = l.page i

theorem Inv.create (h : Inv l i s) (hst : s.step l.kernelPageDir .create = some s') : Inv l i s' := by
  rw [Spaces.step] at hst
  cases hst
  by_cases hi : i < l.pages
  · obtain ⟨hp, hr, -⟩ := h.ready.create hi
    refine ⟨hr, fun d hd => ⟨hi, ?_⟩⟩
    simp only [hp] at hd
    split at hd
    · rcases List.mem_cons.mp hd with rfl | hd
      · rfl
      · exact (h.dirs d hd).2
    · exact (h.dirs d hd).2
  · rw [h.ready.create_fail hi]
    exact ⟨h.ready.allocPage.1, h.dirs⟩

theorem destroy_cases {kernelPageDir dir : Nat} (hst : s.step kernelPageDir (.destroy dir) = some s') :
    Freed s.toAllocState s'.toAllocState ∧ s'.dirs = s.dirs.erase dir := by
  rw [Spaces.step] at hst
  split at hst
  · obtain ⟨t, ht, rfl⟩ := Option.map_eq_some_iff.mp hst
    exact ⟨freed_memoryDestroyUvm ht, rfl⟩
  · cases hst

theorem store_cases {kernelPageDir a : Nat} {v : BitVec 32} (hst : s.step kernelPageDir (.store a v) = some s') :
    s.MayStore a ∧ s' = { s with mem := write32 s.mem a v } := by
  rw [Spaces.step] at hst
  split at hst
  next hs => exact ⟨hs, (Option.some.inj hst).symm⟩
  next => cases hst

theorem step_store {kernelPageDir a : Nat} (h : s.MayStore a) (v : BitVec 32) :
    s.step kernelPageDir (.store a v) = some { s with mem := write32 s.mem a v } := if_pos h

theorem Inv.step (h : Inv l i s) {op : SpaceOp} (hst : s.step l.kernelPageDir op = some s') : Inv l i s' := by
  cases op with
  | create => exact h.create hst
  | destroy dir =>
      obtain ⟨hf, hd⟩ := destroy_cases hst
      exact ⟨h.ready.freed hf, fun d hm => h.dirs d (List.mem_of_mem_erase (hd ▸ hm))⟩
  | store a v =>
      obtain ⟨⟨hb, hap⟩, rfl⟩ := store_cases hst
      refine ⟨h.ready.congr rfl rfl fun x hx => write32_of_outside _ _ hb ?_, h.dirs⟩
      rw [h.ready.alloc] at hap
      obtain ⟨h₁, h₂⟩ := hx
      rcases hap with h₃ | h₃ <;> omega

theorem Inv.boot (l : SpaceLayout) (mem : Mem) (i : Nat) : Inv l i (l.boot mem i) :=
  ⟨⟨rfl, rfl, (PageRange.Ok.init mem (Int.natCast_nonneg i)).zero⟩, fun _ hd => absurd hd List.not_mem_nil⟩

/-! ## カーネルの側の共有 -/

/-- 生きているどのアドレス空間も、カーネルの側の項目がカーネルのページディレクトリと同じで、`MEMORY_TASK_BASE` より下のどのアドレスも
同じに変換する。 -/
structure SharesKernel (kernelPageDir : Nat) (s : Spaces) : Prop where
  entries : ∀ d ∈ s.dirs, ∀ j < pdeIndex MEMORY_TASK_BASE, pdeAt s.mem d j = pdeAt s.mem kernelPageDir j
  walks : ∀ d ∈ s.dirs, ∀ v : BitVec 32, v.toNat < MEMORY_TASK_BASE.toNat →
    walk s.mem d v = walk s.mem kernelPageDir v

/-- その歩ができる書き込みなら、生きているアドレス空間とカーネルのページディレクトリの、カーネルの側の項目を変えない。 -/
def KeepsEntries (kernelPageDir : Nat) (s : Spaces) : SpaceOp → Prop
  | .store a v => s.MayStore a → ∀ d ∈ s.dirs, ∀ j < pdeIndex MEMORY_TASK_BASE,
      pdeAt (write32 s.mem a v) d j = pdeAt s.mem d j ∧
        pdeAt (write32 s.mem a v) kernelPageDir j = pdeAt s.mem kernelPageDir j
  | _ => True

theorem SharesKernel.of_entries {kernelPageDir : Nat}
    (h : ∀ d ∈ s.dirs, ∀ j < pdeIndex MEMORY_TASK_BASE, pdeAt s.mem d j = pdeAt s.mem kernelPageDir j) :
    s.SharesKernel kernelPageDir :=
  ⟨h, fun d hd v hv => walk_congr (h d hd _ ((pdeIndex_lt_iff v).mpr hv)) fun _ => rfl⟩

theorem pdeAt_congr {mem mem' : Mem} {d j : Nat} (hd : d + 4 * j + 4 ≤ 2 ^ 32)
    (h : ∀ a, d + 4 * j ≤ a → a < d + 4 * j + 4 → mem' a = mem a) : pdeAt mem' d j = pdeAt mem d j := by
  refine read32_congr fun k hk => ?_
  rw [Nat.mod_eq_of_lt (by omega)]
  exact h _ (by omega) (by omega)

theorem entry_bounds (hi : i < l.pages) {j : Nat} (hj : j < pdeIndex MEMORY_TASK_BASE) :
    4 * j + 4 ≤ 4 * pdeIndex MEMORY_TASK_BASE ∧ l.kernelPageDir + 4 * j + 4 ≤ l.start ∧ l.start ≤ l.page i + 4 * j ∧
      l.page i + 4 * j + 4 ≤ 2 ^ 32 ∧ 4 * j + 4 ≤ MEM_PAGE_SIZE := by
  have hdir := l.dir_bound
  have hpage := l.page_bound hi
  have hstart : l.start ≤ l.page i := Nat.le_add_right _ _
  have hhalf : 4 * pdeIndex MEMORY_TASK_BASE ≤ MEM_PAGE_SIZE := by decide
  omega

theorem SharesKernel.frame (h : s.SharesKernel l.kernelPageDir) (hs : Inv l i s) (hd : ∀ d ∈ s'.dirs, d ∈ s.dirs)
    (hf : ∀ a, ¬ l.alloc.Storage a → s'.mem a = s.mem a) : s'.SharesKernel l.kernelPageDir := by
  refine .of_entries fun d hm j hj => ?_
  obtain ⟨hi, rfl⟩ := hs.dirs d (hd d hm)
  obtain ⟨-, hdir, hstart, hpage, h4⟩ := entry_bounds hi hj
  have hk := h.entries _ (hd _ hm) j hj
  rw [pdeAt_congr hpage fun a h₁ _ => hf a fun hst => ?_, hk,
    pdeAt_congr (by omega) fun a _ h₂ => hf a fun hst => ?_]
  · have := (l.storage_bound hst).1
    omega
  · have := (l.storage_bound hst).2
    omega

theorem SharesKernel.create (h : s.SharesKernel l.kernelPageDir) (hs : Inv l i s)
    (hst : s.step l.kernelPageDir .create = some s') : s'.SharesKernel l.kernelPageDir := by
  have hs' := hs.create hst
  rw [Spaces.step] at hst
  cases hst
  by_cases hi : i < l.pages
  · obtain ⟨-, -, hnew⟩ := hs.ready.create hi
    refine .of_entries fun d hd j hj => ?_
    obtain ⟨-, rfl⟩ := hs'.dirs d hd
    have hdir := l.dir_bound
    have hstart : l.start ≤ l.page i := Nat.le_add_right _ _
    obtain ⟨-, _, -, hpage, h4⟩ := entry_bounds hi hj
    refine (hnew.kernel j hj).trans (Eq.symm ?_)
    exact pdeAt_congr (by omega) fun a _ h₂ => hnew.keeps a (Or.inl (by omega))
  · rw [hs.ready.create_fail hi]
    exact h.frame hs (fun _ hd => hd) fun a ha => hs.ready.allocPage_frame ha

theorem SharesKernel.step (h : s.SharesKernel l.kernelPageDir) (hs : Inv l i s) {op : SpaceOp}
    (hk : s.KeepsEntries l.kernelPageDir op) (hst : s.step l.kernelPageDir op = some s') :
    s'.SharesKernel l.kernelPageDir := by
  cases op with
  | create => exact h.create hs hst
  | destroy dir =>
      obtain ⟨hf, hd⟩ := destroy_cases hst
      exact h.frame hs (fun _ hm => List.mem_of_mem_erase (hd ▸ hm)) fun a ha => hf.frame a (by rwa [hs.ready.alloc])
  | store a v =>
      obtain ⟨hmay, rfl⟩ := store_cases hst
      refine .of_entries fun d hd j hj => ?_
      obtain ⟨hd', hk'⟩ := hk hmay d hd j hj
      exact hd'.trans ((h.entries d hd j hj).trans hk'.symm)

/-- 一語の書き込みは、二つのディレクトリのどちらかに触れないので、両方の項目を同じに変えることはない。 -/
theorem SharesKernel.keepsEntries (h : s.SharesKernel l.kernelPageDir) (hs : Inv l i s) {op : SpaceOp}
    (hnext : ∀ s', s.step l.kernelPageDir op = some s' → s'.SharesKernel l.kernelPageDir) :
    s.KeepsEntries l.kernelPageDir op := by
  cases op with
  | create => trivial
  | destroy dir => trivial
  | store a v =>
      intro hmay d hd j hj
      have hb := hmay.1
      have hold := h.entries d hd j hj
      have hnew : pdeAt (write32 s.mem a v) d j = pdeAt (write32 s.mem a v) l.kernelPageDir j :=
        (hnext _ (step_store hmay v)).entries d hd j hj
      obtain ⟨hi, rfl⟩ := hs.dirs d hd
      obtain ⟨hhalf, hdir, hstart, hpage, h4⟩ := entry_bounds hi hj
      by_cases hlow : a < l.kernelPageDir + 4 * j + 4
      · have hd' : pdeAt (write32 s.mem a v) (l.page i) j = pdeAt s.mem (l.page i) j := by
          have hbelow := l.dir_bound
          have hhalf' : 4 * pdeIndex MEMORY_TASK_BASE + 4 ≤ MEM_PAGE_SIZE := by decide
          exact pdeAt_congr hpage fun x h₁ _ => write32_of_outside _ _ hb (by omega)
        exact ⟨hd', hnew.symm.trans (hd'.trans hold)⟩
      · have hk' : pdeAt (write32 s.mem a v) l.kernelPageDir j = pdeAt s.mem l.kernelPageDir j :=
          pdeAt_congr (by omega) fun x _ h₂ => write32_of_outside _ _ hb (by omega)
        exact ⟨hnew.trans (hk'.trans hold.symm), hk'⟩

/-- 起動からの生成、破棄、書き込みのどの列でも、生きているどのアドレス空間もカーネルの側をカーネルのページディレクトリと共有し続ける
のは、アドレス空間が生きている間のどの書き込みも、二つのディレクトリのカーネルの側の項目を変えないとき、そのときに限る。 -/
theorem uvm_shares_kernel_iff (l : SpaceLayout) (mem : Mem) (i : Nat) (ops : List SpaceOp) :
    Always (Spaces.step l.kernelPageDir) (SharesKernel l.kernelPageDir) (l.boot mem i) ops ↔
      Along (Spaces.step l.kernelPageDir) (KeepsEntries l.kernelPageDir) (l.boot mem i) ops := by
  refine always_iff (I := fun s => Inv l i s ∧ s.SharesKernel l.kernelPageDir) (fun _ h => h.2)
    (fun s op h => h.2.keepsEntries h.1) (fun s op s' h hk hst => ⟨h.1.step hst, h.2.step h.1 hk hst⟩) ops
    ⟨Inv.boot l mem i, .of_entries fun d hd => ?_⟩
  exact absurd hd List.not_mem_nil

/-! ## 利用者の側の分離 -/

/-- その歩が生成なら、生きているアドレス空間の利用者の側の変換は変わらない。 -/
def KeepsUsers (kernelPageDir : Nat) (s : Spaces) : SpaceOp → Prop
  | .create => ∀ d ∈ s.dirs, ∀ v : BitVec 32, MEMORY_TASK_BASE.toNat ≤ v.toNat →
      walk (memoryCreateUvm s.toAllocState kernelPageDir).2.mem d v = walk s.mem d v
  | _ => True

/-- その歩が生成なら、生きているアドレス空間は、利用者の側に何も写していない。 -/
def UsersEmpty (s : Spaces) : SpaceOp → Prop
  | .create => ∀ d ∈ s.dirs, ∀ v : BitVec 32, MEMORY_TASK_BASE.toNat ≤ v.toNat → walk s.mem d v = none
  | _ => True

theorem Inv.keepsUsers_iff (h : Inv l i s) (op : SpaceOp) : s.KeepsUsers l.kernelPageDir op ↔ s.UsersEmpty op := by
  cases op with
  | create =>
      refine forall_congr' fun d => forall_congr' fun hd => forall_congr' fun v => forall_congr' fun hv => ?_
      obtain ⟨hi, rfl⟩ := h.dirs d hd
      rw [(h.ready.create hi).2.2.walk_user hv]
      exact eq_comm
  | destroy dir => exact Iff.rfl
  | store a v => exact Iff.rfl

/-- どの生成も同じページを返すので、実行のどの生成も、生きているアドレス空間の利用者の側を保つのは、どの生成のときにも、生きている
アドレス空間が利用者の側に何も写していないとき、そのときに限る。 -/
theorem uvm_keeps_users_iff (l : SpaceLayout) (mem : Mem) (i : Nat) (ops : List SpaceOp) :
    Along (Spaces.step l.kernelPageDir) (KeepsUsers l.kernelPageDir) (l.boot mem i) ops ↔
      Along (Spaces.step l.kernelPageDir) UsersEmpty (l.boot mem i) ops :=
  along_iff (I := Inv l i) (fun _ op h => h.keepsUsers_iff op) (fun _ _ _ h _ hst => h.step hst) ops
    (Inv.boot l mem i)

/-- 8 ページの範囲。`kernel_page_dir` は `0x12000` に、ビット列は `0x13000` にある。 -/
def eightPages : SpaceLayout :=
  ⟨⟨0x13000, 0x100000, 8 * 4096, by decide, by decide, by decide, by decide⟩, 0x12000, by decide, by decide⟩

/-- アドレス空間を作り、`0x80000000` をページ枠 `0x102000` に写し、もう一度アドレス空間を作る。ページ表は `0x101000` にある。 -/
def mapRun : List SpaceOp :=
  [.create, .store (0x100000 + 4 * 512) 0x00101007, .store 0x101000 0x00102007, .create]

theorem mayStore_eightPages {s : Spaces} (h : Inv eightPages 0 s) {a : Nat} (ha : 0x13001 ≤ a) (hb : a + 4 ≤ 2 ^ 32) :
    s.MayStore a := by
  rw [MayStore, h.ready.alloc]
  exact ⟨hb, .inr ha⟩

theorem eightPages_create {mem : Mem} {s : Spaces}
    (h : (eightPages.boot mem 0).step eightPages.kernelPageDir .create = some s) :
    Inv eightPages 0 s ∧ s.dirs = [0x100000] := by
  have hinv := Inv.boot eightPages mem 0
  obtain ⟨hp, -, -⟩ := hinv.ready.create (show 0 < eightPages.pages by decide)
  refine ⟨hinv.step h, ?_⟩
  rw [Spaces.step] at h
  cases h
  simp only [hp]
  rfl

/-- 写像のある間に作ると、同じページが渡されて消されるので、その写像は失われる。 -/
theorem uvm_keeps_users_iff_mapped :
    ¬ Along (Spaces.step eightPages.kernelPageDir) (KeepsUsers eightPages.kernelPageDir)
      (eightPages.boot (fun _ => 0) 0) mapRun := by
  refine (uvm_keeps_users_iff _ _ _ _).not.mpr fun h => ?_
  obtain ⟨s, hs⟩ : ∃ s, (eightPages.boot (fun _ => 0) 0).step eightPages.kernelPageDir .create = some s := by
    rw [Spaces.step]
    exact ⟨_, rfl⟩
  obtain ⟨hinv, hdirs⟩ := eightPages_create hs
  have h₁ := h.2 s hs
  have hmay : s.MayStore (0x100000 + 4 * 512) := mayStore_eightPages hinv (by decide) (by decide)
  have hinv₂ := hinv.step (step_store hmay 0x00101007)
  have h₂ := h₁.2 _ (step_store hmay 0x00101007)
  have h₃ := h₂.2 _ (step_store (mayStore_eightPages hinv₂ (by decide) (by decide)) 0x00102007)
  have hempty := h₃.1 0x100000 (by rw [hdirs]; exact List.mem_singleton_self _) 0x80000000 (by decide)
  generalize s.mem = mem at hempty
  have hpde : read32 (write32 (write32 mem (0x100000 + 4 * 512) 0x00101007) 0x101000 0x00102007)
      (0x100000 + 4 * 512) = 0x00101007 := by
    rw [read32_congr fun k hk => write32_of_outside _ _ (by decide) (by omega), read32_write32 _ _ (by decide)]
  have hpte : read32 (write32 (write32 mem (0x100000 + 4 * 512) 0x00101007) 0x101000 0x00102007) 0x101000 =
      0x00102007 := read32_write32 _ _ (by decide)
  rw [walk, show pdeIndex 0x80000000 = 512 by decide, hpde] at hempty
  simp only [show present (0x00101007 : BitVec 32) = true by decide, ↓reduceIte,
    show (pdePaddr (0x00101007 : BitVec 32)).toNat + 4 * pteIndex 0x80000000 = 0x101000 by decide, hpte,
    show present (0x00102007 : BitVec 32) = true by decide] at hempty
  cases hempty

end Spaces

end IdealX86
