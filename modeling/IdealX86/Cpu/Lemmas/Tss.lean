import IdealX86.Cpu.Lemmas.Mmu
import IdealX86.Cpu.StubTheorems
import IdealX86.Cpu.Tss

/-!
# TSS の読み書き

TSS に残したレジスタは、そのまま取り出せる。`tss_init` の書いた TSS からは、タスクの初めのレジスタが取り出せる。
-/

namespace IdealX86.Asm

open Lib (Bytes load32 store32 storeWords Holds load32_congr load32_store32_self store32_of_far holds_storeWords
  storeWords_of_far)

variable {mem mem' : Bytes} {tss v : BitVec 32}

/-- アドレス `x` が、`tss` からの TSS の中にある。 -/
def InTss (tss x : BitVec 32) : Prop := (x - tss).toNat < 104

/-! ## 読み出し -/

theorem load32_tss_congr (h : ∀ x, InTss tss x → mem' x = mem x) {k : BitVec 32} (hk : k.toNat + 4 ≤ 104) :
    load32 mem' (tss + k) = load32 mem (tss + k) := by
  refine load32_congr fun i hi => h _ ?_
  have hsub : (tss + k + i - tss).toNat = (k.toNat + i.toNat) % 2 ^ 32 := by bv_omega
  rw [InTss, hsub]
  omega

theorem loadContext_congr (h : ∀ x, InTss tss x → mem' x = mem x) : loadContext mem' tss = loadContext mem tss := by
  have hw : ∀ k : BitVec 32, k.toNat + 4 ≤ 104 → load32 mem' (tss + k) = load32 mem (tss + k) := fun k hk =>
    load32_tss_congr h hk
  simp only [loadContext]
  rw [hw 40 (by decide), hw 44 (by decide), hw 48 (by decide), hw 52 (by decide), hw 56 (by decide), hw 60 (by decide),
    hw 64 (by decide), hw 68 (by decide), hw 72 (by decide), hw 84 (by decide), hw 88 (by decide), hw 92 (by decide),
    hw 76 (by decide), hw 80 (by decide), hw 32 (by decide), hw 36 (by decide)]

/-! ## 残したレジスタ -/

theorem saveWords_length (u : Unspec) (c : Cpu) : (saveWords u c).length = 16 := rfl

/-- TSS に残したレジスタは、次に取り出すときにそのまま戻る。 -/
theorem loadContext_save (u : Unspec) (c : Cpu) (mem : Bytes) (tss : BitVec 32) :
    loadContext (storeWords mem (tss + 32) (saveWords u c)) tss = c.context := by
  have h := holds_storeWords mem (tss + 32) (saveWords u c) (by rw [saveWords_length]; decide)
  generalize storeWords mem (tss + 32) (saveWords u c) = mem' at h ⊢
  simp only [saveWords, Holds, BitVec.add_assoc, BitVec.ofNat_eq_ofNat, BitVec.reduceAdd] at h
  obtain ⟨h₀, h₁, h₂, h₃, h₄, h₅, h₆, h₇, h₈, h₉, h₁₀, h₁₁, h₁₂, h₁₃, h₁₄, h₁₅, -⟩ := h
  simp only [loadContext, Cpu.context, Context.mk.injEq, BitVec.ofNat_eq_ofNat, h₀, h₁, h₂, h₃, h₄, h₅, h₆, h₇, h₈, h₉,
    h₁₀, h₁₁, h₁₂, h₁₃, h₁₄, h₁₅, segWord_setWidth, and_true]
  constructor
  · funext r
    cases r <;> rfl
  · funext s
    cases s <;> rfl

theorem storeWords_save_frame (u : Unspec) (c : Cpu) (mem : Bytes) {tss x : BitVec 32}
    (h : (x - tss).toNat < 32 ∨ 96 ≤ (x - tss).toNat) : storeWords mem (tss + 32) (saveWords u c) x = mem x := by
  refine storeWords_of_far mem _ (by rw [saveWords_length]; decide) ?_
  rw [saveWords_length]
  have hsub : (x - (tss + 32)).toNat = ((x - tss).toNat + 2 ^ 32 - 32) % 2 ^ 32 := by bv_omega
  omega

/-- 切り替えで変わるメモリは、今の TSS の、レジスタの残る部分だけである。 -/
theorem Hw.switchToTss_frame {u : Unspec} {h h' : Hw} {sel : Int} (hs : h.switchToTss u sel = some h') :
    h'.gdtBase = h.gdtBase ∧ (∃ cr3, h'.ctrl = { h.ctrl with cr3 := cr3 }) ∧
      ∀ x, ¬ InTss h.trBase x → h'.cpu.mem x = h.cpu.mem x := by
  rw [Hw.switchToTss, Hw.farJump] at hs
  split at hs
  · obtain rfl := Option.some.inj hs
    refine ⟨rfl, ?_, fun x hx => storeWords_save_frame u _ _ (.inr ?_)⟩
    · dsimp only
      split
      · exact ⟨_, rfl⟩
      · exact ⟨h.ctrl.cr3, rfl⟩
    · rw [InTss] at hx
      omega
  · cases hs

/-! ## `tss_init` -/

theorem load32_store32_field {j k : BitVec 32} (h : 4 ≤ (j - k).toNat ∧ (j - k).toNat ≤ 2 ^ 32 - 4) :
    load32 (store32 mem (tss + k) v) (tss + j) = load32 mem (tss + j) := by
  refine load32_congr fun i hi => store32_of_far mem ?_ v
  have hsub : (tss + j + i - (tss + k)).toNat = ((j - k).toNat + i.toNat) % 2 ^ 32 := by bv_omega
  omega

theorem load32_cleared (mem : Bytes) (h₀ : tss ≠ 0) (hb : tss.toNat + 104 ≤ 2 ^ 32) {k : BitVec 32}
    (hk : k.toNat + 4 ≤ 104) :
    load32 (fun x => kernelMemset (fun i => mem (BitVec.ofNat 32 i)) tss.toNat 0 sizeofTss.toNat x.toNat) (tss + k) =
      0 := by
  have hz : load32 (fun _ => 0) (tss + k) = 0 := by simp [load32]
  have hpos : tss.toNat ≠ 0 := fun he => h₀ (BitVec.eq_of_toNat_eq he)
  have hsize : sizeofTss.toNat = 104 := rfl
  rw [← hz]
  refine load32_congr fun i hi => ?_
  have hadd : (tss + k + i).toNat = tss.toNat + k.toNat + i.toNat := by bv_omega
  rw [kernelMemset_apply hpos (n := sizeofTss.toNat) (by decide), hsize, if_pos (by omega)]

theorem loadContext_tssFields (mem : Bytes) (h₀ : tss ≠ 0) (hb : tss.toNat + 104 ≤ 2 ^ 32) (a : InitArgs) :
    loadContext (tssFields mem tss a) tss = .start a ∧ load32 (tssFields mem tss a) (tss + 28) = 0 := by
  have hz := fun {k : BitVec 32} (hk : k.toNat + 4 ≤ 104) => load32_cleared mem h₀ hb hk
  have hds : (BitVec.ofNat 32 KERNEL_SELECTOR_DS).setWidth 16 = BitVec.ofNat 16 KERNEL_SELECTOR_DS := rfl
  have hcs : (BitVec.ofNat 32 KERNEL_SELECTOR_CS).setWidth 16 = BitVec.ofNat 16 KERNEL_SELECTOR_CS := rfl
  unfold tssFields
  generalize (fun x : BitVec 32 =>
    kernelMemset (fun i => mem (BitVec.ofNat 32 i)) tss.toNat 0 sizeofTss.toNat x.toNat) = cleared at hz ⊢
  constructor
  · simp (disch := decide) only [loadContext, load32_store32_self, load32_store32_field, hz, Context.start,
      Context.mk.injEq, hds, hcs, and_true]
    constructor
    · funext r
      cases r <;> rfl
    · funext s
      cases s <;> rfl
  · simp (disch := decide) only [load32_store32_field, hz]

theorem tssFields_frame (mem : Bytes) (hb : tss.toNat + 104 ≤ 2 ^ 32) (a : InitArgs) {x : BitVec 32}
    (hx : ¬ InTss tss x) : tssFields mem tss a x = mem x := by
  have hfar : ∀ {m : Bytes} {k w : BitVec 32}, k.toNat + 4 ≤ 104 → store32 m (tss + k) w x = m x := by
    intro m k w hk
    refine store32_of_far m ?_ w
    have hsub : (x - (tss + k)).toNat = ((x - tss).toNat + 2 ^ 32 - k.toNat) % 2 ^ 32 := by bv_omega
    rw [InTss] at hx
    omega
  have hsize : sizeofTss.toNat = 104 := rfl
  simp (disch := decide) only [tssFields, hfar]
  have hself : BitVec.ofNat 32 x.toNat = x := by simp
  by_cases h₀ : tss.toNat = 0
  · rw [kernelMemset, if_pos (Or.inl h₀), hself]
  · have hout : ¬ (tss.toNat ≤ x.toNat ∧ x.toNat < tss.toNat + 104) := by
      rintro ⟨h₁, h₂⟩
      have hsub : (x - tss).toNat = x.toNat - tss.toNat := by bv_omega
      rw [InTss, hsub] at hx
      omega
    rw [kernelMemset_apply h₀ (n := sizeofTss.toNat) (by decide), hsize, if_neg hout, hself]

/-! ## アドレスの変換 -/

theorem read32_bytes (mem : Bytes) (a : BitVec 32) :
    read32 (fun x => mem (BitVec.ofNat 32 x)) a.toNat = load32 mem a := by
  have h : ∀ k : Nat, k < 4 → BitVec.ofNat 32 ((a.toNat + k) % 2 ^ 32) = a + BitVec.ofNat 32 k := fun k hk => by
    refine BitVec.eq_of_toNat_eq ?_
    simp
  have h₀ : BitVec.ofNat 32 (a.toNat % 2 ^ 32) = a := by simpa using h 0 (by decide)
  rw [read32, load32]
  simp only [h 3 (by decide), h 2 (by decide), h 1 (by decide), h₀]
  rfl

/-- 最初の 4 MB は、ページディレクトリの最初の項目で変換される。 -/
theorem pdeOf_low (mem : Bytes) (r : Ctrl) {v : BitVec 32} (hv : v.toNat < 2 ^ 22) :
    pdeOf (fun x => mem (BitVec.ofNat 32 x)) r v = load32 mem (r.cr3 >>> 12 <<< 12) := by
  rw [pdeOf, pdeIndex_eq, show v.toNat / 2 ^ 22 = 0 by omega, ← read32_bytes, Nat.mul_zero, Nat.add_zero]

/-- 最初の項目がアドレス 0 からの 4 MB のページを指して、最初の 4 MB がそのまま変換される。 -/
structure LowMapped (mem : Bytes) (r : Ctrl) : Prop where
  paging : r.cr0.getLsbD 31 = true
  large : r.cr4.getLsbD 4 = true
  entry : load32 mem (r.cr3 >>> 12 <<< 12) = 0x83

variable {r : Ctrl}

theorem LowMapped.direct (h : LowMapped mem r) {a : BitVec 32} {n : Nat} (hn : a.toNat + n ≤ 2 ^ 22) :
    Direct mem r a n := by
  intro i hi
  have hlow : (a + BitVec.ofNat 32 i).toNat < 2 ^ 22 := by
    rw [BitVec.toNat_add, BitVec.toNat_ofNat]
    omega
  exact linear_of_large h.paging h.large ((pdeOf_low mem r hlow).trans h.entry) hlow

theorem LowMapped.congr (h : LowMapped mem r)
    (hm : ∀ i : BitVec 32, i.toNat < 4 → mem' (r.cr3 >>> 12 <<< 12 + i) = mem (r.cr3 >>> 12 <<< 12 + i)) :
    LowMapped mem' r :=
  ⟨h.paging, h.large, (load32_congr hm).trans h.entry⟩

/-- 最初の項目がなければ、最初の 4 MB のどのアドレスも変換されない。 -/
theorem not_direct_of_absent (hpg : r.cr0.getLsbD 31 = true)
    (h : present (load32 mem (r.cr3 >>> 12 <<< 12)) = false) {a : BitVec 32} (ha : a.toNat < 2 ^ 22) {n : Nat}
    (hn : 0 < n) : ¬ Direct mem r a n := by
  intro hd
  have hself : translate mem r a = some a := by simpa using hd 0 hn
  have hnone : translate mem r a = none := linear_of_absent hpg ((congrArg present (pdeOf_low mem r ha)).trans h)
  rw [hnone] at hself
  cases hself

end IdealX86.Asm
