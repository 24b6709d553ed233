import IdealX86.Core.KernelTable

/-!
# カーネルのページ表の定理

`create_kernel_table` は、領域の始まりを切り下げ、終わりを切り上げてから割り当てる。`e_text` がページの境界にないと、
コードの最後のページとデータの最初のページが重なり、`ASSERT` に反する。
-/

namespace IdealX86

variable {π : Type} [DecidableEq π] {findPte : BitVec 32 → Option π} {entry : BitVec 32 → π}
  {ptes : π → BitVec 32} {m : MemoryMap}

/-- `find_pte(page_dir, vaddr, 1)` は必ず成功し、ページごとに異なる項目を返す。 -/
structure FindsPte (findPte : BitVec 32 → Option π) (entry : BitVec 32 → π) : Prop where
  found : ∀ v, findPte v = some (entry v)
  entry_eq_iff : ∀ v v', entry v = entry v' ↔ v >>> 12 = v' >>> 12

/-! ## ページの番号 -/

def pageAddr (k : Nat) : BitVec 32 := BitVec.ofNat 32 (k * MEM_PAGE_SIZE)

theorem pageAddr_toNat {k : Nat} (hk : k < 2 ^ 20) : (pageAddr k).toNat = k * MEM_PAGE_SIZE := by
  simp only [pageAddr, BitVec.toNat_ofNat, MEM_PAGE_SIZE]
  omega

theorem pageAddr_add (k i : Nat) : pageAddr k + pageAddr i = pageAddr (k + i) := by
  simp only [pageAddr, Nat.add_mul, BitVec.ofNat_add]

omit [DecidableEq π] in
theorem FindsPte.entry_page_inj (hf : FindsPte findPte entry) {j k : Nat} (hj : j < 2 ^ 20) (hk : k < 2 ^ 20) :
    entry (pageAddr j) = entry (pageAddr k) ↔ j = k := by
  rw [hf.entry_eq_iff]
  constructor
  · intro h
    have h' := congrArg BitVec.toNat h
    simp only [BitVec.toNat_ushiftRight, pageAddr_toNat hj, pageAddr_toNat hk, Nat.shiftRight_eq_div_pow,
      MEM_PAGE_SIZE] at h'
    omega
  · rintro rfl
    rfl

/-! ## 連続するページの割り当て -/

theorem createMapLoop_ok (hf : FindsPte findPte entry) (ptes : π → BitVec 32) (perm : BitVec 32) {k n : Nat} (p : BitVec 32)
    (hk : k + n ≤ 2 ^ 20) (habs : ∀ i < n, present (ptes (entry (pageAddr (k + i)))) = false) :
    ∃ ptes', createMapLoop (fun s v => (findPte v, s)) perm n (pageAddr k) p ⟨ptes, ()⟩ = .returned 0 ⟨ptes', ()⟩ ∧
      (∀ i < n, ptes' (entry (pageAddr (k + i))) = (p + pageAddr i) ||| perm ||| PTE_P) ∧
      ∀ j < 2 ^ 20, j < k ∨ k + n ≤ j → ptes' (entry (pageAddr j)) = ptes (entry (pageAddr j)) := by
  induction n generalizing k p ptes with
  | zero => exact ⟨ptes, rfl, by simp, fun _ _ _ => rfl⟩
  | succ n ih =>
      have hne : ∀ j < 2 ^ 20, j ≠ k → entry (pageAddr j) ≠ entry (pageAddr k) :=
        fun j hj hjk h => hjk ((hf.entry_page_inj hj (by omega)).mp h)
      have h₀ : present (ptes (entry (pageAddr k))) = false := habs 0 (by omega)
      have hnext : pageAddr k + BitVec.ofNat 32 MEM_PAGE_SIZE = pageAddr (k + 1) := by
        rw [← pageAddr_add]
        simp [pageAddr]
      obtain ⟨ptes', hrun, hmap, hrest⟩ := ih (k := k + 1)
        (Function.update ptes (entry (pageAddr k)) (p ||| perm ||| PTE_P)) (p + BitVec.ofNat 32 MEM_PAGE_SIZE) (by omega) (by
          intro i hi
          rw [Function.update_of_ne (hne _ (by omega) (by omega)), show k + 1 + i = k + (i + 1) by omega]
          exact habs (i + 1) (by omega))
      refine ⟨ptes', ?_, ?_, ?_⟩
      · simp only [createMapLoop, hf.found (pageAddr k), h₀, Bool.false_eq_true, ↓reduceIte, hnext]
        exact hrun
      · intro i hi
        cases i with
        | zero =>
            rw [Nat.add_zero, hrest k (by omega) (by omega), Function.update_self]
            simp [pageAddr]
        | succ i =>
            rw [show k + (i + 1) = k + 1 + i by omega, hmap i (by omega), Nat.add_comm i 1, ← pageAddr_add,
              ← BitVec.add_assoc]
            simp [pageAddr]
      · intro j hj hjk
        rw [hrest j hj (by omega), Function.update_of_ne (hne j hj (by omega))]

/-! ## 領域の並び -/

namespace MemoryMap

def first (m : MemoryMap) : Nat := m.vstart.toNat / MEM_PAGE_SIZE

def count (m : MemoryMap) : Nat := m.pageCount.toNat

theorem first_lt (m : MemoryMap) : m.first < 2 ^ 20 := by
  have := m.vstart.isLt
  simp only [first, MEM_PAGE_SIZE]
  omega

theorem vfirst_eq (m : MemoryMap) : m.vfirst = pageAddr m.first := by
  apply BitVec.eq_of_toNat_eq
  rw [pageAddr_toNat m.first_lt, vfirst, down2_page_toNat, first]

theorem count_eq (hv : m.vend.toNat + MEM_PAGE_SIZE < 2 ^ 31) (hs : m.vstart.toNat < 2 ^ 31) :
    m.count = (m.vend.toNat + (MEM_PAGE_SIZE - 1)) / MEM_PAGE_SIZE - m.first := by
  have hu := up2_page_toNat m.vend (by simp only [MEM_PAGE_SIZE] at hv ⊢; omega)
  have hd : m.vfirst.toNat = m.first * MEM_PAGE_SIZE := by rw [vfirst_eq, pageAddr_toNat m.first_lt]
  have hf : m.first = m.vstart.toNat / MEM_PAGE_SIZE := rfl
  simp only [MEM_PAGE_SIZE] at hv hu hd hf
  rw [count, pageCount, BitVec.toInt_eq_toNat_of_lt (by simp only [MEM_PAGE_SIZE]; omega),
    BitVec.toInt_eq_toNat_of_lt (by omega)]
  simp only [MEM_PAGE_SIZE]
  rw [hu, hd]
  have hmul : (((m.vend.toNat + (4096 - 1)) / 4096 * 4096 : Nat) : Int) - ((m.first * 4096 : Nat) : Int) =
      (((m.vend.toNat + (4096 - 1)) / 4096 : Nat) - (m.first : Int)) * (4096 : Nat) := by
    omega
  rw [hmul, Int.mul_tdiv_cancel _ (by decide)]
  omega

def pages (m : MemoryMap) : Nat × Nat := (m.first, m.first + m.count)

theorem pages_eq {s e : Nat} (hs : m.vstart.toNat = s) (he : m.vend.toNat = e) (hlt : e < 2 ^ 30) (hse : s ≤ e + 1) :
    m.pages = (s / 4096, (e + 4095) / 4096) := by
  have hc := m.count_eq (by simp only [MEM_PAGE_SIZE]; omega) (by omega)
  have hf : m.first = s / 4096 := by rw [first, hs]; rfl
  simp only [MEM_PAGE_SIZE, he] at hc
  rw [pages, hc, hf]
  congr 1
  omega

/-- 二つの領域は、ページを共有しない。 -/
def Apart (m m' : MemoryMap) : Prop := m.first + m.count ≤ m'.first ∨ m'.first + m'.count ≤ m.first

/-- 領域に掛かるどのページも、ページの境界へ切り下げた `pstart` から同じだけ離れたページ枠に、`perm | PTE_P` の許可で
割り当てられている。 -/
def Mapped (entry : BitVec 32 → π) (ptes : π → BitVec 32) (m : MemoryMap) : Prop :=
  ∀ k, m.vstart.toNat / MEM_PAGE_SIZE ≤ k → k < (m.vend.toNat + (MEM_PAGE_SIZE - 1)) / MEM_PAGE_SIZE →
    ptePaddr (ptes (entry (pageAddr k))) =
        down2 m.pstart (BitVec.ofNat 32 MEM_PAGE_SIZE) + pageAddr (k - m.vstart.toNat / MEM_PAGE_SIZE) ∧
      pteFlags (ptes (entry (pageAddr k))) = m.perm ||| PTE_P

end MemoryMap

/-- ページを共有しない領域の並びは、すべて割り当てられる。 -/
theorem createTableLoop_ok (hf : FindsPte findPte entry) (ptes : π → BitVec 32) {ms : List MemoryMap}
    (hfit : ∀ m ∈ ms, m.first + m.count ≤ 2 ^ 20) (hd : ms.Pairwise MemoryMap.Apart)
    (habs : ∀ m ∈ ms, ∀ i < m.count, present (ptes (entry (pageAddr (m.first + i)))) = false) :
    ∃ ptes', createTableLoop findPte ms ptes = some ptes' ∧
      (∀ m ∈ ms, ∀ i < m.count,
        ptes' (entry (pageAddr (m.first + i))) = (m.pstart + pageAddr i) ||| m.perm ||| PTE_P) ∧
      ∀ j < 2 ^ 20, (∀ m ∈ ms, j < m.first ∨ m.first + m.count ≤ j) →
        ptes' (entry (pageAddr j)) = ptes (entry (pageAddr j)) := by
  induction ms generalizing ptes with
  | nil => exact ⟨ptes, rfl, by simp, fun _ _ _ => rfl⟩
  | cons m ms ih =>
      obtain ⟨hm, hms⟩ := List.pairwise_cons.mp hd
      have hfm := hfit m (by simp)
      obtain ⟨ptes₁, hrun₁, hmap₁, hrest₁⟩ :=
        createMapLoop_ok hf ptes m.perm m.pstart hfm (habs m (by simp))
      obtain ⟨ptes₂, hrun₂, hmap₂, hrest₂⟩ := ih ptes₁ (fun m' hm' => hfit m' (by simp [hm'])) hms (by
        intro m' hm' i hi
        have hfit' := hfit m' (by simp [hm'])
        have hap := hm m' hm'
        simp only [MemoryMap.Apart] at hap
        rw [hrest₁ _ (by omega) (by omega)]
        exact habs m' (by simp [hm']) i hi)
      refine ⟨ptes₂, ?_, ?_, ?_⟩
      · simp only [MemoryMap.count] at hrun₁
        simp only [createTableLoop, memoryCreateMap, memoryCreateMapFrom, m.vfirst_eq, hrun₁]
        exact hrun₂
      · intro m' hm' i hi
        rcases List.mem_cons.mp hm' with rfl | hm'
        · -- 後の領域は、このページに触れない。
          rw [hrest₂ _ (by omega), hmap₁ i hi]
          intro m'' hm''
          have hap := hm m'' hm''
          simp only [MemoryMap.Apart] at hap
          omega
        · exact hmap₂ m' hm' i hi
      · intro j hj hout
        rw [hrest₂ j hj (fun m' hm' => hout m' (by simp [hm'])), hrest₁ j hj (hout m (by simp))]

/-- 最初のページがすでに割り当てられている領域では、`ASSERT` に反する。 -/
theorem createTableLoop_panics (hf : FindsPte findPte entry) {ms : List MemoryMap} (hc : 0 < m.count)
    (hp : present (ptes (entry (pageAddr m.first))) = true) : createTableLoop findPte (m :: ms) ptes = none := by
  obtain ⟨n, hn⟩ : ∃ n, m.pageCount.toNat = n + 1 := ⟨m.count - 1, by simp only [MemoryMap.count] at hc ⊢; omega⟩
  simp [createTableLoop, hn, memoryCreateMap, memoryCreateMapFrom, createMapLoop, hf.found, m.vfirst_eq, hp]

theorem createTableLoop_append (ms ms' : List MemoryMap) (ptes : π → BitVec 32) :
    createTableLoop findPte (ms ++ ms') ptes =
      (createTableLoop findPte ms ptes).bind (createTableLoop findPte ms') := by
  induction ms generalizing ptes with
  | nil => rfl
  | cons m ms ih =>
      simp only [List.cons_append, createTableLoop]
      split
      · exact ih _
      · rfl

/-! ## 項目の値 -/

/-- ページの境界にあるアドレスの下位 12 ビットは 0 である。 -/
theorem getLsbD_of_aligned {p : BitVec 32} (hp : p.toNat % MEM_PAGE_SIZE = 0) {i : Nat} (hi : i < 12) :
    p.getLsbD i = false := by
  rw [BitVec.getLsbD, Nat.testBit_eq_decide_div_mod_eq]
  have hdvd : 2 ^ (i + 1) ∣ p.toNat :=
    (pow_dvd_pow 2 (by omega : i + 1 ≤ 12)).trans (Nat.dvd_of_mod_eq_zero hp)
  obtain ⟨q, hq⟩ := hdvd
  rw [hq, Nat.pow_succ, Nat.mul_assoc, Nat.mul_div_cancel_left _ (Nat.two_pow_pos i)]
  simp

theorem pte_of_aligned {p f : BitVec 32} (hp : p.toNat % MEM_PAGE_SIZE = 0) (hf : f.toNat < 2 ^ 12) :
    ptePaddr (p ||| f) = p ∧ pteFlags (p ||| f) = f := by
  have hlow : ∀ i, 12 ≤ i → f.getLsbD i = false := fun i hi =>
    Nat.testBit_lt_two_pow (hf.trans_le (Nat.pow_le_pow_right (by decide) hi))
  have hmask : ∀ i < 32, (0xFFF#32).getLsbD i = decide (i < 12) := by decide
  constructor <;> refine BitVec.eq_of_getLsbD_eq fun i hi => ?_
  · simp only [ptePaddr, BitVec.getLsbD_shiftLeft, BitVec.getLsbD_ushiftRight, BitVec.getLsbD_or]
    by_cases h : i < 12
    · simp [h, getLsbD_of_aligned hp h]
    · rw [show 12 + (i - 12) = i by omega, hlow i (by omega)]
      simp [h, hi]
  · simp only [pteFlags, BitVec.ofNat_eq_ofNat, BitVec.getLsbD_and, BitVec.getLsbD_or, hmask i hi]
    by_cases h : i < 12
    · simp [h, getLsbD_of_aligned hp h]
    · simp [h, hlow i (by omega)]

omit [DecidableEq π] in
theorem MemoryMap.mapped_of_aligned (hv : m.vend.toNat + MEM_PAGE_SIZE < 2 ^ 31) (hs : m.vstart.toNat < 2 ^ 31)
    (hp : m.pstart.toNat % MEM_PAGE_SIZE = 0) (hf : (m.perm ||| PTE_P).toNat < 2 ^ 12)
    (hm : ∀ i < m.count, ptes (entry (pageAddr (m.first + i))) = (m.pstart + pageAddr i) ||| m.perm ||| PTE_P) :
    m.Mapped entry ptes := by
  intro k hk hlt
  obtain ⟨i, rfl⟩ := Nat.exists_eq_add_of_le hk
  have hi : i < m.count := by
    rw [m.count_eq hv hs, first]
    omega
  have hadd : (m.pstart + pageAddr i).toNat % MEM_PAGE_SIZE = 0 := by
    simp only [BitVec.toNat_add, pageAddr, BitVec.toNat_ofNat, MEM_PAGE_SIZE] at hp ⊢
    omega
  have hdown : down2 m.pstart (BitVec.ofNat 32 MEM_PAGE_SIZE) = m.pstart := by
    apply BitVec.eq_of_toNat_eq
    rw [down2_page_toNat]
    exact Nat.div_mul_cancel (Nat.dvd_of_mod_eq_zero hp)
  rw [Nat.add_sub_cancel_left, ← first, hm i hi, BitVec.or_assoc, hdown]
  exact pte_of_aligned hadd hf

/-! ## カーネルの領域 -/

namespace KernelLayout

variable (l : KernelLayout)

theorem bounds : 0x10000 < l.eText.toNat ∧ l.eText.toNat < 0x80000 ∧ 0x80000 ≤ l.dispAddr.toNat ∧
    l.dispAddr.toNat ≤ l.dispEnd.toNat ∧ l.dispEnd.toNat ≤ 0x100000 ∧ l.dispEnd.toNat % 4096 = 0 :=
  ⟨l.eText_gt, l.eText_lt, l.disp_ge, l.disp_le, l.disp_end, l.dispEnd_aligned⟩

/-- 領域ごとの、最初のページと、最後のページの次。 -/
theorem kernelMap_pages :
    l.kernelMap.map MemoryMap.pages =
      [(0, 16), (16, (l.eText.toNat + 4095) / 4096), (l.eText.toNat / 4096, 128),
       (l.dispAddr.toNat / 4096, l.dispEnd.toNat / 4096), (256, 32768)] := by
  obtain ⟨h₁, h₂, h₃, h₄, h₅, h₆⟩ := l.bounds
  have hend : (l.dispEnd - 1).toNat = l.dispEnd.toNat - 1 := by
    rw [BitVec.toNat_sub]
    simp only [BitVec.ofNat_eq_ofNat, BitVec.toNat_ofNat]
    omega
  have hlast : (l.dispEnd.toNat - 1 + 4095) / 4096 = l.dispEnd.toNat / 4096 := by omega
  simp only [kernelMap, List.map_cons, List.map_nil]
  rw [MemoryMap.pages_eq (s := 0) (e := 0x10000) rfl rfl (by decide) (by decide),
    MemoryMap.pages_eq (s := 0x10000) (e := l.eText.toNat) rfl rfl (by omega) (by omega),
    MemoryMap.pages_eq (s := l.eText.toNat) (e := 0x7ffff) rfl rfl (by decide) (by omega),
    MemoryMap.pages_eq (s := l.dispAddr.toNat) (e := l.dispEnd.toNat - 1) rfl hend (by omega) (by omega),
    MemoryMap.pages_eq (s := 0x100000) (e := 0x7ffffff) rfl rfl (by decide) (by decide), hlast]

/-- `e_text` がページの境界にあれば、領域はページを共有せず、物理アドレスもすべて境界にある。 -/
theorem kernelMap_apart (ha : l.eText.toNat % MEM_PAGE_SIZE = 0) : l.kernelMap.Pairwise MemoryMap.Apart := by
  obtain ⟨h₁, h₂, h₃, h₄, h₅, -⟩ := l.bounds
  rw [MEM_PAGE_SIZE] at ha
  have hp : (l.kernelMap.map MemoryMap.pages).Pairwise fun a b => a.2 ≤ b.1 ∨ b.2 ≤ a.1 := by
    rw [kernelMap_pages]
    simp only [List.pairwise_cons, List.mem_cons, List.not_mem_nil, or_false, forall_eq_or_imp, forall_eq,
      false_imp_iff, implies_true, List.Pairwise.nil, and_true]
    omega
  exact (List.pairwise_map.mp hp).imp fun h => h

theorem kernelMap_fits {m : MemoryMap} (hm : m ∈ l.kernelMap) : m.first + m.count ≤ 2 ^ 20 := by
  obtain ⟨-, h₁, -, -, h₂, -⟩ := l.bounds
  have hp : ∀ a ∈ l.kernelMap.map MemoryMap.pages, a.2 ≤ 2 ^ 20 := by
    rw [kernelMap_pages]
    simp only [List.mem_cons, List.not_mem_nil, or_false, forall_eq_or_imp, forall_eq]
    omega
  exact hp _ (List.mem_map_of_mem hm)

theorem kernelMap_aligned (ha : l.eText.toNat % MEM_PAGE_SIZE = 0) {m : MemoryMap} (hm : m ∈ l.kernelMap) :
    m.pstart.toNat % MEM_PAGE_SIZE = 0 ∧ (m.perm ||| PTE_P).toNat < 2 ^ 12 := by
  have hw : (PTE_W ||| PTE_P).toNat < 2 ^ 12 := by decide
  have h₀ : ((0 : BitVec 32) ||| PTE_P).toNat < 2 ^ 12 := by decide
  simp only [kernelMap, List.mem_cons, List.not_mem_nil, or_false] at hm
  rcases hm with rfl | rfl | rfl | rfl | rfl
  · exact ⟨rfl, hw⟩
  · exact ⟨(by decide : sText.toNat % MEM_PAGE_SIZE = 0), h₀⟩
  · exact ⟨ha, hw⟩
  · exact ⟨l.videoBase_aligned, hw⟩
  · exact ⟨rfl, hw⟩

theorem kernelMap_bound {m : MemoryMap} (hm : m ∈ l.kernelMap) :
    m.vend.toNat + MEM_PAGE_SIZE < 2 ^ 31 ∧ m.vstart.toNat < 2 ^ 31 := by
  obtain ⟨h₁, h₂, h₃, h₄, h₅, h₆⟩ := l.bounds
  have hend : (l.dispEnd - 1).toNat = l.dispEnd.toNat - 1 := by
    rw [BitVec.toNat_sub]
    simp only [BitVec.ofNat_eq_ofNat, BitVec.toNat_ofNat]
    omega
  simp only [kernelMap, List.mem_cons, List.not_mem_nil, or_false] at hm
  simp only [MEM_PAGE_SIZE]
  rcases hm with rfl | rfl | rfl | rfl | rfl
  · decide
  · exact ⟨by dsimp only; omega, (by decide : sText.toNat < 2 ^ 31)⟩
  · exact ⟨(by decide : (BitVec.ofNat 32 (MEM_EBDA_START - 1)).toNat + 4096 < 2 ^ 31), by dsimp only [sData]; omega⟩
  · exact ⟨by dsimp only; omega, by dsimp only; omega⟩
  · decide

/-- `e_text` がページの境界になければ、データの領域の最初のページは、コードの領域の最後のページである。 -/
theorem createKernelTable_panics (hf : FindsPte findPte entry) (habs : ∀ e, present (ptes e) = false)
    (ha : l.eText.toNat % MEM_PAGE_SIZE ≠ 0) : l.createKernelTable findPte ptes = none := by
  obtain ⟨h₁, h₂, -⟩ := l.bounds
  rw [MEM_PAGE_SIZE] at ha
  have hpages := l.kernelMap_pages
  simp only [kernelMap, List.map_cons, List.cons.injEq, MemoryMap.pages, Prod.mk.injEq] at hpages
  obtain ⟨hstack, htext, hdata, -⟩ := hpages
  -- 初めの二つの領域は割り当てられる。
  obtain ⟨ptes', hrun, hmap, -⟩ := createTableLoop_ok hf ptes
    (fun m (hm : m ∈ l.kernelMap.take 2) => l.kernelMap_fits (List.mem_of_mem_take hm))
    (by
      simp only [kernelMap, List.take_succ_cons, List.take_zero, List.pairwise_pair, MemoryMap.Apart]
      omega)
    (fun _ _ _ _ => habs _)
  rw [createKernelTable, ← List.take_append_drop 2 l.kernelMap, createTableLoop_append, hrun]
  refine createTableLoop_panics hf (by omega) ?_
  have hi := hmap ⟨sText, l.eText, sText, 0⟩ (by simp [kernelMap]) (l.eText.toNat / 4096 - 16) (by omega)
  rw [htext.1, show 16 + (l.eText.toNat / 4096 - 16) = l.eText.toNat / 4096 by omega] at hi
  rw [hdata.1, hi]
  exact present_map _ _

/-- `create_kernel_table` が `ASSERT` に反せず、どの領域のどのページも正しく割り当てられるのは、`e_text` がページの境界に
あるとき、そのときに限る。 -/
theorem createKernelTable_iff (hf : FindsPte findPte entry) (habs : ∀ e, present (ptes e) = false)
    (l : KernelLayout) :
    (∃ ptes', l.createKernelTable findPte ptes = some ptes' ∧ ∀ m ∈ l.kernelMap, m.Mapped entry ptes') ↔
      l.eText.toNat % MEM_PAGE_SIZE = 0 := by
  constructor
  · rintro ⟨ptes', hrun, -⟩
    by_contra ha
    rw [l.createKernelTable_panics hf habs ha] at hrun
    cases hrun
  · intro ha
    obtain ⟨ptes', hrun, hmap, -⟩ := createTableLoop_ok hf ptes (fun m hm => l.kernelMap_fits hm)
      (l.kernelMap_apart ha) (fun _ _ _ _ => habs _)
    refine ⟨ptes', hrun, fun m hm => ?_⟩
    obtain ⟨hv, hs⟩ := l.kernelMap_bound hm
    obtain ⟨hp, hperm⟩ := l.kernelMap_aligned ha hm
    exact MemoryMap.mapped_of_aligned hv hs hp hperm (hmap m hm)

/-- コードが `eText` で終わる配置と、`0xb8000` の画面。 -/
def small (eText : BitVec 32) (h₁ : 0x10000 < eText.toNat) (h₂ : eText.toNat < MEM_EBDA_START) : KernelLayout :=
  ⟨eText, 0xb8000, 0xc0000, 0xb8000, h₁, h₂, by decide, by decide, by decide, by decide, by decide, by decide⟩

/-- ページの番号を、そのページの項目の置き場とする `find_pte`。 -/
theorem findsPte_page : FindsPte (fun v : BitVec 32 => some (v >>> 12)) (fun v => v >>> 12) :=
  ⟨fun _ => rfl, fun _ _ => Iff.rfl⟩

theorem createKernelTable_iff_small :
    (∃ ptes', (small 0x11000 (by decide) (by decide)).createKernelTable (fun v => some (v >>> 12))
        (fun _ => 0) = some ptes' ∧
      ∀ m ∈ (small 0x11000 (by decide) (by decide)).kernelMap, m.Mapped (· >>> 12) ptes') ↔
      (0x11000 : BitVec 32).toNat % MEM_PAGE_SIZE = 0 :=
  createKernelTable_iff findsPte_page (fun _ => rfl) (small 0x11000 (by decide) (by decide))

/-- コードが `0x10004` で終わると、データの領域の最初のページで `ASSERT` に反する。 -/
theorem createKernelTable_overlaps :
    ¬ ∃ ptes', (small 0x10004 (by decide) (by decide)).createKernelTable (fun v => some (v >>> 12))
        (fun _ => 0) = some ptes' ∧
      ∀ m ∈ (small 0x10004 (by decide) (by decide)).kernelMap, m.Mapped (· >>> 12) ptes' := by
  rintro ⟨ptes', hrun, -⟩
  rw [createKernelTable_panics _ findsPte_page (fun _ => rfl) (by decide)] at hrun
  cases hrun

end KernelLayout

end IdealX86
