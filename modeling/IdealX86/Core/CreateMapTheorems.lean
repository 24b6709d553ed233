import IdealX86.Core.KernelTable

/-!
# 途中で失敗した `memory_create_map`

`memory_create_map` は、`find_pte` が失敗するとそこで -1 を返し、それまでに書いた項目を消さない。失敗の後にどのアドレスがどう
変換されるかを示す。
-/

namespace IdealX86

variable {π ω : Type} [DecidableEq π] {findPteFrom : PageTables π ω → BitVec 32 → Option π × PageTables π ω}
  {entry : BitVec 32 → π} {perm v p a : BitVec 32} {s s' : PageTables π ω}

def pageOf (a : BitVec 32) : BitVec 32 := a >>> 12

/-- 仮想アドレスの変換：物理アドレスと権限。`entry` はページの番号から項目の置き場を与える。項目がなければ変換されない。 -/
def translate (entry : BitVec 32 → π) (ptes : π → BitVec 32) (a : BitVec 32) : Option (BitVec 32 × BitVec 32) :=
  if present (ptes (entry (pageOf a))) then
    some (ptePaddr (ptes (entry (pageOf a))) ||| (a &&& 0xFFF), pteFlags (ptes (entry (pageOf a))))
  else none

/-- ソースにない `find_pte(page_dir, vaddr, 1)` の働き。失敗しても成功してもどの変換も変えず、成功すればそのページの項目を返す。
ディレクトリの二つの項目が一つのページ表を指していれば、異なるページの項目が同じ置き場にある。 -/
structure FindPteSpec (findPteFrom : PageTables π ω → BitVec 32 → Option π × PageTables π ω) (entry : BitVec 32 → π) :
    Prop where
  found : ∀ s v pte, (findPteFrom s v).1 = some pte → pte = entry (pageOf v)
  keeps : ∀ s v a, translate entry (findPteFrom s v).2.ptes a = translate entry s.ptes a

def nthPage (v : BitVec 32) (j : Nat) : BitVec 32 := v + BitVec.ofNat 32 (j * MEM_PAGE_SIZE)

/-- 二つのアドレスは、同じ置き場の項目で変換される。同じページのアドレスはそうである。 -/
def SameEntry (entry : BitVec 32 → π) (a b : BitVec 32) : Prop := entry (pageOf a) = entry (pageOf b)

theorem nthPage_zero (v : BitVec 32) : nthPage v 0 = v := by simp [nthPage]

theorem nthPage_succ (v : BitVec 32) (j : Nat) :
    nthPage (v + BitVec.ofNat 32 MEM_PAGE_SIZE) j = nthPage v (j + 1) := by
  rw [nthPage, nthPage, Nat.add_mul, Nat.one_mul, BitVec.ofNat_add, BitVec.add_assoc,
    BitVec.add_comm (BitVec.ofNat 32 MEM_PAGE_SIZE)]

omit [DecidableEq π] in
theorem translate_eq_none_iff (entry : BitVec 32 → π) (ptes : π → BitVec 32) (a : BitVec 32) :
    translate entry ptes a = none ↔ present (ptes (entry (pageOf a))) = false := by
  unfold translate
  split <;> simp_all

/-- 失敗した呼び出しの後の変換。先頭から `i` 個のページは前は変換されず、今はその項目に、`p` から続くアドレスと `perm | PTE_P` の
論理和が書かれている。書かれたどの項目とも異なる項目を使うアドレスの変換は、前と同じである。 -/
structure PartialMap (entry : BitVec 32 → π) (perm v p : BitVec 32) (i : Nat) (ptes ptes' : π → BitVec 32) : Prop where
  fresh : ∀ j < i, translate entry ptes (nthPage v j) = none
  mapped : ∀ j < i, ∀ a, SameEntry entry a (nthPage v j) →
    translate entry ptes' a =
      some (ptePaddr (nthPage p j ||| perm ||| PTE_P) ||| (a &&& 0xFFF), pteFlags (nthPage p j ||| perm ||| PTE_P))
  others : ∀ a, (∀ j < i, ¬ SameEntry entry a (nthPage v j)) → translate entry ptes' a = translate entry ptes a

theorem translate_update_of_ne (ptes : π → BitVec 32) (x : BitVec 32) (h : ¬ SameEntry entry a v) :
    translate entry (Function.update ptes (entry (pageOf v)) x) a = translate entry ptes a := by
  have hne : entry (pageOf a) ≠ entry (pageOf v) := h
  simp only [translate, Function.update_of_ne hne]

theorem translate_update (ptes : π → BitVec 32) {x : BitVec 32} (hx : present x = true) (h : SameEntry entry a v) :
    translate entry (Function.update ptes (entry (pageOf v)) x) a = some (ptePaddr x ||| (a &&& 0xFFF), pteFlags x) := by
  have he : entry (pageOf a) = entry (pageOf v) := h
  simp only [translate, he, Function.update_self, hx, ↓reduceIte]

/-- 一つのページを書いた後の失敗。書いた項目は後で書き直されない。 -/
theorem PartialMap.cons {i : Nat} {ptes ptes' : π → BitVec 32} (hv : translate entry ptes v = none)
    (h : PartialMap entry perm (v + BitVec.ofNat 32 MEM_PAGE_SIZE) (p + BitVec.ofNat 32 MEM_PAGE_SIZE) i
      (Function.update ptes (entry (pageOf v)) (p ||| perm ||| PTE_P)) ptes') :
    PartialMap entry perm v p (i + 1) ptes ptes' := by
  -- 後で書く項目はまだ有効でないので、すでに有効な `v` の項目とは異なる。
  have hapart : ∀ j < i, ¬ SameEntry entry (nthPage v (j + 1)) v := by
    intro j hj hsame
    have hnone := h.fresh j hj
    rw [nthPage_succ, translate_update ptes (present_map p perm) hsame] at hnone
    simp at hnone
  constructor
  · intro j hj
    cases j with
    | zero => rw [nthPage_zero]; exact hv
    | succ j =>
        have hnone := h.fresh j (by omega)
        rwa [nthPage_succ, translate_update_of_ne ptes _ (hapart j (by omega))] at hnone
  · intro j hj a ha
    cases j with
    | zero =>
        rw [nthPage_zero] at ha ⊢
        rw [h.others a fun j hj hsame => ?_, translate_update ptes (present_map p perm) ha]
        rw [nthPage_succ] at hsame
        exact hapart j hj (hsame.symm.trans ha)
    | succ j =>
        rw [← nthPage_succ] at ha ⊢
        exact h.mapped j (by omega) a ha
  · intro a ha
    have hav : ¬ SameEntry entry a v := by
      have h₀ := ha 0 (by omega)
      rwa [nthPage_zero] at h₀
    rw [h.others a fun j hj => ?_, translate_update_of_ne ptes _ hav]
    rw [nthPage_succ]
    exact ha (j + 1) (by omega)

section
variable (hf : FindPteSpec findPteFrom entry)
include hf

theorem createMapLoop_failed {n : Nat} (hrun : createMapLoop findPteFrom perm n v p s = .returned (-1) s') :
    ∃ i < n, PartialMap entry perm v p i s.ptes s'.ptes := by
  induction n generalizing v p s with
  | zero => simp [createMapLoop] at hrun
  | succ n ih =>
      have hkeeps := hf.keeps s v
      have hfound := hf.found s v
      rw [createMapLoop] at hrun
      generalize findPteFrom s v = r at hrun hkeeps hfound
      obtain ⟨_ | pte, s₁⟩ := r
      · simp only [MapOutcome.returned.injEq, true_and] at hrun
        subst hrun
        exact ⟨0, by omega, by omega, by omega, fun a _ => hkeeps a⟩
      · obtain rfl : pte = entry (pageOf v) := hfound pte rfl
        simp only at hrun hkeeps
        split at hrun
        · simp at hrun
        · next habs =>
            obtain ⟨i, hi, hpart⟩ := ih hrun
            have hv : translate entry s₁.ptes v = none :=
              (translate_eq_none_iff entry s₁.ptes v).mpr (by simpa using habs)
            obtain ⟨h₁, h₂, h₃⟩ := PartialMap.cons hv hpart
            exact ⟨i + 1, by omega, fun j hj => by rw [← hkeeps]; exact h₁ j hj, h₂, fun a ha => by
              rw [h₃ a ha]; exact hkeeps a⟩

/-- `memory_create_map` が -1 を返したときは、ある `i < count` について、先頭から `i` 個のページの項目だけが新しく書かれて残り、
ほかの項目を使うどのアドレスの変換も前と同じである。すべての変換が前と同じなのは、最初のページで失敗したときに限る。 -/
theorem memoryCreateMapFrom_failed {count : Int}
    (hrun : memoryCreateMapFrom findPteFrom perm v p count s = .returned (-1) s') :
    ∃ i : Nat, (i : Int) < count ∧ PartialMap entry perm v p i s.ptes s'.ptes ∧
      ((∀ a, translate entry s'.ptes a = translate entry s.ptes a) ↔ i = 0) := by
  obtain ⟨i, hi, hpart⟩ := createMapLoop_failed hf hrun
  refine ⟨i, by omega, hpart, fun hsame => ?_, fun hi => ?_⟩
  · by_contra hne
    have hpos : 0 < i := by omega
    have hmapped := hpart.mapped 0 hpos v (by rw [nthPage_zero]; rfl)
    have hfresh := hpart.fresh 0 hpos
    rw [nthPage_zero] at hfresh
    rw [hsame, hfresh] at hmapped
    simp at hmapped
  · subst hi
    exact fun a => hpart.others a (by omega)

end

/-! ## 二つ目のページ表が取れない `find_pte` -/

/-- 残りの回数 `rest` だけ成功する `find_pte`。 -/
def budgetFindPte (s : PageTables (BitVec 32) Nat) (v : BitVec 32) : Option (BitVec 32) × PageTables (BitVec 32) Nat :=
  if s.rest = 0 then (none, s) else (some (pageOf v), { s with rest := s.rest - 1 })

theorem findPteSpec_budget : FindPteSpec budgetFindPte id where
  found s v pte h := by
    unfold budgetFindPte at h
    split at h
    · simp at h
    · exact (Option.some.inj h).symm
  keeps s v a := by
    unfold budgetFindPte
    split <;> rfl

def onePageMapped : PageTables (BitVec 32) Nat :=
  ⟨Function.update (fun _ => 0) 0x3FF (0x100000 ||| PTE_W ||| PTE_P), 0⟩

theorem memoryCreateMapFrom_budget :
    memoryCreateMapFrom budgetFindPte PTE_W 0x3FF000 0x100000 2 ⟨fun _ => 0, 1⟩ = .returned (-1) onePageMapped := rfl

theorem memoryCreateMapFrom_failed_second :
    ∃ i : Nat, (i : Int) < 2 ∧ PartialMap id PTE_W 0x3FF000 0x100000 i (fun _ => 0) onePageMapped.ptes ∧
      ((∀ a, translate id onePageMapped.ptes a = translate id (fun _ => 0) a) ↔ i = 0) :=
  memoryCreateMapFrom_failed findPteSpec_budget memoryCreateMapFrom_budget

/-- 二つのページの割り当てが二つ目で失敗すると、-1 を返すのに、一つ目のページは変換されるようになる。 -/
theorem memoryCreateMapFrom_not_all_or_nothing :
    FindPteSpec budgetFindPte id ∧ ¬ ∀ s', memoryCreateMapFrom budgetFindPte PTE_W 0x3FF000 0x100000 2
      ⟨fun _ => 0, 1⟩ = .returned (-1) s' →
        ∀ a, translate id s'.ptes a = translate id (fun _ => 0) a := by
  refine ⟨findPteSpec_budget, fun h => ?_⟩
  have hpage := h _ memoryCreateMapFrom_budget 0x3FF000
  exact absurd hpage (by decide)

end IdealX86
