import IdealX86.Core.Lemmas.AddrAlloc
import IdealX86.Lib.Run

/-!
# ページの割り当ての定理

割り当ての結果は探索の位置だけで決まり、`n` ページの割り当ては位置を `n - 1` しか進めない。このことから、
同じページを二度渡さないための条件と、空いたページを割り当て直せるための条件が決まる。
-/

namespace IdealX86

open Lib

variable {r : PageRange} {s s' : Arena}

/-! ## 同じページを二度渡さないこと -/

/-- その歩が割り当てなら、返したアドレスからのページは、生きているどの区間とも交わらない。 -/
def Arena.FreshAt (s : Arena) : AllocOp → Prop
  | .alloc n =>
      (addrAllocPage s.toAllocState n).1 ≠ 0 →
        ∀ b ∈ s.live, Block.Disjoint ⟨(addrAllocPage s.toAllocState n).1, n⟩ b
  | .free _ => True

/-- その歩が成り立つ割り当てなら、生きている区間は一つもない。 -/
def PageRange.AloneAt (r : PageRange) (s : Arena) : AllocOp → Prop
  | .alloc n => r.Fits s n → s.live = []
  | .free _ => True

/-- 区間の最後のページが探索の位置のページである。 -/
def PageRange.EndsAt (r : PageRange) (s : Arena) (b : Block) : Prop :=
  1 ≤ b.pages ∧ b.page (b.pages - 1) = r.start + s.searchIdx.toNat * MEM_PAGE_SIZE

/-- 一つずつ使う実行で保たれること。生きている区間は高々一つで、その最後のページは次に返すページである。 -/
def PageRange.Single (r : PageRange) (s : Arena) : Prop :=
  s.live = [] ∨ ∃ b, s.live = [b] ∧ (r.EndsAt s b ∨ (r.pages : Int) ≤ s.searchIdx)

theorem PageRange.Ok.freshAt_iff (h : r.Ok s) (h₁ : r.Single s) (op : AllocOp) :
    s.FreshAt op ↔ r.AloneAt s op := by
  cases op with
  | free b => exact Iff.rfl
  | alloc n =>
      simp only [Arena.FreshAt, AloneAt]
      rcases h₁ with hnil | ⟨b, hb, hend⟩
      · simp [hnil]
      · constructor
        · intro hfresh hf
          -- 返したページは、生きている区間の最後のページと同じである。
          have ha := (h.alloc_fits hf).1
          have hend : r.EndsAt s b := hend.resolve_right (by have := hf.2.1; omega)
          have hd := hfresh ((h.alloc_ne_zero_iff hf.1).mpr hf) b (by simp [hb])
          refine absurd ?_ (hd 0 hf.1 (b.pages - 1) (by have := hend.1; omega))
          rw [hend.2, ← ha]
          simp [Block.page]
        · intro halone hne b' _ i (hi : i < n)
          have hf := (h.alloc_ne_zero_iff (by omega : 1 ≤ n)).mp hne
          rw [halone hf] at hb
          cases hb

theorem PageRange.Single.step (h : r.Ok s) (h₁ : r.Single s) {op : AllocOp} (hal : r.AloneAt s op)
    (hstep : s.step op = some s') : r.Single s' := by
  cases op with
  | alloc n =>
      simp only [Arena.step] at hstep
      split at hstep
      · rename_i hn
        cases hstep
        by_cases hf : r.Fits s n
        · obtain ⟨ha, hi⟩ := h.alloc_fits hf
          have h₀ := h.nonneg
          have hne := (h.alloc_ne_zero_iff hn).mpr hf
          have hpages : s.searchIdx.toNat + (n - 1) = (s.searchIdx + n - 1).toNat := by omega
          refine Or.inr ⟨_, by simp only [hne, ne_eq, not_false_eq_true, ↓reduceIte, hal hf]; rfl,
            Or.inl ⟨hn, ?_⟩⟩
          simp only [Block.page, ha, hi, ← hpages, Nat.add_mul, Nat.add_assoc]
        · obtain ⟨ha, hi⟩ := h.alloc_not_fits hn hf
          simp only [ha, ne_eq, not_true_eq_false, ↓reduceIte]
          rcases h₁ with hnil | ⟨b, hb, _⟩
          · exact Or.inl hnil
          · exact Or.inr ⟨b, hb, Or.inr (by simp only [hi]; exact le_max_right _ _)⟩
      · cases hstep
  | free b =>
      simp only [Arena.step] at hstep
      split at hstep
      · rename_i hmem
        cases hstep
        refine Or.inl ?_
        rcases h₁ with hnil | ⟨b', hb', _⟩
        · simp [hnil] at hmem
        · have : b = b' := by simpa [hb'] using hmem
          simp [hb', this]
      · cases hstep

/-- 実行のどの割り当ても生きている区間と交わらないのは、成り立つ割り当てがすべて、生きている区間のないときに
行われるとき、そのときに限る。探索の位置の初めの値は問わない。 -/
theorem addrAllocPage_disjoint_iff (r : PageRange) (mem : Mem) (i : Nat) (ops : List AllocOp) :
    Along Arena.step Arena.FreshAt (r.arena mem i) ops ↔
      Along Arena.step r.AloneAt (r.arena mem i) ops :=
  along_iff (I := fun s => r.Ok s ∧ r.Single s) (fun _ op h => h.1.freshAt_iff h.2 op)
    (fun _ _ _ h hal hstep => ⟨h.1.step hstep, h.2.step h.1 hal hstep⟩) ops
    ⟨.init mem (Int.natCast_nonneg i), Or.inl rfl⟩

def twoPages : PageRange :=
  ⟨0x9000, 0x1000, 2 * 4096, by decide, by decide, by decide, by decide⟩

/-- 一ページの割り当てを二度行うと、同じページが二度返る。 -/
theorem addrAllocPage_same_page_twice :
    ¬ Along Arena.step Arena.FreshAt (twoPages.arena (fun _ => 0) 0) [.alloc 1, .alloc 1] := by
  intro h
  have hd := (h.2 _ rfl).1 (by decide) ⟨0x1000, 1⟩ (by decide)
  exact hd 0 (by decide) 0 (by decide) (by decide)

/-! ## 空いたページを割り当て直せること -/

/-- 管理する範囲の `q` 番目のページが、生きているどの区間にも属さない。 -/
def PageRange.FreePage (r : PageRange) (s : Arena) (q : Nat) : Prop :=
  ∀ b ∈ s.live, ∀ j < b.pages, r.start + q * MEM_PAGE_SIZE ≠ b.page j

/-- 生きている区間に属さない、連続する `n` ページがある。 -/
def PageRange.FreeRun (r : PageRange) (s : Arena) (n : Nat) : Prop :=
  ∃ q, q + n ≤ r.pages ∧ ∀ i < n, r.FreePage s (q + i)

/-- 求めるページ数から決まる、探索の位置の動き。`n` ページの割り当ては、位置から先に収まれば `n - 1` だけ進み、
収まらなければ末尾で止まる。解放では動かない。 -/
def PageRange.advance (r : PageRange) (c : Nat) : AllocOp → Nat
  | .alloc n => if c < r.pages ∧ c + n ≤ r.pages + 1 then c + n - 1 else max c r.pages
  | .free _ => c

def PageRange.cursor (r : PageRange) (ops : List AllocOp) : Nat := ops.foldl r.advance 0

theorem PageRange.Ok.step_searchIdx (h : r.Ok s) {op : AllocOp} (hstep : s.step op = some s') :
    s'.searchIdx = r.advance s.searchIdx.toNat op := by
  have h₀ := h.nonneg
  cases op with
  | alloc n =>
      simp only [Arena.step] at hstep
      split at hstep
      · rename_i hn
        cases hstep
        by_cases hf : r.Fits s n
        · have hc : s.searchIdx.toNat < r.pages ∧ s.searchIdx.toNat + n ≤ r.pages + 1 := by
            have := hf.2
            omega
          rw [advance, if_pos hc, (h.alloc_fits hf).2]
          omega
        · have hc : ¬ (s.searchIdx.toNat < r.pages ∧ s.searchIdx.toNat + n ≤ r.pages + 1) :=
            fun hc => hf ⟨hn, by omega, by omega⟩
          rw [advance, if_neg hc, (h.alloc_not_fits hn hf).2]
          omega
      · cases hstep
  | free b =>
      simp only [Arena.step] at hstep
      split at hstep
      · cases hstep
        simp only [addrFreePage, advance]
        omega
      · cases hstep

theorem PageRange.Ok.exec_searchIdx (h : r.Ok s) {ops : List AllocOp}
    (hrun : exec Arena.step s ops = some s') :
    s'.searchIdx = ops.foldl r.advance s.searchIdx.toNat := by
  induction ops generalizing s with
  | nil =>
      cases hrun
      have := h.nonneg
      simp only [List.foldl_nil]
      omega
  | cons op ops ih =>
      obtain ⟨s₁, hstep, hrest⟩ := exec_cons.mp hrun
      have hidx := ih (h.step hstep) hrest
      rw [h.step_searchIdx hstep, Int.toNat_natCast] at hidx
      rw [hidx, List.foldl_cons]

/-- 起動からの実行の後、空いた `n` ページがあるときに割り当てが成功するのは、それまでに求めたページ数で決まる
探索の位置から先に余地があるとき、そのときに限る。 -/
theorem addrAllocPage_freeRun_iff (r : PageRange) (mem : Mem) {ops : List AllocOp} {s : Arena}
    (hrun : exec Arena.step (r.arena mem 0) ops = some s) {n : Nat} (hn : 1 ≤ n) :
    (r.FreeRun s n → (addrAllocPage s.toAllocState n).1 ≠ 0) ↔
      (r.FreeRun s n → r.cursor ops < r.pages ∧ r.cursor ops + n ≤ r.pages + 1) := by
  have hinit : r.Ok (r.arena mem 0) := .init mem (le_refl _)
  have hok : r.Ok s := exec_invariant (fun _ _ _ h => h.step) hrun hinit
  have hidx : s.searchIdx = r.cursor ops := hinit.exec_searchIdx hrun
  have hfits : r.Fits s n ↔ r.cursor ops < r.pages ∧ r.cursor ops + n ≤ r.pages + 1 := by
    unfold PageRange.Fits
    omega
  rw [hok.alloc_ne_zero_iff hn, hfits]

/-- 二ページを割り当てて解放した後も、一ページの割り当ては成功する。 -/
theorem addrAllocPage_freeRun_iff_reuse :
    ∃ s, exec Arena.step (twoPages.arena (fun _ => 0) 0) [.alloc 2, .free ⟨0x1000, 2⟩] = some s ∧
      twoPages.FreeRun s 1 ∧ twoPages.cursor [.alloc 2, .free ⟨0x1000, 2⟩] = 1 ∧
      (addrAllocPage s.toAllocState ((1 : Nat) : Int)).1 ≠ 0 := by
  have hfree : ∀ s : Arena, s.live = [] → twoPages.FreeRun s 1 :=
    fun s hs => ⟨0, by decide, fun i _ b hb => absurd (hs ▸ hb) List.not_mem_nil⟩
  obtain ⟨s, hrun, hlive⟩ : ∃ s, exec Arena.step (twoPages.arena (fun _ => 0) 0)
      [.alloc 2, .free ⟨0x1000, 2⟩] = some s ∧ s.live = [] := ⟨_, rfl, by decide⟩
  refine ⟨s, hrun, hfree s hlive, by decide, ?_⟩
  exact (addrAllocPage_freeRun_iff twoPages (fun _ => 0) hrun (n := 1) (by decide)).mpr
    (fun _ => by decide) (hfree s hlive)

/-- 二ページの範囲で二ページの割り当てと解放を二度行うと、すべてのページが空いているのに、一ページの割り当ても
失敗する。 -/
theorem addrAllocPage_fails_on_free_memory :
    ∃ s, exec Arena.step (twoPages.arena (fun _ => 0) 0)
        [.alloc 2, .free ⟨0x1000, 2⟩, .alloc 2, .free ⟨0x2000, 2⟩] = some s ∧
      ¬ (twoPages.FreeRun s 1 → (addrAllocPage s.toAllocState 1).1 ≠ 0) := by
  refine ⟨_, rfl, fun h => h ⟨0, by decide, fun i _ b hb => ?_⟩ (by decide)⟩
  exact absurd hb List.not_mem_nil

end IdealX86
