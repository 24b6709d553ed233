import IdealX86.Machine.Lemmas.Slice
import IdealX86.Machine.SchedTheorems

/-!
# 順番に回ること

`ready_list` で待つタスクは追い越されず、前に `k` 個のタスクがあれば、`10 * k` 回の割り込みまでに選ばれる。
-/

namespace IdealX86.Machine

variable {node : Node → Lib.Link Node} {b : BootArgs} {ls ls' : List Label} {c c' : Machine Heap}
  {d : Machine Queues} {l : Label} {t : TaskId}

def ahead (c : Machine Heap) (t : TaskId) : List TaskId := Lib.ahead t (c.tasksOf .ready)

/-- `t` より前にあるタスクの `slice_ticks` の和。 -/
def slicesAhead (c : Machine Heap) (t : TaskId) : Int :=
  ((c.ahead t).map fun u => (c.kernel.tasks u).sliceTicks).sum

def ticks (ls : List Label) : Nat := ls.countP Label.isTick

theorem ticks_cons (l : Label) (ls : List Label) : ticks (l :: ls) = ticks ls + if l.isTick then 1 else 0 :=
  List.countP_cons

theorem Sim.ahead_eq (h : Sim c d) (t : TaskId) : c.ahead t = Lib.ahead t d.kernel.lists.ready := by
  unfold Machine.ahead
  rw [h.tasksOf_eq]
  rfl

theorem Sim.behind_iff (h : Sim c d) (n : Nat) (r : Int) :
    d.kernel.Behind t n r ↔ t ∈ c.tasksOf .ready ∧ (c.ahead t).length ≤ n ∧ c.slicesAhead t ≤ r := by
  have hw : c.slicesAhead t =
      Lib.weight (fun u => (d.kernel.tasks u).sliceTicks) t d.kernel.lists.ready := by
    unfold slicesAhead
    rw [h.ahead_eq, h.kernel.tasks]
    rfl
  rw [h.tasksOf_eq, hw, h.ahead_eq]
  exact ⟨fun ⟨h₁, h₂, h₃⟩ => ⟨h₁, h₂, h₃⟩, fun ⟨h₁, h₂, h₃⟩ => ⟨h₁, h₂, h₃⟩⟩

theorem Reaches.sliced (h : Reaches node b ls c) : ∃ d, Sim c d ∧ d.Inv ∧ d.SliceInv :=
  h.invariant (boot_sliceInv b) fun _ _ _ hd hs hst => hst.sliceInv hd hs

theorem Sim.curr_of_ahead_nil (hs : Sim c d) (hd : d.Inv) (hm : t ∈ c.tasksOf .ready) (ha : c.ahead t = []) :
    c.curr = t := by
  have hh := Lib.ahead_eq_nil hm ha
  rw [hs.tasksOf_eq, Queues.seq_ready] at hh
  rw [hs.curr, Machine.curr, ← hd.kernel.head, hh]
  rfl

theorem Sim.ahead_step (hs : Sim c d) (hd : d.Inv) (hsl : d.SliceInv) (hm : t ∈ c.tasksOf .ready)
    (ht : t ≠ c.curr) (hst : c.step l = some c') :
    t ∈ c'.tasksOf .ready ∧ (c'.ahead t).length ≤ (c.ahead t).length ∧
      c'.slicesAhead t ≤ if l.isTick then c.slicesAhead t - 1 else c.slicesAhead t := by
  obtain ⟨d', hst', hs'⟩ := hs.step hd hst
  have hb := (hs.behind_iff (c.ahead t).length (c.slicesAhead t)).mpr ⟨hm, le_refl _, le_refl _⟩
  rw [hs.curr] at ht
  exact (hs'.behind_iff _ _).mp ((step_cases hst').behind hd hsl ht hb)

theorem Sim.ahead_exec (hs : Sim c d) (hd : d.Inv) (hsl : d.SliceInv) (hm : t ∈ c.tasksOf .ready)
    (hrun : Lib.exec Machine.step c ls = some c') (hw : Lib.Always Machine.step (fun c => c.curr ≠ t) c ls) :
    ∃ d', Sim c' d' ∧ d'.Inv ∧ d'.SliceInv ∧ c'.curr ≠ t ∧ t ∈ c'.tasksOf .ready ∧
      c'.slicesAhead t + ticks ls ≤ c.slicesAhead t := by
  induction ls generalizing c d with
  | nil => cases hrun; exact ⟨d, hs, hd, hsl, hw.1, hm, by simp [ticks]⟩
  | cons l ls ih =>
      obtain ⟨c₁, h₁, h₂⟩ := Lib.exec_cons.mp hrun
      obtain ⟨hm₁, -, hr₁⟩ := hs.ahead_step hd hsl hm (Ne.symm hw.1) h₁
      obtain ⟨d₁, hst₁, hs₁⟩ := hs.step hd h₁
      obtain ⟨d', h₃, h₄, h₅, h₆, h₇, hr⟩ := ih hs₁ (hd.step hst₁) ((step_cases hst₁).sliceInv hd hsl) hm₁ h₂
        ((Lib.always_cons h₁).mp hw).2
      refine ⟨d', h₃, h₄, h₅, h₆, h₇, ?_⟩
      rw [ticks_cons]
      split at hr₁ <;> simp only [*, ↓reduceIte, Bool.false_eq_true, Nat.cast_add, Nat.cast_one, Nat.cast_zero] <;> omega

theorem Sim.sliced (hs : Sim c d) (hd : d.Inv) (hsl : d.SliceInv) (hm : t ∈ c.tasksOf .ready) :
    c.kernel.Sliced t := by
  rw [hs.tasksOf_eq] at hm
  have h := hsl.known t (hd.kernel.placed.known .ready t hm)
    (hd.kernel.placed.ne_idle (l := .ready) (by simp) hm)
  exact ⟨hs.kernel.tasks ▸ h.time, hs.kernel.tasks ▸ h.pos, hs.kernel.tasks ▸ h.le⟩

theorem Sim.slicesAhead_le (hs : Sim c d) (hd : d.Inv) (hsl : d.SliceInv) (t : TaskId) :
    c.slicesAhead t ≤ 10 * (c.ahead t).length := by
  refine Lib.weight_le fun u hu => ?_
  have hk := hs.sliced hd hsl hu
  exact hk.le.trans (le_of_eq hk.time)

theorem Sim.slicesAhead_pos (hs : Sim c d) (hd : d.Inv) (hsl : d.SliceInv) (hm : t ∈ c.tasksOf .ready)
    (ht : t ≠ c.curr) : 1 ≤ c.slicesAhead t := by
  have hl : ((c.ahead t).length : Int) ≤ c.slicesAhead t :=
    Lib.length_le_weight fun u hu => (hs.sliced hd hsl hu).pos
  have hn : c.ahead t ≠ [] := fun ha => ht (hs.curr_of_ahead_nil hd hm ha).symm
  have := List.length_pos_iff.mpr hn
  omega

/-- 起動から到達できるどの状態でも、時間片は範囲にあり、待っているタスクは追い越されず、割り込みのたびに前の時間片の和が減り、
前にタスクがなければ今のタスクである。前に `k` 個のタスクがあれば、`10 * k` 回の割り込みまでに選ばれる。 -/
theorem roundRobin_of_reaches (h : Reaches node b ls c) :
    (∀ t ∈ c.tasksOf .ready, t ≠ idleTask → 1 ≤ (c.kernel.tasks t).sliceTicks ∧
      (c.kernel.tasks t).sliceTicks ≤ (c.kernel.tasks t).timeTicks) ∧
    (∀ t l c', t ∈ c.tasksOf .ready → t ≠ c.curr → c.step l = some c' → t ≠ c'.curr →
      t ∈ c'.tasksOf .ready ∧ (c'.ahead t).length ≤ (c.ahead t).length ∧
        c'.slicesAhead t ≤ c.slicesAhead t ∧ (l = .tick → c'.slicesAhead t < c.slicesAhead t)) ∧
    (∀ t ∈ c.tasksOf .ready, c.ahead t = [] → c.curr = t) ∧
    (∀ t ls' c', t ∈ c.tasksOf .ready → Lib.exec Machine.step c ls' = some c' →
      Lib.Always Machine.step (fun c => c.curr ≠ t) c ls' → ticks ls' < 10 * (c.ahead t).length) := by
  obtain ⟨d, hs, hd, hsl⟩ := h.sliced
  refine ⟨fun t ht _ => ?_, fun t l c' hm ht hst _ => ?_, fun t hm ha => ?_, fun t ls' c' hm hrun hw => ?_⟩
  · exact ⟨(hs.sliced hd hsl ht).pos, (hs.sliced hd hsl ht).le⟩
  · obtain ⟨h₁, h₂, h₃⟩ := hs.ahead_step hd hsl hm ht hst
    refine ⟨h₁, h₂, ?_, fun hl => ?_⟩
    · split at h₃ <;> omega
    · subst hl; simp only [Label.isTick, ↓reduceIte] at h₃; omega
  · exact hs.curr_of_ahead_nil hd hm ha
  · obtain ⟨d', hs', hd', hsl', hc', hm', hr⟩ := hs.ahead_exec hd hsl hm hrun hw
    have hup := hs.slicesAhead_le hd hsl t
    have hlow := hs'.slicesAhead_pos hd' hsl' hm' (Ne.symm hc')
    omega

theorem roundRobin_of_reaches_second :
    ∃ c, Reaches (fun _ => ⟨none, none⟩) .zero (initRun 3 13) c ∧ 3 ∈ c.tasksOf .ready ∧ c.curr ≠ 3 ∧
      ∀ ls' c', Lib.exec Machine.step c ls' = some c' →
        Lib.Always Machine.step (fun c => c.curr ≠ 3) c ls' → ticks ls' < 10 := by
  obtain ⟨c, hc, hp⟩ := Option.any_eq_true _ _ |>.mp
    (show (Lib.exec Machine.step (Machine.boot (Heap.empty fun _ => ⟨none, none⟩) .zero) (initRun 3 13)).any
      (fun c => decide (3 ∈ c.tasksOf .ready ∧ c.curr ≠ 3 ∧ (c.ahead 3).length = 1)) = true by decide +kernel)
  obtain ⟨hm, hne, hlen⟩ := of_decide_eq_true hp
  refine ⟨c, hc, hm, hne, fun ls' c' hrun hw => ?_⟩
  have h := (roundRobin_of_reaches hc).2.2.2 3 ls' c' hm hrun hw
  omega

end IdealX86.Machine
