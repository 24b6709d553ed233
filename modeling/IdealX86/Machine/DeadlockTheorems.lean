import IdealX86.Lib.WaitGraph
import IdealX86.Machine.Lemmas.Mutex
import IdealX86.Machine.MutexTheorems

/-!
# ミューテックスのデッドロック

`mutex_lock` は、いつか放されることを待つだけで、順序を確かめない。どのタスクも決まった順序で取るなら待ちの輪はできず、
いったんできた輪は、どのような実行でも解けないことを示す。
-/

namespace IdealX86

/-! ## 呼び出しと持ち主 -/

namespace Kernel

/-- 呼び出し `x` のミューテックス `m` の持ち主への働き。 -/
inductive CallOwner (a : Kernel Queues) (x : Call) (m : MutexId) : Prop where
  | same (ho : ((a.call x).mutexes m).owner = (a.mutexes m).owner)
  | take (hx : x = .mutexLock m) (h0 : (a.mutexes m).lockedCount = 0)
      (ho : ((a.call x).mutexes m).owner = a.currTask)
  | free (hx : x = .mutexUnlock m) (hc : (a.mutexes m).owner = a.currTask)
      (ho : ((a.call x).mutexes m).owner = nullTask)
  | pass (t : TaskId) (hx : x = .mutexUnlock m) (hc : (a.mutexes m).owner = a.currTask)
      (hr : t ∈ (a.call x).lists.ready) (ho : ((a.call x).mutexes m).owner = t)

variable {a : Kernel Queues} {x : Call} {m : MutexId}

theorem call_owner_lock (a : Kernel Queues) (m : MutexId) : CallOwner a (.mutexLock m) m := by
  by_cases h0 : (a.mutexes m).lockedCount = 0
  · exact .take rfl h0 (by simp [Kernel.call, Kernel.mutexLock, h0])
  · refine .same ?_
    simp only [Kernel.call, Kernel.mutexLock, if_neg h0]
    split
    · simp
    · rw [(waitOn_frame a _).1]

theorem Inv.call_owner_unlock (h : a.Inv) (m : MutexId) : CallOwner a (.mutexUnlock m) m := by
  by_cases hho : a.handsOver m
  · obtain ⟨t, ts, hw⟩ := wait_ne_nil _ hho.2.2
    have hcall : a.call (.mutexUnlock m) = _ := mutexUnlock_of_handsOver hho
    rw [removeWaiter_of_cons hw] at hcall
    refine .pass t rfl hho.1 ?_ ?_
    · rw [hcall, taskDispatch_lists, setMutex_lists, h.wakeFirst_lists hw]; simp
    · rw [hcall]; simp
  · have hcall : a.call (.mutexUnlock m) = _ := mutexUnlock_of_not hho
    by_cases ho : (a.mutexes m).owner = a.currTask
    · rw [if_pos ho] at hcall
      by_cases h1 : (a.mutexes m).lockedCount - 1 = 0
      · exact .free rfl ho (by rw [hcall, if_pos h1]; simp)
      · exact .same (by rw [hcall, if_neg h1]; simp)
    · exact .same (by rw [hcall, if_neg ho])

theorem Inv.call_owner (h : a.Inv) (x : Call) (m : MutexId) : CallOwner a x m := by
  by_cases h₁ : x = .mutexLock m
  · subst h₁; exact call_owner_lock a m
  · by_cases h₂ : x = .mutexUnlock m
    · subst h₂; exact h.call_owner_unlock m
    · exact .same (by rw [call_mutexes_of_ne a h₁ h₂])

theorem mutexLock_lists_of_owner {σ : Type} [ListStore σ] (k : Kernel σ) {m : MutexId}
    (h : (k.mutexes m).lockedCount = 0 ∨ (k.mutexes m).owner = k.currTask) :
    (k.mutexLock m).lists = k.lists := by
  unfold mutexLock
  dsimp only
  split
  · rfl
  · rw [if_pos (h.resolve_left ‹_›)]; rfl

end Kernel

namespace Machine

/-! ## 待ちの輪 -/

def owner {σ : Type} (c : Machine σ) (m : MutexId) : TaskId := (c.kernel.mutexes m).owner

/-- `t` が `m` の `wait_list` につながれている。 -/
def WaitsMutex (c : Machine Heap) (t : TaskId) (m : MutexId) : Prop := t ∈ c.tasksOf (.wait (.mutex m))

/-- 実行される `mutex_lock` は、呼ぶタスクが持っているどのミューテックスよりも順序が上のものを取る。重ねて取ることは許す。 -/
def LocksInOrder (rank : MutexId → Nat) {σ : Type} [ListStore σ] (c : Machine σ) (l : Label) : Prop :=
  ∀ m, c.Calls l (.mutexLock m) → (c.step l).isSome →
    c.owner m = c.curr ∨ ∀ m', c.owner m' = c.curr → rank m' < rank m

section
variable {c c' : Machine Queues} {l : Label} {rank : MutexId → Nat} {S : Set TaskId} {t : TaskId} {m : MutexId}

def Waits (c : Machine Queues) (t : TaskId) (m : MutexId) : Prop := t ∈ c.kernel.lists.wait (.mutex m)

theorem Inv.waits_ne_curr (h : c.Inv) (ht : c.Waits t m) : t ≠ c.curr := by
  rintro rfl; exact h.kernel.curr_not_waiting _ ht

theorem Inv.waits_ne_null (h : c.Inv) (ht : c.Waits t m) : t ≠ nullTask :=
  h.kernel.placed.ne_null (l := .wait (.mutex m)) ht

theorem Inv.waiting_finite (h : c.Inv) : {t | Lib.Waiting c.Waits t}.Finite := by
  refine c.kernel.lists.task.finite_toSet.subset ?_
  rintro t ⟨m, hm⟩
  exact h.kernel.placed.known (.wait (.mutex m)) t hm

/-- 前から待っていたタスクが持ち主なら、その持ち主は変わっていない。 -/
theorem CallStep.owner_of_waits {x : Call} (hst : c.CallStep c' x) (h : c.Inv) (hk' : c'.kernel.Inv)
    (ht : c.Waits t m) (ht' : c'.Waits t m) {m' : MutexId} (ho : c'.owner m' = t) : c.owner m' = t := by
  unfold owner at ho
  rw [hst.kernel] at ho
  cases h.kernel.call_owner x m' with
  | same he => exact he.symm.trans ho
  | take hx h0 he => exact absurd (ho.symm.trans he) (h.waits_ne_curr ht)
  | free hx hc he => exact absurd (ho.symm.trans he) (h.waits_ne_null ht)
  | pass u hx hc hr he =>
      obtain rfl : u = t := he.symm.trans ho
      rw [← hst.kernel] at hr
      cases hk'.placed.once (.wait (.mutex m)) .ready u (by simp) (by simp) ht' hr

/-- `mutex_lock(m)` で待ちに入るタスクが持っているものは、どれも `m` より下である。 -/
theorem CallStep.rank_of_block (hst : c.CallStep c' (.mutexLock m)) (h : c.Inv)
    (hQ : c.owner m = c.curr ∨ ∀ m', c.owner m' = c.curr → rank m' < rank m)
    (hw : (c.kernel.call (.mutexLock m)).lists.wait (.mutex m) = c.kernel.lists.wait (.mutex m) ++ [c.curr])
    {m' : MutexId} (ho : c'.owner m' = c.curr) : rank m' < rank m := by
  have hne : ¬ ((c.kernel.mutexes m).lockedCount = 0 ∨ (c.kernel.mutexes m).owner = c.kernel.currTask) := by
    intro hfree
    have hl : (c.kernel.call (.mutexLock m)).lists = c.kernel.lists :=
      Kernel.mutexLock_lists_of_owner c.kernel hfree
    rw [hl] at hw
    simp at hw
  obtain ⟨h0, hown⟩ := not_or.mp hne
  refine hQ.resolve_left hown m' ?_
  unfold owner at ho ⊢
  rw [hst.kernel] at ho
  cases h.kernel.call_owner (.mutexLock m) m' with
  | same he => exact he.symm.trans ho
  | take hx h0' he => cases hx; exact absurd h0' h0
  | free hx hc he => cases hx
  | pass u hx hc hr he => cases hx

theorem CallStep.ordered {x : Call} (hst : c.CallStep c' x) (h : c.Inv) (hk' : c'.kernel.Inv)
    (hQ : ∀ m, x = .mutexLock m → c.owner m = c.curr ∨ ∀ m', c.owner m' = c.curr → rank m' < rank m)
    (hord : Lib.Ordered c.Waits c.owner rank) : Lib.Ordered c'.Waits c'.owner rank := by
  intro t m m' ht ho
  have hold : c.Waits t m → rank m' < rank m := fun hm => hord t m m' hm (hst.owner_of_waits h hk' hm ht ho)
  have ht' := ht
  unfold Waits at ht'
  rw [hst.kernel] at ht'
  cases h.kernel.call_queue hst.curr x (.mutex m) with
  | same hq _ _ => rw [hq] at ht'; exact hold ht'
  | block hx hq _ _ =>
      obtain rfl : x = .mutexLock m := by cases x <;> cases hx; rfl
      rw [hq] at ht'
      rcases List.mem_append.mp ht' with hm | hm
      · exact hold hm
      · exact hst.rank_of_block h (hQ m rfl) hq (ho.trans (List.mem_singleton.mp hm))
  | wake u us hx hu hq _ _ _ =>
      refine hold ?_
      unfold Waits
      rw [hu]
      exact List.mem_cons_of_mem _ (hq ▸ ht')

theorem Quiet.waits (hq : c.Quiet c') : c'.Waits = c.Waits ∧ c'.owner = c.owner := by
  constructor
  · funext t m; unfold Waits; rw [hq.wait]
  · funext m; unfold owner; rw [hq.mutexes]

theorem IpcStep.ordered (hst : c.IpcStep l c') (h : c.Inv) (hk' : c'.kernel.Inv)
    (hQ : ∀ m, c.Calls l (.mutexLock m) → c.owner m = c.curr ∨ ∀ m', c.owner m' = c.curr → rank m' < rank m)
    (hord : Lib.Ordered c.Waits c.owner rank) : Lib.Ordered c'.Waits c'.owner rank := by
  cases hst with
  | call x hx hcs => exact hcs.ordered h hk' (fun m he => hQ m (he ▸ hx)) hord
  | ret x _ hk _ _ =>
      have hw : c'.Waits = c.Waits ∧ c'.owner = c.owner := by
        constructor <;> funext <;> simp only [Waits, owner, hk]
      rw [hw.1, hw.2]; exact hord
  | quiet hq => rw [hq.waits.1, hq.waits.2]; exact hord

/-! ## 解けない輪 -/

theorem CallStep.stuck {x : Call} (hst : c.CallStep c' x) (h : c.Inv) (hm : c.MutexInv m)
    (ht : c.Waits t m) (ho : ∃ m', c.Waits (c.owner m) m') : c'.Waits t m ∧ c'.owner m = c.owner m := by
  obtain ⟨m', hm'⟩ := ho
  have hcurr : (c.kernel.mutexes m).owner ≠ c.kernel.currTask := h.waits_ne_curr hm'
  have hnull : (c.kernel.mutexes m).owner ≠ nullTask := h.waits_ne_null hm'
  constructor
  · unfold Waits
    rw [hst.kernel]
    cases h.kernel.call_queue hst.curr x (.mutex m) with
    | same hq _ _ => rw [hq]; exact ht
    | block hx hq _ _ => rw [hq]; exact List.mem_append_left _ ht
    | wake u us hx hu hq hr _ _ =>
        -- 持ち主でないタスクの `mutex_unlock` は、何も変えない。
        obtain rfl : x = .mutexUnlock m := by cases x <;> cases hx; rfl
        have hcall : c.kernel.call (.mutexUnlock m) = c.kernel := if_neg hcurr
        rw [hcall]; exact ht
  · unfold owner
    rw [hst.kernel]
    cases h.kernel.call_owner x m with
    | same he => exact he
    | take hx h0 he => exact absurd (hm.zero.mpr h0) hnull
    | free hx hc he => exact absurd hc hcurr
    | pass u hx hc hr he => exact absurd hc hcurr

theorem IpcStep.stuck (hst : c.IpcStep l c') (h : c.Inv) (hm : ∀ m, c.MutexInv m)
    (hS : Lib.Stuck c.Waits c.owner S) : Lib.Stuck c'.Waits c'.owner S := by
  intro t ht
  obtain ⟨m, hw, ho⟩ := hS t ht
  cases hst with
  | call x hx hcs =>
      obtain ⟨hw', ho'⟩ := hcs.stuck h (hm m) hw ((hS _ ho).imp fun _ hr => hr.1)
      exact ⟨m, hw', ho' ▸ ho⟩
  | ret x _ hk _ _ => exact ⟨m, by unfold Waits; rw [hk]; exact hw, by unfold owner; rw [hk]; exact ho⟩
  | quiet hq => rw [hq.waits.1, hq.waits.2]; exact ⟨m, hw, ho⟩

end

/-! ## すべての実行 -/

variable {node : Node → Lib.Link Node} {b : BootArgs} {ls ls' : List Label} {c c' : Machine Heap}
  {d : Machine Queues} {rank : MutexId → Nat} {S : Set TaskId}

theorem Sim.waits (h : Sim c d) : c.WaitsMutex = d.Waits := by
  funext t m
  simp only [WaitsMutex, Waits, h.tasksOf_eq, Queues.seq_wait]

theorem Sim.owner (h : Sim c d) : c.owner = d.owner := by
  funext m; simp only [Machine.owner, h.kernel.mutexes]

theorem Sim.calls (h : Sim c d) {l : Label} {x : Call} (hx : d.Calls l x) : c.Calls l x := by
  unfold Calls at hx ⊢
  rwa [h.curr, h.code]

/-- 決まった順序でミューテックスを取る実行で保たれること。 -/
structure OrderedInv (rank : MutexId → Nat) (c : Machine Heap) (d : Machine Queues) : Prop where
  sim : Sim c d
  inv : d.Inv
  ordered : Lib.Ordered d.Waits d.owner rank

theorem OrderedInv.step (h : OrderedInv rank c d) {l : Label} (hQ : c.LocksInOrder rank l)
    (hst : c.step l = some c') : ∃ d', OrderedInv rank c' d' := by
  obtain ⟨d', hd', hs'⟩ := h.sim.step h.inv hst
  have hstep := step_cases hd'
  refine ⟨d', hs', hstep.inv h.inv, (hstep.ipc h.inv).ordered h.inv (hstep.kernel_inv h.inv) ?_ h.ordered⟩
  intro m hm
  rw [← h.sim.owner, ← h.sim.curr]
  exact hQ m (h.sim.calls hm) (by simp [hst])

/-- どのタスクも、実行するすべての `mutex_lock` で、持っているミューテックスより順序が上のものを取るなら、起動からの
どの実行でもデッドロックは起こらない。待ちの関係は輪にならず、行き詰まった集まりもなく、待っているどのタスクからも、待ちを
たどった先に、どのミューテックスも待っていない持ち主がいる。 -/
theorem no_deadlock_of_locksInOrder (rank : MutexId → Nat) (h : Reaches node b ls c)
    (hQ : Lib.Along Machine.step (LocksInOrder rank) (Machine.boot (Heap.empty node) b) ls) :
    (∀ t, ¬ Relation.TransGen (Lib.WaitsFor c.WaitsMutex c.owner) t t) ∧
    (∀ S, Lib.Stuck c.WaitsMutex c.owner S → S = ∅) ∧
    (∀ t, Lib.Waiting c.WaitsMutex t →
      ∃ u, Relation.TransGen (Lib.WaitsFor c.WaitsMutex c.owner) t u ∧ ¬ Lib.Waiting c.WaitsMutex u) := by
  obtain ⟨d, hs, hd, hord⟩ := Lib.exec_invariant_along (I := fun c => ∃ d, OrderedInv rank c d)
    (fun c l c' ⟨d, hd⟩ hQ hst => hd.step hQ hst) h hQ
    ⟨_, sim_boot b node, inv_boot b, fun t m m' ht _ => by unfold Waits at ht; rw [boot_lists] at ht; cases ht⟩
  rw [hs.waits, hs.owner]
  exact ⟨hord.acyclic, fun S => hord.not_stuck hd.waiting_finite, fun t => hord.exists_root hd.waiting_finite⟩

/-- `gdt` を一番上、その次を `other 0` とする順序。 -/
def gdtLast (m : MutexId) : Nat := if m = .gdt then 2 else if m = .other 0 then 1 else 0

/-- `gdt` を持たないタスクが `other 0` を取ること。ほかの呼び出しは問わない。 -/
def locksGdtLast (c : Machine Heap) : Label → Bool
  | .call (.mutexLock m) => m = .other 0 ∧ c.owner .gdt ≠ c.curr
  | _ => true

theorem locksInOrder_of_locksGdtLast {l : Label} (h : locksGdtLast c l = true) : c.LocksInOrder gdtLast l := by
  intro m hx _
  by_cases hm : c.owner m = c.curr
  · exact .inl hm
  · refine .inr fun m' ho => ?_
    have hne : m' ≠ m := by rintro rfl; exact hm ho
    rcases hx.2 with rfl | ⟨u, a, pc, rfl, -, hpc⟩
    · obtain ⟨rfl, hg⟩ := of_decide_eq_true h
      have hgdt : m' ≠ .gdt := by rintro rfl; exact hg ho
      simp [gdtLast, hne, hgdt]
    · obtain rfl : m = .gdt := by cases pc <;> cases hpc; rfl
      simp only [gdtLast, if_neg hne, if_pos]
      split <;> omega

theorem no_deadlock_of_locksInOrder_blocked :
    ∃ c, Reaches (fun _ => ⟨none, none⟩) .zero (.call (.mutexLock (.other 0)) :: (initRun 3 13 ++
        [.call .sysSchedYield, .call (.mutexLock (.other 0))])) c ∧
      c.tasksOf (.wait (.mutex (.other 0))) = [3] ∧
      ∃ u, Relation.TransGen (Lib.WaitsFor c.WaitsMutex c.owner) 3 u ∧ ¬ Lib.Waiting c.WaitsMutex u := by
  have hcount : Lib.countAlong Machine.step (fun c l => !locksGdtLast c l)
      (Machine.boot (Heap.empty fun _ => ⟨none, none⟩) .zero) (.call (.mutexLock (.other 0)) :: (initRun 3 13 ++
        [.call .sysSchedYield, .call (.mutexLock (.other 0))])) = 0 := by decide +kernel
  obtain ⟨c, hc, hp⟩ := Option.any_eq_true _ _ |>.mp
    (show (Lib.exec Machine.step (Machine.boot (Heap.empty fun _ => ⟨none, none⟩) .zero)
      (.call (.mutexLock (.other 0)) :: (initRun 3 13 ++
        [.call .sysSchedYield, .call (.mutexLock (.other 0))]))).any
      (fun c => decide (c.tasksOf (.wait (.mutex (.other 0))) = [3])) = true by decide +kernel)
  have hw := of_decide_eq_true hp
  obtain ⟨-, -, hroot⟩ := no_deadlock_of_locksInOrder gdtLast hc
    ((Lib.along_of_countAlong_eq_zero hcount).mono fun c l hl => locksInOrder_of_locksGdtLast (by simpa using hl))
  exact ⟨c, hc, hw, hroot 3 ⟨.other 0, by simp [WaitsMutex, hw]⟩⟩

/-- 起動から到達した状態で行き詰まったタスクの集まりは、その後のどの実行でも行き詰まったままで、その中のタスクは二度と
実行されない。 -/
theorem deadlock_forever (h : Reaches node b ls c) (hS : Lib.Stuck c.WaitsMutex c.owner S)
    (hrun : Lib.exec Machine.step c ls' = some c') :
    Lib.Stuck c'.WaitsMutex c'.owner S ∧ c'.curr ∉ S := by
  obtain ⟨d, hs, hd, -, hsu, hm⟩ := h.ipc (P := fun d => ∀ m, d.MutexInv m) (boot_mutexInv b)
    fun d l d' hd hsu hm hi m => hi.mutexInv hd hsu (hm m)
  rw [hs.waits, hs.owner] at hS
  obtain ⟨d', hrun', hs', -⟩ := hs.exec hd hrun
  have hall := Lib.exec_invariant
    (I := fun d : Machine Queues => d.Inv ∧ d.SuspInv ∧ (∀ m, d.MutexInv m) ∧ Lib.Stuck d.Waits d.owner S)
    (fun d l d' ⟨hd, hsu, hm, hS⟩ hst =>
      have hi := (step_cases hst).ipc hd
      ⟨hd.step hst, hi.suspInv hd ((step_cases hst).kernel_inv hd) hsu,
        fun m => hi.mutexInv hd hsu (hm m), hi.stuck hd hm hS⟩) hrun' ⟨hd, hsu, hm, hS⟩
  obtain ⟨hd', -, -, hS'⟩ := hall
  rw [hs'.waits, hs'.owner, hs'.curr]
  refine ⟨hS', fun hc => ?_⟩
  obtain ⟨m, hw, -⟩ := hS' _ hc
  exact hd'.waits_ne_curr hw rfl

/-- 二つのタスクが二つのミューテックスを逆の順序で取ると、どちらも二度と実行されない。 -/
theorem deadlock_forever_crossed :
    ∃ c, Reaches (fun _ => ⟨none, none⟩) .zero (.call (.mutexLock (.other 0)) :: (initRun 3 13 ++
        [.call .sysSchedYield, .call (.mutexLock (.other 1)), .call .sysSchedYield, .resume,
          .call (.mutexLock (.other 1)), .resume, .call (.mutexLock (.other 0))])) c ∧
      ∀ ls' c', Lib.exec Machine.step c ls' = some c' → c'.curr ≠ 2 ∧ c'.curr ≠ 3 := by
  obtain ⟨c, hc, hp⟩ := Option.any_eq_true _ _ |>.mp
    (show (Lib.exec Machine.step (Machine.boot (Heap.empty fun _ => ⟨none, none⟩) .zero)
      (.call (.mutexLock (.other 0)) :: (initRun 3 13 ++
        [.call .sysSchedYield, .call (.mutexLock (.other 1)), .call .sysSchedYield, .resume,
          .call (.mutexLock (.other 1)), .resume, .call (.mutexLock (.other 0))]))).any
      (fun c => decide (c.tasksOf (.wait (.mutex (.other 1))) = [2] ∧ c.tasksOf (.wait (.mutex (.other 0))) = [3] ∧
        c.owner (.other 0) = 2 ∧ c.owner (.other 1) = 3)) = true by decide +kernel)
  obtain ⟨h₂, h₃, ho₂, ho₃⟩ := of_decide_eq_true hp
  have hS : Lib.Stuck c.WaitsMutex c.owner {2, 3} := by
    rintro t (rfl | rfl)
    · exact ⟨.other 1, by simp [WaitsMutex, h₂], by simp [ho₃]⟩
    · exact ⟨.other 0, by simp [WaitsMutex, h₃], by simp [ho₂]⟩
  refine ⟨c, hc, fun ls' c' hrun => ?_⟩
  have hcurr := (deadlock_forever hc hS hrun).2
  simpa using hcurr

end Machine

end IdealX86
