import IdealX86.Machine.Lemmas.Ipc
import IdealX86.Machine.SchedTheorems

/-!
# セマフォの収支

起動からのすべての実行で、セマフォの値と許可の数が釣り合い、待っているタスクが待ちに入った順に通ることを示す。
-/

namespace IdealX86

/-! ## 呼び出しの収支 -/

namespace Kernel

variable {a : Kernel Queues} {s : SemId}

theorem call_sems_of_ne {σ : Type} [ListStore σ] (k : Kernel σ) {x : Call} (h₁ : x ≠ .semWait s)
    (h₂ : x ≠ .semNotify s) : (k.call x).sems s = k.sems s := by
  cases x with
  | sysSchedYield => exact congrFun (sysSchedYield_frame k).2.1 s
  | sysSleep ms => exact congrFun (sysSleep_frame k ms).2.1 s
  | semWait s' =>
      have hs : s ≠ s' := fun he => h₁ (he ▸ rfl)
      simp only [call, semWait]
      split
      · simp [hs]
      · exact congrFun (waitOn_frame k _).2.1 s
  | semNotify s' =>
      have hs : s ≠ s' := fun he => h₂ (he ▸ rfl)
      simp only [call, semNotify_eq]
      split
      · simp [wakeFirst_frame k]
      · simp [hs]
  | mutexLock m =>
      simp only [call, mutexLock]
      split
      · rfl
      · split
        · rfl
        · exact congrFun (waitOn_frame k _).2.1 s
  | mutexUnlock m =>
      simp only [call, mutexUnlock_eq]
      split
      · split
        · split <;> simp [wakeFirst_frame k]
        · rfl
      · rfl

theorem callEvents_of_ne {σ : Type} [ListStore σ] (k : Kernel σ) {x : Call} (h₁ : x ≠ .semWait s)
    (h₂ : x ≠ .semNotify s) :
    notified s (k.callEvents x) = 0 ∧ taken s (k.callEvents x) = 0 ∧ woken s (k.callEvents x) = 0 := by
  cases x with
  | sysSchedYield => exact ⟨rfl, rfl, rfl⟩
  | sysSleep ms => exact ⟨rfl, rfl, rfl⟩
  | semWait s' =>
      have hs : s' ≠ s := fun he => h₁ (he ▸ rfl)
      simp only [callEvents]
      split <;> simp [notified, taken, woken, hs]
  | semNotify s' =>
      have hs : s' ≠ s := fun he => h₂ (he ▸ rfl)
      simp only [callEvents]
      split <;> simp [notified, taken, woken, hs]
  | mutexLock m =>
      simp only [callEvents]
      split
      · exact ⟨rfl, rfl, rfl⟩
      · split <;> exact ⟨rfl, rfl, rfl⟩
  | mutexUnlock m =>
      simp only [callEvents]
      split <;> exact ⟨rfl, rfl, rfl⟩

/-- 呼び出しの収支。増えた通知は、値か、通った `sem_wait` に回る。 -/
theorem call_ledger {σ : Type} [ListStore σ] (k : Kernel σ) (x : Call) (s : SemId) :
    (k.call x).sems s + taken s (k.callEvents x) + woken s (k.callEvents x) =
      k.sems s + notified s (k.callEvents x) := by
  by_cases h₁ : x = .semWait s
  · subst h₁
    simp only [call, semWait, callEvents]
    split
    · simp [taken, woken, notified]
    · simp [taken, woken, notified, waitOn_frame k]
  · by_cases h₂ : x = .semNotify s
    · subst h₂
      simp only [call, semNotify_eq, callEvents]
      split
      · simp [taken, woken, notified, wakeFirst_frame k]
      · simp [taken, woken, notified]
    · obtain ⟨e₁, e₂, e₃⟩ := callEvents_of_ne k h₁ h₂
      rw [call_sems_of_ne k h₁ h₂, e₁, e₂, e₃]
      simp

structure SemOk (a : Kernel Queues) (s : SemId) : Prop where
  nonneg : 0 ≤ a.sems s
  empty : 0 < a.sems s → a.lists.wait (.sem s) = []

theorem SemOk.semWait (h : a.SemOk s) : (a.semWait s).SemOk s := by
  unfold Kernel.semWait
  split
  · refine ⟨?_, fun _ => h.empty ‹_›⟩
    rw [setSem_sems, Function.update_self]; omega
  · rename_i hn
    have hs : (a.waitOn (.sem s)).sems s = a.sems s := congrFun (waitOn_frame a _).2.1 s
    exact ⟨hs ▸ h.nonneg, fun hp => absurd (hs ▸ hp) hn⟩

theorem SemOk.semNotify (h : a.SemOk s) : (a.semNotify s).SemOk s := by
  rw [semNotify_eq]
  split
  · rename_i hw
    have hs : (a.wakeFirst (.sem s)).taskDispatch.sems s = a.sems s := by simp [wakeFirst_frame a]
    refine ⟨hs ▸ h.nonneg, fun hp => ?_⟩
    rw [hs] at hp
    simp [h.empty hp] at hw
  · rename_i hw
    have hn := h.nonneg
    refine ⟨?_, fun _ => ?_⟩
    · rw [setSem_sems, Function.update_self]; omega
    · simpa using hw

theorem SemOk.call (h : a.SemOk s) (ha : a.Inv) (hc : a.currTask ≠ idleTask) (x : Call) :
    (a.call x).SemOk s := by
  by_cases h₁ : x = .semWait s
  · subst h₁; exact h.semWait
  · by_cases h₂ : x = .semNotify s
    · subst h₂; exact h.semNotify
    · have hs := call_sems_of_ne a h₁ h₂
      refine ⟨hs ▸ h.nonneg, fun hp => ?_⟩
      cases ha.call_queue hc x (.sem s) with
      | same hq _ _ => rw [hq]; exact h.empty (hs ▸ hp)
      | block hx _ _ _ => cases x <;> cases hx; exact absurd rfl h₁
      | wake t ts hx _ _ _ _ _ => cases x <;> cases hx; exact absurd rfl h₂

end Kernel

namespace Machine

variable {c c' : Machine Queues} {l : Label} {s : SemId} {n : Int}

structure SemInv (c : Machine Queues) (s : SemId) (n : Int) : Prop where
  ok : c.kernel.SemOk s
  ledger : n + notified s c.hist = c.kernel.sems s + taken s c.hist + woken s c.hist

theorem IpcStep.semInv (hst : c.IpcStep l c') (h : c.Inv) (hs : c.SemInv s n) : c'.SemInv s n := by
  cases hst with
  | call x hx hcs =>
      obtain ⟨-, -, hk, hh, -⟩ := hcs
      refine ⟨hk ▸ hs.ok.call h.kernel hx.1 x, ?_⟩
      have hl := Kernel.call_ledger c.kernel x s
      have hr := hs.ledger
      rw [hk, hh]
      simp only [notified, taken, woken, List.countP_append] at hl hr ⊢
      omega
  | ret x hnone hk hh hsusp =>
      refine ⟨hk ▸ hs.ok, ?_⟩
      have he : notified s (x.returnEvents c.curr) = 0 ∧ taken s (x.returnEvents c.curr) = 0 ∧
          woken s (x.returnEvents c.curr) = 0 := by
        cases x <;> exact ⟨rfl, rfl, rfl⟩
      have hr := hs.ledger
      rw [hk, hh]
      simp only [notified, taken, woken, List.countP_append] at he hr ⊢
      omega
  | quiet hq =>
      refine ⟨⟨hq.sems ▸ hs.ok.nonneg, ?_⟩, ?_⟩
      · rw [hq.sems, hq.wait]; exact hs.ok.empty
      · rw [hq.sems, hq.hist]; exact hs.ledger

theorem boot_semInv (b : BootArgs) (hn : 0 ≤ b.sems s) : (Machine.boot ({} : Queues) b).SemInv s (b.sems s) := by
  have hs := congrFun (boot_frame b).2.1 s
  refine ⟨⟨hs ▸ hn, fun _ => ?_⟩, ?_⟩
  · rw [boot_lists]
  · rw [hs]; simp [Machine.boot, notified, taken, woken]

theorem IpcStep.semWoken (hst : c.IpcStep l c') (h : c.Inv) (hk' : c'.kernel.Inv) {t : TaskId}
    (hw : t ∈ c.kernel.lists.wait (.sem s)) (hr : t ∈ c'.kernel.lists.ready) :
    l = .call (.semNotify s) ∧
      ∃ ts, c.kernel.lists.wait (.sem s) = t :: ts ∧ c'.kernel.lists.wait (.sem s) = ts := by
  have hnot : t ∉ c'.kernel.lists.wait (.sem s) := fun hm => by
    cases hk'.placed.once (.wait (.sem s)) .ready t (by simp) (by simp) hm hr
  cases hst with
  | call x hx hcs =>
      have hk := hcs.kernel
      rw [hk] at hnot
      cases h.kernel.call_queue hx.1 x (.sem s) with
      | same hq _ _ => rw [hq] at hnot; exact absurd hw hnot
      | block _ hq _ _ => rw [hq] at hnot; exact absurd (List.mem_append_left _ hw) hnot
      | wake u us hxw hu hq _ _ _ =>
          have hl : l = .call (.semNotify s) := by
            cases x <;> cases hxw
            rcases hx.2 with hl | ⟨_, _, pc, -, -, hp⟩
            · exact hl
            · cases pc <;> cases hp
          rw [hu] at hw
          rw [hq] at hnot
          have hut : t = u := (List.mem_cons.mp hw).resolve_right hnot
          exact ⟨hl, us, hut ▸ hu, by rw [hk, hq]⟩
  | ret x hnone hk hh hsusp => rw [hk] at hnot; exact absurd hw hnot
  | quiet hq => rw [hq.wait] at hnot; exact absurd hw hnot

end Machine

/-! ## すべての実行 -/

namespace Machine

variable {node : Node → Lib.Link Node} {b : BootArgs} {ls : List Label} {c : Machine Heap}

/-- 起動から到達できるどの状態でも、初めの値が負でないセマフォの値は負にならず、正ならだれも待っておらず、通知と通った
`sem_wait` の数が釣り合う。`sem_wait` で待つタスクは一つの `sem_notify` だけで戻り、待ちに入った順に通る。 -/
theorem semaphore_of_reaches (h : Reaches node b ls c) (s : SemId) (hn : 0 ≤ b.sems s) :
    0 ≤ c.kernel.sems s ∧ (0 < c.kernel.sems s → c.tasksOf (.wait (.sem s)) = []) ∧
    b.sems s + notified s c.hist = c.kernel.sems s + taken s c.hist + woken s c.hist ∧
    (∀ t l c', c.susp t = some (.call (.semWait s)) → t ∉ c.tasksOf .ready → c.step l = some c' →
      t ∈ c'.tasksOf .ready → l = .call (.semNotify s) ∧
        ∃ ts, c.tasksOf (.wait (.sem s)) = t :: ts ∧ c'.tasksOf (.wait (.sem s)) = ts) ∧
    c.hist.reverse.filterMap (Event.blockedOn (.sem s)) =
      c.hist.reverse.filterMap (Event.wokenFrom (.sem s)) ++ c.tasksOf (.wait (.sem s)) := by
  obtain ⟨d, hs, hd, hf, hsu, hse⟩ := h.ipc (P := fun d => d.SemInv s (b.sems s)) (boot_semInv b hn)
    fun d l d' hd _ hse hi => hi.semInv hd hse
  have hw := hs.tasksOf_eq (.wait (.sem s))
  rw [hs.kernel.sems, hs.hist, hw]
  refine ⟨hse.ok.nonneg, hse.ok.empty, hse.ledger, ?_, ?_⟩
  · intro t l c' hsus hnr hst hr
    obtain ⟨d', hst', hs'⟩ := hs.step hd hst
    rw [hs.tasksOf_eq] at hnr
    rw [hs'.tasksOf_eq] at hr ⊢
    rw [hs.susp] at hsus
    have hwt := (hsu.suspended hsus rfl).resolve_right hnr
    exact ((step_cases hst').ipc hd).semWoken hd ((step_cases hst').kernel_inv hd) hwt hr
  · exact hf.order (.sem s)

theorem semaphore_of_reaches_blocked :
    ∃ c, Reaches (fun _ => ⟨none, none⟩) .zero (initRun 3 13 ++ [.call (.semWait 0)]) c ∧
      c.tasksOf (.wait (.sem 0)) = [2] ∧
      ∀ l c', c.step l = some c' → 2 ∈ c'.tasksOf .ready → l = .call (.semNotify 0) := by
  obtain ⟨c, hc, hp⟩ := Option.any_eq_true _ _ |>.mp
    (show (Lib.exec Machine.step (Machine.boot (Heap.empty fun _ => ⟨none, none⟩) .zero)
      (initRun 3 13 ++ [.call (.semWait 0)])).any
      (fun c => decide (c.tasksOf (.wait (.sem 0)) = [2] ∧ c.susp 2 = some (.call (.semWait 0)) ∧
        2 ∉ c.tasksOf .ready)) = true by decide +kernel)
  obtain ⟨hw, hs, hr⟩ := of_decide_eq_true hp
  refine ⟨c, hc, hw, fun l c' hst hm => ?_⟩
  exact ((semaphore_of_reaches hc 0 (by decide)).2.2.2.1 2 l c' hs hr hst hm).1

end Machine

end IdealX86
