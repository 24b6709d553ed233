import IdealX86.Machine.Lemmas.Mutex
import IdealX86.Machine.SchedTheorems

/-!
# 再帰ミューテックスの安全

起動からのすべての実行で、持ち主と `locked_count` が履歴と一致し、`mutex_lock` から戻ってから最後の `mutex_unlock` までの間に
いるタスクが高々一つであることを示す。
-/

namespace IdealX86.Machine

/-! ## 一歩 -/

section
variable {c c' : Machine Queues} {l : Label} {m : MutexId} {x : Call}

theorem pends_ret (hsusp : c'.susp = Function.update c.susp c.curr none) (t : TaskId) :
    c'.Pends m t ↔ c.Pends m t ∧ t ≠ c.curr := by
  unfold Pends
  rw [hsusp, Function.update_apply]
  by_cases ht : t = c.curr <;> simp [ht]

theorem IpcStep.mutexInv (hst : c.IpcStep l c') (h : c.Inv) (hs : c.SuspInv) (hm : c.MutexInv m) :
    c'.MutexInv m := by
  cases hst with
  | call x hx hcs => exact hcs.mutexInv h hs hm
  | ret x hret hk hh hsusp =>
      by_cases hx : x = .mutexLock m
      · subst hx
        exact (hm.lock_ret hret (h.kernel.curr_not_waiting _) (hs.pends_ne_null h hret) hk (pends_ret hsusp) hh).2
      · have hne : ¬ c.Pends m c.curr := by
          unfold Pends
          rw [hret]
          simpa using hx
        refine hm.of_other (by rw [hk]) (by rw [hk]) (fun t => ?_) hh ?_
        · rw [pends_ret hsusp]
          exact ⟨fun h => h.1, fun h => ⟨h, fun he => hne (he ▸ h)⟩⟩
        · cases x <;> simp_all [Call.returnEvents, Event.mutex]
  | quiet hq =>
      have hh : c'.hist = [] ++ c.hist := hq.hist
      exact hm.of_other (by rw [hq.mutexes]) (by rw [hq.wait]) (fun t => hq.susp t _) hh (by simp)

theorem IpcStep.lockRet (hst : c.IpcStep l c') (h : c.Inv) (hm : c.MutexInv m)
    {t : TaskId} {es : List Event} (hes : c'.hist = es ++ c.hist) (he : .lockRet t m ∈ es) :
    (c'.kernel.mutexes m).owner = t := by
  cases hst with
  | call x hx hcs =>
      rw [List.append_cancel_right (hes.symm.trans hcs.hist)] at he
      rw [hcs.kernel]
      by_cases hxm : x = .mutexLock m
      · subst hxm
        simp only [Kernel.callEvents] at he
        simp only [Kernel.call, Kernel.mutexLock]
        split at he
        · rename_i h0; simp at he; simp [h0, he]
        · rename_i h0
          split at he
          · rename_i ho; simp at he; simp [h0, ho, he]
          · simp at he
      · by_cases hxu : x = .mutexUnlock m
        · subst hxu
          simp only [Kernel.callEvents] at he
          split at he <;> simp at he
        · exact absurd rfl (Kernel.callEvents_other c.kernel hxm hxu _ he)
  | ret x hret hk hh hsusp =>
      rw [List.append_cancel_right (hes.symm.trans hh)] at he
      cases x with
      | mutexLock m' =>
          simp only [Call.returnEvents, List.mem_singleton, Event.lockRet.injEq] at he
          obtain ⟨rfl, rfl⟩ := he
          rw [hk]
          exact (hm.pends hret).resolve_left (h.kernel.curr_not_waiting _)
      | _ => cases he
  | quiet hq =>
      have hnil : es = [] := List.append_cancel_right (hes.symm.trans hq.hist)
      rw [hnil] at he
      cases he

theorem boot_mutexInv (b : BootArgs) (m : MutexId) : (Machine.boot ({} : Queues) b).MutexInv m := by
  have hm := congrFun (boot_frame b).1 m
  have hw : (Machine.boot ({} : Queues) b).kernel.lists.wait (.mutex m) = [] := by rw [boot_lists]
  have hp : ∀ t, ¬ (Machine.boot ({} : Queues) b).Pends m t := fun t ht => by cases ht
  constructor
  · rw [hm]; simp
  · rw [hm]
  · rw [hw]; simp
  · rw [hw]; simp
  · intro t ht; exact absurd ht (hp t)
  · intro ht; exact absurd ht (hp _)
  · rw [hm]; simp
  · intro _; rw [hm]; rfl
  · intro _; rfl
  · intro t _; rfl

theorem MutexInv.owner_of_depth (h : c.MutexInv m) {t : TaskId} (ht : 0 < depth t m c.hist) :
    (c.kernel.mutexes m).owner = t := by
  by_contra hne
  rw [h.others t (Ne.symm hne)] at ht
  cases ht

end

/-! ## すべての実行 -/

variable {node : Node → Lib.Link Node} {b : BootArgs} {ls : List Label} {c : Machine Heap}

/-- 起動から到達できるどの状態でも、持ち主がないことと `locked_count` が 0 であることは同値で、`locked_count` は持ち主が得てから
取った回数と放した回数の差である。`mutex_lock` から戻ったタスクは持ち主で、戻ってから最後に放すまでの間にいるタスクは高々一つ、
待っているタスクがあれば持ち主はその外にいて、待ちに入った順に渡される。 -/
theorem mutex_of_reaches (h : Reaches node b ls c) (m : MutexId) :
    ((c.kernel.mutexes m).owner = nullTask ↔ (c.kernel.mutexes m).lockedCount = 0) ∧
    ((c.kernel.mutexes m).owner ≠ nullTask → (c.kernel.mutexes m).lockedCount =
      1 + (nestedBy (c.kernel.mutexes m).owner m (sinceGot m c.hist) : Int) -
        unlocksBy (c.kernel.mutexes m).owner m (sinceGot m c.hist)) ∧
    (∀ t l c' es, c.step l = some c' → c'.hist = es ++ c.hist → .lockRet t m ∈ es →
      (c'.kernel.mutexes m).owner = t) ∧
    (∀ t t', 0 < depth t m c.hist → 0 < depth t' m c.hist → t = t') ∧
    (c.tasksOf (.wait (.mutex m)) ≠ [] → (c.kernel.mutexes m).owner ≠ nullTask ∧
      (c.kernel.mutexes m).owner ∉ c.tasksOf (.wait (.mutex m))) ∧
    c.hist.reverse.filterMap (Event.blockedOn (.mutex m)) =
      c.hist.reverse.filterMap (Event.wokenFrom (.mutex m)) ++ c.tasksOf (.wait (.mutex m)) := by
  obtain ⟨d, hs, hd, hf, -, hm⟩ := h.ipc (P := fun d => d.MutexInv m) (boot_mutexInv b m)
    fun d l d' hd hsu hm hi => hi.mutexInv hd hsu hm
  have hw := hs.tasksOf_eq (.wait (.mutex m))
  rw [hs.kernel.mutexes, hs.hist, hw]
  refine ⟨hm.zero, fun ho => ?_, ?_, ?_, fun hne => ⟨hm.owned hne, hm.outside⟩, ?_⟩
  · have := hm.since ho; omega
  · intro t l c' es hst hes he
    obtain ⟨d', hst', hs'⟩ := hs.step hd hst
    rw [hs'.hist] at hes
    rw [hs'.kernel.mutexes]
    exact ((step_cases hst').ipc hd).lockRet hd hm hes he
  · intro t t' ht ht'
    exact (hm.owner_of_depth ht).symm.trans (hm.owner_of_depth ht')
  · exact hf.order (.mutex m)

theorem mutex_of_reaches_blocked :
    ∃ c, Reaches (fun _ => ⟨none, none⟩) .zero (initRun 3 13 ++ [.call (.mutexLock (.other 0)),
        .call .sysSchedYield, .call (.mutexLock (.other 0))]) c ∧
      c.tasksOf (.wait (.mutex (.other 0))) = [3] ∧ 0 < depth 2 (.other 0) c.hist ∧
      (c.kernel.mutexes (.other 0)).owner ≠ nullTask ∧ depth 3 (.other 0) c.hist = 0 := by
  obtain ⟨c, hc, hp⟩ := Option.any_eq_true _ _ |>.mp
    (show (Lib.exec Machine.step (Machine.boot (Heap.empty fun _ => ⟨none, none⟩) .zero)
      (initRun 3 13 ++ [.call (.mutexLock (.other 0)), .call .sysSchedYield,
        .call (.mutexLock (.other 0))])).any
      (fun c => decide (c.tasksOf (.wait (.mutex (.other 0))) = [3] ∧ 0 < depth 2 (.other 0) c.hist)) = true
      by decide +kernel)
  obtain ⟨hw, hd⟩ := of_decide_eq_true hp
  obtain ⟨-, -, -, hex, hown, -⟩ := mutex_of_reaches hc (.other 0)
  refine ⟨c, hc, hw, hd, (hown (by rw [hw]; simp)).1, ?_⟩
  by_contra hne
  have h23 := hex 2 3 hd (Nat.pos_of_ne_zero hne)
  cases h23

end IdealX86.Machine
