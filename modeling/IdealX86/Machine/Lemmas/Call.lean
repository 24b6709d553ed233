import IdealX86.Core.Lemmas.Effect
import IdealX86.Machine.Step

/-!
# 呼び出しの結果

タスクの行う呼び出しをまとめて扱い、不変条件と対応を保つことと、並びをどう動かすかを示す。
-/

namespace IdealX86

def Call.waitsOn : Call → Option WaitId
  | .semWait s => some (.sem s)
  | .mutexLock m => some (.mutex m)
  | _ => none

def Call.wakes : Call → Option WaitId
  | .semNotify s => some (.sem s)
  | .mutexUnlock m => some (.mutex m)
  | _ => none

namespace Kernel

variable {k : Kernel Heap} {a : Kernel Queues} {t : TaskId}

theorem Inv.call (h : a.Inv) (hc : a.currTask ≠ idleTask) (x : Call) : (a.call x).Inv := by
  cases x with
  | sysSchedYield => exact h.sysSchedYield
  | sysSleep ms => exact h.sysSleep hc ms
  | semWait s => exact h.semWait hc s
  | semNotify s => exact h.semNotify s
  | mutexLock m => exact h.mutexLock hc m
  | mutexUnlock m => exact h.mutexUnlock m

theorem Sim.call (hs : Sim k a) (h : a.Inv) (x : Call) : Sim (k.call x) (a.call x) := by
  cases x with
  | sysSchedYield => exact hs.sysSchedYield h
  | sysSleep ms => exact hs.sysSleep h ms
  | semWait s => exact hs.semWait h s
  | semNotify s => exact hs.semNotify h s
  | mutexLock m => exact hs.mutexLock h m
  | mutexUnlock m => exact hs.mutexUnlock h m

theorem Sim.callEvents (hs : Sim k a) (x : Call) : k.callEvents x = a.callEvents x := by
  cases x <;>
    simp only [Kernel.callEvents, hs.sems, hs.mutexes, hs.currTask, hs.count_eq, (hs.removeWaiter _).1]

/-! ## 並びの動き -/

inductive CallMoves (a : Kernel Queues) (x : Call) : Queues → Prop where
  | same : CallMoves a x a.lists
  | rotate : CallMoves a x { a.lists with ready := a.lists.ready.rotate 1 }
  /-- `ticks` が 0 の `sys_sleep`。今のタスクはどこにもつながれない。 -/
  | drop (ms : UInt32) (hx : x = .sysSleep ms) (hz : sleepTicks ms = 0) :
      CallMoves a x { a.lists with ready := a.lists.ready.tail }
  | sleep (ms : UInt32) (hx : x = .sysSleep ms) (hz : sleepTicks ms ≠ 0) :
      CallMoves a x { a.lists with ready := a.lists.ready.tail, sleep := a.lists.sleep ++ [a.currTask] }
  | wait (w : WaitId) (hx : x.waitsOn = some w) :
      CallMoves a x
        { a.lists with ready := a.lists.ready.tail
                       wait := Function.update a.lists.wait w (a.lists.wait w ++ [a.currTask]) }
  | wake (w : WaitId) (t : TaskId) (ts : List TaskId) (hx : x.wakes = some w)
      (hw : a.lists.wait w = t :: ts) :
      CallMoves a x
        { a.lists with ready := a.lists.ready ++ [t], wait := Function.update a.lists.wait w ts }

theorem Inv.mutexLock_moves (h : a.Inv) (hc : a.currTask ≠ idleTask) (m : MutexId) :
    CallMoves a (.mutexLock m) (a.mutexLock m).lists := by
  unfold Kernel.mutexLock
  dsimp only
  split
  · exact .same
  · split
    · exact .same
    · rw [h.waitOn_lists hc]; exact .wait _ rfl

theorem Inv.mutexUnlock_moves (h : a.Inv) (m : MutexId) :
    CallMoves a (.mutexUnlock m) (a.mutexUnlock m).lists := by
  rw [mutexUnlock_eq]
  split
  · split
    · split
      · obtain ⟨t, ts, hw⟩ := wait_ne_nil _ ‹_›
        rw [taskDispatch_lists, setMutex_lists, h.wakeFirst_lists hw]
        exact .wake _ _ _ rfl hw
      · exact .same
    · exact .same
  · exact .same

theorem Inv.semWait_moves (h : a.Inv) (hc : a.currTask ≠ idleTask) (s : SemId) :
    CallMoves a (.semWait s) (a.semWait s).lists := by
  unfold Kernel.semWait
  split
  · exact .same
  · rw [h.waitOn_lists hc]; exact .wait _ rfl

theorem Inv.semNotify_moves (h : a.Inv) (s : SemId) :
    CallMoves a (.semNotify s) (a.semNotify s).lists := by
  rw [semNotify_eq]
  split
  · obtain ⟨t, ts, hw⟩ := wait_ne_nil _ ‹_›
    rw [taskDispatch_lists, h.wakeFirst_lists hw]
    exact .wake _ _ _ rfl hw
  · exact .same

theorem Inv.call_moves (h : a.Inv) (hc : a.currTask ≠ idleTask) (x : Call) :
    CallMoves a x (a.call x).lists := by
  cases x with
  | sysSchedYield =>
      have hl : (a.call .sysSchedYield).lists = _ := h.sysSchedYield_lists
      rw [hl]; exact .rotate
  | sysSleep ms =>
      have hl : (a.call (.sysSleep ms)).lists = _ := h.sysSleep_lists hc ms
      rw [hl]
      by_cases hz : sleepTicks ms = 0
      · simp only [hz, ↓reduceIte]; exact .drop ms rfl hz
      · simp only [hz, ↓reduceIte]; exact .sleep ms rfl hz
  | semWait s => exact h.semWait_moves hc s
  | semNotify s => exact h.semNotify_moves s
  | mutexLock m => exact h.mutexLock_moves hc m
  | mutexUnlock m => exact h.mutexUnlock_moves m

theorem CallMoves.task {x : Call} {q : Queues} (h : CallMoves a x q) : q.task = a.lists.task := by
  cases h <;> rfl

theorem Inv.call_task (h : a.Inv) (hc : a.currTask ≠ idleTask) (x : Call) :
    (a.call x).lists.task = a.lists.task := (h.call_moves hc x).task

theorem CallMoves.ready {x : Call} {q : Queues} (h : CallMoves a x q) {ts : List TaskId}
    (hc : a.lists.ready = a.currTask :: ts) :
    ∃ ys, q.ready = a.lists.ready ++ ys ∨ q.ready = ts ++ ys := by
  cases h with
  | same => exact ⟨[], .inl (by simp)⟩
  | rotate => exact ⟨[a.currTask], .inr (by simp [hc])⟩
  | drop ms hx hz => exact ⟨[], .inr (by simp [hc])⟩
  | sleep ms hx hz => exact ⟨[], .inr (by simp [hc])⟩
  | wait w hx => exact ⟨[], .inr (by simp [hc])⟩
  | wake w u us hx hw => exact ⟨[u], .inl rfl⟩

/-! ## タスクの欄と GDT -/

section
variable {σ : Type} [ListStore σ] (k : Kernel σ)

theorem call_cores (x : Call) (u : TaskId) :
    (k.call x).cores u = k.cores u ∨
      ∃ ms, x = .sysSleep ms ∧ u = k.currTask ∧ sleepTicks ms ≠ 0 ∧
        (k.call x).cores u = { k.cores u with sleepTicks := (sleepTicks ms).toNat } := by
  cases x with
  | sysSleep ms =>
      have hs := sysSleep_cores k ms u
      split at hs
      · exact Or.inr ⟨ms, rfl, ‹_ ∧ _›.1, ‹_ ∧ _›.2, hs⟩
      · exact Or.inl hs
  | sysSchedYield => exact Or.inl (congrFun (sysSchedYield_cores k) u)
  | semWait s => exact Or.inl (congrFun (semWait_cores k s) u)
  | semNotify s => exact Or.inl (congrFun (semNotify_cores k s) u)
  | mutexLock m => exact Or.inl (congrFun (mutexLock_cores k m) u)
  | mutexUnlock m => exact Or.inl (congrFun (mutexUnlock_cores k m) u)

theorem call_gdt (x : Call) : (k.call x).gdt = k.gdt ∧ (k.call x).tssAddr = k.tssAddr := by
  cases x with
  | sysSleep ms => exact ⟨(sysSleep_frame k ms).2.2.1, (sysSleep_frame k ms).2.2.2⟩
  | sysSchedYield => exact ⟨(sysSchedYield_frame k).2.2.1, (sysSchedYield_frame k).2.2.2⟩
  | semWait s =>
      simp only [call, semWait]
      split
      · exact ⟨rfl, rfl⟩
      · exact ⟨(waitOn_frame k _).2.2.1, (waitOn_frame k _).2.2.2⟩
  | semNotify s =>
      simp only [call, semNotify_eq]
      split
      · simp [wakeFirst_frame k]
      · exact ⟨rfl, rfl⟩
  | mutexLock m =>
      simp only [call, mutexLock]
      split
      · exact ⟨rfl, rfl⟩
      · split
        · exact ⟨rfl, rfl⟩
        · exact ⟨(waitOn_frame k _).2.2.1, (waitOn_frame k _).2.2.2⟩
  | mutexUnlock m =>
      simp only [call, mutexUnlock_eq]
      split
      · split
        · split <;> simp [wakeFirst_frame k]
        · exact ⟨rfl, rfl⟩
      · exact ⟨rfl, rfl⟩

end

end Kernel

end IdealX86
