import IdealX86.Machine.Console
import IdealX86.Machine.Lemmas.Mutex

/-!
# ログを書く機械の不変条件

一歩の場合分け（`Console.Step`）を取り出し、`log_mutex` の持ち主と `locked_count` が残りのコードと釣り合うことを示す。
持ち主は `log_printf` の中にいるので眠らず、`ready_list` から外れない。したがって `idle_task` が `log_mutex` を
待つことはなく、スケジューラの不変条件と、ヒープの機械との対応も保たれる。
-/

namespace IdealX86

open Kernel (InitPc)

namespace Console

section
variable {σ : Type} [ListStore σ] {c c' : Console σ} {l : ConsoleLabel}

inductive Step (c : Console σ) : ConsoleLabel → Console σ → Prop where
  | tick (hi : c.interruptible = true) : Step c .tick c.doTick
  | run (i : Instr) (p : List Instr) (hr : c.rest c.curr = i :: p) : Step c .run (c.doRun p i)
  | printf (s : List Byte) (hr : c.rest c.curr = []) (ho : c.code c.curr = .own) (hi : c.curr ≠ idleTask) :
      Step c (.printf s) (c.setRest [.print true s])
  | call (x : Call) (hr : c.rest c.curr = []) (ho : c.code c.curr = .own) (hi : c.curr ≠ idleTask)
      (hx : x.onLog = false) : Step c (.call x) (c.settle (c.kernel.call x) [])
  | initStart (u : TaskId) (a : InitArgs) (hr : c.rest c.curr = []) (ho : c.code c.curr = .own)
      (hi : c.curr ≠ idleTask) (hn : u ≠ nullTask) (hu : u ∉ c.used) :
      Step c (.initStart u a) { c.setCode (.init u a .lock) with used := u :: c.used }
  | initStep (u : TaskId) (a : InitArgs) (pc : InitPc) (hr : c.rest c.curr = [])
      (hc : c.code c.curr = .init u a pc) : Step c .initStep (c.doInit u a pc)

theorem step_cases (h : c.step l = some c') : c.Step l c' := by
  cases l with
  | tick =>
      simp only [step] at h
      split at h
      · cases h; exact .tick ‹_›
      · cases h
  | run =>
      simp only [step] at h
      split at h
      · cases h
      · cases h; exact .run _ _ ‹_›
  | printf s =>
      simp only [step] at h
      split at h
      · split at h
        · cases h; exact .printf s ‹_› ‹_› ‹_›
        · cases h
      · cases h
  | call x =>
      simp only [step] at h
      split at h
      · split at h
        · rename_i hx; cases h; exact .call x ‹_› ‹_› hx.1 hx.2
        · cases h
      · cases h
  | initStart u a =>
      simp only [step] at h
      split at h
      · split at h
        · rename_i hu; cases h; exact .initStart u a ‹_› ‹_› hu.1 hu.2.1 hu.2.2
        · cases h
      · cases h
  | initStep =>
      simp only [step] at h
      split at h
      · cases h; exact .initStep _ _ _ ‹_› ‹_›
      · cases h

/-- `log_printf` の途中を忘れた機械。 -/
def machine (c : Console σ) : Machine σ := ⟨c.kernel, c.code, fun _ => none, c.used, []⟩

theorem doInit_frame (c : Console σ) (u : TaskId) (a : InitArgs) (pc : InitPc) :
    (c.doInit u a pc).kernel = (c.machine.doInit u a pc).kernel ∧
      (c.doInit u a pc).code = (c.machine.doInit u a pc).code ∧ (c.doInit u a pc).used = c.used := by
  rw [Machine.doInit_kernel, (Machine.doInit_frame _ u a pc).1]
  unfold doInit
  cases initCall pc <;> exact ⟨rfl, rfl, rfl⟩

end

end Console

/-! ## 取る回数と放す回数 -/

/-- この位置の実行の前に `n` 回取っているときの、後の回数。取っていないミューテックスは放せない。 -/
def Instr.depth (n : Nat) : Instr → Option Nat
  | .lock _ => some (n + 1)
  | .unlock _ => if n = 0 then none else some (n - 1)
  | _ => some n

/-- `n` 回取った状態からコードを実行し終えると、すべて放している。 -/
def Runs : Nat → List Instr → Prop
  | n, [] => n = 0
  | n, i :: p => ∃ n', i.depth n = some n' ∧ Runs n' p

theorem Runs.logPrintf {n : Nat} {p : List Instr} (h : Runs n p) (f : Bool) (k : Nat) (s : List Byte) :
    Runs n (logPrintf f k s ++ p) := by
  simpa [IdealX86.logPrintf, Runs, Instr.depth] using h

namespace Kernel

variable {a : Kernel Queues} {t : TaskId}

/-- `t` が `log_mutex` を取った回数。待っているタスクは、取ってから起こされるので、取ったものとして数える。 -/
def logDepth (a : Kernel Queues) (t : TaskId) : Nat :=
  (if (a.mutexes .log).owner = t then (a.mutexes .log).lockedCount.toNat else 0) +
    if t ∈ a.lists.wait (.mutex .log) then 1 else 0

/-- `log_mutex` の持ち主は、`idle_task` でなければ `ready_list` にいる。 -/
structure LogOwned (a : Kernel Queues) : Prop where
  nonneg : 0 ≤ (a.mutexes .log).lockedCount
  ready : (a.mutexes .log).lockedCount ≠ 0 →
    (a.mutexes .log).owner ∈ a.lists.ready ∨ (a.mutexes .log).owner = idleTask

theorem Inv.logDepth_curr (h : a.Inv) : a.logDepth a.currTask =
    if (a.mutexes .log).owner = a.currTask then (a.mutexes .log).lockedCount.toNat else 0 := by
  simp [logDepth, h.curr_not_waiting]

theorem LogOwned.curr_ne_idle (ho : a.LogOwned) (h : a.Inv) (h0 : (a.mutexes .log).lockedCount ≠ 0)
    (hne : (a.mutexes .log).owner ≠ a.currTask) : a.currTask ≠ idleTask := by
  intro hi
  rcases ho.ready h0 with hr | hr
  · rw [h.ready_nil hi] at hr; cases hr
  · exact hne (hr.trans hi.symm)

/-! ## `log_mutex` に触れない変化 -/

/-- `log_mutex` とその待ち行列が変わらない。 -/
def SameLog (a b : Kernel Queues) : Prop :=
  b.mutexes .log = a.mutexes .log ∧ b.lists.wait (.mutex .log) = a.lists.wait (.mutex .log)

theorem SameLog.logDepth {b : Kernel Queues} (h : a.SameLog b) (t : TaskId) : b.logDepth t = a.logDepth t := by
  unfold Kernel.logDepth
  rw [h.1, h.2]

theorem SameLog.logOwned {b : Kernel Queues} (h : a.SameLog b) (ho : a.LogOwned)
    (hr : (a.mutexes .log).lockedCount ≠ 0 → (a.mutexes .log).owner ∈ a.lists.ready →
      (a.mutexes .log).owner ∈ b.lists.ready) : b.LogOwned := by
  refine ⟨h.1 ▸ ho.nonneg, ?_⟩
  rw [h.1]
  exact fun h0 => (ho.ready h0).imp_left (hr h0)

theorem Inv.sameLog_rotate (h : a.Inv) : a.SameLog a.rotate :=
  ⟨congrFun (rotate_mutexes a) _, by rw [h.rotate_lists]⟩

theorem Inv.sameLog_tickSleep (h : a.Inv) : a.SameLog a.tickSleep :=
  ⟨congrFun h.tickSleep_frame.1 _, by rw [h.tickSleep_lists]⟩

theorem Inv.sameLog_call (h : a.Inv) (hc : a.currTask ≠ idleTask) {x : Call} (hx : x.onLog = false) :
    a.SameLog (a.call x) := by
  refine ⟨call_mutexes_of_ne a ?_ ?_, ?_⟩
  · rintro rfl; cases hx
  · rintro rfl; cases hx
  · cases h.call_queue hc x (.mutex .log) with
    | same hw => exact hw
    | block hw => cases x <;> simp_all [Call.waitsOn, Call.onLog]
    | wake t ts hw => cases x <;> simp_all [Call.wakes, Call.onLog]

theorem sameLog_initLocal (a : Kernel Queues) {u : TaskId} (hu : u ≠ idleTask) (x : InitArgs) (pc : InitPc) :
    a.SameLog (a.initLocal u x pc) ∧ ∀ t ∈ a.lists.ready, t ∈ (a.initLocal u x pc).lists.ready := by
  cases pc with
  | publish =>
      obtain ⟨-, hm, -⟩ := taskPublish_frame a u
      refine ⟨⟨congrFun hm _, ?_⟩, fun t ht => ?_⟩ <;> simp only [Kernel.initLocal]
      · rw [taskPublish_lists a hu]
      · rw [taskPublish_lists a hu]; exact List.mem_append_left _ ht
  | _ => exact ⟨⟨rfl, rfl⟩, fun _ h => h⟩

/-! ## `log_mutex` を取ることと放すこと -/

/-- 今のタスクが `log_mutex` の数を書き換えても、ほかのタスクの取った回数は変わらない。 -/
theorem Inv.setMutex_logDepth (h : a.Inv) (hc : (a.mutexes .log).lockedCount = 0 ∨ (a.mutexes .log).owner = a.currTask)
    {x : Mutex} (hx : x.lockedCount = 0 ∨ x.owner = a.currTask) (t : TaskId) :
    (a.setMutex .log x).logDepth t = if t = a.currTask then x.lockedCount.toNat else a.logDepth t := by
  have hw := h.curr_not_waiting (.mutex .log)
  have hold : t ≠ a.currTask → (if (a.mutexes .log).owner = t then (a.mutexes .log).lockedCount.toNat else 0) = 0 := by
    intro ht
    rcases hc with hc | hc
    · simp [hc]
    · rw [hc, if_neg (Ne.symm ht)]
  have hnew : (if x.owner = t then x.lockedCount.toNat else 0) = if t = a.currTask then x.lockedCount.toNat else 0 := by
    rcases hx with hx | hx
    · simp [hx]
    · rw [hx, if_congr eq_comm rfl rfl]
  simp only [logDepth, setMutex_mutexes, Function.update_self, setMutex_lists, hnew]
  by_cases ht : t = a.currTask
  · simp [ht, hw]
  · simp only [ht, hold ht, ↓reduceIte]
    rfl

theorem Inv.mutexLock_log (h : a.Inv) (ho : a.LogOwned) :
    (a.mutexLock .log).Inv ∧ (a.mutexLock .log).lists.task = a.lists.task := by
  by_cases h0 : (a.mutexes .log).lockedCount = 0
  · have hk : a.mutexLock .log = a.setMutex .log ⟨a.currTask, 1⟩ := by simp [Kernel.mutexLock, h0]
    rw [hk]
    exact ⟨h.of_lists rfl rfl, rfl⟩
  · by_cases hc : (a.mutexes .log).owner = a.currTask
    · have hk : a.mutexLock .log = a.setMutex .log ⟨a.currTask, (a.mutexes .log).lockedCount + 1⟩ := by
        simp [Kernel.mutexLock, h0, hc]
      rw [hk]
      exact ⟨h.of_lists rfl rfl, rfl⟩
    · have hi := ho.curr_ne_idle h h0 hc
      exact ⟨h.mutexLock hi _, h.call_task hi (.mutexLock .log)⟩

theorem LogOwned.mutexLock (ho : a.LogOwned) (h : a.Inv) : (a.mutexLock .log).LogOwned ∧
    ∀ t, (a.mutexLock .log).logDepth t = a.logDepth t + if t = a.currTask then 1 else 0 := by
  have hn := ho.nonneg
  have hd := h.logDepth_curr
  by_cases h0 : (a.mutexes .log).lockedCount = 0
  · have hk : a.mutexLock .log = a.setMutex .log ⟨a.currTask, 1⟩ := by simp [Kernel.mutexLock, h0]
    rw [hk]
    refine ⟨⟨by simp, fun _ => ?_⟩, fun t => ?_⟩
    · by_cases hi : a.currTask = idleTask
      · exact .inr (by simpa using hi)
      · exact .inl (by simpa using h.curr_mem hi)
    · rw [h.setMutex_logDepth (.inl h0) (.inr rfl)]
      by_cases ht : t = a.currTask
      · simp [ht, hd, h0]
      · simp [ht]
  · by_cases hc : (a.mutexes .log).owner = a.currTask
    · have hk : a.mutexLock .log = a.setMutex .log ⟨a.currTask, (a.mutexes .log).lockedCount + 1⟩ := by
        simp [Kernel.mutexLock, h0, hc]
      rw [hk]
      refine ⟨⟨?_, fun _ => ?_⟩, fun t => ?_⟩
      · simp only [setMutex_mutexes, Function.update_self]; omega
      · simpa [hc] using ho.ready h0
      · rw [h.setMutex_logDepth (.inr hc) (.inr rfl)]
        by_cases ht : t = a.currTask
        · simp only [ht, hd, hc, ↓reduceIte]; omega
        · simp [ht]
    · have hi := ho.curr_ne_idle h h0 hc
      obtain ⟨ts, hr⟩ := h.ready_cons hi
      have hk : a.mutexLock .log = a.waitOn (.mutex .log) := by simp [Kernel.mutexLock, h0, hc]
      have hm : (a.waitOn (.mutex .log)).mutexes .log = a.mutexes .log := congrFun (waitOn_frame a _).1 _
      rw [hk]
      refine ⟨⟨hm ▸ hn, ?_⟩, fun t => ?_⟩
      · rw [hm, h.waitOn_lists hi, hr]
        refine fun h0 => (ho.ready h0).imp_left fun hm => ?_
        rw [hr] at hm
        exact (List.mem_cons.mp hm).resolve_left hc
      · unfold Kernel.logDepth
        rw [hm, h.waitOn_lists hi]
        by_cases ht : t = a.currTask
        · subst ht; simp [hc, h.curr_not_waiting]
        · simp [ht]

/-- 放した `log_mutex` は、最初に待っているタスクに渡る。 -/
theorem Inv.handOver_log (h : a.Inv) (hc : (a.mutexes .log).owner = a.currTask) (hh : a.handsOver .log) :
    (a.mutexUnlock .log).LogOwned ∧
      ∀ t, (a.mutexUnlock .log).logDepth t = a.logDepth t - if t = a.currTask then 1 else 0 := by
  have hw := h.curr_not_waiting (.mutex .log)
  obtain ⟨u, us, hu⟩ := wait_ne_nil _ hh.2.2
  have huc : u ≠ a.currTask := by rintro rfl; exact hw (by simp [hu])
  have hnd : u ∉ us := by
    have := h.placed.nodup (.wait (.mutex .log))
    rw [Queues.seq_wait, hu] at this
    exact (List.nodup_cons.mp this).1
  have hm : (a.mutexUnlock .log).mutexes .log = ⟨u, 1⟩ := by
    rw [mutexUnlock_of_handsOver hh, removeWaiter_of_cons hu]; simp
  have hl : (a.mutexUnlock .log).lists =
      { a.lists with ready := a.lists.ready ++ [u]
                     wait := Function.update a.lists.wait (.mutex .log) us } := by
    rw [mutexUnlock_of_handsOver hh, taskDispatch_lists, setMutex_lists, h.wakeFirst_lists hu]
  have h1 : (a.mutexes .log).lockedCount = 1 := by have := hh.2.1; omega
  refine ⟨⟨by rw [hm]; simp, fun _ => .inl ?_⟩, fun t => ?_⟩
  · rw [hm, hl]; simp
  · unfold Kernel.logDepth
    rw [hm, hl, hc, h1, hu]
    by_cases ht : t = a.currTask
    · subst ht; rw [hu] at hw; simp_all
    · by_cases htu : t = u
      · subst htu; simp [ht, Ne.symm ht, hnd]
      · simp [ht, htu, Ne.symm ht, Ne.symm htu]

theorem LogOwned.mutexUnlock (ho : a.LogOwned) (h : a.Inv) (hd : a.logDepth a.currTask ≠ 0) :
    (a.mutexUnlock .log).LogOwned ∧
      ∀ t, (a.mutexUnlock .log).logDepth t = a.logDepth t - if t = a.currTask then 1 else 0 := by
  have hcurr := h.logDepth_curr
  have hc : (a.mutexes .log).owner = a.currTask := by
    by_contra hne; simp [hcurr, hne] at hd
  simp only [hcurr, hc, ↓reduceIte] at hd
  by_cases hh : a.handsOver .log
  · exact h.handOver_log hc hh
  · rw [mutexUnlock_of_not hh, if_pos hc]
    by_cases h1 : (a.mutexes .log).lockedCount - 1 = 0
    · rw [if_pos h1]
      refine ⟨⟨by simp, fun h0 => absurd (by simp) h0⟩, fun t => ?_⟩
      rw [h.setMutex_logDepth (.inr hc) (.inl rfl)]
      by_cases ht : t = a.currTask
      · simp only [ht, hcurr, hc, ↓reduceIte]; omega
      · simp [ht]
    · rw [if_neg h1]
      refine ⟨⟨?_, fun _ => ?_⟩, fun t => ?_⟩
      · simp only [setMutex_mutexes, Function.update_self]; omega
      · simpa using ho.ready (by omega)
      · rw [h.setMutex_logDepth (x := ⟨_, (a.mutexes .log).lockedCount - 1⟩) (.inr hc) (.inr hc)]
        by_cases ht : t = a.currTask
        · simp only [ht, hcurr, hc, ↓reduceIte]; omega
        · simp [ht]

end Kernel

/-! ## 不変条件 -/

namespace Console

/-- ログを書く機械の不変条件。`log_mutex` を取った回数は、残りのコードが放す回数に等しい。 -/
structure Inv (c : Console Queues) : Prop where
  machine : c.machine.Inv
  owned : c.kernel.LogOwned
  runs : ∀ t, Runs (c.kernel.logDepth t) (c.rest t)

variable {c c' : Console Queues} {l : ConsoleLabel} {k : Kernel Queues} {i : Instr} {p : List Instr}

theorem Inv.kernel (h : c.Inv) : c.kernel.Inv := h.machine.kernel

theorem Inv.update (h : c.Inv) (hm : c'.machine.Inv) (ho : c'.kernel.LogOwned)
    (hr : c'.rest = Function.update c.rest c.curr p)
    (hd : ∀ t, t ≠ c.curr → c'.kernel.logDepth t = c.kernel.logDepth t)
    (hp : Runs (c'.kernel.logDepth c.curr) p) : c'.Inv := by
  refine ⟨hm, ho, fun t => ?_⟩
  rw [hr, Function.update_apply]
  split
  · rename_i ht; rw [ht]; exact hp
  · rename_i ht; rw [hd t ht]; exact h.runs t

theorem runs_settle {n : Nat} (hp : Runs n p) (q : Prop) [Decidable q] (u : TaskId) :
    Runs n (if q then p else .dispatched u :: p) := by
  split
  · exact hp
  · exact ⟨n, rfl, hp⟩

theorem Inv.settle (h : c.Inv) (hk : k.Inv) (ht : k.lists.task = c.kernel.lists.task) (ho : k.LogOwned)
    (hd : ∀ t, t ≠ c.curr → k.logDepth t = c.kernel.logDepth t) (hp : Runs (k.logDepth c.curr) p) :
    (c.settle k p).Inv :=
  h.update (h.machine.of_same hk ht rfl rfl) ho rfl hd (runs_settle hp _ _)

theorem Inv.settle_same (h : c.Inv) (hk : k.Inv) (ht : k.lists.task = c.kernel.lists.task)
    (hs : c.kernel.SameLog k) (ho : k.LogOwned) (hp : Runs (c.kernel.logDepth c.curr) p) :
    (c.settle k p).Inv :=
  h.settle hk ht ho (fun t _ => hs.logDepth t) (hs.logDepth _ ▸ hp)

theorem Inv.setRest (h : c.Inv) (hp : Runs (c.kernel.logDepth c.curr) p) : (c.setRest p).Inv :=
  h.update h.machine h.owned rfl (fun _ _ => rfl) hp

theorem Inv.sliceEnd (h : c.Inv) (hp : Runs (c.kernel.logDepth c.curr) p) :
    (c.settle c.kernel.resetSlice.rotate p).Inv := by
  have hk := h.kernel.resetSlice
  have hl := hk.rotate_lists
  have hs : c.kernel.SameLog c.kernel.resetSlice.rotate := hk.sameLog_rotate
  refine h.settle_same hk.rotate (by rw [hl]; rfl) hs (hs.logOwned h.owned fun _ hr => ?_) hp
  rw [hl]
  exact List.mem_rotate.mpr hr

theorem Inv.tickSleep (h : c.Inv) (hp : Runs (c.kernel.logDepth c.curr) p) :
    (c.settle c.kernel.tickSleep p).Inv := by
  have hl := h.kernel.tickSleep_lists
  have hs := h.kernel.sameLog_tickSleep
  refine h.settle_same h.kernel.tickSleep (by rw [hl]) hs (hs.logOwned h.owned fun _ hr => ?_) hp
  rw [hl]
  exact List.mem_append_left _ hr

theorem Inv.doRun (h : c.Inv) (hr : c.rest c.curr = i :: p) : (c.doRun p i).Inv := by
  obtain ⟨n, hn, hp⟩ : Runs _ (i :: p) := hr ▸ h.runs c.curr
  cases i with
  | lock f =>
      obtain ⟨ho, hd⟩ := h.owned.mutexLock h.kernel
      obtain ⟨hk, ht⟩ := h.kernel.mutexLock_log h.owned
      cases hn
      exact h.settle hk ht ho (fun t ht => by simp [hd, ht]) (by simpa [hd] using hp)
  | unlock f =>
      have h0 : c.kernel.logDepth c.curr ≠ 0 := by
        intro h0; simp [Instr.depth, h0] at hn
      obtain ⟨ho, hd⟩ := h.owned.mutexUnlock h.kernel h0
      simp only [Instr.depth, h0, ↓reduceIte, Option.some.injEq] at hn
      subst hn
      exact h.settle (h.kernel.mutexUnlock _) (h.kernel.mutexUnlock_moves _).task ho
        (fun t ht => by simp [hd, ht]) (by simpa [hd] using hp)
  | print f s => cases hn; exact h.update h.machine h.owned rfl (fun _ _ => rfl) (hp.logPrintf f _ s)
  | out f n w bs =>
      cases hn
      cases bs with
      | nil => exact h.setRest hp
      | cons b bs =>
          refine h.update h.machine h.owned rfl (fun _ _ => rfl) ?_
          split
          · exact hp
          · exact ⟨_, rfl, hp⟩
  | dispatched u => cases hn; exact h.setRest ⟨_, rfl, hp⟩
  | sliceEnd => cases hn; exact h.sliceEnd hp
  | tickSleep => cases hn; exact h.tickSleep hp

theorem Inv.doTick (h : c.Inv) : c.doTick.Inv := by
  refine h.update (h.machine.of_same h.kernel.countSlice rfl rfl rfl) ⟨h.owned.nonneg, h.owned.ready⟩ rfl
    (fun _ _ => rfl) ?_
  have hp : Runs (c.kernel.countSlice.logDepth c.curr) (c.rest c.curr) := h.runs c.curr
  unfold tickRest
  split
  · exact ⟨_, rfl, _, rfl, _, rfl, hp⟩
  · exact ⟨_, rfl, hp⟩

theorem Inv.owner_ne (h : c.Inv) (hr : c.rest c.curr = []) (h0 : (c.kernel.mutexes .log).lockedCount ≠ 0) :
    (c.kernel.mutexes .log).owner ≠ c.curr := by
  intro hc
  have hn := h.owned.nonneg
  have hd : c.kernel.logDepth c.curr = 0 := by simpa [hr, Runs] using h.runs c.curr
  rw [h.kernel.logDepth_curr, if_pos hc] at hd
  omega

theorem Inv.call (h : c.Inv) (hr : c.rest c.curr = []) (hi : c.curr ≠ idleTask) {x : Call}
    (hx : x.onLog = false) : (c.kernel.call x).LogOwned ∧
      ∀ t, (c.kernel.call x).logDepth t = c.kernel.logDepth t := by
  have hs := h.kernel.sameLog_call hi hx
  refine ⟨hs.logOwned h.owned fun h0 hm => ?_, hs.logDepth⟩
  exact h.kernel.call_ready hi x hm (h.owner_ne hr h0)

theorem Inv.doInit (h : c.Inv) {u : TaskId} {a : InitArgs} {pc : InitPc} (hr : c.rest c.curr = [])
    (hc : c.code c.curr = .init u a pc) : (c.doInit u a pc).Inv := by
  have hi := h.machine.curr_ne_idle hc
  have hp : Runs (c.kernel.logDepth c.curr) [] := hr ▸ h.runs c.curr
  have hm : (c.doInit u a pc).machine.Inv := by
    obtain ⟨hk, hcode, hused⟩ := doInit_frame c u a pc
    have hm := h.machine.initStep rfl hc
    refine hm.of_same (hk.symm ▸ hm.kernel : (c.doInit u a pc).kernel.Inv) ?_ hcode ?_
    · exact congrArg (·.lists.task) hk
    · exact hused.trans (Machine.doInit_frame c.machine u a pc).2.symm
  unfold Console.doInit at hm ⊢
  cases hx : initCall pc with
  | some x =>
      simp only [hx] at hm ⊢
      have hlog : x.onLog = false := by cases pc <;> cases hx <;> rfl
      obtain ⟨ho, hd⟩ := h.call hr hi hlog
      refine h.update hm ho rfl (fun t _ => hd t) (runs_settle ?_ _ _)
      have hq : Runs (c.kernel.logDepth c.curr) (initPrints pc) := by
        unfold initPrints
        split
        · exact ⟨_, rfl, hp⟩
        · exact hp
      exact (hd c.curr).symm ▸ hq
  | none =>
      simp only [hx] at hm ⊢
      obtain ⟨hs, hready⟩ := Kernel.sameLog_initLocal c.kernel (h.machine.fresh hc).2.2.1 a pc
      refine h.update hm (hs.logOwned h.owned fun _ hm => hready _ hm) (p := c.rest c.curr) ?_
        (fun t _ => hs.logDepth t) ?_
      · exact (Function.update_eq_self _ _).symm
      · exact (hs.logDepth c.curr).symm ▸ h.runs c.curr

theorem Step.inv (hst : c.Step l c') (h : c.Inv) : c'.Inv := by
  cases hst with
  | tick hi => exact h.doTick
  | run i p hr => exact h.doRun hr
  | printf s hr ho hi =>
      have hp : Runs (c.kernel.logDepth c.curr) [] := hr ▸ h.runs c.curr
      exact h.setRest ⟨_, rfl, hp⟩
  | call x hr ho hi hx =>
      obtain ⟨hown, hd⟩ := h.call hr hi hx
      refine h.settle (h.kernel.call hi x) (h.kernel.call_task hi x) hown (fun t _ => hd t) ?_
      exact (hd c.curr).symm ▸ hr ▸ h.runs c.curr
  | initStart u a hr ho hi hn hu => exact ⟨h.machine.initStart a hi hn hu, h.owned, h.runs⟩
  | initStep u a pc hr hc => exact h.doInit hr hc

theorem inv_boot (b : BootArgs) : (Console.boot ({} : Queues) b).Inv := by
  have hm : (Console.boot ({} : Queues) b).kernel.mutexes .log = ⟨nullTask, 0⟩ :=
    congrFun (Machine.boot_frame b).1 _
  have hl : (Console.boot ({} : Queues) b).kernel.lists.wait (.mutex .log) = [] :=
    congrArg (·.wait (.mutex .log)) (Machine.boot_lists b)
  refine ⟨(Machine.inv_boot b).of_same (Machine.boot_inv b) rfl rfl rfl, ⟨?_, ?_⟩, fun t => ?_⟩
  · rw [hm]
  · rw [hm]; exact fun h0 => absurd rfl h0
  · show Kernel.logDepth _ t = 0
    simp [Kernel.logDepth, hm, hl]

/-! ## ヒープの機械との対応 -/

structure Sim (c : Console Heap) (d : Console Queues) : Prop where
  kernel : Kernel.Sim c.kernel d.kernel
  code : c.code = d.code
  rest : c.rest = d.rest
  used : c.used = d.used
  out : c.out = d.out
  issued : c.issued = d.issued

section
variable {c c' : Console Heap} {d : Console Queues} {k : Kernel Heap} {a : Kernel Queues}

theorem Sim.curr (h : Sim c d) : c.curr = d.curr := h.kernel.currTask

theorem Sim.restCurr (h : Sim c d) : c.rest c.curr = d.rest d.curr := by rw [h.rest, h.curr]

theorem Sim.setRest (h : Sim c d) (p : List Instr) : Sim (c.setRest p) (d.setRest p) :=
  { h with rest := by simp only [Console.setRest, h.rest, h.curr] }

theorem Sim.setCode (h : Sim c d) (x : Code) : Sim (c.setCode x) (d.setCode x) :=
  { h with code := by simp only [Console.setCode, h.code, h.curr] }

theorem Sim.settle (h : Sim c d) (hk : Kernel.Sim k a) (p : List Instr) :
    Sim (c.settle k p) (d.settle a p) := by
  unfold Console.settle
  rw [hk.currTask, h.curr]
  exact { h.setRest _ with kernel := hk }

theorem Sim.doRun (h : Sim c d) (hd : d.Inv) (p : List Instr) (i : Instr) :
    Sim (c.doRun p i) (d.doRun p i) := by
  cases i with
  | print f s =>
      unfold Console.doRun
      rw [h.issued]
      exact { h.setRest _ with issued := rfl }
  | lock f => exact h.settle (h.kernel.mutexLock hd.kernel _) p
  | out f n w bs =>
      cases bs with
      | nil => exact h.setRest p
      | cons b bs => exact { h.setRest _ with out := congrArg (· ++ [(n, b)]) h.out }
  | unlock f => exact h.settle (h.kernel.mutexUnlock hd.kernel _) p
  | dispatched u =>
      unfold Console.doRun
      rw [h.kernel.tasks]
      exact h.setRest _
  | sliceEnd => exact h.settle (h.kernel.resetSlice.rotate hd.kernel.resetSlice) p
  | tickSleep => exact h.settle (h.kernel.tickSleep hd.kernel.placed) p

theorem Sim.doTick (h : Sim c d) : Sim c.doTick d.doTick := by
  have hk := h.kernel.countSlice
  unfold Console.doTick tickRest
  dsimp only
  rw [hk.tasks, hk.currTask, h.restCurr]
  exact { h.setRest _ with kernel := hk }

theorem Sim.doInit (h : Sim c d) (hd : d.Inv) {u : TaskId} {x : InitArgs} {pc : InitPc}
    (hc : d.code d.curr = .init u x pc) : Sim (c.doInit u x pc) (d.doInit u x pc) := by
  have hs := h.setCode (.next u x (Kernel.initNext d.kernel.gdt pc))
  unfold Console.doInit
  rw [h.kernel.gdt]
  cases initCall pc with
  | some y => exact hs.settle (h.kernel.call hd.kernel y) _
  | none => exact { hs with kernel := h.kernel.initLocal hd.kernel (hd.machine.fresh hc).2.1 x pc }

theorem Sim.step (h : Sim c d) (hd : d.Inv) (hst : c.step l = some c') :
    ∃ d', d.step l = some d' ∧ Sim c' d' := by
  cases step_cases hst with
  | tick hi =>
      have hi' : d.interruptible = true := by unfold interruptible at hi ⊢; rwa [← h.restCurr]
      exact ⟨_, by simp [Console.step, hi'], h.doTick⟩
  | run i p hr =>
      rw [h.restCurr] at hr
      exact ⟨_, by simp [Console.step, hr], h.doRun hd p i⟩
  | printf s hr ho hi =>
      rw [h.restCurr] at hr
      rw [h.code, h.curr] at ho
      rw [h.curr] at hi
      exact ⟨_, by simp [Console.step, hr, ho, hi], h.setRest _⟩
  | call x hr ho hi hx =>
      rw [h.restCurr] at hr
      rw [h.code, h.curr] at ho
      rw [h.curr] at hi
      exact ⟨_, by simp [Console.step, hr, ho, hi, hx], h.settle (h.kernel.call hd.kernel x) _⟩
  | initStart u a hr ho hi hn hu =>
      rw [h.restCurr] at hr
      rw [h.code, h.curr] at ho
      rw [h.curr] at hi
      rw [h.used] at hu
      refine ⟨{ d.setCode (.init u a .lock) with used := u :: d.used }, ?_, ?_⟩
      · simp [Console.step, hr, ho, hi, hn, hu]
      · exact { h.setCode (.init u a .lock) with used := congrArg _ h.used }
  | initStep u a pc hr ho =>
      rw [h.restCurr] at hr
      rw [h.code, h.curr] at ho
      exact ⟨_, by simp [Console.step, hr, ho], h.doInit hd ho⟩

theorem sim_boot (b : BootArgs) (node : Node → Lib.Link Node) :
    Sim (Console.boot (Heap.empty node) b) (Console.boot ({} : Queues) b) :=
  ⟨Machine.boot_sim b node, rfl, rfl, rfl, rfl, rfl⟩

end

end Console

end IdealX86
