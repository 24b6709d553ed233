import IdealX86.Core.Lemmas.Sched
import IdealX86.Lib.Drain
import IdealX86.Machine.Fine

/-!
# 一文ごとの実行が追いつくこと

割り込みの禁じられた区間を実行している状態を、区間の終わりまで進める。区間の終わりでは、`Machine` の一歩の後の状態と一致する。
-/

namespace IdealX86

variable {σ : Type} [ListStore σ]

/-! ## `Machine` との対応 -/

def Suspended.rest : Suspended → List (Stmt σ)
  | .call _ => [.restore, .restore]
  | .tickSlice => .restore :: tickSleepCode
  | .tickEnd => [.restore, .iret]

def restOf : Option Suspended → List (Stmt σ)
  | none => []
  | some r => r.rest

/-- 止まっているタスクは、自身のコードから区間に入り、その中の `task_dispatch` で止まっている。`i` は、自身のコードでのビットである。 -/
def savedOf (i : Bool) : Option Suspended → List Bool
  | none => []
  | some _ => [false, i]

/-- 始まっているが、まだ `cli` を実行していない区間。 -/
inductive Entry where
  | call (x : Call)
  | init (u : TaskId) (a : InitArgs) (pc : Kernel.InitPc)

def Entry.body : Entry → List (Stmt σ)
  | .call x => x.body
  | .init u _ pc => initBody u pc

/-- 区間の入り口。`read` は、ビットを保存したことを表す。 -/
structure Opening where
  entry : Entry
  read : Bool

def Opening.rest (o : Opening) : List (Stmt σ) :=
  if o.read then .cli :: (o.entry.body ++ [.restore]) else protect o.entry.body

def Opening.saved (i : Bool) (o : Opening) : List Bool := if o.read then [i] else []

def openRest : Option Opening → List (Stmt σ)
  | none => []
  | some o => o.rest

def openSaved (i : Bool) : Option Opening → List Bool
  | none => []
  | some o => o.saved i

/-- 入り口にいるタスクの `Machine` は、まだその一歩を実行していない。 -/
def Agrees (t : TaskId) (fine coarse : Code) : Option Opening → Prop
  | none => fine = coarse
  | some ⟨.call _, _⟩ => fine = .own ∧ coarse = .own ∧ t ≠ idleTask
  | some ⟨.init u a pc, _⟩ =>
      coarse = .init u a pc ∧ pc.isProtected = true ∧ ∀ gdt, fine = .next u a (Kernel.initNext gdt pc)

/-- 実行しているタスクの残りの文と、ビットと、カーネルの状態を除いた対応。`own` は、タスク自身のコードでのビットである。 -/
structure Running (own : TaskId → Bool) (f : Fine σ) (c : Machine σ) (o : TaskId → Option Opening) : Prop where
  cpu : f.cpu = c.curr
  used : f.used = c.used
  code : ∀ t, Agrees t (f.code t) (c.code t) (o t)
  rest : ∀ t, t ≠ f.cpu → f.rest t = restOf (c.susp t) ++ openRest (o t)
  saved : ∀ t, t ≠ f.cpu → f.saved t = savedOf (own t) (c.susp t) ++ openSaved (own t) (o t)
  tssIf : ∀ t, t ≠ f.cpu → f.tssIf t = ((c.susp t).isNone && own t)

structure Settled (own : TaskId → Bool) (f : Fine σ) (c : Machine σ) (o : TaskId → Option Opening) : Prop
    extends Running own f c o where
  kernel : f.kernel = c.kernel
  restCpu : f.rest f.cpu = restOf (c.susp f.cpu) ++ openRest (o f.cpu)
  savedCpu : f.saved f.cpu = savedOf (own f.cpu) (c.susp f.cpu) ++ openSaved (own f.cpu) (o f.cpu)
  iff : f.iff = ((c.susp f.cpu).isNone && own f.cpu)

def CaughtUp (own : TaskId → Bool) (f : Fine σ) (c : Machine σ) : Prop := ∃ o, Settled own f c o

/-- 割り込みを禁じて、カーネルの文を実行している。 -/
def Fine.Busy (f : Fine σ) : Prop := f.iff = false ∧ f.rest f.cpu ≠ []

/-- 区間の終わりまで進めると、`c` に一致する。 -/
abbrev Catches (own : TaskId → Bool) (f : Fine σ) (c : Machine σ) : Prop :=
  Lib.Drains Fine.step .run Fine.Busy (CaughtUp own · c) f

/-! ## 区間の中の一文 -/

/-- 実行しているタスクのカーネルの状態、残りの文、保存したビット、今のビットを取り替えた状態。 -/
def Fine.inside (f : Fine σ) (k : Kernel σ) (p : List (Stmt σ)) (s : List Bool) (i : Bool) : Fine σ :=
  { (f.setRest p).setSaved s with kernel := k, iff := i }

section
variable {own : TaskId → Bool} {f : Fine σ} {c : Machine σ} {o : TaskId → Option Opening} {k : Kernel σ}
  {p q : List (Stmt σ)} {s : List Bool}
  {b : Bool}

omit [ListStore σ] in
@[simp] theorem inside_cpu {i : Bool} : (f.inside k p s i).cpu = f.cpu := rfl

omit [ListStore σ] in
@[simp] theorem inside_rest {i : Bool} : (f.inside k p s i).rest f.cpu = p := Function.update_self ..

omit [ListStore σ] in
@[simp] theorem inside_saved {i : Bool} : (f.inside k p s i).saved f.cpu = s := Function.update_self ..

omit [ListStore σ] in
theorem inside_self : f.inside f.kernel (f.rest f.cpu) (f.saved f.cpu) f.iff = f := by
  simp [Fine.inside, Fine.setRest, Fine.setSaved]

theorem inside_step (x : Stmt σ) {i : Bool} :
    (f.inside k (x :: p) s i).step .run = some ((f.inside k (x :: p) s i).doStmt p x) := by
  rw [Fine.step, inside_cpu, inside_rest]

section
variable {x : Stmt σ} {g : Kernel σ → Kernel σ} {g' : Kernel σ → List (Stmt σ)} {i : Bool}
omit [ListStore σ]

@[simp] theorem inside_save : (f.inside k (x :: p) s i).doStmt p .save = f.inside k p (i :: s) i := by
  simp [Fine.doStmt, Fine.inside, Fine.setRest, Fine.setSaved]

@[simp] theorem inside_cli : (f.inside k (x :: p) s i).doStmt p .cli = f.inside k p s false := by
  simp [Fine.doStmt, Fine.inside, Fine.setRest, Fine.setSaved]

@[simp] theorem inside_restore : (f.inside k (x :: p) (b :: s) i).doStmt p .restore = f.inside k p s b := by
  simp [Fine.doStmt, Fine.popFlag, Fine.inside, Fine.setRest, Fine.setSaved]

@[simp] theorem inside_iret : (f.inside k (x :: p) (b :: s) i).doStmt p .iret = f.inside k p s b := by
  simp [Fine.doStmt, Fine.popFlag, Fine.inside, Fine.setRest, Fine.setSaved]

@[simp] theorem inside_act : (f.inside k (x :: p) s i).doStmt p (.act g) = f.inside (g k) p s i := by
  simp [Fine.doStmt, Fine.inside, Fine.setRest, Fine.setSaved]

@[simp] theorem inside_branch : (f.inside k (x :: p) s i).doStmt p (.branch g') = f.inside k (g' k ++ p) s i := by
  simp [Fine.doStmt, Fine.inside, Fine.setRest, Fine.setSaved]

end

theorem catches_stmt {x : Stmt σ} (h : Catches own ((f.inside k (x :: p) s false).doStmt p x) c) :
    Catches own (f.inside k (x :: p) s false) c :=
  .later ⟨rfl, by rw [inside_cpu, inside_rest]; exact List.cons_ne_nil _ _⟩ (inside_step x) h

theorem catches_save (h : Catches own (f.inside k p (false :: s) false) c) :
    Catches own (f.inside k (.save :: p) s false) c :=
  catches_stmt (by rwa [inside_save])

theorem catches_cli (h : Catches own (f.inside k p s false) c) : Catches own (f.inside k (.cli :: p) s false) c :=
  catches_stmt (by rwa [inside_cli])

theorem catches_restore (h : Catches own (f.inside k p s b) c) :
    Catches own (f.inside k (.restore :: p) (b :: s) false) c :=
  catches_stmt (by rwa [inside_restore])

theorem catches_iret (h : Catches own (f.inside k p s b) c) : Catches own (f.inside k (.iret :: p) (b :: s) false) c :=
  catches_stmt (by rwa [inside_iret])

theorem catches_act {g : Kernel σ → Kernel σ} (h : Catches own (f.inside (g k) p s false) c) :
    Catches own (f.inside k (.act g :: p) s false) c :=
  catches_stmt (by rwa [inside_act])

theorem catches_branch {g : Kernel σ → List (Stmt σ)} (h : Catches own (f.inside k (g k ++ p) s false) c) :
    Catches own (f.inside k (.branch g :: p) s false) c :=
  catches_stmt (by rwa [inside_branch])

def Fine.away (f : Fine σ) (k : Kernel σ) (p : List (Stmt σ)) (s : List Bool) : Fine σ :=
  let tssIf := Function.update f.tssIf f.cpu false
  { f.inside k p s (tssIf k.currTask) with cpu := k.currTask, tssIf := tssIf }

theorem catches_switch (h : Catches own (f.away k p s) c) : Catches own (f.inside k (.switch :: p) s false) c := by
  refine catches_stmt ?_
  convert h using 1
  simp [Fine.doStmt, Fine.away, Fine.inside, Fine.setRest, Fine.setSaved]

/-- `task_dispatch`。切り替わらなければ、その次の文に進む。 -/
theorem catches_dispatch (hstay : k.taskDispatch = k → Catches own (f.inside k q s false) c)
    (hgo : k.taskDispatch.currTask ≠ k.currTask → Catches own (f.away k.taskDispatch (.restore :: q) (false :: s)) c) :
    Catches own (f.inside k (dispatchCode ++ q) s false) c := by
  refine catches_save (catches_cli (catches_branch ?_))
  dsimp only
  rw [Kernel.taskDispatch_currTask] at hgo
  split
  next hne =>
      refine catches_act (catches_act (catches_switch ?_))
      have hd : ({ k with currTask := k.taskNextRun } : Kernel σ).setTask k.taskNextRun
          (fun x => { x with state := .running }) = k.taskDispatch := by
        rw [Kernel.taskDispatch, if_pos hne]
      rw [hd]
      exact hgo hne
  next he => exact catches_restore (hstay (by rw [Kernel.taskDispatch, if_neg he]))

/-! ## 区間の終わり -/

theorem Catches.hist {es : List Event} (h : Catches own f c) : Catches own f { c with hist := es } :=
  h.mono fun _ ⟨o, hs⟩ => ⟨o, { hs with }⟩

theorem Running.stay (h : Running own f c o) (hk : k.currTask = f.cpu) :
    CaughtUp own (f.inside k (openRest (o f.cpu)) (openSaved (own f.cpu) (o f.cpu)) (own f.cpu))
      { c.setSusp c.curr none with kernel := k } := by
  have hcpu : c.curr = f.cpu := h.cpu.symm
  have hsusp : ∀ t, ({ c.setSusp c.curr none with kernel := k } : Machine σ).susp t =
      if t = f.cpu then none else c.susp t :=
    fun t => by simp [Machine.setSusp, Function.update_apply, hcpu]
  refine ⟨o, ⟨⟨hk.symm, h.used, h.code, fun t (ht : t ≠ f.cpu) => ?_, fun t (ht : t ≠ f.cpu) => ?_,
    fun t (ht : t ≠ f.cpu) => ?_⟩, rfl, ?_, ?_, ?_⟩⟩ <;> rw [hsusp]
  · rw [if_neg ht]
    exact (Function.update_of_ne ht ..).trans (h.rest t ht)
  · rw [if_neg ht]
    exact (Function.update_of_ne ht ..).trans (h.saved t ht)
  · rw [if_neg ht]
    exact h.tssIf t ht
  · rw [inside_cpu, inside_rest, if_pos rfl]
    rfl
  · rw [inside_cpu, inside_saved, if_pos rfl]
    rfl
  · rw [inside_cpu, if_pos rfl]
    rfl

/-- 切り替わって止まった区間。切り替えた先は、止まっていたところの続きである。 -/
theorem Running.go (h : Running own f c o) (k : Kernel σ) (r : Suspended) :
    CaughtUp own (f.away k (r.rest ++ openRest (o f.cpu)) (false :: own f.cpu :: openSaved (own f.cpu) (o f.cpu)))
      { c.setSusp c.curr (some r) with kernel := k } := by
  have hcpu : c.curr = f.cpu := h.cpu.symm
  have hsusp : ∀ t, ({ c.setSusp c.curr (some r) with kernel := k } : Machine σ).susp t =
      if t = f.cpu then some r else c.susp t :=
    fun t => by simp [Machine.setSusp, Function.update_apply, hcpu]
  have hrest : ∀ t,
      (f.away k (r.rest ++ openRest (o f.cpu)) (false :: own f.cpu :: openSaved (own f.cpu) (o f.cpu))).rest t =
      restOf (if t = f.cpu then some r else c.susp t) ++ openRest (o t) := by
    intro t
    by_cases ht : t = f.cpu
    · subst ht
      rw [if_pos rfl]
      exact Function.update_self ..
    · rw [if_neg ht]
      exact (Function.update_of_ne ht ..).trans (h.rest t ht)
  have hsaved : ∀ t,
      (f.away k (r.rest ++ openRest (o f.cpu)) (false :: own f.cpu :: openSaved (own f.cpu) (o f.cpu))).saved t =
      savedOf (own t) (if t = f.cpu then some r else c.susp t) ++ openSaved (own t) (o t) := by
    intro t
    by_cases ht : t = f.cpu
    · subst ht
      rw [if_pos rfl]
      exact Function.update_self ..
    · rw [if_neg ht]
      exact (Function.update_of_ne ht ..).trans (h.saved t ht)
  have htss : ∀ t,
      (f.away k (r.rest ++ openRest (o f.cpu)) (false :: own f.cpu :: openSaved (own f.cpu) (o f.cpu))).tssIf t =
      ((if t = f.cpu then some r else c.susp t).isNone && own t) := by
    intro t
    by_cases ht : t = f.cpu
    · subst ht
      rw [if_pos rfl]
      exact Function.update_self ..
    · rw [if_neg ht]
      exact (Function.update_of_ne ht ..).trans (h.tssIf t ht)
  refine ⟨o, ⟨⟨rfl, h.used, h.code, fun t _ => ?_, fun t _ => ?_, fun t _ => ?_⟩, rfl, ?_, ?_, ?_⟩⟩ <;> rw [hsusp]
  · exact hrest t
  · exact hsaved t
  · exact htss t
  · exact hrest _
  · exact hsaved _
  · exact htss _

/-! ## 呼び出し -/

section
variable (h : Running own f c o) (ho : o f.cpu = none) (hs : c.susp f.cpu = none) (hk : k.currTask = f.cpu)
include h ho hs hk

theorem catches_end (r : Suspended) : Catches own (f.inside k [.restore] [own f.cpu] false) (c.settle k r) := by
  refine catches_restore (.now ?_)
  have hstay := h.stay hk
  have hnone : c.setSusp c.curr none = c := by
    rw [← h.cpu, Machine.setSusp, ← hs, Function.update_eq_self]
  rw [ho, hnone] at hstay
  rw [Machine.settle, if_pos (hk.trans h.cpu)]
  exact hstay

theorem catches_dispatch_end (x : Call) :
    Catches own (f.inside k (dispatchCode ++ [.restore]) [own f.cpu] false) (c.settle k.taskDispatch (.call x)) := by
  refine catches_dispatch (fun hd => ?_) fun hne => .now ?_
  · rw [hd]
    exact catches_end h ho hs hk _
  · have hgo := h.go k.taskDispatch (.call x)
    rw [ho] at hgo
    rw [Machine.settle, if_neg (by rwa [hk, h.cpu] at hne)]
    exact hgo

end

omit [ListStore σ] in
theorem setMutex_setMutex (k : Kernel σ) (m : MutexId) (x y : Mutex) :
    (k.setMutex m x).setMutex m y = k.setMutex m y := by
  simp [Kernel.setMutex]

theorem taskSetReady_setMutex (k : Kernel σ) (m : MutexId) (x : Mutex) (t : TaskId) :
    (k.setMutex m x).taskSetReady t = (k.taskSetReady t).setMutex m x := by
  unfold Kernel.taskSetReady
  split <;> rfl

theorem catches_wait (h : Running own f c o) (ho : o f.cpu = none) (hs : c.susp f.cpu = none)
    (hk : k.currTask = f.cpu) (w : WaitId) (x : Call) :
    Catches own (f.inside k (waitCode w ++ [.restore]) [own f.cpu] false) (c.settle (k.waitOn w) (.call x)) := by
  refine catches_act (catches_act ?_)
  rw [Kernel.taskSetBlock_currTask]
  exact catches_dispatch_end h ho hs (by simpa using hk) x

theorem catches_rotate (h : Running own f c o) (ho : o f.cpu = none) (hs : c.susp f.cpu = none)
    (hk : k.currTask = f.cpu) (x : Call) :
    Catches own (f.inside k (rotateCode ++ [.restore]) [own f.cpu] false) (c.settle k.rotate (.call x)) := by
  refine catches_act (catches_act ?_)
  rw [Kernel.taskSetBlock_currTask]
  exact catches_dispatch_end h ho hs (by simpa using hk) x

theorem catches_mutexLock (h : Running own f c o) (ho : o f.cpu = none) (hs : c.susp f.cpu = none)
    (hk : k.currTask = f.cpu) (m : MutexId) :
    Catches own (f.inside k (mutexLockBody m ++ [.restore]) [own f.cpu] false)
      (c.settle (k.mutexLock m) (.call (.mutexLock m))) := by
  refine catches_branch ?_
  rw [Kernel.mutexLock]
  dsimp only
  split
  · refine catches_act (catches_act ?_)
    rw [setMutex_setMutex]
    simp only [Kernel.setMutex_mutexes, Function.update_self]
    exact catches_end h ho hs (by exact hk) _
  · split
    · exact catches_act (catches_end h ho hs (by exact hk) _)
    · exact catches_wait h ho hs hk _ _

theorem catches_mutexUnlock (h : Running own f c o) (ho : o f.cpu = none) (hs : c.susp f.cpu = none)
    (hk : k.currTask = f.cpu) (m : MutexId) :
    Catches own (f.inside k (mutexUnlockBody m ++ [.restore]) [own f.cpu] false)
      (c.settle (k.mutexUnlock m) (.call (.mutexUnlock m))) := by
  refine catches_branch ?_
  rw [Kernel.mutexUnlock]
  dsimp only
  split
  · refine catches_act (catches_branch ?_)
    simp only [Kernel.setMutex_mutexes, Function.update_self]
    split
    · refine catches_act (catches_branch ?_)
      rename_i hz
      simp only [setMutex_setMutex, Kernel.setMutex_lists, Kernel.setMutex_mutexes, Function.update_self, hz]
      split
      · -- 待っている先頭のタスクへの受け渡し。
        refine catches_act (catches_act (catches_act (catches_act ?_)))
        have hset : ∀ (k : Kernel σ) (x : Mutex) (t : TaskId),
            ((k.setMutex m x).removeWaiter (.mutex m)).2.taskSetReady t =
            ((k.removeWaiter (.mutex m)).2.taskSetReady t).setMutex m x := fun k x t =>
          taskSetReady_setMutex (k.removeWaiter (.mutex m)).2 m x t
        rw [hset, setMutex_setMutex, setMutex_setMutex]
        simp only [Kernel.setMutex_mutexes, Function.update_self]
        exact catches_dispatch_end h ho hs (by simpa using hk) _
      · exact catches_end h ho hs (by exact hk) _
    · exact catches_end h ho hs (by exact hk) _
  · exact catches_end h ho hs hk _

theorem catches_call (h : Running own f c o) (ho : o f.cpu = none) (hs : c.susp f.cpu = none)
    (hk : k.currTask = f.cpu) (x : Call) :
    Catches own (f.inside k (x.body ++ [.restore]) [own f.cpu] false) (c.settle (k.call x) (.call x)) := by
  cases x with
  | sysSchedYield =>
      refine catches_branch ?_
      rw [Kernel.call, Kernel.sysSchedYield]
      split
      · exact catches_rotate h ho hs hk _
      · exact catches_end h ho hs hk _
  | sysSleep ms =>
      refine catches_act (catches_act ?_)
      rw [Kernel.taskSetBlock_currTask]
      exact catches_dispatch_end h ho hs (by rw [← hk]; unfold Kernel.taskSetSleep; split <;> simp) _
  | semWait s =>
      refine catches_branch ?_
      rw [Kernel.call, Kernel.semWait]
      split
      · exact catches_act (catches_end h ho hs (by exact hk) _)
      · exact catches_wait h ho hs hk _ _
  | semNotify s =>
      refine catches_branch ?_
      rw [Kernel.call, Kernel.semNotify]
      split
      · exact catches_act (catches_act (catches_dispatch_end h ho hs (by simpa using hk) _))
      · exact catches_act (catches_end h ho hs (by exact hk) _)
  | mutexLock m => exact catches_mutexLock h ho hs hk m
  | mutexUnlock m => exact catches_mutexUnlock h ho hs hk m

/-! ## 時計の割り込み -/

theorem sleepWalk_currTask (fuel : Nat) (n : Option Node) (k : Kernel σ) :
    (Kernel.sleepWalk fuel n k).1.currTask = k.currTask := by
  have hwake : ∀ (k : Kernel σ) (t : TaskId), (k.wakeOne t).currTask = k.currTask := by
    intro k t
    unfold Kernel.wakeOne
    dsimp only
    split
    · simp [Kernel.taskSetWakeup]
    · rfl
  induction fuel generalizing n k with
  | zero => rfl
  | succ fuel ih =>
      cases n with
      | none => rfl
      | some n => rw [Kernel.sleepWalk, ih, hwake]

theorem catches_tickSleep (h : Running own f c o) (hs : c.susp f.cpu = none) (hk : k.currTask = f.cpu) :
    Catches own (f.inside k (tickSleepCode ++ openRest (o f.cpu)) (own f.cpu :: openSaved (own f.cpu) (o f.cpu)) false)
      (c.settle k.tickSleep .tickEnd) := by
  refine catches_act ?_
  have hwalk := (sleepWalk_currTask (ListStore.count k.lists .sleep).toNat (ListStore.first k.lists .sleep) k).trans hk
  refine catches_dispatch (q := .iret :: openRest (o f.cpu)) (fun hd => ?_) fun hne => .now ?_
  · refine catches_iret (.now ?_)
    have hstay := h.stay hwalk
    have hnone : c.setSusp c.curr none = c := by rw [← h.cpu, Machine.setSusp, ← hs, Function.update_eq_self]
    rw [hnone] at hstay
    rw [Kernel.tickSleep, hd, Machine.settle, if_pos (hwalk.trans h.cpu)]
    exact hstay
  · rw [Kernel.tickSleep, Machine.settle, if_neg (by rwa [hwalk, h.cpu] at hne)]
    exact h.go _ .tickEnd

theorem catches_tick (h : Running own f c o) (hs : c.susp f.cpu = none) (hk : c.kernel.currTask = f.cpu) :
    Catches own (f.inside c.kernel (tickCode ++ openRest (o f.cpu)) (own f.cpu :: openSaved (own f.cpu) (o f.cpu)) false)
      c.doTick := by
  refine catches_act (catches_branch ?_)
  rw [Machine.doTick]
  dsimp only
  rw [Kernel.tickSlice_eq]
  have hcount : c.kernel.countSlice.currTask = c.kernel.currTask := rfl
  rw [hcount]
  split
  next hz =>
      -- 時間片が尽きると、まず末尾へ回す。
      have hrot : c.kernel.countSlice.resetSlice.rotate =
          ((c.kernel.countSlice.resetSlice.taskSetBlock c.kernel.countSlice.resetSlice.currTask).taskSetReady
            c.kernel.countSlice.resetSlice.currTask).taskDispatch := rfl
      have hcurr : ((c.kernel.countSlice.resetSlice.taskSetBlock c.kernel.countSlice.resetSlice.currTask).taskSetReady
          c.kernel.countSlice.resetSlice.currTask).currTask = f.cpu := by
        simpa [Kernel.resetSlice, Kernel.countSlice] using hk
      refine catches_act (catches_act (catches_act ?_))
      rw [Kernel.taskSetBlock_currTask, hrot]
      refine catches_dispatch (fun hd => ?_) fun hne => .now ?_
      · rw [hd, if_pos (hcurr.trans h.cpu)]
        have hrun : Running own f { c with kernel := _ } o := ⟨hcurr.symm, h.used, h.code, h.rest, h.saved, h.tssIf⟩
        exact catches_tickSleep hrun hs hcurr
      · rw [if_neg (by rwa [hcurr, h.cpu] at hne)]
        exact h.go _ .tickSlice
  next hz =>
      have hrun : Running own f { c with kernel := c.kernel.countSlice } o :=
        ⟨hk.symm, h.used, h.code, h.rest, h.saved, h.tssIf⟩
      exact catches_tickSleep hrun hs hk

end

end IdealX86
