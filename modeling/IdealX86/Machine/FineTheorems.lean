import IdealX86.Machine.Lemmas.Fine
import IdealX86.Machine.SchedTheorems

/-!
# 区間の不可分性

一文ごとの実行は、`Machine` の実行を模倣する。割り込みのビットが立っているときのカーネルの状態は、いつも `Machine` の到達できる状態で
あり、区間の途中の状態では割り込みは起こらない。
-/

namespace IdealX86

variable {σ : Type} [ListStore σ] {own : TaskId → Bool} {f f' : Fine σ} {c : Machine σ} {o : TaskId → Option Opening}

/-! ## 区間の入り口 -/

theorem Settled.read (h : Settled own f c o) (hs : c.susp f.cpu = none) {e : Entry} (ho : o f.cpu = some ⟨e, false⟩) :
    Settled own (f.inside f.kernel (.cli :: (e.body ++ [.restore])) [own f.cpu] (own f.cpu)) c
      (Function.update o f.cpu (some ⟨e, true⟩)) := by
  have hne : ∀ t, t ≠ f.cpu → Function.update o f.cpu (some ⟨e, true⟩) t = o t :=
    fun t ht => Function.update_of_ne ht ..
  refine ⟨⟨h.cpu, h.used, fun t => ?_, fun t (ht : t ≠ f.cpu) => ?_, fun t (ht : t ≠ f.cpu) => ?_,
    fun t (ht : t ≠ f.cpu) => h.tssIf t ht⟩, h.kernel, ?_, ?_, ?_⟩
  · by_cases ht : t = f.cpu
    · subst ht
      have hc := h.code f.cpu
      rw [ho] at hc
      rw [Function.update_self]
      cases e with
      | call x => exact hc
      | init u a pc => exact hc
    · rw [hne t ht]
      exact h.code t
  · rw [hne t ht]
    exact (Function.update_of_ne ht ..).trans (h.rest t ht)
  · rw [hne t ht]
    exact (Function.update_of_ne ht ..).trans (h.saved t ht)
  · rw [inside_cpu, inside_rest, Function.update_self, hs]
    rfl
  · rw [inside_cpu, inside_saved, Function.update_self, hs]
    rfl
  · rw [inside_cpu, hs]
    rfl

theorem Running.enter (h : Running own f c o) {x : Code} (hx : f.code f.cpu = x) :
    Running own f (c.setCode c.curr x) (Function.update o f.cpu none) := by
  refine ⟨h.cpu, h.used, fun t => ?_, fun t ht => ?_, fun t ht => ?_, h.tssIf⟩
  · by_cases ht : t = f.cpu
    · subst ht
      rw [Function.update_self, Machine.setCode, ← h.cpu]
      exact hx.trans (Function.update_self f.cpu x c.code).symm
    · rw [Function.update_of_ne ht, Machine.setCode, ← h.cpu]
      dsimp only
      rw [Function.update_of_ne ht]
      exact h.code t
  · rw [Function.update_of_ne ht]
    exact h.rest t ht
  · rw [Function.update_of_ne ht]
    exact h.saved t ht

/-! ## 一歩の模倣 -/

theorem Settled.interrupt (h : Settled own f c o) (hst : f.step .interrupt = some f') :
    ∃ c', c.step .tick = some c' ∧ Catches own f' c' := by
  rw [Fine.step] at hst
  split at hst
  next hiff =>
      have hbits := hiff
      rw [h.iff, Bool.and_eq_true] at hbits
      have hs : c.susp f.cpu = none := Option.isNone_iff_eq_none.mp hbits.1
      cases hst
      have hrest := h.restCpu
      have hsaved := h.savedCpu
      rw [hs] at hrest hsaved
      refine ⟨c.doTick, by rw [Machine.step, if_pos (by rw [← h.cpu]; exact hs)], ?_⟩
      have hcatch := catches_tick h.toRunning hs h.cpu.symm
      rw [← h.kernel] at hcatch
      convert hcatch using 1
      rw [Fine.doInterrupt, hrest, hsaved, hiff, hbits.2]
      rfl
  next => cases hst

theorem Settled.resume (h : Settled own f c o) {r : Suspended} (hs : c.susp f.cpu = some r)
    (hst : f.step .run = some f') :
    ∃ c', c.step .resume = some c' ∧ Catches own f' c' := by
  have hrest := h.restCpu
  have hsaved := h.savedCpu
  have hiff := h.iff
  rw [hs] at hrest hsaved hiff
  have hf := inside_self (f := f)
  rw [hrest, hsaved, hiff, h.kernel] at hf
  have hrun : Running own f (c.setSusp c.curr none) o := by
    have hne : ∀ t, t ≠ f.cpu → (c.setSusp c.curr none).susp t = c.susp t := fun t ht => by
      rw [Machine.setSusp, ← h.cpu]
      exact Function.update_of_ne ht ..
    exact ⟨h.cpu, h.used, h.code, fun t ht => by rw [hne t ht]; exact h.rest t ht,
      fun t ht => by rw [hne t ht]; exact h.saved t ht, fun t ht => by rw [hne t ht]; exact h.tssIf t ht⟩
  have hnone : (c.setSusp c.curr none).susp f.cpu = none := by
    rw [Machine.setSusp, ← h.cpu]
    exact Function.update_self ..
  have hnext : f' = f.inside c.kernel (r.rest.tail ++ openRest (o f.cpu))
      (own f.cpu :: openSaved (own f.cpu) (o f.cpu)) false := by
    rw [← hf] at hst
    cases r <;> exact (Option.some.inj ((inside_step _).symm.trans hst)).symm.trans inside_restore
  have hstay := h.toRunning.stay (k := c.kernel) h.cpu.symm
  refine ⟨c.doResume r, by rw [Machine.step, ← h.cpu, hs], ?_⟩
  rw [hnext]
  cases r with
  | call x => exact Catches.hist (c := c.setSusp c.curr none) (catches_restore (.now hstay))
  | tickSlice => exact catches_tickSleep hrun hnone h.cpu.symm
  | tickEnd => exact catches_iret (.now hstay)

/-- `cli` で、`Machine` の一歩を始める。 -/
theorem Settled.enter (h : Settled own f c o) (hs : c.susp f.cpu = none) {e : Entry} (ho : o f.cpu = some ⟨e, true⟩) :
    ∃ l c', c.step l = some c' ∧ Catches own (f.inside f.kernel (e.body ++ [.restore]) [own f.cpu] false) c' := by
  have hs' : c.susp c.curr = none := by rw [← h.cpu]; exact hs
  have hcode := h.code f.cpu
  rw [ho] at hcode
  have ho' : Function.update o f.cpu none f.cpu = (none : Option Opening) := Function.update_self ..
  rw [h.kernel]
  cases e with
  | call x =>
      obtain ⟨hf, hc, hidle⟩ := hcode
      rw [h.cpu] at hc hidle
      have hsame : c.setCode c.curr .own = c := by rw [Machine.setCode, ← hc, Function.update_eq_self]
      have hrun := h.toRunning.enter hf
      rw [hsame] at hrun
      refine ⟨.call x, c.doCall x, ?_, (catches_call hrun ho' hs h.cpu.symm x).hist⟩
      simp only [Machine.step, hs', hc]
      rw [if_pos hidle]
  | init u a pc =>
      obtain ⟨hc, hp, hf⟩ := hcode
      rw [h.cpu] at hc
      have hrun := h.toRunning.enter (hf c.kernel.gdt)
      refine ⟨.initStep, c.doInit u a pc, by simp only [Machine.step, hs', hc], ?_⟩
      rw [Machine.doInit, Entry.body, initBody]
      cases hx : initCall pc with
      | some x => exact (catches_call hrun ho' hs h.cpu.symm x).hist
      | none =>
          -- 呼び出しのない区間は、最後の公開だけである。
          obtain rfl : pc = .publish := by
            cases pc with
            | publish => rfl
            | lock => cases hx
            | unlock => cases hx
            | _ => cases hp
          have hcurr : (c.kernel.taskPublish u).currTask = f.cpu := by
            rw [Kernel.taskPublish, Kernel.insertLast_currTask, Kernel.taskSetReady_currTask]
            exact h.cpu.symm
          have hend := catches_end hrun ho' hs hcurr .tickEnd
          rw [Machine.settle, if_pos (c := _ = (c.setCode c.curr _).curr) (hcurr.trans h.cpu)] at hend
          exact catches_act (catches_act hend)

theorem Settled.run (h : Settled own f c o) (hst : f.step .run = some f') :
    ∃ ls c', Lib.exec Machine.step c ls = some c' ∧ Catches own f' c' := by
  cases hs : c.susp f.cpu with
  | some r =>
      obtain ⟨c', h₁, h₂⟩ := h.resume hs hst
      exact ⟨[.resume], c', Lib.exec_cons.mpr ⟨c', h₁, rfl⟩, h₂⟩
  | none =>
      have hrest := h.restCpu
      have hsaved := h.savedCpu
      have hiff := h.iff
      rw [hs] at hrest hsaved hiff
      cases ho : o f.cpu with
      | none =>
          rw [ho] at hrest
          rw [Fine.step, hrest] at hst
          cases hst
      | some op =>
          obtain ⟨e, read⟩ := op
          rw [ho] at hrest hsaved
          have hf := inside_self (f := f)
          rw [hrest, hsaved, hiff] at hf
          rw [← hf] at hst
          cases read with
          | false =>
              obtain rfl := (Option.some.inj ((inside_step _).symm.trans hst)).symm.trans inside_save
              exact ⟨[], c, rfl, .now ⟨_, h.read hs ho⟩⟩
          | true =>
              obtain rfl := (Option.some.inj ((inside_step _).symm.trans hst)).symm.trans inside_cli
              obtain ⟨l, c', h₁, h₂⟩ := h.enter hs ho
              exact ⟨[l], c', Lib.exec_cons.mpr ⟨c', h₁, rfl⟩, h₂⟩

/-! ## タスク自身のコード -/

theorem Settled.of_rest_nil (h : Settled own f c o) (hr : f.rest f.cpu = []) :
    c.susp f.cpu = none ∧ o f.cpu = none := by
  have hrest := h.restCpu
  rw [hr] at hrest
  obtain ⟨h₁, h₂⟩ := List.append_eq_nil_iff.mp hrest.symm
  refine ⟨?_, ?_⟩
  · cases hs : c.susp f.cpu with
    | none => rfl
    | some r => rw [hs] at h₁; cases r <;> cases h₁
  · cases ho : o f.cpu with
    | none => rfl
    | some op =>
        rw [ho] at h₂
        obtain ⟨e, read⟩ := op
        cases read <;> cases h₂

/-- 区間の入り口に来る。`Machine` はまだ動かない。 -/
theorem Settled.opened (h : Settled own f c o) (hr : f.rest f.cpu = []) {e : Entry} {x : Code}
    (ha : Agrees f.cpu x (c.code f.cpu) (some ⟨e, false⟩)) :
    Settled own ((f.setCode x).setRest (protect e.body)) c (Function.update o f.cpu (some ⟨e, false⟩)) := by
  obtain ⟨hs, ho⟩ := h.of_rest_nil hr
  have hsaved := h.savedCpu
  rw [ho, hs] at hsaved
  refine ⟨⟨h.cpu, h.used, fun t => ?_, fun t (ht : t ≠ f.cpu) => ?_, fun t (ht : t ≠ f.cpu) => ?_,
    fun t (ht : t ≠ f.cpu) => h.tssIf t ht⟩, h.kernel, ?_, ?_, h.iff⟩
  · by_cases ht : t = f.cpu
    · subst ht
      rw [Function.update_self]
      convert ha using 1
      exact Function.update_self ..
    · rw [Function.update_of_ne ht]
      convert h.code t using 1
      exact Function.update_of_ne ht ..
  · rw [Function.update_of_ne ht]
    exact (Function.update_of_ne ht ..).trans (h.rest t ht)
  · rw [Function.update_of_ne ht]
    exact h.saved t ht
  · refine (Function.update_self ..).trans ?_
    change _ = restOf (c.susp f.cpu) ++ openRest (Function.update o f.cpu (some ⟨e, false⟩) f.cpu)
    rw [Function.update_self, hs]
    rfl
  · change f.saved f.cpu = savedOf (own f.cpu) (c.susp f.cpu) ++
      openSaved (own f.cpu) (Function.update o f.cpu (some ⟨e, false⟩) f.cpu)
    rw [Function.update_self, hs, hsaved]
    rfl

theorem Settled.stepCode (h : Settled own f c o) (ho : o f.cpu = none) (x : Code) {k : Kernel σ}
    (hk : k.currTask = f.cpu) (us : List TaskId) :
    Settled own { f.setCode x with kernel := k, used := us } { c.setCode c.curr x with kernel := k, used := us } o := by
  refine ⟨⟨hk.symm, rfl, fun t => ?_, h.rest, h.saved, h.tssIf⟩, rfl, h.restCpu, h.savedCpu, h.iff⟩
  have hcode := h.code t
  by_cases ht : t = f.cpu
  · subst ht
    rw [ho]
    refine (Function.update_self ..).trans (Eq.symm ?_)
    change Function.update c.code c.curr x f.cpu = x
    rw [h.cpu, Function.update_self]
  · convert hcode using 1
    · exact Function.update_of_ne ht ..
    · exact Function.update_of_ne (by rwa [← h.cpu]) ..

theorem Settled.call (h : Settled own f c o) {x : Call} (hst : f.step (.call x) = some f') : Catches own f' c := by
  simp only [Fine.step] at hst
  split at hst
  next hr hc =>
      split at hst
      next hidle =>
          cases hst
          obtain ⟨-, ho⟩ := h.of_rest_nil hr
          have hcode := h.code f.cpu
          rw [ho, hc] at hcode
          have hsame : f.setCode (f.code f.cpu) = f := by rw [Fine.setCode, Function.update_eq_self]
          have hopen := h.opened hr (e := .call x) (x := f.code f.cpu) ⟨hc, hcode.symm, hidle⟩
          rw [hsame] at hopen
          exact .now ⟨_, hopen⟩
      next => cases hst
  next => cases hst

theorem Settled.initStart (h : Settled own f c o) {u : TaskId} {a : InitArgs}
    (hst : f.step (.initStart u a) = some f') :
    ∃ c', c.step (.initStart u a) = some c' ∧ Catches own f' c' := by
  simp only [Fine.step] at hst
  split at hst
  next hr hc =>
      split at hst
      next hok =>
          cases hst
          obtain ⟨hs, ho⟩ := h.of_rest_nil hr
          have hcode := h.code f.cpu
          rw [ho, hc] at hcode
          have hcode' : c.code c.curr = .own := by rw [← h.cpu]; exact hcode.symm
          have hs' : c.susp c.curr = none := by rw [← h.cpu]; exact hs
          rw [h.cpu, h.used] at hok
          have hnext := h.stepCode ho (.init u a .lock) h.cpu.symm (u :: f.used)
          refine ⟨{ c.setCode c.curr (.init u a .lock) with used := u :: c.used }, ?_, .now ⟨o, ?_⟩⟩
          · simp only [Machine.step, hs', hcode']
            rw [if_pos hok]
          · rw [← h.kernel, h.used] at hnext
            convert hnext using 1
            · rw [h.used]
              rfl
            · rw [h.kernel]
              rfl
      next => cases hst
  next => cases hst

theorem initNext_protected {pc : Kernel.InitPc} (hp : pc.isProtected = true) (gdt gdt' : Gdt) :
    Kernel.initNext gdt pc = Kernel.initNext gdt' pc := by
  cases pc with
  | lock => rfl
  | unlock r => cases r <;> rfl
  | publish => rfl
  | _ => cases hp

theorem Settled.initStep (h : Settled own f c o) (hst : f.step .initStep = some f') :
    ∃ ls c', Lib.exec Machine.step c ls = some c' ∧ Catches own f' c' := by
  simp only [Fine.step] at hst
  split at hst
  next u a pc hr hc =>
      cases hst
      obtain ⟨hs, ho⟩ := h.of_rest_nil hr
      have hcode := h.code f.cpu
      rw [ho, hc] at hcode
      have hcode' : c.code c.curr = .init u a pc := by rw [← h.cpu]; exact hcode.symm
      have hs' : c.susp c.curr = none := by rw [← h.cpu]; exact hs
      rw [Fine.doInit]
      split
      next hp =>
          refine ⟨[], c, rfl, .now ⟨_, h.opened hr (e := .init u a pc) ⟨hcode.symm, hp, fun gdt => ?_⟩⟩⟩
          rw [initNext_protected hp gdt f.kernel.gdt]
      next hp =>
          have hnone : initCall pc = none := by
            cases pc with
            | lock => exact absurd rfl hp
            | unlock => exact absurd rfl hp
            | _ => rfl
          have hcurr : (c.kernel.initLocal u a pc).currTask = f.cpu := by
            cases pc with
            | publish => exact absurd rfl hp
            | _ => exact h.cpu.symm
          refine ⟨[.initStep], c.doInit u a pc, Lib.exec_cons.mpr ⟨_, by simp only [Machine.step, hs', hcode'], rfl⟩,
            .now ⟨o, ?_⟩⟩
          rw [Machine.doInit, hnone, h.kernel]
          have hnext := h.stepCode ho (.next u a (Kernel.initNext c.kernel.gdt pc)) hcurr c.used
          convert hnext using 1
          · rw [← h.used]
            rfl
          · rfl
  next => cases hst

/-! ## すべての実行 -/

theorem Fine.Busy.only_run (hb : f.Busy) {l : FineLabel} (hst : f.step l = some f') : l = .run := by
  obtain ⟨hiff, hrest⟩ := hb
  obtain ⟨x, p, hr⟩ := List.exists_cons_of_ne_nil hrest
  cases l with
  | run => rfl
  | interrupt => rw [Fine.step, hiff] at hst; cases hst
  | call x => simp only [Fine.step, hr] at hst; cases hst
  | initStart u a => simp only [Fine.step, hr] at hst; cases hst
  | initStep => simp only [Fine.step, hr] at hst; cases hst

theorem CaughtUp.step {l : FineLabel} (h : CaughtUp own f c) (hst : f.step l = some f') :
    ∃ ls c', Lib.exec Machine.step c ls = some c' ∧ Catches own f' c' := by
  obtain ⟨o, h⟩ := h
  cases l with
  | interrupt =>
      obtain ⟨c', h₁, h₂⟩ := h.interrupt hst
      exact ⟨[.tick], c', Lib.exec_cons.mpr ⟨c', h₁, rfl⟩, h₂⟩
  | run => exact h.run hst
  | call x => exact ⟨[], c, rfl, h.call hst⟩
  | initStart u a =>
      obtain ⟨c', h₁, h₂⟩ := h.initStart hst
      exact ⟨[.initStart u a], c', Lib.exec_cons.mpr ⟨c', h₁, rfl⟩, h₂⟩
  | initStep => exact h.initStep hst

/-- 起動のときの、タスク自身のコードでのビット。 -/
def ownIf (iff : Bool) : TaskId → Bool := Function.update (fun _ => true) firstTask iff

theorem caughtUp_boot (lists : σ) (b : BootArgs) (iff : Bool) :
    CaughtUp (ownIf iff) (Fine.boot lists b iff) (Machine.boot lists b) :=
  ⟨fun _ => none, ⟨⟨rfl, rfl, fun _ => rfl, fun _ _ => rfl, fun _ _ => rfl,
    fun _ ht => (Function.update_of_ne ht ..).symm⟩, rfl, rfl, rfl,
    (Function.update_self firstTask iff fun _ => true).symm⟩⟩

/-- 最初のタスクが割り込みを許して始まっても、禁じたまま始まっても、一文ごとの実行は `Machine` の実行に従う。割り込みのビットが立っているか、
今のタスクがカーネルの中にいないとき、カーネルの状態と実行中のタスクは、`Machine` の到達できる状態のものである。どちらでもないときは、
割り込みも新しい呼び出しもできず、今のタスクの残りの文をいくつか実行すると、`Machine` の到達できる状態に一致する。 -/
theorem fine_refines (node : Node → Lib.Link Node) (b : BootArgs) (iff : Bool) (ls : List FineLabel) (f : Fine Heap)
    (h : Lib.exec Fine.step (Fine.boot (Heap.empty node) b iff) ls = some f) :
    ∃ ms c, Machine.Reaches node b ms c ∧ Catches (ownIf iff) f c ∧
      (f.iff = true ∨ f.rest f.cpu = [] → f.kernel = c.kernel ∧ f.cpu = c.curr ∧ c.susp c.curr = none) := by
  obtain ⟨ms, c, hc, hd⟩ := Lib.exec_drains (fun s l s' hb hst => Fine.Busy.only_run hb hst)
    (fun s t l s' h hst => CaughtUp.step h hst) (.now (caughtUp_boot (Heap.empty node) b iff)) h
  refine ⟨ms, c, hc, hd, fun hout => ?_⟩
  obtain ⟨o, hs⟩ := hd.of_not_busy fun hb => hout.elim (fun hi => by simp [hb.1] at hi) hb.2
  refine ⟨hs.kernel, hs.cpu, ?_⟩
  rcases hout with hi | hr
  · have hbits := hs.iff
    rw [hi, hs.cpu, eq_comm, Bool.and_eq_true] at hbits
    exact Option.isNone_iff_eq_none.mp hbits.1
  · rw [← hs.cpu]
    exact (hs.of_rest_nil hr).1

/-- `sem_notify` の `read_eflags` と `cli` の間に、時計の割り込みが来る実行。 -/
theorem fine_refines_tick : ∃ f, Lib.exec Fine.step (Fine.boot (Heap.empty fun _ => ⟨none, none⟩) .zero true)
      (.call (.semNotify 0) :: .run :: .interrupt :: List.replicate 12 .run) = some f ∧
      f.kernel.sems 0 = 1 ∧
      ∃ ms c, Machine.Reaches (fun _ => ⟨none, none⟩) .zero ms c ∧ f.kernel = c.kernel := by
  obtain ⟨f, hf, hp⟩ := Option.any_eq_true _ _ |>.mp
    (show (Lib.exec Fine.step (Fine.boot (Heap.empty fun _ => ⟨none, none⟩) .zero true)
      (.call (.semNotify 0) :: .run :: .interrupt :: List.replicate 12 .run)).any
      (fun f => decide (f.iff = true ∧ f.kernel.sems 0 = 1)) = true by decide +kernel)
  obtain ⟨hiff, hsem⟩ := of_decide_eq_true hp
  obtain ⟨ms, c, hc, -, hk⟩ := fine_refines _ _ _ _ f hf
  exact ⟨f, hf, hsem, ms, c, hc, (hk (.inl hiff)).1⟩

end IdealX86
