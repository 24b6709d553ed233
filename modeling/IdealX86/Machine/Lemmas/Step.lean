import IdealX86.Lib.Run
import IdealX86.Machine.Lemmas.Boot
import IdealX86.Machine.Lemmas.Call

/-!
# 機械の一歩と不変条件

一歩の場合分け（`Machine.Step`）を一度だけ取り出し、抽象の機械の不変条件と、ヒープの機械との対応が、
すべての実行で保たれることを示す。
-/

namespace IdealX86

open Kernel (InitPc)

namespace Machine

section
variable {σ : Type} [ListStore σ] {c c' : Machine σ} {l : Label}

inductive Step (c : Machine σ) : Label → Machine σ → Prop where
  | tick (hs : c.susp c.curr = none) : Step c .tick c.doTick
  | resume (r : Suspended) (hs : c.susp c.curr = some r) : Step c .resume (c.doResume r)
  | call (x : Call) (hs : c.susp c.curr = none) (ho : c.code c.curr = .own) (hi : c.curr ≠ idleTask) :
      Step c (.call x) (c.doCall x)
  | initStart (u : TaskId) (a : InitArgs) (hs : c.susp c.curr = none) (ho : c.code c.curr = .own)
      (hi : c.curr ≠ idleTask) (hn : u ≠ nullTask) (hu : u ∉ c.used) :
      Step c (.initStart u a) { c.setCode c.curr (.init u a .lock) with used := u :: c.used }
  | initStep (u : TaskId) (a : InitArgs) (pc : InitPc) (hs : c.susp c.curr = none)
      (hc : c.code c.curr = .init u a pc) : Step c .initStep (c.doInit u a pc)

theorem step_cases (h : c.step l = some c') : c.Step l c' := by
  cases l with
  | tick =>
      simp only [step] at h
      split at h
      · cases h; exact .tick ‹_›
      · cases h
  | resume =>
      simp only [step] at h
      split at h
      · cases h; exact .resume _ ‹_›
      · cases h
  | call x =>
      simp only [step] at h
      split at h
      · split at h
        · cases h; exact .call x ‹_› ‹_› ‹_›
        · cases h
      · cases h
  | initStart u a =>
      simp only [step] at h
      split at h
      · split at h
        · rename_i hu; cases h; exact .initStart u a ‹_› ‹_› hu.1 hu.2.1 hu.2.2
        · cases h
      · cases h
  | initStep =>
      simp only [step] at h
      split at h
      · cases h; exact .initStep _ _ _ ‹_› ‹_›
      · cases h

/-! ## 一歩の各部が変える欄 -/

variable (c) (k : Kernel σ) (r : Suspended)

omit [ListStore σ] in
@[simp] theorem setSusp_kernel (t : TaskId) (r : Option Suspended) : (c.setSusp t r).kernel = c.kernel := rfl

omit [ListStore σ] in
@[simp] theorem setCode_kernel (t : TaskId) (x : Code) : (c.setCode t x).kernel = c.kernel := rfl

omit [ListStore σ] in
@[simp] theorem settle_kernel : (c.settle k r).kernel = k := by unfold settle; split <;> rfl

omit [ListStore σ] in
@[simp] theorem settle_code : (c.settle k r).code = c.code := by unfold settle; split <;> rfl

omit [ListStore σ] in
@[simp] theorem settle_used : (c.settle k r).used = c.used := by unfold settle; split <;> rfl

omit [ListStore σ] in
@[simp] theorem settle_hist : (c.settle k r).hist = c.hist := by unfold settle; split <;> rfl

omit [ListStore σ] in
theorem settle_susp : (c.settle k r).susp =
    if k.currTask = c.curr then c.susp else Function.update c.susp c.curr (some r) := by
  unfold settle; split <;> rfl

@[simp] theorem doCall_kernel (x : Call) : (c.doCall x).kernel = c.kernel.call x := by simp [doCall]

@[simp] theorem doCall_code (x : Call) : (c.doCall x).code = c.code := by simp [doCall]

@[simp] theorem doCall_used (x : Call) : (c.doCall x).used = c.used := by simp [doCall]

@[simp] theorem doTickSleep_kernel : c.doTickSleep.kernel = c.kernel.tickSleep := by simp [doTickSleep]

theorem doTick_kernel : c.doTick.kernel =
    if c.kernel.tickSlice.currTask = c.curr then c.kernel.tickSlice.tickSleep else c.kernel.tickSlice := by
  unfold doTick
  dsimp only
  split
  · rw [doTickSleep_kernel]
  · rfl

theorem doTick_frame : c.doTick.code = c.code ∧ c.doTick.used = c.used ∧ c.doTick.hist = c.hist := by
  unfold doTick
  dsimp only
  split
  · simp [doTickSleep]
  · exact ⟨rfl, rfl, rfl⟩

theorem doResume_frame : (c.doResume r).code = c.code ∧ (c.doResume r).used = c.used := by
  cases r with
  | call x => exact ⟨rfl, rfl⟩
  | tickSlice => simp [doResume, doTickSleep, setSusp]
  | tickEnd => exact ⟨rfl, rfl⟩

theorem doInit_frame (u : TaskId) (a : InitArgs) (pc : InitPc) :
    (c.doInit u a pc).code =
        Function.update c.code c.curr (.next u a (Kernel.initNext c.kernel.gdt pc)) ∧
      (c.doInit u a pc).used = c.used := by
  unfold doInit
  dsimp only
  split
  · simp [setCode]
  · exact ⟨rfl, rfl⟩

theorem doInit_kernel (u : TaskId) (a : InitArgs) (pc : InitPc) :
    (c.doInit u a pc).kernel =
      match initCall pc with
      | some x => c.kernel.call x
      | none => c.kernel.initLocal u a pc := by
  unfold doInit
  cases hx : initCall pc <;> simp

end

/-! ## カーネルについての規則 -/

section
variable {σ : Type} [ListStore σ] {c c' : Machine σ} {l : Label}

/-- ラベル `l` の一歩が呼び出し `x` を行う。 -/
def Calls (c : Machine σ) (l : Label) (x : Call) : Prop :=
  c.curr ≠ idleTask ∧ (l = .call x ∨
    ∃ u a pc, l = .initStep ∧ c.code c.curr = .init u a pc ∧ initCall pc = some x)

/-- カーネルの性質 `P` は、呼び出し、割り込みの前半と後半、`task_init` の一つの位置が保てば、一歩で保たれる。 -/
theorem Step.kernel {P : Kernel σ → Prop} (h : c.Step l c') (hidle : c.code idleTask = .own)
    (hP : P c.kernel) (hcall : ∀ x, c.Calls l x → P (c.kernel.call x))
    (hslice : P c.kernel.tickSlice) (hsleep : ∀ k, P k → P k.tickSleep)
    (hinit : ∀ u a pc, c.code c.curr = .init u a pc → P (c.kernel.initLocal u a pc)) :
    P c'.kernel := by
  cases h with
  | tick hs =>
      rw [doTick_kernel]
      split
      · exact hsleep _ hslice
      · exact hslice
  | resume r hs =>
      cases r with
      | call x => exact hP
      | tickSlice =>
          have hk : (c.doResume .tickSlice).kernel = c.kernel.tickSleep := by simp [doResume]
          rw [hk]; exact hsleep _ hP
      | tickEnd => exact hP
  | call x hs ho hi => rw [doCall_kernel]; exact hcall x ⟨hi, .inl rfl⟩
  | initStart u a hs ho hi hn hu => exact hP
  | initStep u a pc hs hc =>
      rw [doInit_kernel]
      cases hx : initCall pc with
      | some x =>
          refine hcall x ⟨fun hi => ?_, .inr ⟨u, a, pc, rfl, hc, hx⟩⟩
          rw [hi, hidle] at hc
          cases hc
      | none => exact hinit u a pc hc

end

/-! ## 抽象の機械の不変条件 -/

/-- 抽象の機械の不変条件。`task_init` の途中のタスクは、まだ公開されておらず、二つのタスクが同じものを作ることもない。 -/
structure Inv (c : Machine Queues) : Prop where
  kernel : c.kernel.Inv
  idle : c.code idleTask = .own
  used : ∀ t ∈ c.kernel.lists.task, t ∈ c.used
  idle_used : idleTask ∈ c.used
  fresh : ∀ {t u a pc}, c.code t = .init u a pc →
    u ∈ c.used ∧ u ∉ c.kernel.lists.task ∧ u ≠ idleTask ∧ u ≠ nullTask
  unique : ∀ {t t' u a a' pc pc'}, c.code t = .init u a pc → c.code t' = .init u a' pc' → t = t'

end Machine

/-! ## カーネルの不変条件 -/

namespace Kernel

variable {a : Kernel Queues} {u : TaskId} {x : InitArgs}

theorem initLocal_lists (a : Kernel Queues) (u : TaskId) (x : InitArgs) {pc : InitPc} (hp : pc ≠ .publish) :
    (a.initLocal u x pc).lists = a.lists ∧ (a.initLocal u x pc).currTask = a.currTask := by
  cases pc <;> first | exact ⟨rfl, rfl⟩ | exact absurd rfl hp

theorem Inv.initLocal (h : a.Inv) (hc : a.currTask ≠ idleTask) (ht : u ∉ a.lists.task)
    (hi : u ≠ idleTask) (hn : u ≠ nullTask) (pc : InitPc) : (a.initLocal u x pc).Inv := by
  by_cases hp : pc = .publish
  · subst hp; exact h.taskPublish hc ht hn hi
  · obtain ⟨h₁, h₂⟩ := initLocal_lists a u x hp; exact h.of_lists h₁ h₂

theorem Sim.initLocal {k : Kernel Heap} (hs : Sim k a) (h : a.Inv) (ht : u ∉ a.lists.task) (x : InitArgs)
    (pc : InitPc) : Sim (k.initLocal u x pc) (a.initLocal u x pc) := by
  have hw := h.placed.nowhere_of_unknown ht
  cases pc with
  | desc j i => exact hs.storeDesc u j i
  | tss i => exact hs.tssFields u x i
  | fields => exact hs.taskFields hw ht x
  | publish => exact hs.taskPublish hw ht
  | lock => exact hs
  | scan i => exact hs
  | unlock r => exact hs

end Kernel

namespace Machine

section
variable {c c' : Machine Queues} {l : Label}

theorem Inv.curr_ne_idle (h : c.Inv) {u : TaskId} {a : InitArgs} {pc : InitPc}
    (hc : c.code c.curr = .init u a pc) : c.curr ≠ idleTask := by
  intro hi
  rw [hi, h.idle] at hc
  cases hc

theorem Step.kernel_inv (hst : c.Step l c') (h : c.Inv) : c'.kernel.Inv :=
  hst.kernel h.idle h.kernel (fun x hx => h.kernel.call hx.1 x) h.kernel.tickSlice (fun _ hk => hk.tickSleep)
    fun _ _ pc hc =>
      h.kernel.initLocal (h.curr_ne_idle hc) (h.fresh hc).2.1 (h.fresh hc).2.2.1 (h.fresh hc).2.2.2 pc

theorem doTick_task (h : c.Inv) : c.doTick.kernel.lists.task = c.kernel.lists.task := by
  rw [doTick_kernel]
  split
  · rw [h.kernel.tickSlice.tickSleep_lists, h.kernel.tickSlice_lists]
  · rw [h.kernel.tickSlice_lists]

theorem doResume_task (h : c.Inv) (r : Suspended) :
    (c.doResume r).kernel.lists.task = c.kernel.lists.task := by
  cases r with
  | call x => rfl
  | tickSlice =>
      have hk : (c.doResume .tickSlice).kernel = c.kernel.tickSleep := by simp [doResume]
      rw [hk, h.kernel.tickSleep_lists]
  | tickEnd => rfl

theorem doInit_task (h : c.Inv) {u : TaskId} {a : InitArgs} {pc : InitPc}
    (hc : c.code c.curr = .init u a pc) :
    (c.doInit u a pc).kernel.lists.task =
      if pc = .publish then c.kernel.lists.task ++ [u] else c.kernel.lists.task := by
  rw [doInit_kernel]
  cases hx : initCall pc with
  | some x =>
      have hp : pc ≠ .publish := by rintro rfl; cases hx
      rw [if_neg hp]; exact h.kernel.call_task (h.curr_ne_idle hc) x
  | none =>
      by_cases hp : pc = .publish
      · subst hp
        exact congrArg Queues.task (Kernel.taskPublish_lists _ (h.fresh hc).2.2.1)
      · rw [if_neg hp]; exact congrArg Queues.task (Kernel.initLocal_lists _ u a hp).1

theorem Inv.of_same (h : c.Inv) (hk : c'.kernel.Inv) (ht : c'.kernel.lists.task = c.kernel.lists.task)
    (hc : c'.code = c.code) (hu : c'.used = c.used) : c'.Inv where
  kernel := hk
  idle := hc ▸ h.idle
  used := by rw [ht, hu]; exact h.used
  idle_used := hu ▸ h.idle_used
  fresh := by rw [hc, hu, ht]; exact h.fresh
  unique := by rw [hc]; exact h.unique

theorem initNext_eq_none {gdt : Gdt} {pc : InitPc} : Kernel.initNext gdt pc = none ↔ pc = .publish := by
  cases pc with
  | unlock r => cases r <;> simp [Kernel.initNext]
  | scan i => simp only [Kernel.initNext]; split <;> (try split) <;> simp
  | desc j i => simp only [Kernel.initNext]; split <;> simp
  | _ => simp [Kernel.initNext]

theorem next_eq_init {gdt : Gdt} {u v : TaskId} {a a' : InitArgs} {pc pc' : InitPc}
    (h : Code.next u a (Kernel.initNext gdt pc) = .init v a' pc') : v = u ∧ pc ≠ .publish := by
  cases hn : Kernel.initNext gdt pc with
  | none => rw [hn] at h; cases h
  | some q => rw [hn] at h; cases h; exact ⟨rfl, fun hp => by rw [initNext_eq_none.mpr hp] at hn; cases hn⟩

theorem Inv.initStep (h : c.Inv) {u : TaskId} {a : InitArgs} {pc : InitPc} (hs : c.susp c.curr = none)
    (hc : c.code c.curr = .init u a pc) : (c.doInit u a pc).Inv := by
  obtain ⟨hcode, hused⟩ := doInit_frame c u a pc
  have hi := h.curr_ne_idle hc
  have ht := doInit_task h hc
  -- 途中のタスクは、この一歩の前から途中だった。公開するなら、それは今のタスクのものではない。
  have hcases : ∀ {t v a' pc'}, (c.doInit u a pc).code t = .init v a' pc' →
      ∃ a'' pc'', c.code t = .init v a'' pc'' ∧ (pc = .publish → v ≠ u) := by
    intro t v a' pc' hv
    rw [hcode, Function.update_apply] at hv
    by_cases he : t = c.curr
    · rw [if_pos he] at hv
      obtain ⟨rfl, hp⟩ := next_eq_init hv
      exact ⟨a, pc, he ▸ hc, fun h => absurd h hp⟩
    · rw [if_neg he] at hv
      exact ⟨a', pc', hv, fun _ hvu => he (h.unique hv (hvu ▸ hc))⟩
  refine ⟨(Step.initStep u a pc hs hc).kernel_inv h, ?_, ?_, hused ▸ h.idle_used, ?_, ?_⟩
  · rw [hcode, Function.update_of_ne (Ne.symm hi)]; exact h.idle
  · rw [ht, hused]
    split
    · intro t hm
      rcases List.mem_append.mp hm with hm | hm
      · exact h.used t hm
      · rw [List.mem_singleton.mp hm]; exact (h.fresh hc).1
    · exact h.used
  · intro t v a' pc' hv
    obtain ⟨a'', pc'', hv', hne⟩ := hcases hv
    obtain ⟨h₁, h₂, h₃⟩ := h.fresh hv'
    refine ⟨hused ▸ h₁, ?_, h₃⟩
    rw [ht]
    split
    · rename_i hp
      simp only [List.mem_append, List.mem_singleton, not_or]
      exact ⟨h₂, hne hp⟩
    · exact h₂
  · intro t t' v a' a'' pc' pc'' hv hv'
    obtain ⟨_, _, h₁, -⟩ := hcases hv
    obtain ⟨_, _, h₂, -⟩ := hcases hv'
    exact h.unique h₁ h₂

theorem Inv.initStart (h : c.Inv) {u : TaskId} (a : InitArgs) (hi : c.curr ≠ idleTask)
    (hn : u ≠ nullTask) (hu : u ∉ c.used) :
    Inv { c.setCode c.curr (.init u a .lock) with used := u :: c.used } := by
  have hcases : ∀ {t v a' pc'}, Function.update c.code c.curr (.init u a .lock) t = .init v a' pc' →
      (t = c.curr ∧ v = u) ∨ c.code t = .init v a' pc' := by
    intro t v a' pc' hv
    rw [Function.update_apply] at hv
    split at hv
    · cases hv; exact Or.inl ⟨‹_›, rfl⟩
    · exact Or.inr hv
  refine ⟨h.kernel, ?_, fun t ht => List.mem_cons_of_mem _ (h.used t ht),
    List.mem_cons_of_mem _ h.idle_used, ?_, ?_⟩
  · exact (Function.update_of_ne (Ne.symm hi) _ _).trans h.idle
  · intro t v a' pc' hv
    rcases hcases hv with ⟨-, rfl⟩ | hv
    · exact ⟨List.mem_cons_self, fun ht => hu (h.used _ ht), fun he => hu (he ▸ h.idle_used), hn⟩
    · obtain ⟨h₁, h₂⟩ := h.fresh hv; exact ⟨List.mem_cons_of_mem _ h₁, h₂⟩
  · intro t t' v a' a'' pc' pc'' hv hv'
    rcases hcases hv with ⟨e, eu⟩ | hv <;> rcases hcases hv' with ⟨e', eu'⟩ | hv'
    · rw [e, e']
    · rw [eu] at hv'; exact absurd (h.fresh hv').1 hu
    · rw [eu'] at hv; exact absurd (h.fresh hv).1 hu
    · exact h.unique hv hv'

theorem Step.inv (hst : c.Step l c') (h : c.Inv) : c'.Inv := by
  have hk := hst.kernel_inv h
  cases hst with
  | tick hs => exact h.of_same hk (doTick_task h) (doTick_frame c).1 (doTick_frame c).2.1
  | resume r hs => exact h.of_same hk (doResume_task h r) (doResume_frame c r).1 (doResume_frame c r).2
  | call x hs ho hi =>
      refine h.of_same hk ?_ (doCall_code c x) (doCall_used c x)
      rw [doCall_kernel]; exact h.kernel.call_task hi x
  | initStart u a hs ho hi hn hu => exact h.initStart a hi hn hu
  | initStep u a pc hs hc => exact h.initStep hs hc

theorem inv_boot (b : BootArgs) : (Machine.boot ({} : Queues) b).Inv where
  kernel := boot_inv b
  idle := rfl
  used := by
    rw [boot_lists]
    intro t ht
    simp only [List.mem_cons, List.not_mem_nil, or_false] at ht
    rcases ht with rfl | rfl <;> simp [Machine.boot]
  idle_used := by simp [Machine.boot]
  fresh := by intro t u a pc h; cases h
  unique := by intro t t' u a a' pc pc' h; cases h

end

/-! ## ヒープの機械との対応 -/

structure Sim (c : Machine Heap) (d : Machine Queues) : Prop where
  kernel : Kernel.Sim c.kernel d.kernel
  code : c.code = d.code
  susp : c.susp = d.susp
  used : c.used = d.used
  hist : c.hist = d.hist

variable {c c' : Machine Heap} {d : Machine Queues} {l : Label}

theorem Sim.curr (h : Sim c d) : c.curr = d.curr := h.kernel.currTask

theorem Sim.setSusp (h : Sim c d) (r : Option Suspended) :
    Sim (c.setSusp c.curr r) (d.setSusp d.curr r) :=
  { h with susp := by simp only [Machine.setSusp, h.susp, h.curr] }

theorem Sim.setCode (h : Sim c d) (x : Code) : Sim (c.setCode c.curr x) (d.setCode d.curr x) :=
  { h with code := by simp only [Machine.setCode, h.code, h.curr] }

theorem Sim.settle (h : Sim c d) {k : Kernel Heap} {a : Kernel Queues} (hk : Kernel.Sim k a)
    (r : Suspended) : Sim (c.settle k r) (d.settle a r) := by
  unfold Machine.settle
  rw [hk.currTask, h.curr]
  split
  · exact { h with kernel := hk }
  · have hs := h.setSusp (some r)
    rw [h.curr] at hs
    exact { hs with kernel := hk }

theorem Sim.doCall (h : Sim c d) (hd : d.kernel.Inv) (x : Call) : Sim (c.doCall x) (d.doCall x) := by
  have hs := h.settle (h.kernel.call hd x) (.call x)
  exact { hs with hist := by simp only [Machine.doCall, h.kernel.callEvents, h.hist] }

theorem Sim.doTickSleep (h : Sim c d) (hd : d.kernel.Inv) : Sim c.doTickSleep d.doTickSleep :=
  h.settle (h.kernel.tickSleep hd.placed) _

theorem Sim.doTick (h : Sim c d) (hd : d.kernel.Inv) : Sim c.doTick d.doTick := by
  have hk := h.kernel.tickSlice hd
  unfold Machine.doTick
  dsimp only
  rw [hk.currTask, h.curr]
  split
  · have hc : Sim { c with kernel := c.kernel.tickSlice } { d with kernel := d.kernel.tickSlice } :=
      { h with kernel := hk }
    exact hc.doTickSleep hd.tickSlice
  · have hs := h.setSusp (some .tickSlice)
    rw [h.curr] at hs
    exact { hs with kernel := hk }

theorem Sim.doResume (h : Sim c d) (hd : d.kernel.Inv) (r : Suspended) :
    Sim (c.doResume r) (d.doResume r) := by
  have hs := h.setSusp none
  cases r with
  | call x => exact { hs with hist := by simp only [Machine.doResume, h.hist, h.curr] }
  | tickSlice => exact hs.doTickSleep hd
  | tickEnd => exact hs

theorem Sim.doInit (h : Sim c d) (hd : d.Inv) {u : TaskId} {a : InitArgs} {pc : InitPc}
    (hc : d.code d.curr = .init u a pc) : Sim (c.doInit u a pc) (d.doInit u a pc) := by
  have hs := h.setCode (.next u a (Kernel.initNext d.kernel.gdt pc))
  unfold Machine.doInit
  rw [h.kernel.gdt]
  cases initCall pc with
  | some x => exact hs.doCall hd.kernel x
  | none => exact { hs with kernel := h.kernel.initLocal hd.kernel (hd.fresh hc).2.1 a pc }

theorem Sim.step (h : Sim c d) (hd : d.Inv) (hst : c.step l = some c') :
    ∃ d', d.step l = some d' ∧ Sim c' d' := by
  cases step_cases hst with
  | tick hs =>
      rw [h.susp, h.curr] at hs
      exact ⟨_, by simp [Machine.step, hs], h.doTick hd.kernel⟩
  | resume r hs =>
      rw [h.susp, h.curr] at hs
      exact ⟨_, by simp [Machine.step, hs], h.doResume hd.kernel r⟩
  | call x hs ho hi =>
      rw [h.susp, h.curr] at hs
      rw [h.code, h.curr] at ho
      rw [h.curr] at hi
      exact ⟨_, by simp [Machine.step, hs, ho, hi], h.doCall hd.kernel x⟩
  | initStart u a hs ho hi hn hu =>
      rw [h.susp, h.curr] at hs
      rw [h.code, h.curr] at ho
      rw [h.curr] at hi
      rw [h.used] at hu
      refine ⟨{ d.setCode d.curr (.init u a .lock) with used := u :: d.used }, ?_, ?_⟩
      · simp [Machine.step, hs, ho, hi, hn, hu]
      · exact { h.setCode (.init u a .lock) with used := congrArg _ h.used }
  | initStep u a pc hs hc =>
      rw [h.susp, h.curr] at hs
      rw [h.code, h.curr] at hc
      exact ⟨_, by simp [Machine.step, hs, hc], h.doInit hd hc⟩

theorem Inv.step {d' : Machine Queues} (h : d.Inv) (hst : d.step l = some d') : d'.Inv :=
  (step_cases hst).inv h

/-- ヒープの機械のどの実行にも、対応する抽象の機械の実行がある。 -/
theorem Sim.exec {ls : List Label} (h : Sim c d) (hd : d.Inv) (hrun : Lib.exec Machine.step c ls = some c') :
    ∃ d', Lib.exec Machine.step d ls = some d' ∧ Sim c' d' ∧ d'.Inv := by
  refine Lib.exec_sim (R := fun c d => Sim c d ∧ d.Inv) ?_ ⟨h, hd⟩ hrun
  rintro c d l c' ⟨hs, hd⟩ hst
  obtain ⟨d', hst', hs'⟩ := hs.step hd hst
  exact ⟨d', hst', hs', hd.step hst'⟩

theorem sim_boot (b : BootArgs) (node : Node → Lib.Link Node) :
    Sim (Machine.boot (Heap.empty node) b) (Machine.boot ({} : Queues) b) :=
  ⟨boot_sim b node, rfl, rfl, rfl, rfl⟩

end Machine

end IdealX86
