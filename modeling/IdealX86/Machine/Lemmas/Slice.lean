import IdealX86.Lib.Queue
import IdealX86.Machine.Lemmas.Step

/-!
# 時間片と順番

時間片は 1 以上 `time_ticks` 以下に保たれる。`ready_list` で待つタスクについては、前にあるタスクの数と、その時間片の和が
増えず、割り込みのたびに和が減る。
-/

namespace IdealX86

open Kernel (InitPc)

namespace Kernel

/-! ## 時間片の書き換え -/

section
variable {σ : Type} [ListStore σ] (k : Kernel σ)

theorem call_ticks (x : Call) (u : TaskId) :
    ((k.call x).tasks u).sliceTicks = (k.tasks u).sliceTicks ∧
      ((k.call x).tasks u).timeTicks = (k.tasks u).timeTicks := by
  rcases call_cores k x u with h | ⟨ms, -, -, -, h⟩
  · exact ⟨(cores_ext h).2.2.1, (cores_ext h).2.1⟩
  · have h₁ := congrArg Task.sliceTicks h
    have h₂ := congrArg Task.timeTicks h
    exact ⟨h₁, h₂⟩

theorem tickSlice_ticks (u : TaskId) :
    (k.tickSlice.tasks u).sliceTicks =
        (if u = k.currTask then
          if k.sliceEnds then (k.tasks u).timeTicks else (k.tasks u).sliceTicks - 1
        else (k.tasks u).sliceTicks) ∧
      (k.tickSlice.tasks u).timeTicks = (k.tasks u).timeTicks := by
  have h := tickSlice_cores k u
  have h₁ := congrArg Task.sliceTicks h
  have h₂ := congrArg Task.timeTicks h
  by_cases hu : u = k.currTask
  · simp only [hu, ↓reduceIte] at h₁ h₂ ⊢; exact ⟨h₁, h₂⟩
  · simp only [hu, ↓reduceIte] at h₁ h₂ ⊢; exact ⟨h₁, h₂⟩

theorem initLocal_ticks (u : TaskId) (x : InitArgs) (pc : InitPc) (v : TaskId) :
    (((k.initLocal u x pc).tasks v).sliceTicks = (k.tasks v).sliceTicks ∧
      ((k.initLocal u x pc).tasks v).timeTicks = (k.tasks v).timeTicks) ∨
    (pc = .fields ∧ v = u) := by
  cases pc with
  | tss i =>
      left
      simp only [initLocal, tssFields, setTask_tasks]
      split
      · rename_i h; rw [h]; exact ⟨rfl, rfl⟩
      · exact ⟨rfl, rfl⟩
  | fields =>
      by_cases hv : v = u
      · exact .inr ⟨rfl, hv⟩
      · left
        have ht := (taskFields_frame k u x).2.2.2.2.2 v hv
        simp only [initLocal, ht, and_self]
  | publish =>
      left
      have hc := cores_ext (congrFun (taskPublish_frame k u).2.2.2.2.2 v)
      exact ⟨hc.2.2.1, hc.2.1⟩
  | _ => exact .inl ⟨rfl, rfl⟩

end

theorem Inv.tickSleep_ticks {a : Kernel Queues} (h : a.Inv) (u : TaskId) :
    (a.tickSleep.tasks u).sliceTicks = (a.tasks u).sliceTicks ∧
      (a.tickSleep.tasks u).timeTicks = (a.tasks u).timeTicks := by
  have hc := h.tickSleep_cores u
  have h₁ := congrArg Task.sliceTicks hc
  have h₂ := congrArg Task.timeTicks hc
  by_cases hu : u ∈ a.lists.sleep
  · simp only [hu, ↓reduceIte] at h₁ h₂; exact ⟨h₁, h₂⟩
  · simp only [hu, ↓reduceIte] at h₁ h₂; exact ⟨h₁, h₂⟩

/-! ## 時間片の範囲 -/

structure Sliced {σ : Type} (k : Kernel σ) (t : TaskId) : Prop where
  time : (k.tasks t).timeTicks = TASK_TIME_SLICE_DEFAULT
  pos : 1 ≤ (k.tasks t).sliceTicks
  le : (k.tasks t).sliceTicks ≤ (k.tasks t).timeTicks

variable {σ : Type} {k k' : Kernel σ} {t : TaskId}

theorem Sliced.of_ticks (h : k.Sliced t) (h₁ : (k'.tasks t).sliceTicks = (k.tasks t).sliceTicks)
    (h₂ : (k'.tasks t).timeTicks = (k.tasks t).timeTicks) : k'.Sliced t :=
  ⟨h₂ ▸ h.time, h₁ ▸ h.pos, h₁ ▸ h₂ ▸ h.le⟩

theorem Sliced.tickSlice [ListStore σ] (h : k.Sliced t) : k.tickSlice.Sliced t := by
  obtain ⟨h₁, h₂⟩ := tickSlice_ticks k t
  by_cases hc : t = k.currTask
  · obtain ⟨ht, hp, hl⟩ := h
    have hd : (1 : Int) ≤ TASK_TIME_SLICE_DEFAULT := by decide
    rw [if_pos hc] at h₁
    by_cases he : k.sliceEnds = true
    · rw [if_pos he] at h₁
      exact ⟨h₂.trans ht, by omega, by omega⟩
    · rw [if_neg he] at h₁
      have hz : (k.tasks t).sliceTicks - 1 ≠ 0 := by
        rw [hc]; simpa [sliceEnds] using he
      exact ⟨h₂.trans ht, by omega, by omega⟩
  · rw [if_neg hc] at h₁
    exact h.of_ticks h₁ h₂

theorem taskFields_sliced [ListStore σ] (k : Kernel σ) (u : TaskId) (x : InitArgs) :
    (k.taskFields u x).Sliced u := by
  obtain ⟨-, h₁, h₂⟩ := taskFields_ticks k u x
  exact ⟨h₁, by rw [h₂]; decide, by rw [h₁, h₂]⟩

theorem Sliced.initLocal [ListStore σ] (h : k.Sliced t) (u : TaskId) (x : InitArgs) (pc : InitPc) :
    (k.initLocal u x pc).Sliced t := by
  rcases initLocal_ticks k u x pc t with ⟨h₁, h₂⟩ | ⟨rfl, rfl⟩
  · exact h.of_ticks h₁ h₂
  · exact taskFields_sliced k t x

end Kernel

namespace Machine

variable {c c' : Machine Queues} {l : Label} {t : TaskId}

theorem Step.sliced (hst : c.Step l c') (h : c.Inv) (ht : c.kernel.Sliced t) : c'.kernel.Sliced t := by
  refine (hst.kernel (P := fun k => k.Inv ∧ k.Sliced t) h.idle ⟨h.kernel, ht⟩
    (fun x hx => ⟨h.kernel.call hx.1 x, ?_⟩) ⟨h.kernel.tickSlice, ht.tickSlice⟩ (fun k hk => ⟨hk.1.tickSleep, ?_⟩)
    fun u a pc hc => ⟨?_, ht.initLocal u a pc⟩).2
  · exact ht.of_ticks (Kernel.call_ticks _ x t).1 (Kernel.call_ticks _ x t).2
  · exact hk.2.of_ticks (hk.1.tickSleep_ticks t).1 (hk.1.tickSleep_ticks t).2
  · obtain ⟨-, h₁, h₂, h₃⟩ := h.fresh hc
    exact h.kernel.initLocal (h.curr_ne_idle hc) h₁ h₂ h₃ pc

/-- 公開されたタスクと、公開する直前のタスクの時間片は範囲にある。 -/
structure SliceInv (c : Machine Queues) : Prop where
  known : ∀ t ∈ c.kernel.lists.task, t ≠ idleTask → c.kernel.Sliced t
  fresh : ∀ {t u a}, c.code t = .init u a .publish → c.kernel.Sliced u

theorem initNext_publish {gdt : Gdt} {pc : InitPc} (h : Kernel.initNext gdt pc = some .publish) :
    pc = .fields := by
  cases pc with
  | fields => rfl
  | unlock r => cases r <;> cases h
  | scan i => simp only [Kernel.initNext] at h; split at h <;> (try split at h) <;> cases h
  | desc j i => simp only [Kernel.initNext] at h; split at h <;> cases h
  | _ => cases h

theorem Step.publish_next (hst : c.Step l c') {u : TaskId} {a : InitArgs}
    (hc : c'.code t = .init u a .publish) :
    c.code t = .init u a .publish ∨ c'.kernel = c.kernel.taskFields u a := by
  cases hst with
  | tick hs => rw [(doTick_frame c).1] at hc; exact .inl hc
  | resume r hs => rw [(doResume_frame c r).1] at hc; exact .inl hc
  | call x hs ho hi => rw [doCall_code] at hc; exact .inl hc
  | initStart u' a' hs ho hi hn hu =>
      change Function.update c.code c.curr _ t = _ at hc
      rw [Function.update_apply] at hc
      split at hc
      · cases hc
      · exact .inl hc
  | initStep u' a' pc hs ho =>
      rw [(doInit_frame c u' a' pc).1, Function.update_apply] at hc
      split at hc
      · right
        cases hn : Kernel.initNext c.kernel.gdt pc with
        | none => rw [hn] at hc; cases hc
        | some q =>
            rw [hn] at hc
            cases hc
            rw [initNext_publish hn, doInit_kernel]
            rfl
      · exact .inl hc

theorem Step.task_mem (hst : c.Step l c') (h : c.Inv) (ht : t ∈ c'.kernel.lists.task) :
    t ∈ c.kernel.lists.task ∨ ∃ u a, c.code u = .init t a .publish := by
  cases hst with
  | tick hs => rw [doTick_task h] at ht; exact .inl ht
  | resume r hs => rw [doResume_task h] at ht; exact .inl ht
  | call x hs ho hi => rw [doCall_kernel, h.kernel.call_task hi x] at ht; exact .inl ht
  | initStart u a hs ho hi hn hu => exact .inl ht
  | initStep u a pc hs hc =>
      rw [doInit_task h hc] at ht
      split at ht
      · rename_i hp
        rcases List.mem_append.mp ht with ht | ht
        · exact .inl ht
        · rw [List.mem_singleton.mp ht]; exact .inr ⟨c.curr, a, hp ▸ hc⟩
      · exact .inl ht

theorem Step.sliceInv (hst : c.Step l c') (h : c.Inv) (hs : c.SliceInv) : c'.SliceInv := by
  constructor
  · intro t ht hi
    rcases hst.task_mem h ht with ht | ⟨u, a, hc⟩
    · exact hst.sliced h (hs.known t ht hi)
    · exact hst.sliced h (hs.fresh hc)
  · intro t u a hc
    rcases hst.publish_next hc with hc | hk
    · exact hst.sliced h (hs.fresh hc)
    · rw [hk]; exact Kernel.taskFields_sliced _ u a

theorem boot_sliceInv (b : BootArgs) : (Machine.boot ({} : Queues) b).SliceInv := by
  obtain ⟨-, -, -, h₁, h₂⟩ := boot_frame b
  constructor
  · intro t ht hi
    rw [boot_lists] at ht
    simp only [List.mem_cons, List.not_mem_nil, or_false] at ht
    rcases ht with rfl | rfl
    · exact absurd rfl hi
    · exact ⟨h₁, by rw [h₂]; decide, by rw [h₁, h₂]⟩
  · intro t u a hc; cases hc

end Machine

/-! ## 順番 -/

namespace Kernel

open Lib (ahead weight)

/-- `t` が `ready_list` にあり、前にあるタスクは高々 `n` 個、その時間片の和は高々 `r` である。 -/
structure Behind (a : Kernel Queues) (t : TaskId) (n : Nat) (r : Int) : Prop where
  mem : t ∈ a.lists.ready
  length : (ahead t a.lists.ready).length ≤ n
  weight : weight (fun u => (a.tasks u).sliceTicks) t a.lists.ready ≤ r

variable {a b : Kernel Queues} {t : TaskId} {n : Nat} {r : Int}

theorem Behind.append (h : a.Behind t n r) {ys : List TaskId} (hr : b.lists.ready = a.lists.ready ++ ys)
    (hs : ∀ u ∈ a.lists.ready, (b.tasks u).sliceTicks = (a.tasks u).sliceTicks) : b.Behind t n r := by
  refine ⟨hr ▸ List.mem_append_left _ h.mem, ?_, ?_⟩
  · rw [hr, Lib.ahead_append h.mem]; exact h.length
  · rw [hr, Lib.weight_append _ h.mem, Lib.weight_congr hs]; exact h.weight

theorem Behind.tail (h : a.Behind t n r) (ht : t ≠ a.currTask) {ts ys : List TaskId}
    (hc : a.lists.ready = a.currTask :: ts) (hr : b.lists.ready = ts ++ ys)
    (hs : ∀ u ∈ ts, (b.tasks u).sliceTicks = (a.tasks u).sliceTicks) :
    b.Behind t n (r - (a.tasks a.currTask).sliceTicks) := by
  obtain ⟨hm, hl, hw⟩ := h
  rw [hc] at hm hl hw
  have hm' : t ∈ ts := (List.mem_cons.mp hm).resolve_left ht
  rw [Lib.ahead_cons_of_ne (Ne.symm ht), List.length_cons] at hl
  rw [Lib.weight_cons_of_ne _ (Ne.symm ht)] at hw
  refine ⟨hr ▸ List.mem_append_left _ hm', ?_, ?_⟩
  · rw [hr, Lib.ahead_append hm']; omega
  · rw [hr, Lib.weight_append _ hm', Lib.weight_congr hs]; omega

theorem Behind.mono (h : a.Behind t n r) {r' : Int} (hr : r ≤ r') : a.Behind t n r' :=
  ⟨h.mem, h.length, h.weight.trans hr⟩

theorem Inv.curr_cons (h : a.Inv) (hm : t ∈ a.lists.ready) : ∃ ts, a.lists.ready = a.currTask :: ts := by
  refine h.ready_cons fun hi => ?_
  rw [h.ready_nil hi] at hm
  cases hm

theorem Behind.call (h : a.Behind t n r) (ha : a.Inv) (ht : t ≠ a.currTask) (hc : a.currTask ≠ idleTask)
    (hp : 0 ≤ (a.tasks a.currTask).sliceTicks) (x : Call) : (a.call x).Behind t n r := by
  obtain ⟨ts, hts⟩ := ha.ready_cons hc
  have hs : ∀ u, ((a.call x).tasks u).sliceTicks = (a.tasks u).sliceTicks := fun u => (call_ticks a x u).1
  obtain ⟨ys, hr | hr⟩ := (ha.call_moves hc x).ready hts
  · exact h.append hr fun u _ => hs u
  · exact (h.tail ht hts hr fun u _ => hs u).mono (by omega)

theorem Behind.tickSleep (h : a.Behind t n r) (ha : a.Inv) : a.tickSleep.Behind t n r :=
  h.append (by rw [ha.tickSleep_lists]) fun u _ => (ha.tickSleep_ticks u).1

theorem Behind.tickSlice (h : a.Behind t n r) (ha : a.Inv) (ht : t ≠ a.currTask)
    (hp : 1 ≤ (a.tasks a.currTask).sliceTicks) : a.tickSlice.Behind t n (r - 1) := by
  obtain ⟨ts, hts⟩ := ha.curr_cons h.mem
  have hne : ∀ u ∈ ts, u ≠ a.currTask := fun u hu he => ha.curr_not_mem_tail hts (he ▸ hu)
  have hs : ∀ u ∈ ts, (a.tickSlice.tasks u).sliceTicks = (a.tasks u).sliceTicks := fun u hu => by
    rw [(tickSlice_ticks a u).1, if_neg (hne u hu)]
  have hl := ha.tickSlice_lists
  by_cases he : a.sliceEnds = true
  · have hr : a.tickSlice.lists.ready = ts ++ [a.currTask] := by
      rw [hl, if_pos he]
      simp [hts]
    exact (h.tail ht hts hr hs).mono (by omega)
  · rw [if_neg he] at hl
    have hc := (tickSlice_ticks a a.currTask).1
    rw [if_pos rfl, if_neg he] at hc
    obtain ⟨hm, hn, hw⟩ := h
    have hr : a.tickSlice.lists.ready = a.currTask :: ts := by rw [hl, hts]
    rw [hts, Lib.weight_cons_of_ne _ (Ne.symm ht)] at hw
    refine ⟨by rw [hl]; exact hm, by rw [hl]; exact hn, ?_⟩
    rw [hr, Lib.weight_cons_of_ne _ (Ne.symm ht), Lib.weight_congr hs, hc]
    omega

theorem Behind.initLocal (h : a.Behind t n r) {u : TaskId} (hu : u ∉ a.lists.ready) (hi : u ≠ idleTask)
    (x : InitArgs) (pc : InitPc) : (a.initLocal u x pc).Behind t n r := by
  have hs : ∀ v ∈ a.lists.ready, ((a.initLocal u x pc).tasks v).sliceTicks = (a.tasks v).sliceTicks := by
    intro v hv
    rcases initLocal_ticks a u x pc v with h | ⟨-, he⟩
    · exact h.1
    · exact absurd (he ▸ hv) hu
  by_cases hp : pc = .publish
  · subst hp
    exact h.append (congrArg Queues.ready (taskPublish_lists a hi)) hs
  · have hr : (a.initLocal u x pc).lists.ready = a.lists.ready ++ [] := by
      rw [(initLocal_lists a u x hp).1, List.append_nil]
    exact h.append hr hs

end Kernel

namespace Machine

variable {c c' : Machine Queues} {l : Label} {t : TaskId} {n : Nat} {r : Int}

theorem SliceInv.curr_pos (hs : c.SliceInv) (h : c.Inv) (hm : t ∈ c.kernel.lists.ready) :
    1 ≤ (c.kernel.tasks c.curr).sliceTicks := by
  obtain ⟨ts, hts⟩ := h.kernel.curr_cons hm
  have hc : c.curr ∈ c.kernel.lists.ready := by rw [hts]; simp
  exact (hs.known _ (h.kernel.placed.known .ready _ hc)
    (h.kernel.placed.ne_idle (l := .ready) (by simp) hc)).pos

/-- 待っているタスクは、どの一歩でも追い越されず、割り込みのたびに前の時間片の和が減る。 -/
theorem Step.behind (hst : c.Step l c') (h : c.Inv) (hs : c.SliceInv) (ht : t ≠ c.curr)
    (hb : c.kernel.Behind t n r) : c'.kernel.Behind t n (if l.isTick then r - 1 else r) := by
  have hp := hs.curr_pos h hb.mem
  by_cases hl : l = .tick
  · subst hl
    cases hst with
    | tick hs =>
        have hk := hb.tickSlice h.kernel ht hp
        rw [Label.isTick, if_pos rfl, doTick_kernel]
        split
        · exact hk.tickSleep h.kernel.tickSlice
        · exact hk
  · have hf : l.isTick = false := by cases l <;> first | rfl | exact absurd rfl hl
    rw [hf, if_neg Bool.false_ne_true]
    have hk : ∀ u a pc, c.code c.curr = .init u a pc → (c.kernel.initLocal u a pc).Inv := by
      intro u a pc hc
      obtain ⟨-, h₁, h₂, h₃⟩ := h.fresh hc
      exact h.kernel.initLocal (h.curr_ne_idle hc) h₁ h₂ h₃ pc
    refine (hst.kernel (P := fun k => k.Inv ∧ k.Behind t n r) h.idle ⟨h.kernel, hb⟩
      (fun x hx => ⟨h.kernel.call hx.1 x, hb.call h.kernel ht hx.1 (Int.le_of_lt hp) x⟩)
      ⟨h.kernel.tickSlice, (hb.tickSlice h.kernel ht hp).mono (by omega)⟩
      (fun k hk => ⟨hk.1.tickSleep, hk.2.tickSleep hk.1⟩) fun u a pc hc => ⟨hk u a pc hc, ?_⟩).2
    obtain ⟨-, h₁, h₂, -⟩ := h.fresh hc
    exact hb.initLocal (fun hu => h₁ (h.kernel.placed.known .ready u hu)) h₂ a pc

end Machine

end IdealX86
