import IdealX86.Core.Lemmas.Sched

/-!
# `sleep_list` をたどるループ

`task_time_tick` の後半のループが、睡眠中のタスクを一つずつ、前から順に、ちょうど一度数え下げることを示す。
起こしたタスクは途中で外れるが、次の節は先に読んであるので、残りをたどり続けられる。
-/

namespace IdealX86

theorem succOf_append {t : TaskId} {xs ys : List TaskId} (h : t ∉ xs) :
    succOf t (xs ++ t :: ys) = ys.head? := by
  induction xs with
  | nil => simp [succOf]
  | cons x xs ih =>
      simp only [List.mem_cons, not_or] at h
      simp only [List.cons_append, succOf, if_neg (Ne.symm h.1), ih h.2]

namespace Kernel

open Queues

variable {k : Kernel Heap} {a : Kernel Queues} {t : TaskId}

def wakes {σ : Type} (k : Kernel σ) (t : TaskId) : Bool := (k.tasks t).sleepTicks - 1 = 0

def countSleep {σ : Type} (k : Kernel σ) (t : TaskId) : Kernel σ :=
  k.setTask t fun x => { x with sleepTicks := x.sleepTicks - 1 }

theorem wakeOne_eq {σ : Type} [ListStore σ] (k : Kernel σ) (t : TaskId) :
    k.wakeOne t =
      if k.wakes t then ((k.countSleep t).taskSetWakeup t).taskSetReady t else k.countSleep t := by
  simp [wakeOne, wakes, countSleep, setTask_tasks]

/-! ## 一つのタスク -/

section
variable {xs ys : List TaskId}

theorem wakeOne_lists (hx : a.lists.sleep = xs ++ t :: ys) (hn : t ∉ xs) (hi : t ≠ idleTask) :
    (a.wakeOne t).lists =
      if a.wakes t then { a.lists with ready := a.lists.ready ++ [t], sleep := xs ++ ys } else a.lists := by
  rw [wakeOne_eq]
  split
  · rw [taskSetReady_lists _ hi]
    simp [taskSetWakeup, countSleep, Queues.modify, Node.task, hx, List.erase_append_right _ hn]
  · rfl

theorem placed_wakeOne (h : a.lists.Placed) (ht : t ∈ a.lists.sleep) : (a.wakeOne t).lists.Placed := by
  rw [wakeOne_eq]
  split
  · exact placed_taskSetReady (h.erase (l := .sleep) (by simp) t)
      (h.nowhere_erase (l := .sleep) (by simp) ht) fun _ => h.known .sleep t ht
  · exact h

theorem Sim.wakeOne (hs : Sim k a) (h : a.lists.Placed) (ht : t ∈ a.lists.sleep) :
    Sim (k.wakeOne t) (a.wakeOne t) := by
  have hc : Sim (k.countSleep t) (a.countSleep t) := hs.setTask _ _
  rw [wakeOne_eq, wakeOne_eq, wakes, wakes, hs.tasks]
  split
  · exact (hc.remove (l := .sleep) ht).taskSetReady (h.nowhere_erase (l := .sleep) (by simp) ht)
  · exact hc

theorem Sim.next_eq (hs : Sim k a) (hx : a.lists.sleep = xs ++ t :: ys) :
    ListStore.next k.lists .sleep (.run t) = ys.head?.map Node.run := by
  have hq : a.lists.nodes .sleep = xs.map Node.run ++ Node.run t :: ys.map Node.run := by
    simp [Queues.nodes, hx]; rfl
  have hn := hs.rep.next_eq hq
  rw [List.head?_map] at hn
  exact hn

end

/-! ## ループの全体 -/

/-- `sleep_list` の残り `ys` を順に数え下げた状態。 -/
def wakeAll {σ : Type} [ListStore σ] (k : Kernel σ) (ys : List TaskId) : Kernel σ := ys.foldl wakeOne k

theorem wakeOne_sleep (h : a.lists.Placed) {xs ys : List TaskId} (hx : a.lists.sleep = xs ++ t :: ys) :
    ∃ xs', (a.wakeOne t).lists.sleep = xs' ++ ys := by
  have hnd := h.nodup .sleep
  rw [seq_sleep, hx] at hnd
  have hn : t ∉ xs := fun ht => (List.nodup_append.mp hnd).2.2 t ht t (by simp) rfl
  have hi := h.ne_idle (l := .sleep) (t := t) (by simp) (by simp [hx])
  rw [wakeOne_lists hx hn hi]
  split
  · exact ⟨xs, rfl⟩
  · exact ⟨xs ++ [t], by simp [hx]⟩

theorem Sim.sleepWalk (hs : Sim k a) (h : a.lists.Placed) {xs ys : List TaskId}
    (hx : a.lists.sleep = xs ++ ys) :
    Sim (sleepWalk ys.length (ys.head?.map Node.run) k).1 (a.wakeAll ys) ∧
      (Kernel.sleepWalk ys.length (ys.head?.map Node.run) k).2 = none := by
  induction ys generalizing k a xs with
  | nil => exact ⟨hs, rfl⟩
  | cons y ys ih =>
      have hy : y ∈ a.lists.sleep := by simp [hx]
      obtain ⟨xs', hx'⟩ := wakeOne_sleep h hx
      have hw := ih (hs.wakeOne h hy) (placed_wakeOne h hy) hx'
      simp only [List.length_cons, List.head?_cons, Option.map_some, Kernel.sleepWalk, hs.next_eq hx,
        runParent]
      exact hw

theorem sleepWalk_eq (h : a.lists.Placed) {xs ys : List TaskId} (hx : a.lists.sleep = xs ++ ys) :
    sleepWalk ys.length (ys.head?.map Node.run) a = (a.wakeAll ys, none) := by
  induction ys generalizing a xs with
  | nil => rfl
  | cons y ys ih =>
      have hy : y ∈ a.lists.sleep := by simp [hx]
      obtain ⟨xs', hx'⟩ := wakeOne_sleep h hx
      have hnd := h.nodup .sleep
      rw [seq_sleep, hx] at hnd
      have hn : y ∉ xs := fun ht => (List.nodup_append.mp hnd).2.2 y ht y (by simp) rfl
      have hnext : ListStore.next a.lists .sleep (.run y) = ys.head?.map Node.run := by
        simp only [Queues.next_eq, seq_sleep, hx, Node.task, succOf_append hn]
        rfl
      simp only [List.length_cons, List.head?_cons, Option.map_some, Kernel.sleepWalk, hnext, runParent]
      exact ih (placed_wakeOne h hy) hx'

theorem tickSleep_eq (h : a.lists.Placed) : a.tickSleep = (a.wakeAll a.lists.sleep).taskDispatch := by
  have hx : a.lists.sleep = [] ++ a.lists.sleep := rfl
  have hw := sleepWalk_eq h hx
  unfold tickSleep
  simp only [Queues.count_eq, Queues.first_eq, seq_sleep, Int.toNat_natCast]
  exact congrArg (fun r => r.1.taskDispatch) hw

theorem placed_wakeAll (h : a.lists.Placed) {xs ys : List TaskId} (hx : a.lists.sleep = xs ++ ys) :
    (a.wakeAll ys).lists.Placed := by
  induction ys generalizing a xs with
  | nil => exact h
  | cons y ys ih =>
      obtain ⟨xs', hx'⟩ := wakeOne_sleep h hx
      exact ih (placed_wakeOne h (by simp [hx])) hx'

theorem Inv.tickSleep (h : a.Inv) : a.tickSleep.Inv := by
  rw [tickSleep_eq h.placed]
  have hx : a.lists.sleep = [] ++ a.lists.sleep := rfl
  exact .of_placed (placed_wakeAll h.placed hx)

theorem Sim.tickSleep (hs : Sim k a) (h : a.lists.Placed) : Sim k.tickSleep a.tickSleep := by
  have hx : a.lists.sleep = [] ++ a.lists.sleep := rfl
  have hw := (hs.sleepWalk h hx).1
  rw [tickSleep_eq h]
  unfold Kernel.tickSleep
  rw [hs.count_eq, hs.first_eq]
  simp only [Queues.count_eq, Queues.first_eq, seq_sleep, Int.toNat_natCast]
  exact hw.taskDispatch

/-! ## 数え下げの結果 -/

@[simp] theorem wakeOne_frame {σ : Type} [ListStore σ] (k : Kernel σ) (t : TaskId) :
    (k.wakeOne t).currTask = k.currTask ∧ (k.wakeOne t).mutexes = k.mutexes ∧
      (k.wakeOne t).sems = k.sems ∧ (k.wakeOne t).gdt = k.gdt ∧ (k.wakeOne t).tssAddr = k.tssAddr := by
  rw [wakeOne_eq]
  split <;> simp [countSleep, taskSetWakeup]

theorem wakeAll_frame {σ : Type} [ListStore σ] (k : Kernel σ) (ys : List TaskId) :
    (k.wakeAll ys).currTask = k.currTask ∧ (k.wakeAll ys).mutexes = k.mutexes ∧
      (k.wakeAll ys).sems = k.sems ∧ (k.wakeAll ys).gdt = k.gdt ∧ (k.wakeAll ys).tssAddr = k.tssAddr := by
  induction ys generalizing k with
  | nil => exact ⟨rfl, rfl, rfl, rfl, rfl⟩
  | cons y ys ih =>
      obtain ⟨h₁, h₂, h₃, h₄, h₅⟩ := wakeOne_frame k y
      have hi := ih (k.wakeOne y)
      rw [h₁, h₂, h₃, h₄, h₅] at hi
      exact hi

theorem wakeOne_cores {σ : Type} [ListStore σ] (k : Kernel σ) (t : TaskId) :
    (k.wakeOne t).cores = (k.countSleep t).cores := by
  rw [wakeOne_eq]
  split
  · simp [taskSetWakeup]
  · rfl

theorem countSleep_cores {σ : Type} (k : Kernel σ) (t u : TaskId) :
    (k.countSleep t).cores u =
      if u = t then { k.cores u with sleepTicks := (k.tasks u).sleepTicks - 1 } else k.cores u := by
  simp only [cores, countSleep, setTask_tasks]
  split
  · rename_i h; rw [h]; rfl
  · rfl

theorem wakeOne_wakes {σ : Type} [ListStore σ] (k : Kernel σ) {u : TaskId} (h : u ≠ t) :
    (k.wakeOne t).wakes u = k.wakes u := by
  have hc := congrFun (wakeOne_cores k t) u
  rw [countSleep_cores, if_neg h] at hc
  have hs : ((k.wakeOne t).tasks u).sleepTicks = (k.tasks u).sleepTicks := (cores_ext hc).1
  simp only [wakes, hs]

/-- 数え下げの後の並び。起きるタスクは、元の順に `ready_list` の末尾へ移る。 -/
theorem wakeAll_lists (h : a.lists.Placed) {xs ys : List TaskId} (hx : a.lists.sleep = xs ++ ys) :
    (a.wakeAll ys).lists =
      { a.lists with ready := a.lists.ready ++ ys.filter a.wakes
                     sleep := xs ++ ys.filter (!a.wakes ·) } := by
  induction ys generalizing a xs with
  | nil => simp [wakeAll, ← hx]
  | cons y ys ih =>
      have hnd := h.nodup .sleep
      rw [seq_sleep, hx] at hnd
      have hn : y ∉ xs := fun ht => (List.nodup_append.mp hnd).2.2 y ht y (by simp) rfl
      have hny : y ∉ ys := (List.nodup_cons.mp (List.nodup_append.mp hnd).2.1).1
      have hi := h.ne_idle (l := .sleep) (t := y) (by simp) (by simp [hx])
      have hwy : ∀ z ∈ ys, (a.wakeOne y).wakes z = a.wakes z := fun z hz =>
        wakeOne_wakes a (ne_of_mem_of_not_mem hz hny)
      have hp := placed_wakeOne h (t := y) (by simp [hx])
      have hl := wakeOne_lists hx hn hi
      have hf₁ := List.filter_congr hwy
      have hf₂ : ys.filter (!(a.wakeOne y).wakes ·) = ys.filter (!a.wakes ·) :=
        List.filter_congr fun z hz => by rw [hwy z hz]
      by_cases hw : a.wakes y = true
      · rw [if_pos hw] at hl
        have hs : (a.wakeOne y).lists.sleep = xs ++ ys := by rw [hl]
        have hr := ih hp hs
        rw [hl, hf₁, hf₂] at hr
        simpa [wakeAll, hw] using hr
      · rw [if_neg hw] at hl
        have hs : (a.wakeOne y).lists.sleep = xs ++ [y] ++ ys := by rw [hl, hx]; simp
        have hr := ih hp hs
        rw [hl, hf₁, hf₂] at hr
        simpa [wakeAll, hw] using hr

/-- 一つの数え下げの後のタスク。起きたときだけ `TASK_READY` になる。 -/
theorem wakeOne_tasks {σ : Type} [ListStore σ] (k : Kernel σ) (ht : t ≠ idleTask) (u : TaskId) :
    (k.wakeOne t).tasks u =
      if u = t then { k.tasks u with sleepTicks := (k.tasks u).sleepTicks - 1
                                     state := if k.wakes u then .ready else (k.tasks u).state }
      else k.tasks u := by
  rw [wakeOne_eq]
  by_cases hu : u = t
  · subst hu
    by_cases hw : k.wakes u = true <;> simp [hw, ht, taskSetReady, taskSetWakeup, countSleep, setTask_tasks]
  · by_cases hw : k.wakes t = true <;> simp [hw, ht, hu, taskSetReady, taskSetWakeup, countSleep, setTask_tasks]

theorem wakeAll_tasks {σ : Type} [ListStore σ] (k : Kernel σ) {ys : List TaskId} (hnd : ys.Nodup)
    (hi : ∀ t ∈ ys, t ≠ idleTask) (u : TaskId) : (k.wakeAll ys).tasks u =
      if u ∈ ys then { k.tasks u with sleepTicks := (k.tasks u).sleepTicks - 1
                                      state := if k.wakes u then .ready else (k.tasks u).state }
      else k.tasks u := by
  induction ys generalizing k with
  | nil => simp [wakeAll]
  | cons y ys ih =>
      obtain ⟨hy, hnd'⟩ := List.nodup_cons.mp hnd
      have hr : (k.wakeAll (y :: ys)).tasks u = _ := ih (k.wakeOne y) hnd' fun t ht => hi t (by simp [ht])
      rw [hr, wakeOne_tasks k (hi y (by simp)) u]
      by_cases hu : u = y
      · subst hu
        simp [hy]
      · rw [if_neg hu, wakeOne_wakes k hu]
        simp [hu]

theorem wakeAll_cores {σ : Type} [ListStore σ] (k : Kernel σ) {ys : List TaskId} (hnd : ys.Nodup)
    (u : TaskId) : (k.wakeAll ys).cores u =
      if u ∈ ys then { k.cores u with sleepTicks := (k.tasks u).sleepTicks - 1 } else k.cores u := by
  induction ys generalizing k with
  | nil => simp [wakeAll]
  | cons y ys ih =>
      obtain ⟨hy, hnd'⟩ := List.nodup_cons.mp hnd
      have hr := ih (k.wakeOne y) hnd'
      have hc := congrFun (wakeOne_cores k y) u
      rw [countSleep_cores] at hc
      by_cases hu : u = y
      · rw [if_neg (by rw [hu]; exact hy), hc, if_pos hu] at hr
        rw [if_pos (by simp [hu])]
        exact hr
      · rw [if_neg hu] at hc
        have hs : ((k.wakeOne y).tasks u).sleepTicks = (k.tasks u).sleepTicks := (cores_ext hc).1
        rw [hc, hs] at hr
        simp only [List.mem_cons, hu, false_or]
        exact hr

end Kernel

end IdealX86
