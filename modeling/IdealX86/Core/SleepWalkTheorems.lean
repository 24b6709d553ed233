import IdealX86.Core.Lemmas.SleepWalk

/-!
# `sleep_list` をたどるループの定理

ループは、たどっている節を外し、同じ節を `ready_list` につなぎ直す。整った `sleep_list` と `ready_list` だけを前提に、
どの睡眠中のタスクもちょうど一度ずつ数え下げられることを示す。ほかのリストについては何も仮定しない。
-/

namespace IdealX86

namespace Kernel

/-- `sleep_list` が `sl` を、`ready_list` が `rd` を表し、節を共有しない。 -/
structure SleepReady (k : Kernel Heap) (sl : List TaskId) (rd : List Node) : Prop where
  sleep : IsList k.lists.node (k.lists.list .sleep) (sl.map .run)
  ready : IsList k.lists.node (k.lists.list .ready) rd
  disjoint : ∀ t ∈ sl, .run t ∉ rd

/-- ループがたどったタスクの並び。 -/
def sleepVisits {σ : Type} [ListStore σ] : Nat → Option Node → Kernel σ → List TaskId
  | 0, _, _ => []
  | _ + 1, none, _ => []
  | fuel + 1, some n, k =>
      let next := ListStore.next k.lists .sleep n
      runParent (some n) :: sleepVisits fuel next (k.wakeOne (runParent (some n)))

variable {k : Kernel Heap} {t : TaskId} {xs ys sl : List TaskId} {rd : List Node} {fuel : Nat}

theorem wakeOne_heap (k : Kernel Heap) (ht : t ≠ idleTask) :
    (k.wakeOne t).lists =
      if k.wakes t then (k.lists.listRemove .sleep (.run t)).listInsertLast .ready (.run t) else k.lists := by
  rw [wakeOne_eq]
  split
  · rw [taskSetReady, if_neg ht]
    rfl
  · rfl

namespace SleepReady

theorem nodup (h : k.SleepReady sl rd) : sl.Nodup := h.sleep.nodup.of_map _

theorem congr {k' : Kernel Heap} (h : k.SleepReady sl rd) (hl : k'.lists = k.lists) : k'.SleepReady sl rd := by
  refine ⟨?_, ?_, h.disjoint⟩
  · rw [hl]
    exact h.sleep
  · rw [hl]
    exact h.ready

theorem first_eq (h : k.SleepReady sl rd) : ListStore.first k.lists .sleep = sl.head?.map .run := by
  rw [← List.head?_map]
  exact h.sleep.first

theorem next_eq (h : k.SleepReady (xs ++ t :: ys) rd) :
    ListStore.next k.lists .sleep (.run t) = ys.head?.map .run := by
  have hs := h.sleep.seg
  rw [List.map_append, List.map_cons] at hs
  have hlink := hs.link
  simp only [List.head?_map, Option.or_none] at hlink
  exact congrArg Lib.Link.next hlink

/-- 起きるタスクは、`sleep_list` から外れて `ready_list` の末尾につながれる。 -/
theorem move (h : k.SleepReady (xs ++ t :: ys) rd) :
    let lists := (k.lists.listRemove .sleep (.run t)).listInsertLast .ready (.run t)
    IsList lists.node (lists.list .sleep) ((xs ++ ys).map .run) ∧ IsList lists.node (lists.list .ready) (rd ++ [.run t]) := by
  have hs := h.sleep
  rw [List.map_append, List.map_cons] at hs
  have hout : t ∉ xs ++ ys := (List.nodup_middle.mp h.nodup).notMem
  -- `sleep_list` から外しても、`ready_list` は変わらない。
  have hready : IsList (k.lists.listRemove .sleep (.run t)).node ((k.lists.listRemove .sleep (.run t)).list .ready) rd :=
    hs.remove_touches.isList (by simp) h.ready fun n hn hmem => by
      rw [← List.map_cons, ← List.map_append] at hmem
      obtain ⟨u, hu, rfl⟩ := List.mem_map.mp hmem
      exact h.disjoint u hu hn
  refine ⟨?_, hready.insertLast (h.disjoint t (by simp))⟩
  -- 同じ節を `ready_list` につないでも、`sleep_list` の残りは変わらない。
  refine hready.insertLast_touches.isList (by simp) (by rw [List.map_append]; exact hs.remove) fun n hn hmem => ?_
  obtain ⟨u, hu, rfl⟩ := List.mem_map.mp hn
  rcases List.mem_cons.mp hmem with he | hmem
  · cases he
    exact hout hu
  · exact h.disjoint u (((List.sublist_cons_self t ys).append_left xs).subset hu) hmem

theorem wakeOne_of_wakes (h : k.SleepReady (xs ++ t :: ys) rd) (ht : t ≠ idleTask) (hw : k.wakes t = true) :
    (k.wakeOne t).SleepReady (xs ++ ys) (rd ++ [.run t]) := by
  have hlists := wakeOne_heap k ht
  rw [if_pos hw] at hlists
  obtain ⟨hsleep, hready⟩ := h.move
  refine ⟨?_, ?_, fun u hu hmem => ?_⟩
  · rw [hlists]
    exact hsleep
  · rw [hlists]
    exact hready
  · rcases List.mem_append.mp hmem with hmem | he
    · exact h.disjoint u (((List.sublist_cons_self t ys).append_left xs).subset hu) hmem
    · cases List.mem_singleton.mp he
      exact (List.nodup_middle.mp h.nodup).notMem hu

theorem wakeOne_of_not_wakes (h : k.SleepReady sl rd) (ht : t ≠ idleTask) (hw : ¬ k.wakes t = true) :
    (k.wakeOne t).SleepReady sl rd := by
  have hlists := wakeOne_heap k ht
  rw [if_neg hw] at hlists
  exact h.congr hlists

/-- `xs` をたどり終えたループの残り。たどるのは `ys` のちょうど全部であり、起きるものだけが移る。 -/
theorem walk (h : k.SleepReady (xs ++ ys) rd) (hi : ∀ t ∈ ys, t ≠ idleTask) (hf : ys.length ≤ fuel) :
    sleepWalk fuel (ys.head?.map .run) k = (k.wakeAll ys, none) ∧
      sleepVisits fuel (ys.head?.map .run) k = ys ∧
      (k.wakeAll ys).SleepReady (xs ++ ys.filter (!k.wakes ·)) (rd ++ (ys.filter k.wakes).map .run) := by
  induction ys generalizing k xs rd fuel with
  | nil =>
      refine ⟨?_, ?_, by simpa [wakeAll] using h⟩
      · cases fuel <;> rfl
      · cases fuel <;> rfl
  | cons y ys ih =>
      obtain _ | fuel := fuel
      · simp at hf
      · rw [List.length_cons] at hf
        have hy : y ≠ idleTask := hi y (by simp)
        have hny : y ∉ ys := (List.nodup_cons.mp (List.nodup_append.mp h.nodup).2.1).1
        have hkeep : ∀ z ∈ ys, (k.wakeOne y).wakes z = k.wakes z := fun z hz =>
          wakeOne_wakes k (ne_of_mem_of_not_mem hz hny)
        have hf₁ := List.filter_congr hkeep
        have hf₂ : ys.filter (!(k.wakeOne y).wakes ·) = ys.filter (!k.wakes ·) :=
          List.filter_congr fun z hz => by rw [hkeep z hz]
        simp only [List.head?_cons, Option.map_some, sleepWalk, sleepVisits, h.next_eq, runParent]
        by_cases hw : k.wakes y = true
        · obtain ⟨h₁, h₂, h₃⟩ := ih (h.wakeOne_of_wakes hy hw) (fun z hz => hi z (by simp [hz])) (Nat.le_of_succ_le_succ hf)
          rw [hf₁, hf₂] at h₃
          exact ⟨h₁, by rw [h₂], by simpa [wakeAll, hw] using h₃⟩
        · have hs := h.wakeOne_of_not_wakes hy hw
          rw [List.append_cons] at hs
          obtain ⟨h₁, h₂, h₃⟩ := ih hs (fun z hz => hi z (by simp [hz])) (Nat.le_of_succ_le_succ hf)
          rw [hf₁, hf₂] at h₃
          exact ⟨h₁, by rw [h₂], by simpa [wakeAll, hw] using h₃⟩

end SleepReady

/-- `task_time_tick` のループの一回の実行。整った `sleep_list` と `ready_list` から始めると、睡眠中のタスクをその順にちょうど一度ずつ
たどって終わり、`sleep_list` には計数が 2 以上だったものが一つ減って元の順に残り、計数が 1 だったものがその順に `ready_list` の
末尾へ `TASK_READY` で移る。どちらのリストも整っていて、残った睡眠中のタスクの計数は 1 以上である。 -/
theorem sleepWalk_exact (h : k.SleepReady sl rd) (hi : ∀ t ∈ sl, t ≠ idleTask)
    (hticks : ∀ t ∈ sl, 1 ≤ (k.tasks t).sleepTicks) (hf : sl.length ≤ fuel) :
    let r := sleepWalk fuel (ListStore.first k.lists .sleep) k
    let stay := sl.filter fun t => 2 ≤ (k.tasks t).sleepTicks
    let woken := sl.filter fun t => (k.tasks t).sleepTicks = 1
    r.2 = none ∧ sl.Nodup ∧ sleepVisits fuel (ListStore.first k.lists .sleep) k = sl ∧
      r.1.SleepReady stay (rd ++ woken.map .run) ∧
      (∀ t ∈ stay, (r.1.tasks t).sleepTicks = (k.tasks t).sleepTicks - 1 ∧ 1 ≤ (r.1.tasks t).sleepTicks) ∧
      (∀ t ∈ woken, (r.1.tasks t).state = .ready) ∧ ∀ t ∉ sl, r.1.tasks t = k.tasks t := by
  have hx : k.SleepReady ([] ++ sl) rd := h
  obtain ⟨hwalk, hvisits, hlists⟩ := hx.walk hi hf
  have htasks := wakeAll_tasks k h.nodup hi
  have hwoken : sl.filter k.wakes = sl.filter fun t => (k.tasks t).sleepTicks = 1 :=
    List.filter_congr fun t _ => by simp only [wakes, decide_eq_decide]; omega
  have hstay : sl.filter (!k.wakes ·) = sl.filter fun t => 2 ≤ (k.tasks t).sleepTicks :=
    List.filter_congr fun t ht => by
      have := hticks t ht
      simp only [wakes, ← decide_not, decide_eq_decide]
      omega
  rw [hwoken, hstay, List.nil_append] at hlists
  simp only [h.first_eq, hwalk]
  refine ⟨trivial, h.nodup, hvisits, hlists, fun t ht => ?_, fun t ht => ?_, fun t ht => ?_⟩
  · obtain ⟨hm, h₂⟩ := List.mem_filter.mp ht
    rw [decide_eq_true_eq] at h₂
    simp only [htasks t, if_pos hm, true_and]
    omega
  · obtain ⟨hm, h₁⟩ := List.mem_filter.mp ht
    rw [decide_eq_true_eq] at h₁
    simp [htasks t, hm, wakes, h₁]
  · rw [htasks t, if_neg ht]

/-- タスク 2、3、4 が計数 1、2、1 で睡眠中であり、タスク 5 が `ready_list` にあるカーネル。 -/
def threeSleepers : Kernel Heap where
  lists :=
    { node := fun n =>
        if n = .run 2 then ⟨none, some (.run 3)⟩
        else if n = .run 3 then ⟨some (.run 2), some (.run 4)⟩
        else if n = .run 4 then ⟨some (.run 3), none⟩
        else ⟨none, none⟩
      list := fun l =>
        if l = .sleep then ⟨some (.run 2), some (.run 4), 3⟩
        else if l = .ready then ⟨some (.run 5), some (.run 5), 1⟩
        else ⟨none, none, 0⟩ }
  tasks := fun t => { sleepTicks := if t = 3 then 2 else 1, state := .sleep }
  currTask := 5
  mutexes := fun _ => ⟨nullTask, 0⟩
  sems := fun _ => 0
  gdt := initGdt
  tssAddr := fun _ => 0

theorem sleepReady_threeSleepers : threeSleepers.SleepReady [2, 3, 4] [.run 5] :=
  ⟨⟨rfl, rfl, rfl, by decide, ⟨rfl, rfl, rfl, trivial⟩⟩, ⟨rfl, rfl, rfl, by decide, ⟨rfl, trivial⟩⟩, by decide⟩

/-- 両端のタスクが起き、間のタスクだけが残る。 -/
theorem sleepWalk_exact_three :
    let r := sleepWalk 3 (ListStore.first threeSleepers.lists .sleep) threeSleepers
    r.2 = none ∧ sleepVisits 3 (ListStore.first threeSleepers.lists .sleep) threeSleepers = [2, 3, 4] ∧
      r.1.SleepReady [3] [.run 5, .run 2, .run 4] ∧ (r.1.tasks 3).sleepTicks = 1 ∧
      (r.1.tasks 2).state = .ready ∧ (r.1.tasks 4).state = .ready := by
  obtain ⟨h₁, -, h₂, h₃, h₄, h₅, -⟩ :=
    sleepWalk_exact sleepReady_threeSleepers (by decide) (by decide) (Nat.le_refl 3)
  exact ⟨h₁, h₂, h₃, (h₄ 3 (by decide)).1, h₅ 2 (by decide), h₅ 4 (by decide)⟩

end Kernel

end IdealX86
