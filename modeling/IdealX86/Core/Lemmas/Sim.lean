import IdealX86.Core.Lemmas.Placed
import IdealX86.Core.TaskInit

/-!
# ヒープのカーネルと抽象のカーネルの対応

`list.c` のリストが抽象の並びを表し、ほかの欄が等しいという関係が、カーネルの関数で保たれることを示す。
節を外すときはそのリストにあること、つなぐときはどこにもないことが前提になる。
-/

namespace IdealX86.Kernel

open Queues

/-- ヒープのカーネル `k` が抽象のカーネル `a` を実現している。 -/
structure Sim (k : Kernel Heap) (a : Kernel Queues) : Prop where
  rep : k.lists.Rep a.lists.nodes
  tasks : k.tasks = a.tasks
  currTask : k.currTask = a.currTask
  mutexes : k.mutexes = a.mutexes
  sems : k.sems = a.sems
  gdt : k.gdt = a.gdt
  tssAddr : k.tssAddr = a.tssAddr

variable {k : Kernel Heap} {a : Kernel Queues} {t : TaskId} {l : ListId}

namespace Sim

/-! ## リストの外の欄 -/

theorem setTask (h : Sim k a) (t : TaskId) (f : Task → Task) : Sim (k.setTask t f) (a.setTask t f) :=
  { h with tasks := by simp only [Kernel.setTask, h.tasks] }

theorem setMutex (h : Sim k a) (m : MutexId) (x : Mutex) : Sim (k.setMutex m x) (a.setMutex m x) :=
  { h with mutexes := by simp only [Kernel.setMutex, h.mutexes] }

theorem setSem (h : Sim k a) (s : SemId) (n : Int) : Sim (k.setSem s n) (a.setSem s n) :=
  { h with sems := by simp only [Kernel.setSem, h.sems] }

theorem setCurr (h : Sim k a) (t : TaskId) : Sim { k with currTask := t } { a with currTask := t } :=
  { h with currTask := rfl }

theorem setLists (h : Sim k a) {s : Heap} {q : Queues} (hr : s.Rep q.nodes) :
    Sim { k with lists := s } { a with lists := q } :=
  { h with rep := hr }

/-! ## リストの操作 -/

theorem count_eq (h : Sim k a) (l : ListId) : ListStore.count k.lists l = ListStore.count a.lists l := by
  exact (h.rep.count_eq l).trans (by simp [Queues.nodes])

theorem first_eq (h : Sim k a) (l : ListId) : ListStore.first k.lists l = ListStore.first a.lists l := by
  exact (h.rep.first_eq l).trans (by simp [Queues.nodes])

theorem insertLast (h : Sim k a) (hn : ∀ l', l.node t ∉ a.lists.nodes l') :
    Sim (k.insertLast l (l.node t)) (a.insertLast l (l.node t)) := by
  refine h.setLists (q := a.lists.modify l (· ++ [(l.node t).task])) ?_
  have hq : (a.lists.modify l (· ++ [(l.node t).task])).nodes =
      Function.update a.lists.nodes l (a.lists.nodes l ++ [l.node t]) := by
    simp [nodes_modify, Queues.nodes]
  rw [hq]
  exact h.rep.insertLast l hn

theorem remove (h : Sim k a) (ht : t ∈ a.lists.seq l) :
    Sim (k.remove l (l.node t)) (a.remove l (l.node t)) := by
  refine h.setLists (q := a.lists.modify l (·.erase (l.node t).task)) ?_
  have hr := h.rep.remove_erase (l := l) (n := l.node t) (mem_nodes.mpr ⟨t, ht, rfl⟩)
  rw [nodes_modify, ListId.node_task, List.map_erase l.node_injective]
  exact hr

theorem removeWaiter (h : Sim k a) (w : WaitId) :
    (k.removeWaiter w).1 = (a.removeWaiter w).1 ∧ Sim (k.removeWaiter w).2 (a.removeWaiter w).2 := by
  obtain ⟨h₁, h₂⟩ := h.rep.removeFirst (.wait w)
  constructor
  · simp only [Kernel.removeWaiter]
    refine congrArg waitParent (h₁.trans ?_)
    simp [Queues.nodes]
  · refine h.setLists (q := a.lists.modify (.wait w) List.tail) ?_
    rw [nodes_modify, List.map_tail]
    exact h₂

theorem nodeInit (h : Sim k a) {n : Node} (hn : ∀ l, n ∉ a.lists.nodes l) :
    Sim { k with lists := ListStore.nodeInit k.lists n }
      { a with lists := ListStore.nodeInit a.lists n } :=
  h.setLists (h.rep.nodeInit hn)

theorem init (h : Sim k a) (l : ListId) :
    Sim { k with lists := ListStore.init k.lists l } { a with lists := ListStore.init a.lists l } := by
  refine h.setLists (q := a.lists.modify l fun _ => []) ?_
  rw [nodes_modify]
  exact h.rep.init l

/-! ## `task.c` -/

theorem taskSetReady (h : Sim k a) (ht : a.lists.Nowhere t) :
    Sim (k.taskSetReady t) (a.taskSetReady t) := by
  unfold Kernel.taskSetReady
  split
  · exact h
  · exact (h.insertLast (l := .ready) ht.run).setTask _ _

theorem taskSetBlock (h : Sim k a) (ht : t ≠ idleTask → t ∈ a.lists.ready) :
    Sim (k.taskSetBlock t) (a.taskSetBlock t) := by
  unfold Kernel.taskSetBlock
  split
  · exact h
  · exact h.remove (l := .ready) (ht ‹_›)

theorem taskNextRun (h : Sim k a) : k.taskNextRun = a.taskNextRun := by
  simp only [Kernel.taskNextRun, h.count_eq, h.first_eq]

theorem taskDispatch (h : Sim k a) : Sim k.taskDispatch a.taskDispatch := by
  unfold Kernel.taskDispatch
  simp only [h.taskNextRun, h.currTask]
  split
  · exact (h.setCurr _).setTask _ _
  · exact h

theorem taskSetSleep (h : Sim k a) (ht : a.lists.Nowhere t) (ticks : UInt32) :
    Sim (k.taskSetSleep t ticks) (a.taskSetSleep t ticks) := by
  unfold Kernel.taskSetSleep
  split
  · exact h
  · exact (h.setTask _ _).insertLast (l := .sleep) ht.run

/-! ## `task_init` -/

theorem storeDesc (h : Sim k a) (u : TaskId) (j i : Nat) : Sim (k.storeDesc u j i) (a.storeDesc u j i) :=
  { h with gdt := by simp only [Kernel.storeDesc, tssDesc, h.gdt, h.tssAddr] }

theorem tssFields (h : Sim k a) (u : TaskId) (x : InitArgs) (i : Nat) :
    Sim (k.tssFields u x i) (a.tssFields u x i) := by
  unfold Kernel.tssFields
  exact h.setTask _ _

theorem taskFields (h : Sim k a) {u : TaskId} (hu : a.lists.Nowhere u) (ht : u ∉ a.lists.task)
    (x : InitArgs) : Sim (k.taskFields u x) (a.taskFields u x) :=
  (((h.setTask _ _).nodeInit (all_not_mem ht)).nodeInit hu.run).nodeInit hu.wait

theorem taskPublish (h : Sim k a) {u : TaskId} (hu : a.lists.Nowhere u) (ht : u ∉ a.lists.task) :
    Sim (k.taskPublish u) (a.taskPublish u) := by
  refine (h.taskSetReady hu).insertLast (l := .task) (all_not_mem ?_)
  unfold Kernel.taskSetReady
  split
  · exact ht
  · exact ht

end Sim

end IdealX86.Kernel
