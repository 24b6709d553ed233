import IdealX86.Core.Lemmas.Effect
import IdealX86.Machine.Step

/-!
# 起動の直後

起動では `gdt_alloc_desc` のミューテックスが空いているので、取って放すと元に戻る。`task_manager_init` と
`task_first_init` の後の状態が不変条件を満たし、ヒープの状態が抽象の状態に対応することを示す。
-/

namespace IdealX86.Kernel

open Queues

variable {σ : Type} [ListStore σ] {k : Kernel σ} {u : TaskId}

/-- `gdt_alloc_desc` のミューテックスが空いている。 -/
structure GdtFree (k : Kernel σ) : Prop where
  mutex : k.mutexes .gdt = ⟨nullTask, 0⟩
  wait : ListStore.count k.lists (.wait (.mutex .gdt)) = 0

theorem gdtAllocDesc_eq (h : k.GdtFree) :
    k.gdtAllocDesc = (gdtFindFree k.gdt (GDT_TABLE_SIZE - 1) 1, k) := by
  have hlock : k.mutexLock .gdt = k.setMutex .gdt ⟨k.currTask, 1⟩ := by simp [mutexLock, h.mutex]
  have hunlock : (k.mutexLock .gdt).mutexUnlock .gdt = k := by
    have hu : Function.update k.mutexes .gdt ⟨nullTask, 0⟩ = k.mutexes := by
      rw [← h.mutex, Function.update_eq_self]
    rw [hlock]
    simp only [mutexUnlock, setMutex, Function.update_self, ↓reduceIte, h.wait, ne_eq, not_true_eq_false,
      Function.update_idem, hu, Int.sub_self]
  simp only [gdtAllocDesc, hunlock]
  rw [hlock]
  rfl

/-- 記述子を見つけたときの `tss_init` の残り。 -/
def tssSet (k : Kernel σ) (u : TaskId) (a : InitArgs) : Option Nat → Kernel σ
  | none => k
  | some i =>
      { k with gdt := segmentDescSet k.gdt (i * 8) (k.tssAddr u) sizeofTss
                        (SEG_P_PRESENT ||| SEG_DPL0 ||| SEG_TYPE_TSS) }.tssFields u a i

theorem taskInit_eq (h : k.GdtFree) (a : InitArgs) :
    k.taskInit u a =
      ((k.tssSet u a (gdtFindFree k.gdt (GDT_TABLE_SIZE - 1) 1)).taskFields u a).taskPublish u := by
  unfold taskInit tssInit
  rw [gdtAllocDesc_eq h]
  cases gdtFindFree k.gdt (GDT_TABLE_SIZE - 1) 1 <;> rfl

section
variable (k : Kernel σ) (u : TaskId) (a : InitArgs) (r : Option Nat)

omit [ListStore σ] in
theorem tssSet_frame : (k.tssSet u a r).lists = k.lists ∧ (k.tssSet u a r).currTask = k.currTask ∧
    (k.tssSet u a r).mutexes = k.mutexes ∧ (k.tssSet u a r).sems = k.sems ∧
    (k.tssSet u a r).tssAddr = k.tssAddr ∧ ∀ t ≠ u, (k.tssSet u a r).tasks t = k.tasks t := by
  cases r with
  | none => exact ⟨rfl, rfl, rfl, rfl, rfl, fun _ _ => rfl⟩
  | some i => exact ⟨rfl, rfl, rfl, rfl, rfl, fun t ht => Function.update_of_ne ht _ _⟩

theorem taskFields_frame : (k.taskFields u a).currTask = k.currTask ∧
    (k.taskFields u a).mutexes = k.mutexes ∧ (k.taskFields u a).sems = k.sems ∧
    (k.taskFields u a).gdt = k.gdt ∧ (k.taskFields u a).tssAddr = k.tssAddr ∧
    ∀ t ≠ u, (k.taskFields u a).tasks t = k.tasks t :=
  ⟨rfl, rfl, rfl, rfl, rfl, fun _ ht => Function.update_of_ne ht _ _⟩

theorem taskFields_ticks : ((k.taskFields u a).tasks u).sleepTicks = 0 ∧
    ((k.taskFields u a).tasks u).timeTicks = TASK_TIME_SLICE_DEFAULT ∧
    ((k.taskFields u a).tasks u).sliceTicks = TASK_TIME_SLICE_DEFAULT := by
  simp [taskFields, setTask]

theorem taskPublish_frame : (k.taskPublish u).currTask = k.currTask ∧
    (k.taskPublish u).mutexes = k.mutexes ∧ (k.taskPublish u).sems = k.sems ∧
    (k.taskPublish u).gdt = k.gdt ∧ (k.taskPublish u).tssAddr = k.tssAddr ∧
    (k.taskPublish u).cores = k.cores := by
  simp [taskPublish]

end

/-! ## 抽象の並び -/

section
variable {a : Kernel Queues} {x : InitArgs}

theorem taskPublish_lists (a : Kernel Queues) (hu : u ≠ idleTask) :
    (a.taskPublish u).lists =
      { a.lists with ready := a.lists.ready ++ [u], task := a.lists.task ++ [u] } := by
  simp only [taskPublish, insertLast_lists, taskSetReady_lists a hu, insertLast_eq]
  rfl

theorem taskPublish_idle_lists (a : Kernel Queues) :
    (a.taskPublish idleTask).lists = { a.lists with task := a.lists.task ++ [idleTask] } := by
  simp only [taskPublish, insertLast_lists, taskSetReady, ↓reduceIte, insertLast_eq]
  rfl

theorem placed_taskPublish (h : a.lists.Placed) (ht : u ∉ a.lists.task) (hn : u ≠ nullTask) :
    (a.taskPublish u).lists.Placed := by
  have hp := h.appendTask ht hn
  by_cases hu : u = idleTask
  · subst hu; rw [taskPublish_idle_lists]; exact hp
  · rw [taskPublish_lists a hu]
    refine hp.append (l := .ready) (by simp) ?_ (by simp [Queues.modify]) hu
    intro l hl hm
    rw [seq_modify_of_ne hl] at hm
    exact h.nowhere_of_unknown ht l hl hm

theorem Inv.taskPublish (h : a.Inv) (hc : a.currTask ≠ idleTask) (ht : u ∉ a.lists.task)
    (hn : u ≠ nullTask) (hu : u ≠ idleTask) : (a.taskPublish u).Inv := by
  refine ⟨placed_taskPublish h.placed ht hn, ?_⟩
  obtain ⟨ts, hr⟩ := h.ready_cons hc
  rw [taskPublish_lists a hu, (taskPublish_frame a u).1]
  simp [hr]

end

/-! ## 起動の対応 -/

variable {h : Kernel Heap} {a : Kernel Queues} {x : InitArgs}

theorem Sim.gdtFree (hs : Sim h a) (hf : a.GdtFree) : h.GdtFree :=
  ⟨by rw [hs.mutexes]; exact hf.mutex, by rw [hs.count_eq]; exact hf.wait⟩

theorem Sim.tssSet (hs : Sim h a) (u : TaskId) (x : InitArgs) (r : Option Nat) :
    Sim (h.tssSet u x r) (a.tssSet u x r) := by
  cases r with
  | none => exact hs
  | some i =>
      refine Sim.tssFields ?_ u x i
      exact { hs with gdt := by simp only [hs.gdt, hs.tssAddr] }

theorem Sim.taskInit (hs : Sim h a) (hf : a.GdtFree) (hu : a.lists.Nowhere u) (ht : u ∉ a.lists.task) :
    Sim (h.taskInit u x) (a.taskInit u x) := by
  have hl := (tssSet_frame a u x (gdtFindFree a.gdt (GDT_TABLE_SIZE - 1) 1)).1
  rw [taskInit_eq hf, taskInit_eq (hs.gdtFree hf), hs.gdt]
  refine ((hs.tssSet u x _).taskFields (hl ▸ hu) (hl ▸ ht) x).taskPublish ?_ ?_
  · exact hl ▸ hu
  · exact hl ▸ ht

theorem taskInit_frame {σ : Type} [ListStore σ] {k : Kernel σ} (hf : k.GdtFree) (u : TaskId) (x : InitArgs) :
    (k.taskInit u x).currTask = k.currTask ∧ (k.taskInit u x).mutexes = k.mutexes ∧
      (k.taskInit u x).sems = k.sems ∧ (k.taskInit u x).tssAddr = k.tssAddr ∧
      ((k.taskInit u x).tasks u).timeTicks = TASK_TIME_SLICE_DEFAULT ∧
      ((k.taskInit u x).tasks u).sliceTicks = TASK_TIME_SLICE_DEFAULT := by
  rw [taskInit_eq hf]
  generalize gdtFindFree k.gdt (GDT_TABLE_SIZE - 1) 1 = r
  obtain ⟨-, s₁, s₂, s₃, s₄, -⟩ := tssSet_frame k u x r
  obtain ⟨f₁, f₂, f₃, -, f₄, -⟩ := taskFields_frame (k.tssSet u x r) u x
  obtain ⟨p₁, p₂, p₃, -, p₄, p₅⟩ := taskPublish_frame ((k.tssSet u x r).taskFields u x) u
  obtain ⟨-, t₁, t₂⟩ := taskFields_ticks (k.tssSet u x r) u x
  obtain ⟨-, c₁, c₂, -⟩ := cores_ext (congrFun p₅ u)
  rw [p₁, f₁, p₂, f₂, p₃, f₃, p₄, f₄, c₁, c₂]
  exact ⟨s₁, s₂, s₃, s₄, t₁, t₂⟩

theorem taskInit_lists (hf : a.GdtFree) (u : TaskId) (x : InitArgs) :
    ∃ b : Kernel Queues, b.lists = a.lists ∧ (a.taskInit u x).lists = (b.taskPublish u).lists := by
  rw [taskInit_eq hf]
  exact ⟨(a.tssSet u x _).taskFields u x, (tssSet_frame a u x _).1, rfl⟩

theorem taskInit_gdtFree (hf : a.GdtFree) (u : TaskId) (x : InitArgs) : (a.taskInit u x).GdtFree := by
  obtain ⟨-, hm, -⟩ := taskInit_frame hf u x
  refine ⟨hm ▸ hf.mutex, ?_⟩
  obtain ⟨b, hb, hl⟩ := taskInit_lists hf u x
  rw [hl]
  have hw := hf.wait
  by_cases hu : u = idleTask
  · subst hu; rw [taskPublish_idle_lists, hb]; exact hw
  · rw [taskPublish_lists b hu, hb]; exact hw

end IdealX86.Kernel

namespace IdealX86

open Kernel Queues

variable (b : BootArgs)

def Kernel.managed : Kernel Queues :=
  { Kernel.reset ({} : Queues) b with
    lists := ListStore.init (ListStore.init (ListStore.init ({} : Queues) .ready) .task) .sleep }

theorem Kernel.managed_lists : (Kernel.managed b).lists = {} := rfl

theorem Kernel.managed_gdtFree : (Kernel.managed b).GdtFree := ⟨rfl, rfl⟩

def Kernel.idled : Kernel Queues :=
  { (Kernel.managed b).taskInit idleTask b.idle with currTask := nullTask }

theorem Kernel.idled_gdtFree : (Kernel.idled b).GdtFree := by
  obtain ⟨h₁, h₂⟩ := taskInit_gdtFree (managed_gdtFree b) idleTask b.idle
  exact ⟨h₁, h₂⟩

theorem Kernel.idled_lists : (Kernel.idled b).lists = { task := [idleTask] } := by
  obtain ⟨k, hk, hl⟩ := taskInit_lists (managed_gdtFree b) idleTask b.idle
  rw [taskPublish_idle_lists, hk] at hl
  exact hl

theorem Machine.boot_lists :
    (Machine.boot ({} : Queues) b).kernel.lists = { ready := [firstTask], task := [idleTask, firstTask] } := by
  obtain ⟨k, hk, hl⟩ := taskInit_lists (idled_gdtFree b) firstTask b.first
  rw [taskPublish_lists k (by decide), hk, idled_lists] at hl
  exact hl

theorem Machine.boot_frame :
    (Machine.boot ({} : Queues) b).kernel.mutexes = (fun _ => ⟨nullTask, 0⟩) ∧
      (Machine.boot ({} : Queues) b).kernel.sems = b.sems ∧
      (Machine.boot ({} : Queues) b).kernel.tssAddr = b.tssAddr ∧
      ((Machine.boot ({} : Queues) b).kernel.tasks firstTask).timeTicks = TASK_TIME_SLICE_DEFAULT ∧
      ((Machine.boot ({} : Queues) b).kernel.tasks firstTask).sliceTicks = TASK_TIME_SLICE_DEFAULT := by
  obtain ⟨-, m₁, s₁, a₁, -, -⟩ := taskInit_frame (managed_gdtFree b) idleTask b.idle
  obtain ⟨-, m₂, s₂, a₂, t₂, c₂⟩ := taskInit_frame (idled_gdtFree b) firstTask b.first
  exact ⟨m₂.trans m₁, s₂.trans s₁, a₂.trans a₁, t₂, c₂⟩

theorem Machine.boot_inv : (Machine.boot ({} : Queues) b).kernel.Inv := by
  refine ⟨?_, ?_⟩
  · rw [boot_lists]
    constructor
    · intro l; cases l <;> simp [Queues.seq, idleTask, firstTask]
    · intro l l' t hl hl' ht ht'
      cases l <;> cases l' <;> simp_all [Queues.seq]
    · intro l hl; cases l <;> simp_all [Queues.seq, idleTask, firstTask]
    · intro l t ht; cases l <;> simp_all [Queues.seq]
    · decide
  · rw [boot_lists]; rfl

theorem Queues.nowhere_of_task (ts : List TaskId) (t : TaskId) : ({ task := ts } : Queues).Nowhere t := by
  intro l hl
  cases l <;> simp_all [Queues.seq]

theorem Heap.empty_rep (node : Node → Lib.Link Node) : (Heap.empty node).Rep ({} : Queues).nodes := by
  have hq : ({} : Queues).nodes = fun _ => [] := by
    funext l; cases l <;> rfl
  rw [hq]
  exact ⟨fun _ => ⟨rfl, rfl, rfl, List.nodup_nil, trivial⟩, fun _ _ _ h => nomatch h⟩

theorem Machine.boot_sim (node : Node → Lib.Link Node) :
    Sim (Machine.boot (Heap.empty node) b).kernel (Machine.boot ({} : Queues) b).kernel := by
  have h₀ : Sim (Kernel.reset (Heap.empty node) b) (Kernel.reset ({} : Queues) b) :=
    ⟨Heap.empty_rep node, rfl, rfl, rfl, rfl, rfl, rfl⟩
  have h₁ : Sim _ (Kernel.managed b) := ((h₀.init .ready).init .task).init .sleep
  have h₂ : Sim _ (Kernel.idled b) := (h₁.taskInit (u := idleTask) (x := b.idle) (managed_gdtFree b)
    (by rw [managed_lists]; exact nowhere_of_task [] _) (by rw [managed_lists]; decide)).setCurr nullTask
  have h₃ := h₂.taskInit (u := firstTask) (x := b.first) (idled_gdtFree b)
    (by rw [idled_lists]; exact nowhere_of_task _ _) (by rw [idled_lists]; decide)
  exact h₃.setCurr firstTask

end IdealX86
