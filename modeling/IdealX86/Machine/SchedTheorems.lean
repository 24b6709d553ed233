import IdealX86.Machine.Lemmas.Ipc
import IdealX86.Machine.Lemmas.Lost

/-!
# スケジューラの整合

起動からのすべての実行で、リストが整っていてタスクが重複してつながれないことと、タスクがどのリストからも
失われないための条件を示す。
-/

namespace IdealX86

open Kernel (sleepTicks_ne_zero_iff)

/-! ## 到達できる状態 -/

namespace Machine

/-- 起動から `ls` を実行して `c` に着く。 -/
def Reaches (node : Node → Lib.Link Node) (b : BootArgs) (ls : List Label) (c : Machine Heap) : Prop :=
  Lib.exec Machine.step (Machine.boot (Heap.empty node) b) ls = some c

/-- リスト `l` につながれているタスクの並び。 -/
def tasksOf (c : Machine Heap) (l : ListId) : List TaskId := (c.kernel.lists.nodes l).map Node.task

variable {node : Node → Lib.Link Node} {b : BootArgs} {ls : List Label} {c c' : Machine Heap}
  {d : Machine Queues} {l : Label}

theorem Reaches.sim (h : Reaches node b ls c) :
    ∃ d, Lib.exec Machine.step (Machine.boot ({} : Queues) b) ls = some d ∧ Sim c d ∧ d.Inv :=
  (sim_boot b node).exec (inv_boot b) h

/-- 抽象の機械の一歩が保つ性質 `P` は、到達できる状態に対応する抽象の機械で成り立つ。 -/
theorem Reaches.invariant {P : Machine Queues → Prop} (h : Reaches node b ls c)
    (hboot : P (Machine.boot ({} : Queues) b))
    (hstep : ∀ d l d', d.Inv → P d → d.Step l d' → P d') : ∃ d, Sim c d ∧ d.Inv ∧ P d := by
  obtain ⟨d, hrun, hs, -⟩ := h.sim
  have hd := Lib.exec_invariant (I := fun d : Machine Queues => d.Inv ∧ P d)
    (fun d l d' hd hst => ⟨hd.1.step hst, hstep d l d' hd.1 hd.2 (step_cases hst)⟩) hrun
    ⟨inv_boot b, hboot⟩
  exact ⟨d, hs, hd.1, hd.2⟩

/-- 待ち行列の不変条件のもとで、待ち行列から見た一歩が保つ性質 `P` も同じである。 -/
theorem Reaches.ipc {P : Machine Queues → Prop} (h : Reaches node b ls c)
    (hboot : P (Machine.boot ({} : Queues) b))
    (hstep : ∀ d l d', d.Inv → d.SuspInv → P d → d.IpcStep l d' → P d') :
    ∃ d, Sim c d ∧ d.Inv ∧ d.Fifo ∧ d.SuspInv ∧ P d :=
  h.invariant (P := fun d => d.Fifo ∧ d.SuspInv ∧ P d) ⟨boot_fifo b, boot_suspInv b, hboot⟩
    fun d l d' hd hp hst =>
      have hi := hst.ipc hd
      ⟨hi.fifo hd hp.1, hi.suspInv hd (hst.kernel_inv hd) hp.2.1, hstep d l d' hd hp.2.1 hp.2.2 hi⟩

theorem Sim.nodes_eq (h : Sim c d) (l : ListId) : c.kernel.lists.nodes l = d.kernel.lists.nodes l :=
  h.kernel.rep.nodes_eq l

theorem Sim.tasksOf_eq (h : Sim c d) (l : ListId) : c.tasksOf l = d.kernel.lists.seq l := by
  simp [tasksOf, h.nodes_eq, Queues.nodes, Function.comp_def]

theorem Sim.mem_nodes (h : Sim c d) (l : ListId) (t : TaskId) :
    l.node t ∈ c.kernel.lists.nodes l ↔ t ∈ d.kernel.lists.seq l := by
  rw [h.nodes_eq, Queues.mem_nodes]
  exact ⟨fun ⟨x, hx, he⟩ => l.node_injective he ▸ hx, fun hx => ⟨t, hx, rfl⟩⟩

/-! ## リストの整合 -/

/-- リストが整っていて、節が重複してつながれず、今のタスクが `ready_list` の先頭にある。 -/
structure WellFormed (c : Machine Heap) : Prop where
  /-- どのリストも、`count` が長さに等しい整った双方向リストである。 -/
  isList : ∀ l, IsList c.kernel.lists.node (c.kernel.lists.list l) (c.kernel.lists.nodes l)
  /-- `ready_list` と `sleep_list` には `run_node` だけがつながれる。 -/
  run_nodes : ∀ n, n ∈ c.kernel.lists.nodes .ready ∨ n ∈ c.kernel.lists.nodes .sleep → ∃ t, n = .run t
  /-- 待ち行列には `wait_node` だけがつながれる。 -/
  wait_nodes : ∀ w n, n ∈ c.kernel.lists.nodes (.wait w) → ∃ t, n = .wait t
  run_once : ∀ t, .run t ∈ c.kernel.lists.nodes .ready → .run t ∉ c.kernel.lists.nodes .sleep
  wait_once : ∀ t w w', .wait t ∈ c.kernel.lists.nodes (.wait w) →
    .wait t ∈ c.kernel.lists.nodes (.wait w') → w = w'
  wait_not_run : ∀ t w, .wait t ∈ c.kernel.lists.nodes (.wait w) →
    .run t ∉ c.kernel.lists.nodes .ready ∧ .run t ∉ c.kernel.lists.nodes .sleep
  idle : .run idleTask ∉ c.kernel.lists.nodes .ready ∧ .run idleTask ∉ c.kernel.lists.nodes .sleep ∧
    ∀ w, .wait idleTask ∉ c.kernel.lists.nodes (.wait w)
  curr : (c.kernel.lists.nodes .ready).head? = some (.run c.curr) ∨
    (c.kernel.lists.nodes .ready = [] ∧ c.curr = idleTask)

theorem Sim.wellFormed (h : Sim c d) (hd : d.Inv) : c.WellFormed := by
  have hr := h.mem_nodes .ready
  have hs := h.mem_nodes .sleep
  have hw := fun w => h.mem_nodes (.wait w)
  have hp := hd.kernel.placed
  refine ⟨fun l => ?_, ?_, ?_, fun t h₁ h₂ => ?_, fun t w w' h₁ h₂ => ?_, fun t w h₁ => ⟨fun h₂ => ?_, fun h₂ => ?_⟩,
    ⟨fun h₁ => ?_, fun h₁ => ?_, fun w h₁ => ?_⟩, ?_⟩
  · rw [h.nodes_eq]; exact h.kernel.rep.isList l
  · rintro n (hn | hn) <;>
      (rw [h.nodes_eq, Queues.mem_nodes] at hn; obtain ⟨t, -, rfl⟩ := hn; exact ⟨t, rfl⟩)
  · intro w n hn
    rw [h.nodes_eq, Queues.mem_nodes] at hn
    obtain ⟨t, -, rfl⟩ := hn
    exact ⟨t, rfl⟩
  · cases hp.once .ready .sleep t (by simp) (by simp) ((hr t).mp h₁) ((hs t).mp h₂)
  · have he := hp.once (.wait w) (.wait w') t (by simp) (by simp) ((hw w t).mp h₁) ((hw w' t).mp h₂)
    cases he; rfl
  · cases hp.once (.wait w) .ready t (by simp) (by simp) ((hw w t).mp h₁) ((hr t).mp h₂)
  · cases hp.once (.wait w) .sleep t (by simp) (by simp) ((hw w t).mp h₁) ((hs t).mp h₂)
  · exact hp.idle .ready (by simp) ((hr _).mp h₁)
  · exact hp.idle .sleep (by simp) ((hs _).mp h₁)
  · exact hp.idle (.wait w) (by simp) ((hw w _).mp h₁)
  · rw [h.nodes_eq, h.curr]
    by_cases hc : d.curr = idleTask
    · exact .inr ⟨by simp [Queues.nodes, hd.kernel.ready_nil hc], hc⟩
    · obtain ⟨ts, hts⟩ := hd.kernel.ready_cons hc
      exact .inl (by simp [Queues.nodes, hts, ListId.node])

/-- 起動から到達できるどの状態でも、リストは整っている。 -/
theorem wellFormed_of_reaches (h : Reaches node b ls c) : c.WellFormed := by
  obtain ⟨d, -, hs, hd⟩ := h.sim
  exact hs.wellFormed hd

end Machine

def BootArgs.zero : BootArgs where
  idle := ⟨0, 0, fun _ => 0⟩
  first := ⟨0, 0, fun _ => 0⟩
  sems := fun _ => 0
  gdt := fun _ => ⟨0, 0, 0, 0, 0⟩
  tssAddr := fun _ => 0

/-- 今のタスクが `task_init` で `u` の生成を始め、`n` 歩進む。 -/
def initRun (u : TaskId) (n : Nat) : List Label :=
  .initStart u ⟨0, 0, fun _ => 0⟩ :: List.replicate n .initStep

namespace Machine

theorem wellFormed_of_reaches_sleep : ∃ c, Reaches (fun _ => ⟨none, none⟩) .zero
    [.call (.sysSleep 10), .tick, .resume] c ∧ c.WellFormed := by
  obtain ⟨c, hc⟩ := Option.isSome_iff_exists.mp
    (show (Lib.exec Machine.step (Machine.boot (Heap.empty fun _ => ⟨none, none⟩) .zero)
      [.call (.sysSleep 10), .tick, .resume]).isSome = true by decide +kernel)
  exact ⟨c, hc, wellFormed_of_reaches hc⟩

/-! ## 失われるタスク -/

/-- `t` が `ready_list`、`sleep_list`、待ち行列のどれかにつながれている。 -/
def Linked (c : Machine Heap) (t : TaskId) : Prop :=
  .run t ∈ c.kernel.lists.nodes .ready ∨ .run t ∈ c.kernel.lists.nodes .sleep ∨
    ∃ w, .wait t ∈ c.kernel.lists.nodes (.wait w)

/-- 初期化を終えたタスクは、`idle_task` を除いて、すべてどこかにつながれている。 -/
def NoneLost (c : Machine Heap) : Prop :=
  ∀ t, .all t ∈ c.kernel.lists.nodes .task → t ≠ idleTask → c.Linked t

/-- 実行される `sys_sleep(ms)` は、`ms` が 0 でなく、切り上げの和も 32 ビットに収まる。 -/
def SleepsInRange (c : Machine Heap) (l : Label) : Prop :=
  ∀ ms, l = .call (.sysSleep ms) → (c.step l).isSome → ms ≠ 0 ∧ ms.toNat + 9 < 2 ^ 32

theorem noneLost_iff_of_sim (h : Sim c d) : c.NoneLost ↔ d.kernel.NoneLost := by
  have hr := h.mem_nodes .ready
  have hs := h.mem_nodes .sleep
  have hw := fun w => h.mem_nodes (.wait w)
  have ht := h.mem_nodes .task
  simp only [ListId.node] at hr hs hw ht
  simp [NoneLost, Linked, Kernel.NoneLost, Queues.Linked, hr, hs, hw, ht]

theorem isSome_step_iff (h : Sim c d) (hd : d.Inv) : (c.step l).isSome ↔ ∃ c' d', c.step l = some c' ∧
    d.step l = some d' ∧ Sim c' d' := by
  constructor
  · intro hc
    obtain ⟨c', hc'⟩ := Option.isSome_iff_exists.mp hc
    obtain ⟨d', hd', hs⟩ := h.step hd hc'
    exact ⟨c', d', hc', hd', hs⟩
  · rintro ⟨c', -, hc', -⟩; simp [hc']

/-- 実行のすべての状態でどのタスクも失われないことは、実行されるすべての `sys_sleep` の引数が範囲にあることと
同値である。 -/
theorem noneLost_always_iff (node : Node → Lib.Link Node) (b : BootArgs) (ls : List Label) :
    Lib.Always Machine.step NoneLost (Machine.boot (Heap.empty node) b) ls ↔
      Lib.Along Machine.step SleepsInRange (Machine.boot (Heap.empty node) b) ls := by
  refine Lib.always_iff (I := fun c => ∃ d, Sim c d ∧ d.Inv ∧ d.kernel.NoneLost) ?_ ?_ ?_ ls
    ⟨_, sim_boot b node, inv_boot b, boot_noneLost b⟩
  · rintro c ⟨d, hs, -, hn⟩
    exact (noneLost_iff_of_sim hs).mpr hn
  · rintro c l ⟨d, hs, hd, -⟩ hP ms rfl hsome
    obtain ⟨c', d', hc', hd', hs'⟩ := (isSome_step_iff hs hd).mp hsome
    have hn := (noneLost_iff_of_sim hs').mp (hP c' hc')
    rw [← sleepTicks_ne_zero_iff]
    exact noneLost_sleepTicks hd hd' hn
  · rintro c l c' ⟨d, hs, hd, hn⟩ hR hst
    obtain ⟨d', hd', hs'⟩ := hs.step hd hst
    refine ⟨d', hs', hd.step hd', (step_cases hd').noneLost hd hn fun ms hl => ?_⟩
    exact sleepTicks_ne_zero_iff.mpr (hR ms hl (by simp [hst]))

/-- 最初のタスクが `sys_sleep(0)` を呼ぶと、どのリストからも失われる。 -/
theorem sysSleep_zero_loses_task :
    ∃ c, Reaches (fun _ => ⟨none, none⟩) .zero [.call (.sysSleep 0)] c ∧ ¬ c.NoneLost := by
  obtain ⟨c, hc⟩ := Option.isSome_iff_exists.mp
    (show (Lib.exec Machine.step (Machine.boot (Heap.empty fun _ => ⟨none, none⟩) .zero)
      [.call (.sysSleep 0)]).isSome = true by decide +kernel)
  refine ⟨c, hc, fun hn => ?_⟩
  obtain ⟨c', hst, hnil⟩ := Lib.exec_cons.mp hc
  cases hnil
  obtain ⟨d, hd, hs⟩ := (sim_boot .zero _).step (inv_boot .zero) hst
  exact noneLost_sleepTicks (inv_boot .zero) hd ((noneLost_iff_of_sim hs).mp hn) rfl

end Machine

end IdealX86
