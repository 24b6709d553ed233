import IdealX86.Ipc.Sync
import IdealX86.Tools.Lemmas.ListRep

/-!
# タスクの居場所

抽象のリストの上で、タスクが高々一つのリストにだけつながれていることと、それを保つ操作をまとめる。
-/

namespace IdealX86

/-! ## 並びの書き換え -/

namespace Queues

variable {q : Queues} {l l' : ListId} {t : TaskId} {f : List TaskId → List TaskId}

@[simp] theorem seq_ready (q : Queues) : q.seq .ready = q.ready := rfl
@[simp] theorem seq_sleep (q : Queues) : q.seq .sleep = q.sleep := rfl
@[simp] theorem seq_task (q : Queues) : q.seq .task = q.task := rfl
@[simp] theorem seq_wait (q : Queues) (w : WaitId) : q.seq (.wait w) = q.wait w := rfl

theorem seq_modify : (q.modify l f).seq = Function.update q.seq l (f (q.seq l)) := by
  funext l'
  cases l <;> cases l' <;> simp [modify, seq, Function.update_apply]

@[simp] theorem seq_modify_self : (q.modify l f).seq l = f (q.seq l) := by
  rw [seq_modify, Function.update_self]

theorem seq_modify_of_ne (h : l' ≠ l) : (q.modify l f).seq l' = q.seq l' := by
  rw [seq_modify, Function.update_of_ne h]

def nodes (q : Queues) (l : ListId) : List Node := (q.seq l).map l.node

theorem nodes_modify :
    (q.modify l f).nodes = Function.update q.nodes l ((f (q.seq l)).map l.node) := by
  funext l'
  by_cases h : l' = l
  · subst h; simp [nodes]
  · simp [nodes, seq_modify_of_ne h, Function.update_of_ne h]

theorem mem_nodes {n : Node} : n ∈ q.nodes l ↔ ∃ t ∈ q.seq l, l.node t = n := List.mem_map

/-! ## 抽象のリストの操作 -/

@[simp] theorem nodeInit_eq (q : Queues) (n : Node) : ListStore.nodeInit q n = q := rfl

@[simp] theorem init_eq (q : Queues) (l : ListId) : ListStore.init q l = q.modify l fun _ => [] := rfl

@[simp] theorem insertLast_eq (q : Queues) (l : ListId) (n : Node) :
    ListStore.insertLast q l n = q.modify l (· ++ [n.task]) := rfl

@[simp] theorem removeFirst_eq (q : Queues) (l : ListId) :
    ListStore.removeFirst q l = ((q.seq l).head?.map l.node, q.modify l List.tail) := rfl

@[simp] theorem remove_eq (q : Queues) (l : ListId) (n : Node) :
    ListStore.remove q l n = q.modify l (·.erase n.task) := rfl

@[simp] theorem count_eq (q : Queues) (l : ListId) : ListStore.count q l = (q.seq l).length := rfl

@[simp] theorem first_eq (q : Queues) (l : ListId) :
    ListStore.first q l = (q.seq l).head?.map l.node := rfl

@[simp] theorem next_eq (q : Queues) (l : ListId) (n : Node) :
    ListStore.next q l n = (succOf n.task (q.seq l)).map l.node := rfl

/-! ## 居場所 -/

/-- `t` が、実行の節でも待ちの節でも、どこにもつながれていない。 -/
def Nowhere (q : Queues) (t : TaskId) : Prop := ∀ l, l ≠ .task → t ∉ q.seq l

/-- どのリストも重複がなく、タスクは `task_list` のほかには高々一つのリストにあり、`idle_task` はどこにもない。
つながれたタスクはすべて `task_list` にある。 -/
structure Placed (q : Queues) : Prop where
  nodup : ∀ l, (q.seq l).Nodup
  once : ∀ l l' t, l ≠ .task → l' ≠ .task → t ∈ q.seq l → t ∈ q.seq l' → l = l'
  idle : ∀ l, l ≠ .task → idleTask ∉ q.seq l
  known : ∀ l t, t ∈ q.seq l → t ∈ q.task
  null : nullTask ∉ q.task

theorem Placed.ne_idle (h : q.Placed) (hl : l ≠ .task) (ht : t ∈ q.seq l) : t ≠ idleTask := by
  rintro rfl; exact h.idle l hl ht

theorem Placed.ne_null (h : q.Placed) (ht : t ∈ q.seq l) : t ≠ nullTask := by
  rintro rfl; exact h.null (h.known l _ ht)

theorem Placed.nowhere_of_unknown (h : q.Placed) (ht : t ∉ q.task) : q.Nowhere t :=
  fun l _ hm => ht (h.known l t hm)

theorem Placed.nowhere_idle (h : q.Placed) : q.Nowhere idleTask := h.idle

theorem Placed.nowhere_erase (h : q.Placed) (hl : l ≠ .task) (ht : t ∈ q.seq l) :
    (q.modify l (·.erase t)).Nowhere t := by
  intro l' hl' hm
  by_cases he : l' = l
  · subst he
    rw [seq_modify_self] at hm
    exact (h.nodup l').not_mem_erase hm
  · rw [seq_modify_of_ne he] at hm
    exact he (h.once l' l t hl' hl hm ht)

theorem Placed.nowhere_tail (h : q.Placed) (hl : l ≠ .task) {ts : List TaskId}
    (ht : q.seq l = t :: ts) : (q.modify l List.tail).Nowhere t := by
  have he : q.modify l List.tail = q.modify l (·.erase t) := by
    cases l <;> simp only [seq] at ht <;> simp [modify, ht]
  rw [he]
  exact h.nowhere_erase hl (by simp [ht])

theorem Placed.sublist (h : q.Placed) (hl : l ≠ .task) (hf : (f (q.seq l)).Sublist (q.seq l)) :
    (q.modify l f).Placed := by
  have hsub : ∀ l' x, x ∈ (q.modify l f).seq l' → x ∈ q.seq l' := by
    intro l' x hx
    by_cases he : l' = l
    · subst he; rw [seq_modify_self] at hx; exact hf.subset hx
    · rwa [seq_modify_of_ne he] at hx
  have htask : (q.modify l f).task = q.task := seq_modify_of_ne (Ne.symm hl : ListId.task ≠ l)
  refine ⟨fun l' => ?_, fun l₁ l₂ x h₁ h₂ hx₁ hx₂ => h.once l₁ l₂ x h₁ h₂ (hsub _ _ hx₁) (hsub _ _ hx₂),
    fun l' hl' hx => h.idle l' hl' (hsub _ _ hx), fun l' x hx => ?_, ?_⟩
  · by_cases he : l' = l
    · subst he; rw [seq_modify_self]; exact hf.nodup (h.nodup l')
    · rw [seq_modify_of_ne he]; exact h.nodup l'
  · rw [htask]; exact h.known l' x (hsub _ _ hx)
  · rw [htask]; exact h.null

theorem Placed.erase (h : q.Placed) (hl : l ≠ .task) (t : TaskId) : (q.modify l (·.erase t)).Placed :=
  h.sublist hl List.erase_sublist

theorem Placed.tail (h : q.Placed) (hl : l ≠ .task) : (q.modify l List.tail).Placed :=
  h.sublist hl (List.tail_sublist _)

theorem Placed.append (h : q.Placed) (hl : l ≠ .task) (ht : q.Nowhere t) (hk : t ∈ q.task)
    (hidle : t ≠ idleTask) : (q.modify l (· ++ [t])).Placed := by
  have hmem : ∀ l' x, x ∈ (q.modify l (· ++ [t])).seq l' → x ∈ q.seq l' ∨ (l' = l ∧ x = t) := by
    intro l' x hx
    by_cases he : l' = l
    · subst he; rw [seq_modify_self] at hx; simpa using hx
    · rw [seq_modify_of_ne he] at hx; exact Or.inl hx
  have htask : (q.modify l (· ++ [t])).task = q.task := seq_modify_of_ne (Ne.symm hl : ListId.task ≠ l)
  refine ⟨fun l' => ?_, fun l₁ l₂ x h₁ h₂ hx₁ hx₂ => ?_, fun l' hl' hx => ?_, fun l' x hx => ?_, ?_⟩
  · by_cases he : l' = l
    · subst he
      rw [seq_modify_self]
      refine List.nodup_append.mpr ⟨h.nodup l', List.nodup_singleton t, ?_⟩
      rintro x hx y hy rfl
      rw [List.mem_singleton.mp hy] at hx
      exact ht l' hl hx
    · rw [seq_modify_of_ne he]; exact h.nodup l'
  · rcases hmem _ _ hx₁ with m₁ | ⟨e₁, ex₁⟩ <;> rcases hmem _ _ hx₂ with m₂ | ⟨e₂, ex₂⟩
    · exact h.once l₁ l₂ x h₁ h₂ m₁ m₂
    · rw [ex₂] at m₁; exact absurd m₁ (ht l₁ h₁)
    · rw [ex₁] at m₂; exact absurd m₂ (ht l₂ h₂)
    · rw [e₁, e₂]
  · rcases hmem _ _ hx with m | ⟨_, e⟩
    · exact h.idle l' hl' m
    · exact hidle e.symm
  · rw [htask]
    rcases hmem _ _ hx with m | ⟨_, e⟩
    · exact h.known l' x m
    · rw [e]; exact hk
  · rw [htask]; exact h.null

theorem Placed.appendTask (h : q.Placed) (ht : t ∉ q.task) (hn : t ≠ nullTask) :
    (q.modify .task (· ++ [t])).Placed := by
  have hseq : ∀ l, l ≠ .task → (q.modify .task (· ++ [t])).seq l = q.seq l :=
    fun l hl => seq_modify_of_ne hl
  refine ⟨fun l => ?_, fun l₁ l₂ x h₁ h₂ hx₁ hx₂ => ?_, fun l hl hx => ?_, fun l x hx => ?_, ?_⟩
  · by_cases he : l = .task
    · subst he
      rw [seq_modify_self]
      refine List.nodup_append.mpr ⟨h.nodup _, List.nodup_singleton t, ?_⟩
      rintro x hx y hy rfl
      rw [List.mem_singleton.mp hy] at hx
      exact ht hx
    · rw [hseq l he]; exact h.nodup l
  · rw [hseq _ h₁] at hx₁; rw [hseq _ h₂] at hx₂; exact h.once l₁ l₂ x h₁ h₂ hx₁ hx₂
  · rw [hseq _ hl] at hx; exact h.idle l hl hx
  · by_cases he : l = .task
    · subst he; exact hx
    · rw [hseq l he] at hx; exact List.mem_append_left _ (h.known l x hx)
  · intro hx
    rcases List.mem_append.mp hx with hx | hx
    · exact h.null hx
    · exact hn (List.mem_singleton.mp hx).symm

/-! ## 節がどのリストにもないこと -/

theorem Nowhere.run (h : q.Nowhere t) (l : ListId) : Node.run t ∉ q.nodes l := by
  rw [mem_nodes]
  rintro ⟨x, hx, he⟩
  cases l <;> cases he
  · exact h .ready (by simp) hx
  · exact h .sleep (by simp) hx

theorem Nowhere.wait (h : q.Nowhere t) (l : ListId) : Node.wait t ∉ q.nodes l := by
  rw [mem_nodes]
  rintro ⟨x, hx, he⟩
  cases l <;> cases he
  exact h (.wait _) (by simp) hx

theorem all_not_mem (h : t ∉ q.task) (l : ListId) : Node.all t ∉ q.nodes l := by
  rw [mem_nodes]
  rintro ⟨x, hx, he⟩
  cases l <;> cases he
  exact h hx

end Queues

theorem ListId.node_injective (l : ListId) : Function.Injective l.node := by
  intro t t' h
  cases l <;> cases h <;> rfl

@[simp] theorem ListId.node_task (l : ListId) (t : TaskId) : (l.node t).task = t := by
  cases l <;> rfl

end IdealX86
