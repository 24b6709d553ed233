import IdealX86.Machine.Lemmas.Step

/-!
# タスクが失われない一歩

`ticks` が 0 になる `sys_sleep` を除いて、つながれたタスクは一歩の後もどこかにつながれている。
-/

namespace IdealX86

def Queues.Linked (q : Queues) (t : TaskId) : Prop := t ∈ q.ready ∨ t ∈ q.sleep ∨ ∃ w, t ∈ q.wait w

theorem Queues.Nowhere.not_linked {q : Queues} {t : TaskId} (h : q.Nowhere t) : ¬ q.Linked t := by
  rintro (hm | hm | ⟨w, hm⟩)
  · exact h .ready (by simp) hm
  · exact h .sleep (by simp) hm
  · exact h (.wait w) (by simp) hm

namespace Kernel

/-- `sys_sleep` が待つ回数が 0 になるのは、`ms` が 0 か、和が桁あふれするときだけである。 -/
theorem sleepTicks_ne_zero_iff {ms : UInt32} : sleepTicks ms ≠ 0 ↔ ms ≠ 0 ∧ ms.toNat + 9 < 2 ^ 32 := by
  have hlt := ms.toNat_lt
  have hv : (sleepTicks ms).toNat = (ms.toNat + 9) % 2 ^ 32 / 10 := by
    simp [sleepTicks, OS_TICKS_MS]
  rw [ne_eq, ← UInt32.toNat_inj, hv, ne_eq, ← UInt32.toNat_inj]
  simp only [UInt32.toNat_zero]
  omega

variable {a : Kernel Queues}

/-- `idle_task` を除いて、どのタスクも失われていない。 -/
def NoneLost (a : Kernel Queues) : Prop := ∀ t ∈ a.lists.task, t ≠ idleTask → a.lists.Linked t

theorem CallMoves.linked {x : Call} {q : Queues} {t : TaskId} (h : CallMoves a x q)
    (hc : ∃ ts, a.lists.ready = a.currTask :: ts)
    (hz : ∀ ms, x = .sysSleep ms → sleepTicks ms ≠ 0) (ht : a.lists.Linked t) : q.Linked t := by
  obtain ⟨rs, hr⟩ := hc
  cases h with
  | same => exact ht
  | rotate =>
      rcases ht with ht | ht | ht
      · exact .inl (List.mem_rotate.mpr ht)
      · exact .inr (.inl ht)
      · exact .inr (.inr ht)
  | drop ms hx h0 => exact absurd h0 (hz ms hx)
  | sleep ms hx h0 =>
      rcases ht with ht | ht | ht
      · rw [hr] at ht
        rcases List.mem_cons.mp ht with rfl | ht
        · exact .inr (.inl (by simp))
        · exact .inl (by simpa [hr] using ht)
      · exact .inr (.inl (List.mem_append_left _ ht))
      · exact .inr (.inr ht)
  | wait w hx =>
      rcases ht with ht | ht | ⟨w', ht⟩
      · rw [hr] at ht
        rcases List.mem_cons.mp ht with rfl | ht
        · exact .inr (.inr ⟨w, by simp⟩)
        · exact .inl (by simpa [hr] using ht)
      · exact .inr (.inl ht)
      · refine .inr (.inr ⟨w', ?_⟩)
        by_cases hw : w' = w
        · subst hw; simp [ht]
        · simpa [hw] using ht
  | wake w u us hx hw =>
      rcases ht with ht | ht | ⟨w', ht⟩
      · exact .inl (List.mem_append_left _ ht)
      · exact .inr (.inl ht)
      · by_cases he : w' = w
        · subst he
          rw [hw] at ht
          rcases List.mem_cons.mp ht with rfl | ht
          · exact .inl (by simp)
          · exact .inr (.inr ⟨w', by simpa using ht⟩)
        · exact .inr (.inr ⟨w', by simpa [he] using ht⟩)

theorem NoneLost.of_linked {b : Kernel Queues} (h : a.NoneLost) (ht : b.lists.task = a.lists.task)
    (hl : ∀ t, a.lists.Linked t → b.lists.Linked t) : b.NoneLost :=
  fun t hm hi => hl t (h t (ht ▸ hm) hi)

theorem NoneLost.tickSlice (h : a.NoneLost) (ha : a.Inv) : a.tickSlice.NoneLost := by
  refine h.of_linked (by rw [ha.tickSlice_lists]) fun t ht => ?_
  rw [ha.tickSlice_lists]
  rcases ht with ht | ht | ht
  · refine .inl ?_
    dsimp only
    split
    · exact List.mem_rotate.mpr ht
    · exact ht
  · exact .inr (.inl ht)
  · exact .inr (.inr ht)

theorem NoneLost.tickSleep (h : a.NoneLost) (ha : a.Inv) : a.tickSleep.NoneLost := by
  refine h.of_linked (by rw [ha.tickSleep_lists]) fun t ht => ?_
  rw [ha.tickSleep_lists]
  rcases ht with ht | ht | ht
  · exact .inl (List.mem_append_left _ ht)
  · by_cases hw : a.wakes t = true
    · exact .inl (List.mem_append_right _ (List.mem_filter.mpr ⟨ht, hw⟩))
    · exact .inr (.inl (List.mem_filter.mpr ⟨ht, by simpa using hw⟩))
  · exact .inr (.inr ht)

theorem NoneLost.taskPublish (h : a.NoneLost) {u : TaskId} (hu : u ≠ idleTask) :
    (a.taskPublish u).NoneLost := by
  intro t ht hi
  rw [taskPublish_lists a hu] at ht ⊢
  rcases List.mem_append.mp ht with ht | ht
  · rcases h t ht hi with hl | hl | hl
    · exact .inl (List.mem_append_left _ hl)
    · exact .inr (.inl hl)
    · exact .inr (.inr hl)
  · exact .inl (List.mem_append_right _ ht)

end Kernel

namespace Machine

open Kernel

variable {c c' : Machine Queues} {l : Label}

theorem boot_noneLost (b : BootArgs) : (Machine.boot ({} : Queues) b).kernel.NoneLost := by
  intro t ht hi
  rw [boot_lists] at ht ⊢
  simp only [List.mem_cons, List.not_mem_nil, or_false] at ht
  rcases ht with rfl | rfl
  · exact absurd rfl hi
  · exact .inl (by simp)

theorem Calls.sysSleep {ms : UInt32} (h : c.Calls l (.sysSleep ms)) : l = .call (.sysSleep ms) := by
  rcases h.2 with h | ⟨u, a, pc, -, -, hx⟩
  · exact h
  · cases pc <;> cases hx

theorem Step.noneLost (hst : c.Step l c') (h : c.Inv) (hn : c.kernel.NoneLost)
    (hok : ∀ ms, l = .call (.sysSleep ms) → sleepTicks ms ≠ 0) : c'.kernel.NoneLost := by
  refine (hst.kernel (P := fun k => k.Inv ∧ k.NoneLost) h.idle ⟨h.kernel, hn⟩ ?_
    ⟨h.kernel.tickSlice, hn.tickSlice h.kernel⟩ (fun k hk => ⟨hk.1.tickSleep, hk.2.tickSleep hk.1⟩) ?_).2
  · intro x hx
    refine ⟨h.kernel.call hx.1 x, ?_⟩
    have hm := h.kernel.call_moves hx.1 x
    refine hn.of_linked hm.task fun t ht => hm.linked (h.kernel.ready_cons hx.1) ?_ ht
    rintro ms rfl
    exact hok ms hx.sysSleep
  · intro u a pc hc
    obtain ⟨-, h₁, h₂, h₃⟩ := h.fresh hc
    refine ⟨h.kernel.initLocal (h.curr_ne_idle hc) h₁ h₂ h₃ pc, ?_⟩
    by_cases hp : pc = .publish
    · subst hp; exact hn.taskPublish h₂
    · have hl := (initLocal_lists c.kernel u a hp).1
      exact hn.of_linked (by rw [hl]) fun t ht => hl ▸ ht

/-- `ticks` が 0 の `sys_sleep` を呼んだタスクは失われる。 -/
theorem noneLost_sleepTicks (h : c.Inv) {ms : UInt32} (hst : c.step (.call (.sysSleep ms)) = some c')
    (hn : c'.kernel.NoneLost) : sleepTicks ms ≠ 0 := by
  intro hz
  cases step_cases hst with
  | call x hs ho hi =>
      have hb := h.kernel.block
      have hl : (c.doCall (.sysSleep ms)).kernel.lists = (c.kernel.taskSetBlock c.curr).lists := by
        rw [doCall_kernel]
        simp [Kernel.call, Kernel.sysSleep, taskSetSleep, hz]
      refine hb.2.not_linked (hl ▸ hn c.curr ?_ hi)
      rw [hl]
      exact h.kernel.block_known hi

end Machine

end IdealX86
