import IdealX86.Machine.Lemmas.Woven

/-!
# 書きかけの行

時間片の尽きる割り込みが行の途中に来なければ、行を書き始めたタスクは書き終わるまで切り替わらない。行の途中の割り込みは、
`ready_list` の先頭を変えずに戻るからである。このとき書きかけの行は今のタスクだけにあり、残りのコードの先頭か、
割り込みの後半のすぐ次にある。
-/

namespace IdealX86

open Kernel (InitPc)

section
variable {p q : List Instr} {i : Instr}

@[simp] theorem written_nil : written [] = [] := rfl

@[simp] theorem written_cons (i : Instr) (p : List Instr) : written (i :: p) = i.done ++ written p := by
  simp [written]

@[simp] theorem written_append (p q : List Instr) : written (p ++ q) = written p ++ written q := by
  simp [written]

@[simp] theorem written_logPrintf (f : Bool) (n : Nat) (s : List Byte) : written (logPrintf f n s) = [] := rfl

/-- コードの位置が、タスク `t` のものとして正しい。`idle_task` は割り込みを許して `log_printf` を呼ばず、書きかけの行は、
`issued` の中のその番号の行である。 -/
structure Instr.Ok (issued : List (List Byte)) (t : TaskId) (i : Instr) : Prop where
  idle : t = idleTask → i.enabled = false
  line : ∀ f n done bs, i = .out f n done bs → bs ≠ [] ∧ n < issued.length ∧ done ++ bs = lineOf issued n

theorem Instr.Ok.cons {issued : List (List Byte)} {t : TaskId} (h : i.Ok issued t) (s : List Byte) :
    i.Ok (s :: issued) t := by
  refine ⟨h.idle, fun f n done bs he => ?_⟩
  obtain ⟨hne, hn, hl⟩ := h.line f n done bs he
  exact ⟨hne, Nat.lt_succ_of_lt hn, hl.trans (lineOf_cons hn s).symm⟩

theorem Instr.ok_logPrintf {issued : List (List Byte)} {t : TaskId} {f : Bool} (hf : t = idleTask → f = false)
    (s : List Byte) : ∀ i ∈ logPrintf f issued.length s, i.Ok (s :: issued) t := by
  intro i hi
  simp only [logPrintf, List.mem_cons, List.not_mem_nil, or_false] at hi
  rcases hi with rfl | rfl | rfl
  · exact ⟨hf, by simp⟩
  · refine ⟨hf, fun f n done bs he => ?_⟩
    cases he
    exact ⟨logLine_ne_nil s, Nat.lt_succ_self _, (lineOf_new issued s).symm⟩
  · exact ⟨hf, by simp⟩

/-- 書きかけの行があるなら、先頭か、割り込みの後半のすぐ次にある。 -/
inductive Front : List Instr → Prop where
  | clean {p : List Instr} (hp : written p = []) : Front p
  | line (f : Bool) (n : Nat) (done bs : List Byte) {p : List Instr} (hp : written p = []) :
      Front (.out f n done bs :: p)
  | tick (n : Nat) (done bs : List Byte) {p : List Instr} (hp : written p = []) :
      Front (.tickSleep :: .out true n done bs :: p)

theorem Front.written_eq_nil (h : Front (i :: p)) (h₁ : i.done = []) (h₂ : ∀ f n done bs, i ≠ .out f n done bs)
    (h₃ : i ≠ .tickSleep) : written p = [] := by
  cases h with
  | clean hp => simpa [h₁] using hp
  | line f n done bs hp => exact absurd rfl (h₂ f n done bs)
  | tick n done bs hp => exact absurd rfl h₃

theorem Front.written_out {f : Bool} {n : Nat} {done bs : List Byte} (h : Front (.out f n done bs :: p)) :
    written p = [] := by
  cases h with
  | clean hp => simp only [written_cons, List.append_eq_nil_iff] at hp; exact hp.2
  | line f n done bs hp => exact hp

theorem Front.mem_out (h : Front p) (hw : written p ≠ []) :
    ∃ f n done bs, .out f n done bs ∈ p ∧ written p = done.map (n, ·) := by
  cases h with
  | clean hp => exact absurd hp hw
  | line f n done bs hp => exact ⟨f, n, done, bs, by simp, by simp [hp, Instr.done]⟩
  | tick n done bs hp => exact ⟨true, n, done, bs, by simp, by simp [hp, Instr.done]⟩

end

namespace Console

structure LineInv (c : Console Queues) : Prop where
  ok : ∀ t, ∀ i ∈ c.rest t, i.Ok c.issued t
  others : ∀ t, t ≠ c.curr → written (c.rest t) = []
  front : Front (c.rest c.curr)
  lined : ∃ ids : List Nat, (∀ i ∈ ids, i < c.issued.length) ∧
    c.out = ids.flatMap (tagged c.issued) ++ written (c.rest c.curr)

variable {c c' : Console Queues} {l : ConsoleLabel} {k : Kernel Queues} {i : Instr} {p : List Instr}

theorem LineInv.ok_tail (h : c.LineInv) (hr : c.rest c.curr = i :: p) : ∀ j ∈ p, j.Ok c.issued c.curr :=
  fun j hj => h.ok c.curr j (by rw [hr]; exact List.mem_cons_of_mem _ hj)

theorem LineInv.update (h : c.LineInv) (hc : c'.curr = c.curr)
    (hr : c'.rest = Function.update c.rest c.curr p) (hi : ∀ t, ∀ i ∈ c.rest t, i.Ok c'.issued t)
    (hok : ∀ i ∈ p, i.Ok c'.issued c.curr) (hf : Front p)
    (hl : ∃ ids : List Nat, (∀ i ∈ ids, i < c'.issued.length) ∧
      c'.out = ids.flatMap (tagged c'.issued) ++ written p) : c'.LineInv := by
  have hp : c'.rest c'.curr = p := by rw [hr, hc, Function.update_self]
  refine ⟨fun t i hm => ?_, fun t ht => ?_, hp ▸ hf, hp ▸ hl⟩
  · rw [hr, Function.update_apply] at hm
    split at hm
    · rename_i ht; rw [ht]; exact hok i hm
    · exact hi t i hm
  · rw [hc] at ht
    rw [hr, Function.update_of_ne ht]
    exact h.others t ht

theorem LineInv.settle_same (h : c.LineInv) (hc : k.currTask = c.curr) (hok : ∀ i ∈ p, i.Ok c.issued c.curr)
    (hf : Front p) (hw : written p = written (c.rest c.curr)) : (c.settle k p).LineInv := by
  refine h.update (p := p) hc ?_ h.ok hok hf (hw ▸ h.lined)
  simp [Console.settle, Console.setRest, hc]

theorem LineInv.settle (h : c.LineInv) (hw : written (c.rest c.curr) = [])
    (hok : ∀ i ∈ p, i.Ok c.issued c.curr) (hp : written p = []) : (c.settle k p).LineInv := by
  by_cases hc : k.currTask = c.curr
  · exact h.settle_same hc hok (.clean hp) (hp.trans hw.symm)
  · have hr : (c.settle k p).rest = Function.update c.rest c.curr (.dispatched k.currTask :: p) := by
      simp [Console.settle, Console.setRest, hc]
    have hnil : ∀ t, written ((c.settle k p).rest t) = [] := by
      intro t
      rw [hr, Function.update_apply]
      split
      · exact hp
      · exact h.others t ‹_›
    refine ⟨fun t i hm => ?_, fun t _ => hnil t, .clean (hnil _), ?_⟩
    · rw [hr, Function.update_apply] at hm
      split at hm
      · rename_i ht
        rw [ht]
        rcases List.mem_cons.mp hm with rfl | hm
        · exact ⟨fun _ => rfl, by simp⟩
        · exact hok i hm
      · exact h.ok t i hm
    · rw [hnil, ← hw]; exact h.lined

theorem LineInv.setRest (h : c.LineInv) (hok : ∀ i ∈ p, i.Ok c.issued c.curr) (hf : Front p)
    (hw : written p = written (c.rest c.curr)) : (c.setRest p).LineInv :=
  h.update rfl rfl h.ok hok hf (hw ▸ h.lined)

/-! ## 残りのコードの一歩 -/

theorem LineInv.out (h : c.LineInv) {f : Bool} {n : Nat} {done bs : List Byte}
    (hr : c.rest c.curr = .out f n done bs :: p) : (c.doRun p (.out f n done bs)).LineInv := by
  have hok := h.ok_tail hr
  have hp : written p = [] := (hr ▸ h.front : Front (.out f n done bs :: p)).written_out
  obtain ⟨hidle, hline⟩ := h.ok c.curr (.out f n done bs) (by simp [hr])
  obtain ⟨hne, hn, hl⟩ := hline _ _ _ _ rfl
  obtain ⟨ids, hids, ho⟩ := h.lined
  rw [hr, written_cons, hp, List.append_nil] at ho
  cases bs with
  | nil => exact absurd rfl hne
  | cons b bs =>
      have hl' : done ++ [b] ++ bs = lineOf c.issued n := by rw [← hl, List.append_assoc]; rfl
      refine h.update rfl rfl h.ok ?_ ?_ ?_ <;> by_cases hb : bs = [] <;>
        simp only [hb, ↓reduceIte]
      · exact hok
      · intro j hj
        rcases List.mem_cons.mp hj with rfl | hj
        · refine ⟨hidle, fun f' n' done' bs' he => ?_⟩
          cases he
          exact ⟨hb, hn, hl'⟩
        · exact hok j hj
      · exact .clean hp
      · exact .line _ _ _ _ hp
      · refine ⟨ids ++ [n], ?_, ?_⟩
        · intro i hi
          rcases List.mem_append.mp hi with hi | hi
          · exact hids i hi
          · rw [List.mem_singleton.mp hi]; exact hn
        · rw [hb, List.append_nil] at hl'
          have ht : tagged c.issued n = done.map (n, ·) ++ [(n, b)] := by simp [tagged, ← hl']
          change c.out ++ [(n, b)] = (ids ++ [n]).flatMap (tagged c.issued) ++ written p
          simp [ho, hp, ht, Instr.done]
      · refine ⟨ids, hids, ?_⟩
        change c.out ++ [(n, b)] = ids.flatMap (tagged c.issued) ++ written (.out f n (done ++ [b]) bs :: p)
        simp [ho, hp, Instr.done]

/-- 割り込みの後半。行の途中なら、今のタスクは `ready_list` の先頭にいるので切り替わらない。 -/
theorem LineInv.tickSleep (h : c.LineInv) (hk : c.kernel.Inv) (hr : c.rest c.curr = .tickSleep :: p) :
    (c.settle c.kernel.tickSleep p).LineInv := by
  have hok := h.ok_tail hr
  have hw : written p = written (c.rest c.curr) := by rw [hr]; rfl
  have hf : Front (.tickSleep :: p) := hr ▸ h.front
  cases hf with
  | clean hp => exact h.settle (hw ▸ hp) hok hp
  | tick n done bs hp =>
      have hi : c.curr ≠ idleTask := fun hi => nomatch (hok _ (List.mem_cons_self)).idle hi
      obtain ⟨ts, hready⟩ := hk.ready_cons hi
      refine h.settle_same ?_ hok (.line _ _ _ _ hp) hw
      rw [← hk.tickSleep.head, hk.tickSleep_lists, hready]
      rfl

theorem LineInv.doRun (h : c.LineInv) (hk : c.kernel.Inv) (hr : c.rest c.curr = i :: p) :
    (c.doRun p i).LineInv := by
  have hok := h.ok_tail hr
  have hf : Front (i :: p) := hr ▸ h.front
  have hi := h.ok c.curr i (by simp [hr])
  have hw : written (c.rest c.curr) = i.done ++ written p := by rw [hr, written_cons]
  cases i with
  | out f n done bs => exact h.out hr
  | tickSleep => exact h.tickSleep hk hr
  | print f s =>
      have hp := hf.written_eq_nil rfl (by simp) (by simp)
      refine h.update rfl rfl (fun t j hj => (h.ok t j hj).cons s) (fun j hj => ?_) (.clean (by simp [hp])) ?_
      · rcases List.mem_append.mp hj with hj | hj
        · exact Instr.ok_logPrintf hi.idle s j hj
        · exact (hok j hj).cons s
      · obtain ⟨ids, hids, ho⟩ := h.lined
        refine ⟨ids, fun i hi => Nat.lt_succ_of_lt (hids i hi), ?_⟩
        have hsame : ids.flatMap (tagged (s :: c.issued)) = ids.flatMap (tagged c.issued) :=
          List.flatMap_congr fun i hi => by rw [tagged, tagged, lineOf_cons (hids i hi)]
        simp only [written_append, written_logPrintf, hp, List.append_nil]
        exact ho.trans (by simp [hw, Instr.done, hp, Console.doRun, hsame])
  | dispatched u =>
      refine h.setRest (fun j hj => ?_) (.clean (hf.written_eq_nil rfl (by simp) (by simp))) hw.symm
      rcases List.mem_cons.mp hj with rfl | hj
      · exact ⟨fun _ => rfl, by simp⟩
      · exact hok j hj
  | lock f =>
      have hp := hf.written_eq_nil rfl (by simp) (by simp)
      exact h.settle (hw.trans hp) hok hp
  | unlock f =>
      have hp := hf.written_eq_nil rfl (by simp) (by simp)
      exact h.settle (hw.trans hp) hok hp
  | sliceEnd =>
      have hp := hf.written_eq_nil rfl (by simp) (by simp)
      exact h.settle (hw.trans hp) hok hp

/-! ## 割り込みと呼び出し -/

theorem tickRest_spec (k : Kernel Queues) (issued : List (List Byte)) (t : TaskId) :
    written (tickRest k) = [] ∧ ∀ i ∈ tickRest k, i.Ok issued t := by
  unfold tickRest
  split
  · refine ⟨rfl, fun i hi => ?_⟩
    simp only [List.mem_cons, List.not_mem_nil, or_false] at hi
    rcases hi with rfl | rfl | rfl <;> exact ⟨fun _ => rfl, by simp⟩
  · refine ⟨rfl, fun i hi => ?_⟩
    rw [List.mem_singleton.mp hi]
    exact ⟨fun _ => rfl, by simp⟩

/-- 時計の割り込み。行の途中なら、時間片が尽きてはならない。 -/
theorem LineInv.doTick (h : c.LineInv) (hi : c.interruptible = true)
    (hq : c.kernel.sliceEnds = true → written (c.rest c.curr) = []) : c.doTick.LineInv := by
  obtain ⟨hw, hok⟩ := tickRest_spec c.kernel.countSlice c.issued c.curr
  refine h.update rfl rfl h.ok (fun i hm => ?_) ?_ ?_
  · rcases List.mem_append.mp hm with hm | hm
    · exact hok i hm
    · exact h.ok c.curr i hm
  · cases hend : c.kernel.sliceEnds with
    | true => exact .clean (by simp [hw, hq hend])
    | false =>
        have hr : tickRest c.kernel.countSlice = [.tickSleep] := by
          have hne : ¬ (c.kernel.countSlice.tasks c.kernel.countSlice.currTask).sliceTicks = 0 := by
            simpa [Kernel.sliceEnds, Kernel.countSlice, Kernel.setTask_tasks] using hend
          rw [tickRest, if_neg hne]
        rw [hr]
        have hf := h.front
        unfold interruptible at hi
        generalize c.rest c.curr = p at hf hi
        cases hf with
        | clean hp => exact .clean hp
        | line f n done bs hp => cases f <;> first | exact .tick _ _ _ hp | cases hi
        | tick n done bs hp => cases hi
  · rw [written_append, hw, List.nil_append]
    exact h.lined

theorem LineInv.settle_nil (h : c.LineInv) (hr : c.rest c.curr = []) (hok : ∀ i ∈ p, i.Ok c.issued c.curr)
    (hp : written p = []) : (c.settle k p).LineInv := h.settle (by rw [hr]; rfl) hok hp

theorem ok_print (hi : c.curr ≠ idleTask) (s : List Byte) : ∀ i ∈ [Instr.print true s], i.Ok c.issued c.curr := by
  intro i hm
  rw [List.mem_singleton.mp hm]
  exact ⟨fun he => absurd he hi, by simp⟩

theorem LineInv.doInit (h : c.LineInv) {u : TaskId} {a : InitArgs} {pc : InitPc} (hr : c.rest c.curr = [])
    (hi : c.curr ≠ idleTask) (hc : (c.kernel.initLocal u a pc).currTask = c.curr) :
    (c.doInit u a pc).LineInv := by
  unfold Console.doInit
  cases initCall pc with
  | some x =>
      have hs : (c.settle (c.kernel.call x) (initPrints pc)).LineInv := by
        unfold initPrints
        split
        · exact h.settle_nil hr (ok_print hi _) rfl
        · exact h.settle_nil hr (by simp) rfl
      exact ⟨hs.ok, hs.others, hs.front, hs.lined⟩
  | none =>
      refine h.update (p := c.rest c.curr) hc ?_ h.ok (h.ok c.curr) h.front h.lined
      exact (Function.update_eq_self _ _).symm

theorem Step.lineInv (hst : c.Step l c') (hc : c.Inv) (h : c.LineInv)
    (hq : l = .tick → c.kernel.sliceEnds = true → written (c.rest c.curr) = []) : c'.LineInv := by
  cases hst with
  | tick hi => exact h.doTick hi (hq rfl)
  | run i p hr => exact h.doRun hc.kernel hr
  | printf s hr ho hi => exact h.setRest (ok_print hi s) (.clean rfl) (by rw [hr]; rfl)
  | call x hr ho hi hx => exact h.settle_nil hr (by simp) rfl
  | initStart u a hr ho hi hn hu => exact ⟨h.ok, h.others, h.front, h.lined⟩
  | initStep u a pc hr ho =>
      refine h.doInit hr (hc.machine.curr_ne_idle ho) ?_
      by_cases hp : pc = .publish
      · subst hp; exact (Kernel.taskPublish_frame c.kernel u).1
      · exact (Kernel.initLocal_lists c.kernel u a hp).2

theorem lineInv_boot (b : BootArgs) : (Console.boot ({} : Queues) b).LineInv :=
  ⟨fun _ _ hm => (List.not_mem_nil hm).elim, fun _ _ => rfl, .clean rfl, [], by simp, rfl⟩

theorem LineInv.atomic (h : c.LineInv) (hw : c.Woven) :
    Lined c.issued (∃ t, written (c.rest t) ≠ []) c.out := by
  obtain ⟨ids, hids, ho⟩ := h.lined
  refine ⟨ids, _, hw.nodup_of_lines hids ho, hids, ho, ?_⟩
  by_cases hwr : written (c.rest c.curr) = []
  · exact .inl hwr
  · obtain ⟨f, n, done, bs, hm, hd⟩ := h.front.mem_out hwr
    obtain ⟨-, hn, hl⟩ := (h.ok c.curr _ hm).line _ _ _ _ rfl
    refine .inr ⟨⟨_, hwr⟩, n, hn, hw.not_mem_of_part hn ho ?_, ?_⟩
    · rw [hd]
      exact fun hnil => hwr (by rw [hd]; simpa [Lib.part_map_self] using hnil)
    · rw [hd, tagged, ← hl, List.map_append]
      exact List.prefix_append _ _

end Console

end IdealX86
