import IdealX86.Cpu.Lemmas.Gdt
import IdealX86.Machine.Lemmas.Boot

/-!
# `task_init` の失敗

`tss_init` は記述子を割り当てられないと -1 を返すが、`task_init` はそれを見ずにタスクを公開して 0 を返す。割り込まれない一回の
呼び出しと、その列とについて、正しく働くための条件を示す。前提は `ready_list` と `task_list` が整っていることだけである。
-/

namespace IdealX86

/-! ## 空いている記述子 -/

/-- 1 番から 255 番までに、空いている記述子がある。 -/
def HasFreeDesc (gdt : Gdt) : Prop := ∃ i, 1 ≤ i ∧ i < GDT_TABLE_SIZE ∧ (gdt i).attr = 0

theorem gdtFindFree_some {gdt : Gdt} {n i j : Nat} (h : gdtFindFree gdt n i = some j) :
    i ≤ j ∧ j < i + n ∧ (gdt j).attr = 0 := by
  induction n generalizing i with
  | zero => simp [gdtFindFree] at h
  | succ n ih =>
      rw [gdtFindFree] at h
      split at h
      · next hfree =>
          cases h
          exact ⟨Nat.le_refl _, by omega, hfree⟩
      · obtain ⟨h₁, h₂, h₃⟩ := ih h
        exact ⟨by omega, by omega, h₃⟩

theorem gdtFindFree_isSome {gdt : Gdt} {n i j : Nat} (h₁ : i ≤ j) (h₂ : j < i + n) (hj : (gdt j).attr = 0) :
    (gdtFindFree gdt n i).isSome := by
  induction n generalizing i with
  | zero => omega
  | succ n ih =>
      rw [gdtFindFree]
      split
      · rfl
      · next hne =>
          have hij : i ≠ j := by
            rintro rfl
            exact hne hj
          exact ih (by omega) (by omega)

theorem HasFreeDesc.find {gdt : Gdt} (h : HasFreeDesc gdt) :
    ∃ i, gdtFindFree gdt (GDT_TABLE_SIZE - 1) 1 = some i ∧ 1 ≤ i ∧ i < GDT_TABLE_SIZE ∧ (gdt i).attr = 0 := by
  obtain ⟨j, h₁, h₂, hj⟩ := h
  unfold GDT_TABLE_SIZE at *
  obtain ⟨i, hi⟩ := Option.isSome_iff_exists.mp (gdtFindFree_isSome (n := 256 - 1) h₁ (by omega) hj)
  obtain ⟨h₃, h₄, h₅⟩ := gdtFindFree_some hi
  exact ⟨i, hi, h₃, by omega, h₅⟩

/-- `tss_init` が記述子に書く値。 -/
theorem segmentDescSet_tss (gdt : Gdt) (i : Nat) (base : BitVec 32) :
    let gdt' := segmentDescSet gdt (i * 8) base sizeofTss (SEG_P_PRESENT ||| SEG_DPL0 ||| SEG_TYPE_TSS)
    (gdt' i).attr = SEG_P_PRESENT ||| SEG_DPL0 ||| SEG_TYPE_TSS ∧ (gdt' i).base = base ∧ ∀ j ≠ i, gdt' j = gdt j := by
  have hi : i * 8 / 8 = i := Nat.mul_div_cancel i (by decide)
  have hv : descValue base sizeofTss (SEG_P_PRESENT ||| SEG_DPL0 ||| SEG_TYPE_TSS) =
      ⟨base, sizeofTss, SEG_P_PRESENT ||| SEG_DPL0 ||| SEG_TYPE_TSS⟩ := if_neg (by decide)
  simp only [segmentDescSet, hi, Function.update_self, hv]
  refine ⟨by simp only [descStore]; decide, ?_, fun j hj => Function.update_of_ne hj _ _⟩
  exact ((((((Written.zero _ (gdt i)).store).store).store).store).store).base (by decide)

namespace Kernel

/-- `mutex_lock` で待たされない：空いていて待つタスクがないか、今のタスクが持っている。 -/
def MutexAvailable {σ : Type} [ListStore σ] (k : Kernel σ) (m : MutexId) : Prop :=
  (k.mutexes m).lockedCount = 0 ∧ ListStore.count k.lists (.wait (.mutex m)) = 0 ∨
    (k.mutexes m).lockedCount ≠ 0 ∧ (k.mutexes m).owner = k.currTask

section
variable {σ : Type} [ListStore σ] {k : Kernel σ} {m : MutexId}

/-- 待たされずに取って放すと、変わりうるのは空いたミューテックスの持ち主だけである。 -/
theorem MutexAvailable.lock_unlock (h : k.MutexAvailable m) :
    ∃ x, (k.mutexLock m).gdt = k.gdt ∧ (k.mutexLock m).mutexUnlock m = k.setMutex m x ∧
      (k.setMutex m x).MutexAvailable m := by
  rcases h with ⟨hfree, hwait⟩ | ⟨hheld, howner⟩
  · have hlock : k.mutexLock m = k.setMutex m ⟨k.currTask, 1⟩ := by simp [mutexLock, hfree]
    refine ⟨⟨nullTask, 0⟩, by rw [hlock]; rfl, ?_, .inl ⟨by simp [setMutex], hwait⟩⟩
    rw [hlock]
    simp only [mutexUnlock, setMutex, Function.update_self, ↓reduceIte, hwait, ne_eq, not_true_eq_false,
      Function.update_idem, Int.sub_self]
  · have hlock : k.mutexLock m = k.setMutex m ⟨(k.mutexes m).owner, (k.mutexes m).lockedCount + 1⟩ := by
      simp [mutexLock, hheld, howner]
    refine ⟨k.mutexes m, by rw [hlock]; rfl, ?_, .inr ?_⟩
    · have hcount : (k.mutexes m).lockedCount + 1 - 1 = (k.mutexes m).lockedCount := by omega
      rw [hlock]
      simp only [mutexUnlock, setMutex, Function.update_self, howner, ↓reduceIte, hcount, hheld,
        Function.update_idem]
      rw [← howner]
    · simp only [setMutex, Function.update_self]
      exact ⟨hheld, howner⟩

/-- 待たされない `task_init` の全体。 -/
theorem MutexAvailable.taskInit_eq (h : k.MutexAvailable .gdt) (u : TaskId) (a : InitArgs) :
    ∃ x, (k.setMutex .gdt x).MutexAvailable .gdt ∧ k.taskInit u a =
      (((k.setMutex .gdt x).tssSet u a (gdtFindFree k.gdt (GDT_TABLE_SIZE - 1) 1)).taskFields u a).taskPublish u := by
  obtain ⟨x, hgdt, hunlock, havail⟩ := h.lock_unlock
  refine ⟨x, havail, ?_⟩
  unfold taskInit tssInit gdtAllocDesc
  simp only [hgdt, hunlock]
  cases gdtFindFree k.gdt (GDT_TABLE_SIZE - 1) 1 <;> rfl

end

/-! ## 公開の働き -/

/-- `ready_list` が `rd` を、`task_list` が `tl` を表し、節を共有しない。 -/
structure InitLists (s : Heap) (rd tl : List Node) : Prop where
  ready : IsList s.node (s.list .ready) rd
  task : IsList s.node (s.list .task) tl
  disjoint : rd.Disjoint tl

/-- タスク `u` の節は、まだどちらのリストにもない。 -/
def Fresh (u : TaskId) (rd tl : List Node) : Prop := ∀ n : Node, n.task = u → n ∉ rd ∧ n ∉ tl

section
variable {s : Heap} {n : Node} {u : TaskId} {rd tl : List Node}

theorem InitLists.nodeInit (h : InitLists s rd tl) (hn : n ∉ rd ∧ n ∉ tl) : InitLists (s.listNodeInit n) rd tl := by
  refine ⟨h.ready.congr fun x hx => ?_, h.task.congr fun x hx => ?_, h.disjoint⟩
  · exact Function.update_of_ne (ne_of_mem_of_not_mem hx hn.1) _ _
  · exact Function.update_of_ne (ne_of_mem_of_not_mem hx hn.2) _ _

theorem InitLists.publish (h : InitLists s rd tl) (hu : Fresh u rd tl) :
    InitLists ((s.listInsertLast .ready (.run u)).listInsertLast .task (.all u)) (rd ++ [.run u]) (tl ++ [.all u]) := by
  obtain ⟨hrun, hrun'⟩ := hu (.run u) rfl
  obtain ⟨hall, hall'⟩ := hu (.all u) rfl
  have htask : IsList (s.listInsertLast .ready (.run u)).node ((s.listInsertLast .ready (.run u)).list .task) tl :=
    h.ready.insertLast_touches.isList (by simp) h.task fun x hx hmem => by
      rcases List.mem_cons.mp hmem with rfl | hmem
      · exact hrun' hx
      · exact h.disjoint hmem hx
  refine ⟨?_, htask.insertLast hall', ?_⟩
  · refine htask.insertLast_touches.isList (by simp) (h.ready.insertLast hrun) fun x hx hmem => ?_
    rcases List.mem_append.mp hx with hx | hx <;> rcases List.mem_cons.mp hmem with rfl | hmem
    · exact hall hx
    · exact h.disjoint hx hmem
    · simp at hx
    · exact hrun' (List.mem_singleton.mp hx ▸ hmem)
  · rw [List.disjoint_append_left, List.disjoint_append_right, List.disjoint_append_right]
    simp [h.disjoint, hall, hrun']

end

variable {k : Kernel Heap} {u : TaskId} {a : InitArgs} {rd tl : List Node}

theorem InitLists.taskInit (h : InitLists k.lists rd tl) (hu : Fresh u rd tl) (hi : u ≠ idleTask)
    (hm : k.MutexAvailable .gdt) : InitLists (k.taskInit u a).lists (rd ++ [.run u]) (tl ++ [.all u]) := by
  obtain ⟨x, -, heq⟩ := hm.taskInit_eq u a
  have hset := (tssSet_frame (k.setMutex .gdt x) u a (gdtFindFree k.gdt (GDT_TABLE_SIZE - 1) 1)).1
  have hinit := ((h.nodeInit (hu (.all u) rfl)).nodeInit (hu (.run u) rfl)).nodeInit (hu (.wait u) rfl)
  have hpub := hinit.publish hu
  rw [heq, taskPublish, taskSetReady, if_neg hi]
  simp only [insertLast_lists, setTask_lists, taskFields, hset]
  exact hpub

/-- 記述子を見つけた `task_init` の後の GDT とタスク。 -/
theorem MutexAvailable.taskInit_found (hm : k.MutexAvailable .gdt) (u : TaskId) (a : InitArgs) {i : Nat}
    (hfind : gdtFindFree k.gdt (GDT_TABLE_SIZE - 1) 1 = some i) :
    (k.taskInit u a).gdt = segmentDescSet k.gdt (i * 8) (k.tssAddr u) sizeofTss
        (SEG_P_PRESENT ||| SEG_DPL0 ||| SEG_TYPE_TSS) ∧
      ((k.taskInit u a).tasks u).tssSel = (i * 8 : Nat) ∧ (k.taskInit u a).tssAddr = k.tssAddr ∧
      ∀ t ≠ u, ((k.taskInit u a).tasks t).tssSel = (k.tasks t).tssSel := by
  obtain ⟨x, -, heq⟩ := hm.taskInit_eq u a
  rw [heq, hfind]
  generalize hs : (k.setMutex .gdt x).tssSet u a (some i) = s
  have hgdt : s.gdt = segmentDescSet k.gdt (i * 8) (k.tssAddr u) sizeofTss
      (SEG_P_PRESENT ||| SEG_DPL0 ||| SEG_TYPE_TSS) := by rw [← hs]; rfl
  have hsel : (s.tasks u).tssSel = (i * 8 : Nat) := by rw [← hs]; simp [tssSet, tssFields, setTask_tasks]
  obtain ⟨-, -, -, -, haddr, htasks⟩ := tssSet_frame (k.setMutex .gdt x) u a (some i)
  rw [hs] at haddr htasks
  obtain ⟨-, -, -, fg, fa, ft⟩ := taskFields_frame s u a
  obtain ⟨-, -, -, pg, pa, pc⟩ := taskPublish_frame (s.taskFields u a) u
  have hpub : ∀ t, (((s.taskFields u a).taskPublish u).tasks t).tssSel = ((s.taskFields u a).tasks t).tssSel :=
    fun t => (cores_ext (congrFun pc t)).2.2.2
  refine ⟨by rw [pg, fg, hgdt], ?_, by rw [pa, fa, haddr]; rfl, fun t ht => by rw [hpub, ft t ht, htasks t ht]; rfl⟩
  rw [hpub, ← hsel]
  simp [taskFields, setTask_tasks]

theorem listInsertLast_list_of_ne (s : Heap) {l l' : ListId} (hne : l' ≠ l) (n : Node) :
    (s.listInsertLast l n).list l' = s.list l' := by
  unfold ListHeap.listInsertLast
  split <;> exact Function.update_of_ne hne _ _

/-- `task_init` の後も、GDT のミューテックスでは待たされない。 -/
theorem MutexAvailable.taskInit (hm : k.MutexAvailable .gdt) (u : TaskId) (a : InitArgs) :
    (k.taskInit u a).MutexAvailable .gdt := by
  obtain ⟨x, havail, heq⟩ := hm.taskInit_eq u a
  rw [heq]
  generalize gdtFindFree k.gdt (GDT_TABLE_SIZE - 1) 1 = r
  obtain ⟨sl, sc, sm, -⟩ := tssSet_frame (k.setMutex .gdt x) u a r
  generalize (k.setMutex .gdt x).tssSet u a r = s at sl sc sm ⊢
  obtain ⟨fc, fm, -⟩ := taskFields_frame s u a
  obtain ⟨pc, pm, -⟩ := taskPublish_frame (s.taskFields u a) u
  have hcount : ListStore.count ((s.taskFields u a).taskPublish u).lists (.wait (.mutex .gdt)) =
      ListStore.count (k.setMutex .gdt x).lists (.wait (.mutex .gdt)) := by
    have hsl : ListStore.count s.lists (.wait (.mutex .gdt)) =
        ListStore.count (k.setMutex .gdt x).lists (.wait (.mutex .gdt)) := by rw [sl]
    rw [← hsl, taskPublish, taskSetReady]
    split
    · exact congrArg ListHead.count (listInsertLast_list_of_ne _ (by simp) _)
    · refine congrArg ListHead.count ((listInsertLast_list_of_ne _ (by simp) _).trans ?_)
      exact listInsertLast_list_of_ne _ (by simp) _
  rw [MutexAvailable, pc, fc, sc, pm, fm, sm, hcount]
  exact havail

/-! ## 一回の呼び出し -/

/-- タスク `t` の `tss_sel` の指す記述子が、`&task->tss` を基底とする TSS の記述子である。 -/
def HasTssDesc (k : Kernel Heap) (t : TaskId) : Prop :=
  ∃ i : Nat, 1 ≤ i ∧ i < GDT_TABLE_SIZE ∧ (k.tasks t).tssSel = (i * 8 : Nat) ∧
    (k.gdt i).attr = SEG_P_PRESENT ||| SEG_DPL0 ||| SEG_TYPE_TSS ∧ (k.gdt i).base = k.tssAddr t

/-- `task_init` がきれいに失敗し、またはきれいに成功する。 -/
structure CleanInit (k : Kernel Heap) (u : TaskId) (a : InitArgs) (rd tl : List Node) : Prop where
  failed : ¬ HasFreeDesc k.gdt → (k.taskInitCall u a).1 ≠ 0 ∧ InitLists (k.taskInitCall u a).2.lists rd tl ∧
    (k.taskInitCall u a).2.gdt = k.gdt
  done : HasFreeDesc k.gdt → (k.taskInitCall u a).1 = 0 ∧
    InitLists (k.taskInitCall u a).2.lists (rd ++ [.run u]) (tl ++ [.all u]) ∧ (k.taskInitCall u a).2.HasTssDesc u

theorem hasTssDesc_taskInit (hm : k.MutexAvailable .gdt) (hfree : HasFreeDesc k.gdt) :
    (k.taskInit u a).HasTssDesc u := by
  obtain ⟨i, hfind, h₁, h₂, -⟩ := hfree.find
  obtain ⟨hgdt, hsel, haddr, -⟩ := hm.taskInit_found u a hfind
  obtain ⟨hattr, hbase, -⟩ := segmentDescSet_tss k.gdt i (k.tssAddr u)
  exact ⟨i, h₁, h₂, hsel, by rw [hgdt]; exact hattr, by rw [hgdt, haddr]; exact hbase⟩

theorem cleanInit_iff (a : InitArgs) (h : InitLists k.lists rd tl) (hu : Fresh u rd tl) (hi : u ≠ idleTask)
    (hm : k.MutexAvailable .gdt) : k.CleanInit u a rd tl ↔ HasFreeDesc k.gdt := by
  constructor
  · intro hclean
    by_contra hfull
    exact (hclean.failed hfull).1 rfl
  · intro hfree
    exact ⟨fun hfull => absurd hfree hfull, fun _ => ⟨rfl, h.taskInit hu hi hm, hasTssDesc_taskInit hm hfree⟩⟩

/-! ## 呼び出しの列 -/

/-- `task_init` の呼び出しの列。 -/
def taskInits (k : Kernel Heap) (calls : List (TaskId × InitArgs)) : Kernel Heap :=
  calls.foldl (fun k c => k.taskInit c.1 c.2) k

/-- `ready_list` のどのタスクも、自分だけの正しい TSS の記述子を持つ。 -/
structure OwnTss (k : Kernel Heap) (rd : List Node) : Prop where
  desc : ∀ t, .run t ∈ rd → k.HasTssDesc t
  apart : ∀ t u, .run t ∈ rd → .run u ∈ rd → t ≠ u → (k.tasks t).tssSel ≠ (k.tasks u).tssSel

/-- 空いていた記述子を使うので、前からあるタスクの記述子は変わらず、新しいタスクとは異なる選択子を指す。 -/
theorem HasTssDesc.taskInit {t : TaskId} (h : k.HasTssDesc t) (ht : t ≠ u) (hm : k.MutexAvailable .gdt)
    (hfree : HasFreeDesc k.gdt) : (k.taskInit u a).HasTssDesc t ∧
      ((k.taskInit u a).tasks t).tssSel = (k.tasks t).tssSel ∧
      ((k.taskInit u a).tasks t).tssSel ≠ ((k.taskInit u a).tasks u).tssSel := by
  obtain ⟨i, hfind, -, -, hfreei⟩ := hfree.find
  obtain ⟨hgdt, hsel, haddr, hother⟩ := hm.taskInit_found u a hfind
  obtain ⟨-, -, hkeep⟩ := segmentDescSet_tss k.gdt i (k.tssAddr u)
  obtain ⟨j, h₁, h₂, hsel', hattr, hbase⟩ := h
  have hij : j ≠ i := by
    rintro rfl
    rw [hfreei] at hattr
    exact absurd hattr (by decide)
  refine ⟨⟨j, h₁, h₂, by rw [hother t ht, hsel'], ?_, ?_⟩, hother t ht, ?_⟩
  · rw [hgdt, hkeep j hij]
    exact hattr
  · rw [hgdt, hkeep j hij, haddr]
    exact hbase
  · rw [hother t ht, hsel', hsel]
    omega

theorem OwnTss.taskInit (ho : k.OwnTss rd) (hu : Fresh u rd tl) (hm : k.MutexAvailable .gdt)
    (hfree : HasFreeDesc k.gdt) : (k.taskInit u a).OwnTss (rd ++ [.run u]) := by
  have hold : ∀ t, .run t ∈ rd → t ≠ u := by
    rintro t ht rfl
    exact (hu (.run t) rfl).1 ht
  have hsplit : ∀ t, .run t ∈ rd ++ [.run u] → .run t ∈ rd ∨ t = u := by simp
  constructor
  · intro t ht
    rcases hsplit t ht with ht | rfl
    · exact ((ho.desc t ht).taskInit (hold t ht) hm hfree).1
    · exact hasTssDesc_taskInit hm hfree
  · intro t v ht hv hne
    rcases hsplit t ht with ht | ht <;> rcases hsplit v hv with hv | hv
    · obtain ⟨-, h₁, -⟩ := (ho.desc t ht).taskInit (a := a) (hold t ht) hm hfree
      obtain ⟨-, h₂, -⟩ := (ho.desc v hv).taskInit (a := a) (hold v hv) hm hfree
      rw [h₁, h₂]
      exact ho.apart t v ht hv hne
    · rw [hv]
      exact ((ho.desc t ht).taskInit (hold t ht) hm hfree).2.2
    · rw [ht]
      exact ((ho.desc v hv).taskInit (hold v hv) hm hfree).2.2.symm
    · exact absurd (ht.trans hv.symm) hne

theorem Fresh.append {v : TaskId} (h : Fresh v rd tl) (hne : v ≠ u) : Fresh v (rd ++ [.run u]) (tl ++ [.all u]) := by
  intro n hn
  have hrun : n ≠ .run u := by rintro rfl; exact hne hn.symm
  have hall : n ≠ .all u := by rintro rfl; exact hne hn.symm
  simp [h n hn, hrun, hall]

/-- どの呼び出しにも空いている記述子があれば、列の後の `ready_list` のどのタスクも、自分だけの記述子を持つ。 -/
theorem ownTss_taskInits (calls : List (TaskId × InitArgs)) (h : InitLists k.lists rd tl) (ho : k.OwnTss rd)
    (hm : k.MutexAvailable .gdt) (hnd : (calls.map Prod.fst).Nodup)
    (hcalls : ∀ c ∈ calls, c.1 ≠ idleTask ∧ Fresh c.1 rd tl)
    (hfree : ∀ pre c post, calls = pre ++ c :: post → HasFreeDesc (k.taskInits pre).gdt) :
    InitLists (k.taskInits calls).lists (rd ++ calls.map (.run ·.1)) (tl ++ calls.map (.all ·.1)) ∧
      (k.taskInits calls).OwnTss (rd ++ calls.map (.run ·.1)) := by
  induction calls generalizing k rd tl with
  | nil => simpa [taskInits] using ⟨h, ho⟩
  | cons c calls ih =>
      obtain ⟨hi, hu⟩ := hcalls c (by simp)
      have hfree₀ : HasFreeDesc k.gdt := hfree [] c calls rfl
      obtain ⟨hc, hnd'⟩ := List.nodup_cons.mp hnd
      have hrest := ih (h.taskInit (a := c.2) hu hi hm) (ho.taskInit hu hm hfree₀) (hm.taskInit c.1 c.2) hnd'
        (fun d hd => ⟨(hcalls d (by simp [hd])).1, (hcalls d (by simp [hd])).2.append fun he => hc (by
          rw [← he]
          exact List.mem_map_of_mem hd)⟩)
        (fun pre d post hpre => hfree (c :: pre) d post (by rw [hpre]; rfl))
      simpa [taskInits] using hrest

/-- 割り込まれない `task_init` がきれいに失敗または成功するのは、空いている記述子があるとき、そのときに限る。どの呼び出しでもそう
である列の後では、`ready_list` のどのタスクも、自分だけの正しい TSS の記述子を持つ。 -/
theorem taskInit_clean_iff_hasFreeDesc (h : InitLists k.lists rd tl) (hm : k.MutexAvailable .gdt) :
    (∀ (u : TaskId) (a : InitArgs), Fresh u rd tl → u ≠ idleTask → (k.CleanInit u a rd tl ↔ HasFreeDesc k.gdt)) ∧
    ∀ calls : List (TaskId × InitArgs), k.OwnTss rd → (calls.map Prod.fst).Nodup →
      (∀ c ∈ calls, c.1 ≠ idleTask ∧ Fresh c.1 rd tl) →
      (∀ pre c post, calls = pre ++ c :: post → HasFreeDesc (k.taskInits pre).gdt) →
        InitLists (k.taskInits calls).lists (rd ++ calls.map (.run ·.1)) (tl ++ calls.map (.all ·.1)) ∧
          (k.taskInits calls).OwnTss (rd ++ calls.map (.run ·.1)) :=
  ⟨fun _ a hu hi => cleanInit_iff a h hu hi hm,
    fun calls ho hnd hcalls hfree => ownTss_taskInits calls h ho hm hnd hcalls hfree⟩

/-- どのリストも空であるカーネル。 -/
def emptyKernel (gdt : Gdt) : Kernel Heap where
  lists := ⟨fun _ => ⟨none, none⟩, fun _ => ⟨none, none, 0⟩⟩
  tasks := fun _ => {}
  currTask := firstTask
  mutexes := fun _ => ⟨nullTask, 0⟩
  sems := fun _ => 0
  gdt := gdt
  tssAddr := fun t => BitVec.ofNat 32 (0x10000 + 0x100 * t)

def zeroArgs : InitArgs := ⟨0, 0, fun _ => 0⟩

theorem initLists_emptyKernel (gdt : Gdt) : InitLists (emptyKernel gdt).lists [] [] :=
  ⟨⟨rfl, rfl, rfl, List.nodup_nil, trivial⟩, ⟨rfl, rfl, rfl, List.nodup_nil, trivial⟩, List.disjoint_nil_left _⟩

theorem fresh_nil (u : TaskId) : Fresh u [] [] := fun _ _ => by simp

theorem taskInit_clean_iff_hasFreeDesc_two :
    ((emptyKernel initGdt).CleanInit 2 zeroArgs [] [] ↔ HasFreeDesc initGdt) ∧
      InitLists ((emptyKernel initGdt).taskInits [(2, zeroArgs), (3, zeroArgs)]).lists
        [.run 2, .run 3] [.all 2, .all 3] ∧
      ((emptyKernel initGdt).taskInits [(2, zeroArgs), (3, zeroArgs)]).OwnTss [.run 2, .run 3] := by
  have h := taskInit_clean_iff_hasFreeDesc (initLists_emptyKernel initGdt) (.inl ⟨rfl, rfl⟩)
  refine ⟨h.1 2 zeroArgs (fresh_nil 2) (by decide),
    h.2 [(2, zeroArgs), (3, zeroArgs)] ⟨by simp, by simp⟩ (by decide) ?_ ?_⟩
  · intro c hc
    refine ⟨?_, fresh_nil c.1⟩
    rcases List.mem_pair.mp hc with rfl | rfl <;> decide
  · intro pre c post hpre
    rcases pre with _ | ⟨p, _ | ⟨q, pre⟩⟩
    · exact ⟨255, by decide, by decide, rfl⟩
    · obtain ⟨rfl, -⟩ := List.cons.inj hpre
      exact ⟨255, by decide, by decide, rfl⟩
    · have hlen := congrArg List.length hpre
      simp only [List.length_cons, List.length_nil, List.cons_append, List.length_append] at hlen
      omega

/-- 記述子がすべて使われていても、`task_init` は 0 を返す。 -/
theorem taskInit_full_gdt_not_clean :
    ¬ (emptyKernel fun _ => { attr := 0x89 }).CleanInit 2 zeroArgs [] [] := by
  intro h
  have hfull : ¬ HasFreeDesc fun _ => { attr := 0x89 } := by
    rintro ⟨i, -, -, hi⟩
    exact absurd hi (show (0x89 : BitVec 16) ≠ 0 by decide)
  exact (h.failed hfull).1 rfl

end Kernel

end IdealX86
