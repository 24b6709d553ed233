import IdealX86.Machine.Lemmas.Gdt
import IdealX86.Machine.SchedTheorems

/-!
# TSS の記述子の割り当て

並行する `task_init` が異なる記述子を得るための条件を示す。`gdt_alloc_desc` はミューテックスの中で空きを探すが、その記述子を
使用中にするのは後の `segment_desc_set` なので、その間にほかの探索が同じ記述子を見つけうる。
-/

namespace IdealX86

def started (ls : List Label) : List TaskId := ls.filterMap Label.starts

theorem started_cons (l : Label) (ls : List Label) : started (l :: ls) = l.starts.toList ++ started ls := by
  cases h : l.starts <;> simp [started, h]

namespace Machine

variable {node : Node → Lib.Link Node} {b : BootArgs} {ls ls₀ : List Label} {c c₀ c' : Machine Heap}
  {d d' : Machine Queues} {l : Label}

/-- `ts` のタスクの選択子は互いに異なり、それぞれの記述子は自分の TSS を指す。 -/
structure DistinctTss (c : Machine Heap) (ts : List TaskId) : Prop where
  distinct : ∀ u ∈ ts, ∀ v ∈ ts, u ≠ v → c.sel u ≠ c.sel v
  base : ∀ u ∈ ts, (c.kernel.gdt (c.sel u / 8).toNat).base = c.kernel.tssAddr u

theorem Sim.sel_eq (h : Sim c d) (u : TaskId) : c.sel u = d.sel u := by simp [sel, h.kernel.tasks]

theorem Sim.noClash_iff (h : Sim c d) (l : Label) : c.NoClash l ↔ d.NoClash l := by
  simp only [NoClash, h.code, h.curr, h.kernel.gdt]

/-! ## 重ならない実行 -/

theorem Sim.gdtInv_exec {g₀ : Gdt} {ts : List TaskId} (hs : Sim c d) (hd : d.Inv) (hg : GdtInv g₀ ts d)
    (hfree : (ts ++ started ls).length ≤ (freeEntries g₀).card)
    (hrun : Lib.exec Machine.step c ls = some c') (hcl : Lib.Along Machine.step NoClash c ls) :
    ∃ d', Sim c' d' ∧ d'.Inv ∧ GdtInv g₀ (ts ++ started ls) d' := by
  induction ls generalizing c d ts with
  | nil =>
      cases hrun
      exact ⟨d, hs, hd, by simpa [started] using hg⟩
  | cons l ls ih =>
      obtain ⟨c₁, h₁, h₂⟩ := Lib.exec_cons.mp hrun
      obtain ⟨d₁, hst₁, hs₁⟩ := hs.step hd h₁
      rw [started_cons, ← List.append_assoc] at hfree ⊢
      refine ih hs₁ (hd.step hst₁) ?_ hfree h₂ (hcl.2 c₁ h₁)
      refine (step_cases hst₁).gdtInv hd hg ?_ ((hs.noClash_iff l).mp hcl.1)
      simp only [List.length_append] at hfree
      omega

theorem gdtInv_start (hown : ∀ t, d.code t = .own) : GdtInv d.kernel.gdt [] d := by
  have hno : ∀ {t u a pc}, d.code t ≠ .init u a pc := fun {t _ _ _} hc => by rw [hown t] at hc; cases hc
  exact ⟨fun hc => absurd hc hno, nofun, nofun, nofun, fun hc => absurd hc hno, fun i hi => .inl hi, nofun,
    fun hc => absurd hc hno⟩

theorem Obtained.sel_of_published {u : TaskId} {i : Nat} (h : d.Inv) (ho : d.Obtained u i)
    (hp : u ∈ d.kernel.lists.task) : d.sel u = (i * 8 : Nat) := by
  cases ho with
  | held t a pc hc _ => exact absurd hp (h.fresh hc).2.1
  | stored hs _ => exact hs

/-! ## 重なった探索 -/

theorem Obtained.exec {u : TaskId} {i : Nat} (h : d.Inv) (hu : u ∈ d.used) (ho : d.Obtained u i)
    (hrun : Lib.exec Machine.step d ls = some d') : d'.Inv ∧ d'.Obtained u i := by
  have hr := Lib.exec_invariant (I := fun d : Machine Queues => d.Inv ∧ u ∈ d.used ∧ d.Obtained u i)
    (fun d l d' hd hst =>
      have hs := step_cases hst
      ⟨hs.inv hd.1, hs.used_mono u hd.2.1, (hs.gdtStep hd.1).obtained hd.1 hd.2.1 hd.2.2⟩) hrun ⟨h, hu, ho⟩
  exact ⟨hr.1, hr.2.2⟩

theorem clash_obtained (hst : d.step .initStep = some d') {u u' t : TaskId} {a a' : InitArgs}
    {i : Nat} {pc' : Kernel.InitPc} (hc : d.code d.curr = .init u a (.scan i)) (hlt : i < GDT_TABLE_SIZE)
    (h0 : (d.kernel.gdt i).attr = 0) (hne : t ≠ d.curr) (hc' : d.code t = .init u' a' pc')
    (hp : pc'.reserves = some i) : d'.Obtained u i ∧ d'.Obtained u' i := by
  have hcode : d'.code =
      Function.update d.code d.curr (.next u a (Kernel.initNext d.kernel.gdt (.scan i))) := by
    cases step_cases hst with
    | initStep v x pc hs hv => rw [hc] at hv; cases hv; exact (doInit_frame d u a _).1
  have hn : Kernel.initNext d.kernel.gdt (.scan i) = some (.unlock (some i)) := by
    simp [Kernel.initNext, hlt, h0]
  rw [hn] at hcode
  refine ⟨.held d.curr a (.unlock (some i)) ?_ rfl, .held t a' pc' ?_ ?_⟩
  · rw [hcode, Function.update_self]; rfl
  · rw [hcode, Function.update_of_ne hne]; exact hc'
  · cases pc' <;> first | exact hp | cases hp

theorem Sim.noClash_exec {T : TaskId → Prop} (hs : Sim c d) (hd : d.Inv)
    (hrun : Lib.exec Machine.step c ls = some c')
    (hT : ∀ {t u a pc}, d.code t = .init u a pc → T u) (hS : ∀ u ∈ started ls, T u)
    (hend : ∀ u, T u → u ∈ c'.tasksOf .task) (hdist : ∀ u v, T u → T v → u ≠ v → c'.sel u ≠ c'.sel v) :
    Lib.Along Machine.step NoClash c ls := by
  induction ls generalizing c d with
  | nil => trivial
  | cons l ls ih =>
      obtain ⟨c₁, h₁, h₂⟩ := Lib.exec_cons.mp hrun
      obtain ⟨d₁, hst₁, hs₁⟩ := hs.step hd h₁
      have hd₁ := hd.step hst₁
      rw [started_cons] at hS
      refine ⟨(hs.noClash_iff l).mpr ?_, fun c₂ hc₂ => ?_⟩
      · rintro u a i rfl hc hlt h0 t u' a' pc' hne hc' hp
        obtain ⟨ho, ho'⟩ := clash_obtained hst₁ hc hlt h0 hne hc' hp
        obtain ⟨d', hrun', hs', hd'⟩ := hs₁.exec hd₁ h₂
        have hmono := (step_cases hst₁).used_mono
        have hsel : ∀ {v}, T v → v ∈ d₁.used → d₁.Obtained v i → c'.sel v = (i * 8 : Nat) := by
          intro v hv hu hvo
          rw [hs'.sel_eq]
          refine (hvo.exec hd₁ hu hrun').2.sel_of_published hd' ?_
          have := hend v hv
          rwa [hs'.tasksOf_eq] at this
        have hu := hT hc
        have hu' := hT hc'
        refine hdist u u' hu hu' (fun he => hne (hd.unique hc' (he ▸ hc))) ?_
        rw [hsel hu (hmono _ (hd.fresh hc).1) ho, hsel hu' (hmono _ (hd.fresh hc').1) ho']
      · rw [h₁] at hc₂
        cases hc₂
        refine ih hs₁ hd₁ h₂ (fun {t u a pc} hc => ?_) fun u hu => hS u (List.mem_append_right _ hu)
        cases (step_cases hst₁).gdtStep hd with
        | quiet _ hcq _ _ => rw [hcq] at hc; exact hT hc
        | start v x hl _ _ hcs _ _ =>
            rw [hcs, Function.update_apply] at hc
            split at hc
            · cases hc; exact hS u (by simp [hl, Label.starts])
            · exact hT hc
        | init v x pc' hl ho hcn _ _ =>
            by_cases hv : u = v
            · subst hv; exact hT ho
            · rw [hcn] at hc
              exact hT ((code_update_iff hv (.inl ho) t a pc).mp hc)

/-! ## 必要十分な条件 -/

/-- `task_init` が一つも途中でない状態からの実行で、始まった `task_init` の数だけ記述子が空いていて、すべてが終わったとき、
選択子が互いに異なり記述子が自分の TSS を指すことは、探索がほかの `task_init` の見つけた書きかけの記述子に行き当たらないことと同値である。 -/
theorem distinctTss_iff (h : Reaches node b ls₀ c₀) (hown : ∀ t, c₀.code t = .own)
    (hfree : (started ls).length ≤ (freeEntries c₀.kernel.gdt).card)
    (hrun : Lib.exec Machine.step c₀ ls = some c) (hend : ∀ u ∈ started ls, u ∈ c.tasksOf .task) :
    DistinctTss c (started ls) ↔ Lib.Along Machine.step NoClash c₀ ls := by
  obtain ⟨d₀, -, hs, hd⟩ := h.sim
  rw [hs.code] at hown
  constructor
  · intro hdis
    refine hs.noClash_exec (T := (· ∈ started ls)) hd hrun (fun hc => ?_) (fun u hu => hu) hend
      fun u v hu hv hne => hdis.distinct u hu v hv hne
    rw [hown] at hc
    cases hc
  · intro hcl
    rw [hs.kernel.gdt] at hfree
    obtain ⟨d, hs', hd', hg⟩ := hs.gdtInv_exec hd (gdtInv_start hown) (by simpa using hfree) hrun hcl
    rw [List.nil_append] at hg
    have hpub : ∀ {u}, u ∈ started ls → u ∈ d.kernel.lists.task := fun hu => by
      have := hend _ hu
      rwa [hs'.tasksOf_eq] at this
    have hobt : ∀ {u}, u ∈ started ls → ∃ i, d.Obtained u i ∧ d.sel u = (i * 8 : Nat) := by
      intro u hu
      obtain ⟨i, ho⟩ := (hg.progress hu).resolve_left fun ⟨t, a, pc, hc, _⟩ => (hd'.fresh hc).2.1 (hpub hu)
      exact ⟨i, ho, ho.sel_of_published hd' (hpub hu)⟩
    refine ⟨fun u hu v hv hne he => hne ?_, fun u hu => ?_⟩
    · obtain ⟨i, ho, hsi⟩ := hobt hu
      obtain ⟨j, ho', hsj⟩ := hobt hv
      rw [hs'.sel_eq, hs'.sel_eq, hsi, hsj] at he
      obtain rfl : i = j := by omega
      exact hg.distinct hu hv ho ho'
    · obtain ⟨i, ho, hsi⟩ := hobt hu
      have hcm := (hg.content hu ho).resolve_left fun ⟨t, a, pc, hc, _⟩ => (hd'.fresh hc).2.1 (hpub hu)
      rw [hs'.sel_eq, hs'.kernel.gdt, hs'.kernel.tssAddr, hsi, show ((i * 8 : Nat) / 8 : Int).toNat = i by omega]
      exact hcm.base

end Machine

/-- `init_gdt` を済ませ、タスクごとに TSS の場所が異なる起動の引数。 -/
def BootArgs.kernel : BootArgs :=
  { BootArgs.zero with gdt := initGdt, tssAddr := fun t => BitVec.ofNat 32 (0x10000 + 0x100 * t) }

def sequentialRun : List Label := initRun 3 15 ++ initRun 4 16

/-- 最初のタスクがタスク 4 の生成で空きを見つけたところで時間片が尽き、タスク 3 がタスク 5 を生成する。その後で最初のタスクが続きを
実行する。 -/
def clashRun : List Label :=
  initRun 3 15 ++ initRun 4 8 ++ List.replicate 10 .tick ++ initRun 5 16 ++
    [.call .sysSchedYield, .resume] ++ List.replicate 8 .initStep

namespace Machine

theorem distinctTss_sequential :
    ∃ c, Lib.exec Machine.step (Machine.boot (Heap.empty fun _ => ⟨none, none⟩) .kernel) sequentialRun = some c ∧
      c.sel 3 = 40 ∧ c.sel 4 = 48 ∧
      Lib.Along Machine.step NoClash (Machine.boot (Heap.empty fun _ => ⟨none, none⟩) .kernel) sequentialRun := by
  obtain ⟨c, hc, hp⟩ := Option.any_eq_true _ _ |>.mp
    (show (Lib.exec Machine.step (Machine.boot (Heap.empty fun _ => ⟨none, none⟩) .kernel) sequentialRun).any
      (fun c => decide (c.sel 3 = 40 ∧ c.sel 4 = 48 ∧ (∀ u ∈ started sequentialRun, u ∈ c.tasksOf .task) ∧
        (∀ u ∈ started sequentialRun, ∀ v ∈ started sequentialRun, u ≠ v → c.sel u ≠ c.sel v) ∧
        ∀ u ∈ started sequentialRun, (c.kernel.gdt (c.sel u / 8).toNat).base = c.kernel.tssAddr u)) = true
      by decide +kernel)
  obtain ⟨h3, h4, hend, hd, hb⟩ := of_decide_eq_true hp
  have hr : Reaches (fun _ => ⟨none, none⟩) .kernel []
    (Machine.boot (Heap.empty fun _ => ⟨none, none⟩) .kernel) := rfl
  exact ⟨c, hc, h3, h4, (distinctTss_iff hr (fun _ => rfl) (by decide +kernel) hc hend).mp ⟨hd, hb⟩⟩

/-- 二つの `task_init` が同じ選択子を得る。 -/
theorem task_init_same_selector :
    ∃ c, Lib.exec Machine.step (Machine.boot (Heap.empty fun _ => ⟨none, none⟩) .kernel) clashRun = some c ∧
      (started clashRun).length ≤
        (freeEntries (Machine.boot (Heap.empty fun _ => ⟨none, none⟩) .kernel).kernel.gdt).card ∧
      (∀ u ∈ started clashRun, u ∈ c.tasksOf .task) ∧ c.sel 4 = 48 ∧ c.sel 5 = 48 ∧
      ¬ DistinctTss c (started clashRun) := by
  obtain ⟨c, hc, hp⟩ := Option.any_eq_true _ _ |>.mp
    (show (Lib.exec Machine.step (Machine.boot (Heap.empty fun _ => ⟨none, none⟩) .kernel) clashRun).any
      (fun c => decide ((∀ u ∈ started clashRun, u ∈ c.tasksOf .task) ∧ c.sel 4 = 48 ∧ c.sel 5 = 48)) = true
      by decide +kernel)
  obtain ⟨hend, h4, h5⟩ := of_decide_eq_true hp
  refine ⟨c, hc, by decide +kernel, hend, h4, h5, fun hd => ?_⟩
  exact hd.distinct 4 (by decide) 5 (by decide) (by decide) (h4.trans h5.symm)

end Machine

end IdealX86
