import IdealX86.Lib.Weave
import IdealX86.Machine.Lemmas.Console

/-!
# 混ぜ合わされた行

どの `log_printf` の呼び出しの行も、出力の中のそのバイトを集めると行の初めの部分であり、残りはちょうど一つのタスクの残りのコードの中に
ある。行が途中で分かれる実行でも成り立つ。
-/

namespace IdealX86

def Instr.line : Instr → Option (Nat × List Byte × List Byte)
  | .out _ n done bs => some (n, done, bs)
  | _ => none

/-- コード `p` の中の書きかけの行。番号と、もう書いたバイトと、まだ書いていないバイトである。 -/
def openLines (p : List Instr) : List (Nat × List Byte × List Byte) := p.filterMap Instr.line

def openIds (p : List Instr) : List Nat := (openLines p).map Prod.fst

@[simp] theorem openLines_nil : openLines [] = [] := rfl

theorem openLines_cons {i : Instr} (h : i.line = none) (p : List Instr) : openLines (i :: p) = openLines p :=
  List.filterMap_cons_none h

theorem openLines_out (f : Bool) (n : Nat) (done bs : List Byte) (p : List Instr) :
    openLines (.out f n done bs :: p) = (n, done, bs) :: openLines p := rfl

theorem openLines_logPrintf (f : Bool) (n : Nat) (s : List Byte) (p : List Instr) :
    openLines (logPrintf f n s ++ p) = (n, [], logLine s) :: openLines p := rfl

theorem openIds_out (f : Bool) (n : Nat) (done bs : List Byte) (p : List Instr) :
    openIds (.out f n done bs :: p) = n :: openIds p := rfl

theorem openIds_logPrintf (f : Bool) (n : Nat) (s : List Byte) (p : List Instr) :
    openIds (logPrintf f n s ++ p) = n :: openIds p := rfl

namespace Console

/-- 書きかけの行 `x` は、`x.1` 番の行を、出力の中のこの行のバイトの後で分けたものである。 -/
def SplitsAt (issued : List (List Byte)) (out : List (Nat × Byte)) (x : Nat × List Byte × List Byte) : Prop :=
  x.1 < issued.length ∧ Lib.part out x.1 = x.2.1 ∧ x.2.1 ++ x.2.2 = lineOf issued x.1

/-- どの行も、書き終えたか、ちょうど一つのタスクの残りのコードの中に一度だけあって、出力の中のその行のバイトは、行の初めの、もう書いた
部分である。 -/
structure Woven {σ : Type} (c : Console σ) : Prop where
  tags : ∀ x ∈ c.out, x.1 < c.issued.length
  begins : ∀ i < c.issued.length, Lib.part c.out i <+: lineOf c.issued i
  opened : ∀ t, ∀ x ∈ openLines (c.rest t), SplitsAt c.issued c.out x
  nodup : ∀ t, (openIds (c.rest t)).Nodup
  disjoint : ∀ t t' i, i ∈ openIds (c.rest t) → i ∈ openIds (c.rest t') → t = t'
  complete : ∀ i < c.issued.length, (∀ t, i ∉ openIds (c.rest t)) → Lib.part c.out i = lineOf c.issued i

section
variable {σ : Type} {c c' : Console σ} {p : List Instr} {f : Bool} {n : Nat} {l : ConsoleLabel}

theorem Woven.known (h : c.Woven) {t : TaskId} {i : Nat} (hi : i ∈ openIds (c.rest t)) : i < c.issued.length := by
  obtain ⟨x, hx, rfl⟩ := List.mem_map.mp hi
  exact (h.opened t x hx).1

theorem Woven.same (h : c.Woven) (ho : c'.out = c.out) (hi : c'.issued = c.issued)
    (hr : ∀ t, openLines (c'.rest t) = openLines (c.rest t)) : c'.Woven := by
  have hids : ∀ t, openIds (c'.rest t) = openIds (c.rest t) := fun t => congrArg (List.map Prod.fst) (hr t)
  refine ⟨?_, ?_, fun t => ?_, fun t => hids t ▸ h.nodup t, fun t t' => ?_, ?_⟩
  · rw [ho, hi]; exact h.tags
  · rw [ho, hi]; exact h.begins
  · rw [ho, hi, hr]; exact h.opened t
  · rw [hids, hids]; exact h.disjoint t t'
  · simp only [ho, hi, hids]; exact h.complete

theorem Woven.setRest (h : c.Woven) (ho : c'.out = c.out) (hi : c'.issued = c.issued)
    (hr : c'.rest = Function.update c.rest c.curr p) (hp : openLines p = openLines (c.rest c.curr)) :
    c'.Woven := by
  refine h.same ho hi fun t => ?_
  rw [hr, Function.update_apply]
  split
  · rename_i ht; rw [hp, ht]
  · rfl

theorem Woven.settle (h : c.Woven) (k : Kernel σ) (hp : openLines p = openLines (c.rest c.curr)) :
    (c.settle k p).Woven := by
  refine h.setRest rfl rfl rfl ?_
  split
  · exact hp
  · rw [openLines_cons rfl]; exact hp

/-- 今のタスクの残りのコードが `q` になったとき、番号が `n` のもののほかは増えないなら、番号は重ならない。 -/
theorem Woven.ids_update (h : c.Woven) {q : List Instr} (hq : (openIds q).Nodup)
    (hsub : ∀ i ∈ openIds q, i ∈ openIds (c.rest c.curr) ∨ c.issued.length ≤ i) :
    (∀ t, (openIds (Function.update c.rest c.curr q t)).Nodup) ∧
      ∀ t t' i, i ∈ openIds (Function.update c.rest c.curr q t) →
        i ∈ openIds (Function.update c.rest c.curr q t') → t = t' := by
  have hcases : ∀ t i, i ∈ openIds (Function.update c.rest c.curr q t) →
      i ∈ openIds (c.rest t) ∨ c.issued.length ≤ i ∧ t = c.curr := by
    intro t i hi
    by_cases ht : t = c.curr
    · subst ht
      rw [Function.update_self] at hi
      exact (hsub i hi).imp_right fun hle => ⟨hle, rfl⟩
    · rw [Function.update_of_ne ht] at hi
      exact .inl hi
  refine ⟨fun t => ?_, fun t t' i hi hi' => ?_⟩
  · by_cases ht : t = c.curr
    · subst ht; rw [Function.update_self]; exact hq
    · rw [Function.update_of_ne ht]; exact h.nodup t
  · rcases hcases t i hi with hm | ⟨hle, rfl⟩ <;> rcases hcases t' i hi' with hm' | ⟨hle', rfl⟩
    · exact h.disjoint t t' i hm hm'
    · exact absurd (h.known hm) (Nat.not_lt.mpr hle')
    · exact absurd (h.known hm') (Nat.not_lt.mpr hle)
    · rfl

variable [ListStore σ]

theorem Woven.print (h : c.Woven) {s : List Byte} (hr : c.rest c.curr = .print f s :: p) :
    (c.doRun p (.print f s)).Woven := by
  have hnil : Lib.part c.out c.issued.length = [] := Lib.part_eq_nil fun x hx => Nat.ne_of_lt (h.tags x hx)
  have hnew : ∀ t, c.issued.length ∉ openIds (c.rest t) := fun t hm => Nat.lt_irrefl _ (h.known hm)
  have hp : openLines p = openLines (c.rest c.curr) := by rw [hr, openLines_cons rfl]
  have hq : openIds (logPrintf f c.issued.length s ++ p) = c.issued.length :: openIds (c.rest c.curr) := by
    rw [openIds_logPrintf, openIds, hp]; rfl
  obtain ⟨hnodup, hdisjoint⟩ := h.ids_update (q := logPrintf f c.issued.length s ++ p)
    (hq ▸ List.nodup_cons.mpr ⟨hnew _, h.nodup _⟩) fun i hi => by
      rw [hq] at hi
      exact (List.mem_cons.mp hi).symm.imp_right fun he => Nat.le_of_eq he.symm
  -- 前の番号の行は変わらない。
  have hold : ∀ x, SplitsAt c.issued c.out x → SplitsAt (s :: c.issued) c.out x := fun x hx =>
    ⟨Nat.lt_succ_of_lt hx.1, hx.2.1, hx.2.2.trans (lineOf_cons hx.1 s).symm⟩
  refine ⟨fun x hx => Nat.lt_succ_of_lt (h.tags x hx), fun i hi => ?_, fun t x hx => ?_, hnodup, hdisjoint,
    fun i hi hn => ?_⟩
  · change Lib.part c.out i <+: lineOf (s :: c.issued) i
    rcases Nat.lt_succ_iff_lt_or_eq.mp hi with hlt | rfl
    · rw [lineOf_cons hlt]; exact h.begins i hlt
    · rw [hnil]; exact List.nil_prefix
  · change x ∈ openLines (Function.update c.rest c.curr (logPrintf f c.issued.length s ++ p) t) at hx
    by_cases ht : t = c.curr
    · subst ht
      rw [Function.update_self, openLines_logPrintf, hp] at hx
      rcases List.mem_cons.mp hx with rfl | hx
      · exact ⟨Nat.lt_succ_self _, hnil, (lineOf_new c.issued s).symm⟩
      · exact hold x (h.opened _ x hx)
    · rw [Function.update_of_ne ht] at hx
      exact hold x (h.opened t x hx)
  · change Lib.part c.out i = lineOf (s :: c.issued) i
    have hn : ∀ t, i ∉ openIds (Function.update c.rest c.curr (logPrintf f c.issued.length s ++ p) t) := hn
    rcases Nat.lt_succ_iff_lt_or_eq.mp hi with hlt | rfl
    · rw [lineOf_cons hlt]
      refine h.complete i hlt fun t hm => hn t ?_
      by_cases ht : t = c.curr
      · subst ht
        rw [Function.update_self, hq]
        exact List.mem_cons_of_mem _ hm
      · rwa [Function.update_of_ne ht]
    · refine absurd ?_ (hn c.curr)
      rw [Function.update_self, hq]
      exact List.mem_cons_self

omit [ListStore σ] in
theorem Woven.write (h : c.Woven) (c' : Console σ) {done bs : List Byte} {b : Byte}
    (hr : c.rest c.curr = .out f n done (b :: bs) :: p) (ho : c'.out = c.out ++ [(n, b)])
    (hi : c'.issued = c.issued) (hrest : c'.rest = Function.update c.rest c.curr (.out f n (done ++ [b]) bs :: p)) :
    c'.Woven := by
  have hids : openIds (c.rest c.curr) = n :: openIds p := by rw [hr, openIds_out]
  have hmem : n ∈ openIds (c.rest c.curr) := hids ▸ List.mem_cons_self
  obtain ⟨hlt, hpart, hline⟩ := h.opened c.curr (n, done, b :: bs) (by rw [hr, openLines_out]; simp)
  have hself : Lib.part (c.out ++ [(n, b)]) n = done ++ [b] := by simp [hpart]
  have hother : ∀ j, j ≠ n → Lib.part (c.out ++ [(n, b)]) j = Lib.part c.out j := fun j hj => by
    simp [Lib.part_singleton_of_ne hj]
  have hsame : ∀ t, openIds (c'.rest t) = openIds (c.rest t) := fun t => by
    rw [hrest, Function.update_apply]
    split
    · rename_i ht; rw [ht, hids, openIds_out]
    · rfl
  -- ほかの行は、どのタスクのものも変わらない。
  have hold : ∀ x, x.1 ≠ n → SplitsAt c.issued c.out x → SplitsAt c.issued (c.out ++ [(n, b)]) x :=
    fun x hx hs => ⟨hs.1, (hother _ hx).trans hs.2.1, hs.2.2⟩
  refine ⟨fun x hx => ?_, fun j hj => ?_, fun t x hx => ?_, fun t => hsame t ▸ h.nodup t, fun t t' i => ?_,
    fun j hj hn => ?_⟩
  · rw [hi]
    rw [ho] at hx
    rcases List.mem_append.mp hx with hx | hx
    · exact h.tags x hx
    · rw [List.mem_singleton.mp hx]; exact hlt
  · rw [hi] at hj
    rw [ho, hi]
    by_cases he : j = n
    · subst he
      exact ⟨bs, by rw [hself]; simpa using hline⟩
    · rw [hother j he]; exact h.begins j hj
  · rw [ho, hi]
    rw [hrest] at hx
    by_cases ht : t = c.curr
    · subst ht
      rw [Function.update_self, openLines_out] at hx
      rcases List.mem_cons.mp hx with rfl | hx
      · exact ⟨hlt, hself, by simpa using hline⟩
      · have hnot : n ∉ openIds p := (List.nodup_cons.mp (hids ▸ h.nodup c.curr)).1
        refine hold x (fun he => hnot (he ▸ List.mem_map_of_mem hx)) (h.opened c.curr x ?_)
        rw [hr, openLines_out]
        exact List.mem_cons_of_mem _ hx
    · rw [Function.update_of_ne ht] at hx
      exact hold x (fun he => ht (h.disjoint t c.curr n (he ▸ List.mem_map_of_mem hx) hmem)) (h.opened t x hx)
  · rw [hsame, hsame]; exact h.disjoint t t' i
  · rw [hi] at hj
    simp only [hsame] at hn
    rw [ho, hi, hother j fun he => hn c.curr (he ▸ hmem)]
    exact h.complete j hj hn

omit [ListStore σ] in
theorem Woven.finish (h : c.Woven) (c' : Console σ) {done : List Byte}
    (hr : c.rest c.curr = .out f n done [] :: p) (ho : c'.out = c.out) (hi : c'.issued = c.issued)
    (hrest : c'.rest = Function.update c.rest c.curr p) : c'.Woven := by
  have hlines : openLines (c.rest c.curr) = (n, done, []) :: openLines p := by rw [hr, openLines_out]
  have hids : openIds (c.rest c.curr) = n :: openIds p := by rw [hr, openIds_out]
  obtain ⟨-, hpart, hline⟩ := h.opened c.curr (n, done, []) (by rw [hlines]; simp)
  obtain ⟨hnodup, hdisjoint⟩ := h.ids_update (q := p) (List.nodup_cons.mp (hids ▸ h.nodup c.curr)).2
    fun i hm => .inl (hids ▸ List.mem_cons_of_mem _ hm)
  refine ⟨?_, ?_, fun t x hx => ?_, hrest ▸ hnodup, hrest ▸ hdisjoint, fun j hj hn => ?_⟩
  · rw [ho, hi]; exact h.tags
  · rw [ho, hi]; exact h.begins
  · rw [ho, hi]
    refine h.opened t x ?_
    rw [hrest, Function.update_apply] at hx
    split at hx
    · rename_i ht; rw [ht, hlines]; exact List.mem_cons_of_mem _ hx
    · exact hx
  · rw [hi] at hj
    rw [ho, hi]
    by_cases he : j = n
    · rw [he, hpart, ← hline, List.append_nil]
    · refine h.complete j hj fun t hm => hn t ?_
      rw [hrest, Function.update_apply]
      split
      · rename_i ht
        rw [ht, hids] at hm
        exact (List.mem_cons.mp hm).resolve_left he
      · exact hm

theorem Woven.doRun (h : c.Woven) {i : Instr} (hr : c.rest c.curr = i :: p) : (c.doRun p i).Woven := by
  have hp : i.line = none → openLines p = openLines (c.rest c.curr) := fun hi => by
    rw [hr, openLines_cons hi]
  cases i with
  | print f s => exact h.print hr
  | lock f => exact h.settle _ (hp rfl)
  | out f n done bs =>
      cases bs with
      | nil => exact h.finish (c.doRun p (.out f n done [])) hr rfl rfl rfl
      | cons b bs =>
          let c₁ : Console σ := { c.setRest (.out f n (done ++ [b]) bs :: p) with out := c.out ++ [(n, b)] }
          have h₁ : c₁.Woven := h.write c₁ hr rfl rfl rfl
          by_cases hb : bs = []
          · subst hb
            exact h₁.finish (c.doRun p (.out f n done [b])) (Function.update_self _ _ _) rfl rfl
              (by simp [c₁, Console.doRun, Console.setRest])
          · simpa only [Console.doRun, if_neg hb] using h₁
  | unlock f => exact h.settle _ (hp rfl)
  | dispatched u => exact h.setRest rfl rfl rfl ((openLines_cons rfl _).trans (hp rfl))
  | sliceEnd => exact h.settle _ (hp rfl)
  | tickSleep => exact h.settle _ (hp rfl)

theorem Step.woven (hst : c.Step l c') (h : c.Woven) : c'.Woven := by
  cases hst with
  | tick hi =>
      refine h.setRest rfl rfl rfl ?_
      unfold tickRest
      split <;> rfl
  | run i p hr => exact h.doRun hr
  | printf s hr ho hi => exact h.setRest rfl rfl rfl (by rw [hr]; rfl)
  | call x hr ho hi hx => exact h.settle _ (by rw [hr])
  | initStart u a hr ho hi hn hu => exact h.same rfl rfl fun t => rfl
  | initStep u a pc hr hc =>
      unfold doInit
      dsimp only
      split
      · have hcode : (c.setCode (.next u a (Kernel.initNext c.kernel.gdt pc))).Woven := h.same rfl rfl fun t => rfl
        refine hcode.settle _ ?_
        change openLines (initPrints pc) = openLines (c.rest c.curr)
        rw [hr]
        unfold initPrints
        split <;> rfl
      · exact h.same rfl rfl fun t => rfl

theorem woven_boot (lists : σ) (b : BootArgs) : (Console.boot lists b).Woven :=
  ⟨by simp [Console.boot], fun _ hi => absurd hi (Nat.not_lt_zero _), fun _ _ hx => (List.not_mem_nil hx).elim,
    fun _ => List.nodup_nil, fun _ _ _ hi => (List.not_mem_nil hi).elim, fun _ hi => absurd hi (Nat.not_lt_zero _)⟩

end

/-! ## 行の重なり -/

section
variable {σ : Type} {c : Console σ} {ids : List Nat} {part : List (Nat × Byte)}

theorem length_part_flatMap_tagged (issued : List (List Byte)) (ids : List Nat) (i : Nat) :
    (Lib.part (ids.flatMap (tagged issued)) i).length = ids.count i * (lineOf issued i).length := by
  induction ids with
  | nil => simp
  | cons j ids ih =>
      rw [List.flatMap_cons, Lib.part_append, List.length_append, ih, List.count_cons]
      by_cases he : j = i
      · subst he; simp [tagged, Lib.part_map_self, Nat.add_mul, Nat.add_comm]
      · simp [tagged, Lib.part_map_of_ne he, he]

theorem Woven.count_le (h : c.Woven) (ho : c.out = ids.flatMap (tagged c.issued) ++ part) {i : Nat}
    (hi : i < c.issued.length) :
    ids.count i * (lineOf c.issued i).length + (Lib.part part i).length ≤ (lineOf c.issued i).length := by
  have hle := (h.begins i hi).length_le
  rwa [ho, Lib.part_append, List.length_append, length_part_flatMap_tagged] at hle

/-- 書き終えた行の並びは、同じ呼び出しの行を二度含まない。 -/
theorem Woven.nodup_of_lines (h : c.Woven) (hids : ∀ i ∈ ids, i < c.issued.length)
    (ho : c.out = ids.flatMap (tagged c.issued) ++ part) : ids.Nodup := by
  refine List.nodup_iff_count_le_one.mpr fun i => ?_
  by_cases hi : i ∈ ids
  · have hle := h.count_le ho (hids i hi)
    exact Nat.le_of_mul_le_mul_right (by omega) (lineOf_length_pos c.issued i)
  · rw [List.count_eq_zero_of_not_mem hi]
    exact Nat.zero_le 1

/-- 書きかけの行は、書き終えた行の並びに含まれない。 -/
theorem Woven.not_mem_of_part (h : c.Woven) {i : Nat} (hi : i < c.issued.length)
    (ho : c.out = ids.flatMap (tagged c.issued) ++ part) (hp : Lib.part part i ≠ []) : i ∉ ids := by
  intro hm
  have hle := h.count_le ho hi
  have hone : 1 * (lineOf c.issued i).length ≤ ids.count i * (lineOf c.issued i).length :=
    Nat.mul_le_mul_right _ (List.count_pos_iff.mpr hm)
  have hpos := List.length_pos_iff.mpr hp
  omega

end

end Console

end IdealX86
