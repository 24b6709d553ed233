import IdealX86.Tools.Lemmas.ListRep

/-!
# `list.c` の定理

`list.c` の関数が有限の並びの上の操作になっていることを、一回の呼び出しと、`list_init` から始まる呼び出しの列とについて示す。
-/

namespace IdealX86

open Lib

variable {ι ν : Type} [DecidableEq ι] [DecidableEq ν]

inductive ListOp (ι ν : Type) where
  | init (l : ι)
  | insertFirst (l : ι) (n : ν)
  | insertLast (l : ι) (n : ν)
  | removeFirst (l : ι)
  | remove (l : ι) (n : ν)

/-- 関数の呼び出し。返す節と、呼び出しの後のヒープ。 -/
def ListHeap.apply (h : ListHeap ι ν) : ListOp ι ν → Option ν × ListHeap ι ν
  | .init l => (none, h.listInit l)
  | .insertFirst l n => (none, h.listInsertFirst l n)
  | .insertLast l n => (none, h.listInsertLast l n)
  | .removeFirst l => h.listRemoveFirst l
  | .remove l n => (some n, h.listRemove l n)

namespace ListOp

def list : ListOp ι ν → ι
  | .init l => l
  | .insertFirst l _ => l
  | .insertLast l _ => l
  | .removeFirst l => l
  | .remove l _ => l

def inserted : ListOp ι ν → Option ν
  | .insertFirst _ n => some n
  | .insertLast _ n => some n
  | _ => none

/-- 並びの上の操作。返す節と、操作の後の並び。 -/
def onSeq (xs : List ν) : ListOp ι ν → Option ν × List ν
  | .init _ => (none, [])
  | .insertFirst _ n => (none, n :: xs)
  | .insertLast _ n => (none, xs ++ [n])
  | .removeFirst _ => (xs.head?, xs.tail)
  | .remove _ n => (some n, xs.erase n)

/-- 呼び出しの前提。つなぐ節はまだそのリストになく、外す節はそのリストにある。 -/
def Ok (xs : List ν) : ListOp ι ν → Prop
  | .insertFirst _ n => n ∉ xs
  | .insertLast _ n => n ∉ xs
  | .remove _ n => n ∈ xs
  | _ => True

/-- 並び `xs` を表すリストの上の呼び出しが、並びの上の操作になっている。 -/
structure Refines (op : ListOp ι ν) (h : ListHeap ι ν) (xs : List ν) : Prop where
  ret : (h.apply op).1 = (op.onSeq xs).1
  isList : IsList (h.apply op).2.node ((h.apply op).2.list op.list) (op.onSeq xs).2
  unlinked : ∀ n, (op.onSeq xs).1 = some n → (h.apply op).2.node n = ⟨none, none⟩
  empty : xs = [] → op = .removeFirst op.list → (h.apply op).2 = h
  /-- 節を共有しないほかのリストは、そのまま残る。 -/
  frame : ∀ l ≠ op.list, ∀ ys, IsList h.node (h.list l) ys → (∀ y ∈ ys, y ∉ xs ∧ op.inserted ≠ some y) →
    (h.apply op).2.list l = h.list l ∧ (∀ y ∈ ys, (h.apply op).2.node y = h.node y) ∧
      IsList (h.apply op).2.node ((h.apply op).2.list l) ys

end ListOp

variable {op : ListOp ι ν} {h : ListHeap ι ν} {xs : List ν}

/-- 呼び出しが触れるのは、操作するリストとその節、そしてつなぐ節だけである。 -/
theorem IsList.apply_touches (hl : IsList h.node (h.list op.list) xs) (hok : op.Ok xs) :
    h.Touches (h.apply op).2 op.list (op.inserted.toList ++ xs) := by
  cases op with
  | init l =>
      have ht := listInit_touches h l
      exact ⟨ht.list, fun x _ => ht.node x (by simp)⟩
  | insertFirst l n => exact hl.insertFirst_touches
  | insertLast l n => exact hl.insertLast_touches
  | removeFirst l =>
      replace hl : IsList h.node (h.list l) xs := hl
      cases xs with
      | nil =>
          simp only [ListHeap.apply, hl.removeFirst_nil]
          exact ⟨fun _ _ => rfl, fun _ _ => rfl⟩
      | cons n xs =>
          have hl' : IsList h.node (h.list l) ([] ++ n :: xs) := hl
          simp only [ListHeap.apply, hl.removeFirst_cons]
          exact hl'.remove_touches
  | remove l n =>
      obtain ⟨as, bs, rfl⟩ := List.append_of_mem hok
      exact hl.remove_touches

theorem IsList.apply (hl : IsList h.node (h.list op.list) xs) (hok : op.Ok xs) :
    IsList (h.apply op).2.node ((h.apply op).2.list op.list) (op.onSeq xs).2 := by
  cases op with
  | init l => exact listInit_isList h l
  | insertFirst l n => exact hl.insertFirst hok
  | insertLast l n => exact hl.insertLast hok
  | removeFirst l =>
      replace hl : IsList h.node (h.list l) xs := hl
      cases xs with
      | nil =>
          simp only [ListHeap.apply, hl.removeFirst_nil]
          exact hl
      | cons n xs =>
          have hl' : IsList h.node (h.list l) ([] ++ n :: xs) := hl
          simp only [ListHeap.apply, hl.removeFirst_cons]
          exact hl'.remove
  | remove l n =>
      obtain ⟨as, bs, rfl, hn⟩ := List.eq_append_cons_of_mem hok
      simp only [ListOp.onSeq, List.erase_append_right _ hn, List.erase_cons_head]
      exact hl.remove

theorem IsList.apply_ret (hl : IsList h.node (h.list op.list) xs) :
    (h.apply op).1 = (op.onSeq xs).1 ∧
      ∀ n, (op.onSeq xs).1 = some n → (h.apply op).2.node n = ⟨none, none⟩ := by
  cases op with
  | init l => exact ⟨rfl, by simp [ListOp.onSeq]⟩
  | insertFirst l n => exact ⟨rfl, by simp [ListOp.onSeq]⟩
  | insertLast l n => exact ⟨rfl, by simp [ListOp.onSeq]⟩
  | removeFirst l =>
      replace hl : IsList h.node (h.list l) xs := hl
      cases xs with
      | nil =>
          simp only [ListHeap.apply, hl.removeFirst_nil]
          exact ⟨rfl, by simp [ListOp.onSeq]⟩
      | cons n xs =>
          simp only [ListHeap.apply, hl.removeFirst_cons, ListOp.onSeq, List.head?_cons, true_and]
          rintro n' ⟨rfl⟩
          exact listRemove_node h l n
  | remove l n =>
      refine ⟨rfl, ?_⟩
      rintro n' ⟨rfl⟩
      exact listRemove_node h l n

theorem IsList.refines (hl : IsList h.node (h.list op.list) xs) (hok : op.Ok xs) : op.Refines h xs := by
  have ht := hl.apply_touches hok
  refine ⟨hl.apply_ret.1, hl.apply hok, hl.apply_ret.2, ?_, fun l hne ys hy hd => ?_⟩
  · rintro rfl he
    rw [he] at hl ⊢
    simp only [ListHeap.apply, ListOp.list] at hl ⊢
    rw [hl.removeFirst_nil]
  · have hys : ∀ y ∈ ys, y ∉ op.inserted.toList ++ xs := by
      intro y hy
      simp only [List.mem_append, Option.mem_toList, not_or]
      exact ⟨(hd y hy).2, (hd y hy).1⟩
    exact ⟨ht.list l hne, fun y hy => ht.node y (hys y hy), ht.isList hne hy hys⟩

/-! ## 呼び出しの列 -/

/-- 任意のヒープから始まる呼び出しの列。`q` は、`list_init` を済ませたリストの表すはずの並びである。つなぐ節は、
どのリストにもあってはならない。 -/
inductive ListRun : ListHeap ι ν → (ι → Option (List ν)) → Prop where
  | start (h : ListHeap ι ν) : ListRun h fun _ => none
  | init {h : ListHeap ι ν} {q : ι → Option (List ν)} (l : ι) :
      ListRun h q → ListRun (h.listInit l) (Function.update q l (some []))
  | call {h : ListHeap ι ν} {q : ι → Option (List ν)} {xs : List ν} (op : ListOp ι ν) :
      ListRun h q → q op.list = some xs → op.Ok xs →
      (∀ n l ys, op.inserted = some n → q l = some ys → n ∉ ys) →
      ListRun (h.apply op).2 (Function.update q op.list (some (op.onSeq xs).2))

variable {q : ι → Option (List ν)}

omit [DecidableEq ι] in
theorem ListOp.onSeq_subset (op : ListOp ι ν) (xs : List ν) :
    (op.onSeq xs).2 ⊆ op.inserted.toList ++ xs := by
  cases op with
  | init l => simp [onSeq]
  | insertFirst l n => simp [onSeq, inserted]
  | insertLast l n => simp [onSeq, inserted]
  | removeFirst l => simpa [onSeq, inserted] using (List.tail_sublist xs).subset
  | remove l n => simpa [onSeq, inserted] using List.erase_subset

theorem ListHeap.Holds.call (hq : h.Holds q) (hx : q op.list = some xs) (hok : op.Ok xs)
    (hn : ∀ n l ys, op.inserted = some n → q l = some ys → n ∉ ys) :
    (h.apply op).2.Holds (Function.update q op.list (some (op.onSeq xs).2)) := by
  have hl := hq.isList _ _ hx
  refine hq.update (hl.apply_touches hok) (hl.apply hok) (op.onSeq_subset xs) fun l' zs hne hz y hy hy' => ?_
  rcases List.mem_append.mp hy with hy | hy
  · exact hn y l' zs (by simpa using hy) hz hy'
  · exact hq.disjoint _ _ _ _ hx hz (Ne.symm hne) hy hy'

theorem ListRun.holds (hr : ListRun h q) : h.Holds q := by
  induction hr with
  | start h => exact ⟨by simp, by simp⟩
  | init l _ ih => exact ih.update (listInit_touches _ l) (listInit_isList _ l) (by simp) (by simp)
  | call op _ hx hok hn ih => exact ih.call hx hok hn

/-- 並びを表すリストの上のどの呼び出しも、並びの上の操作になっている。したがって、`list_init` から始まるどの呼び出しの
列の後でも、リストはそれぞれの並びを表し、次の呼び出しについても同じことが言える。 -/
theorem list_refines_sequence :
    (∀ (h : ListHeap ι ν) (op : ListOp ι ν) xs,
      IsList h.node (h.list op.list) xs → op.Ok xs → op.Refines h xs) ∧
    ∀ (h : ListHeap ι ν) q, ListRun h q → h.Holds q ∧
      ∀ (op : ListOp ι ν) xs, q op.list = some xs → op.Ok xs → op.Refines h xs :=
  ⟨fun _ _ _ hl hok => hl.refines hok, fun _ _ hr =>
    ⟨hr.holds, fun _ _ hx hok => (hr.holds.isList _ _ hx).refines hok⟩⟩

/-- 初期化していないメモリの上で、`list_init` の後に三つの節をつなぎ、中の一つを外す。 -/
theorem list_refines_sequence_remove_middle :
    ∃ h : ListHeap Unit (Fin 3), ListRun h (fun _ => some [2, 1]) ∧
      h.Holds fun _ => some [2, 1] := by
  have h₀ := (ListRun.start (⟨fun _ => ⟨some 2, some 2⟩, fun _ => ⟨some 1, none, 7⟩⟩ : ListHeap Unit (Fin 3))).init ()
  have h₁ := ListRun.call (.insertLast () 0) h₀ rfl (by simp [ListOp.Ok]) (by simp)
  have h₂ := ListRun.call (.insertLast () 1) h₁ rfl (by simp [ListOp.Ok, ListOp.onSeq])
    (by simp [ListOp.inserted, ListOp.list, ListOp.onSeq])
  have h₃ := ListRun.call (.insertFirst () 2) h₂ rfl (by simp [ListOp.Ok, ListOp.onSeq])
    (by simp [ListOp.inserted, ListOp.list, ListOp.onSeq])
  have h₄ := ListRun.call (.remove () 0) h₃ rfl (by simp [ListOp.Ok, ListOp.onSeq]) (by simp [ListOp.inserted])
  rw [show Function.update _ _ _ = fun _ : Unit => some ([2, 1] : List (Fin 3)) from funext fun _ => rfl] at h₄
  exact ⟨_, h₄, (list_refines_sequence.2 _ _ h₄).1⟩

end IdealX86
