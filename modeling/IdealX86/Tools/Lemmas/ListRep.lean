import IdealX86.Tools.List

/-!
# リストが表す並び

`list.c` の操作が、リストの表す並びの上の操作になっていることを示す。操作ごとに一つの補題を置き、
スケジューラの証明はこれらの補題だけを使う。
-/

namespace IdealX86

open Lib

variable {ι ν : Type}

/-- `list_t` が、整った双方向リストとして並び `xs` を表す。 -/
structure IsList (node : ν → Link ν) (lst : ListHead ν) (xs : List ν) : Prop where
  first : lst.first = xs.head?
  last : lst.last = xs.getLast?
  count : lst.count = xs.length
  nodup : xs.Nodup
  seg : Seg node none xs none

/-- すべてのリストが `q` の並びを表し、異なるリストは節を共有しない。 -/
structure ListHeap.Rep (h : ListHeap ι ν) (q : ι → List ν) : Prop where
  isList : ∀ l, IsList h.node (h.list l) (q l)
  disjoint : ∀ l l' x, x ∈ q l → x ∈ q l' → l = l'

/-- 済ませたリストはそれぞれの並びを表し、節を共有しない。`q` が `none` のリストは、まだ初期化されていない。 -/
structure ListHeap.Holds (h : ListHeap ι ν) (q : ι → Option (List ν)) : Prop where
  isList : ∀ l xs, q l = some xs → IsList h.node (h.list l) xs
  disjoint : ∀ l l' xs ys, q l = some xs → q l' = some ys → l ≠ l' → xs.Disjoint ys

theorem IsList.congr {node node' : ν → Link ν} {lst : ListHead ν} {xs : List ν}
    (h : IsList node lst xs) (hn : ∀ x ∈ xs, node' x = node x) : IsList node' lst xs :=
  ⟨h.first, h.last, h.count, h.nodup, h.seg.congr hn⟩

theorem IsList.isEmpty_iff {node : ν → Link ν} {lst : ListHead ν} {xs : List ν}
    (h : IsList node lst xs) : lst.count = 0 ↔ xs = [] := by
  rw [h.count]
  simp

variable {h h' : ListHeap ι ν} {q : ι → List ν} {l : ι} {n : ν} {xs ys : List ν}

namespace ListHeap.Rep

theorem count_eq (hr : h.Rep q) (l : ι) : h.listCount l = (q l).length := (hr.isList l).count

theorem first_eq (hr : h.Rep q) (l : ι) : h.listFirst l = (q l).head? := (hr.isList l).first

theorem next_eq (hr : h.Rep q) {xs ys : List ν} (hx : q l = xs ++ n :: ys) :
    h.listNodeNext n = ys.head? := by
  have hs := (hr.isList l).seg
  rw [hx] at hs
  simp [listNodeNext, hs.link]

theorem follow_eq {node : ν → Link ν} {xs : List ν} {p : Option ν} (hs : Seg node p xs none) :
    follow node xs.length xs.head? = xs := by
  induction xs generalizing p with
  | nil => rfl
  | cons x xs ih =>
      have hx := hs.1
      simp only [List.length_cons, List.head?_cons, follow, hx, Option.or_none, ih hs.2]

theorem nodes_eq (hr : h.Rep q) (l : ι) : h.nodes l = q l := by
  have hl := hr.isList l
  simp only [nodes, hl.count, hl.first, Int.toNat_natCast]
  exact follow_eq hl.seg

theorem not_mem_of_ne (hr : h.Rep q) {x : ν} (hx : x ∈ q l) {l' : ι} (hl : l' ≠ l) : x ∉ q l' :=
  fun h' => hl (hr.disjoint l' l x h' hx)

end ListHeap.Rep

/-! ## 一つのリストの上の操作 -/

/-- `h` から `h'` への書き換えは、リスト `l` と節 `xs` のほかに触れない。 -/
structure ListHeap.Touches (h h' : ListHeap ι ν) (l : ι) (xs : List ν) : Prop where
  list : ∀ l' ≠ l, h'.list l' = h.list l'
  node : ∀ x ∉ xs, h'.node x = h.node x

theorem ListHeap.Touches.isList (ht : h.Touches h' l xs) {l' : ι} (hl : l' ≠ l)
    (hi : IsList h.node (h.list l') ys) (hd : ∀ y ∈ ys, y ∉ xs) :
    IsList h'.node (h'.list l') ys := by
  rw [ht.list l' hl]
  exact hi.congr fun y hy => ht.node y (hd y hy)

section
variable [DecidableEq ι]

theorem listInit_isList (h : ListHeap ι ν) (l : ι) :
    IsList (h.listInit l).node ((h.listInit l).list l) [] := by
  simp only [ListHeap.listInit, Function.update_self]
  exact ⟨rfl, rfl, rfl, List.nodup_nil, trivial⟩

theorem listInit_touches (h : ListHeap ι ν) (l : ι) : h.Touches (h.listInit l) l [] :=
  ⟨fun _ hl => Function.update_of_ne hl _ _, fun _ _ => rfl⟩

variable [DecidableEq ν]

/-- 新しい節のリンクを書いても、その節を含まない並びは変わらない。 -/
theorem seg_update {node : ν → Link ν} {p nx : Option ν} (hs : Seg node p xs nx) (hn : n ∉ xs)
    (v : Link ν) : Seg (Function.update node n v) p xs nx :=
  hs.congr fun x hx => Function.update_of_ne (fun e : x = n => hn (e ▸ hx)) _ _

theorem IsList.insertLast (hl : IsList h.node (h.list l) xs) (hn : n ∉ xs) :
    IsList (h.listInsertLast l n).node ((h.listInsertLast l n).list l) (xs ++ [n]) := by
  have hnd : (xs ++ [n]).Nodup :=
    List.nodup_append.mpr ⟨hl.nodup, List.nodup_singleton n, by
      rintro x hx y hy rfl; exact hn (by rwa [List.mem_singleton.mp hy] at hx)⟩
  unfold ListHeap.listInsertLast ListHeap.listIsEmpty
  by_cases he : xs = []
  · have hc : (h.list l).count = 0 := hl.isEmpty_iff.mpr he
    have hlast : (h.list l).last = none := by rw [hl.last, he]; rfl
    simp only [hc, beq_self_eq_true, ↓reduceIte, hlast, Function.update_self]
    exact ⟨by simp [he], by simp, by simp [he], hnd, by simp [he, Seg]⟩
  · have hc : ((h.list l).count == 0) = false := by
      rw [beq_eq_false_iff_ne]; exact fun hc => he (hl.isEmpty_iff.mp hc)
    simp only [hc, Bool.false_eq_true, ↓reduceIte, Function.update_self]
    refine ⟨?_, by simp, by simp [hl.count], hnd, seg_append.mpr ⟨?_, ?_, trivial⟩⟩
    · rw [hl.first, List.head?_append_of_ne_nil _ he]
    · rw [hl.last]
      exact (seg_update hl.seg hn _).setNext hl.nodup
    · rw [setNext_of_ne]
      · simp [hl.last]
      · rw [hl.last]
        exact fun e => hn (List.mem_of_getLast? e)

theorem IsList.insertLast_touches (hl : IsList h.node (h.list l) xs) :
    h.Touches (h.listInsertLast l n) l (n :: xs) := by
  unfold ListHeap.listInsertLast
  split
  · refine ⟨fun _ hl' => Function.update_of_ne hl' _ _, fun x hx => ?_⟩
    exact Function.update_of_ne (fun e => hx (by simp [e])) _ _
  · refine ⟨fun _ hl' => Function.update_of_ne hl' _ _, fun x hx => ?_⟩
    simp only
    rw [setNext_of_ne, Function.update_of_ne (fun e => hx (by simp [e]))]
    rw [hl.last]
    exact fun e => hx (by simp [List.mem_of_getLast? e])

theorem IsList.insertFirst (hl : IsList h.node (h.list l) xs) (hn : n ∉ xs) :
    IsList (h.listInsertFirst l n).node ((h.listInsertFirst l n).list l) (n :: xs) := by
  have hnd : (n :: xs).Nodup := List.nodup_cons.mpr ⟨hn, hl.nodup⟩
  unfold ListHeap.listInsertFirst ListHeap.listIsEmpty
  by_cases he : xs = []
  · have hc : (h.list l).count = 0 := hl.isEmpty_iff.mpr he
    have hfirst : (h.list l).first = none := by rw [hl.first, he]; rfl
    simp only [hc, beq_self_eq_true, ↓reduceIte, hfirst, Function.update_self]
    exact ⟨by simp, by simp [he], by simp [he], hnd, by simp [he, Seg]⟩
  · have hc : ((h.list l).count == 0) = false := by
      rw [beq_eq_false_iff_ne]; exact fun hc => he (hl.isEmpty_iff.mp hc)
    simp only [hc, Bool.false_eq_true, ↓reduceIte, Function.update_self]
    refine ⟨by simp, ?_, by simp [hl.count], hnd, ?_, ?_⟩
    · rw [hl.last, List.getLast?_cons_of_ne_nil he]
    · rw [setPre_of_ne]
      · simp [hl.first]
      · rw [hl.first]
        exact fun e => hn (List.mem_of_head? e)
    · rw [hl.first]
      exact (seg_update hl.seg hn _).setPre hl.nodup

theorem IsList.insertFirst_touches (hl : IsList h.node (h.list l) xs) :
    h.Touches (h.listInsertFirst l n) l (n :: xs) := by
  unfold ListHeap.listInsertFirst
  split
  · refine ⟨fun _ hl' => Function.update_of_ne hl' _ _, fun x hx => ?_⟩
    exact Function.update_of_ne (fun e => hx (by simp [e])) _ _
  · refine ⟨fun _ hl' => Function.update_of_ne hl' _ _, fun x hx => ?_⟩
    simp only
    rw [setPre_of_ne, Function.update_of_ne (fun e => hx (by simp [e]))]
    rw [hl.first]
    exact fun e => hx (by simp [List.mem_of_head? e])

theorem IsList.remove (hl : IsList h.node (h.list l) (xs ++ n :: ys)) :
    IsList (h.listRemove l n).node ((h.listRemove l n).list l) (xs ++ ys) := by
  have hnd := hl.nodup
  obtain ⟨hs₁, hn, hs₂⟩ := seg_append.mp hl.seg
  simp only [Option.or_none] at hn hs₂
  obtain ⟨hxs, hcons, hdis⟩ := List.nodup_append.mp hnd
  obtain ⟨hny, hys⟩ := List.nodup_cons.mp hcons
  have hnx : n ∉ xs := fun h' => hdis n h' n (by simp) rfl
  have hxy : ∀ x ∈ xs, x ∉ ys := fun x h₁ h₂ => hdis x h₁ x (by simp [h₂]) rfl
  have hlastx : xs.getLast? ≠ some n := fun e => hnx (List.mem_of_getLast? e)
  have hfirst : (if some n = (h.list l).first then ys.head? else (h.list l).first) =
      (xs ++ ys).head? := by
    rw [hl.first]
    cases xs with
    | nil => simp
    | cons x xs =>
        have hne : n ≠ x := by rintro rfl; simp at hnx
        simp [hne]
  have hlast : (if some n = (h.list l).last then xs.getLast? else (h.list l).last) =
      (xs ++ ys).getLast? := by
    rw [hl.last]
    cases hy : ys.getLast? with
    | none => rw [List.getLast?_eq_none_iff] at hy; simp [hy]
    | some y =>
        have hyn : n ≠ y := by rintro rfl; exact hny (List.mem_of_getLast? hy)
        simp [List.getLast?_append, List.getLast?_cons, hy, hyn]
  -- 二つのリンクの書き換えは、それぞれ `xs` の最後の節と `ys` の最初の節だけに触れる。
  have hself : setNext h.node xs.getLast? ys.head? n = h.node n := setNext_of_ne hlastx
  unfold ListHeap.listRemove
  simp only [hn, hself, hfirst, hlast, Function.update_self]
  refine ⟨rfl, rfl, ?_, ((List.sublist_cons_self n ys).append_left xs).nodup hnd, seg_update ?_ ?_ _⟩
  · rw [hl.count]; simp; omega
  · refine seg_append.mpr ⟨?_, ?_⟩
    · rw [Option.or_none]
      refine (hs₁.setNext hxs).congr fun x hx => setPre_of_ne ?_
      exact fun e => hxy x hx (List.mem_of_head? e)
    · rw [Option.or_none]
      refine Seg.setPre (p := some n) (hs₂.congr fun x hx => setNext_of_ne ?_) hys
      exact fun e => hxy x (List.mem_of_getLast? e) hx
  · rw [List.mem_append]
    exact fun h' => h'.elim hnx hny

theorem IsList.remove_touches (hl : IsList h.node (h.list l) (xs ++ n :: ys)) :
    h.Touches (h.listRemove l n) l (xs ++ n :: ys) := by
  have hn := hl.seg.link
  simp only [Option.or_none] at hn
  have hnx : n ∉ xs := fun h' => (List.nodup_append.mp hl.nodup).2.2 n h' n (by simp) rfl
  have hself : setNext h.node xs.getLast? ys.head? n = h.node n :=
    setNext_of_ne fun e => hnx (List.mem_of_getLast? e)
  unfold ListHeap.listRemove
  simp only [hn, hself]
  refine ⟨fun _ hl' => Function.update_of_ne hl' _ _, fun x hx => ?_⟩
  simp only [List.mem_append, List.mem_cons, not_or] at hx
  simp only
  rw [Function.update_of_ne hx.2.1, setPre_of_ne, setNext_of_ne]
  · exact fun e => hx.1 (List.mem_of_getLast? e)
  · exact fun e => hx.2.2 (List.mem_of_head? e)

theorem listRemove_node (h : ListHeap ι ν) (l : ι) (n : ν) : (h.listRemove l n).node n = ⟨none, none⟩ :=
  Function.update_self _ _ _

theorem IsList.removeFirst_nil (hl : IsList h.node (h.list l) []) : h.listRemoveFirst l = (none, h) := by
  have hc : (h.list l).count = 0 := hl.count
  simp [ListHeap.listRemoveFirst, ListHeap.listIsEmpty, hc]

/-- 空でないリストでは、`list_remove_first` は先頭の節に `list_remove` を行うのと同じである。 -/
theorem IsList.removeFirst_cons (hl : IsList h.node (h.list l) (n :: xs)) :
    h.listRemoveFirst l = (some n, h.listRemove l n) := by
  have hc : ((h.list l).count == 0) = false := by
    rw [beq_eq_false_iff_ne, hl.count]; simp; omega
  have hf : (h.list l).first = some n := hl.first
  have hnode := hl.seg.1
  simp only [Option.or_none] at hnode
  have hlast : (if xs.head? = none then none else (h.list l).last) =
      if some n = (h.list l).last then none else (h.list l).last := by
    rw [hl.last]
    cases xs with
    | nil => simp
    | cons x xs =>
        have hne : some n ≠ (x :: xs).getLast? := fun e =>
          (List.nodup_cons.mp hl.nodup).1 (List.mem_of_getLast? e.symm)
        rw [List.getLast?_cons_cons, if_neg hne]
        rfl
  simp only [ListHeap.listRemoveFirst, ListHeap.listIsEmpty, hc, Bool.false_eq_true, ↓reduceIte, hf, hnode,
    ListHeap.listRemove, Lib.setNext, hlast]

end

/-! ## すべてのリストの表現の上の操作 -/

/-- ほかのリストにない節だけに触れる書き換えは、表現を保つ。 -/
theorem ListHeap.Holds.update [DecidableEq ι] {q : ι → Option (List ν)} (hq : h.Holds q)
    (ht : h.Touches h' l ys) (hl : IsList h'.node (h'.list l) xs) (hxs : xs ⊆ ys)
    (hd : ∀ l' zs, l' ≠ l → q l' = some zs → ys.Disjoint zs) :
    h'.Holds (Function.update q l (some xs)) := by
  constructor
  · intro l' zs hz
    by_cases he : l' = l
    · subst he
      rw [Function.update_self] at hz
      cases hz
      exact hl
    · rw [Function.update_of_ne he] at hz
      exact ht.isList he (hq.isList l' zs hz) fun y hy hy' => hd l' zs he hz hy' hy
  · intro l₁ l₂ as bs h₁ h₂ hne
    by_cases e₁ : l₁ = l
    · subst e₁
      rw [Function.update_self] at h₁
      cases h₁
      rw [Function.update_of_ne (Ne.symm hne)] at h₂
      exact List.disjoint_of_subset_left hxs (hd l₂ bs (Ne.symm hne) h₂)
    · rw [Function.update_of_ne e₁] at h₁
      by_cases e₂ : l₂ = l
      · subst e₂
        rw [Function.update_self] at h₂
        cases h₂
        exact fun y hy hx => hd l₁ as e₁ h₁ (hxs hx) hy
      · rw [Function.update_of_ne e₂] at h₂
        exact hq.disjoint l₁ l₂ as bs h₁ h₂ hne

/-- すべてのリストが初期化されている場合。 -/
theorem ListHeap.rep_iff_holds : h.Rep q ↔ h.Holds (some ∘ q) := by
  constructor
  · intro hr
    constructor
    · rintro l xs ⟨rfl⟩
      exact hr.isList l
    · rintro l l' xs ys ⟨rfl⟩ ⟨rfl⟩ hne x hx hy
      exact hne (hr.disjoint l l' x hx hy)
  · intro hq
    constructor
    · exact fun l => hq.isList l _ rfl
    · intro l l' x hx hy
      by_contra hne
      exact hq.disjoint l l' _ _ rfl rfl hne hx hy

namespace ListHeap.Rep

section
variable [DecidableEq ι]

/-- リスト `l` と、ほかのリストにない節だけに触れる書き換えは、ほかのリストの表現を保つ。 -/
theorem update (hr : h.Rep q) (ht : h.Touches h' l ys) (hl : IsList h'.node (h'.list l) xs)
    (hxs : ∀ x ∈ xs, x ∈ ys) (hdisj : ∀ x ∈ ys, ∀ l' ≠ l, x ∉ q l') :
    h'.Rep (Function.update q l xs) := by
  rw [rep_iff_holds] at hr ⊢
  rw [Function.comp_update]
  refine hr.update ht hl hxs ?_
  rintro l' zs hne ⟨rfl⟩ x hy hx
  exact hdisj x hy l' hne hx

theorem init (hr : h.Rep q) (l : ι) : (h.listInit l).Rep (Function.update q l []) :=
  hr.update (listInit_touches h l) (listInit_isList h l) (by simp) (by simp)

variable [DecidableEq ν]

omit [DecidableEq ι] in
theorem nodeInit (hr : h.Rep q) (hn : ∀ l, n ∉ q l) : (h.listNodeInit n).Rep q :=
  ⟨fun l => (hr.isList l).congr fun x hx =>
      Function.update_of_ne (fun e => hn l (by rw [← e]; exact hx)) _ _,
    hr.disjoint⟩

omit [DecidableEq ι] [DecidableEq ν] in
/-- リスト `l` の節と、どのリストにもない節は、ほかのリストにない。 -/
theorem not_mem_cons (hr : h.Rep q) (hn : ∀ l, n ∉ q l) : ∀ x ∈ n :: q l, ∀ l' ≠ l, x ∉ q l' := by
  intro x hx l' hl'
  rcases List.mem_cons.mp hx with rfl | hx
  · exact hn l'
  · exact hr.not_mem_of_ne hx hl'

theorem insertLast (hr : h.Rep q) (l : ι) (hn : ∀ l, n ∉ q l) :
    (h.listInsertLast l n).Rep (Function.update q l (q l ++ [n])) :=
  hr.update (hr.isList l).insertLast_touches ((hr.isList l).insertLast (hn l))
    (fun x hx => by simpa [or_comm] using hx) (hr.not_mem_cons hn)

theorem remove (hr : h.Rep q) {xs ys : List ν} (hx : q l = xs ++ n :: ys) :
    (h.listRemove l n).Rep (Function.update q l (xs ++ ys)) := by
  have hl := hr.isList l
  rw [hx] at hl
  refine hr.update hl.remove_touches hl.remove ?_ fun x hx' l' hl' => ?_
  · exact fun x hx' => ((List.sublist_cons_self n ys).append_left xs).subset hx'
  · exact hr.not_mem_of_ne (hx ▸ hx') hl'

theorem remove_erase (hr : h.Rep q) (hn : n ∈ q l) :
    (h.listRemove l n).Rep (Function.update q l ((q l).erase n)) := by
  obtain ⟨xs, ys, hx, hnx⟩ := List.eq_append_cons_of_mem hn
  rw [hx, List.erase_append_right _ hnx, List.erase_cons_head]
  exact hr.remove hx

/-- 先頭を外すと、並びは先頭を除いた残りになり、外した節を返す。空のリストでは何も変わらない。 -/
theorem removeFirst (hr : h.Rep q) (l : ι) :
    (h.listRemoveFirst l).1 = (q l).head? ∧
      (h.listRemoveFirst l).2.Rep (Function.update q l (q l).tail) := by
  have hl := hr.isList l
  cases hq : q l with
  | nil =>
      rw [hq] at hl
      rw [hl.removeFirst_nil, List.tail_nil, ← hq, Function.update_eq_self]
      exact ⟨by rw [hq]; rfl, hr⟩
  | cons n xs =>
      rw [hq] at hl
      rw [hl.removeFirst_cons]
      have hq' : q l = [] ++ n :: xs := hq
      exact ⟨rfl, hr.remove hq'⟩

end

end ListHeap.Rep

end IdealX86
