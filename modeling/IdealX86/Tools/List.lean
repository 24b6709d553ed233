import IdealX86.Lib.Linked

/-!
# `list.c`：節を埋め込む双方向リスト

`list_node_t *` は節の名前 `ν`、`list_t *` はリストの名前 `ι` で表し、メモリの上のすべての節とリストを一つの
`ListHeap` にまとめる。`list_t` の `count` は `int` なので `Int` で表す。
-/

namespace IdealX86

open Lib

structure ListHead (ν : Type) where
  first : Option ν
  last : Option ν
  count : Int
  deriving DecidableEq

structure ListHeap (ι ν : Type) where
  node : ν → Link ν
  list : ι → ListHead ν

namespace ListHeap

variable {ι ν : Type} [DecidableEq ι] [DecidableEq ν] (h : ListHeap ι ν)

def listNodeInit (n : ν) : ListHeap ι ν :=
  { h with node := Function.update h.node n ⟨none, none⟩ }

def listNodeNext (n : ν) : Option ν := (h.node n).next

def listInit (l : ι) : ListHeap ι ν :=
  { h with list := Function.update h.list l ⟨none, none, 0⟩ }

def listCount (l : ι) : Int := (h.list l).count

def listIsEmpty (l : ι) : Bool := (h.list l).count == 0

def listFirst (l : ι) : Option ν := (h.list l).first

def listInsertFirst (l : ι) (n : ν) : ListHeap ι ν :=
  let lst := h.list l
  let node := Function.update h.node n ⟨none, lst.first⟩
  if h.listIsEmpty l then
    ⟨node, Function.update h.list l ⟨some n, some n, lst.count + 1⟩⟩
  else
    ⟨setPre node lst.first (some n), Function.update h.list l ⟨some n, lst.last, lst.count + 1⟩⟩

def listInsertLast (l : ι) (n : ν) : ListHeap ι ν :=
  let lst := h.list l
  let node := Function.update h.node n ⟨lst.last, none⟩
  if h.listIsEmpty l then
    ⟨node, Function.update h.list l ⟨some n, some n, lst.count + 1⟩⟩
  else
    ⟨setNext node lst.last (some n), Function.update h.list l ⟨lst.first, some n, lst.count + 1⟩⟩

/-- `list_remove_first`。外した節も返す。 -/
def listRemoveFirst (l : ι) : Option ν × ListHeap ι ν :=
  if h.listIsEmpty l then (none, h)
  else
    match (h.list l).first with
    | none => (none, h)
    | some r =>
        let lst := h.list l
        let first := (h.node r).next
        let last := if first = none then none else lst.last
        let node := Function.update (setPre h.node first none) r ⟨none, none⟩
        (some r, ⟨node, Function.update h.list l ⟨first, last, lst.count - 1⟩⟩)

/-- `list_remove`。節がそのリストにあることは確かめない。 -/
def listRemove (l : ι) (n : ν) : ListHeap ι ν :=
  let lst := h.list l
  let first := if some n = lst.first then (h.node n).next else lst.first
  let last := if some n = lst.last then (h.node n).pre else lst.last
  let node := setNext h.node (h.node n).pre (h.node n).next
  let node := setPre node (node n).next (node n).pre
  ⟨Function.update node n ⟨none, none⟩, Function.update h.list l ⟨first, last, lst.count - 1⟩⟩

/-- 先頭から `next` を `count` 回たどって得られる節の並び。 -/
def follow (node : ν → Link ν) : Nat → Option ν → List ν
  | 0, _ => []
  | _ + 1, none => []
  | k + 1, some n => n :: follow node k (node n).next

def nodes (l : ι) : List ν := follow h.node (h.list l).count.toNat (h.list l).first

end ListHeap

end IdealX86
