import IdealX86.Tools.Klib

/-!
# `log.c`：シリアルポートへの出力

`kernel_vsprintf` が `str_buf` に整形した文字列をメッセージと呼ぶ。送信できるまで待つ繰り返しは状態を変えないので省き、
`COM1_PORT` に書かれるバイトだけを残す。行を呼び出しごとに区別するために、呼び出しに順に番号を付ける。
-/

namespace IdealX86

def bytesOf (s : String) : List Byte := s.toList.map fun c => BitVec.ofNat 8 c.toNat

/-- `log_printf` がメッセージ `s` について書くバイト。NUL の前までと、CR と LF である。 -/
def logLine (s : List Byte) : List Byte := s.takeWhile (· ≠ 0) ++ [13, 10]

theorem logLine_ne_nil (s : List Byte) : logLine s ≠ [] := by simp [logLine]

def logLines (msgs : List (List Byte)) : List Byte := (msgs.map logLine).flatten

@[simp] theorem logLines_nil : logLines [] = [] := rfl

@[simp] theorem logLines_append (ms ms' : List (List Byte)) :
    logLines (ms ++ ms') = logLines ms ++ logLines ms' := by simp [logLines]

@[simp] theorem logLines_singleton (m : List Byte) : logLines [m] = logLine m := by simp [logLines]

/-- `log_printf` に渡された順で `i` 番のメッセージの行。`issued` では、新しいメッセージが前にある。 -/
def lineOf (issued : List (List Byte)) (i : Nat) : List Byte := logLine (issued.reverse.getD i [])

theorem lineOf_cons {issued : List (List Byte)} {i : Nat} (h : i < issued.length) (s : List Byte) :
    lineOf (s :: issued) i = lineOf issued i := by
  simp only [lineOf, List.reverse_cons, List.getD_eq_getElem?_getD]
  rw [List.getElem?_append_left (by simpa using h)]

theorem lineOf_new (issued : List (List Byte)) (s : List Byte) :
    lineOf (s :: issued) issued.length = logLine s := by
  simp [lineOf, List.getD_eq_getElem?_getD]

theorem lineOf_length_pos (issued : List (List Byte)) (i : Nat) : 0 < (lineOf issued i).length :=
  List.length_pos_iff.mpr (logLine_ne_nil _)

theorem lineOf_mem {issued : List (List Byte)} {i : Nat} (h : i < issued.length) :
    ∃ m ∈ issued, lineOf issued i = logLine m := by
  have hlt : i < issued.reverse.length := by simpa using h
  exact ⟨issued.reverse[i], List.mem_reverse.mp (List.getElem_mem hlt),
    by rw [lineOf, List.getD_eq_getElem?_getD, List.getElem?_eq_getElem hlt]; rfl⟩

/-- `i` 番の行の各バイトに、番号を添えたもの。 -/
def tagged (issued : List (List Byte)) (i : Nat) : List (Nat × Byte) := (lineOf issued i).map (i, ·)

theorem tagged_snd (issued : List (List Byte)) (i : Nat) : (tagged issued i).map Prod.snd = lineOf issued i := by
  simp [tagged]

/-- 番号を添えた出力 `out` が、`issued` の別々の番号の行を、分けずに並べたものである。`busy` のときだけ、最後の行は書きかけでもよい。 -/
def Lined (issued : List (List Byte)) (busy : Prop) (out : List (Nat × Byte)) : Prop :=
  ∃ (ids : List Nat) (part : List (Nat × Byte)), ids.Nodup ∧ (∀ i ∈ ids, i < issued.length) ∧
    out = ids.flatMap (tagged issued) ++ part ∧
    (part = [] ∨ busy ∧ ∃ i < issued.length, i ∉ ids ∧ part <+: tagged issued i)

theorem Lined.head {issued : List (List Byte)} {busy : Prop} {out : List (Nat × Byte)} (h : Lined issued busy out)
    (hne : out ≠ []) : ∃ m ∈ issued, logLine m <+: out.map Prod.snd ∨ out.map Prod.snd <+: logLine m := by
  obtain ⟨ids, part, -, hids, rfl, hp⟩ := h
  cases ids with
  | nil =>
      rcases hp with rfl | ⟨-, i, hi, -, hp⟩
      · exact absurd rfl hne
      · obtain ⟨m, hm, he⟩ := lineOf_mem hi
        refine ⟨m, hm, .inr ?_⟩
        rw [← he, ← tagged_snd]
        exact hp.map _
  | cons i ids =>
      obtain ⟨m, hm, he⟩ := lineOf_mem (hids i (by simp))
      refine ⟨m, hm, .inl ?_⟩
      rw [← he, ← tagged_snd]
      simp [List.flatMap_cons]

end IdealX86
