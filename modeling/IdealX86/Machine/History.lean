import IdealX86.Machine.Step

/-!
# 履歴の読み方

履歴は新しい事象が前に来る。性質を述べるために、履歴から待ちに入った順、起こされた順、回数、入れ子の深さを読み取る。
-/

namespace IdealX86

/-! ## 待ち行列 -/

/-- 待ち行列 `w` で待ちに入ったタスク。 -/
def Event.blockedOn (w : WaitId) : Event → Option TaskId
  | .blocked t m => if w = .mutex m then some t else none
  | .semBlocked t s => if w = .sem s then some t else none
  | _ => none

/-- 待ち行列 `w` から起こされたタスク。 -/
def Event.wokenFrom (w : WaitId) : Event → Option TaskId
  | .handover t m => if w = .mutex m then some t else none
  | .semWoken t s => if w = .sem s then some t else none
  | _ => none

/-! ## セマフォ -/

def notified (s : SemId) (hist : List Event) : Nat :=
  hist.countP fun | .semNotified _ s' => s' = s | _ => false

/-- 待たずに通った `sem_wait(s)` の回数。 -/
def taken (s : SemId) (hist : List Event) : Nat :=
  hist.countP fun | .semTaken _ s' => s' = s | _ => false

/-- 待った後に起こされて通った `sem_wait(s)` の回数。 -/
def woken (s : SemId) (hist : List Event) : Nat :=
  hist.countP fun | .semWoken _ s' => s' = s | _ => false

/-! ## ミューテックス -/

def Event.mutex : Event → Option MutexId
  | .got _ m => some m
  | .nested _ m => some m
  | .blocked _ m => some m
  | .handover _ m => some m
  | .lockRet _ m => some m
  | .unlock _ m => some m
  | _ => none

def Event.gets (m : MutexId) : Event → Bool
  | .got _ m' => m' = m
  | .handover _ m' => m' = m
  | _ => false

/-- 今の持ち主が `m` を得た後の事象。 -/
def sinceGot (m : MutexId) (hist : List Event) : List Event := hist.takeWhile (!Event.gets m ·)

/-- `t` が `m` を重ねて取った回数。 -/
def nestedBy (t : TaskId) (m : MutexId) (hist : List Event) : Nat :=
  hist.countP fun | .nested t' m' => t' = t ∧ m' = m | _ => false

def unlocksBy (t : TaskId) (m : MutexId) (hist : List Event) : Nat :=
  hist.countP fun | .unlock t' m' => t' = t ∧ m' = m | _ => false

/-- `mutex_lock(m)` から戻った回数のうち、`t` がまだ `mutex_unlock` していない分。正なら `t` は、戻った `mutex_lock` と
それに対応する最後の `mutex_unlock` の間にいる。 -/
def depth (t : TaskId) (m : MutexId) : List Event → Nat
  | [] => 0
  | .lockRet t' m' :: es => if t' = t ∧ m' = m then depth t m es + 1 else depth t m es
  | .unlock t' m' :: es => if t' = t ∧ m' = m then depth t m es - 1 else depth t m es
  | _ :: es => depth t m es

end IdealX86
