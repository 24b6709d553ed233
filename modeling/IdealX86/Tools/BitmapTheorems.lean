import IdealX86.Tools.Lemmas.Bitmap
import Mathlib.Data.List.Induction

/-!
# `bitmap.c` の定理

`bitmap_alloc_nbits` が返す区間は、最後の一つを除いてしか確かめられていない。返した区間が実際に空いているための条件を示す。
`bitmap_init` と `bitmap_set_bit` と `bitmap_get_bit` は、ビットの配列として働く。
-/

namespace IdealX86

/-- `bit` に等しい `count - 1` 個の最初の並びには、同じ値のビットがもう一つ続く。 -/
def Continues (mem : Mem) (b : Bitmap) (bit count s : Int) : Prop :=
  ∀ r, FirstRun mem b bit (count - 1) s r →
    r + count ≤ b.bitcount ∧ bitmapGetBit mem b (r + count - 1) = bit

variable {mem : Mem} {b : Bitmap} {bit count r : Int}

theorem BitRun.succ_iff (hc : 1 ≤ count) (h : BitRun mem b bit (count - 1) r) :
    BitRun mem b bit count r ↔ r + count ≤ b.bitcount ∧ bitmapGetBit mem b (r + count - 1) = bit := by
  refine ⟨fun hr => ⟨hr.1, hr.2 _ (by omega) (by omega)⟩, fun hr => ⟨hr.1, fun j h₁ h₂ => ?_⟩⟩
  by_cases hj : j = r + count - 1
  · rw [hj]; exact hr.2
  · exact h.2 j h₁ (by omega)

/-- `bitmap_alloc_nbits` の返す区間が、ビット列の中にあってすべて `bit` に等しいのは、一つのビットを求めるときと、
`count - 1` 個の最初の並びにもう一つ続くとき、そのときに限る。 -/
theorem bitmapAllocNbits_bitRun_iff (mem : Mem) (b : Bitmap) (bit : Int) (s : Nat) {count : Int} (hc : 1 ≤ count) :
    (0 ≤ (bitmapAllocNbits s mem b bit count).ret →
        BitRun mem b bit count (bitmapAllocNbits s mem b bit count).ret) ↔
      (count = 1 ∨ Continues mem b bit count s) := by
  cases bitmapAllocNbits_end mem b bit s hc with
  | none hno ha =>
      rw [ha]
      refine ⟨fun _ => ?_, fun _ h₀ => by simp at h₀⟩
      by_cases h₁ : count = 1
      · exact Or.inl h₁
      · rw [max_eq_left (by omega)] at hno
        exact Or.inr fun r hr => absurd hr.run (hno r hr.le)
  | found r hr ha =>
      rw [ha]
      have h₀ : 0 ≤ r := by have := hr.le; omega
      simp only [h₀, true_imp_iff]
      by_cases h₁ : count = 1
      · subst h₁
        exact ⟨fun _ => Or.inl rfl, fun _ => hr.run⟩
      · rw [max_eq_left (by omega)] at hr
        rw [hr.run.succ_iff hc]
        refine ⟨fun h => Or.inr fun r' hr' => ?_, fun h => (h.resolve_left h₁) r hr⟩
        rw [← hr.unique hr']
        exact h

theorem bitmapAllocNbits_bitRun_iff_two :
    (0 ≤ (bitmapAllocNbits (0 : Nat) (fun _ => 0) ⟨8, 0x9000⟩ 0 2).ret →
        BitRun (fun _ => 0) ⟨8, 0x9000⟩ 0 2 (bitmapAllocNbits (0 : Nat) (fun _ => 0) ⟨8, 0x9000⟩ 0 2).ret) ↔
      ((2 : Int) = 1 ∨ Continues (fun _ => 0) ⟨8, 0x9000⟩ 0 2 (0 : Nat)) :=
  bitmapAllocNbits_bitRun_iff _ _ _ 0 (by decide)

/-- ビット 0 だけが空いている二ビットの列で、空きを二つ求めると 0 が返る。 -/
theorem bitmapAllocNbits_takes_used_bit :
    ¬ (0 ≤ (bitmapAllocNbits 0 (fun _ => 2) ⟨2, 0x9000⟩ 0 2).ret →
      BitRun (fun _ => 2) ⟨2, 0x9000⟩ 0 2 (bitmapAllocNbits 0 (fun _ => 2) ⟨2, 0x9000⟩ 0 2).ret) := by
  have hret : (bitmapAllocNbits 0 (fun _ => 2) ⟨2, 0x9000⟩ 0 2).ret = 0 := by decide
  rw [hret]
  intro h
  exact absurd ((h (le_refl 0)).2 1 (by decide) (by decide)) (by decide)

/-! ## ビットの配列としての働き -/

/-- `bitmap_set_bit(index, count, bit)` の呼び出し。 -/
structure SetCall where
  index : Int
  count : Int
  bit : Int
  index_nonneg : 0 ≤ index
  bit_zero_or_one : bit = 0 ∨ bit = 1

namespace SetCall

/-- 呼び出しの区間が `j` を含む。 -/
def Covers (c : SetCall) (j : Int) : Prop := c.index ≤ j ∧ j < c.index + c.count

instance (c : SetCall) (j : Int) : Decidable (c.Covers j) :=
  inferInstanceAs (Decidable (c.index ≤ j ∧ j < c.index + c.count))

theorem bit_eq (c : SetCall) : (if c.bit = 1 then 1 else 0 : Int) = c.bit := by
  rcases c.bit_zero_or_one with h | h <;> simp [h]

/-- 一回の呼び出しは、区間の中のビットだけを変える。 -/
theorem get (c : SetCall) (mem : Mem) (b : Bitmap) {j : Int} (hj : 0 ≤ j) :
    bitmapGetBit (bitmapSetBit mem b c.index c.count c.bit) b j =
      if c.Covers j ∧ j < b.bitcount then c.bit else bitmapGetBit mem b j := by
  rw [bitmapSetBit, bitmapGetBit_setLoop c.bit c.count.toNat c.index_nonneg hj, c.bit_eq]
  congr 1
  rw [eq_iff_iff, Covers]
  omega

end SetCall

/-- `bitmap_set_bit` の呼び出しの列。 -/
def bitmapSetCalls (b : Bitmap) (mem : Mem) (calls : List SetCall) : Mem :=
  calls.foldl (fun mem c => bitmapSetBit mem b c.index c.count c.bit) mem

/-- `j` を区間に含む最後の呼び出しの値。なければ `init`。 -/
def lastBit (calls : List SetCall) (init j : Int) : Int :=
  match calls.reverse.find? (fun c => decide (c.Covers j)) with
  | some c => c.bit
  | none => init

theorem lastBit_concat (calls : List SetCall) (c : SetCall) (init j : Int) :
    lastBit (calls ++ [c]) init j = if c.Covers j then c.bit else lastBit calls init j := by
  simp only [lastBit, List.reverse_append, List.reverse_singleton, List.singleton_append, List.find?_cons]
  by_cases h : c.Covers j <;> simp [h]

theorem bitmapSetCalls_concat (b : Bitmap) (mem : Mem) (calls : List SetCall) (c : SetCall) :
    bitmapSetCalls b mem (calls ++ [c]) =
      bitmapSetBit (bitmapSetCalls b mem calls) b c.index c.count c.bit := by
  simp [bitmapSetCalls]

theorem bitmapGetBit_setCalls (b : Bitmap) (mem : Mem) (calls : List SetCall) {j : Int} (h₀ : 0 ≤ j)
    (h₁ : j < b.bitcount) :
    bitmapGetBit (bitmapSetCalls b mem calls) b j = lastBit calls (bitmapGetBit mem b j) j := by
  induction calls using List.reverseRecOn with
  | nil => rfl
  | append_singleton calls c ih =>
      rw [bitmapSetCalls_concat, c.get _ _ h₀, lastBit_concat, ih]
      simp [h₁]

theorem bitmapGetBit_setCalls_of_ge (b : Bitmap) (mem : Mem) (calls : List SetCall) {j : Int} (h₀ : 0 ≤ j)
    (h₁ : b.bitcount ≤ j) : bitmapGetBit (bitmapSetCalls b mem calls) b j = bitmapGetBit mem b j := by
  induction calls using List.reverseRecOn with
  | nil => rfl
  | append_singleton calls c ih => rw [bitmapSetCalls_concat, c.get _ _ h₀, if_neg (by omega), ih]

theorem bitmapSetCalls_of_outside (b : Bitmap) (mem : Mem) (calls : List SetCall) {a : Nat}
    (ha : a < b.bits ∨ b.bits + b.byteLen ≤ a) : bitmapSetCalls b mem calls a = mem a := by
  induction calls using List.reverseRecOn with
  | nil => rfl
  | append_singleton calls c ih =>
      rw [bitmapSetCalls_concat, bitmapSetBit, bitmapSetLoop_of_outside c.bit _ c.index_nonneg ha, ih]

/-- `bitmap_init` の直後のビットの値。 -/
def initValue (initBit : Int) : Int := if initBit ≠ 0 then 1 else 0

/-- `bitmap_init` の後の呼び出しの列が、ビットの配列への書き込みとして働く。どのビットも、それを区間に含む最後の呼び出しの
値か、初期値であり、`bitcount` から先のビットと、`bitmap_byte_count(bitcount)` から先のバイトは変わらない。 -/
structure RefinesArray (mem : Mem) (bits : Nat) (bitcount initBit : Int) (calls : List SetCall) : Prop where
  get : ∀ j, 0 ≤ j → j < bitcount →
    bitmapGetBit (bitmapSetCalls ⟨bitcount, bits⟩ (bitmapInit mem bits bitcount initBit).1 calls) ⟨bitcount, bits⟩ j =
      lastBit calls (initValue initBit) j
  beyond : ∀ j, bitcount ≤ j →
    bitmapGetBit (bitmapSetCalls ⟨bitcount, bits⟩ (bitmapInit mem bits bitcount initBit).1 calls) ⟨bitcount, bits⟩ j =
      bitmapGetBit (bitmapInit mem bits bitcount initBit).1 ⟨bitcount, bits⟩ j
  frame : ∀ a : Nat, a < bits ∨ bits + bitmapByteCount bitcount ≤ a →
    bitmapSetCalls ⟨bitcount, bits⟩ (bitmapInit mem bits bitcount initBit).1 calls a =
      (bitmapInit mem bits bitcount initBit).1 a

/-- その呼び出しはどのビットの値も変えない。書くビットがないか、書く値が初期値である。 -/
def SetCall.Idle (c : SetCall) (bitcount init : Int) : Prop :=
  c.count ≤ 0 ∨ bitcount ≤ c.index ∨ c.bit = init

section Refines

variable {bits : Nat} {bitcount initBit : Int}

/-- ビットの値についての二つは、どの `bitcount` でも成り立つ。 -/
theorem RefinesArray.of_frame (hbits : bits ≠ 0) (h₀ : 0 ≤ bitcount) (hmax : bitcount < 2 ^ 31) (calls : List SetCall)
    (hframe : ∀ a : Nat, a < bits ∨ bits + bitmapByteCount bitcount ≤ a →
      bitmapSetCalls ⟨bitcount, bits⟩ (bitmapInit mem bits bitcount initBit).1 calls a =
        (bitmapInit mem bits bitcount initBit).1 a) :
    RefinesArray mem bits bitcount initBit calls where
  get j h h' := by
    have hinit : bitmapGetBit (bitmapInit mem bits bitcount initBit).1 ⟨bitcount, bits⟩ j = initValue initBit :=
      bitmapGetBit_init hbits hmax initBit h h'
    rw [bitmapGetBit_setCalls _ _ calls h h']
    exact congrArg (lastBit calls · j) hinit
  beyond j h := bitmapGetBit_setCalls_of_ge _ _ calls (by omega) h
  frame := hframe

theorem bitmapSetCalls_of_idle (hbits : bits ≠ 0) (hmax : bitcount < 2 ^ 31) {calls : List SetCall}
    (h : ∀ c ∈ calls, c.Idle bitcount (initValue initBit)) :
    bitmapSetCalls ⟨bitcount, bits⟩ (bitmapInit mem bits bitcount initBit).1 calls =
      (bitmapInit mem bits bitcount initBit).1 := by
  induction calls using List.reverseRecOn with
  | nil => rfl
  | append_singleton calls c ih =>
      rw [bitmapSetCalls_concat, ih fun c' hc' => h c' (List.mem_append_left _ hc'), bitmapSetBit]
      refine bitmapSetLoop_same c.bit_zero_or_one _ fun j h₁ h₂ h₃ => ?_
      have hnonneg := c.index_nonneg
      have hidle := h c (by simp)
      simp only [SetCall.Idle] at hidle h₃
      have hbit : c.bit = initValue initBit := by omega
      rw [hbit]
      exact bitmapGetBit_init hbits hmax initBit (by omega) h₃

/-- 呼び出しの列のどの時点でもビットの配列として働くのは、`bitcount + 7` が `int` に収まるときと、どの呼び出しもビットの値を
変えないとき、そのときに限る。収まらないときの `bitmap_byte_count` は負であり、どの置き場のバイトもその先にある。 -/
theorem bitmapSetCalls_refines_array_iff (mem : Mem) (hbits : bits ≠ 0) (h₀ : 0 ≤ bitcount) (hmax : bitcount < 2 ^ 31)
    (initBit : Int) (calls : List SetCall) :
    (∀ done, done <+: calls → RefinesArray mem bits bitcount initBit done) ↔
      bitcount + 7 < 2 ^ 31 ∨ ∀ c ∈ calls, c.Idle bitcount (initValue initBit) := by
  constructor
  · refine fun h => or_iff_not_imp_left.mpr fun hlt c hc => ?_
    obtain ⟨before, after, rfl⟩ := List.append_of_mem hc
    have hr := h (before ++ [c]) ⟨after, by simp⟩
    have hneg := bitmapByteCount_of_gt (by omega) hmax
    -- 置き場のどのバイトも、負のバイト数の先にある。
    have hmem := funext fun a : Nat => hr.frame a (by omega)
    by_contra hidle
    simp only [SetCall.Idle, not_or, not_le] at hidle
    have hget := hr.get c.index c.index_nonneg hidle.2.1
    rw [hmem, lastBit_concat, if_pos ⟨le_refl _, by omega⟩] at hget
    exact hidle.2.2 (hget.symm.trans (bitmapGetBit_init hbits hmax initBit c.index_nonneg hidle.2.1))
  · rintro (hlt | hidle) done hdone
    · refine .of_frame hbits h₀ hmax done fun a ha => bitmapSetCalls_of_outside _ _ done ?_
      rw [bitmapByteCount_of_le h₀ hlt] at ha
      simp only [Bitmap.byteLen]
      omega
    · refine .of_frame hbits h₀ hmax done fun a _ => ?_
      rw [bitmapSetCalls_of_idle hbits hmax fun c hc => hidle c (hdone.subset hc)]

end Refines

/-- 10 ビットの列に、境界をまたぎ末尾を越える二つの呼び出しをする。 -/
theorem bitmapSetCalls_refines_array_ten :
    RefinesArray (fun _ => 0) 0x9000 10 0 [⟨6, 9, 1, by decide, .inr rfl⟩, ⟨7, 2, 0, by decide, .inl rfl⟩] :=
  (bitmapSetCalls_refines_array_iff (fun _ => 0) (by decide) (by decide) (by decide) 0 _).mpr (.inl (by decide)) _
    (List.prefix_refl _)

/-- `INT_MAX` ビットの列では、`bitmap_byte_count` は `-0x0FFFFFFF` であり、最初のビットを立てると、その先のバイトが変わる。 -/
theorem bitmapSetCalls_changes_beyond_byteCount :
    bitmapByteCount 0x7FFFFFFF = -0x0FFFFFFF ∧
      ¬ RefinesArray (fun _ => 0) 0x9000 0x7FFFFFFF 0 [⟨0, 1, 1, by decide, .inr rfl⟩] := by
  have hcount : bitmapByteCount 0x7FFFFFFF = -0x0FFFFFFF := by decide
  refine ⟨hcount, fun h => ?_⟩
  have hget := h.get 0 (by decide) (by decide)
  have hmem := funext fun a : Nat => h.frame a (by rw [hcount]; omega)
  have hzero : bitmapGetBit (bitmapInit (fun _ => 0) 0x9000 0x7FFFFFFF 0).1 ⟨0x7FFFFFFF, 0x9000⟩ 0 = initValue 0 :=
    bitmapGetBit_init (by decide) (by decide) 0 (le_refl 0) (by decide)
  rw [hmem] at hget
  exact absurd (hget.symm.trans hzero) (by decide)

end IdealX86
