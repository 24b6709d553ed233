import Mathlib.Algebra.Order.Ring.Int
import Mathlib.Data.List.Basic

/-!
# バイトの並びの上の語のスタック

32 ビットのアドレスのメモリに、小端の語を読み書きし、下へ伸びるスタックを、先頭からの語の並びで表す。どの系にも依存しない。
-/

namespace IdealX86.Lib

abbrev Bytes := BitVec 32 → BitVec 8

def load32 (mem : Bytes) (a : BitVec 32) : BitVec 32 :=
  (mem (a + 3) ++ mem (a + 2) ++ mem (a + 1) ++ mem a : BitVec 32)

def store32 (mem : Bytes) (a v : BitVec 32) : Bytes := fun x =>
  if x = a then v.extractLsb' 0 8
  else if x = a + 1 then v.extractLsb' 8 8
  else if x = a + 2 then v.extractLsb' 16 8
  else if x = a + 3 then v.extractLsb' 24 8
  else mem x

variable {mem mem' : Bytes} {a b v : BitVec 32} {vs : List (BitVec 32)}

theorem load32_store32_self (mem : Bytes) (a v : BitVec 32) : load32 (store32 mem a v) a = v := by
  have h₁ : a + 1 ≠ a := by bv_omega
  have h₂ : a + 2 ≠ a := by bv_omega
  have h₃ : a + 3 ≠ a := by bv_omega
  have h₂₁ : a + 2 ≠ a + 1 := by bv_omega
  have h₃₁ : a + 3 ≠ a + 1 := by bv_omega
  have h₃₂ : a + 3 ≠ a + 2 := by bv_omega
  unfold load32 store32
  simp only [h₁, h₂, h₃, h₂₁, h₃₁, h₃₂, ↓reduceIte]
  ext i hi
  simp only [BitVec.getElem_append, BitVec.getElem_extractLsb']
  grind

theorem store32_of_far (mem : Bytes) {x : BitVec 32} (h : 4 ≤ (x - a).toNat) (v : BitVec 32) :
    store32 mem a v x = mem x := by
  have h₀ : x ≠ a := by bv_omega
  have h₁ : x ≠ a + 1 := by bv_omega
  have h₂ : x ≠ a + 2 := by bv_omega
  have h₃ : x ≠ a + 3 := by bv_omega
  simp only [store32, h₀, h₁, h₂, h₃, ↓reduceIte]

theorem load32_congr (h : ∀ i : BitVec 32, i.toNat < 4 → mem' (a + i) = mem (a + i)) :
    load32 mem' a = load32 mem a := by
  have h₀ := h 0 (by decide)
  have h₁ := h 1 (by decide)
  have h₂ := h 2 (by decide)
  have h₃ := h 3 (by decide)
  have ha : a + 0 = a := BitVec.add_zero a
  rw [ha] at h₀
  rw [load32, load32, h₀, h₁, h₂, h₃]

/-- アドレス `p` から上に、語の並び `vs` がある。 -/
def Holds (mem : Bytes) : BitVec 32 → List (BitVec 32) → Prop
  | _, [] => True
  | p, v :: vs => load32 mem p = v ∧ Holds mem (p + 4) vs

/-- `top` から下に語の並び `vs` を積んだスタック。書いたのは、`top` の下の `n` 語までである。 -/
structure Stack (mem₀ mem : Bytes) (top sp : BitVec 32) (n : ℕ) (vs : List (BitVec 32)) : Prop where
  sp_eq : sp = top - BitVec.ofNat 32 (4 * vs.length)
  holds : Holds mem sp vs
  room : vs.length ≤ n
  bound : 4 * n < 2 ^ 32
  above : ∀ x : BitVec 32, (x - top).toNat < 2 ^ 32 - 4 * n → mem x = mem₀ x

theorem Holds.congr {p : BitVec 32} (h : Holds mem p vs) (hlen : 4 * vs.length < 2 ^ 32)
    (hm : ∀ x : BitVec 32, (x - p).toNat < 4 * vs.length → mem' x = mem x) : Holds mem' p vs := by
  induction vs generalizing p with
  | nil => trivial
  | cons v vs ih =>
      obtain ⟨hv, hvs⟩ := h
      rw [List.length_cons] at hlen hm
      refine ⟨?_, ih hvs (by omega) fun x hx => hm x ?_⟩
      · rw [← hv]
        refine load32_congr fun i hi => hm _ ?_
        have hsub : p + i - p = i := by bv_omega
        rw [hsub]; omega
      · have hsub : (x - p).toNat = ((x - (p + 4)).toNat + 4) % 2 ^ 32 := by bv_omega
        omega

/-- 語の並びを、アドレス `p` から上に書く。 -/
def storeWords (mem : Bytes) : BitVec 32 → List (BitVec 32) → Bytes
  | _, [] => mem
  | p, v :: vs => storeWords (store32 mem p v) (p + 4) vs

theorem storeWords_of_far (mem : Bytes) {p x : BitVec 32} (vs : List (BitVec 32)) (hlen : 4 * vs.length < 2 ^ 32)
    (h : 4 * vs.length ≤ (x - p).toNat) : storeWords mem p vs x = mem x := by
  induction vs generalizing mem p with
  | nil => rfl
  | cons v vs ih =>
      rw [List.length_cons] at hlen h
      rw [storeWords, ih _ (by omega) ?_, store32_of_far mem (by omega)]
      have hsub : (x - (p + 4)).toNat = ((x - p).toNat + 2 ^ 32 - 4) % 2 ^ 32 := by bv_omega
      omega

theorem holds_storeWords (mem : Bytes) (p : BitVec 32) (vs : List (BitVec 32)) (hlen : 4 * vs.length < 2 ^ 32) :
    Holds (storeWords mem p vs) p vs := by
  induction vs generalizing mem p with
  | nil => trivial
  | cons v vs ih =>
      rw [List.length_cons] at hlen
      refine ⟨(load32_congr fun i hi => ?_).trans (load32_store32_self mem p v), ih _ _ (by omega)⟩
      refine storeWords_of_far _ vs (by omega) ?_
      have hsub : (p + i - (p + 4)).toNat = (i.toNat + 2 ^ 32 - 4) % 2 ^ 32 := by bv_omega
      omega

namespace Stack

variable {mem₀ : Bytes} {top sp : BitVec 32} {n : ℕ}

theorem nil (mem : Bytes) (top : BitVec 32) (h : 4 * n < 2 ^ 32) : Stack mem mem top top n [] :=
  ⟨by simp, trivial, Nat.zero_le n, h, fun _ _ => rfl⟩

theorem push (h : Stack mem₀ mem top sp n vs) (hroom : vs.length < n) (v : BitVec 32) :
    Stack mem₀ (store32 mem (sp - 4) v) top (sp - 4) n (v :: vs) := by
  have hb := h.bound
  refine ⟨?_, ⟨load32_store32_self _ _ _, ?_⟩, hroom, hb, fun x hx => ?_⟩
  · rw [h.sp_eq, List.length_cons, Nat.mul_succ, BitVec.ofNat_add]
    bv_omega
  · have hsp : sp - 4 + 4 = sp := by bv_omega
    rw [hsp]
    refine h.holds.congr (by omega) fun x hx => store32_of_far _ ?_ v
    have hsub : (x - (sp - 4)).toNat = ((x - sp).toNat + 4) % 2 ^ 32 := by bv_omega
    omega
  · rw [store32_of_far _ ?_ v, h.above x hx]
    have hlen : (BitVec.ofNat 32 (4 * vs.length)).toNat = 4 * vs.length := by
      rw [BitVec.toNat_ofNat]; omega
    have hsub : (x - (sp - 4)).toNat = ((x - top).toNat + 4 * vs.length + 4) % 2 ^ 32 := by
      rw [h.sp_eq, ← hlen]
      generalize BitVec.ofNat 32 (4 * vs.length) = d
      bv_omega
    omega

end Stack

end IdealX86.Lib
