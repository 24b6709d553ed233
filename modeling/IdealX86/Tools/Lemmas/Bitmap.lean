import IdealX86.Tools.Bitmap

/-!
# ビット列の補題
-/

namespace IdealX86

variable {mem : Mem} {b : Bitmap}

/-! ## バイトの数 -/

/-- `bitcount + 7` が `int` に収まれば、`bitmap_byte_count` はビットの置かれるバイトの数である。 -/
theorem bitmapByteCount_of_le {bitcount : Int} (h₀ : 0 ≤ bitcount) (h : bitcount + 7 < 2 ^ 31) :
    bitmapByteCount bitcount = (bitcount + 7) / 8 := by
  rw [bitmapByteCount, BitVec.toInt_ofInt_eq_self (by decide) (by omega) (by omega)]
  exact Int.tdiv_eq_ediv_of_nonneg (by omega)

/-- 収まらなければ、`bitmap_byte_count` は負である。 -/
theorem bitmapByteCount_of_gt {bitcount : Int} (h : 2 ^ 31 ≤ bitcount + 7) (h' : bitcount < 2 ^ 31) :
    bitmapByteCount bitcount = -((2 ^ 31 - (bitcount + 7 - 2 ^ 31)) / 8) := by
  have hwrap : (BitVec.ofInt 32 (bitcount + 7)).toInt = -(2 ^ 31 - (bitcount + 7 - 2 ^ 31)) := by
    rw [BitVec.toInt_ofInt, Int.bmod_def]
    omega
  rw [bitmapByteCount, hwrap, Int.neg_tdiv, Int.tdiv_eq_ediv_of_nonneg (by omega)]

/-- どの `int` のビット数でも、`bitmap_init` はビットの置かれるバイトをすべて書く。負のバイト数でも、`kernel_memset` は
一周するまで書き続ける。 -/
theorem byteLen_le_memset {b : Bitmap} (h₀ : 0 ≤ b.bitcount) (h : b.bitcount < 2 ^ 31) :
    b.byteLen ≤ (BitVec.ofInt 32 (bitmapByteCount b.bitcount)).toNat := by
  rw [Bitmap.byteLen, BitVec.toNat_ofInt]
  by_cases hlt : b.bitcount + 7 < 2 ^ 31
  · rw [bitmapByteCount_of_le h₀ hlt]
    omega
  · rw [bitmapByteCount_of_gt (by omega) h]
    omega

/-! ## 一つのビット -/

theorem bitMask_getLsbD (index : Int) (k : Nat) :
    (bitMask index).getLsbD k = decide (k = (index % 8).toNat) := by
  rw [bitMask, ← BitVec.twoPow_eq, BitVec.getLsbD_twoPow]
  simp only [decide_true, Bool.true_and, decide_eq_decide, show (index % 8).toNat < 8 by omega]
  exact eq_comm

theorem bitmapGetBit_eq (mem : Mem) (b : Bitmap) (index : Int) :
    bitmapGetBit mem b index = if (mem (b.byteAddr index)).getLsbD (index % 8).toNat then 1 else 0 := by
  have hlt : (index % 8).toNat < 8 := by omega
  unfold bitmapGetBit
  congr 1
  rw [bitMask, ← BitVec.twoPow_eq, BitVec.and_twoPow, eq_iff_iff]
  by_cases h : (mem (b.byteAddr index)).getLsbD (index % 8).toNat = true
  · rw [if_pos h]
    refine ⟨fun _ => h, fun _ h₀ => ?_⟩
    have := congrArg (·.getLsbD (index % 8).toNat) h₀
    simp [hlt] at this
  · rw [if_neg h]
    exact ⟨fun h₀ => absurd rfl h₀, fun h' => absurd h' h⟩

/-- 書き込みは、ビットの入っているバイトだけに触れる。 -/
theorem bitmapWriteBit_of_ne (mem : Mem) (b : Bitmap) {index : Int} (bit : Int) {a : Nat} (ha : a ≠ b.byteAddr index) :
    bitmapWriteBit mem b index bit a = mem a := by
  unfold bitmapWriteBit
  split <;> exact Function.update_of_ne ha _ _

/-- 一つのビットへの書き込みは、そのビットだけを変える。 -/
theorem bitmapGetBit_writeBit (mem : Mem) (b : Bitmap) {index j : Int} (bit : Int) (hi : 0 ≤ index) (hj : 0 ≤ j) :
    bitmapGetBit (bitmapWriteBit mem b index bit) b j =
      if index = j then (if bit = 1 then 1 else 0) else bitmapGetBit mem b j := by
  have hlt : (j % 8).toNat < 8 := by omega
  simp only [bitmapGetBit_eq, bitmapWriteBit]
  by_cases ha : b.byteAddr j = b.byteAddr index
  · have hdiv : j / 8 = index / 8 := by simp only [Bitmap.byteAddr] at ha; omega
    have hmask : (bitMask index).getLsbD (j % 8).toNat = decide (index = j) := by
      rw [bitMask_getLsbD, decide_eq_decide]
      omega
    by_cases hb : bit = 1
    · simp only [hb, ↓reduceIte, ha, Function.update_self, BitVec.getLsbD_or, hmask]
      by_cases he : index = j <;> simp [he]
    · simp only [hb, ↓reduceIte, ha, Function.update_self, BitVec.getLsbD_and, BitVec.getLsbD_not, hmask, hlt]
      by_cases he : index = j <;> simp [he]
  · have hne : index ≠ j := by rintro rfl; exact ha rfl
    rw [if_neg hne]
    split <;> rw [Function.update_of_ne ha]

/-- すでにその値であるビットへの書き込みは、何も変えない。 -/
theorem bitmapWriteBit_same {index bit : Int} (hbit : bit = 0 ∨ bit = 1) (h : bitmapGetBit mem b index = bit) :
    bitmapWriteBit mem b index bit = mem := by
  rw [bitmapGetBit_eq] at h
  unfold bitmapWriteBit
  rcases hbit with rfl | rfl
  · have hoff : (mem (b.byteAddr index)).getLsbD (index % 8).toNat = false := by simpa using h
    rw [if_neg (by decide), Function.update_eq_self_iff]
    refine BitVec.eq_of_getLsbD_eq fun k hk => ?_
    rw [BitVec.getLsbD_and, BitVec.getLsbD_not, bitMask_getLsbD]
    by_cases he : k = (index % 8).toNat
    · rw [he, hoff, Bool.false_and]
    · simp [he, hk]
  · have hon : (mem (b.byteAddr index)).getLsbD (index % 8).toNat = true := by simpa using h
    rw [if_pos rfl, Function.update_eq_self_iff]
    refine BitVec.eq_of_getLsbD_eq fun k _ => ?_
    rw [BitVec.getLsbD_or, bitMask_getLsbD]
    by_cases he : k = (index % 8).toNat
    · rw [he, hon, Bool.true_or]
    · simp [he]

/-! ## ビットを落とす書き込み -/

def BitsZero (mem : Mem) (b : Bitmap) : Prop :=
  ∀ j, 0 ≤ j → j < b.bitcount → bitmapGetBit mem b j = 0

theorem bitmapGetBit_eq_zero {j : Int} :
    bitmapGetBit mem b j = 0 ↔ mem (b.byteAddr j) &&& bitMask j = 0 := by
  unfold bitmapGetBit
  split <;> simp_all

theorem bitmapWriteBit_zero {index bit j : Int} (hbit : bit ≠ 1)
    (hj : bitmapGetBit mem b j = 0) : bitmapGetBit (bitmapWriteBit mem b index bit) b j = 0 := by
  rw [bitmapGetBit_eq_zero] at hj ⊢
  simp only [bitmapWriteBit, if_neg hbit]
  by_cases ha : b.byteAddr j = b.byteAddr index
  · rw [ha] at hj ⊢
    rw [Function.update_self, BitVec.and_assoc, BitVec.and_comm (~~~bitMask index),
      ← BitVec.and_assoc, hj]
    exact BitVec.zero_and
  · rw [Function.update_of_ne ha]
    exact hj

theorem bitmapSetLoop_zero {bit : Int} (hbit : bit ≠ 1) (n : Nat) {index : Int}
    (h : BitsZero mem b) : BitsZero (bitmapSetLoop b bit n mem index) b := by
  induction n generalizing mem index with
  | zero => exact h
  | succ n ih =>
      simp only [bitmapSetLoop]
      split
      · exact ih (fun j h₀ h₁ => bitmapWriteBit_zero hbit (h j h₀ h₁))
      · exact h

theorem bitmapSetBit_zero {index count bit : Int} (hbit : bit ≠ 1) (h : BitsZero mem b) :
    BitsZero (bitmapSetBit mem b index count bit) b :=
  bitmapSetLoop_zero hbit _ h

/-! ## 区間への書き込み -/

/-- `bitmap_set_bit` の繰り返しは、区間のうちビット列の中にある部分だけを `bit` の値にする。 -/
theorem bitmapGetBit_setLoop (bit : Int) (n : Nat) {index j : Int} (hi : 0 ≤ index) (hj : 0 ≤ j) :
    bitmapGetBit (bitmapSetLoop b bit n mem index) b j =
      if index ≤ j ∧ j < index + n ∧ j < b.bitcount then (if bit = 1 then 1 else 0) else bitmapGetBit mem b j := by
  induction n generalizing mem index with
  | zero => rw [if_neg (by omega)]; rfl
  | succ n ih =>
      simp only [bitmapSetLoop]
      by_cases hlt : index < b.bitcount
      · rw [if_pos hlt, ih (by omega), bitmapGetBit_writeBit mem b bit hi hj]
        by_cases he : index = j
        · have hin : index ≤ j ∧ j < index + (n + 1 : Nat) ∧ j < b.bitcount := by omega
          rw [if_pos he, if_neg (by omega), if_pos hin]
        · rw [if_neg he]
          congr 1
          rw [eq_iff_iff]
          omega
      · rw [if_neg hlt, if_neg (by omega)]

theorem bitmapSetLoop_same {bit : Int} (hbit : bit = 0 ∨ bit = 1) (n : Nat) {index : Int}
    (h : ∀ j, index ≤ j → j < index + n → j < b.bitcount → bitmapGetBit mem b j = bit) :
    bitmapSetLoop b bit n mem index = mem := by
  induction n generalizing index with
  | zero => rfl
  | succ n ih =>
      simp only [bitmapSetLoop]
      split
      · rw [bitmapWriteBit_same hbit (h index (le_refl _) (by omega) ‹_›)]
        exact ih fun j h₁ h₂ => h j (by omega) (by omega)
      · rfl

/-- `bitmap_set_bit` の繰り返しは、ビット列の置き場のほかに触れない。 -/
theorem bitmapSetLoop_of_outside (bit : Int) (n : Nat) {index : Int} (hi : 0 ≤ index) {a : Nat}
    (ha : a < b.bits ∨ b.bits + b.byteLen ≤ a) : bitmapSetLoop b bit n mem index a = mem a := by
  induction n generalizing mem index with
  | zero => rfl
  | succ n ih =>
      simp only [bitmapSetLoop]
      split
      · have hne : a ≠ b.byteAddr index := by
          simp only [Bitmap.byteAddr, Bitmap.byteLen] at ha ⊢
          omega
        rw [ih (by omega), bitmapWriteBit_of_ne mem b bit hne]
      · rfl

/-- `bitmap_init` の直後は、ビット列のどのビットも初期値である。 -/
theorem bitmapGetBit_init {bits : Nat} (hbits : bits ≠ 0) {bitcount : Int} (hmax : bitcount < 2 ^ 31) (initBit : Int)
    {j : Int} (h₀ : 0 ≤ j) (h₁ : j < bitcount) :
    bitmapGetBit (bitmapInit mem bits bitcount initBit).1 (bitmapInit mem bits bitcount initBit).2 j =
      if initBit ≠ 0 then 1 else 0 := by
  have hlt : (j % 8).toNat < 8 := by omega
  have hbyte : (bitmapInit mem bits bitcount initBit).1 ((bitmapInit mem bits bitcount initBit).2.byteAddr j) =
      if initBit ≠ 0 then 255 else 0 := by
    have hlen := byteLen_le_memset (b := ⟨bitcount, bits⟩) (by dsimp only; omega) hmax
    simp only [Bitmap.byteLen] at hlen
    simp only [bitmapInit, Bitmap.byteAddr]
    rw [kernelMemset_int_apply hbits, if_pos (by omega)]
  rw [bitmapGetBit_eq, hbyte]
  by_cases h : initBit = 0
  · simp [h]
  · have hones : (255#8).getLsbD (j % 8).toNat = true := by
      rw [show 255#8 = BitVec.allOnes 8 from rfl, BitVec.getLsbD_allOnes, decide_eq_true_eq]
      exact hlt
    simp [h, hones]

theorem bitmapInit_zero {bits : Nat} (hbits : bits ≠ 0) {bitcount : Int} (hmax : bitcount < 2 ^ 31) :
    BitsZero (bitmapInit mem bits bitcount 0).1 (bitmapInit mem bits bitcount 0).2 := by
  intro j h₀ h₁
  rw [bitmapGetBit_init hbits hmax 0 h₀ h₁]
  simp

/-! ## 連続する等しいビットの探索 -/

/-- `q` からの `m` 個のビットが、ビット列の中にあって、すべて `bit` に等しい。 -/
def BitRun (mem : Mem) (b : Bitmap) (bit m q : Int) : Prop :=
  q + m ≤ b.bitcount ∧ ∀ j, q ≤ j → j < q + m → bitmapGetBit mem b j = bit

/-- `s` から先で、`m` 個のビットが等しい最初の位置が `r` である。 -/
structure FirstRun (mem : Mem) (b : Bitmap) (bit m s r : Int) : Prop where
  le : s ≤ r
  run : BitRun mem b bit m r
  first : ∀ q, s ≤ q → q < r → ¬ BitRun mem b bit m q

variable {bit count m s s' r : Int}

theorem FirstRun.of_skip (h : FirstRun mem b bit m s' r) (hs : s ≤ s')
    (hskip : ∀ q, s ≤ q → q < s' → ¬ BitRun mem b bit m q) : FirstRun mem b bit m s r := by
  refine ⟨by have := h.le; omega, h.run, fun q h₁ h₂ => ?_⟩
  by_cases hq : q < s'
  · exact hskip q h₁ hq
  · exact h.first q (by omega) h₂

theorem FirstRun.unique {r' : Int} (h : FirstRun mem b bit m s r) (h' : FirstRun mem b bit m s r') :
    r = r' := by
  by_contra hne
  rcases Int.lt_or_lt_of_ne hne with hlt | hlt
  · exact h'.first r h.le hlt h.run
  · exact h.first r' h'.le hlt h'.run

/-- 内側の `for` の終わり方。残りがすべて等しいか、等しくないビット `w` で抜けるか、末尾に達する。 -/
inductive ProbeEnd (mem : Mem) (b : Bitmap) (bit count i s ok : Int) (p : Probe) : Prop where
  | found : BitRun mem b bit (count - i) s → p = ⟨count, s + (count - i), ok⟩ → ProbeEnd mem b bit count i s ok p
  | differs (w : Int) : s ≤ w → w < s + (count - i) → bitmapGetBit mem b w ≠ bit → p.i < count →
      p.searchIdx = w + 1 → w < b.bitcount → ProbeEnd mem b bit count i s ok p
  | ends : b.bitcount < s + (count - i) → p.i < count → p.searchIdx = b.bitcount →
      ProbeEnd mem b bit count i s ok p

theorem bitmapProbe_end (mem : Mem) (bit : Int) (fuel : Nat) {i : Int} (ok : Int) (hfuel : b.bitcount - s ≤ fuel) (hi : i ≤ count)
    (hs : s ≤ b.bitcount) : ProbeEnd mem b bit count i s ok (bitmapProbe mem b bit count fuel ⟨i, s, ok⟩) := by
  induction fuel generalizing i s with
  | zero =>
      by_cases hc : i = count
      · exact .found ⟨by omega, fun j h₁ h₂ => by omega⟩ (by simp [bitmapProbe, hc])
      · exact .ends (by omega) (by simp only [bitmapProbe]; omega) (by simp only [bitmapProbe]; omega)
  | succ fuel ih =>
      simp only [bitmapProbe]
      by_cases hgo : i < count ∧ s < b.bitcount
      · rw [if_pos hgo]
        by_cases hbit : bitmapGetBit mem b s = bit
        · rw [if_neg (not_not.mpr hbit)]
          cases ih (i := i + 1) (s := s + 1) (by omega) (by omega) (by omega) with
          | found hrun hp =>
              refine .found ⟨by have := hrun.1; omega, fun j h₁ h₂ => ?_⟩ (by rw [hp]; congr 1; omega)
              by_cases hj : j = s
              · rw [hj]; exact hbit
              · exact hrun.2 j (by omega) (by omega)
          | differs w h₁ h₂ hw hpi hps hlt => exact .differs w (by omega) (by omega) hw hpi hps hlt
          | ends h₁ hpi hps => exact .ends (by omega) hpi hps
        · rw [if_pos hbit]
          exact .differs s (le_refl _) (by omega) hbit hgo.1 rfl hgo.2
      · rw [if_neg hgo]
        by_cases hc : i = count
        · exact .found ⟨by omega, fun j h₁ h₂ => by omega⟩ (by rw [hc]; congr 1; omega)
        · exact .ends (by omega) (by simp only; omega) (by simp only; omega)

/-- `bitmap_alloc_nbits` の結果。内側の `for` は先頭のビットをもう一度見て始まるので、探しているのは `count` 個ではなく
`max (count - 1) 1` 個の並びである。 -/
inductive AllocEnd (mem : Mem) (b : Bitmap) (bit count s : Int) (a : AllocNbits) : Prop where
  | found (r : Int) : FirstRun mem b bit (max (count - 1) 1) s r →
      a = ⟨r, bitmapSetBit mem b r count (~~~bit), r + count - 1⟩ → AllocEnd mem b bit count s a
  | none : (∀ q, s ≤ q → ¬ BitRun mem b bit (max (count - 1) 1) q) → a = ⟨-1, mem, max s b.bitcount⟩ →
      AllocEnd mem b bit count s a

theorem AllocEnd.of_skip {a : AllocNbits} (h : AllocEnd mem b bit count s' a) (hs : s ≤ s')
    (hb : s' ≤ b.bitcount)
    (hskip : ∀ q, s ≤ q → q < s' → ¬ BitRun mem b bit (max (count - 1) 1) q) : AllocEnd mem b bit count s a := by
  cases h with
  | found r hr ha => exact .found r (hr.of_skip hs hskip) ha
  | none hno ha =>
      refine .none (fun q hq => ?_) (by rw [ha, max_eq_right hb, max_eq_right (hs.trans hb)])
      by_cases hq' : q < s'
      · exact hskip q hq hq'
      · exact hno q (by omega)

theorem bitmapSearch_end (fuel : Nat) (hfuel : b.bitcount - s ≤ fuel) (hc : 1 ≤ count) :
    AllocEnd mem b bit count s (bitmapSearch mem b bit count fuel s) := by
  induction fuel generalizing s with
  | zero =>
      refine .none (fun q hq hrun => ?_) (by simp only [bitmapSearch]; rw [max_eq_left (by omega)])
      have := hrun.1
      omega
  | succ fuel ih =>
      simp only [bitmapSearch]
      by_cases hs : s < b.bitcount
      · rw [if_pos hs]
        by_cases hbit : bitmapGetBit mem b s = bit
        · rw [if_neg (not_not.mpr hbit)]
          have hp := bitmapProbe_end mem bit (b.bitcount - s).toNat s (by omega) hc hs.le
          generalize bitmapProbe mem b bit count (b.bitcount - s).toNat ⟨1, s, s⟩ = p at hp
          cases hp with
          | found hrun hp =>
              subst hp
              rw [if_pos (le_refl _)]
              refine .found s ⟨le_refl _, ⟨?_, fun j h₁ h₂ => ?_⟩, fun q h₁ h₂ => by omega⟩
                (by simp only [AllocNbits.mk.injEq, true_and]; omega)
              · have := hrun.1; omega
              · by_cases hj : j = s
                · rw [hj]; exact hbit
                · exact hrun.2 j h₁ (by omega)
          | differs w h₁ h₂ hw hpi hps hlt =>
              rw [if_neg (by omega)]
              -- 等しくないビット `w` を含む位置からの並びはない。
              refine (ih (by omega)).of_skip (by omega) (by omega) fun q hq hq' hrun => hw (hrun.2 w (by omega) (by omega))
          | ends h₁ hpi hps =>
              rw [if_neg (by omega)]
              refine (ih (by omega)).of_skip (by omega) (by omega) fun q hq hq' hrun => ?_
              have := hrun.1
              omega
        · rw [if_pos hbit]
          refine (ih (by omega)).of_skip (by omega) (by omega) fun q hq hq' hrun => hbit ?_
          exact hrun.2 s (by omega) (by omega)
      · rw [if_neg hs]
        refine .none (fun q hq hrun => ?_) (by rw [max_eq_left (by omega)])
        have := hrun.1
        omega

theorem bitmapAllocNbits_end (mem : Mem) (b : Bitmap) (bit s : Int) (hc : 1 ≤ count) :
    AllocEnd mem b bit count s (bitmapAllocNbits s mem b bit count) :=
  bitmapSearch_end _ (by omega) hc

theorem BitsZero.bitRun (h : BitsZero mem b) (hr : 0 ≤ r) (hm : r + m ≤ b.bitcount) : BitRun mem b 0 m r :=
  ⟨hm, fun j h₁ h₂ => h j (by omega) (by omega)⟩

/-- すべて 0 のビット列では、探索の位置から先に `count - 1` 個のビットがあれば、その位置を返して `count - 1` 進む。 -/
theorem bitmapAllocNbits_zero_some (h : BitsZero mem b) (h₀ : 0 ≤ s) (hc : 1 ≤ count)
    (hs : s < b.bitcount) (hfit : s + count ≤ b.bitcount + 1) :
    bitmapAllocNbits s mem b 0 count =
      ⟨s, bitmapSetBit mem b s count (-1), s + count - 1⟩ := by
  have hrun : BitRun mem b 0 (max (count - 1) 1) s := h.bitRun h₀ (by omega)
  cases bitmapAllocNbits_end mem b 0 s hc with
  | found r hr ha =>
      have hrs : r = s := hr.unique ⟨le_refl _, hrun, fun q h₁ h₂ => by omega⟩
      rw [ha, hrs]
      rfl
  | none hno _ => exact absurd hrun (hno s (le_refl _))

theorem bitmapAllocNbits_zero_none (mem : Mem) (hc : 1 ≤ count) (hfit : ¬(s < b.bitcount ∧ s + count ≤ b.bitcount + 1)) :
    bitmapAllocNbits s mem b 0 count = ⟨-1, mem, max s b.bitcount⟩ := by
  cases bitmapAllocNbits_end mem b 0 s hc with
  | found r hr ha =>
      have h₁ := hr.le
      have h₂ := hr.run.1
      omega
  | none _ ha => exact ha

end IdealX86
