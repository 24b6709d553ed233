import IdealX86.Tools.Lemmas.Bitmap

/-!
# `bitmap_alloc_nbits` の探索の定理

探索は、空きの始まりになりうる位置を飛ばさずに進み、必ず終わって、ビット列の外には触れない。終わることと範囲は、同じ手順に検査を
加えたもので示す：周の数が尽きるか、ビット列の外に触れると `none` になる。
-/

namespace IdealX86

variable {mem : Mem} {b : Bitmap} {bit count s q : Int}

/-! ## 飛ばされない位置 -/

theorem BitRun.mono {m m' : Int} (h : BitRun mem b bit m q) (hm : m' ≤ m) : BitRun mem b bit m' q :=
  ⟨by have := h.1; omega, fun j h₁ h₂ => h.2 j h₁ (by omega)⟩

/-- `bitmap_alloc_nbits` が `r` を返すなら、探索の位置 `s` から `r` の手前までに `count` 個の並びは始まらず、-1 を返すなら、`s` から
先のどこにも始まらない。 -/
theorem bitmapAllocNbits_skips_none (mem : Mem) (b : Bitmap) (bit : Int) (s : Nat) {count : Int} (hc : 1 ≤ count) :
    let r := (bitmapAllocNbits s mem b bit count).ret
    (0 ≤ r → s ≤ r ∧ ∀ q : Int, s ≤ q → q < r → ¬ BitRun mem b bit count q) ∧
      (r = -1 → ∀ q : Int, s ≤ q → ¬ BitRun mem b bit count q) := by
  cases bitmapAllocNbits_end mem b bit s hc with
  | found r hr ha =>
      rw [ha]
      have hle := hr.le
      refine ⟨fun _ => ⟨hle, fun q h₁ h₂ hq => hr.first q h₁ h₂ (hq.mono (by omega))⟩, fun he => ?_⟩
      simp only at he
      omega
  | none hno ha =>
      rw [ha]
      exact ⟨fun h₀ => by simp at h₀, fun _ q hq hrun => hno q hq (hrun.mono (by omega))⟩

/-- 四番から空いている 8 ビットの列で空きを三つ求めると、4 が返る。 -/
theorem bitmapAllocNbits_skips_none_three :
    let r := (bitmapAllocNbits (0 : Nat) (fun _ => 0x0F) ⟨8, 0x9000⟩ 0 3).ret
    r = 4 ∧
      (0 ≤ r → (0 : Nat) ≤ r ∧ ∀ q : Int, (0 : Nat) ≤ q → q < r → ¬ BitRun (fun _ => 0x0F) ⟨8, 0x9000⟩ 0 3 q) ∧
      (r = -1 → ∀ q : Int, (0 : Nat) ≤ q → ¬ BitRun (fun _ => 0x0F) ⟨8, 0x9000⟩ 0 3 q) :=
  ⟨by decide, bitmapAllocNbits_skips_none _ _ _ 0 (by decide)⟩

/-! ## 検査つきの探索 -/

def bitmapGetBitChecked (mem : Mem) (b : Bitmap) (index : Int) : Option Int :=
  if 0 ≤ index ∧ index < b.bitcount then some (bitmapGetBit mem b index) else none

def bitmapWriteBitChecked (mem : Mem) (b : Bitmap) (index bit : Int) : Option Mem :=
  if 0 ≤ index ∧ index < b.bitcount then some (bitmapWriteBit mem b index bit) else none

def bitmapSetLoopChecked (b : Bitmap) (bit : Int) : Nat → Mem → Int → Option Mem
  | 0, mem, _ => some mem
  | n + 1, mem, index =>
      if index < b.bitcount then do
        let mem ← bitmapWriteBitChecked mem b index bit
        bitmapSetLoopChecked b bit n mem (index + 1)
      else some mem

def bitmapProbeChecked (mem : Mem) (b : Bitmap) (bit count : Int) : Nat → Probe → Option Probe
  | 0, _ => none
  | fuel + 1, p =>
      if p.i < count ∧ p.searchIdx < b.bitcount then do
        let x ← bitmapGetBitChecked mem b p.searchIdx
        if x ≠ bit then some ⟨p.i, p.searchIdx + 1, -1⟩
        else bitmapProbeChecked mem b bit count fuel ⟨p.i + 1, p.searchIdx + 1, p.okIdx⟩
      else some p

/-- 外側の `while`。第一の引数は、内側の `for` の周の数の上限である。 -/
def bitmapSearchChecked (fuel : Nat) (mem : Mem) (b : Bitmap) (bit count : Int) : Nat → Int → Option AllocNbits
  | 0, _ => none
  | n + 1, s =>
      if s < b.bitcount then do
        let x ← bitmapGetBitChecked mem b s
        if x ≠ bit then bitmapSearchChecked fuel mem b bit count n (s + 1)
        else
          let p ← bitmapProbeChecked mem b bit count fuel ⟨1, s, s⟩
          if p.i ≥ count then
            let mem ← bitmapSetLoopChecked b (~~~bit) count.toNat mem p.okIdx
            some ⟨p.okIdx, mem, p.searchIdx⟩
          else bitmapSearchChecked fuel mem b bit count n p.searchIdx
      else some ⟨-1, mem, s⟩

def bitmapAllocNbitsChecked (fuel : Nat) (searchIdx : Int) (mem : Mem) (b : Bitmap) (bit count : Int) :
    Option AllocNbits :=
  bitmapSearchChecked fuel mem b bit count fuel searchIdx

theorem bitmapSetLoopChecked_eq (bit : Int) (n : Nat) {index : Int} (hi : 0 ≤ index) :
    bitmapSetLoopChecked b bit n mem index = some (bitmapSetLoop b bit n mem index) := by
  induction n generalizing mem index with
  | zero => rfl
  | succ n ih =>
      simp only [bitmapSetLoopChecked, bitmapSetLoop]
      by_cases hlt : index < b.bitcount
      · rw [if_pos hlt, if_pos hlt, bitmapWriteBitChecked, if_pos ⟨hi, hlt⟩]
        exact ih (by omega)
      · rw [if_neg hlt, if_neg hlt]

theorem bitmapProbeChecked_eq (mem : Mem) (bit count : Int) {fuel n : Nat} {p : Probe} (h₀ : 0 ≤ p.searchIdx)
    (hfuel : (b.bitcount - p.searchIdx).toNat < fuel) (hn : (b.bitcount - p.searchIdx).toNat ≤ n) :
    bitmapProbeChecked mem b bit count fuel p = some (bitmapProbe mem b bit count n p) := by
  induction n generalizing fuel p with
  | zero =>
      obtain _ | fuel := fuel
      · omega
      · rw [bitmapProbeChecked, bitmapProbe, if_neg (by omega)]
  | succ n ih =>
      obtain _ | fuel := fuel
      · omega
      · simp only [bitmapProbeChecked, bitmapProbe]
        by_cases hgo : p.i < count ∧ p.searchIdx < b.bitcount
        · rw [if_pos hgo, if_pos hgo, bitmapGetBitChecked, if_pos ⟨h₀, hgo.2⟩, Option.bind_eq_bind, Option.bind_some]
          by_cases hbit : bitmapGetBit mem b p.searchIdx ≠ bit
          · rw [if_pos hbit, if_pos hbit]
          · rw [if_neg hbit, if_neg hbit]
            exact ih (by simp only; omega) (by simp only; omega) (by simp only; omega)
        · rw [if_neg hgo, if_neg hgo]

/-- 内側の `for` の結果：位置は戻らず、末尾を越えない。足りないまま抜けたときは、位置が進んでいる。 -/
structure ProbeRange (b : Bitmap) (count : Int) (p r : Probe) : Prop where
  le : p.searchIdx ≤ r.searchIdx
  le_bitcount : r.searchIdx ≤ b.bitcount
  okIdx : count ≤ r.i → r.okIdx = p.okIdx
  progress : r.i < count → p.searchIdx < b.bitcount → p.searchIdx < r.searchIdx

theorem bitmapProbe_range (mem : Mem) (bit count : Int) {n : Nat} {p : Probe} (hs : p.searchIdx ≤ b.bitcount)
    (hn : (b.bitcount - p.searchIdx).toNat ≤ n) : ProbeRange b count p (bitmapProbe mem b bit count n p) := by
  induction n generalizing p with
  | zero => exact ⟨le_refl _, hs, fun _ => rfl, fun _ hlt => by omega⟩
  | succ n ih =>
      simp only [bitmapProbe]
      by_cases hgo : p.i < count ∧ p.searchIdx < b.bitcount
      · rw [if_pos hgo]
        by_cases hbit : bitmapGetBit mem b p.searchIdx ≠ bit
        · rw [if_pos hbit]
          exact ⟨by simp only; omega, by simp only; omega, fun hc => by simp only at hc; omega,
            fun _ _ => by simp only; omega⟩
        · have h := ih (p := ⟨p.i + 1, p.searchIdx + 1, p.okIdx⟩) (by simp only; omega) (by simp only; omega)
          have hle := h.le
          simp only at hle
          rw [if_neg hbit]
          exact ⟨by omega, h.le_bitcount, h.okIdx, fun _ _ => by omega⟩
      · rw [if_neg hgo]
        exact ⟨le_refl _, hs, fun _ => rfl, fun hi hlt => absurd ⟨hi, hlt⟩ hgo⟩

/-- 位置 `s` から始めた探索の結果：位置は戻らず、末尾を越えず、返す値は -1 かビットの番号である。 -/
structure SearchRange (b : Bitmap) (s : Int) (r : AllocNbits) : Prop where
  le : s ≤ r.searchIdx
  le_max : r.searchIdx ≤ max b.bitcount s
  ret : r.ret = -1 ∨ 0 ≤ r.ret ∧ r.ret < b.bitcount

theorem SearchRange.of_le {s' : Int} {r : AllocNbits} (h : SearchRange b s' r) (hs : s ≤ s') (hb : s' ≤ b.bitcount) :
    SearchRange b s r := by
  have h₁ := h.le
  have h₂ := h.le_max
  exact ⟨by omega, by omega, h.ret⟩

/-- 外側の `while` は終わり、ビット列の中だけに触れる。 -/
theorem bitmapSearchChecked_eq (mem : Mem) (bit count : Int) {fuel m n : Nat} (h₀ : 0 ≤ s)
    (hfuel : (b.bitcount - s).toNat < fuel) (hm : (b.bitcount - s).toNat < m) (hn : (b.bitcount - s).toNat ≤ n) :
    bitmapSearchChecked fuel mem b bit count m s = some (bitmapSearch mem b bit count n s) ∧
      SearchRange b s (bitmapSearch mem b bit count n s) := by
  induction n generalizing m s with
  | zero =>
      obtain _ | m := m
      · omega
      · rw [bitmapSearchChecked, if_neg (by omega), bitmapSearch]
        exact ⟨rfl, le_refl _, le_max_right _ _, .inl rfl⟩
  | succ n ih =>
      obtain _ | m := m
      · omega
      · simp only [bitmapSearchChecked, bitmapSearch]
        by_cases hs : s < b.bitcount
        · rw [if_pos hs, if_pos hs, bitmapGetBitChecked, if_pos ⟨h₀, hs⟩, Option.bind_eq_bind, Option.bind_some]
          by_cases hbit : bitmapGetBit mem b s ≠ bit
          · rw [if_pos hbit, if_pos hbit]
            obtain ⟨h₁, h₂⟩ := ih (m := m) (s := s + 1) (by omega) (by omega) (by omega) (by omega)
            exact ⟨h₁, h₂.of_le (by omega) (by omega)⟩
          · have hprobe : bitmapProbeChecked mem b bit count fuel ⟨1, s, s⟩ =
                some (bitmapProbe mem b bit count (b.bitcount - s).toNat ⟨1, s, s⟩) :=
              bitmapProbeChecked_eq mem bit count h₀ hfuel (le_refl _)
            have hrange : ProbeRange b count ⟨1, s, s⟩ (bitmapProbe mem b bit count (b.bitcount - s).toNat ⟨1, s, s⟩) :=
              bitmapProbe_range mem bit count hs.le (le_refl _)
            rw [if_neg hbit, if_neg hbit, hprobe]
            generalize bitmapProbe mem b bit count (b.bitcount - s).toNat ⟨1, s, s⟩ = p at hrange ⊢
            have hle : s ≤ p.searchIdx := hrange.le
            have hb := hrange.le_bitcount
            simp only [Option.bind_eq_bind, Option.bind_some]
            by_cases hfound : p.i ≥ count
            · have hok : p.okIdx = s := hrange.okIdx hfound
              rw [if_pos hfound, if_pos hfound, hok, bitmapSetLoopChecked_eq _ _ h₀, Option.bind_some]
              exact ⟨rfl, hle, by simp only; omega, .inr ⟨h₀, hs⟩⟩
            · have hlt : s < p.searchIdx := hrange.progress (by omega) hs
              rw [if_neg hfound, if_neg hfound]
              obtain ⟨h₁, h₂⟩ := ih (m := m) (s := p.searchIdx) (by omega) (by omega) (by omega) (by omega)
              exact ⟨h₁, h₂.of_le hle hb⟩
        · rw [if_neg hs, if_neg hs]
          exact ⟨rfl, le_refl _, le_max_right _ _, .inl rfl⟩

/-- `bitmap_alloc_nbits` は、`count` が 0 や負のときも含めて終わり、ビット列の中のビットだけを読み書きする。探索の位置は戻らず、
`bitcount` ともとの位置との大きい方を越えず、返す値は -1 かビットの番号である。 -/
theorem bitmapAllocNbits_in_range (mem : Mem) (b : Bitmap) (bit count : Int) (s : Nat) :
    ∃ N, ∀ fuel ≥ N, bitmapAllocNbitsChecked fuel s mem b bit count = some (bitmapAllocNbits s mem b bit count) ∧
      SearchRange b s (bitmapAllocNbits s mem b bit count) := by
  refine ⟨(b.bitcount - s).toNat + 1, fun fuel hf => ?_⟩
  exact bitmapSearchChecked_eq mem bit count (by omega) (by omega) (by omega) (le_refl _)

end IdealX86
