import IdealX86.Loader.Disk
import IdealX86.Loader.Lemmas.Elf
import Mathlib.Data.Finset.Lattice.Fold

/-!
# ディスクの読み出しの定理

`read_disk` は、ディスクがどれだけ遅くても、求めたセクタをちょうど一度ずつ、順に読む。終わるのは、求めた数がディスクの数えられる数で、
どのセクタも読めるときに限る。
-/

namespace IdealX86

variable {d : Drive} {a a' : Ata} {s s' : LoadState} {fuel n sector left p : Nat} {bytes : List Byte}

/-! ## 状態のポート -/

theorem busy_not_ready : ∀ v : Byte, (v ||| ATA_BSY) &&& 0x88 ≠ 0x8 := by decide +kernel

theorem drq_ready : ∀ v : Byte, (v &&& 0x76 ||| ATA_DRQ) &&& 0x88 = 0x8 := by decide +kernel

theorem rest_not_ready : ∀ v : Byte, (v &&& 0x76) &&& 0x88 ≠ 0x8 ∧ (v &&& 0x76 ||| ATA_ERR) &&& 0x88 ≠ 0x8 := by
  decide +kernel

theorem readyAfter_busy (d : Drive) (sector left : Nat) (bytes : List Byte) :
    ∀ (n : Nat) (a : Ata), a.phase = .busy n sector left bytes →
      Lib.ReadyAfter (Ata.readStatus d) (fun v => v &&& 0x88 = 0x8) n a
        { a with phase := .data sector left bytes, reads := a.reads + (n + 1) } := by
  intro n
  induction n with
  | zero =>
      intro a h
      have hr : a.readStatus d =
          (d.junk a.reads &&& 0x76 ||| ATA_DRQ, { a with phase := .data sector left bytes, reads := a.reads + 1 }) := by
        rw [Ata.readStatus, h]
      have hnow : Lib.ReadyAfter (Ata.readStatus d) (fun v => v &&& 0x88 = 0x8) 0 a (a.readStatus d).2 :=
        .now (by rw [hr]; exact decide_eq_true (drq_ready _))
      rwa [hr] at hnow
  | succ n ih =>
      intro a h
      have hr : a.readStatus d =
          (d.junk a.reads ||| ATA_BSY, { a with phase := .busy n sector left bytes, reads := a.reads + 1 }) := by
        rw [Ata.readStatus, h]
      refine .later (by rw [hr]; exact decide_eq_false (busy_not_ready _)) ?_
      have hrest := ih (a.readStatus d).2 (by rw [hr])
      rw [hr] at hrest ⊢
      rwa [Nat.add_assoc, Nat.add_comm 1] at hrest

theorem pollDisk_eq_none (h : a.phase = .idle ∨ a.phase = .failed) : pollDisk d fuel a = none := by
  refine Lib.poll_eq_none (I := fun a => a.phase = .idle ∨ a.phase = .failed) (fun a h => ?_) h
  rcases h with h | h
  · rw [Ata.readStatus, h]
    exact ⟨decide_eq_false (rest_not_ready _).1, .inl rfl⟩
  · rw [Ata.readStatus, h]
    exact ⟨decide_eq_false (rest_not_ready _).2, .inr rfl⟩

/-! ## 一つのセクタ -/

theorem serve_busy {v : Vector Byte 512} (hl : left ≠ 0) (hv : d.media sector = some v) :
    Ata.serve d sector left = .busy (d.delay sector) sector left v.toList := by
  rw [Ata.serve, if_neg hl, hv]

theorem serve_of_pollDisk (h : a.phase = Ata.serve d sector left) (hp : pollDisk d fuel a = some a') :
    ∃ v, left ≠ 0 ∧ d.media sector = some v ∧ a'.phase = .data sector left v.toList := by
  by_cases hl : left = 0
  · rw [pollDisk_eq_none (.inl (by rw [h, Ata.serve, if_pos hl]))] at hp
    cases hp
  · cases hv : d.media sector with
    | none =>
        rw [pollDisk_eq_none (.inr (by rw [h, Ata.serve, if_neg hl, hv]))] at hp
        cases hp
    | some v =>
        rw [serve_busy hl hv] at h
        have heq := (readyAfter_busy d sector left v.toList _ a h).poll_eq_some hp
        exact ⟨v, hl, rfl, by rw [heq]⟩

theorem append_low (lo hi : Byte) : (hi ++ lo).setWidth 8 = lo := by
  refine BitVec.eq_of_getLsbD_eq fun i hlt => ?_
  simp only [BitVec.getLsbD_setWidth, BitVec.getLsbD_append, hlt, decide_true, Bool.true_and, if_true]

theorem append_high (lo hi : Byte) : ((hi ++ lo) >>> 8).setWidth 8 = hi := by
  refine BitVec.eq_of_getLsbD_eq fun i hlt => ?_
  have hge : ¬ 8 + i < 8 := by omega
  simp only [BitVec.getLsbD_setWidth, BitVec.getLsbD_ushiftRight, BitVec.getLsbD_append, hlt, hge, decide_true,
    Bool.true_and, if_false, Nat.add_sub_cancel_left]

/-- 渡す番のディスクから読んだ語は、セクタのバイトを順に書く。 -/
theorem readWords_data (h : a.phase = .data sector left bytes) (hlen : bytes.length = 2 * (n + 1)) :
    readWords d (n + 1) p a s = ({ a with phase := Ata.serve d (sector + 1) (left - 1) }, s.storeAll p bytes) := by
  induction n generalizing p a s bytes with
  | zero =>
      obtain ⟨lo, hi, rfl⟩ := List.length_eq_two.mp hlen
      simp only [readWords, Ata.inw, h, if_pos, append_low, append_high]
      rfl
  | succ n ih =>
      match bytes, hlen with
      | lo :: hi :: bytes, hlen =>
          have hlen' : bytes.length = 2 * (n + 1) := by simpa [Nat.mul_add] using hlen
          have hne : bytes ≠ [] := by rintro rfl; simp at hlen'
          rw [readWords]
          simp only [Ata.inw, h, if_neg hne, append_low, append_high]
          rw [ih rfl hlen']
          rfl

/-! ## セクタの列 -/

/-- `sector` からの続いたセクタの中身。 -/
def Drive.Holds (d : Drive) : Nat → List (Vector Byte 512) → Prop
  | _, [] => True
  | sector, v :: vs => d.media sector = some v ∧ d.Holds (sector + 1) vs

/-- 終わった読み出しは、求めた数のセクタを順に書き、その次のセクタの番のディスクを残す。 -/
theorem readSectors_some (h : a.phase = Ata.serve d sector left)
    (hrun : readSectors d fuel n p a s = some (a', s')) :
    n ≤ left ∧ a'.phase = Ata.serve d (sector + n) (left - n) ∧
      ∃ vs, vs.length = n ∧ d.Holds sector vs ∧ s' = s.storeAll p (vs.flatMap Vector.toList) := by
  induction n generalizing sector left p a s with
  | zero => cases hrun; exact ⟨Nat.zero_le _, h, [], rfl, trivial, rfl⟩
  | succ n ih =>
      obtain ⟨a₁, hpoll, hrest⟩ := Option.bind_eq_some_iff.mp hrun
      obtain ⟨v, hl, hv, h₁⟩ := serve_of_pollDisk h hpoll
      have hlen : v.toList.length = 2 * (255 + 1) := v.length_toList
      rw [show SECTOR_SIZE / 2 = 255 + 1 from rfl, readWords_data h₁ hlen] at hrest
      obtain ⟨hle, hphase, vs, hvs, hholds, rfl⟩ := ih rfl hrest
      refine ⟨by omega, ?_, v :: vs, by rw [List.length_cons, hvs], ⟨hv, hholds⟩, ?_⟩
      · rw [hphase, Nat.add_assoc, Nat.add_comm 1, Nat.sub_sub, Nat.add_comm 1]
      · rw [List.flatMap_cons, storeAll_append, v.length_toList]
        rfl

theorem readSectors_isSome (h : a.phase = Ata.serve d sector left) (hn : n ≤ left)
    (hread : ∀ k < n, (d.media (sector + k)).isSome) (hfuel : ∀ k < n, d.delay (sector + k) < fuel) :
    (readSectors d fuel n p a s).isSome := by
  induction n generalizing sector left p a s with
  | zero => rfl
  | succ n ih =>
      obtain ⟨v, hv⟩ := Option.isSome_iff_exists.mp (hread 0 (Nat.succ_pos n))
      have hbusy := readyAfter_busy d sector left v.toList _ a (h.trans (serve_busy (by omega) hv))
      have hlen : v.toList.length = 2 * (255 + 1) := v.length_toList
      rw [readSectors, pollDisk, hbusy.poll (hfuel 0 (Nat.succ_pos n)), Option.bind_some,
        show SECTOR_SIZE / 2 = 255 + 1 from rfl, readWords_data rfl hlen]
      refine ih rfl (by omega) (fun k hk => ?_) (fun k hk => ?_)
      · rw [Nat.add_assoc, Nat.add_comm 1]
        exact hread (k + 1) (by omega)
      · rw [Nat.add_assoc, Nat.add_comm 1]
        exact hfuel (k + 1) (by omega)

/-! ## 命令 -/

theorem toNat_append_byte {w : Nat} (x : BitVec w) (y : Byte) : (x ++ y).toNat = x.toNat * 256 + y.toNat := by
  rw [BitVec.toNat_append, ← Nat.shiftLeft_add_eq_or_of_lt y.isLt, Nat.shiftLeft_eq]

/-- 四つに分けて二度に書いた番号と数は、ディスクの中で元に戻る。数は下位 16 ビットだけが届く。 -/
theorem diskCommand_phase (d : Drive) (h : a.accepts = true) (sector sectorCount : BitVec 32) :
    (diskCommand d sector sectorCount a).phase =
      Ata.serve d sector.toNat (if sectorCount.toNat % 65536 = 0 then 65536 else sectorCount.toNat % 65536) := by
  have hlba : ((0 : Byte) ++ (0 : Byte) ++ (sector >>> 24).setWidth 8 ++ (sector >>> 16).setWidth 8 ++
      (sector >>> 8).setWidth 8 ++ sector.setWidth 8).toNat = sector.toNat := by
    have hlt := sector.isLt
    have hzero : (0 : Byte).toNat = 0 := rfl
    simp only [toNat_append_byte, BitVec.toNat_setWidth, BitVec.toNat_ushiftRight, Nat.shiftRight_eq_div_pow, hzero]
    omega
  have hcount : ((sectorCount >>> 8).setWidth 8 ++ sectorCount.setWidth 8).toNat = sectorCount.toNat % 65536 := by
    have hlt := sectorCount.isLt
    simp only [toNat_append_byte, BitVec.toNat_setWidth, BitVec.toNat_ushiftRight, Nat.shiftRight_eq_div_pow]
    omega
  obtain ⟨dev, cnt, low, mid, high, phase, reads⟩ := a
  have hstart : (diskCommand d sector sectorCount ⟨dev, cnt, low, mid, high, phase, reads⟩).phase =
      if (0x24 : Byte) = ATA_READ_EXT ∧ (0xE0 : Byte) &&& 0x50 = 0x40 then
        Ata.serve d
          ((0 : Byte) ++ (0 : Byte) ++ (sector >>> 24).setWidth 8 ++ (sector >>> 16).setWidth 8 ++
            (sector >>> 8).setWidth 8 ++ sector.setWidth 8).toNat
          (if ((sectorCount >>> 8).setWidth 8 ++ sectorCount.setWidth 8).toNat = 0 then 65536
            else ((sectorCount >>> 8).setWidth 8 ++ sectorCount.setWidth 8).toNat)
      else .failed := by
    cases phase with
    | idle => simp [diskCommand, Ata.outb, Ata.accepts, Ata.lba, Ata.sectors]
    | failed => simp [diskCommand, Ata.outb, Ata.accepts, Ata.lba, Ata.sectors]
    | busy => cases h
    | data => cases h
  rw [hstart, if_pos (by decide), hlba, hcount]

/-! ## `read_disk` の効果 -/

theorem count_le_iff (c : BitVec 32) :
    c.toNat ≤ (if c.toNat % 65536 = 0 then 65536 else c.toNat % 65536) ↔ c.toNat ≤ 65536 := by
  split <;> omega

theorem flatMap_getElem? (vs : List (Vector Byte 512)) {k : Nat} (hk : k < vs.length) (j : Fin 512) :
    (vs.flatMap Vector.toList)[512 * k + j.val]? = some (vs[k][j]) := by
  induction vs generalizing k with
  | nil => simp at hk
  | cons v vs ih =>
      rw [List.flatMap_cons]
      cases k with
      | zero =>
          rw [List.getElem?_append_left (by simp)]
          simp
      | succ k =>
          have hk' : k < vs.length := by simpa using hk
          rw [List.getElem?_append_right (by simp; omega), v.length_toList,
            show 512 * (k + 1) + j.val - 512 = 512 * k + j.val by omega, ih hk']
          rfl

theorem Drive.Holds.getElem {vs : List (Vector Byte 512)} (h : d.Holds sector vs) {k : Nat} (hk : k < vs.length) :
    d.media (sector + k) = some vs[k] := by
  induction vs generalizing sector k with
  | nil => simp at hk
  | cons v vs ih =>
      cases k with
      | zero => exact h.1
      | succ k =>
          rw [show sector + (k + 1) = sector + 1 + k by omega]
          simpa using ih h.2 (k := k) (by simpa using hk)

/-- `buffer` から、`sector` からの `count` 個のセクタがあり、ほかのアドレスは元のままである。 -/
structure DiskRead (d : Drive) (sector count buffer : Nat) (mem mem' : Mem) : Prop where
  bytes : ∀ k < count, ∃ v, d.media (sector + k) = some v ∧
    ∀ j : Fin 512, mem' ((buffer + 512 * k + j.val) % 2 ^ 32) = v[j]
  frame : ∀ x, ¬ Span buffer (512 * count) x → mem' x = mem x

section
variable {first sectorCount : BitVec 32} {buffer : Nat}

theorem readDisk_some (ha : a.accepts = true) (h : readDisk d fuel first sectorCount buffer a s = some (a', s')) :
    sectorCount.toNat ≤ 65536 ∧ DiskRead d first.toNat sectorCount.toNat buffer s.mem s'.mem ∧
      (sectorCount ≠ 0 → a'.phase = .idle) := by
  obtain ⟨hle, hidle, vs, hlen, hholds, rfl⟩ := readSectors_some (diskCommand_phase d ha first sectorCount) h
  have hle' := (count_le_iff _).mp hle
  have hbytes : (vs.flatMap Vector.toList).length = 512 * sectorCount.toNat := by
    simp [List.length_flatMap, hlen, Nat.mul_comm]
  refine ⟨hle', ⟨fun k hk => ⟨vs[k], hholds.getElem (by omega), fun j => ?_⟩, fun x hx => ?_⟩, fun hne => ?_⟩
  · rw [Nat.add_assoc]
    exact storeAll_apply s buffer (by omega) (flatMap_getElem? vs (by omega) j)
  · refine (storeAll_writes s buffer _).frame x ?_
    rwa [hbytes]
  · have hpos : sectorCount.toNat ≠ 0 := fun e => hne (BitVec.eq_of_toNat_eq e)
    have hleft : (if sectorCount.toNat % 65536 = 0 then 65536 else sectorCount.toNat % 65536) = sectorCount.toNat := by
      split <;> omega
    rw [hidle, hleft, Nat.sub_self]
    rfl

variable (first sectorCount) in
theorem readDisk_isSome (ha : a.accepts = true) (hle : sectorCount.toNat ≤ 65536)
    (hread : ∀ k < sectorCount.toNat, (d.media (first.toNat + k)).isSome) (buffer : Nat) (s : LoadState) :
    ∃ F, ∀ fuel, F ≤ fuel → (readDisk d fuel first sectorCount buffer a s).isSome := by
  refine ⟨(Finset.range sectorCount.toNat).sup (fun k => d.delay (first.toNat + k)) + 1, fun fuel hf => ?_⟩
  refine readSectors_isSome (diskCommand_phase d ha first sectorCount) ((count_le_iff _).mpr hle) hread fun k hk => ?_
  have hsup := Finset.le_sup (f := fun k => d.delay (first.toNat + k)) (Finset.mem_range.mpr hk)
  omega

end

/-- `read_disk` は、求めた数が 65536 以下でどのセクタも読めるとき、またそのときに限り、十分に待てば終わる。終わったとき、バッファには求めた
セクタが順にあり、ほかのアドレスは元のままで、一つでも読んでいればディスクは次の命令を受け取れる。 -/
theorem readDisk_spec (d : Drive) (sector sectorCount : BitVec 32) (buffer : Nat) (a : Ata) (s : LoadState)
    (ha : a.accepts = true) :
    ((∃ fuel, (readDisk d fuel sector sectorCount buffer a s).isSome) ↔
      sectorCount.toNat ≤ 65536 ∧ ∀ k < sectorCount.toNat, (d.media (sector.toNat + k)).isSome) ∧
    ∀ fuel a' s', readDisk d fuel sector sectorCount buffer a s = some (a', s') →
      DiskRead d sector.toNat sectorCount.toNat buffer s.mem s'.mem ∧ (sectorCount ≠ 0 → a'.phase = .idle) := by
  refine ⟨⟨fun ⟨fuel, h⟩ => ?_, fun ⟨hle, hread⟩ => ?_⟩, fun fuel a' s' h => (readDisk_some ha h).2⟩
  · obtain ⟨⟨a', s'⟩, h⟩ := Option.isSome_iff_exists.mp h
    obtain ⟨hle, hr, -⟩ := readDisk_some ha h
    refine ⟨hle, fun k hk => ?_⟩
    obtain ⟨v, hv, -⟩ := hr.bytes k hk
    rw [hv]
    rfl
  · obtain ⟨F, hF⟩ := readDisk_isSome _ _ ha hle hread buffer s
    exact ⟨F, hF F le_rfl⟩

def Drive.slow : Drive where
  media i := if i < 3 then some (Vector.replicate 512 (BitVec.ofNat 8 (i + 1))) else none
  delay i := 5 * i
  junk n := BitVec.ofNat 8 (77 * n)

def Ata.powerOn : Ata := ⟨0, (0, 0), (0, 0), (0, 0), (0, 0), .idle, 0⟩

/-- 遅いディスクでも二つのセクタの読み出しは終わり、ないセクタまで求めると終わらない。 -/
theorem readDisk_spec_slow :
    (∃ fuel a s, readDisk .slow fuel 1 2 0x7000 .powerOn ⟨fun _ => 0, []⟩ = some (a, s) ∧
      s.mem 0x7000 = 2 ∧ s.mem 0x73FF = 3 ∧ s.mem 0x7400 = 0) ∧
    ∀ fuel, readDisk .slow fuel 1 3 0x7000 .powerOn ⟨fun _ => 0, []⟩ = none := by
  obtain ⟨hiff, hread⟩ := readDisk_spec .slow 1 2 0x7000 .powerOn ⟨fun _ => 0, []⟩ rfl
  obtain ⟨fuel, h⟩ := hiff.mpr ⟨by decide, by decide⟩
  obtain ⟨⟨a, s⟩, h⟩ := Option.isSome_iff_exists.mp h
  obtain ⟨⟨hbytes, hframe⟩, -⟩ := hread fuel a s h
  obtain ⟨v₀, hv₀, h₀⟩ := hbytes 0 (by decide)
  obtain ⟨v₁, hv₁, h₁⟩ := hbytes 1 (by decide)
  cases hv₀
  cases hv₁
  refine ⟨⟨fuel, a, s, h, ?_, ?_, hframe 0x7400 ?_⟩, fun fuel => ?_⟩
  · simpa using h₀ 0
  · simpa using h₁ ⟨511, by decide⟩
  · rintro ⟨k, hk, he⟩
    have hk' : k < 1024 := hk
    omega
  · have hnone := (readDisk_spec .slow 1 3 0x7000 .powerOn ⟨fun _ => 0, []⟩ rfl).1
    by_contra hne
    obtain ⟨-, hall⟩ := hnone.mp ⟨fuel, Option.isSome_iff_ne_none.mpr hne⟩
    exact absurd (hall 2 (by decide)) (by decide)

end IdealX86
