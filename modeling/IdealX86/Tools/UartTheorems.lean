import IdealX86.Tools.Uart

/-!
# シリアルポートの定理

`log_printf` は、メッセージのバイトの前では FIFO が空になるのを待ち、CR と LF の前では待たない。空のメッセージが続くと、待たずに書くバイトが
たまり、FIFO の 16 バイトを超えると失われる。失われるバイトがないための条件を、ちょうど求める。
-/

namespace IdealX86

variable {l : SerialLine} {u u' : Uart} {w : List Frame} {bs bytes : List Byte} {n fuel : Nat}

namespace Uart

/-! ## 設定 -/

structure Configured (u : Uart) : Prop where
  lcr : u.lcr = 0x03
  dll : u.dll = 0x03
  dlm : u.dlm = 0x00
  fcr : u.fcr = 0xC7
  mcr : u.mcr = 0x0F

/-- 設定の後、`bytes` がどれも一度ずつ、順に線か FIFO にある。線の上の形式は、どれも設定のとおりである。`w` は、それより前に線に出たものである。 -/
structure Delivers (w : List Frame) (bytes : List Byte) (u : Uart) : Prop where
  config : u.Configured
  sent : ∃ sent, u.wire = w ++ sent.map (Frame.mk · 3 3) ∧ sent ++ u.fifo = bytes

theorem Configured.pass (h : u.Configured) (read : Bool) : (u.pass l read).Configured := ⟨h.lcr, h.dll, h.dlm, h.fcr, h.mcr⟩

theorem Configured.frame (h : u.Configured) : u.frame = (Frame.mk · 3 3) := by
  funext b
  rw [Uart.frame, h.dlm, h.dll, h.lcr]
  rfl

theorem Configured.wire_pass (h : u.Configured) (read : Bool) :
    (u.pass l read).wire = u.wire ++ (u.fifo.take (l.pace u.clock read)).map (Frame.mk · 3 3) := by
  rw [Uart.pass, h.frame, h.mcr]
  rfl

theorem fifo_pass (l : SerialLine) (u : Uart) (read : Bool) : (u.pass l read).fifo = u.fifo.drop (l.pace u.clock read) := rfl

theorem length_fifo_pass_le (l : SerialLine) (u : Uart) (read : Bool) : (u.pass l read).fifo.length ≤ u.fifo.length := by
  rw [fifo_pass, List.length_drop]
  omega

theorem Delivers.pass (h : Delivers w bytes u) (read : Bool) : Delivers w bytes (u.pass l read) := by
  obtain ⟨hc, sent, hwire, hsent⟩ := h
  refine ⟨hc.pass read, sent ++ u.fifo.take (l.pace u.clock read), ?_, ?_⟩
  · rw [hc.wire_pass, hwire, List.map_append, List.append_assoc]
  · rw [fifo_pass, List.append_assoc, List.take_append_drop, hsent]

/-! ## 一つのバイト -/

theorem Configured.outb_data (h : u.Configured) (v : Byte) :
    u.outb l COM1_PORT v =
      if (u.pass l false).fifo.length < 16 then { u.pass l false with fifo := (u.pass l false).fifo ++ [v] }
      else u.pass l false := by
  rw [outb]
  simp only [if_true, (h.pass false).lcr, transmit, (h.pass false).fcr]
  rfl

theorem Configured.outb (h : u.Configured) (v : Byte) : (u.outb l COM1_PORT v).Configured := by
  rw [h.outb_data]
  split
  · exact ⟨h.lcr, h.dll, h.dlm, h.fcr, h.mcr⟩
  · exact h.pass false

theorem Delivers.outb (h : Delivers w bytes u) (hn : u.fifo.length < 16) (v : Byte) :
    Delivers w (bytes ++ [v]) (u.outb l COM1_PORT v) ∧ (u.outb l COM1_PORT v).fifo.length ≤ u.fifo.length + 1 := by
  have hle := length_fifo_pass_le l u false
  obtain ⟨hc, sent, hwire, hsent⟩ := h.pass (l := l) false
  refine ⟨⟨h.config.outb v, sent, ?_, ?_⟩, ?_⟩ <;> rw [h.config.outb_data, if_pos (by omega)]
  · exact hwire
  · rw [← hsent, List.append_assoc]
  · rw [List.length_append, List.length_singleton]
    omega

/-! ## 待ち -/

theorem ready_inb_iff (l : SerialLine) (u : Uart) :
    ((u.inb l (COM1_PORT + 5)).1 &&& 0x20 ≠ 0) ↔ (u.pass l true).fifo = [] := by
  have hset : ∀ v : Byte, (v &&& 0xDF ||| 0x20) &&& 0x20 ≠ 0 := by decide +kernel
  have hclear : ∀ v : Byte, (v &&& 0xDF) &&& 0x20 = 0 := by decide +kernel
  rw [inb]
  simp only [if_true]
  split
  · exact iff_of_true (hset _) ‹_›
  · exact iff_of_false (fun h => h (hclear _)) ‹_›

theorem Delivers.ready (h : Delivers w bytes u)
    (hr : Lib.ReadyAfter (Uart.inb l · (COM1_PORT + 5)) (fun v => v &&& 0x20 ≠ 0) n u u') :
    Delivers w bytes u' ∧ u'.fifo = [] := by
  induction hr with
  | now hv => exact ⟨h.pass true, (ready_inb_iff l _).mp (of_decide_eq_true hv)⟩
  | later _ _ ih => exact ih (h.pass true)

/-- FIFO の長さについての帰納法。次に送り出されるまでの読み出しの数についての帰納法が、その中にある。 -/
theorem exists_ready (hl : l.Live) : ∀ (n d : Nat) (u : Uart), u.fifo.length ≤ n → 0 < l.pace (u.clock + d) true →
    ∃ k u', Lib.ReadyAfter (Uart.inb l · (COM1_PORT + 5)) (fun v => v &&& 0x20 ≠ 0) k u u' := by
  -- 空でなければ、次の読み出しから待ち続ける。
  have hnext : ∀ u : Uart, ((u.pass l true).fifo ≠ [] → ∃ k u',
      Lib.ReadyAfter (Uart.inb l · (COM1_PORT + 5)) (fun v => v &&& 0x20 ≠ 0) k (u.pass l true) u') →
      ∃ k u', Lib.ReadyAfter (Uart.inb l · (COM1_PORT + 5)) (fun v => v &&& 0x20 ≠ 0) k u u' := by
    intro u h
    by_cases he : (u.pass l true).fifo = []
    · exact ⟨0, _, .now (decide_eq_true ((ready_inb_iff l u).mpr he))⟩
    · obtain ⟨k, u', hk⟩ := h he
      exact ⟨k + 1, u', .later (decide_eq_false fun hv => he ((ready_inb_iff l u).mp hv)) hk⟩
  intro n
  induction n with
  | zero =>
      intro d u hn _
      refine hnext u fun he => absurd (List.length_eq_zero_iff.mp ?_) he
      have := length_fifo_pass_le l u true
      omega
  | succ n ih =>
      intro d
      induction d with
      | zero =>
          intro u hn hd
          refine hnext u fun he => ?_
          obtain ⟨t, ht, hpos⟩ := hl (u.pass l true).clock
          refine ih (t - (u.pass l true).clock) _ ?_ (by rwa [Nat.add_sub_cancel' ht])
          rw [Nat.add_zero] at hd
          rw [fifo_pass, List.length_drop]
          omega
      | succ d ihd =>
          intro u hn hd
          refine hnext u fun _ => ihd _ ((length_fifo_pass_le l u true).trans hn) ?_
          rw [show (u.pass l true).clock + d = u.clock + (d + 1) by simp only [Uart.pass]; omega]
          exact hd

end Uart

open Uart

/-! ## 一つのメッセージ -/

theorem pollSerial_some (h : Delivers w bytes u) (hp : pollSerial l fuel u = some u') :
    Delivers w bytes u' ∧ u'.fifo = [] := by
  obtain ⟨n, hn⟩ := Lib.readyAfter_of_poll hp
  exact h.ready hn

theorem putBytes_some (h : Delivers w bytes u) (hp : putBytes l fuel bs u = some u') :
    Delivers w (bytes ++ bs) u' ∧ u'.fifo.length ≤ if bs = [] then u.fifo.length else 1 := by
  induction bs generalizing bytes u with
  | nil => cases hp; exact ⟨by rwa [List.append_nil], le_rfl⟩
  | cons b bs ih =>
      obtain ⟨u₁, h₁, hrest⟩ := Option.bind_eq_some_iff.mp hp
      obtain ⟨hd, hempty⟩ := pollSerial_some h h₁
      obtain ⟨hout, hlen⟩ := hd.outb (l := l) (by rw [hempty]; decide) b
      obtain ⟨hd', hlen'⟩ := ih hout hrest
      rw [hempty] at hlen
      refine ⟨by rwa [List.append_assoc] at hd', hlen'.trans ?_⟩
      rw [if_neg (List.cons_ne_nil b bs)]
      split
      · exact hlen
      · exact le_rfl

/-- メッセージを送った後に FIFO に残りうるバイトの数。 -/
def backlog (n : Nat) (s : List Byte) : Nat := if s.takeWhile (· ≠ 0) = [] then n + 2 else 3

theorem sendMessage_some {s : List Byte} (h : Delivers w bytes u) (hn : u.fifo.length ≤ n) (hb : backlog n s ≤ 16)
    (hp : sendMessage l fuel s u = some u') :
    Delivers w (bytes ++ logLine s) u' ∧ u'.fifo.length ≤ backlog n s := by
  obtain ⟨u₁, h₁, rfl⟩ := Option.map_eq_some_iff.mp hp
  obtain ⟨hd, hlen⟩ := putBytes_some h h₁
  have hlen' : u₁.fifo.length + 2 ≤ backlog n s := by
    rw [backlog] at hb ⊢
    split at hlen <;> split <;> first | omega | contradiction
  obtain ⟨hcr, hcr'⟩ := hd.outb (l := l) (by omega) 13
  obtain ⟨hlf, hlf'⟩ := hcr.outb (l := l) (by omega) 10
  refine ⟨?_, by omega⟩
  rw [logLine, ← List.append_assoc, List.append_cons]
  exact hlf

theorem sendMessages_some {ss : List (List Byte)} (h : Delivers w bytes u) (hn : u.fifo.length ≤ n)
    (hb : ∀ p, p <+: ss → p.foldl backlog n ≤ 16) (hp : sendMessages l fuel ss u = some u') :
    Delivers w (bytes ++ logLines ss) u' := by
  induction ss generalizing bytes u n with
  | nil => cases hp; rwa [logLines_nil, List.append_nil]
  | cons s ss ih =>
      obtain ⟨u₁, h₁, hrest⟩ := Option.bind_eq_some_iff.mp hp
      have hfirst := hb [s] ⟨ss, rfl⟩
      obtain ⟨hd, hlen⟩ := sendMessage_some h hn hfirst h₁
      have hd' := ih hd hlen (fun p hp => hb (s :: p) (List.cons_prefix_cons.mpr ⟨rfl, hp⟩)) hrest
      rwa [List.append_assoc] at hd'

/-! ## 待ちが終わること -/

theorem putBytes_isSome (hl : l.Live) (bs : List Byte) (u : Uart) :
    ∃ F u', ∀ fuel, F ≤ fuel → putBytes l fuel bs u = some u' := by
  induction bs generalizing u with
  | nil => exact ⟨0, u, fun _ _ => rfl⟩
  | cons b bs ih =>
      obtain ⟨t, ht, hpos⟩ := hl u.clock
      obtain ⟨k, u₁, hk⟩ := exists_ready hl u.fifo.length (t - u.clock) u le_rfl (by rwa [Nat.add_sub_cancel' ht])
      obtain ⟨F, u', hF⟩ := ih (u₁.outb l COM1_PORT b)
      refine ⟨max (k + 1) F, u', fun fuel hf => ?_⟩
      rw [putBytes, pollSerial, hk.poll (by omega)]
      exact hF fuel (by omega)

theorem sendMessages_isSome (hl : l.Live) (ss : List (List Byte)) (u : Uart) :
    ∃ F u', ∀ fuel, F ≤ fuel → sendMessages l fuel ss u = some u' := by
  induction ss generalizing u with
  | nil => exact ⟨0, u, fun _ _ => rfl⟩
  | cons s ss ih =>
      obtain ⟨F₁, u₁, h₁⟩ := putBytes_isSome hl (s.takeWhile (· ≠ 0)) u
      obtain ⟨F₂, u₂, h₂⟩ := ih ((u₁.outb l COM1_PORT 13).outb l COM1_PORT 10)
      refine ⟨max F₁ F₂, u₂, fun fuel hf => ?_⟩
      rw [sendMessages, sendMessage, h₁ fuel (by omega)]
      exact h₂ fuel (by omega)

/-! ## 遅い線 -/

/-- 読み出しの直前にだけ送り出す線。待たずに書いたバイトは、次に待つまで FIFO にたまる。 -/
def SerialLine.onRead : SerialLine := ⟨fun _ read => if read then 16 else 0, fun _ => 0⟩

theorem SerialLine.onRead_live : SerialLine.onRead.Live := fun t => ⟨t, le_rfl, Nat.succ_pos 15⟩

theorem Uart.Delivers.unique {bytes' : List Byte} (h : Delivers w bytes u) (h' : Delivers w bytes' u) : bytes = bytes' := by
  obtain ⟨-, sent, hw, rfl⟩ := h
  obtain ⟨-, sent', hw', rfl⟩ := h'
  have hinj : Function.Injective (Frame.mk · 3 3) := fun b b' e => congrArg Frame.data e
  rw [hinj.list_map (List.append_cancel_left (hw.symm.trans hw'))]

theorem outb_onRead (h : Delivers w bytes u) (hle : u.fifo.length ≤ 16) (v : Byte) :
    ∃ bytes', Delivers w bytes' (u.outb .onRead COM1_PORT v) ∧
      (u.outb .onRead COM1_PORT v).fifo.length = min 16 (u.fifo.length + 1) ∧
      bytes'.length + (u.fifo.length + 1 - 16) = bytes.length + 1 := by
  have hkeep : (u.pass .onRead false).fifo = u.fifo := rfl
  by_cases hn : u.fifo.length < 16
  · refine ⟨_, (h.outb hn v).1, ?_, by rw [List.length_append, List.length_singleton]; omega⟩
    rw [h.config.outb_data, hkeep, if_pos hn, List.length_append, List.length_singleton]
    omega
  · refine ⟨bytes, ?_, ?_, by omega⟩ <;> rw [h.config.outb_data, hkeep, if_neg hn]
    · exact h.pass false
    · rw [hkeep]
      omega

theorem putBytes_onRead (h : Delivers w bytes u) (hp : putBytes .onRead fuel bs u = some u') :
    u'.fifo.length = if bs = [] then u.fifo.length else 1 := by
  induction bs generalizing bytes u with
  | nil => cases hp; rfl
  | cons b bs ih =>
      obtain ⟨u₁, h₁, hrest⟩ := Option.bind_eq_some_iff.mp hp
      obtain ⟨hd, hempty⟩ := pollSerial_some h h₁
      obtain ⟨bytes', hd', hlen, -⟩ := outb_onRead hd (by simp [hempty]) b
      rw [hempty] at hlen
      rw [ih hd' hrest, hlen]
      simp

/-- あふれた分だけ、バイトが失われる。 -/
theorem sendMessage_onRead {s : List Byte} (h : Delivers w bytes u) (hle : u.fifo.length ≤ 16)
    (hp : sendMessage .onRead fuel s u = some u') :
    ∃ bytes', Delivers w bytes' u' ∧ u'.fifo.length = min 16 (backlog u.fifo.length s) ∧
      bytes'.length + (backlog u.fifo.length s - 16) = bytes.length + (logLine s).length := by
  obtain ⟨u₁, h₁, rfl⟩ := Option.map_eq_some_iff.mp hp
  obtain ⟨hd, -⟩ := putBytes_some h h₁
  have hlen := putBytes_onRead h h₁
  have hback : backlog u.fifo.length s = u₁.fifo.length + 2 := by
    rw [hlen, backlog]
    split <;> rfl
  have hle₁ : u₁.fifo.length ≤ 16 := by
    rw [hlen]
    split <;> omega
  obtain ⟨bytes₂, h₂, hf₂, hb₂⟩ := outb_onRead hd hle₁ 13
  obtain ⟨bytes₃, h₃, hf₃, hb₃⟩ := outb_onRead h₂ (by omega) 10
  refine ⟨bytes₃, h₃, by omega, ?_⟩
  rw [logLine, List.length_append, List.length_cons, List.length_singleton]
  rw [List.length_append] at hb₂
  omega

theorem sendMessages_onRead {ss : List (List Byte)} (h : Delivers w bytes u) (hle : u.fifo.length ≤ 16)
    (hp : sendMessages .onRead fuel ss u = some u') :
    ∃ bytes', Delivers w bytes' u' ∧ bytes'.length ≤ bytes.length + (logLines ss).length ∧
      ((∃ p, p <+: ss ∧ 16 < p.foldl backlog u.fifo.length) → bytes'.length < bytes.length + (logLines ss).length) := by
  induction ss generalizing bytes u with
  | nil =>
      cases hp
      refine ⟨bytes, h, Nat.le_add_right _ _, ?_⟩
      rintro ⟨p, hp, hlt⟩
      rw [List.prefix_nil.mp hp, List.foldl_nil] at hlt
      omega
  | cons s ss ih =>
      obtain ⟨u₁, h₁, hrest⟩ := Option.bind_eq_some_iff.mp hp
      obtain ⟨bytes₁, hd, hf, hb⟩ := sendMessage_onRead h hle h₁
      obtain ⟨bytes₂, hd₂, hb₂, hlost⟩ := ih hd (by omega) hrest
      have hlen : (logLines (s :: ss)).length = (logLine s).length + (logLines ss).length := by simp [logLines]
      refine ⟨bytes₂, hd₂, by omega, ?_⟩
      rintro ⟨p, hp, hlt⟩
      by_cases hfit : backlog u.fifo.length s ≤ 16
      · -- 初めのメッセージではあふれないので、あふれるのは残りのメッセージである。
        cases p with
        | nil => rw [List.foldl_nil] at hlt; omega
        | cons s' p =>
            obtain ⟨rfl, hp'⟩ := List.cons_prefix_cons.mp hp
            have := hlost ⟨p, hp', by rw [hf, Nat.min_eq_right hfit]; exact hlt⟩
            omega
      · omega

/-! ## ちょうどの条件 -/

theorem logInit_delivers (l : SerialLine) (u : Uart) :
    Delivers (logInit l u).wire [] (logInit l u) ∧ (logInit l u).fifo = [] := by
  have hempty : (logInit l u).fifo = [] := by simp [logInit, Uart.outb, Uart.pass, COM1_PORT]
  refine ⟨⟨?_, [], by simp, by rw [hempty]; rfl⟩, hempty⟩
  constructor <;> simp [logInit, Uart.outb, Uart.pass, COM1_PORT]

/-- `log_init` の後に続けて呼ばれた `log_printf` が、いつかは送り出すどの線でも終わって、すべての行のバイトを、設定の速さと形式で一度ずつ順に送るのは、
FIFO にたまりうるバイトが 16 を超えないとき、またそのときに限る。空でないメッセージの後にたまりうるのは 3 バイトで、空のメッセージごとに
2 バイト増える。 -/
theorem sendMessages_delivers_iff (u : Uart) (ss : List (List Byte)) :
    (∀ l : SerialLine, l.Live →
      (∃ fuel, (sendMessages l fuel ss (logInit l u)).isSome) ∧
      ∀ fuel u', sendMessages l fuel ss (logInit l u) = some u' → Delivers (logInit l u).wire (logLines ss) u') ↔
      ∀ p, p <+: ss → p.foldl backlog 0 ≤ 16 := by
  constructor
  · intro h p hp
    by_contra hlt
    obtain ⟨hsome, hall⟩ := h .onRead SerialLine.onRead_live
    obtain ⟨fuel, hsome⟩ := hsome
    obtain ⟨u', hu'⟩ := Option.isSome_iff_exists.mp hsome
    obtain ⟨hinit, hempty⟩ := logInit_delivers .onRead u
    obtain ⟨bytes', hd, -, hlost⟩ := sendMessages_onRead hinit (by rw [hempty]; decide) hu'
    rw [hempty] at hlost
    have hless := hlost ⟨p, hp, by simpa using hlt⟩
    rw [hd.unique (hall fuel u' hu'), List.length_nil, Nat.zero_add] at hless
    exact absurd hless (Nat.lt_irrefl _)
  · intro hb l hl
    obtain ⟨F, u', hF⟩ := sendMessages_isSome hl ss (logInit l u)
    obtain ⟨hinit, hempty⟩ := logInit_delivers l u
    refine ⟨⟨F, by rw [hF F le_rfl]; rfl⟩, fun fuel u' h => ?_⟩
    have hd := sendMessages_some hinit (by rw [hempty]; exact le_rfl) hb h
    rwa [List.nil_append] at hd

end IdealX86
