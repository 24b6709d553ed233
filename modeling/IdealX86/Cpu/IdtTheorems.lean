import IdealX86.Cpu.Idt
import IdealX86.Cpu.StubTheorems

/-!
# 割り込み記述子表の正しさ

`irq_install` の列の後の表を、番号ごとに最後に入れた入り口として読み、起動の後のどの番号の割り込みも、その番号と、CPU の積むエラーコードに
合った入り口に届くことを示す。
-/

namespace IdealX86

open Asm

/-! ## ゲート -/

theorem mask16 (x : BitVec 32) : (x &&& 0xffff).setWidth 16 = x.setWidth 16 := by
  rw [BitVec.setWidth_and]
  exact BitVec.and_allOnes

theorem irqGate_offset (handler : BitVec 32) : (irqGate handler).offset = handler := by
  simp only [GateDesc.offset, irqGate, gateDescSet, mask16]
  ext i hi
  simp only [BitVec.getElem_append]
  grind

/-! ## `irq_install` の列 -/

/-- 呼び出しの列の中で、番号 `v` に最後に入れたもの。 -/
def lastInstall {α : Type} (v : Int) (calls : List (Int × α)) : Option α :=
  (calls.reverse.find? fun x => x.1 = v).map Prod.snd

theorem lastInstall_append {α : Type} (v : Int) (calls : List (Int × α)) (x : Int × α) :
    lastInstall v (calls ++ [x]) = if x.1 = v then some x.2 else lastInstall v calls := by
  unfold lastInstall
  rw [List.reverse_append, List.reverse_singleton, List.singleton_append, List.find?_cons]
  by_cases hx : x.1 = v <;> simp [hx]

theorem lastInstall_map {α β : Type} (v : Int) (calls : List (Int × α)) (f : α → β) :
    lastInstall v (calls.map fun x => (x.1, f x.2)) = (lastInstall v calls).map f := by
  unfold lastInstall
  rw [← List.map_reverse, List.find?_map, Option.map_map, Option.map_map]
  rfl

/-- `irq_install` の列の後の表は、番号ごとに、最後に入れたものを指す。範囲の外の番号は何も変えない。 -/
theorem irqInstalls_apply (idt : Idt) (calls : List (Int × BitVec 32)) (v : Int) :
    irqInstalls idt calls v =
      if v < IDT_TABLE_NR then ((lastInstall v calls).map irqGate).getD (idt v) else idt v := by
  induction calls using List.reverseRecOn with
  | nil => simp [irqInstalls, lastInstall]
  | append_singleton calls x ih =>
      have hstep : irqInstalls idt (calls ++ [x]) = (irqInstall (irqInstalls idt calls) x.1 x.2).2 := by
        simp [irqInstalls]
      rw [hstep, lastInstall_append, irqInstall]
      by_cases hr : x.1 ≥ IDT_TABLE_NR
      · simp only [if_pos hr, ih]
        by_cases hv : v < IDT_TABLE_NR
        · have hne : x.1 ≠ v := by omega
          rw [if_neg hne]
        · rw [if_neg hv, if_neg hv]
      · simp only [if_neg hr]
        by_cases hx : x.1 = v
        · have hv : v < IDT_TABLE_NR := by omega
          subst hx
          simp [hv]
        · rw [Function.update_of_ne (Ne.symm hx), ih, if_neg hx]

/-! ## 起動の後の表 -/

theorem foldl_update_range (g : GateDesc) (idt : Idt) (n : Nat) {v : Int} (h0 : 0 ≤ v) (hv : v < n) :
    (List.range n).foldl (fun idt (i : Nat) => Function.update idt (i : Int) g) idt v = g := by
  induction n with
  | zero => omega
  | succ n ih =>
      rw [List.range_succ, List.foldl_append, List.foldl_cons, List.foldl_nil, Function.update_apply]
      split
      · rfl
      · exact ih (by omega)

/-- 起動の後の、番号 `v` の入り口の名前。 -/
def handlerName (v : Int) : String :=
  if v = IRQ0_TIMER then "time" else (lastInstall v irqHandlers).getD "unknown"

theorem bootIdt_apply (addr : String → BitVec 32) (idt : Idt) {v : Int} (h0 : 0 ≤ v) (hv : v < IDT_TABLE_NR) :
    timeInit addr (irqInit addr idt) v = irqGate (addr (handlerName v)) := by
  have hclear : irqClear addr idt v = irqGate (addr "unknown") := foldl_update_range _ idt _ h0 hv
  have hinit : irqInit addr idt v = irqGate (addr ((lastInstall v irqHandlers).getD "unknown")) := by
    rw [irqInit, irqInstalls_apply, if_pos hv, lastInstall_map, hclear]
    cases lastInstall v irqHandlers <;> rfl
  have hr : ¬ IRQ0_TIMER ≥ IDT_TABLE_NR := by decide
  unfold timeInit irqInstall handlerName
  simp only [if_neg hr, Function.update_apply]
  split
  · rfl
  · exact hinit

/-- エラーコードを積む例外。21 番などの後から加わった例外は、その機能を有効にしないので起こらない。 -/
def errorCodeVectors : List Int := [8, 10, 11, 12, 13, 14, 17]

def installedVectors : List Int := IRQ0_TIMER :: irqHandlers.map Prod.fst

/-- 番号ごとの入り口は、番号とエラーコードの有無が、その番号のものである。入り口のない番号には、番号を -1 とするものがある。 -/
theorem stub_of_vector : ∀ v : Fin 128, ∃ s ∈ stubs, s.name = handlerName v.val ∧
    s.num = (if (v.val : Int) ∈ installedVectors then (v.val : Int) else -1) ∧
    (s.withErrorCode ≠ 0 ↔ (v.val : Int) ∈ errorCodeVectors) := by
  decide +kernel

/-! ## 割り込みの始めから終わりまで -/

/-- 起動の後、表のどの番号の割り込みも、CPU の積むエラーコードの有無にかかわらず、その番号の `do_handler_` の関数に届く。関数は割り込みを禁じて
呼ばれ、引数の指すフレームは、番号とエラーコードと割り込まれた状態を表す。入り口のない番号は、番号を -1 として `do_handler_unknown` に届く。
関数がフレームを変えずに戻れば、積まれた RF を除いて、割り込まれた状態がちょうど復元される。 -/
theorem interrupt_round_trip (u : Unspec) (callees : Callees) (text : BitVec 32 → List Asm.Insn)
    (addr : String → BitVec 32) (htext : ∀ s ∈ stubs, text (addr s.name) = s.code) (idt : Idt) {v : Int} (h0 : 0 ≤ v)
    (hv : v < IDT_TABLE_NR) (e : Option (BitVec 32)) (he : e.isSome = true ↔ v ∈ errorCodeVectors) (c : Cpu) :
    let g := timeInit addr (irqInit addr idt) v
    let f := callees ("do_handler_" ++ handlerName v)
    g.selector = 8 ∧ g.attr = 0x8E00 ∧
    ∃ c₁ frame,
      exec u callees (text g.offset) (deliver u g e c) =
        ((f c₁).filter fun c' => c'.eip = c₁.top).bind (exec u callees Stub.restore) ∧
      readFrame c₁.mem (Lib.load32 c₁.mem (c₁.esp + 4)) = frame ∧
      Describes frame (c.interrupted u) (if v ∈ installedVectors then v else -1) e ∧ c₁.eflags.getLsbD 9 = false ∧
      (∀ x : BitVec 32, (x - c.esp).toNat < 2 ^ 32 - 4 * stubWords → c₁.mem x = c.mem x) ∧
      ∀ c₂, f c₁ = some c₂ → Returned c₁ c₂ →
        exec u callees (text g.offset) (deliver u g e c) = some { c.interrupted u with mem := c₂.mem } := by
  intro g f
  have hg : g = irqGate (addr (handlerName v)) := bootIdt_apply addr idt h0 hv
  obtain ⟨n, hn⟩ := Int.eq_ofNat_of_zero_le h0
  have hlt : n < 128 := by unfold IDT_TABLE_NR at hv; omega
  obtain ⟨s, hs, hname, hnum, herr⟩ := stub_of_vector ⟨n, hlt⟩
  simp only [← hn] at hname hnum herr
  have hcode : text g.offset = s.code := by rw [hg, irqGate_offset, ← hname, htext s hs]
  refine ⟨by rw [hg]; rfl, by rw [hg]; rfl, ?_⟩
  rw [hcode]
  have h := exception_round_trip u callees s g e c (he.trans herr.symm)
  rwa [hname, hnum] at h

def Asm.Cpu.zero : Cpu := ⟨fun _ => 0, fun _ => 0, 0, 0, 0, 0x202, fun _ => 0⟩

def Asm.retCallees : Callees := fun _ c => some c.ret

theorem Asm.returned_ret (c : Cpu) : Returned c c.ret :=
  ⟨rfl, by simp [Cpu.ret, Cpu.drop, Cpu.setReg, Cpu.esp], rfl, fun _ _ => rfl⟩

/-- 入り口のコードを `stubs` の順に置くアドレス。 -/
def stubAddr (name : String) : BitVec 32 := BitVec.ofNat 32 (stubs.findIdx fun s => s.name = name)

def stubText (a : BitVec 32) : List Asm.Insn := (stubs[a.toNat]?.map Stub.code).getD []

/-- 時計の割り込みは、関数が戻れば、割り込まれた状態に戻る。 -/
theorem interrupt_round_trip_time :
    ∃ c₂ : Cpu, exec .zero retCallees (stubText (timeInit stubAddr (irqInit stubAddr fun _ => ⟨0, 0, 0, 0⟩) 0x20).offset)
      (deliver .zero (timeInit stubAddr (irqInit stubAddr fun _ => ⟨0, 0, 0, 0⟩) 0x20) none .zero) =
        some { Cpu.zero with mem := c₂.mem } := by
  obtain ⟨-, -, c₁, f, -, -, -, -, -, hret⟩ := interrupt_round_trip .zero retCallees stubText stubAddr
    (by decide +kernel) (fun _ => ⟨0, 0, 0, 0⟩) (v := 0x20) (by decide) (by decide) none (by decide) .zero
  exact ⟨c₁.ret, hret c₁.ret rfl (returned_ret c₁)⟩

end IdealX86
