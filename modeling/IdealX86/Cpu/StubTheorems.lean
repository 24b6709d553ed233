import IdealX86.Cpu.Stub

/-!
# 例外の入り口の正しさ

割り込みの配送から `iret` までの間に、`exception_frame_t` が割り込まれたところの状態を表し、関数から戻れば、その状態がちょうど
復元されることを示す。スタックの中身は、積んだ語の並びとして追う。
-/

namespace IdealX86.Asm

open Lib (Bytes Holds Stack load32 store32)

/-! ## 積んだ語 -/

/-- `c₀` から、`esp` のほかの汎用レジスタとセグメントを変えずに、語の並び `vs` を積んだ状態。 -/
structure Pushed (c₀ c : Cpu) (n : ℕ) (vs : List (BitVec 32)) : Prop where
  stack : Stack c₀.mem c.mem c₀.esp c.esp n vs
  reg : ∀ r, r ≠ .esp → c.reg r = c₀.reg r
  seg : c.seg = c₀.seg
  ss : c.ss = c₀.ss

section
variable {c₀ c c' : Cpu} {n : ℕ} {vs : List (BitVec 32)}

@[simp] theorem push_esp (c : Cpu) (v : BitVec 32) : (c.push v).esp = c.esp - 4 := by
  simp [Cpu.push, Cpu.setReg, Cpu.esp]

theorem Pushed.nil (c : Cpu) (h : 4 * n < 2 ^ 32) : Pushed c c n [] :=
  ⟨Stack.nil _ _ h, fun _ _ => rfl, rfl, rfl⟩

theorem Pushed.push (h : Pushed c₀ c n vs) (hroom : vs.length < n) (v : BitVec 32) :
    Pushed c₀ (c.push v) n (v :: vs) := by
  refine ⟨?_, fun r hr => ?_, h.seg, h.ss⟩
  · rw [push_esp]; exact h.stack.push hroom v
  · rw [← h.reg r hr]; exact Function.update_of_ne hr _ _

theorem Pushed.same (h : Pushed c₀ c n vs) (hr : c'.reg = c.reg) (hs : c'.seg = c.seg) (hss : c'.ss = c.ss)
    (hm : c'.mem = c.mem) : Pushed c₀ c' n vs := by
  refine ⟨?_, fun r hne => ?_, hs.trans h.seg, hss.trans h.ss⟩
  · have he : c'.esp = c.esp := congrFun hr _
    rw [he, hm]; exact h.stack
  · rw [hr]; exact h.reg r hne

theorem Pushed.flow (h : Pushed c₀ c n vs) (cs : BitVec 16) (eip eflags : BitVec 32) :
    Pushed c₀ { c with cs := cs, eip := eip, eflags := eflags } n vs := h.same rfl rfl rfl rfl

theorem Pushed.pusha (h : Pushed c₀ c n vs) (hroom : vs.length + 8 ≤ n) :
    Pushed c₀ c.pusha n ([c₀.reg .edi, c₀.reg .esi, c₀.reg .ebp, c.esp, c₀.reg .ebx, c₀.reg .edx, c₀.reg .ecx,
      c₀.reg .eax] ++ vs) := by
  have h₁ := h.push (by omega) (c.reg .eax)
  have h₂ := h₁.push (by simp; omega) (c.reg .ecx)
  have h₃ := h₂.push (by simp; omega) (c.reg .edx)
  have h₄ := h₃.push (by simp; omega) (c.reg .ebx)
  have h₅ := h₄.push (by simp; omega) (c.reg .esp)
  have h₆ := h₅.push (by simp; omega) (c.reg .ebp)
  have h₇ := h₆.push (by simp; omega) (c.reg .esi)
  have h₈ := h₇.push (by simp; omega) (c.reg .edi)
  rw [← h.reg .edi (by simp), ← h.reg .esi (by simp), ← h.reg .ebp (by simp), ← h.reg .ebx (by simp),
    ← h.reg .edx (by simp), ← h.reg .ecx (by simp), ← h.reg .eax (by simp)]
  exact h₈

end

/-! ## 例外フレームの語 -/

/-- `exception_frame_t` の欄を、アドレスの順に並べる。 -/
def frameWords (f : ExceptionFrame) : List (BitVec 32) :=
  [f.gs, f.fs, f.es, f.ds, f.edi, f.esi, f.ebp, f.esp, f.ebx, f.edx, f.ecx, f.eax, f.num, f.errCode, f.eip, f.cs,
    f.eflags]

theorem readFrame_of_holds {mem : Bytes} {p : BitVec 32} {f : ExceptionFrame} (h : Holds mem p (frameWords f)) :
    readFrame mem p = f := by
  simp only [frameWords, Holds, BitVec.add_assoc] at h
  obtain ⟨h₀, h₁, h₂, h₃, h₄, h₅, h₆, h₇, h₈, h₉, h₁₀, h₁₁, h₁₂, h₁₃, h₁₄, h₁₅, h₁₆, -⟩ := h
  obtain ⟨gs, fs, es, ds, edi, esi, ebp, esp, ebx, edx, ecx, eax, num, errCode, eip, cs, eflags⟩ := f
  simp only [readFrame, ExceptionFrame.mk.injEq]
  exact ⟨h₀, h₁, h₂, h₃, h₄, h₅, h₆, h₇, h₈, h₉, h₁₀, h₁₁, h₁₂, h₁₃, h₁₄, h₁₅, h₁₆⟩

/-- `f` が、割り込まれた状態 `c` と、例外の番号 `num` とエラーコード `e` を表す。セグメントは下位 16 ビットだけが決まる。
`pusha` の積む `esp` は、CPU とマクロが先に積んだ五つの語の下を指す。 -/
structure Describes (f : ExceptionFrame) (c : Cpu) (num : Int) (e : Option (BitVec 32)) : Prop where
  gs : f.gs.setWidth 16 = c.seg .gs
  fs : f.fs.setWidth 16 = c.seg .fs
  es : f.es.setWidth 16 = c.seg .es
  ds : f.ds.setWidth 16 = c.seg .ds
  edi : f.edi = c.reg .edi
  esi : f.esi = c.reg .esi
  ebp : f.ebp = c.reg .ebp
  esp : f.esp = c.esp - 20
  ebx : f.ebx = c.reg .ebx
  edx : f.edx = c.reg .edx
  ecx : f.ecx = c.reg .ecx
  eax : f.eax = c.reg .eax
  num : f.num = BitVec.ofInt 32 num
  errCode : f.errCode = e.getD 0
  eip : f.eip = c.eip
  cs : f.cs.setWidth 16 = c.cs
  eflags : f.eflags = c.eflags

theorem segWord_setWidth (u : Unspec) (c : Cpu) (s : BitVec 16) : (c.segWord u s).setWidth 16 = s := by
  ext i hi
  rw [BitVec.getElem_setWidth, Cpu.segWord, BitVec.getLsbD_append, if_pos hi, BitVec.getLsbD_eq_getElem hi]

/-! ## 入り口 -/

/-- スタックに積む語の数の上限。フレームの 17 語、引数、戻り先である。 -/
def stubWords : ℕ := 19

section
variable {u : Unspec} {callees : Callees} {g : GateDesc} {e : Option (BitVec 32)} {c₀ c : Cpu} {vs : List (BitVec 32)}

theorem deliver_pushed (u : Unspec) (g : GateDesc) (e : Option (BitVec 32)) (c : Cpu) :
    ∃ cs : BitVec 32, cs.setWidth 16 = (c.interrupted u).cs ∧
      Pushed (c.interrupted u) (deliver u g e c) stubWords
        (e.toList ++ [(c.interrupted u).eip, cs, (c.interrupted u).eflags]) := by
  unfold deliver
  generalize c.interrupted u = c
  refine ⟨_, segWord_setWidth u c c.cs, ?_⟩
  have h₀ := Pushed.nil c (n := stubWords) (by decide)
  have h₁ := h₀.push (by simp [stubWords]) c.eflags
  have h₂ := h₁.push (by simp [stubWords]) (c.segWord u c.cs)
  have h₃ := h₂.push (by simp [stubWords]) c.eip
  cases e with
  | none => exact h₃.flow _ _ _
  | some v => exact (h₃.push (by simp [stubWords]) v).flow _ _ _

theorem exec_cons (i : Insn) (is : List Insn) (c : Cpu) :
    exec u callees (i :: is) c = (i.exec u callees c).bind (exec u callees is) := rfl

theorem exec_append (is js : List Insn) (c : Cpu) :
    exec u callees (is ++ js) c = (exec u callees is c).bind (exec u callees js) := by
  induction is generalizing c with
  | nil => rfl
  | cons i is ih =>
      rw [List.cons_append, exec_cons, exec_cons, Option.bind_assoc]
      exact congrArg _ (funext ih)

/-- 命令 `i` の後に、`esp` の上に語の並び `vs` がある。フラグは変わらない。 -/
def Steps (u : Unspec) (callees : Callees) (c₀ c : Cpu) (i : Insn) (vs : List (BitVec 32)) : Prop :=
  ∃ c', Pushed c₀ c' stubWords vs ∧ c'.eflags = c.eflags ∧ i.exec u callees c = some c'

section
variable (u callees) (h : Pushed c₀ c stubWords vs)
include h

theorem Pushed.next (i : Insn) : Pushed c₀ { c with eip := c.eip + u.len i } stubWords vs :=
  h.same rfl rfl rfl rfl

theorem Pushed.stepImm (hroom : vs.length < stubWords) (v : BitVec 32) :
    Steps u callees c₀ c (.pushImm v) (v :: vs) :=
  ⟨_, (h.next u (.pushImm v)).push hroom v, rfl, rfl⟩

theorem Pushed.stepEsp (hroom : vs.length < stubWords) : Steps u callees c₀ c (.push .esp) (c.esp :: vs) :=
  ⟨_, (h.next u (.push .esp)).push hroom c.esp, rfl, rfl⟩

theorem Pushed.stepPusha (hroom : vs.length + 8 ≤ stubWords) :
    Steps u callees c₀ c .pusha ([c₀.reg .edi, c₀.reg .esi, c₀.reg .ebp, c.esp, c₀.reg .ebx, c₀.reg .edx,
      c₀.reg .ecx, c₀.reg .eax] ++ vs) :=
  ⟨_, (h.next u .pusha).pusha hroom, rfl, rfl⟩

theorem Pushed.stepSeg (hroom : vs.length < stubWords) (s : Seg) :
    ∃ w, w.setWidth 16 = c₀.seg s ∧ Steps u callees c₀ c (.pushSeg s) (w :: vs) :=
  ⟨c.segWord u (c.seg s), by rw [segWord_setWidth, h.seg], _, (h.next u (.pushSeg s)).push hroom _, rfl, rfl⟩

end

theorem Pushed.esp_eq (h : Pushed c₀ c stubWords vs) : c.esp = c₀.esp - BitVec.ofNat 32 (4 * vs.length) :=
  h.stack.sp_eq

variable (u callees) in
/-- 例外の番号から後を積む。四つの語が積まれたところから、フレームと引数ができる。 -/
theorem exec_saveFrame {e' cs eflags : BitVec 32} (h : Pushed c₀ c stubWords [e', c₀.eip, cs, eflags]) (num : Int) :
    ∃ f c', Pushed c₀ c' stubWords ((c'.esp + 4) :: frameWords f) ∧ c'.eflags = c.eflags ∧
      (∀ e, e.getD 0 = e' → cs.setWidth 16 = c₀.cs → eflags = c₀.eflags → Describes f c₀ num e) ∧
      exec u callees [.pushImm (BitVec.ofInt 32 num), .pusha, .pushSeg .ds, .pushSeg .es, .pushSeg .fs, .pushSeg .gs,
        .push .esp] c = some c' := by
  obtain ⟨c₁, h₁, f₁, x₁⟩ := h.stepImm u callees (by simp [stubWords]) (BitVec.ofInt 32 num)
  obtain ⟨c₂, h₂, f₂, x₂⟩ := h₁.stepPusha u callees (by simp [stubWords])
  obtain ⟨ds, hds, c₃, h₃, f₃, x₃⟩ := h₂.stepSeg u callees (by simp [stubWords]) .ds
  obtain ⟨es, hes, c₄, h₄, f₄, x₄⟩ := h₃.stepSeg u callees (by simp [stubWords]) .es
  obtain ⟨fs, hfs, c₅, h₅, f₅, x₅⟩ := h₄.stepSeg u callees (by simp [stubWords]) .fs
  obtain ⟨gs, hgs, c₆, h₆, f₆, x₆⟩ := h₅.stepSeg u callees (by simp [stubWords]) .gs
  obtain ⟨c₇, h₇, f₇, x₇⟩ := h₆.stepEsp u callees (by simp [stubWords])
  have hesp : c₆.esp = c₇.esp + 4 := by
    rw [h₆.esp_eq, h₇.esp_eq]
    simp only [List.length_append, List.length_cons, List.length_nil]
    bv_omega
  refine ⟨⟨gs, fs, es, ds, c₀.reg .edi, c₀.reg .esi, c₀.reg .ebp, c₁.esp, c₀.reg .ebx, c₀.reg .edx, c₀.reg .ecx,
    c₀.reg .eax, BitVec.ofInt 32 num, e', c₀.eip, cs, eflags⟩, c₇, hesp ▸ h₇, ?_, fun e he hcs hfl => ?_, ?_⟩
  · rw [f₇, f₆, f₅, f₄, f₃, f₂, f₁]
  · refine ⟨hgs, hfs, hes, hds, rfl, rfl, rfl, h₁.esp_eq, rfl, rfl, rfl, rfl, rfl, he.symm, rfl, hcs, hfl⟩
  · simp only [exec, x₁, x₂, x₃, x₄, x₅, x₆, x₇, Option.bind_some]

/-! ## 出口 -/

/-- フレーム `f` を下ろして、割り込まれたところへ戻った状態。 -/
def resumed (f : ExceptionFrame) (c : Cpu) : Cpu where
  reg
    | .eax => f.eax
    | .ecx => f.ecx
    | .edx => f.edx
    | .ebx => f.ebx
    | .esp => c.esp + 72
    | .ebp => f.ebp
    | .esi => f.esi
    | .edi => f.edi
  seg
    | .ds => f.ds.setWidth 16
    | .es => f.es.setWidth 16
    | .fs => f.fs.setWidth 16
    | .gs => f.gs.setWidth 16
  cs := f.cs.setWidth 16
  ss := c.ss
  eip := f.eip
  eflags := f.eflags
  mem := c.mem

theorem exec_restore {p : BitVec 32} {f : ExceptionFrame} (h : Holds c.mem c.esp (p :: frameWords f)) :
    exec u callees Stub.restore c = some (resumed f c) := by
  simp only [frameWords, Holds, BitVec.add_assoc, BitVec.ofNat_eq_ofNat, BitVec.reduceAdd] at h
  obtain ⟨-, h₀, h₁, h₂, h₃, h₄, h₅, h₆, h₇, h₈, h₉, h₁₀, h₁₁, h₁₂, h₁₃, h₁₄, h₁₅, h₁₆, -⟩ := h
  simp only [Stub.restore, exec, Insn.exec, Cpu.popSeg, Cpu.popa, Cpu.pop, Cpu.drop, Cpu.setReg, Cpu.top, Cpu.iret,
    Cpu.esp, List.foldl, Function.update_apply, reduceCtorEq, ↓reduceIte, Option.bind_some,
    BitVec.add_assoc, BitVec.ofNat_eq_ofNat, BitVec.reduceAdd, resumed, Option.some.injEq, Cpu.mk.injEq,
    h₀, h₁, h₂, h₃, h₄, h₅, h₆, h₈, h₉, h₁₀, h₁₁, h₁₄, h₁₅, h₁₆, and_true]
  constructor
  · funext r
    cases r <;> simp
  · funext s
    cases s <;> simp

theorem deliver_eflags (u : Unspec) (g : GateDesc) (e : Option (BitVec 32)) (c : Cpu) :
    (deliver u g e c).eflags = (c.interrupted u).eflags &&& ~~~gateFlags := rfl

variable (u callees) in
theorem exec_save (s : Stub) (g : GateDesc) (c : Cpu) (he : e.isSome = true ↔ s.withErrorCode ≠ 0) :
    ∃ f c', Pushed (c.interrupted u) c' stubWords ((c'.esp + 4) :: frameWords f) ∧
      c'.eflags = (c.interrupted u).eflags &&& ~~~gateFlags ∧ Describes f (c.interrupted u) s.num e ∧ exec u callees s.save (deliver u g e c) = some c' := by
  obtain ⟨cs, hcs, h⟩ := deliver_pushed u g e c
  cases e with
  | none =>
      have hz : s.withErrorCode = 0 := by simpa using he
      obtain ⟨c₁, h₁, f₁, x₁⟩ := h.stepImm u callees (by simp [stubWords]) 0
      obtain ⟨f, c', hc', hf, hd, hx⟩ := exec_saveFrame u callees h₁ s.num
      refine ⟨f, c', hc', ?_, hd none rfl hcs rfl, ?_⟩
      · rw [hf, f₁, deliver_eflags]
      · rw [Stub.save, if_pos hz, List.singleton_append, exec_cons, x₁, Option.bind_some]
        exact hx
  | some v =>
      have hz : s.withErrorCode ≠ 0 := by simpa using he
      obtain ⟨f, c', hc', hf, hd, hx⟩ := exec_saveFrame u callees h s.num
      refine ⟨f, c', hc', ?_, hd (some v) rfl hcs rfl, ?_⟩
      · rw [hf, deliver_eflags]
      · rw [Stub.save, if_neg hz, List.nil_append]
        exact hx

/-! ## 入り口から出口まで -/

/-- 状態 `c₁` で呼ばれた関数が、状態 `c₂` で戻った。戻り先を下ろし、`ss` と例外フレームは元のままである。 -/
structure Returned (c₁ c₂ : Cpu) : Prop where
  eip : c₂.eip = c₁.top
  esp : c₂.esp = c₁.esp + 4
  ss : c₂.ss = c₁.ss
  frame : ∀ x : BitVec 32, (x - (c₁.esp + 8)).toNat < 68 → c₂.mem x = c₁.mem x

theorem resumed_eq {f : ExceptionFrame} {c₂ : Cpu} {num : Int} (hd : Describes f c num e)
    (hesp : c₂.esp = c.esp - 72) (hss : c₂.ss = c.ss) : resumed f c₂ = { c with mem := c₂.mem } := by
  simp only [resumed, hd.cs, hd.eip, hd.eflags, hss, Cpu.mk.injEq, and_true]
  constructor
  · funext r
    cases r with
    | esp =>
        change c₂.esp + 72 = c.esp
        rw [hesp]; bv_omega
    | _ => simp [hd.eax, hd.ecx, hd.edx, hd.ebx, hd.ebp, hd.esi, hd.edi]
  · funext s
    cases s <;> simp [hd.ds, hd.es, hd.fs, hd.gs]

/-- エラーコードの有無が合っていれば、入り口のコードは割り込みを禁じたまま `do_handler_` の関数を呼び、その引数の指すフレームは
割り込まれた状態を表す。メモリは `esp` の下の 19 語しか変わらない。関数がフレームを変えずに戻れば、汎用レジスタ、セグメント、`eip`、
`esp` は割り込まれた状態に戻り、`eflags` も、積まれた RF を除いて元に戻る。 -/
theorem exception_round_trip (u : Unspec) (callees : Callees) (s : Stub) (g : GateDesc) (e : Option (BitVec 32))
    (c : Cpu) (he : e.isSome = true ↔ s.withErrorCode ≠ 0) :
    ∃ c₁ f,
      exec u callees s.code (deliver u g e c) =
        ((callees ("do_handler_" ++ s.name) c₁).filter fun c' => c'.eip = c₁.top).bind
          (exec u callees Stub.restore) ∧
      readFrame c₁.mem (load32 c₁.mem (c₁.esp + 4)) = f ∧ Describes f (c.interrupted u) s.num e ∧
      c₁.eflags.getLsbD 9 = false ∧
      (∀ x : BitVec 32, (x - c.esp).toNat < 2 ^ 32 - 4 * stubWords → c₁.mem x = c.mem x) ∧
      ∀ c₂, callees ("do_handler_" ++ s.name) c₁ = some c₂ → Returned c₁ c₂ →
        exec u callees s.code (deliver u g e c) = some { c.interrupted u with mem := c₂.mem } := by
  obtain ⟨f, c', hc', hf, hd, hx⟩ := exec_save u callees s g c he
  -- `call` は戻り先を積む。
  let ret : BitVec 32 := c'.eip + u.len (.call ("do_handler_" ++ s.name))
  let c₁ : Cpu := ({ c' with eip := ret } : Cpu).push ret
  have h₁ : Pushed (c.interrupted u) c₁ stubWords (ret :: (c₁.esp + 8) :: frameWords f) := by
    have hp := (hc'.next u (.call ("do_handler_" ++ s.name))).push (by simp [stubWords, frameWords]) ret
    have hesp : c'.esp + 4 = c₁.esp + 8 := by
      have h₁ : c₁.esp = c'.esp - 4 := push_esp _ _
      rw [h₁]; bv_omega
    rwa [hesp] at hp
  obtain ⟨htop, harg, hframe⟩ := h₁.stack.holds
  have hcode : exec u callees s.code (deliver u g e c) =
      ((callees ("do_handler_" ++ s.name) c₁).filter fun c' => c'.eip = c₁.top).bind
        (exec u callees Stub.restore) := by
    have htop' : c₁.top = ret := htop
    rw [Stub.code, exec_append, hx, Option.bind_some, exec_cons, htop']
    rfl
  have hptr : c₁.esp + 4 + 4 = c₁.esp + 8 := by bv_omega
  rw [hptr] at hframe
  refine ⟨c₁, f, hcode, ?_, hd, ?_, h₁.stack.above, fun c₂ hc₂ hret => ?_⟩
  · rw [harg]; exact readFrame_of_holds hframe
  · have hflags : c₁.eflags = c'.eflags := rfl
    rw [hflags, hf, BitVec.getLsbD_and, BitVec.getLsbD_not]
    simp [gateFlags]
  · have hlen : (frameWords f).length = 17 := rfl
    have hhold : Holds c₂.mem (c₂.esp + 4) (frameWords f) := by
      rw [hret.esp, hptr]
      exact hframe.congr (by rw [hlen]; decide) fun x hx => hret.frame x hx
    rw [hcode, hc₂, Option.filter_some, if_pos (by simpa using hret.eip), Option.bind_some]
    have hesp₁ : c₁.esp = (c.interrupted u).esp - 76 := h₁.esp_eq
    rw [exec_restore (p := load32 c₂.mem c₂.esp) ⟨rfl, hhold⟩, resumed_eq hd ?_ (hret.ss.trans h₁.ss)]
    rw [hret.esp, hesp₁]
    bv_omega

end

end IdealX86.Asm
