import ApoptOS.Framework.WordStack

namespace ApoptOS

open Framework

/-- The general-purpose registers besides `rsp`. -/
inductive Reg where
  | rax | rbx | rcx | rdx | rbp | rdi | rsi | r8 | r9 | r10 | r11 | r12 | r13 | r14 | r15
  deriving DecidableEq, Repr

structure CpuState where
  regs : Reg → Nat
  stack : WordStack
  rip : Nat
  cs : Nat
  rflags : Nat
  ss : Nat

/-- The macros of definitions.inc. -/
def pusha64 : List Reg :=
  [.rax, .rbx, .rcx, .rdx, .rbp, .rdi, .rsi, .r8, .r9, .r10, .r11, .r12, .r13, .r14, .r15]
def popa64 : List Reg :=
  [.rax, .rbx, .rcx, .rdx, .rbp, .rdi, .rsi, .r8, .r9, .r10, .r11, .r12, .r13, .r14, .r15]

def syscallInt : Nat := 128

/-- The vectors with an `ISR_ERR` stub, for which the CPU pushes an error code. -/
def isrErr : List Nat := [8, 10, 11, 12, 13, 14, 17, 21]

/-- A flag of `rflags` set to zero: bit 9 is `IF`, bit 10 is `DF`. -/
@[irreducible] def clearFlag (rflags bit : Nat) : Nat := rflags - rflags / 2 ^ bit % 2 * 2 ^ bit

namespace CpuState

def push (c : CpuState) (v : Nat) : CpuState := { c with stack := c.stack.push v }
def setReg (c : CpuState) (r : Reg) (v : Nat) : CpuState :=
  { c with regs := Function.update c.regs r v }

/-- Through an interrupt gate: the CPU switches to the stack at `top` (the current one, aligned,
or the one of the TSS) and pushes what `iretq` pops. The gate masks interrupts. -/
def enter (c : CpuState) (top errorCode vector : Nat) : CpuState :=
  let s := (⟨top, c.stack.words⟩ : WordStack)
  let s := ((((s.push c.ss).push c.stack.sp).push c.rflags).push c.cs).push c.rip
  { c with
    stack := if vector ∈ isrErr then s.push errorCode else s
    rflags := clearFlag c.rflags 9
    cs := 0x08 }

/-- `ISR_ERR` and `ISR_NO_ERR`. -/
def isrStub (c : CpuState) (vector : Nat) : CpuState :=
  if vector ∈ isrErr then c.push vector else (c.push 0).push vector

/-- `isr_handler`: what it prints and writes to the LAPIC is in `body`. For exceptions and
unknown interrupts it never returns. -/
def isrHandler (body : CpuState → CpuState) (c : CpuState) : Option CpuState :=
  let rsp := c.regs .rdi
  let isrNumber := c.stack.words (add64 rsp (8 * 15))
  if isrNumber < 32 then none
  else if 32 ≤ isrNumber ∧ isrNumber < 48 then some ((body c).setReg .rax rsp)
  else if isrNumber = syscallInt then some ((body c).setReg .rax rsp)
  else none

/-- `call` of a function that may not return. -/
def call (f : CpuState → Option CpuState) (c : CpuState) : Option CpuState :=
  (f (c.push c.rip)).map (fun c => { c with stack := c.stack.pop.2, rip := c.stack.pop.1 })

def iretq (c : CpuState) : CpuState :=
  let (rip, s) := c.stack.pop
  let (cs, s) := s.pop
  let (rflags, s) := s.pop
  let (rsp, s) := s.pop
  let (ss, s) := s.pop
  ⟨c.regs, ⟨rsp, s.words⟩, rip, cs, rflags, ss⟩

/-- `cld`, `pusha64` and `mov rdi, rsp`. -/
def save (c : CpuState) : CpuState :=
  let stack := pushRegisters c.regs pusha64 c.stack
  { c with
    regs := Function.update c.regs .rdi stack.sp
    stack := stack
    rflags := clearFlag c.rflags 10 }

/-- `mov rsp, rax`, `popa64`, `add rsp, 16` and `iretq`. -/
def restore (c : CpuState) : CpuState :=
  let r := popRegisters popa64 (c.regs, (⟨c.regs .rax, c.stack.words⟩ : WordStack))
  iretq { c with regs := r.1, stack := ⟨add64 r.2.sp 16, r.2.words⟩ }

def isrHandlerAsm (body : CpuState → CpuState) (c : CpuState) : Option CpuState :=
  (c.save.call (isrHandler body)).map restore

/-- An interrupt from its delivery to the `iretq`. -/
def interrupt (body : CpuState → CpuState) (top errorCode vector : Nat) (c : CpuState) :
    Option CpuState :=
  ((c.enter top errorCode vector).isrStub vector).isrHandlerAsm body

/-- The vectors whose branch of `isr_handler` returns. -/
def Returns (vector : Nat) : Prop := (32 ≤ vector ∧ vector < 48) ∨ vector = syscallInt

/-- The body does not modify the saved frame, which starts at the argument in `rdi`: the
registers, interrupt number and error code, and the five words for `iretq`. -/
def FrameKept (body : CpuState → CpuState) : Prop :=
  ∀ c : CpuState, ∀ i < 22, (body c).stack.words (add64 (c.regs .rdi) (8 * i)) =
    c.stack.words (add64 (c.regs .rdi) (8 * i))

/-- Nothing of what the interrupted code sees has changed. -/
structure Transparent (c c' : CpuState) : Prop where
  regs : ∀ r, c'.regs r = c.regs r
  rsp : c'.stack.sp = c.stack.sp
  rip : c'.rip = c.rip
  rflags : c'.rflags = c.rflags

variable {c c' : CpuState} {body : CpuState → CpuState} {top errorCode vector : Nat}

@[simp] theorem push_regs (v : Nat) : (c.push v).regs = c.regs := by
  unfold push
  rfl

theorem push_stack (v : Nat) : (c.push v).stack = c.stack.push v := by
  unfold push
  rfl

theorem enter_regs : (c.enter top errorCode vector).regs = c.regs := by
  simp only [enter]

theorem isrStub_regs : (c.isrStub vector).regs = c.regs := by
  by_cases h : vector ∈ isrErr
  · rw [isrStub, if_pos h, push_regs]
  · rw [isrStub, if_neg h, push_regs, push_regs]

theorem save_stack : c.save.stack = pushRegisters c.regs pusha64 c.stack := by
  simp only [save]

theorem save_rdi : c.save.regs .rdi = c.save.stack.sp := by
  simp only [save, Function.update_self]

theorem Returns.not_isrErr (h : Returns vector) : vector ∉ isrErr := by
  intro hmem
  have hlt : ∀ v ∈ isrErr, v < 32 := by decide
  have hv := hlt vector hmem
  unfold Returns syscallInt at h
  omega

/-- Every stub leaves the same seven words, with 0 for an error code that the CPU did not push. -/
theorem isrStub_frame (c : CpuState) (errorCode vector : Nat) (htop : top < 2 ^ 64) :
    (((c.enter top errorCode vector).isrStub vector).stack).Has top
      [vector, if vector ∈ isrErr then errorCode else 0, c.rip, c.cs, c.rflags, c.stack.sp,
        c.ss] := by
  have h0 := WordStack.has_nil htop c.stack.words
  have h5 := ((((h0.push c.ss (by simp)).push c.stack.sp (by simp)).push c.rflags (by simp)).push
    c.cs (by simp)).push c.rip (by simp)
  by_cases herr : vector ∈ isrErr
  · have h7 := (h5.push errorCode (by simp)).push vector (by simp)
    simpa only [enter, isrStub, push, herr, if_true] using h7
  · have h7 := (h5.push 0 (by simp)).push vector (by simp)
    simpa only [enter, isrStub, push, herr, if_false] using h7

theorem isrStub_has (c : CpuState) (errorCode : Nat) (h : Returns vector) (htop : top < 2 ^ 64) :
    (((c.enter top errorCode vector).isrStub vector).stack).Has top
      [vector, 0, c.rip, c.cs, c.rflags, c.stack.sp, c.ss] := by
  have hframe := isrStub_frame c errorCode vector htop
  rwa [if_neg h.not_isrErr] at hframe

theorem iretq_has {base : Nat} {rip cs rflags rsp ss : Nat}
    (h : c.stack.Has base [rip, cs, rflags, rsp, ss]) :
    c.iretq.rip = rip ∧ c.iretq.rflags = rflags ∧ c.iretq.stack.sp = rsp ∧
      c.iretq.regs = c.regs := by
  obtain ⟨hrip, h1⟩ := h.pop
  obtain ⟨-, h2⟩ := h1.pop
  obtain ⟨hrflags, h3⟩ := h2.pop
  obtain ⟨hrsp, -⟩ := h3.pop
  exact ⟨hrip, hrflags, hrsp, rfl⟩

theorem popa64_nodup : popa64.Nodup := by decide

/-- The C function gets the interrupt number out of the frame and returns its argument. -/
theorem isrHandler_returns (body : CpuState → CpuState) (h : Returns vector) {rsp base : Nat}
    {frame : List Nat} (hrdi : c.regs .rdi = rsp)
    (hhas : WordStack.Has ⟨rsp, c.stack.words⟩ base frame)
    (hvector : frame[15]? = some vector) :
    isrHandler body c = some ((body c).setReg .rax rsp) := by
  have hnumber : c.stack.words (add64 rsp (8 * 15)) = vector := hhas.get hvector
  unfold Returns syscallInt at h
  simp only [isrHandler, hrdi, hnumber, syscallInt]
  split_ifs
  · omega
  · rfl
  · rfl
  · omega

/-- `isr_handler` is called with the saved frame in `rdi` and comes back with it in `rax`. -/
theorem call_isrHandler (hbody : FrameKept body) (h : Returns vector) {base : Nat}
    {frame : List Nat} (hc : c.stack.Has base frame) (hlen : frame.length = 22)
    (hrdi : c.regs .rdi = c.stack.sp) (hvector : frame[15]? = some vector) :
    ∃ c', c.call (isrHandler body) = some c' ∧
      WordStack.Has ⟨c'.regs .rax, c'.stack.words⟩ base frame := by
  have hrdi' : (c.push c.rip).regs .rdi = c.stack.sp := by rw [push_regs, hrdi]
  -- behind the return address the frame is as it was pushed
  have hentry : WordStack.Has ⟨c.stack.sp, (c.push c.rip).stack.words⟩ base frame := by
    rw [push_stack]
    exact hc.below_push c.rip (by rw [hlen]; norm_num)
  have hkept : WordStack.Has ⟨c.stack.sp, (body (c.push c.rip)).stack.words⟩ base frame := by
    refine hentry.congr rfl (fun i hi => ?_)
    have hword := hbody (c.push c.rip) i (hlen ▸ hi)
    rw [hrdi'] at hword
    exact hword
  have hhandler := isrHandler_returns body h hrdi' hentry hvector
  refine ⟨_, by rw [call, hhandler, Option.map_some], ?_⟩
  simp only [setReg, Function.update_self, WordStack.pop_snd_words]
  exact hkept

/-- What `restore` makes of the frame. -/
theorem restore_has {base : Nat} {saved : List Nat} {vector errorCode rip cs rflags rsp ss : Nat}
    (hsaved : saved.length = popa64.length)
    (hc : WordStack.Has ⟨c.regs .rax, c.stack.words⟩ base
      (saved ++ [vector, errorCode, rip, cs, rflags, rsp, ss])) :
    popa64.map c.restore.regs = saved ∧ c.restore.stack.sp = rsp ∧ c.restore.rip = rip ∧
      c.restore.rflags = rflags := by
  obtain ⟨hregs, -, hrest⟩ := popRegisters_has c.regs popa64_nodup hsaved hc
  obtain ⟨r, hr⟩ : ∃ r, r = popRegisters popa64 (c.regs,
      (⟨c.regs .rax, c.stack.words⟩ : WordStack)) := ⟨_, rfl⟩
  rw [← hr] at hregs hrest
  have htwo : r.2.Has base ([vector, errorCode] ++ [rip, cs, rflags, rsp, ss]) := hrest
  have hfive : WordStack.Has ⟨add64 r.2.sp 16, r.2.words⟩ base [rip, cs, rflags, rsp, ss] :=
    htwo.drop
  rw [restore, ← hr]
  obtain ⟨hrip, hrflags, hrsp, hpopped⟩ :=
    iretq_has (c := { c with regs := r.1, stack := ⟨add64 r.2.sp 16, r.2.words⟩ }) hfive
  rw [hpopped]
  exact ⟨hregs, hrsp, hrip, hrflags⟩

/-- The common path of all stubs, from the seven words that the CPU and the stub pushed. -/
theorem isrHandlerAsm_spec (hbody : FrameKept body) (h : Returns vector) {base : Nat}
    {errorCode rip cs rflags rsp ss : Nat}
    (hc : c.stack.Has base [vector, errorCode, rip, cs, rflags, rsp, ss]) :
    ∃ c', isrHandlerAsm body c = some c' ∧ popa64.map c'.regs = (pusha64.map c.regs).reverse ∧
      c'.stack.sp = rsp ∧ c'.rip = rip ∧ c'.rflags = rflags := by
  have hframe := pushRegisters_has c.regs pusha64 hc (by simp [pusha64])
  rw [← save_stack] at hframe
  obtain ⟨c', hcall, hhas⟩ :=
    call_isrHandler hbody h hframe (by simp [pusha64]) save_rdi (by simp [pusha64])
  exact ⟨_, by rw [isrHandlerAsm, hcall, Option.map_some],
    restore_has (by simp [pusha64, popa64]) hhas⟩

/-- An interrupt whose handler returns gives every register the value that was pushed in the
mirrored place. -/
theorem interrupt_spec (c : CpuState) (errorCode : Nat) (hbody : FrameKept body)
    (h : Returns vector) (htop : top < 2 ^ 64) :
    ∃ c', interrupt body top errorCode vector c = some c' ∧
      popa64.map c'.regs = (pusha64.map c.regs).reverse ∧
      c'.stack.sp = c.stack.sp ∧ c'.rip = c.rip ∧ c'.rflags = c.rflags := by
  have hspec := isrHandlerAsm_spec hbody h (isrStub_has c errorCode h htop)
  rwa [isrStub_regs, enter_regs] at hspec

/-- For every vector whose handler returns and every state of the CPU: the interrupt is
transparent exactly if the registers that `popa64` mixes up are equal. -/
theorem interrupt_transparent_iff (body : CpuState → CpuState) (hbody : FrameKept body)
    (vector : Nat) (h : Returns vector) (top errorCode : Nat) (htop : top < 2 ^ 64) (c : CpuState) :
    (∃ c', interrupt body top errorCode vector c = some c' ∧ Transparent c c') ↔
      c.regs .rax = c.regs .r15 ∧ c.regs .rbx = c.regs .r14 ∧ c.regs .rcx = c.regs .r13 ∧
      c.regs .rdx = c.regs .r12 ∧ c.regs .rbp = c.regs .r11 ∧ c.regs .rdi = c.regs .r10 ∧
      c.regs .rsi = c.regs .r9 := by
  obtain ⟨c1, hrun, hregs, hrsp, hrip, hrflags⟩ :=
    interrupt_spec c errorCode hbody h htop
  simp only [popa64, pusha64, List.map_cons, List.map_nil, List.reverse_cons, List.reverse_nil,
    List.nil_append, List.cons_append, List.cons.injEq, and_true] at hregs
  constructor
  · rintro ⟨c', hrun', htrans⟩
    rw [hrun] at hrun'
    obtain rfl := Option.some.inj hrun'
    simp only [htrans.regs] at hregs
    tauto
  · intro hc
    refine ⟨c1, hrun, fun r => ?_, hrsp, hrip, hrflags⟩
    cases r <;> simp only [hregs, hc]

/-- Code with `rax = 1` and zero in the other registers, on a stack at 0x8000. -/
def interrupted : CpuState :=
  ⟨fun r => if r = .rax then 1 else 0, ⟨0x8000, fun _ => 0⟩, 0x1000, 0x08, 0x202, 0x10⟩

theorem frameKept_id : FrameKept id := fun _ _ _ => rfl

/-- With zero in `rax` too nothing is mixed up. -/
theorem interrupt_transparent_iff_zero :
    ∃ c', interrupt id 0x8000 0 32 { interrupted with regs := fun _ => 0 } = some c' ∧
      Transparent { interrupted with regs := fun _ => 0 } c' :=
  (interrupt_transparent_iff id frameKept_id 32 (Or.inl (by decide)) 0x8000 0 (by decide)
    { interrupted with regs := fun _ => 0 }).mpr ⟨rfl, rfl, rfl, rfl, rfl, rfl, rfl⟩

/-- The timer interrupt moves `rax` to `r15`, and `r15` to `rax`. -/
theorem interrupt_swaps_rax :
    (∃ c', interrupt id 0x8000 0 32 interrupted = some c' ∧ c'.regs .rax = 0 ∧
      c'.regs .r15 = 1) ∧
    ¬ ∃ c', interrupt id 0x8000 0 32 interrupted = some c' ∧ Transparent interrupted c' := by
  have heval : ((interrupt id 0x8000 0 32 interrupted).map
      (fun c' => (c'.regs .rax, c'.regs .r15))) = some (0, 1) := by decide +kernel
  obtain ⟨c', hc', hregs⟩ := Option.map_eq_some_iff.mp heval
  obtain ⟨hrax, hr15⟩ := Prod.mk.inj hregs
  refine ⟨⟨c', hc', hrax, hr15⟩, ?_⟩
  rintro ⟨c2, hc2, htrans⟩
  rw [hc'] at hc2
  obtain rfl := Option.some.inj hc2
  have hsame := htrans.regs .rax
  rw [hrax] at hsame
  exact absurd hsame (by decide)

end CpuState

end ApoptOS
