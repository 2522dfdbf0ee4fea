import ApoptOS.Tables.Isr

namespace ApoptOS

open Framework

/-- `cpu_interrupt_state_t`: 22 words, in this order. -/
structure CpuInterruptState where
  r15 : Nat
  r14 : Nat
  r13 : Nat
  r12 : Nat
  r11 : Nat
  r10 : Nat
  r9 : Nat
  r8 : Nat
  rbp : Nat
  rdi : Nat
  rsi : Nat
  rdx : Nat
  rcx : Nat
  rbx : Nat
  rax : Nat
  isrNumber : Nat
  errorCode : Nat
  rip : Nat
  cs : Nat
  rflags : Nat
  rsp : Nat
  ss : Nat
  deriving DecidableEq, Repr

/-- The structure at an address: field `i` is the word at offset `8 * i`. -/
def cpuInterruptStateAt (words : Nat → Nat) (rsp : Nat) : CpuInterruptState :=
  let field (i : Nat) := words (add64 rsp (8 * i))
  { r15 := field 0, r14 := field 1, r13 := field 2, r12 := field 3, r11 := field 4, r10 := field 5,
    r9 := field 6, r8 := field 7, rbp := field 8, rdi := field 9, rsi := field 10, rdx := field 11,
    rcx := field 12, rbx := field 13, rax := field 14, isrNumber := field 15, errorCode := field 16,
    rip := field 17, cs := field 18, rflags := field 19, rsp := field 20, ss := field 21 }

namespace CpuState

/-- The vectors for which the CPU pushes an error code. -/
def PushesErrorCode (vector : Nat) : Prop :=
  vector = 8 ∨ (10 ≤ vector ∧ vector ≤ 14) ∨ vector = 17 ∨ vector = 21

instance (vector : Nat) : Decidable (PushesErrorCode vector) :=
  inferInstanceAs (Decidable (_ ∨ _))

/-- The CPU where `isr_handler` starts: delivery, stub, `pusha64` and `call`. -/
def handlerEntry (top errorCode vector : Nat) (c : CpuState) : CpuState :=
  let c := ((c.enter top errorCode vector).isrStub vector).save
  c.push c.rip

/-- `cpu` in `isr_handler(rsp)`. -/
def handlerState (top errorCode vector : Nat) (c : CpuState) : CpuInterruptState :=
  let entry := handlerEntry top errorCode vector c
  cpuInterruptStateAt entry.stack.words (entry.regs .rdi)

/-- What was interrupted, each field with the register it is named after. -/
def interruptedState (c : CpuState) (vector errorCode : Nat) : CpuInterruptState where
  r15 := c.regs .r15
  r14 := c.regs .r14
  r13 := c.regs .r13
  r12 := c.regs .r12
  r11 := c.regs .r11
  r10 := c.regs .r10
  r9 := c.regs .r9
  r8 := c.regs .r8
  rbp := c.regs .rbp
  rdi := c.regs .rdi
  rsi := c.regs .rsi
  rdx := c.regs .rdx
  rcx := c.regs .rcx
  rbx := c.regs .rbx
  rax := c.regs .rax
  isrNumber := vector
  errorCode := if PushesErrorCode vector then errorCode else 0
  rip := c.rip
  cs := c.cs
  rflags := c.rflags
  rsp := c.stack.sp
  ss := c.ss

variable {top errorCode vector : Nat} {c : CpuState}

/-- The stubs without a word of their own for the error code are those of the vectors that
bring one. -/
theorem mem_isrErr : vector ∈ isrErr ↔ PushesErrorCode vector := by
  simp only [isrErr, PushesErrorCode, List.mem_cons, List.not_mem_nil, or_false]
  omega

/-- The frame of 22 words at `rdi`. -/
theorem handlerEntry_has (c : CpuState) (errorCode vector : Nat) (htop : top < 2 ^ 64) :
    WordStack.Has ⟨(handlerEntry top errorCode vector c).regs .rdi,
      (handlerEntry top errorCode vector c).stack.words⟩ top
      ((pusha64.map c.regs).reverse ++ [vector, if PushesErrorCode vector then errorCode else 0,
        c.rip, c.cs, c.rflags, c.stack.sp, c.ss]) := by
  have hstub := isrStub_frame c errorCode vector htop
  have hframe := pushRegisters_has ((c.enter top errorCode vector).isrStub vector).regs pusha64
    hstub (by simp [pusha64])
  rw [← save_stack, isrStub_regs, enter_regs] at hframe
  have hcall := hframe.below_push ((c.enter top errorCode vector).isrStub vector).save.rip
    (by simp [pusha64])
  simp only [mem_isrErr] at hcall
  rw [handlerEntry, push_regs, push_stack, save_rdi]
  exact hcall

/-- What `isr_handler` sees: all of it as interrupted, but `rbp` and `rsi` in each other's
place. -/
theorem handlerState_eq (c : CpuState) (errorCode vector : Nat) (htop : top < 2 ^ 64) :
    handlerState top errorCode vector c =
      { interruptedState c vector errorCode with rbp := c.regs .rsi, rsi := c.regs .rbp } := by
  have hhas := handlerEntry_has c errorCode vector htop
  simp only [pusha64, List.map_cons, List.map_nil, List.reverse_cons, List.reverse_nil,
    List.nil_append, List.cons_append] at hhas
  simp only [handlerState, cpuInterruptStateAt, interruptedState, CpuInterruptState.mk.injEq]
  refine ⟨hhas.get rfl, hhas.get rfl, hhas.get rfl, hhas.get rfl, hhas.get rfl, hhas.get rfl,
    hhas.get rfl, hhas.get rfl, hhas.get rfl, hhas.get rfl, hhas.get rfl, hhas.get rfl,
    hhas.get rfl, hhas.get rfl, hhas.get rfl, hhas.get rfl, hhas.get rfl, hhas.get rfl,
    hhas.get rfl, hhas.get rfl, hhas.get rfl, hhas.get rfl⟩

/-- For every vector, error code and register file: the handler sees what was interrupted exactly
if `rbp` and `rsi` were equal. -/
theorem handler_sees_interrupted_iff (vector errorCode top : Nat) (htop : top < 2 ^ 64)
    (c : CpuState) :
    handlerState top errorCode vector c = interruptedState c vector errorCode ↔
      c.regs .rbp = c.regs .rsi := by
  rw [handlerState_eq c errorCode vector htop]
  constructor
  · intro h
    exact congrArg CpuInterruptState.rsi h
  · intro h
    simp only [interruptedState, h]

/-- A page fault with zero in all registers. -/
theorem handler_sees_interrupted_iff_zero :
    handlerState 0x8000 2 14 { interrupted with regs := fun _ => 0 } =
      interruptedState { interrupted with regs := fun _ => 0 } 14 2 :=
  (handler_sees_interrupted_iff 14 2 0x8000 (by decide) { interrupted with regs := fun _ => 0 }).mpr
    rfl

/-- With a frame pointer in `rbp` and zero in `rsi`, the handler sees them the other way round. -/
theorem handler_swaps_rbp_rsi :
    (handlerState 0x8000 2 14 { interrupted with
      regs := fun r => if r = .rbp then 0x7000 else 0 }).rsi = 0x7000 ∧
    handlerState 0x8000 2 14 { interrupted with
      regs := fun r => if r = .rbp then 0x7000 else 0 } ≠
      interruptedState { interrupted with regs := fun r => if r = .rbp then 0x7000 else 0 } 14
        2 := by
  decide +kernel

end CpuState

end ApoptOS
