import ApoptOS.Memory.Virtual.PageWalk
import ApoptOS.Tables.Descriptors
import ApoptOS.Tables.IsrFrame

namespace ApoptOS

open Framework

/-- A descriptor-table register, as `lgdt` and `lidt` load it. -/
structure TableRegister where
  limit : Nat
  base : Nat
  deriving DecidableEq, Repr

def loadTableRegister (m : Mem) (a : Nat) : TableRegister := ⟨m.loadLE a 2, m.loadLE (a + 2) 8⟩

inductive Fault where
  | generalProtection (errorCode : Nat)
  | segmentNotPresent (errorCode : Nat)
  | stackFault (errorCode : Nat)
  deriving DecidableEq, Repr

/-- The bytes of a table entry that tell what may be done with a segment. -/
structure Segment where
  access : Nat
  flags : Nat
  deriving DecidableEq, Repr

namespace Segment

def present (d : Segment) : Bool := d.access.testBit 7
def dpl (d : Segment) : Nat := d.access / 32 % 4
/-- Not one of the system's segments, such as a TSS. -/
def codeOrData (d : Segment) : Bool := d.access.testBit 4
def code (d : Segment) : Bool := d.access.testBit 3
def conforming (d : Segment) : Bool := d.access.testBit 2
/-- Readable code or writable data. -/
def allows (d : Segment) : Bool := d.access.testBit 1
def long (d : Segment) : Bool := d.flags.testBit 5
def default (d : Segment) : Bool := d.flags.testBit 6

end Segment

/-- The entry that a selector names. There is no local table. -/
def readSegment (m : Mem) (gdtr : TableRegister) (ext selector : Nat) : Except Fault Segment :=
  let index := selector / 8
  if selector / 4 = 0 ∨ selector / 4 % 2 = 1 ∨ gdtr.limit < 8 * index + 7 then
    .error (.generalProtection (selector / 4 * 4 + ext))
  else .ok ⟨m.loadLE (gdtr.base + 8 * index + 5) 1, m.loadLE (gdtr.base + 8 * index + 6) 1⟩

/-- `mov` to `ds`, `es`, `fs` or `gs`. -/
def loadDataSegment (m : Mem) (gdtr : TableRegister) (cpl selector : Nat) : Except Fault Nat :=
  (readSegment m gdtr 0 selector).bind fun d =>
    if !d.codeOrData || d.code && !d.allows then .error (.generalProtection (selector / 4 * 4))
    else if !(d.code && d.conforming) ∧ d.dpl < max cpl (selector % 4) then
      .error (.generalProtection (selector / 4 * 4))
    else if !d.present then .error (.segmentNotPresent (selector / 4 * 4))
    else .ok selector

/-- `mov` to `ss`. -/
def loadStackSegment (m : Mem) (gdtr : TableRegister) (cpl selector : Nat) : Except Fault Nat :=
  (readSegment m gdtr 0 selector).bind fun d =>
    if selector % 4 ≠ cpl ∨ d.dpl ≠ cpl ∨ !d.codeOrData ∨ d.code ∨ !d.allows then
      .error (.generalProtection (selector / 4 * 4))
    else if !d.present then .error (.stackFault (selector / 4 * 4))
    else .ok selector

/-- `retfq` to a selector of the privilege that the CPU has. -/
def returnFar (m : Mem) (gdtr : TableRegister) (cpl selector : Nat) : Except Fault Nat :=
  (readSegment m gdtr 0 selector).bind fun d =>
    if selector % 4 ≠ cpl ∨ !d.codeOrData ∨ !d.code then
      .error (.generalProtection (selector / 4 * 4))
    else if d.conforming ∧ cpl < d.dpl ∨ !d.conforming ∧ d.dpl ≠ cpl ∨ !d.long ∨
      d.default then
      .error (.generalProtection (selector / 4 * 4))
    else if !d.present then .error (.segmentNotPresent (selector / 4 * 4))
    else .ok selector

/-- The selectors of a CPU. -/
structure Segments where
  cs : Nat
  ds : Nat
  es : Nat
  fs : Nat
  gs : Nat
  ss : Nat
  deriving DecidableEq, Repr

/-- `_gdt_load_asm`. -/
def gdtLoadAsm (m : Mem) (gdtr cpl : Nat) : Except Fault (TableRegister × Segments) := do
  let register := loadTableRegister m gdtr
  let ds ← loadDataSegment m register cpl 0x10
  let es ← loadDataSegment m register cpl 0x10
  let fs ← loadDataSegment m register cpl 0x10
  let gs ← loadDataSegment m register cpl 0x10
  let ss ← loadStackSegment m register cpl 0x10
  let cs ← returnFar m register cpl 0x08
  return (register, ⟨cs, ds, es, fs, gs, ss⟩)

/-- What a CPU has loaded: the two tables and the address of its TSS. -/
structure CpuTables where
  gdtr : TableRegister
  idtr : TableRegister
  tss : Nat
  segments : Segments

/-- `rsp[i]` and, from 1 on, `ist[i - 1]` of `tss_t`. -/
def tssRsp (m : Mem) (tss i : Nat) : Nat := m.loadLE (tss + 4 + 8 * i) 8
def tssIst (m : Mem) (tss i : Nat) : Nat := m.loadLE (tss + 28 + 8 * i) 8

/-- An entry of the interrupt table, put together. -/
structure Gate where
  offset : Nat
  selector : Nat
  ist : Nat
  attributes : Nat
  deriving DecidableEq, Repr

namespace Gate

def kind (g : Gate) : Nat := g.attributes % 32
def dpl (g : Gate) : Nat := g.attributes / 32 % 4
def present (g : Gate) : Bool := g.attributes.testBit 7

end Gate

def readGate (m : Mem) (idtr : TableRegister) (vector : Nat) : Gate :=
  let a := idtr.base + 16 * vector
  { offset := m.loadLE a 2 + m.loadLE (a + 6) 2 * 2 ^ 16 + m.loadLE (a + 8) 4 * 2 ^ 32
    selector := m.loadLE (a + 2) 2
    ist := m.loadLE (a + 4) 1 % 8
    attributes := m.loadLE (a + 5) 1 }

/-- Where an interrupt comes from: the CPU itself, a controller or an `int` instruction. -/
inductive Cause where
  | exception
  | external
  | software
  deriving DecidableEq, Repr

namespace CpuState

/-- Behind a gate: on the stack at `top`, aligned, is what `iretq` pops and perhaps an error code.
`TF`, `NT` and `RF` are clear, behind an interrupt gate `IF` too. -/
def through (c : CpuState) (gate : Gate) (newCpl top : Nat) (errorCode : Option Nat) : CpuState :=
  let s := (⟨top / 16 * 16, c.stack.words⟩ : WordStack)
  let s := ((((s.push c.ss).push c.stack.sp).push c.rflags).push c.cs).push c.rip
  let rflags := clearFlag (clearFlag (clearFlag c.rflags 8) 14) 16
  { regs := c.regs
    stack := match errorCode with
      | some e => s.push e
      | none => s
    rip := gate.offset
    cs := gate.selector / 4 * 4 + newCpl
    rflags := if gate.kind = 0xE then clearFlag rflags 9 else rflags
    ss := if newCpl < c.cs % 4 then newCpl else c.ss }

/-- The CPU goes through the gate of a vector, or raises a fault. -/
def deliver (m : Mem) (t : CpuTables) (cause : Cause) (vector errorCode : Nat) (c : CpuState) :
    Except Fault CpuState :=
  let cpl := c.cs % 4
  let ext := if cause = .software then 0 else 1
  let gate := readGate m t.idtr vector
  if t.idtr.limit < 16 * vector + 15 ∨ (gate.kind ≠ 0xE ∧ gate.kind ≠ 0xF) then
    .error (.generalProtection (8 * vector + 2 + ext))
  else if cause = .software ∧
    gate.dpl < cpl then .error (.generalProtection (8 * vector + 2 + ext))
  else if !gate.present then .error (.segmentNotPresent (8 * vector + 2 + ext))
  else
    (readSegment m t.gdtr ext gate.selector).bind fun d =>
      if !d.codeOrData ∨ !d.code ∨ cpl < d.dpl ∨ !d.long ∨ d.default then
        .error (.generalProtection (gate.selector / 4 * 4 + ext))
      else if !d.present then .error (.segmentNotPresent (gate.selector / 4 * 4 + ext))
      else if ¬ Canonical gate.offset then .error (.generalProtection ext)
      else
        let newCpl := if d.conforming then cpl else d.dpl
        let top :=
          if gate.ist ≠ 0 then tssIst m t.tss gate.ist
          else if newCpl < cpl then tssRsp m t.tss newCpl
          else c.stack.sp
        .ok (c.through gate newCpl top
          (if cause = .exception ∧ PushesErrorCode vector then some errorCode else none))

/-- The stub that starts at an address. -/
def stubAt (isrVectorAsm : Nat → Nat) (rip : Nat) : Option Nat :=
  (List.range 256).find? (fun vector => isrVectorAsm vector = rip)

/-- What `isr_handler` is given by the stub that the CPU has come to. -/
def handlerSees (isrVectorAsm : Nat → Nat) (c : CpuState) : Option CpuInterruptState :=
  (stubAt isrVectorAsm c.rip).map fun vector =>
    let c := (c.isrStub vector).save
    cpuInterruptStateAt (c.push c.rip).stack.words ((c.push c.rip).regs .rdi)

end CpuState

section Decoding

variable {p : TablePlaces} {isrVectorAsm : Nat → Nat} {m : Mem} {vector access flags index : Nat}

namespace GdtHolds

theorem loads_gdtr (h : GdtHolds p m) :
    loadTableRegister m p.gdtr = ⟨55, p.gdt⟩ := by
  have hfits := p.gdt_fits
  obtain ⟨hlimit, hbase, -⟩ := h.gdtr
  simp only [loadTableRegister, hlimit, hbase, TableRegister.mk.injEq]
  omega

/-- The CPU reads of an entry what `gdt_init` wrote. -/
theorem readSegment_entry (h : GdtHolds p m) (ext : Nat) (hpos : 0 < index)
    (hindex : index < gdtEntryCount) (hentry : gdtEntry index = gdtDescriptor 0 0 0 access flags 0)
    (haccess : access < 256) (hflags : flags < 256) :
    readSegment m ⟨55, p.gdt⟩ ext (8 * index) = .ok ⟨access, flags⟩ := by
  have hfields := h.gdt index hindex
  rw [hentry] at hfields
  obtain ⟨-, -, -, haccess', hflags', -⟩ := hfields
  have hsel : 8 * index / 8 = index := by omega
  have hok : ¬ (8 * index / 4 = 0 ∨ 8 * index / 4 % 2 = 1 ∨ 55 < 8 * index + 7) := by
    unfold gdtEntryCount at hindex
    omega
  simp only [readSegment, hsel, if_neg hok]
  rw [haccess', hflags']
  simp only [Except.ok.injEq, Segment.mk.injEq]
  omega

theorem kernelCode (h : GdtHolds p m) (ext : Nat) :
    readSegment m ⟨55, p.gdt⟩ ext 0x08 = .ok ⟨0b10011010, 0b00100000⟩ := by
  have hentry : gdtEntry gdtKernelCode = gdtDescriptor 0 0 0 0b10011010 0b00100000 0 := rfl
  exact h.readSegment_entry ext (by decide) (by decide) hentry (by decide) (by decide)

theorem kernelData (h : GdtHolds p m) (ext : Nat) :
    readSegment m ⟨55, p.gdt⟩ ext 0x10 = .ok ⟨0b10010010, 0⟩ := by
  have hentry : gdtEntry gdtKernelData = gdtDescriptor 0 0 0 0b10010010 0 0 := rfl
  exact h.readSegment_entry ext (by decide) (by decide) hentry (by decide) (by decide)

/-- `gdt_load` raises no fault. -/
theorem gdtLoadAsm_ok (h : GdtHolds p m) : gdtLoadAsm m p.gdtr 0 =
    .ok (⟨55, p.gdt⟩, ⟨0x08, 0x10, 0x10, 0x10, 0x10, 0x10⟩) := by
  have hdata : loadDataSegment m ⟨55, p.gdt⟩ 0 0x10 = .ok 0x10 := by
    rw [loadDataSegment, h.kernelData]
    decide
  have hstack : loadStackSegment m ⟨55, p.gdt⟩ 0 0x10 = .ok 0x10 := by
    rw [loadStackSegment, h.kernelData]
    decide
  have hcode : returnFar m ⟨55, p.gdt⟩ 0 0x08 = .ok 0x08 := by
    rw [returnFar, h.kernelCode]
    decide
  simp only [gdtLoadAsm, h.loads_gdtr, hdata, hstack, hcode]
  rfl

end GdtHolds

/-- The pieces of a handler's address put together again. -/
theorem offset_pieces {a : Nat} (h : a < 2 ^ 64) : (a &&& 0xFFFF) % 256 ^ 2 +
    ((a >>> 16) &&& 0xFFFF) % 256 ^ 2 * 2 ^ 16 +
      ((a >>> 32) &&& 0xFFFFFFFF) % 256 ^ 4 * 2 ^ 32 = a := by
  have hlow : ∀ x, x &&& 0xFFFF = x % 2 ^ 16 := fun x => Nat.and_two_pow_sub_one_eq_mod x 16
  have hhigh : ∀ x, x &&& 0xFFFFFFFF = x % 2 ^ 32 := fun x => Nat.and_two_pow_sub_one_eq_mod x 32
  rw [hlow, hlow, hhigh, Nat.shiftRight_eq_div_pow, Nat.shiftRight_eq_div_pow]
  omega

theorem TablesHold.loads_idtr (h : TablesHold p isrVectorAsm m) :
    loadTableRegister m p.idtr = ⟨4095, p.idt⟩ := by
  have hfits := p.idt_fits
  obtain ⟨hlimit, hbase, -⟩ := h.idtr
  simp only [loadTableRegister, hlimit, hbase, TableRegister.mk.injEq]
  omega

/-- The gate of a handler: for the kernel's code, with interrupts off, closed to user code. -/
def handlerGate (offset : Nat) : Gate := ⟨offset, 0x08, 0, intGate⟩

@[simp] theorem handlerGate_offset (a : Nat) : (handlerGate a).offset = a := rfl

@[simp] theorem handlerGate_kind (a : Nat) : (handlerGate a).kind = 0xE := by
  simp [handlerGate, Gate.kind, intGate]

@[simp] theorem handlerGate_dpl (a : Nat) : (handlerGate a).dpl = 0 := by
  simp [handlerGate, Gate.dpl, intGate]

@[simp] theorem handlerGate_present (a : Nat) : (handlerGate a).present = true := by
  simp only [handlerGate, Gate.present, intGate]
  decide

theorem TablesHold.readGate_eq (h : TablesHold p isrVectorAsm m) (hvector : vector < 256)
    (hcanon : Canonical (isrVectorAsm vector)) :
    readGate m ⟨4095, p.idt⟩ vector = handlerGate (isrVectorAsm vector) := by
  obtain ⟨hlow, hselector, hist, htype, hmiddle, hhigh, -⟩ := h.idt vector hvector
  simp only [Nat.add_assoc, Nat.reduceAdd] at hselector hist htype hmiddle hhigh
  have hoffset := offset_pieces hcanon.lt
  simp only [readGate, handlerGate, Nat.add_assoc, hlow, hselector, hist, htype, hmiddle, hhigh,
    Gate.mk.injEq]
  refine ⟨?_, by norm_num, by norm_num, by norm_num [intGate]⟩
  rwa [Nat.add_assoc] at hoffset

end Decoding

namespace CpuState

variable {p : TablePlaces} {isrVectorAsm : Nat → Nat} {m : Mem} {t : CpuTables} {cause : Cause}
  {vector errorCode base : Nat} {c : CpuState} {gate : Gate} {newCpl top : Nat}

/-- The stack an interrupt starts on: that of the TSS when it comes from user code. -/
def startOfStack (m : Mem) (t : CpuTables) (c : CpuState) : Nat :=
  if 0 < c.cs % 4 then tssRsp m t.tss 0 else c.stack.sp

theorem deliver_ok (h : TablesHold p isrVectorAsm m) (hgdtr : t.gdtr = ⟨55, p.gdt⟩)
    (hidtr : t.idtr = ⟨4095, p.idt⟩) (hvector : vector < 256)
    (hcanon : Canonical (isrVectorAsm vector)) (hcause : cause = .software → c.cs % 4 = 0)
    (errorCode : Nat) :
    deliver m t cause vector errorCode c = .ok (c.through (handlerGate (isrVectorAsm vector)) 0
      (startOfStack m t c) (if cause = .exception ∧ PushesErrorCode vector then some errorCode
        else none)) := by
  have hgate := h.readGate_eq hvector hcanon
  have hlimit : ¬ 4095 < 16 * vector + 15 := by omega
  have hallowed : ¬ (cause = .software ∧ 0 < c.cs % 4) := by
    intro hsoft
    have hzero := hcause hsoft.1
    omega
  have hcode : Segment.codeOrData ⟨0b10011010, 0b00100000⟩ = true ∧
      Segment.code ⟨0b10011010, 0b00100000⟩ = true ∧
      Segment.dpl ⟨0b10011010, 0b00100000⟩ = 0 ∧
      Segment.long ⟨0b10011010, 0b00100000⟩ = true ∧
      Segment.default ⟨0b10011010, 0b00100000⟩ = false ∧
      Segment.present ⟨0b10011010, 0b00100000⟩ = true ∧
      Segment.conforming ⟨0b10011010, 0b00100000⟩ = false := by decide
  obtain ⟨hdata, hexec, hlevel, hlong, hdefault, hthere, hconforming⟩ := hcode
  have hsegment : readSegment m ⟨55, p.gdt⟩ (if cause = .software then 0 else 1)
      (handlerGate (isrVectorAsm vector)).selector = _ := h.kernelCode _
  have hist : (handlerGate (isrVectorAsm vector)).ist = 0 := rfl
  simp [deliver, hgdtr, hidtr, hgate, hlimit, hallowed, hsegment, Except.bind, hdata, hexec, hlevel,
    hlong, hdefault, hthere, hconforming, hcanon, hist, startOfStack]

/-- No vector is open to the `int` instruction of user code. -/
theorem deliver_software (h : TablesHold p isrVectorAsm m) (hidtr : t.idtr = ⟨4095, p.idt⟩)
    (hvector : vector < 256) (hcanon : Canonical (isrVectorAsm vector)) (hcpl : 0 < c.cs % 4) :
    deliver m t .software vector errorCode c = .error (.generalProtection (8 * vector + 2)) := by
  have hgate := h.readGate_eq hvector hcanon
  have hlimit : ¬ 4095 < 16 * vector + 15 := by omega
  simp [deliver, hidtr, hgate, hlimit, hcpl]

/-- On its stack the stub leaves the same frame as the model without tables. -/
theorem through_frame (hpush : cause = .exception ∨ ¬ PushesErrorCode vector)
    (htop : top < 2 ^ 64) :
    ((c.through gate 0 top (if cause = .exception ∧ PushesErrorCode vector then some errorCode
      else none)).isrStub vector).stack.Has (top / 16 * 16)
        [vector, if PushesErrorCode vector then errorCode else 0, c.rip, c.cs, c.rflags, c.stack.sp,
          c.ss] := by
  have haligned : top / 16 * 16 < 2 ^ 64 := by omega
  have hframe := isrStub_frame c errorCode vector haligned
  simp only [mem_isrErr] at hframe
  cases hpush with
  | inl hcause =>
    by_cases herr : PushesErrorCode vector
    · simpa [through, enter, isrStub, push, mem_isrErr, herr, hcause] using hframe
    · simpa [through, enter, isrStub, push, mem_isrErr, herr] using hframe
  | inr herr => simpa [through, enter, isrStub, push, mem_isrErr, herr] using hframe

@[simp] theorem through_regs (errorCode : Option Nat) :
    (c.through gate newCpl top errorCode).regs = c.regs := rfl

theorem through_cs (errorCode : Option Nat) :
    (c.through (handlerGate base) 0 top errorCode).cs = 0x08 := by
  simp [through, handlerGate]

theorem clearFlag_bit (x : Nat) : clearFlag x 9 / 2 ^ 9 % 2 = 0 := by
  unfold clearFlag
  omega

/-- An interrupt gate leaves interrupts off. -/
theorem through_interrupts (hkind : gate.kind = 0xE) (errorCode : Option Nat) :
    (c.through gate newCpl top errorCode).rflags / 2 ^ 9 % 2 = 0 := by
  simp only [through, hkind, if_true]
  exact clearFlag_bit _

/-- The 22 words that a stub with seven of them on its stack hands to `isr_handler`. -/
theorem save_has {frame : List Nat} (h : c.stack.Has base frame) (hlen : frame.length = 7)
    (x : Nat) : WordStack.Has ⟨(c.save.push x).regs .rdi, (c.save.push x).stack.words⟩ base
      ((pusha64.map c.regs).reverse ++ frame) := by
  have hsaved := pushRegisters_has c.regs pusha64 h (by simp [pusha64, hlen])
  rw [← save_stack] at hsaved
  rw [push_regs, push_stack, save_rdi]
  exact hsaved.below_push x (by simp [pusha64, hlen])

theorem stubAt_eq (hinj : ∀ v < 256, ∀ w < 256, isrVectorAsm v = isrVectorAsm w → v = w)
    (hvector : vector < 256) : stubAt isrVectorAsm (isrVectorAsm vector) = some vector := by
  rw [stubAt, List.find?_range_eq_some]
  refine ⟨by simp, List.mem_range.mpr hvector, fun w hw => ?_⟩
  have hne : isrVectorAsm w ≠ isrVectorAsm vector := by
    intro he
    have hsame := hinj w (by omega) vector hvector he
    omega
  simpa using hne

/-- Behind its gate a vector comes to its own stub, and `isr_handler` is given what was
interrupted, with `rbp` and `rsi` in each other's place. -/
theorem handlerSees_through
    (hinj : ∀ v < 256, ∀ w < 256, isrVectorAsm v = isrVectorAsm w → v = w)
    (hvector : vector < 256)
    (hpush : cause = .exception ∨ ¬ PushesErrorCode vector) (htop : top < 2 ^ 64)
    (hoffset : gate.offset = isrVectorAsm vector) :
    handlerSees isrVectorAsm (c.through gate 0 top (if cause = .exception ∧ PushesErrorCode vector
      then some errorCode else none)) =
      some { interruptedState c vector errorCode with rbp := c.regs .rsi, rsi := c.regs .rbp } := by
  obtain ⟨d, hd⟩ :
    ∃ d, d = c.through gate 0 top (if cause = .exception ∧ PushesErrorCode vector
    then some errorCode else none) := ⟨_, rfl⟩
  have hregs : (d.isrStub vector).regs = c.regs := by rw [isrStub_regs, hd, through_regs]
  have hrip : d.rip = isrVectorAsm vector := by rw [hd, ← hoffset]; rfl
  have hframe : (d.isrStub vector).stack.Has (top / 16 * 16) _ := hd ▸ through_frame hpush htop
  have hhas := save_has hframe rfl (d.isrStub vector).save.rip
  rw [hregs] at hhas
  simp only [pusha64, List.map_cons, List.map_nil, List.reverse_cons, List.reverse_nil,
    List.nil_append, List.cons_append] at hhas
  rw [← hd, handlerSees, hrip, stubAt_eq hinj hvector]
  simp only [Option.map_some, cpuInterruptStateAt, interruptedState, Option.some.injEq,
    CpuInterruptState.mk.injEq]
  refine ⟨hhas.get rfl, hhas.get rfl, hhas.get rfl, hhas.get rfl, hhas.get rfl, hhas.get rfl,
    hhas.get rfl, hhas.get rfl, hhas.get rfl, hhas.get rfl, hhas.get rfl, hhas.get rfl,
    hhas.get rfl, hhas.get rfl, hhas.get rfl, hhas.get rfl, hhas.get rfl, hhas.get rfl,
    hhas.get rfl, hhas.get rfl, hhas.get rfl, hhas.get rfl⟩

end CpuState

end ApoptOS
