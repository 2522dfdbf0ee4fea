import ApoptOS.Framework.PackedFields
import ApoptOS.Hardware.Pic.Pic
import ApoptOS.Tables.Gdt

namespace ApoptOS

open Framework

/-- Where the linker places `gdt`, `idt` and the images of the registers that point to them. -/
structure TablePlaces where
  gdt : Nat
  gdtr : Nat
  idt : Nat
  idtr : Nat
  gdt_fits : gdt + 56 ≤ 2 ^ 64
  idt_fits : idt + 4096 ≤ 2 ^ 64
  apart : [(gdt, 56), (gdtr, 10), (idt, 4096), (idtr, 10)].Pairwise
    (fun p q => p.1 + p.2 ≤ q.1 ∨ q.1 + q.2 ≤ p.1)

/-- `gdt_descriptor_t`. -/
def gdtDescriptor (limitLow baseLow baseMiddle access limitHighAndFlags baseHigh : Nat) : Fields :=
  [(2, limitLow), (2, baseLow), (1, baseMiddle), (1, access), (1, limitHighAndFlags), (1, baseHigh)]

def gdtNullDescriptor : Nat := 0
def gdtKernelCode : Nat := 1
def gdtKernelData : Nat := 2
def gdtUserData : Nat := 3
def gdtUserCode : Nat := 4
def gdtEntryCount : Nat := 5

/-- The entries as `gdt_init` fills them. -/
def gdtEntry (index : Nat) : Fields :=
  if index = gdtKernelCode then gdtDescriptor 0 0 0 0b10011010 0b00100000 0
  else if index = gdtKernelData then gdtDescriptor 0 0 0 0b10010010 0 0
  else if index = gdtUserData then gdtDescriptor 0 0 0 0b11110010 0 0
  else if index = gdtUserCode then gdtDescriptor 0 0 0 0b11111010 0b00100000 0
  else gdtDescriptor 0 0 0 0 0 0

namespace TssField

/-- The place of a field in `tss_descriptor_t`, and its width. -/
def offset : TssField → Nat
  | .length => 0
  | .baseLow => 2
  | .baseMiddle => 4
  | .flags1 => 5
  | .flags2 => 6
  | .baseHigh => 7
  | .baseUpper => 8
  | .reserved => 12

def width : TssField → Nat
  | .length => 2
  | .baseLow => 2
  | .baseMiddle => 1
  | .flags1 => 1
  | .flags2 => 1
  | .baseHigh => 1
  | .baseUpper => 4
  | .reserved => 4

end TssField

def TssDescriptor.get (d : TssDescriptor) : TssField → Nat
  | .length => d.length
  | .baseLow => d.baseLow
  | .baseMiddle => d.baseMiddle
  | .flags1 => d.flags1
  | .flags2 => d.flags2
  | .baseHigh => d.baseHigh
  | .baseUpper => d.baseUpper
  | .reserved => d.reserved

/-- The descriptor in the sixteen bytes from `a`. -/
def tssDescriptorAt (m : Mem) (a : Nat) : TssDescriptor where
  length := m.loadLE a 2
  baseLow := m.loadLE (a + 2) 2
  baseMiddle := m.loadLE (a + 4) 1
  flags1 := m.loadLE (a + 5) 1
  flags2 := m.loadLE (a + 6) 1
  baseHigh := m.loadLE (a + 7) 1
  baseUpper := m.loadLE (a + 8) 4
  reserved := m.loadLE (a + 12) 4

/-- One assignment of `tss_create_segment`, on the bytes. -/
def storeTssField (m : Mem) (a addr : Nat) (f : TssField) : Mem :=
  m.storeLE (a + f.offset) f.width (((tssDescriptorAt m a).store addr f).get f)

def TablePlaces.tssDescriptor (p : TablePlaces) : Nat := p.gdt + 8 * gdtEntryCount

/-- The stores of `gdt_init`, before it loads the table. -/
def gdtInit (p : TablePlaces) (m : Mem) : Mem :=
  let m := m.storeEntries p.gdt 8 gdtEntry
    [gdtNullDescriptor, gdtKernelCode, gdtKernelData, gdtUserData, gdtUserCode]
  let m := tssCreateSegment.foldl (fun m f => storeTssField m p.tssDescriptor 0 f) m
  m.storeFields p.gdtr [(2, 8 * gdtEntryCount + 16 - 1), (8, p.gdt)]

def intGate : Nat := 0x8E

/-- `idt_descriptor_t` as `create_descriptor` fills it. -/
def idtDescriptor (offset typeAttributes : Nat) : Fields :=
  [(2, offset &&& 0xFFFF), (2, 0x08), (1, 0), (1, typeAttributes), (2, (offset >>> 16) &&& 0xFFFF),
    (4, (offset >>> 32) &&& 0xFFFFFFFF), (4, 0)]

/-- `create_descriptor(i, INT_GATE)` for the indices of a list. -/
def createDescriptors (p : TablePlaces) (isrVectorAsm : Nat → Nat) (is : List Nat) (m : Mem) :
    Mem :=
  m.storeEntries p.idt 16 (fun index => idtDescriptor (isrVectorAsm index) intGate) is

/-- What `idt_init` does before it loads the table. -/
def idtInit (p : TablePlaces) (isrVectorAsm : Nat → Nat) (m : Mem) (s : Pic.Pair) :
    Mem × Pic.Pair :=
  let m := createDescriptors p isrVectorAsm (List.range' 0 32) m
  let s := Pic.picRemap s
  let m := createDescriptors p isrVectorAsm (List.range' 32 16) m
  let m := createDescriptors p isrVectorAsm (List.range' 48 208) m
  (m.storeFields p.idtr [(2, 16 * 256 - 1), (8, p.idt)], s)

/-- The first table and its image hold what `gdt_init` put there, but for the TSS descriptor, which
each CPU stores anew. -/
structure GdtHolds (p : TablePlaces) (m : Mem) : Prop where
  gdt : ∀ index < gdtEntryCount, m.HoldsFields (p.gdt + 8 * index) (gdtEntry index)
  gdtr : m.HoldsFields p.gdtr [(2, 55), (8, p.gdt)]

structure TablesHold (p : TablePlaces) (isrVectorAsm : Nat → Nat) (m : Mem) : Prop
    extends GdtHolds p m where
  idt : ∀ index < 256,
    m.HoldsFields (p.idt + 16 * index) (idtDescriptor (isrVectorAsm index) intGate)
  idtr : m.HoldsFields p.idtr [(2, 4095), (8, p.idt)]

/-- The bytes of the tables and images, without the TSS descriptor. -/
def TablePlaces.Constant (p : TablePlaces) (x : Nat) : Prop :=
  (p.gdt ≤ x ∧ x < p.gdt + 40) ∨ (p.gdtr ≤ x ∧ x < p.gdtr + 10) ∨
    (p.idt ≤ x ∧ x < p.idt + 4096) ∨ (p.idtr ≤ x ∧ x < p.idtr + 10)

instance (p : TablePlaces) (x : Nat) : Decidable (p.Constant x) :=
  inferInstanceAs (Decidable (_ ∨ _))

variable {p : TablePlaces} {isrVectorAsm : Nat → Nat} {m m' : Mem} {a addr x : Nat} {f : TssField}

theorem TablePlaces.bounds (p : TablePlaces) :
    (p.gdt + 56 ≤ p.gdtr ∨ p.gdtr + 10 ≤ p.gdt) ∧
    (p.gdt + 56 ≤ p.idt ∨ p.idt + 4096 ≤ p.gdt) ∧
    (p.gdt + 56 ≤ p.idtr ∨ p.idtr + 10 ≤ p.gdt) ∧
    (p.gdtr + 10 ≤ p.idt ∨ p.idt + 4096 ≤ p.gdtr) ∧
    (p.gdtr + 10 ≤ p.idtr ∨ p.idtr + 10 ≤ p.gdtr) ∧
    (p.idt + 4096 ≤ p.idtr ∨ p.idtr + 10 ≤ p.idt) := by
  have h := p.apart
  simp only [List.pairwise_cons, List.mem_cons, List.not_mem_nil, or_false, forall_eq_or_imp,
    forall_eq] at h
  obtain ⟨⟨h1, h2, h3⟩, ⟨h4, h5⟩, h6, -⟩ := h
  exact ⟨h1, h2, h3, h4, h5, h6⟩

@[simp] theorem gdtEntry_width (index : Nat) : (gdtEntry index).width = 8 := by
  unfold gdtEntry
  split_ifs <;> simp [gdtDescriptor]

@[simp] theorem idtDescriptor_width (offset typeAttributes : Nat) :
    (idtDescriptor offset typeAttributes).width = 16 := by
  simp [idtDescriptor]

theorem storeTssField_outside (h : x < a ∨ a + 16 ≤ x) : storeTssField m a addr f x = m x := by
  apply Mem.storeLE_outside
  cases f <;> simp only [TssField.offset, TssField.width] <;> omega

/-- The bytes follow the assignments of the model with fields. -/
theorem tssDescriptorAt_storeTssField (m : Mem) (a addr : Nat) (f : TssField) :
    tssDescriptorAt (storeTssField m a addr f) a = (tssDescriptorAt m a).store addr f := by
  cases f <;>
    simp (disch := omega) only [tssDescriptorAt, storeTssField, TssField.offset, TssField.width,
      TssDescriptor.store, TssDescriptor.get, Mem.loadLE_storeLE_same, Mem.loadLE_storeLE_other,
      Nat.add_zero, TssDescriptor.mk.injEq, and_true, true_and] <;>
    simp [tssAvailable]

theorem tssDescriptorAt_create (m : Mem) (a addr : Nat) :
    tssDescriptorAt (tssCreateSegment.foldl (fun m f => storeTssField m a addr f) m) a =
      tssCreateSegment.foldl (fun d f => d.store addr f) (tssDescriptorAt m a) := by
  induction tssCreateSegment generalizing m with
  | nil => rfl
  | cons f fs ih => rw [List.foldl_cons, List.foldl_cons, ih, tssDescriptorAt_storeTssField]

theorem TablesHold.congr (h : TablesHold p isrVectorAsm m)
    (hsame : ∀ x, p.Constant x → m' x = m x) : TablesHold p isrVectorAsm m' := by
  refine ⟨⟨fun index hi => (h.gdt index hi).congr ?_, h.gdtr.congr ?_⟩,
    fun index hi => (h.idt index hi).congr ?_, h.idtr.congr ?_⟩
  · intro x hx hlt
    unfold gdtEntryCount at hi
    rw [gdtEntry_width] at hlt
    exact hsame x (.inl ⟨by omega, by omega⟩)
  · exact fun x hx hlt => hsame x (.inr (.inl ⟨hx, hlt⟩))
  · intro x hx hlt
    rw [idtDescriptor_width] at hlt
    exact hsame x (.inr (.inr (.inl ⟨by omega, by omega⟩)))
  · exact fun x hx hlt => hsame x (.inr (.inr (.inr ⟨hx, hlt⟩)))

/-- The TSS descriptor is none of the bytes that stay. -/
theorem TablePlaces.Constant.outside_tss (h : p.Constant x) :
    x < p.tssDescriptor ∨ p.tssDescriptor + 16 ≤ x := by
  have hbounds := p.bounds
  unfold TablePlaces.Constant at h
  unfold TablePlaces.tssDescriptor gdtEntryCount
  omega

theorem createTss_outside (h : x < a ∨ a + 16 ≤ x) :
    tssCreateSegment.foldl (fun m f => storeTssField m a addr f) m x = m x := by
  induction tssCreateSegment generalizing m with
  | nil => rfl
  | cons f fs ih => rw [List.foldl_cons, ih, storeTssField_outside h]

theorem createDescriptors_outside {is : List Nat} (hi : ∀ index ∈ is, index < 256)
    (h : x < p.idt ∨ p.idt + 4096 ≤ x) : createDescriptors p isrVectorAsm is m x = m x := by
  apply Mem.storeEntries_outside (by simp)
  intro index hindex
  have hlt := hi index hindex
  omega

/-- The three loops fill the table one after the other. -/
theorem idtInit_mem (p : TablePlaces) (isrVectorAsm : Nat → Nat) (m : Mem) (s : Pic.Pair) :
    (idtInit p isrVectorAsm m s).1 =
    (createDescriptors p isrVectorAsm (List.range 256) m).storeFields
      p.idtr [(2, 4095), (8, p.idt)] := by
  have htail : List.range' 32 16 ++ List.range' 48 208 = List.range' 32 224 :=
    List.range'_append_1
  have hrange : List.range' 0 32 ++ List.range' 32 224 = List.range' 0 256 := List.range'_append_1
  rw [List.range_eq_range', ← hrange, ← htail, createDescriptors, Mem.storeEntries_append,
    Mem.storeEntries_append]
  rfl

theorem gdtHolds_init (p : TablePlaces) (m : Mem) : GdtHolds p (gdtInit p m) := by
  have hbounds := p.bounds
  refine ⟨fun index hi => ?_, Mem.holdsFields_storeFields _ _ _⟩
  unfold gdtEntryCount at hi
  have hmem : index ∈ [gdtNullDescriptor, gdtKernelCode, gdtKernelData, gdtUserData,
    gdtUserCode] := by
    simp [gdtNullDescriptor, gdtKernelCode, gdtKernelData, gdtUserData, gdtUserCode]
    omega
  apply (Mem.holdsFields_storeEntries (m := m) (a := p.gdt) gdtEntry_width hmem).congr
  intro x hx hlt
  rw [gdtEntry_width] at hlt
  have hconst : p.Constant x := .inl ⟨by omega, by omega⟩
  rw [gdtInit, Mem.storeFields_outside (by simp; omega)]
  exact createTss_outside hconst.outside_tss

theorem idtInit_outside (hidt : x < p.idt ∨ p.idt + 4096 ≤ x)
    (hidtr : x < p.idtr ∨ p.idtr + 10 ≤ x)
    (s : Pic.Pair) : (idtInit p isrVectorAsm m s).1 x = m x := by
  have hall : ∀ index ∈ List.range 256, index < 256 := by simp
  rw [idtInit_mem, Mem.storeFields_outside (by simpa using hidtr),
    createDescriptors_outside hall hidt]

/-- `idt_init` makes the tables complete. -/
theorem GdtHolds.idtInit (h : GdtHolds p m) (isrVectorAsm : Nat → Nat) (s : Pic.Pair) :
    TablesHold p isrVectorAsm (idtInit p isrVectorAsm m s).1 := by
  have hbounds := p.bounds
  refine ⟨⟨fun index hi => ?_, ?_⟩, fun index hi => ?_, ?_⟩
  · apply (h.gdt index hi).congr
    intro x hx hlt
    unfold gdtEntryCount at hi
    rw [gdtEntry_width] at hlt
    exact idtInit_outside (by omega) (by omega) s
  · apply h.gdtr.congr
    intro x hx hlt
    simp only [Fields.width_cons, Fields.width_nil] at hlt
    exact idtInit_outside (by omega) (by omega) s
  · apply (Mem.holdsFields_storeEntries (by simp) (List.mem_range.mpr hi)).congr
    intro x hx hlt
    rw [idtDescriptor_width] at hlt
    rw [idtInit_mem]
    exact Mem.storeFields_outside (by simp; omega)
  · rw [idtInit_mem]
    exact Mem.holdsFields_storeFields _ _ _

end ApoptOS
