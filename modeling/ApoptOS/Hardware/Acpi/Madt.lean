import ApoptOS.Framework.Records
import ApoptOS.Hardware.Acpi.Sdt

namespace ApoptOS

open Framework

/-- The entries `madt_init` records, by their type byte. -/
inductive EntryType where
  | lapic
  | ioapic
  | iso
  | lapicNmi
  deriving DecidableEq, Repr

def EntryType.code : EntryType → Nat
  | .lapic => 0
  | .ioapic => 1
  | .iso => 2
  | .lapicNmi => 4

/-- One of the arrays of entry pointers: where `malloc` put it, the stores made to it (index and
pointer) and its counter, a `size_t` that no table is long enough to wrap. -/
structure EntryArray where
  base : Nat
  stores : List (Nat × Nat)
  count : Nat
  deriving DecidableEq, Repr

def EntryArray.push (array : EntryArray) (entryPtr : Nat) : EntryArray :=
  { array with
    stores := array.stores ++ [(array.count, entryPtr)]
    count := array.count + 1 }

/-- The static variables of madt.c. -/
structure MadtArrays where
  lapics : EntryArray
  ioapics : EntryArray
  isos : EntryArray
  lapicNmis : EntryArray
  deriving DecidableEq, Repr

def MadtArrays.array (arrays : MadtArrays) : EntryType → EntryArray
  | .lapic => arrays.lapics
  | .ioapic => arrays.ioapics
  | .iso => arrays.isos
  | .lapicNmi => arrays.lapicNmis

/-- The arrays as `malloc(256)` returned them, with the counters at 0. -/
def freshArrays (lapics ioapics isos lapicNmis : Nat) : MadtArrays :=
  ⟨⟨lapics, [], 0⟩, ⟨ioapics, [], 0⟩, ⟨isos, [], 0⟩, ⟨lapicNmis, [], 0⟩⟩

/-- The switch over the type byte. Type 3 and all types above 4 are passed over. -/
def MadtArrays.record (arrays : MadtArrays) (type : BitVec 8) (entryPtr : Nat) : MadtArrays :=
  match type.toNat with
  | 0 => { arrays with lapics := arrays.lapics.push entryPtr }
  | 1 => { arrays with ioapics := arrays.ioapics.push entryPtr }
  | 2 => { arrays with isos := arrays.isos.push entryPtr }
  | 4 => { arrays with lapicNmis := arrays.lapicNmis.push entryPtr }
  | _ => arrays

/-- `&madt->entries - madt`: the header, `lapic_address` and `flags`. -/
def madtEntriesOffset : Nat := 44

/-- The loop of `madt_init`, with the addresses it reads in the order it reads them. -/
def madtLoop (m : Mem) (stop : Nat) : Nat → Nat → MadtArrays →
    Except AcpiHalt MadtArrays × List Nat
  | 0, _, _ => (.error .outOfFuel, [])
  | steps + 1, entryPtr, arrays =>
    if entryPtr < stop then
      let r := madtLoop m stop steps (add64 entryPtr (byteAt m entryPtr 1).toNat)
        (arrays.record (byteAt m entryPtr 0) entryPtr)
      (r.1, entryPtr :: add64 entryPtr 1 :: r.2)
    else (.ok arrays, [])

def madtWalk (steps : Nat) (m : Mem) (madt : Nat) (arrays : MadtArrays) :
    Except AcpiHalt MadtArrays × List Nat :=
  madtLoop m (add64 madt (sdtLength m madt)) steps (add64 madt madtEntriesOffset) arrays

/-- `madt_init` with what its four calls of `malloc(256)` return; `fuel` is for the search. -/
def madtInit (fuel steps : Nat) (m : Mem) (acpi : Acpi) (lapics ioapics isos lapicNmis : Nat) :
    Except AcpiHalt MadtArrays :=
  match (acpiFindSdt fuel m acpi apicSignature).1 with
  | .error e => .error e
  | .ok madt =>
    if madt = 0 then .error .noMadt
    else (madtWalk steps m madt (freshArrays lapics ioapics isos lapicNmis)).1

variable {m : Mem} {madt o x a steps : Nat} {l : List Nat} {arrays arrays' : MadtArrays}

/-- Type and length of the entry at offset `o` of the table. -/
def entryType (m : Mem) (madt o : Nat) : Nat := (byteAt m madt o).toNat
def entryLength (m : Mem) (madt o : Nat) : Nat := (byteAt m madt (o + 1)).toNat

/-- The entries of a type among those at the offsets in `l`. -/
def entriesOf (m : Mem) (madt : Nat) (l : List Nat) (k : EntryType) : List Nat :=
  (l.filter (fun o => entryType m madt o = k.code)).map (madt + ·)

theorem entryLength_lt (m : Mem) (madt o : Nat) : entryLength m madt o < 256 :=
  (byteAt m madt (o + 1)).isLt

theorem byteAt_add (h : madt + o + x < 2 ^ 64) : byteAt m (madt + o) x = byteAt m madt (o + x) := by
  rw [byteAt, byteAt, add64_of_lt h, add64_of_lt (by omega), Nat.add_assoc]

theorem MadtArrays.array_record (arrays : MadtArrays) (type : BitVec 8) (entryPtr : Nat)
    (k : EntryType) :
    (arrays.record type entryPtr).array k =
      if type.toNat = k.code then (arrays.array k).push entryPtr else arrays.array k := by
  unfold record
  split <;> cases k <;> simp_all [array, EntryType.code]

namespace EntryArray

/-- The array after the entries of a list have been stored. -/
def pushAll (array : EntryArray) (entries : List Nat) : EntryArray := entries.foldl push array

theorem pushAll_eq (array : EntryArray) (entries : List Nat) :
    array.pushAll entries =
      ⟨array.base, array.stores ++ entries.mapIdx (fun i e => (array.count + i, e)),
        array.count + entries.length⟩ := by
  induction entries generalizing array with
  | nil => simp [pushAll]
  | cons e entries ih =>
    have hnext : array.pushAll (e :: entries) = (array.push e).pushAll entries := rfl
    rw [hnext, ih]
    simp [push, List.mapIdx_cons, Nat.add_assoc, Nat.add_comm 1]

end EntryArray

section Walk

/-- What is read in a run, whole or not, are type and length of the entries the lengths lead to. -/
theorem madtLoop_reads (hplace : madt + sdtLength m madt + 255 < 2 ^ 64)
    (ho : o ≤ sdtLength m madt + 255)
    (ha : a ∈ (madtLoop m (madt + sdtLength m madt) steps (madt + o) arrays).2) :
    ∃ x, LeadsTo (entryLength m madt) (sdtLength m madt) o x ∧ x < sdtLength m madt ∧
      (a = madt + x ∨ a = madt + x + 1) := by
  induction steps generalizing o arrays with
  | zero => simp [madtLoop] at ha
  | succ steps ih =>
    rw [madtLoop] at ha
    split_ifs at ha with hlt
    · have hlen := entryLength_lt m madt o
      have hbyte : (byteAt m (madt + o) 1).toNat = entryLength m madt o := by
        rw [byteAt_add (by omega), entryLength]
      rw [hbyte, add64_of_lt (by omega), add64_of_lt (by omega), Nat.add_assoc] at ha
      rcases List.mem_cons.mp ha with rfl | ha
      · exact ⟨o, .start, by omega, Or.inl rfl⟩
      rcases List.mem_cons.mp ha with rfl | ha
      · exact ⟨o, .start, by omega, Or.inr rfl⟩
      obtain ⟨x, hx, hxlt, hax⟩ := ih (by omega) ha
      exact ⟨x, (LeadsTo.start.next (by omega)).trans hx, hxlt, hax⟩
    · simp at ha

/-- A run that ends has met the end of the records. -/
theorem madtLoop_ends (hplace : madt + sdtLength m madt + 255 < 2 ^ 64)
    (ho : o ≤ sdtLength m madt + 255)
    (h : (madtLoop m (madt + sdtLength m madt) steps (madt + o) arrays).1 = .ok arrays') :
    ∃ l, RecordWalk (entryLength m madt) (sdtLength m madt) o l := by
  induction steps generalizing o arrays with
  | zero => simp [madtLoop] at h
  | succ steps ih =>
    rw [madtLoop] at h
    split_ifs at h with hlt
    · have hlen := entryLength_lt m madt o
      have hbyte : (byteAt m (madt + o) 1).toNat = entryLength m madt o := by
        rw [byteAt_add (by omega), entryLength]
      rw [hbyte, add64_of_lt (by omega), Nat.add_assoc] at h
      obtain ⟨l, hl⟩ := ih (by omega) h
      exact ⟨o :: l, .record (by omega) hl⟩
    · exact ⟨[], .done (by omega)⟩

/-- Over records that end the loop ends: each entry has been read and recorded. -/
theorem madtLoop_eq (hplace : madt + sdtLength m madt + 255 < 2 ^ 64)
    (hwalk : RecordWalk (entryLength m madt) (sdtLength m madt) o l)
    (ho : o ≤ sdtLength m madt + 255) (hsteps : l.length < steps) (arrays : MadtArrays) :
    madtLoop m (madt + sdtLength m madt) steps (madt + o) arrays =
      (.ok (l.foldl (fun arrays x => arrays.record (byteAt m madt x) (madt + x)) arrays),
        l.flatMap (fun x => [madt + x, madt + x + 1])) := by
  induction hwalk generalizing steps arrays with
  | done hle =>
    obtain ⟨n, rfl⟩ := Nat.exists_eq_succ_of_ne_zero (by omega : steps ≠ 0)
    rw [madtLoop, if_neg (by omega)]
    rfl
  | @record o l hlt rest ih =>
    obtain ⟨n, rfl⟩ := Nat.exists_eq_succ_of_ne_zero (by omega : steps ≠ 0)
    have hlen := entryLength_lt m madt o
    have hbyte : (byteAt m (madt + o) 1).toNat = entryLength m madt o := by
      rw [byteAt_add (by omega), entryLength]
    rw [List.length_cons] at hsteps
    rw [madtLoop, if_pos (by omega), hbyte, add64_of_lt (by omega), add64_of_lt (by omega),
      Nat.add_assoc madt o (entryLength m madt o), ih (by omega) (by omega),
      byteAt_add (by omega), Nat.add_zero]
    rfl

/-- The arrays after the entries of a list, each type apart. -/
theorem array_foldl_record (m : Mem) (madt : Nat) (l : List Nat) (arrays : MadtArrays)
    (k : EntryType) :
    (l.foldl (fun arrays x => arrays.record (byteAt m madt x) (madt + x)) arrays).array k =
      (arrays.array k).pushAll (entriesOf m madt l k) := by
  induction l generalizing arrays with
  | nil => rfl
  | cons x l ih =>
    rw [List.foldl_cons, ih, MadtArrays.array_record, ← entryType]
    by_cases hx : entryType m madt x = k.code
    · have hcons : entriesOf m madt (x :: l) k = (madt + x) :: entriesOf m madt l k := by
        simp [entriesOf, hx]
      rw [if_pos hx, hcons]
      rfl
    · have hskip : entriesOf m madt (x :: l) k = entriesOf m madt l k := by
        simp [entriesOf, hx]
      rw [if_neg hx, hskip]

end Walk

end ApoptOS
