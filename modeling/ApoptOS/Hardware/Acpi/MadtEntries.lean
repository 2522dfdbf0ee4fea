import ApoptOS.Hardware.Acpi.Madt
import ApoptOS.Hardware.Acpi.SdtSearch

namespace ApoptOS

open Framework

variable {m : Mem} {madt o steps : Nat} {l : List Nat} {arrays arrays' : MadtArrays}

/-- The walk is the loop from the first entry on. -/
theorem madtWalk_eq (hplace : madt + sdtLength m madt + 255 < 2 ^ 64) (steps : Nat)
    (arrays : MadtArrays) :
    madtWalk steps m madt arrays =
      madtLoop m (madt + sdtLength m madt) steps (madt + madtEntriesOffset) arrays := by
  have hoffset : madtEntriesOffset ≤ 255 := by decide
  rw [madtWalk, add64_of_lt (by omega), add64_of_lt (by omega)]

theorem madtWalk_ends (hplace : madt + sdtLength m madt + 255 < 2 ^ 64)
    (h : (madtWalk steps m madt arrays).1 = .ok arrays') :
    ∃ l, RecordWalk (entryLength m madt) (sdtLength m madt) madtEntriesOffset l := by
  have hoffset : madtEntriesOffset ≤ 255 := by decide
  rw [madtWalk_eq hplace] at h
  exact madtLoop_ends hplace (by omega) h

theorem madtWalk_records (hplace : madt + sdtLength m madt + 255 < 2 ^ 64)
    (hwalk : RecordWalk (entryLength m madt) (sdtLength m madt) madtEntriesOffset l)
    (hsteps : l.length < steps) (arrays : MadtArrays) :
    madtWalk steps m madt arrays =
      (.ok (l.foldl (fun arrays x => arrays.record (byteAt m madt x) (madt + x)) arrays),
        l.flatMap (fun x => [madt + x, madt + x + 1])) := by
  have hoffset : madtEntriesOffset ≤ 255 := by decide
  rw [madtWalk_eq hplace]
  exact madtLoop_eq hplace hwalk (by omega) hsteps arrays

/-- With more steps the walk comes to the same end. -/
theorem madtLoop_more (stop entryPtr : Nat) (n : Nat)
    (h : (madtLoop m stop steps entryPtr arrays).1 = .ok arrays') :
    (madtLoop m stop (steps + n) entryPtr arrays).1 = .ok arrays' := by
  induction steps generalizing entryPtr arrays with
  | zero => simp [madtLoop] at h
  | succ steps ih =>
    rw [Nat.add_right_comm, madtLoop]
    rw [madtLoop] at h
    split_ifs at h ⊢ with hlt
    · exact ih _ h
    · exact h

/-- What a walk that ends leaves in the arrays. -/
theorem madtWalk_arrays (hplace : madt + sdtLength m madt + 255 < 2 ^ 64)
    (hwalk : RecordWalk (entryLength m madt) (sdtLength m madt) madtEntriesOffset l)
    (h : (madtWalk steps m madt arrays).1 = .ok arrays') (k : EntryType) :
    arrays'.array k = (arrays.array k).pushAll (entriesOf m madt l k) := by
  have hmore := madtLoop_more _ _ (l.length + 1) h
  have hrecords := madtWalk_records hplace hwalk (by omega : l.length < steps + (l.length + 1))
    arrays
  rw [← madtWalk, hrecords] at hmore
  rw [← Except.ok.inj hmore, array_foldl_record]

/-- The walk of `madt_init` ends, and it reads bytes of the table only. -/
structure WalkInside (m : Mem) (madt : Nat) (arrays : MadtArrays) : Prop where
  ends : ∃ steps arrays', (madtWalk steps m madt arrays).1 = .ok arrays'
  inside : ∀ steps, ∀ a ∈ (madtWalk steps m madt arrays).2,
    madt ≤ a ∧ a < madt + sdtLength m madt

/-- The walk ends inside the table if and only if none of the entries it is led to is empty or
begins with the table's last byte. The table does not touch the end of the address space. -/
theorem madt_walk_inside_iff (hplace : madt + sdtLength m madt + 255 < 2 ^ 64)
    (arrays : MadtArrays) :
    WalkInside m madt arrays ↔
      ∀ o, LeadsTo (entryLength m madt) (sdtLength m madt) madtEntriesOffset o →
        o < sdtLength m madt → entryLength m madt o ≠ 0 ∧ o + 1 < sdtLength m madt := by
  have hoffset : madtEntriesOffset ≤ 255 := by decide
  constructor
  · intro hinside o ho hlt
    obtain ⟨steps, arrays', hends⟩ := hinside.ends
    obtain ⟨l, hl⟩ := madtWalk_ends hplace hends
    refine ⟨RecordWalk.exists_iff.mp ⟨l, hl⟩ o ho hlt, ?_⟩
    -- the length byte of this entry is among the bytes read
    have hread : madt + o + 1 ∈ (madtWalk (l.length + 1) m madt arrays).2 := by
      rw [madtWalk_records hplace hl (Nat.lt_succ_self _)]
      exact List.mem_flatMap.mpr ⟨o, hl.mem_iff.mpr ⟨ho, hlt⟩, by simp⟩
    have hbound := (hinside.inside _ _ hread).2
    omega
  · intro hentries
    obtain ⟨l, hl⟩ := RecordWalk.exists_iff.mpr (fun o ho hlt => (hentries o ho hlt).1)
    refine ⟨⟨l.length + 1, _, by rw [madtWalk_records hplace hl (Nat.lt_succ_self _)]⟩,
      fun steps a ha => ?_⟩
    rw [madtWalk_eq hplace] at ha
    obtain ⟨x, hx, hxlt, hax⟩ := madtLoop_reads hplace (by omega) ha
    have hnext := (hentries x hx hxlt).2
    rcases hax with rfl | rfl
    · omega
    · omega

/-- Where the tables below are seen through the higher half. -/
def tableAt : Nat := physToHigherHalfData 0x1000

/-- An MADT of six entries, of the types 0, 1, 2, 3, 4 and 0, and behind it an RSDT that lists it.
Both have valid checksums. -/
def madtTable : Mem := memWith 0x1000
  (apicSignature ++ [90#8, 0#8, 0#8, 0#8, 1#8, 138#8] ++ List.replicate 34 0#8 ++
    [0#8, 8#8, 0#8, 0#8, 1#8, 0#8, 0#8, 0#8] ++
    [1#8, 12#8, 2#8, 0#8, 0#8, 0#8, 0xC0#8, 0xFE#8, 0#8, 0#8, 0#8, 0#8] ++
    [2#8, 10#8, 0#8, 0#8, 2#8, 0#8, 0#8, 0#8, 0#8, 0#8] ++ [3#8, 2#8] ++
    [4#8, 6#8, 0xFF#8, 0#8, 0#8, 1#8] ++ [0#8, 8#8, 1#8, 1#8, 1#8, 0#8, 0#8, 0#8] ++
    List.replicate 6 0#8 ++ rsdtSignature ++ [40#8, 0#8, 0#8, 0#8, 1#8, 138#8] ++
    List.replicate 26 0#8 ++ [0#8, 0x10#8, 0#8, 0#8])

def madtRoot : Acpi := ⟨physToHigherHalfData 0x1060, 0, false⟩

theorem madtTable_tiles : Tiles (entryLength madtTable tableAt) 2 (sdtLength madtTable tableAt)
    madtEntriesOffset [44, 52, 64, 74, 76, 82] := by
  decide +kernel

theorem madt_walk_inside_table : WalkInside madtTable tableAt (freshArrays 0 0 0 0) := by
  refine (madt_walk_inside_iff (by decide +kernel) (freshArrays 0 0 0 0)).mpr (fun o ho hlt => ?_)
  have hentries : ∀ o ∈ [44, 52, 64, 74, 76, 82],
      entryLength madtTable tableAt o ≠ 0 ∧ o + 1 < sdtLength madtTable tableAt := by
        decide +kernel
  exact hentries o ((madtTable_tiles.walk (by decide)).mem_iff.mpr ⟨ho, hlt⟩)

/-- A table with a valid checksum and, at offset 44, an entry of length 0. -/
def emptyEntryTable : Mem := memWith 0x1000 (apicSignature ++ [46#8, 0#8, 0#8, 0#8, 1#8, 180#8])

theorem madt_walk_never_ends :
    acpiVerifySdt 256 emptyEntryTable tableAt apicSignature = .ok true ∧
    (∀ steps arrays', (madtWalk steps emptyEntryTable tableAt (freshArrays 0 0 0 0)).1 ≠
      .ok arrays') ∧
    ¬ WalkInside emptyEntryTable tableAt (freshArrays 0 0 0 0) := by
  have hnever : ∀ steps arrays', (madtWalk steps emptyEntryTable tableAt
      (freshArrays 0 0 0 0)).1 ≠ .ok arrays' := by
    intro steps arrays' hends
    obtain ⟨l, hl⟩ := madtWalk_ends (by decide +kernel) hends
    exact RecordWalk.exists_iff.mp ⟨l, hl⟩ madtEntriesOffset .start (by decide +kernel)
      (by decide +kernel)
  refine ⟨by decide +kernel, hnever, fun hinside => ?_⟩
  obtain ⟨steps, arrays', hends⟩ := hinside.ends
  exact hnever steps arrays' hends

/-- An array holds the entries of its type, in the order of the table, and they fit in what
`malloc` was asked for. -/
structure Collected (m : Mem) (madt : Nat) (l : List Nat) (k : EntryType) (array : EntryArray) :
    Prop where
  stores : array.stores = (entriesOf m madt l k).mapIdx (fun i e => (i, e))
  count : array.count = (entriesOf m madt l k).length
  inside : ∀ s ∈ array.stores, 8 * s.1 + 8 ≤ 256

theorem freshArrays_array (lapics ioapics isos lapicNmis : Nat) (k : EntryType) :
    ((freshArrays lapics ioapics isos lapicNmis).array k).stores = [] ∧
      ((freshArrays lapics ioapics isos lapicNmis).array k).count = 0 := by
  cases k <;> exact ⟨rfl, rfl⟩

/-- The arrays as a walk over the entries in `l` leaves them. -/
theorem madtWalk_fresh (hplace : madt + sdtLength m madt + 255 < 2 ^ 64)
    (hwalk : RecordWalk (entryLength m madt) (sdtLength m madt) madtEntriesOffset l)
    {lapics ioapics isos lapicNmis : Nat}
    (h : (madtWalk steps m madt (freshArrays lapics ioapics isos lapicNmis)).1 = .ok arrays')
    (k : EntryType) :
    (arrays'.array k).stores = (entriesOf m madt l k).mapIdx (fun i e => (i, e)) ∧
      (arrays'.array k).count = (entriesOf m madt l k).length := by
  obtain ⟨hstores, hcount⟩ := freshArrays_array lapics ioapics isos lapicNmis k
  rw [madtWalk_arrays hplace hwalk h k, EntryArray.pushAll_eq, hstores, hcount]
  simp

theorem mapIdx_inside (entries : List Nat) :
    (∀ s ∈ entries.mapIdx (fun i e => (i, e)), 8 * s.1 + 8 ≤ 256) ↔
    entries.length ≤ 32 := by
  constructor
  · intro h
    by_contra hlong
    have hlast := h (32, entries[32]) (List.mem_mapIdx.mpr ⟨32, by omega, rfl⟩)
    omega
  · intro h s hs
    obtain ⟨i, hi, rfl⟩ := List.mem_mapIdx.mp hs
    dsimp only
    omega

/-- `madt_init` over a table that its entries fill: each array holds the addresses of the entries
of its type. The table does not touch the end of the address space. -/
theorem madt_collects_entries (hplace : madt + sdtLength m madt + 255 < 2 ^ 64)
    (htiles : Tiles (entryLength m madt) 2 (sdtLength m madt) madtEntriesOffset l)
    (hmany : ∀ k, (entriesOf m madt l k).length ≤ 32) (lapics ioapics isos lapicNmis : Nat) :
    ∃ arrays', (∀ k, Collected m madt l k (arrays'.array k)) ∧
      (∀ steps, l.length < steps →
        (madtWalk steps m madt (freshArrays lapics ioapics isos lapicNmis)).1 = .ok arrays') ∧
      ∀ fuel acpi steps, (acpiFindSdt fuel m acpi apicSignature).1 = .ok madt → madt ≠ 0 →
        l.length < steps →
          madtInit fuel steps m acpi lapics ioapics isos lapicNmis = .ok arrays' := by
  have hwalk := htiles.walk (by decide)
  have hends := fun steps hsteps => congrArg Prod.fst (madtWalk_records hplace hwalk
    (hsteps : l.length < steps) (freshArrays lapics ioapics isos lapicNmis))
  refine ⟨_, fun k => ?_, hends, fun fuel acpi steps hfound hnull hsteps => ?_⟩
  · obtain ⟨hstores, hcount⟩ := madtWalk_fresh hplace hwalk (hends _ (Nat.lt_succ_self _)) k
    refine ⟨hstores, hcount, ?_⟩
    rw [hstores]
    exact (mapIdx_inside _).mpr (hmany k)
  · rw [madtInit, hfound]
    dsimp only
    rw [if_neg hnull]
    exact hends steps hsteps

/-- `madt_init` finds the table and collects its six entries. -/
theorem madt_collects_six :
    ∃ arrays', (∀ k, Collected madtTable tableAt [44, 52, 64, 74, 76, 82] k
      (arrays'.array k)) ∧ (acpiFindSdt 256 madtTable madtRoot apicSignature).1 = .ok tableAt ∧
      madtInit 256 7 madtTable madtRoot 0 256 512 768 = .ok arrays' := by
  have hfound : (acpiFindSdt 256 madtTable madtRoot apicSignature).1 = .ok tableAt := by
    decide +kernel
  obtain ⟨arrays', hcollected, -, hinit⟩ := madt_collects_entries (by decide +kernel)
    madtTable_tiles (fun k => by cases k <;> decide +kernel) 0 256 512 768
  exact ⟨arrays', hcollected, hfound,
    hinit 256 madtRoot 7 hfound (by decide +kernel) (by decide)⟩

/-- Every store falls inside the 256 bytes of its array. -/
def StoresInside (arrays : MadtArrays) : Prop :=
  ∀ k, ∀ s ∈ (arrays.array k).stores, 8 * s.1 + 8 ≤ 256

/-- The arrays of a walk that ends are not overrun if and only if the walk meets at most 32
entries of each recorded type. -/
theorem madt_stores_inside_iff (hplace : madt + sdtLength m madt + 255 < 2 ^ 64)
    (lapics ioapics isos lapicNmis : Nat)
    (h : (madtWalk steps m madt (freshArrays lapics ioapics isos lapicNmis)).1 = .ok arrays') :
    StoresInside arrays' ↔
      ∀ l, RecordWalk (entryLength m madt) (sdtLength m madt) madtEntriesOffset l →
        ∀ k, (entriesOf m madt l k).length ≤ 32 := by
  have hstores := fun l hl k => (madtWalk_fresh (l := l) hplace hl h k).1
  constructor
  · intro hinside l hl k
    have hk := hinside k
    rw [hstores l hl k] at hk
    exact (mapIdx_inside _).mp hk
  · intro hmany k
    obtain ⟨l, hl⟩ := madtWalk_ends hplace h
    rw [hstores l hl k]
    exact (mapIdx_inside _).mpr (hmany l hl k)

theorem madt_stores_inside_six :
    ∃ arrays', (madtWalk 7 madtTable tableAt (freshArrays 0 256 512 768)).1 = .ok arrays' ∧
      StoresInside arrays' := by
  have hwalk := madtTable_tiles.walk (by decide)
  have hends := congrArg Prod.fst (madtWalk_records (by decide +kernel) hwalk
    (by decide : 6 < 7) (freshArrays 0 256 512 768))
  refine ⟨_, hends, (madt_stores_inside_iff (by decide +kernel) 0 256 512 768 hends).mpr ?_⟩
  intro l hl k
  obtain rfl := hl.unique hwalk
  cases k <;> decide +kernel

/-- A table of 242 bytes with a valid checksum: 33 entries of type 4, of six bytes each. -/
def nmiTable : Mem := memWith 0x1000
  (apicSignature ++ [242#8, 0#8, 0#8, 0#8, 1#8, 166#8] ++ List.replicate 34 0#8 ++
    (List.replicate 33 [4#8, 6#8, 0#8, 0#8, 0#8, 0#8]).flatten)

theorem madt_overruns_array :
    acpiVerifySdt 256 nmiTable tableAt apicSignature = .ok true ∧
    ∃ arrays', (madtWalk 34 nmiTable tableAt (freshArrays 0 256 512 768)).1 = .ok arrays' ∧
      (32, tableAt + 236) ∈ arrays'.lapicNmis.stores ∧ ¬ StoresInside arrays' := by
  have hlast : (match (madtWalk 34 nmiTable tableAt (freshArrays 0 256 512 768)).1 with
      | .ok arrays' => decide ((32, tableAt + 236) ∈ arrays'.lapicNmis.stores)
      | .error _ => false) = true := by decide +kernel
  refine ⟨by decide +kernel, ?_⟩
  cases hwalk : (madtWalk 34 nmiTable tableAt (freshArrays 0 256 512 768)).1 with
  | error e =>
    rw [hwalk] at hlast
    exact absurd hlast Bool.false_ne_true
  | ok arrays' =>
    rw [hwalk] at hlast
    have hstore := of_decide_eq_true hlast
    refine ⟨arrays', rfl, hstore, fun hinside => ?_⟩
    exact absurd (hinside .lapicNmi _ hstore) (by decide)

end ApoptOS
