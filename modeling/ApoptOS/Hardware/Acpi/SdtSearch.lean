import ApoptOS.Hardware.Acpi.Sdt

namespace ApoptOS

open Framework

variable {m : Mem} {sdt fuel steps i e p : Nat} {signature : Signature} {acpi : Acpi}
  {tables : List Nat}

/-- The checksum is computed, and over the whole table; a table is accepted for its signature and
its checksum. -/
structure ChecksumWhole (m : Mem) (sdt : Nat) (signature : Signature) : Prop where
  verdict : ∃ fuel, acpiVerifySdtChecksum fuel m sdt signature = checksumVerdict m sdt signature
  accepts : (∃ fuel, acpiVerifySdt fuel m sdt signature = .ok true) ↔
    HasSignature m sdt signature ∧ sdtSum m sdt % 256 = 0

theorem checksumVerdict_ok :
    checksumVerdict m sdt signature = .ok true ↔ sdtSum m sdt % 256 = 0 := by
  unfold checksumVerdict
  split_ifs with h
  · exact iff_of_true rfl h
  · exact iff_of_false (by simp) h

theorem checksumVerdict_computed : checksumVerdict m sdt signature ≠ .error .outOfFuel := by
  unfold checksumVerdict
  split_ifs <;> simp

/-- A table as long as its length byte can count is verified; for any other the loop never
ends. -/
theorem acpi_checksum_whole_iff (m : Mem) (sdt : Nat) (signature : Signature) :
    ChecksumWhole m sdt signature ↔ sdtLength m sdt < 256 := by
  constructor
  · intro hwhole
    by_contra hlong
    obtain ⟨fuel, hverdict⟩ := hwhole.verdict
    rw [acpiVerifySdtChecksum_long (by omega)] at hverdict
    exact checksumVerdict_computed hverdict.symm
  · intro hshort
    refine ⟨⟨256, by rw [acpiVerifySdtChecksum_short hshort, if_pos hshort]⟩, ?_⟩
    simp only [acpiVerifySdt_eq, acpiVerifySdtChecksum_short hshort]
    constructor
    · rintro ⟨fuel, hok⟩
      split_ifs at hok with hsignature hfuel
      · exact ⟨hsignature, checksumVerdict_ok.mp hok⟩
      · simp at hok
    · rintro ⟨hsignature, hsum⟩
      refine ⟨256, ?_⟩
      rw [if_pos hsignature, if_pos hshort]
      exact checksumVerdict_ok.mpr hsum

/-- Memory with the given bytes from `base` on, and zeroes elsewhere. -/
def memWith (base : Nat) (bytes : List (BitVec 8)) : Mem :=
  fun a => if base ≤ a then bytes.getD (a - base) 0#8 else 0#8

/-- A table of 256 bytes with a valid checksum. -/
def table256 : Mem := memWith 0x1000 (apicSignature ++ [0#8, 1#8, 0#8, 0#8, 1#8, 225#8])

theorem acpi_checksum_never_ends :
    HasSignature table256 0x1000 apicSignature ∧ sdtLength table256 0x1000 = 256 ∧
    sdtSum table256 0x1000 % 256 = 0 ∧
    (∀ fuel, acpiVerifySdtChecksum fuel table256 0x1000 apicSignature = .error .outOfFuel) ∧
    ¬ ChecksumWhole table256 0x1000 apicSignature := by
  have hlength : sdtLength table256 0x1000 = 256 := by decide +kernel
  have hlong : ∀ fuel, acpiVerifySdtChecksum fuel table256 0x1000 apicSignature =
      .error .outOfFuel :=
    fun fuel => acpiVerifySdtChecksum_long (by rw [hlength]) fuel _
  refine ⟨by decide +kernel, hlength, by decide +kernel, hlong, fun hwhole => ?_⟩
  obtain ⟨fuel, hverdict⟩ := hwhole.verdict
  rw [hlong fuel] at hverdict
  exact checksumVerdict_computed hverdict.symm

/-- The addresses listed in the root table. -/
def Acpi.listed (acpi : Acpi) (m : Mem) : List Nat :=
  (List.range ((sdtLength m acpi.root - sdtHeaderSize) / acpi.entrySize)).map (acpi.entry m)

/-- The first of the tables with the signature. -/
def firstTable (m : Mem) (signature : Signature) (tables : List Nat) : Option Nat :=
  tables.find? (fun e => HasSignature m e signature)

/-- `acpi_find_sdt` reads entries inside the root table only, not more than there are, comes to
an end, and returns the first table with the signature, whatever the layout of the root table. -/
structure SearchStaysInside (m : Mem) (acpi : Acpi) (signature : Signature) : Prop where
  inside : ∀ fuel, ∀ i ∈ (acpiFindSdt fuel m acpi signature).2,
    sdtHeaderSize + acpi.entrySize * (i + 1) ≤ sdtLength m acpi.root
  probes : ∀ fuel, (acpiFindSdt fuel m acpi signature).2.length ≤
    (sdtLength m acpi.root - sdtHeaderSize) / acpi.entrySize
  ends : ∃ fuel, (acpiFindSdt fuel m acpi signature).1 ≠ .error .outOfFuel
  first : ∀ fuel p, (acpiFindSdt fuel m acpi signature).1 = .ok p →
    ∃ e, firstTable m signature (acpi.listed m) = some e ∧ p = physToHigherHalfData e
  layout : ∀ acpi' : Acpi, sdtHeaderSize ≤ sdtLength m acpi'.root →
    acpi'.listed m = acpi.listed m → ∀ fuel,
      (acpiFindSdt fuel m acpi' signature).1 = (acpiFindSdt fuel m acpi signature).1

/-- The search through a list of tables. -/
def findInList (fuel : Nat) (m : Mem) (signature : Signature) :
    Nat → List Nat → Except AcpiHalt Nat
  | 0, _ => .error .outOfFuel
  | _ + 1, [] => .error (.noSdt signature)
  | steps + 1, e :: tables =>
    match acpiVerifySdt fuel m e signature with
    | .error x => .error x
    | .ok true => .ok (physToHigherHalfData e)
    | .ok false => findInList fuel m signature steps tables

theorem entrySize_pos (acpi : Acpi) : 0 < acpi.entrySize := by
  unfold Acpi.entrySize
  split_ifs <;> decide

theorem sdtLength_lt (m : Mem) (sdt : Nat) : sdtLength m sdt < 2 ^ 32 :=
  Mem.loadLE_lt m _ 4

theorem entryCount_eq (h : sdtHeaderSize ≤ sdtLength m acpi.root) :
    acpi.entryCount m = (sdtLength m acpi.root - sdtHeaderSize) / acpi.entrySize := by
  have hlt := sdtLength_lt m acpi.root
  rw [Acpi.entryCount, sub64_of_le (by omega) h]

/-- With a length below that of the header the subtraction wraps. -/
theorem entryCount_wraps (h : sdtLength m acpi.root < sdtHeaderSize) : 0 < acpi.entryCount m := by
  have hbig : 8 ≤ sub64 (sdtLength m acpi.root) sdtHeaderSize := by
    unfold sdtHeaderSize at h ⊢
    unfold sub64
    omega
  refine Nat.div_pos ?_ (entrySize_pos acpi)
  unfold Acpi.entrySize
  split_ifs <;> omega

/-- Entries are read in order, from `i` on and below the count. -/
theorem findSdtLoop_probes (steps i : Nat) (hi : i ≤ acpi.entryCount m) :
    (∀ j ∈ (findSdtLoop fuel m acpi signature steps i).2, j < acpi.entryCount m) ∧
      (findSdtLoop fuel m acpi signature steps i).2.length ≤ acpi.entryCount m - i := by
  induction steps generalizing i with
  | zero => simp [findSdtLoop]
  | succ steps ih =>
    rw [findSdtLoop]
    split_ifs with hlt
    · cases acpiVerifySdt fuel m (acpi.entry m i) signature with
      | error x =>
        simp only [List.mem_singleton, forall_eq, List.length_singleton]
        omega
      | ok verified =>
        cases verified with
        | true =>
          simp only [List.mem_singleton, forall_eq, List.length_singleton]
          omega
        | false =>
          obtain ⟨hbelow, hlen⟩ := ih (i + 1) (by omega)
          refine ⟨fun j hj => ?_, ?_⟩
          · rcases List.mem_cons.mp hj with rfl | hj
            · exact hlt
            · exact hbelow j hj
          · simp only [List.length_cons]
            omega
    · simp

/-- The search depends on nothing but the list of addresses. -/
theorem findSdtLoop_eq (h : sdtHeaderSize ≤ sdtLength m acpi.root) (steps i : Nat) :
    (findSdtLoop fuel m acpi signature steps i).1 =
      findInList fuel m signature steps ((acpi.listed m).drop i) := by
  induction steps generalizing i with
  | zero => rfl
  | succ steps ih =>
    have hcount := entryCount_eq h
    have hlen : (acpi.listed m).length = acpi.entryCount m := by
      rw [hcount, Acpi.listed, List.length_map, List.length_range]
    rw [findSdtLoop]
    split_ifs with hlt
    · have hdrop : (acpi.listed m).drop i = acpi.entry m i :: (acpi.listed m).drop (i + 1) := by
        rw [List.drop_eq_getElem_cons (by omega)]
        simp [Acpi.listed]
      rw [hdrop, findInList]
      cases acpiVerifySdt fuel m (acpi.entry m i) signature with
      | error x => rfl
      | ok verified =>
        cases verified with
        | true => rfl
        | false => exact ih (i + 1)
    · rw [List.drop_eq_nil_of_le (by omega)]
      rfl

theorem acpiVerifySdt_true (h : acpiVerifySdt fuel m sdt signature = .ok true) :
    HasSignature m sdt signature := by
  by_contra hsignature
  rw [acpiVerifySdt_eq, if_neg hsignature] at h
  simp at h

/-- With the right signature the answer is never no: a wrong checksum is a panic. -/
theorem acpiVerifySdt_false (h : acpiVerifySdt fuel m sdt signature = .ok false) :
    ¬ HasSignature m sdt signature := by
  intro hsignature
  rw [acpiVerifySdt_eq, if_pos hsignature, acpiVerifySdtChecksum] at h
  cases hloop : checksumLoop m sdt fuel 0 0 with
  | error x =>
    rw [hloop] at h
    simp at h
  | ok checksum =>
    rw [hloop] at h
    dsimp only at h
    split_ifs at h
    simp at h

theorem acpiVerifySdt_other (h : ¬ HasSignature m sdt signature) (fuel : Nat) :
    acpiVerifySdt fuel m sdt signature = .ok false := by
  rw [acpiVerifySdt_eq, if_neg h]

theorem findInList_first (steps : Nat) (h : findInList fuel m signature steps tables = .ok p) :
    ∃ e, firstTable m signature tables = some e ∧ p = physToHigherHalfData e := by
  induction tables generalizing steps with
  | nil => cases steps <;> simp [findInList] at h
  | cons e tables ih =>
    cases steps with
    | zero => simp [findInList] at h
    | succ steps =>
      rw [findInList] at h
      cases hverify : acpiVerifySdt fuel m e signature with
      | error x =>
        rw [hverify] at h
        simp at h
      | ok verified =>
        rw [hverify] at h
        cases verified with
        | true =>
          have hsignature := acpiVerifySdt_true hverify
          exact ⟨e, by simp [firstTable, hsignature], (Except.ok.inj h).symm⟩
        | false =>
          have hsignature := acpiVerifySdt_false hverify
          obtain ⟨e', hfirst, hp⟩ := ih steps h
          refine ⟨e', ?_, hp⟩
          rw [firstTable, List.find?_cons_of_neg (by simpa using hsignature)]
          exact hfirst

/-- The first table with the signature is too long for the checksum. -/
theorem findInList_diverges (hfirst : firstTable m signature tables = some e)
    (hlong : 256 ≤ sdtLength m e) (steps : Nat) :
    findInList fuel m signature steps tables = .error .outOfFuel := by
  induction tables generalizing steps with
  | nil => simp [firstTable] at hfirst
  | cons e' tables ih =>
    cases steps with
    | zero => rfl
    | succ steps =>
      rw [findInList]
      by_cases hsignature : HasSignature m e' signature
      · have he : e' = e := by simpa [firstTable, hsignature] using hfirst
        rw [he, acpiVerifySdt_eq, if_pos (he ▸ hsignature), acpiVerifySdtChecksum_long hlong]
      · rw [acpiVerifySdt_other hsignature]
        refine ih ?_ steps
        rwa [firstTable, List.find?_cons_of_neg (by simpa using hsignature)] at hfirst

theorem findInList_ends (hfuel : 256 ≤ fuel) (hsteps : tables.length < steps)
    (hshort : ∀ e, firstTable m signature tables = some e → sdtLength m e < 256) :
    findInList fuel m signature steps tables ≠ .error .outOfFuel := by
  induction tables generalizing steps with
  | nil =>
    obtain ⟨n, rfl⟩ := Nat.exists_eq_succ_of_ne_zero (by omega : steps ≠ 0)
    simp [findInList]
  | cons e tables ih =>
    rw [List.length_cons] at hsteps
    obtain ⟨n, rfl⟩ := Nat.exists_eq_succ_of_ne_zero (by omega : steps ≠ 0)
    rw [findInList]
    by_cases hsignature : HasSignature m e signature
    · have hlt : sdtLength m e < 256 := hshort e (by simp [firstTable, hsignature])
      rw [acpiVerifySdt_eq, if_pos hsignature, acpiVerifySdtChecksum_short hlt,
        if_pos (by omega), checksumVerdict]
      split_ifs <;> simp
    · rw [acpiVerifySdt_other hsignature]
      refine ih (by omega) (fun e' he' => hshort e' ?_)
      rwa [firstTable, List.find?_cons_of_neg (by simpa using hsignature)]

theorem findInList_ends_iff (tables : List Nat) :
    (∃ fuel, findInList fuel m signature fuel tables ≠ .error .outOfFuel) ↔
      ∀ e, firstTable m signature tables = some e → sdtLength m e < 256 := by
  constructor
  · rintro ⟨fuel, hends⟩ e hfirst
    by_contra hlong
    exact hends (findInList_diverges hfirst (by omega) fuel)
  · intro hshort
    exact ⟨256 + tables.length, findInList_ends (by omega) (by omega) hshort⟩

/-- `acpi_find_sdt` keeps to the root table if and only if the table is at least as long as its
header, and it ends if and only if the table it looks for has a length the checksum can count
to. -/
theorem acpi_search_stays_inside_iff (m : Mem) (acpi : Acpi) (signature : Signature) :
    SearchStaysInside m acpi signature ↔
      sdtHeaderSize ≤ sdtLength m acpi.root ∧
        ∀ e, firstTable m signature (acpi.listed m) = some e → sdtLength m e < 256 := by
  have hends : sdtHeaderSize ≤ sdtLength m acpi.root →
      ((∃ fuel, (acpiFindSdt fuel m acpi signature).1 ≠ .error .outOfFuel) ↔
        ∀ e, firstTable m signature (acpi.listed m) = some e → sdtLength m e < 256) := by
    intro h
    rw [← findInList_ends_iff]
    simp only [acpiFindSdt, findSdtLoop_eq h, List.drop_zero]
  constructor
  · intro hsearch
    have hheader : sdtHeaderSize ≤ sdtLength m acpi.root := by
      by_contra hshort
      -- the first entry is read already
      have hpos := entryCount_wraps (Nat.lt_of_not_le hshort)
      have hread : 0 ∈ (acpiFindSdt 1 m acpi signature).2 := by
        rw [acpiFindSdt, findSdtLoop, if_pos hpos]
        cases acpiVerifySdt 1 m (acpi.entry m 0) signature with
        | error x => simp
        | ok verified => cases verified <;> simp
      have hin := hsearch.inside 1 0 hread
      omega
    exact ⟨hheader, (hends hheader).mp hsearch.ends⟩
  · rintro ⟨hheader, hshort⟩
    have hcount := entryCount_eq hheader
    have hprobes : ∀ fuel,
        (∀ j ∈ (findSdtLoop fuel m acpi signature fuel 0).2, j < acpi.entryCount m) ∧
          (findSdtLoop fuel m acpi signature fuel 0).2.length ≤ acpi.entryCount m - 0 :=
      fun fuel => findSdtLoop_probes fuel 0 (Nat.zero_le _)
    refine ⟨fun fuel i hi => ?_, fun fuel => ?_, (hends hheader).mpr hshort, fun fuel p hp => ?_,
      fun acpi' hheader' hsame fuel => ?_⟩
    · have hlt := (hprobes fuel).1 i hi
      have hpos := entrySize_pos acpi
      rw [hcount, Nat.lt_iff_add_one_le, Nat.le_div_iff_mul_le hpos, Nat.mul_comm] at hlt
      omega
    · have hlen := (hprobes fuel).2
      rw [Nat.sub_zero, hcount] at hlen
      exact hlen
    · rw [acpiFindSdt, findSdtLoop_eq hheader, List.drop_zero] at hp
      exact findInList_first fuel hp
    · rw [acpiFindSdt, acpiFindSdt, findSdtLoop_eq hheader', findSdtLoop_eq hheader, hsame]

/-- An RSDP at `0x1000` and behind it, at `0x1020`, an RSDT of nine bytes with a valid checksum. -/
def shortRoot : Mem := memWith 0x1000
  ([0x52#8, 0x53#8, 0x44#8, 0x20#8, 0x50#8, 0x54#8, 0x52#8, 0x20#8, 0xB1#8] ++
    List.replicate 7 0#8 ++ [0x20#8, 0x10#8] ++ List.replicate 14 0#8 ++
    rsdtSignature ++ [9#8, 0#8, 0#8, 0#8, 186#8])

/-- `acpi_init` accepts this root table, and the search reads entries behind its end. -/
theorem acpi_search_leaves_root_table :
    acpiInitRoot 256 shortRoot 0x1000 = .ok ⟨physToHigherHalfData 0x1020, 0, false⟩ ∧
    (acpiFindSdt 3 shortRoot ⟨physToHigherHalfData 0x1020, 0, false⟩ apicSignature).2 =
    [0, 1, 2] ∧
    ¬ SearchStaysInside shortRoot ⟨physToHigherHalfData 0x1020, 0, false⟩ apicSignature := by
  have hread : (acpiFindSdt 3 shortRoot ⟨physToHigherHalfData 0x1020, 0, false⟩
      apicSignature).2 = [0, 1, 2] := by decide +kernel
  refine ⟨by decide +kernel, hread, fun hsearch => ?_⟩
  exact absurd (hsearch.inside 3 0 (by rw [hread]; simp)) (by decide +kernel)

end ApoptOS
