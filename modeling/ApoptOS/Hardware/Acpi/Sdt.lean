import ApoptOS.Framework.ByteMemory
import ApoptOS.Memory.Mem

namespace ApoptOS

open Framework

/-- The bytes a signature such as "APIC" is compared by. -/
abbrev Signature := List (BitVec 8)

def xsdtSignature : Signature := [0x58#8, 0x53#8, 0x44#8, 0x54#8]
def rsdtSignature : Signature := [0x52#8, 0x53#8, 0x44#8, 0x54#8]
def apicSignature : Signature := [0x41#8, 0x50#8, 0x49#8, 0x43#8]

/-- How the ACPI code stops: `log(PANIC, ..)` with its arguments, or the bound put on the loops of
the model. -/
inductive AcpiHalt where
  | rsdpChecksum (checksum : Nat)
  | noAcpi
  | sdtChecksum (signature : Signature) (checksum : Nat)
  | noSdt (signature : Signature)
  | noMadt
  | outOfFuel
  deriving DecidableEq, Repr

def AcpiHalt.format : AcpiHalt → String
  | .rsdpChecksum _ => "RSDP checksum isn't 0! Checksum: 0x%x\n"
  | .noAcpi => "No ACPI was found on this computer!\n"
  | .sdtChecksum _ _ => "%s checksum isn't 0! Checksum: 0x%x\n"
  | .noSdt _ => "Could not find SDT with signature '%s'!\n"
  | .noMadt => "No MADT was found on this computer!\n"
  | .outOfFuel => ""

/-- `pointer[i]` for a pointer to bytes. -/
def byteAt (m : Mem) (pointer i : Nat) : BitVec 8 := m (physOf (add64 pointer i))

def sdtHeaderSize : Nat := 36

/-- `sdt->length`, a 32-bit field. -/
def sdtLength (m : Mem) (sdt : Nat) : Nat := m.loadLE (physOf (add64 sdt 4)) 4

/-- `memcmp` with `remaining` bytes left from byte `i` on. -/
def memcmp (ptr1 ptr2 : Nat → BitVec 8) : Nat → Nat → Int
  | 0, _ => 0
  | remaining + 1, i =>
    if ptr1 i ≠ ptr2 i then ((ptr1 i).toNat : Int) - (ptr2 i).toNat
    else memcmp ptr1 ptr2 remaining (i + 1)

/-- The loop of `acpi_verify_sdt_checksum`. Index and checksum are bytes, the length is not. -/
def checksumLoop (m : Mem) (sdt : Nat) : Nat → Nat → Nat → Except AcpiHalt Nat
  | 0, _, _ => .error .outOfFuel
  | fuel + 1, i, checksum =>
    if i < sdtLength m sdt then
      checksumLoop m sdt fuel ((i + 1) % 2 ^ 8) ((checksum + (byteAt m sdt i).toNat) % 2 ^ 8)
    else .ok checksum

def acpiVerifySdtChecksum (fuel : Nat) (m : Mem) (sdt : Nat) (signature : Signature) :
    Except AcpiHalt Bool :=
  match checksumLoop m sdt fuel 0 0 with
  | .error e => .error e
  | .ok checksum =>
    let checksum := checksum &&& 0xFF
    if checksum = 0 then .ok true else .error (.sdtChecksum signature checksum)

def acpiVerifySdt (fuel : Nat) (m : Mem) (sdt : Nat) (signature : Signature) :
    Except AcpiHalt Bool :=
  if memcmp (byteAt m sdt) (fun i => signature.getD i 0#8) 4 0 = 0 then
    acpiVerifySdtChecksum fuel m sdt signature
  else .ok false

/-- The static variables of acpi.c and rsdp.c. -/
structure Acpi where
  rsdt : Nat
  xsdt : Nat
  hasXsdt : Bool
  deriving DecidableEq, Repr

/-- The root table in use. -/
def Acpi.root (acpi : Acpi) : Nat := if acpi.hasXsdt then acpi.xsdt else acpi.rsdt

def Acpi.entrySize (acpi : Acpi) : Nat := if acpi.hasXsdt then 8 else 4

/-- `entries[i]` of the root table. -/
def Acpi.entry (acpi : Acpi) (m : Mem) (i : Nat) : Nat :=
  m.loadLE (physOf (add64 acpi.root (sdtHeaderSize + acpi.entrySize * i))) acpi.entrySize

/-- The length is widened to 64 bits before the header is subtracted. -/
def Acpi.entryCount (acpi : Acpi) (m : Mem) : Nat :=
  sub64 (sdtLength m acpi.root) sdtHeaderSize / acpi.entrySize

/-- The sum of `n` bytes, the checksum being a byte. -/
def byteSum (m : Mem) (pointer : Nat) : Nat → Nat
  | 0 => 0
  | n + 1 => (byteSum m pointer n + (byteAt m pointer n).toNat) % 2 ^ 8

def rsdpRevision (m : Mem) (rsdp : Nat) : Nat := (byteAt m rsdp 15).toNat
def rsdpRsdtAddress (m : Mem) (rsdp : Nat) : Nat := m.loadLE (physOf (add64 rsdp 16)) 4
def rsdpXsdtAddress (m : Mem) (rsdp : Nat) : Nat := m.loadLE (physOf (add64 rsdp 24)) 8

/-- `rsdp_init` and the part of `acpi_init` before `madt_init`. -/
def acpiInitRoot (fuel : Nat) (m : Mem) (rsdp : Nat) : Except AcpiHalt Acpi :=
  let checksum := byteSum m rsdp 20 &&& 0xFF
  if checksum ≠ 0 then .error (.rsdpChecksum checksum)
  else if 2 ≤ rsdpRevision m rsdp ∧ rsdpXsdtAddress m rsdp ≠ 0 then
    let xsdt := physToHigherHalfData (rsdpXsdtAddress m rsdp)
    match acpiVerifySdt fuel m xsdt xsdtSignature with
    | .error e => .error e
    | .ok verified => if verified then .ok ⟨0, xsdt, true⟩ else .error .noAcpi
  else
    let rsdt := physToHigherHalfData (rsdpRsdtAddress m rsdp)
    match acpiVerifySdt fuel m rsdt rsdtSignature with
    | .error e => .error e
    | .ok verified => if verified then .ok ⟨rsdt, 0, false⟩ else .error .noAcpi

/-- The loop of `acpi_find_sdt` from entry `i` on: how it ends, and the indices of the entries it
has read. A table that is found lies where its entry says, seen through the higher half. -/
def findSdtLoop (fuel : Nat) (m : Mem) (acpi : Acpi) (signature : Signature) :
    Nat → Nat → Except AcpiHalt Nat × List Nat
  | 0, _ => (.error .outOfFuel, [])
  | steps + 1, i =>
    if i < acpi.entryCount m then
      match acpiVerifySdt fuel m (acpi.entry m i) signature with
      | .error e => (.error e, [i])
      | .ok true => (.ok (physToHigherHalfData (acpi.entry m i)), [i])
      | .ok false =>
        let r := findSdtLoop fuel m acpi signature steps (i + 1)
        (r.1, i :: r.2)
    else (.error (.noSdt signature), [])

def acpiFindSdt (fuel : Nat) (m : Mem) (acpi : Acpi) (signature : Signature) :
    Except AcpiHalt Nat × List Nat :=
  findSdtLoop fuel m acpi signature fuel 0

section Signatures

variable {ptr1 ptr2 : Nat → BitVec 8}

theorem memcmp_eq_zero (n i : Nat) :
    memcmp ptr1 ptr2 n i = 0 ↔ ∀ j, i ≤ j → j < i + n → ptr1 j = ptr2 j := by
  induction n generalizing i with
  | zero =>
    simp only [memcmp, true_iff]
    intro j h1 h2
    omega
  | succ n ih =>
    rw [memcmp]
    by_cases hi : ptr1 i = ptr2 i
    · rw [if_neg (fun hne => hne hi), ih]
      constructor
      · intro h j h1 h2
        rcases Nat.eq_or_lt_of_le h1 with rfl | hlt
        · exact hi
        · exact h j hlt (by omega)
      · intro h j h1 h2
        exact h j (by omega) (by omega)
    · rw [if_pos hi]
      constructor
      · intro hzero
        refine absurd ?_ hi
        apply BitVec.eq_of_toNat_eq
        omega
      · intro h
        exact absurd (h i (le_refl i) (by omega)) hi

/-- The first four bytes of the table are those of the signature. -/
def HasSignature (m : Mem) (sdt : Nat) (signature : Signature) : Prop :=
  ∀ i < 4, byteAt m sdt i = signature.getD i 0#8

instance (m : Mem) (sdt : Nat) (signature : Signature) :
    Decidable (HasSignature m sdt signature) :=
  inferInstanceAs (Decidable (∀ i < 4, _))

theorem acpiVerifySdt_eq (fuel : Nat) (m : Mem) (sdt : Nat) (signature : Signature) :
    acpiVerifySdt fuel m sdt signature =
      if HasSignature m sdt signature then acpiVerifySdtChecksum fuel m sdt signature
      else .ok false := by
  have hiff : memcmp (byteAt m sdt) (fun i => signature.getD i 0#8) 4 0 = 0 ↔
      HasSignature m sdt signature := by
    rw [memcmp_eq_zero]
    constructor
    · intro h i hi
      exact h i (Nat.zero_le i) (by omega)
    · intro h i _ hi
      exact h i (by omega)
  exact if_congr hiff rfl rfl

end Signatures

section Checksum

variable {m : Mem} {sdt : Nat}

/-- The sum of the bytes of the whole table. -/
def sdtSum (m : Mem) (sdt : Nat) : Nat :=
  ∑ i ∈ Finset.range (sdtLength m sdt), (byteAt m sdt i).toNat

/-- A byte never reaches 256: the loop does not end. -/
theorem checksumLoop_diverges (h : 256 ≤ sdtLength m sdt) (fuel i checksum : Nat) (hi : i < 256) :
    checksumLoop m sdt fuel i checksum = .error .outOfFuel := by
  induction fuel generalizing i checksum with
  | zero => rfl
  | succ fuel ih =>
    rw [checksumLoop, if_pos (by omega)]
    exact ih _ _ (Nat.mod_lt _ (by decide))

/-- With a length that fits a byte the loop sums up what is left of the table. -/
theorem checksumLoop_eq (h : sdtLength m sdt < 256) (fuel i checksum : Nat)
    (hi : i ≤ sdtLength m sdt) (hc : checksum < 2 ^ 8) :
    checksumLoop m sdt fuel i checksum =
      if sdtLength m sdt - i < fuel then
        .ok ((checksum + ∑ j ∈ Finset.Ico i (sdtLength m sdt), (byteAt m sdt j).toNat) % 2 ^ 8)
      else .error .outOfFuel := by
  induction fuel generalizing i checksum with
  | zero => rw [checksumLoop, if_neg (Nat.not_lt_zero _)]
  | succ fuel ih =>
    rw [checksumLoop]
    by_cases hlt : i < sdtLength m sdt
    · have hnext : (i + 1) % 2 ^ 8 = i + 1 := Nat.mod_eq_of_lt (by omega)
      have hsum : (checksum + (byteAt m sdt i).toNat) % 2 ^ 8 +
          ∑ j ∈ Finset.Ico (i + 1) (sdtLength m sdt), (byteAt m sdt j).toNat ≡
          checksum + ∑ j ∈ Finset.Ico i (sdtLength m sdt),
            (byteAt m sdt j).toNat [MOD 2 ^ 8] := by
        rw [Finset.sum_eq_sum_Ico_succ_bot hlt, ← Nat.add_assoc]
        exact (Nat.mod_modEq _ _).add_right _
      rw [if_pos hlt, hnext, ih (i + 1) _ (by omega) (Nat.mod_lt _ (by decide)), hsum]
      exact if_congr (by omega) rfl rfl
    · have hend : i = sdtLength m sdt := by omega
      rw [if_neg hlt, if_pos (by omega), hend, Finset.Ico_self, Finset.sum_empty, Nat.add_zero,
        Nat.mod_eq_of_lt hc]

/-- What the checksum of a table is to say: true if all its bytes add up to 0, else a panic. -/
def checksumVerdict (m : Mem) (sdt : Nat) (signature : Signature) : Except AcpiHalt Bool :=
  if sdtSum m sdt % 256 = 0 then .ok true
  else .error (.sdtChecksum signature (sdtSum m sdt % 256))

theorem acpiVerifySdtChecksum_short (h : sdtLength m sdt < 256) (fuel : Nat)
    (signature : Signature) :
    acpiVerifySdtChecksum fuel m sdt signature =
      if sdtLength m sdt < fuel then checksumVerdict m sdt signature else .error .outOfFuel := by
  have hloop := checksumLoop_eq h fuel 0 0 (Nat.zero_le _) (by decide)
  rw [Nat.zero_add, Nat.sub_zero, ← Finset.range_eq_Ico] at hloop
  have hmask : sdtSum m sdt % 2 ^ 8 &&& 0xFF = sdtSum m sdt % 256 := by
    rw [show (0xFF : Nat) = 2 ^ 8 - 1 by decide, Nat.and_two_pow_sub_one_eq_mod]
    omega
  unfold acpiVerifySdtChecksum checksumVerdict
  rw [hloop]
  unfold sdtSum at hmask ⊢
  by_cases hfuel : sdtLength m sdt < fuel
  · simp only [if_pos hfuel, hmask]
  · simp only [if_neg hfuel]

theorem acpiVerifySdtChecksum_long (h : 256 ≤ sdtLength m sdt) (fuel : Nat)
    (signature : Signature) :
    acpiVerifySdtChecksum fuel m sdt signature = .error .outOfFuel := by
  unfold acpiVerifySdtChecksum
  rw [checksumLoop_diverges h fuel 0 0 (by decide)]

end Checksum

end ApoptOS
