import ApoptOS.Framework.RegisterWindow
import ApoptOS.Memory.Frames

namespace ApoptOS

open Framework

/-- What apic.c reads of the `madt_ioapic_t` and `madt_iso_t` entries. -/
structure MadtIoapic where
  ioapicAddress : BitVec 32
  gsiBase : BitVec 32
  deriving DecidableEq, Repr

structure MadtIso where
  irqSource : BitVec 8
  gsi : BitVec 32
  flags : BitVec 16
  deriving DecidableEq, Repr

/-- The IOAPICs by the address of their window: `IOREGSEL` selects one of 256 registers, `IOWIN`
carries its 32 bits. -/
abbrev Ioapics := WindowBank Nat (BitVec 8) (BitVec 32)

/-- `PHYS_TO_HIGHER_HALF_DATA(ioapic_address)`. -/
def MadtIoapic.window (ioapic : MadtIoapic) : Nat :=
  physToHigherHalfData ioapic.ioapicAddress.toNat

section Registers

variable (madtIoapics : List MadtIoapic)

/-- `madt_ioapics[ioapic_i]`; no caller passes an index beyond the array. -/
def madtIoapic (ioapicI : Nat) : MadtIoapic := madtIoapics.getD ioapicI ⟨0, 0⟩

def ioapicReadReg (s : Ioapics) (ioapicI : Nat) (reg : BitVec 8) : BitVec 32 × Ioapics :=
  let ioapicIAddr := (madtIoapic madtIoapics ioapicI).window
  let s := s.select ioapicIAddr reg
  (s.data ioapicIAddr, s)

def ioapicWriteReg (s : Ioapics) (ioapicI : Nat) (reg : BitVec 8) (data : BitVec 32) : Ioapics :=
  let ioapicIAddr := (madtIoapic madtIoapics ioapicI).window
  let s := s.select ioapicIAddr reg
  s.setData ioapicIAddr data

def ioapicverReg : BitVec 8 := 1

def ioapicGetMaxRedirect (s : Ioapics) (ioapicI : Nat) : BitVec 32 × Ioapics :=
  let r := ioapicReadReg madtIoapics s ioapicI ioapicverReg
  ((r.1 &&& 0xFF0000) >>> 16, r.2)

/-- The loop of `ioapic_i_from_gsi` at `ioapic_i`, with the number of entries left. -/
def ioapicSearch (gsi : BitVec 32) : Nat → Nat → Ioapics → Except Halt (Nat × Ioapics)
  | 0, _, _ => .error (.panic "Couldn't find an IOAPIC for GSI %d!\n" gsi.toNat)
  | left + 1, ioapicI, s =>
    let startGsi := (madtIoapic madtIoapics ioapicI).gsiBase
    let r := ioapicGetMaxRedirect madtIoapics s ioapicI
    let endGsi := startGsi + r.1
    if startGsi ≤ gsi ∧ gsi < endGsi then .ok (ioapicI, r.2)
    else ioapicSearch gsi left (ioapicI + 1) r.2

def ioapicIFromGsi (s : Ioapics) (gsi : BitVec 32) : Except Halt (Nat × Ioapics) :=
  ioapicSearch madtIoapics gsi madtIoapics.length 0 s

end Registers

namespace MadtIoapic

/-- Bits 16 to 23 of `IOAPICVER`. -/
def maxRedirect (s : Ioapics) (ioapic : MadtIoapic) : Nat :=
  (s.reg ioapic.window ioapicverReg).toNat / 2 ^ 16 % 2 ^ 8

/-- The test of `ioapic_i_from_gsi`, without the wrap-around of `end_gsi`. -/
def Resolves (s : Ioapics) (ioapic : MadtIoapic) (gsi : BitVec 32) : Prop :=
  ioapic.gsiBase.toNat ≤ gsi.toNat ∧ gsi.toNat < ioapic.gsiBase.toNat + ioapic.maxRedirect s ∧
    ioapic.gsiBase.toNat + ioapic.maxRedirect s < 2 ^ 32

instance (s : Ioapics) (ioapic : MadtIoapic) (gsi : BitVec 32) :
    Decidable (ioapic.Resolves s gsi) :=
  inferInstanceAs (Decidable (_ ∧ _ ∧ _))

/-- The inputs of the chip: `maxRedirect` is the index of its last redirection entry. -/
def InRange (s : Ioapics) (ioapic : MadtIoapic) (gsi : Nat) : Prop :=
  ioapic.gsiBase.toNat ≤ gsi ∧ gsi ≤ ioapic.gsiBase.toNat + ioapic.maxRedirect s

end MadtIoapic

variable {madtIoapics : List MadtIoapic} {s s' : Ioapics} {ioapic : MadtIoapic} {gsi : BitVec 32}
  {i k : Nat}

theorem madtIoapic_eq (h : madtIoapics[i]? = some ioapic) : madtIoapic madtIoapics i = ioapic := by
  rw [madtIoapic, List.getD_eq_getElem?_getD, h, Option.getD_some]

theorem maxRedirect_lt (ioapic : MadtIoapic) (s : Ioapics) : ioapic.maxRedirect s < 256 :=
  Nat.mod_lt _ (by decide)

theorem maxRedirect_congr (h : s.SameRegs s') : ioapic.maxRedirect s' = ioapic.maxRedirect s := by
  rw [MadtIoapic.maxRedirect, h, MadtIoapic.maxRedirect]

theorem resolves_congr (h : ioapic.maxRedirect s' = ioapic.maxRedirect s) :
    ioapic.Resolves s' gsi ↔ ioapic.Resolves s gsi := by
  rw [MadtIoapic.Resolves, h, MadtIoapic.Resolves]

theorem ioapicReadReg_spec (madtIoapics : List MadtIoapic) (s : Ioapics) (i : Nat)
    (reg : BitVec 8) :
    (ioapicReadReg madtIoapics s i reg).1 = s.reg (madtIoapic madtIoapics i).window reg ∧
      s.SameRegs (ioapicReadReg madtIoapics s i reg).2 :=
  ⟨WindowBank.data_select, WindowBank.sameRegs_select _ _ _⟩

theorem ioapicGetMaxRedirect_spec (madtIoapics : List MadtIoapic) (s : Ioapics) (i : Nat) :
    (ioapicGetMaxRedirect madtIoapics s i).1.toNat = (madtIoapic madtIoapics i).maxRedirect s ∧
      s.SameRegs (ioapicGetMaxRedirect madtIoapics s i).2 := by
  obtain ⟨hval, hsame⟩ := ioapicReadReg_spec madtIoapics s i ioapicverReg
  refine ⟨?_, hsame⟩
  rw [ioapicGetMaxRedirect, hval, BitVec.toNat_ushiftRight, BitVec.toNat_and]
  exact land_field_shift _ 16 8

/-- Where `end_gsi` wraps around, no GSI is between the two ends. -/
theorem resolves_iff {m : BitVec 32} (h : m.toNat = ioapic.maxRedirect s) :
    (ioapic.gsiBase ≤ gsi ∧ gsi < ioapic.gsiBase + m) ↔ ioapic.Resolves s gsi := by
  have hm := maxRedirect_lt ioapic s
  have hbase := ioapic.gsiBase.isLt
  rw [MadtIoapic.Resolves, BitVec.le_def, BitVec.lt_def, BitVec.toNat_add, h]
  omega

section Search

/-- The entry at `k` is the first one that resolves the GSI. -/
def FirstIoapic (madtIoapics : List MadtIoapic) (s : Ioapics) (gsi : BitVec 32) (k : Nat) : Prop :=
  ∃ ioapic, madtIoapics[k]? = some ioapic ∧ ioapic.Resolves s gsi ∧
    ∀ j < k, ∀ other, madtIoapics[j]? = some other → ¬ other.Resolves s gsi

theorem FirstIoapic.unique {j : Nat} (h : FirstIoapic madtIoapics s gsi k)
    (h' : FirstIoapic madtIoapics s gsi j) : k = j := by
  obtain ⟨a, ha, hares, hafirst⟩ := h
  obtain ⟨b, hb, hbres, hbfirst⟩ := h'
  rcases lt_trichotomy k j with hlt | rfl | hlt
  · exact absurd hares (hbfirst k hlt a ha)
  · rfl
  · exact absurd hbres (hafirst j hlt b hb)

theorem FirstIoapic.congr (h : FirstIoapic madtIoapics s gsi k)
    (hmax : ∀ ioapic ∈ madtIoapics, ioapic.maxRedirect s' = ioapic.maxRedirect s) :
    FirstIoapic madtIoapics s' gsi k := by
  obtain ⟨ioapic, hk, hres, hfirst⟩ := h
  refine ⟨ioapic, hk, (resolves_congr (hmax _ (List.mem_of_getElem? hk))).mpr hres, ?_⟩
  intro j hj other hother hres'
  exact hfirst j hj other hother ((resolves_congr (hmax _ (List.mem_of_getElem? hother))).mp hres')

theorem ioapicSearch_spec (left : Nat) (hleft : i + left = madtIoapics.length)
    (hbefore : ∀ j < i, ∀ other, madtIoapics[j]? = some other → ¬ other.Resolves s gsi) :
    (∃ k s', ioapicSearch madtIoapics gsi left i s = .ok (k, s') ∧
      FirstIoapic madtIoapics s gsi k ∧ s.SameRegs s') ∨
    (ioapicSearch madtIoapics gsi left i s =
        .error (.panic "Couldn't find an IOAPIC for GSI %d!\n" gsi.toNat) ∧
      ∀ other ∈ madtIoapics, ¬ other.Resolves s gsi) := by
  induction left generalizing i s with
  | zero =>
    refine Or.inr ⟨rfl, fun other hother => ?_⟩
    obtain ⟨j, hj⟩ := List.mem_iff_getElem?.mp hother
    have hlt := (List.getElem?_eq_some_iff.mp hj).1
    exact hbefore j (by omega) other hj
  | succ left ih =>
    have hi : i < madtIoapics.length := by omega
    have hget := List.getElem?_eq_getElem hi
    have hentry := madtIoapic_eq hget
    obtain ⟨hmax, hsame⟩ := ioapicGetMaxRedirect_spec madtIoapics s i
    rw [hentry] at hmax
    simp only [ioapicSearch, hentry]
    by_cases hres : madtIoapics[i].Resolves s gsi
    · rw [if_pos ((resolves_iff hmax).mpr hres)]
      exact Or.inl ⟨i, _, rfl, ⟨_, hget, hres, hbefore⟩, hsame⟩
    · rw [if_neg (fun h => hres ((resolves_iff hmax).mp h))]
      -- reading the version register has only changed what is selected
      have hcongr : ∀ other : MadtIoapic, other.maxRedirect
          (ioapicGetMaxRedirect madtIoapics s i).2 = other.maxRedirect s :=
        fun other => maxRedirect_congr hsame
      have hnext : ∀ j < i + 1, ∀ other, madtIoapics[j]? = some other →
          ¬ other.Resolves (ioapicGetMaxRedirect madtIoapics s i).2 gsi := by
        intro j hj other hother hres'
        rw [resolves_congr (hcongr other)] at hres'
        rcases Nat.lt_succ_iff_lt_or_eq.mp hj with hlt | rfl
        · exact hbefore j hlt other hother hres'
        · rw [hget] at hother
          obtain rfl := Option.some.inj hother
          exact hres hres'
      rcases ih (by omega) hnext with ⟨k, s', hrun, hfirst, hs'⟩ | ⟨hrun, hnone⟩
      · exact Or.inl ⟨k, s', hrun, hfirst.congr (fun _ _ => (hcongr _).symm), hsame.trans hs'⟩
      · exact Or.inr ⟨hrun, fun other hother hres' =>
          hnone other hother ((resolves_congr (hcongr other)).mpr hres')⟩

/-- The first IOAPIC that resolves the GSI, or a panic if there is none. -/
theorem ioapicIFromGsi_cases (madtIoapics : List MadtIoapic) (s : Ioapics) (gsi : BitVec 32) :
    (∃ k s', ioapicIFromGsi madtIoapics s gsi = .ok (k, s') ∧
      FirstIoapic madtIoapics s gsi k ∧ s.SameRegs s') ∨
    (ioapicIFromGsi madtIoapics s gsi =
        .error (.panic "Couldn't find an IOAPIC for GSI %d!\n" gsi.toNat) ∧
      ∀ other ∈ madtIoapics, ¬ other.Resolves s gsi) :=
  ioapicSearch_spec madtIoapics.length (Nat.zero_add _) (fun j hj => absurd hj (Nat.not_lt_zero j))

theorem FirstIoapic.found (h : FirstIoapic madtIoapics s gsi k) :
    ∃ s', ioapicIFromGsi madtIoapics s gsi = .ok (k, s') ∧ s.SameRegs s' := by
  rcases ioapicIFromGsi_cases madtIoapics s gsi with
      ⟨j, s', hrun, hfirst, hsame⟩ | ⟨-, hnone⟩
  · obtain rfl := hfirst.unique h
    exact ⟨s', hrun, hsame⟩
  · obtain ⟨ioapic, hk, hres, -⟩ := h
    exact absurd hres (hnone ioapic (List.mem_of_getElem? hk))

theorem firstIoapic_of_ok (h : ioapicIFromGsi madtIoapics s gsi = .ok (k, s')) :
    FirstIoapic madtIoapics s gsi k ∧ s.SameRegs s' := by
  rcases ioapicIFromGsi_cases madtIoapics s gsi with
      ⟨j, s2, hrun, hfirst, hsame⟩ | ⟨hrun, -⟩
  · rw [hrun] at h
    obtain ⟨rfl, rfl⟩ := Prod.mk.inj (Except.ok.inj h)
    exact ⟨hfirst, hsame⟩
  · rw [hrun] at h
    simp at h

end Search

/-- Every GSI finds the IOAPIC whose input it is, and the kernel panics for all others. -/
def FindsIoapic (madtIoapics : List MadtIoapic) (s : Ioapics) (gsi : BitVec 32) : Prop :=
  (∀ k ioapic, madtIoapics[k]? = some ioapic → ioapic.InRange s gsi.toNat →
    ∃ s', ioapicIFromGsi madtIoapics s gsi = .ok (k, s')) ∧
  ((∀ ioapic ∈ madtIoapics, ¬ ioapic.InRange s gsi.toNat) →
    ioapicIFromGsi madtIoapics s gsi =
      .error (.panic "Couldn't find an IOAPIC for GSI %d!\n" gsi.toNat))

/-- No GSI is an input of two IOAPICs. -/
def DisjointRanges (madtIoapics : List MadtIoapic) (s : Ioapics) : Prop :=
  madtIoapics.Pairwise (fun a b => ∀ gsi, ¬ (a.InRange s gsi ∧ b.InRange s gsi))

theorem MadtIoapic.Resolves.inRange (h : ioapic.Resolves s gsi) : ioapic.InRange s gsi.toNat :=
  ⟨h.1, Nat.le_of_lt h.2.1⟩

theorem DisjointRanges.unique (h : DisjointRanges madtIoapics s) {a b : MadtIoapic} {i j g : Nat}
    (hi : madtIoapics[i]? = some a) (hj : madtIoapics[j]? = some b) (ha : a.InRange s g)
    (hb : b.InRange s g) : i = j := by
  obtain ⟨hilt, hia⟩ := List.getElem?_eq_some_iff.mp hi
  obtain ⟨hjlt, hjb⟩ := List.getElem?_eq_some_iff.mp hj
  subst hia hjb
  rcases lt_trichotomy i j with hlt | heq | hlt
  · exact absurd ⟨ha, hb⟩ (List.pairwise_iff_getElem.mp h i j hilt hjlt hlt g)
  · exact heq
  · exact absurd ⟨hb, ha⟩ (List.pairwise_iff_getElem.mp h j i hjlt hilt hlt g)

/-- For every list of IOAPICs with disjoint ranges and every GSI: it finds its IOAPIC exactly if
it is not the last input of one, or of one whose range ends beyond 32 bits. -/
theorem gsi_finds_ioapic_iff (madtIoapics : List MadtIoapic) (s : Ioapics)
    (hdisjoint : DisjointRanges madtIoapics s) (gsi : BitVec 32) :
    FindsIoapic madtIoapics s gsi ↔
      ∀ ioapic ∈ madtIoapics, ioapic.InRange s gsi.toNat →
        gsi.toNat ≠ ioapic.gsiBase.toNat + ioapic.maxRedirect s ∧
          ioapic.gsiBase.toNat + ioapic.maxRedirect s < 2 ^ 32 := by
  constructor
  · rintro ⟨hfinds, -⟩ ioapic hmem hrange
    obtain ⟨k, hk⟩ := List.mem_iff_getElem?.mp hmem
    obtain ⟨s', hrun⟩ := hfinds k ioapic hk hrange
    obtain ⟨⟨found, hfound, hres, -⟩, -⟩ := firstIoapic_of_ok hrun
    rw [hk] at hfound
    obtain rfl := Option.some.inj hfound
    exact ⟨Nat.ne_of_lt hres.2.1, hres.2.2⟩
  · intro hlast
    constructor
    · intro k ioapic hk hrange
      obtain ⟨hne, hfits⟩ := hlast ioapic (List.mem_of_getElem? hk) hrange
      have hres : ioapic.Resolves s gsi := ⟨hrange.1, lt_of_le_of_ne hrange.2 hne, hfits⟩
      have hfirst : FirstIoapic madtIoapics s gsi k := by
        refine ⟨ioapic, hk, hres, fun j hj other hother hres' => ?_⟩
        exact Nat.ne_of_lt hj (hdisjoint.unique hother hk hres'.inRange hrange)
      obtain ⟨s', hrun, -⟩ := hfirst.found
      exact ⟨s', hrun⟩
    · intro hnone
      rcases ioapicIFromGsi_cases madtIoapics s gsi with ⟨k, s', -, hfirst, -⟩ | ⟨hrun, -⟩
      · obtain ⟨ioapic, hk, hres, -⟩ := hfirst
        exact absurd hres.inRange (hnone ioapic (List.mem_of_getElem? hk))
      · exact hrun

/-- The IOAPIC of a PC, with 24 inputs. -/
def pcIoapics : List MadtIoapic := [⟨0xFEC00000, 0⟩]

/-- `IOAPICVER` as it is there, and no input masked. -/
def pcRegisters : Ioapics := fun _ => ⟨0, fun reg => if reg = ioapicverReg then 0x170020 else 0⟩

theorem gsi_finds_ioapic_iff_timer : FindsIoapic pcIoapics pcRegisters 2 :=
  (gsi_finds_ioapic_iff pcIoapics pcRegisters (List.pairwise_singleton _ _) 2).mpr (by
    intro ioapic hmem _
    obtain rfl := List.mem_singleton.mp hmem
    decide)

/-- The last of the 24 inputs is not found. -/
theorem gsi_of_last_input_panics :
    ioapicIFromGsi pcIoapics pcRegisters 23 =
      .error (.panic "Couldn't find an IOAPIC for GSI %d!\n" 23) ∧
    MadtIoapic.InRange pcRegisters ⟨0xFEC00000, 0⟩ 23 ∧
    ¬ FindsIoapic pcIoapics pcRegisters 23 := by
  have hrange : MadtIoapic.InRange pcRegisters ⟨0xFEC00000, 0⟩ 23 := ⟨by decide, by decide⟩
  have hpanic : ioapicIFromGsi pcIoapics pcRegisters 23 =
      .error (.panic "Couldn't find an IOAPIC for GSI %d!\n" 23) := by
    rcases ioapicIFromGsi_cases pcIoapics pcRegisters 23 with
        ⟨k, s', -, hfirst, -⟩ | ⟨hrun, -⟩
    · obtain ⟨ioapic, hk, hres, -⟩ := hfirst
      obtain rfl := List.mem_singleton.mp (List.mem_of_getElem? hk)
      exact absurd hres (by decide)
    · exact hrun
  refine ⟨hpanic, hrange, fun h => ?_⟩
  obtain ⟨s', hrun⟩ := h.1 0 ⟨0xFEC00000, 0⟩ rfl hrange
  rw [hpanic] at hrun
  simp at hrun

end ApoptOS
