import ApoptOS.Hardware.Apic.IoapicRedirect
import ApoptOS.Memory.Physical.Bitmap

namespace ApoptOS

open Framework

/-- The LAPIC ID out of its register. -/
def lapicGetId (lapicIdReg : BitVec 32) : BitVec 8 := (lapicIdReg >>> 24).setWidth 8

section Init

variable (madtIoapics : List MadtIoapic) (madtIsos : List MadtIso)

/-- The first override of the IRQ decides on GSI and flags; without one the GSI is the IRQ. -/
def ioapicSetIrqRedirect (s : Ioapics) (lapicId : BitVec 32) (vector irq : BitVec 8) (mask : Bool) :
    Except Halt (BitVec 32 × Ioapics) :=
  match madtIsos.find? (fun iso => iso.irqSource = irq) with
  | some iso =>
    match ioapicSetGsiRedirect madtIoapics s lapicId vector iso.gsi iso.flags mask with
    | .error e => .error e
    | .ok s => .ok (iso.gsi, s)
  | none =>
    match ioapicSetGsiRedirect madtIoapics s lapicId vector (irq.setWidth 32) 0 mask with
    | .error e => .error e
    | .ok s => .ok (irq.setWidth 32, s)

/-- The first `n` iterations of the loop of `apic_init`, which calls `lapic_get_id` each time. -/
def maskIsaIrqs (lapicIdReg : BitVec 32) (irqBitmap : Bitmap) (m : Mem) (s : Ioapics) :
    Nat → Except Halt (Mem × Ioapics)
  | 0 => .ok (m, s)
  | i + 1 =>
    match maskIsaIrqs lapicIdReg irqBitmap m s i with
    | .error e => .error e
    | .ok (m, s) =>
      if bitmapCheckBit m irqBitmap (toInt i) = 0#8 then
        match ioapicSetIrqRedirect madtIoapics madtIsos s ((lapicGetId lapicIdReg).setWidth 32)
          (BitVec.ofNat 8 (i + 32)) (BitVec.ofNat 8 i) true with
        | .error e => .error e
        | .ok (irq, s) => .ok (bitmapSetBit m irqBitmap (toInt irq.toNat), s)
      else .ok (m, s)

/-- What `apic_init` does from its bitmap, for which `malloc(16)` returned `map`, to the end of
the loop. -/
def apicInitIrqs (lapicIdReg : BitVec 32) (map : Nat) (m : Mem) (s : Ioapics) :
    Except Halt (Mem × Ioapics) :=
  let irqBitmap : Bitmap := ⟨map, 16⟩
  let m := m.memset (physOf irqBitmap.map) 0 irqBitmap.size
  maskIsaIrqs madtIoapics madtIsos lapicIdReg irqBitmap m s 16

end Init

/-- The GSI an ISA IRQ arrives at, and the flags that come with it. -/
def effectiveGsi (madtIsos : List MadtIso) (irq : Nat) : BitVec 32 :=
  match madtIsos.find? (fun iso => iso.irqSource = BitVec.ofNat 8 irq) with
  | some iso => iso.gsi
  | none => (BitVec.ofNat 8 irq).setWidth 32

def effectiveFlags (madtIsos : List MadtIso) (irq : Nat) : BitVec 16 :=
  match madtIsos.find? (fun iso => iso.irqSource = BitVec.ofNat 8 irq) with
  | some iso => iso.flags
  | none => 0

/-- The GSI is an input of an IOAPIC, and the redirection entry of that input has its mask
bit set. -/
def GsiMasked (madtIoapics : List MadtIoapic) (s : Ioapics) (gsi : BitVec 32) : Prop :=
  ∃ ioapic ∈ madtIoapics, ioapic.InRange s gsi.toNat ∧
    (ioapic.entry s (ioapic.pin gsi)).getLsbD 16 = true

/-- After the loop of `apic_init` all ISA IRQs are masked. -/
def MasksIsaIrqs (madtIoapics : List MadtIoapic) (madtIsos : List MadtIso) (lapicIdReg : BitVec 32)
    (map : Nat) (m : Mem) (s : Ioapics) : Prop :=
  ∃ m' s', apicInitIrqs madtIoapics madtIsos lapicIdReg map m s = .ok (m', s') ∧
    ∀ irq < 16, GsiMasked madtIoapics s' (effectiveGsi madtIsos irq)

/-- The IRQ has the number of a GSI at which an earlier IRQ arrives, one that is not skipped
itself. -/
def SkippedIrq (madtIsos : List MadtIso) (irq : Nat) : Prop :=
  ∃ j, ∃ _ : j < irq, ¬ SkippedIrq madtIsos j ∧ (effectiveGsi madtIsos j).toNat = irq
termination_by irq

theorem skippedIrq_iff {madtIsos : List MadtIso} {irq : Nat} : SkippedIrq madtIsos irq ↔
    ∃ j < irq, ¬ SkippedIrq madtIsos j ∧ (effectiveGsi madtIsos j).toNat = irq := by
  rw [SkippedIrq]
  simp only [exists_prop]

section IrqBitmap

variable {map base b c : Nat} {m : Mem}

/-- The 16 bytes of the bitmap are in the heap window. -/
theorem irqBitmap_byte (hmap : heapStartAddr ≤ map) (hend : map + 16 ≤ 2 ^ 64) (hb : b < 128) :
    bitmapByte ⟨map, 16⟩ (toInt b) = physOf map + b / 8 := by
  have hdiv : (toInt b).tdiv 8 = ((b / 8 : Nat) : Int) := by
    rw [toInt_of_lt (by omega)]
    exact (Int.ofNat_tdiv b 8).symm
  have hsum : (((map : Int) + ((b / 8 : Nat) : Int)) % 2 ^ 64).toNat = map + b / 8 := by omega
  show physOf (((map : Int) + (toInt b).tdiv 8) % 2 ^ 64).toNat = _
  rw [hdiv, hsum]
  unfold physOf
  rw [if_pos hmap, if_pos (by omega)]
  omega

theorem irqBitmap_clear (hb : b < 128) : usedBit (m.memset base 0 16) base b = false := by
  unfold usedBit
  rw [Mem.memset_inside m (Nat.le_add_right _ _) (by omega)]
  simp

end IrqBitmap

section Loop

variable {madtIoapics : List MadtIoapic} {madtIsos : List MadtIso} {s s' s0 : Ioapics}
  {m m' : Mem} {lapicIdReg lapicId : BitVec 32} {vector : BitVec 8} {mask : Bool} {map i n : Nat}

theorem ioapicSetIrqRedirect_eq : ioapicSetIrqRedirect madtIoapics madtIsos s lapicId vector
      (BitVec.ofNat 8 i) mask =
    match ioapicSetGsiRedirect madtIoapics s lapicId vector (effectiveGsi madtIsos i)
      (effectiveFlags madtIsos i) mask with
    | .error e => .error e
    | .ok s => .ok (effectiveGsi madtIsos i, s) := by
  unfold ioapicSetIrqRedirect effectiveGsi effectiveFlags
  cases madtIsos.find? (fun iso => iso.irqSource = BitVec.ofNat 8 i) <;> rfl

theorem effectiveGsi_lt (hisos : ∀ iso ∈ madtIsos, iso.gsi.toNat < 128) (hi : i < 16) :
    (effectiveGsi madtIsos i).toNat < 128 := by
  unfold effectiveGsi
  split
  · rename_i iso hfind
    exact hisos iso (List.mem_of_find?_eq_some hfind)
  · rw [BitVec.toNat_setWidth, BitVec.toNat_ofNat]
    omega

/-- What `n` iterations have done: the bits of the bitmap and the entries masked are those of the
IRQs not skipped. -/
structure IrqsMasked (madtIoapics : List MadtIoapic) (madtIsos : List MadtIso) (base : Nat)
    (s0 : Ioapics) (n : Nat) (m : Mem) (s : Ioapics) : Prop where
  sound : SoundIoapics madtIoapics s
  maxRedirect : ∀ ioapic ∈ madtIoapics, ioapic.maxRedirect s = ioapic.maxRedirect s0
  bits : ∀ b < 128, usedBit m base b = true ↔
    ∃ j < n, ¬ SkippedIrq madtIsos j ∧ (effectiveGsi madtIsos j).toNat = b
  served : ∀ j < n, ¬ SkippedIrq madtIsos j →
    ∃ k, FirstIoapic madtIoapics s0 (effectiveGsi madtIsos j) k
  masked : ∀ (k : Nat) (ioapic : MadtIoapic) (gsi : BitVec 32), madtIoapics[k]? = some ioapic →
    ioapic.InRange s0 gsi.toNat →
    ((ioapic.entry s (ioapic.pin gsi)).getLsbD 16 = true ↔
      (ioapic.entry s0 (ioapic.pin gsi)).getLsbD 16 = true ∨
        ∃ j < n, ¬ SkippedIrq madtIsos j ∧ effectiveGsi madtIsos j = gsi)

theorem IrqsMasked.start (hsound : SoundIoapics madtIoapics s0) :
    IrqsMasked madtIoapics madtIsos map s0 0 (m.memset map 0 16) s0 := by
  refine ⟨hsound, fun _ _ => rfl, fun b hb => ?_, fun j hj => absurd hj (Nat.not_lt_zero j),
    fun _ _ _ _ _ => by simp⟩
  rw [irqBitmap_clear hb]
  simp

namespace IrqsMasked

variable {base : Nat}

theorem bit_iff (h : IrqsMasked madtIoapics madtIsos base s0 i m s) (hi : i < 128) :
    usedBit m base i = true ↔ SkippedIrq madtIsos i := by
  rw [h.bits i hi, skippedIrq_iff]

theorem first (h : IrqsMasked madtIoapics madtIsos base s0 n m s) {gsi : BitVec 32} {k : Nat} :
    FirstIoapic madtIoapics s gsi k ↔ FirstIoapic madtIoapics s0 gsi k := by
  constructor
  · intro hfirst
    exact hfirst.congr (fun ioapic hmem => (h.maxRedirect ioapic hmem).symm)
  · intro hfirst
    exact hfirst.congr h.maxRedirect

theorem inRange (h : IrqsMasked madtIoapics madtIsos base s0 n m s) {ioapic : MadtIoapic}
    (hmem : ioapic ∈ madtIoapics) {gsi : Nat} :
    ioapic.InRange s gsi ↔ ioapic.InRange s0 gsi := by
  rw [MadtIoapic.InRange, h.maxRedirect ioapic hmem, MadtIoapic.InRange]

theorem masked_iff (h : IrqsMasked madtIoapics madtIsos base s0 n m s) {gsi : BitVec 32} :
    GsiMasked madtIoapics s gsi ↔ GsiMasked madtIoapics s0 gsi ∨
      ∃ ioapic ∈ madtIoapics, ioapic.InRange s0 gsi.toNat ∧
        ∃ j < n, ¬ SkippedIrq madtIsos j ∧ effectiveGsi madtIsos j = gsi := by
  constructor
  · rintro ⟨ioapic, hmem, hrange, hbit⟩
    obtain ⟨k, hk⟩ := List.mem_iff_getElem?.mp hmem
    have hrange0 := (h.inRange hmem).mp hrange
    rcases (h.masked k ioapic gsi hk hrange0).mp hbit with hbefore | hirqs
    · exact Or.inl ⟨ioapic, hmem, hrange0, hbefore⟩
    · exact Or.inr ⟨ioapic, hmem, hrange0, hirqs⟩
  · have hnow : ∀ ioapic ∈ madtIoapics, ioapic.InRange s0 gsi.toNat →
        ((ioapic.entry s0 (ioapic.pin gsi)).getLsbD 16 = true ∨
          ∃ j < n, ¬ SkippedIrq madtIsos j ∧ effectiveGsi madtIsos j = gsi) →
        GsiMasked madtIoapics s gsi := by
      intro ioapic hmem hrange hbit
      obtain ⟨k, hk⟩ := List.mem_iff_getElem?.mp hmem
      exact ⟨ioapic, hmem, (h.inRange hmem).mpr hrange,
        (h.masked k ioapic gsi hk hrange).mpr hbit⟩
    rintro (⟨ioapic, hmem, hrange, hbit⟩ | ⟨ioapic, hmem, hrange, hirqs⟩)
    · exact hnow ioapic hmem hrange (Or.inl hbit)
    · exact hnow ioapic hmem hrange (Or.inr hirqs)

/-- An iteration that skips its IRQ. -/
theorem skip (h : IrqsMasked madtIoapics madtIsos base s0 n m s) (hskip : SkippedIrq madtIsos n) :
    IrqsMasked madtIoapics madtIsos base s0 (n + 1) m s := by
  refine ⟨h.sound, h.maxRedirect, fun b hb => ?_, fun j hj hnot => ?_,
    fun k ioapic gsi hk hrange => ?_⟩
  · rw [h.bits b hb, Nat.exists_lt_succ_right]
    simp only [hskip, not_true_eq_false, false_and, or_false]
  · rcases Nat.lt_succ_iff_lt_or_eq.mp hj with hlt | rfl
    · exact h.served j hlt hnot
    · exact absurd hskip hnot
  · rw [h.masked k ioapic gsi hk hrange, Nat.exists_lt_succ_right]
    simp only [hskip, not_true_eq_false, false_and, or_false]

/-- An iteration that masks the entry of its IRQ. -/
theorem redirect (h : IrqsMasked madtIoapics madtIsos base s0 n m s)
    (hdisjoint : DisjointRanges madtIoapics s0) (hskip : ¬ SkippedIrq madtIsos n) {k : Nat}
    {ioapic : MadtIoapic} {entry : BitVec 64}
    (hfirst : FirstIoapic madtIoapics s (effectiveGsi madtIsos n) k)
    (hk : madtIoapics[k]? = some ioapic)
    (hwritten : EntryWritten s s' ioapic (ioapic.pin (effectiveGsi madtIsos n)) entry)
    (hentry : entry.getLsbD 16 = true)
    (hbits : ∀ b < 128, usedBit m' base b =
      (usedBit m base b || decide (b = (effectiveGsi madtIsos n).toNat))) :
    IrqsMasked madtIoapics madtIsos base s0 (n + 1) m' s' := by
  obtain ⟨found, hfound, hres, -⟩ := id hfirst
  rw [hk] at hfound
  obtain rfl := Option.some.inj hfound
  have hpin := h.sound.pin_lt (List.mem_of_getElem? hk) hres
  refine ⟨hwritten.sound hpin h.sound, fun other hother => ?_, fun b hb => ?_,
    fun j hj hnot => ?_, fun k' ioapic' gsi hk' hrange => ?_⟩
  · rw [hwritten.maxRedirect_eq hpin, h.maxRedirect other hother]
  · rw [hbits b hb, Bool.or_eq_true, h.bits b hb, Nat.exists_lt_succ_right, decide_eq_true_eq]
    simp only [hskip, not_false_eq_true, true_and, eq_comm]
  · rcases Nat.lt_succ_iff_lt_or_eq.mp hj with hlt | rfl
    · exact h.served j hlt hnot
    · exact ⟨k, h.first.mp hfirst⟩
  · rw [Nat.exists_lt_succ_right]
    by_cases hgsi : effectiveGsi madtIsos n = gsi
    · subst hgsi
      have hserved := (h.inRange (List.mem_of_getElem? hk)).mp hres.inRange
      obtain rfl := hdisjoint.unique hk hk' hserved hrange
      rw [hk] at hk'
      obtain rfl := Option.some.inj hk'
      rw [hwritten.written]
      exact iff_of_true hentry (Or.inr (Or.inr ⟨hskip, rfl⟩))
    · -- the entry of another GSI: another window or another input
      have hrange' := (h.inRange (List.mem_of_getElem? hk')).mpr hrange
      have hpin' := h.sound.pin_le (List.mem_of_getElem? hk') hrange'
      have hother : ioapic'.window ≠ ioapic.window ∨
          ioapic'.pin gsi ≠ ioapic.pin (effectiveGsi madtIsos n) := by
        by_cases hkk : k' = k
        · subst hkk
          rw [hk] at hk'
          obtain rfl := Option.some.inj hk'
          refine Or.inr (fun heq => hgsi (BitVec.eq_of_toNat_eq ?_))
          have hbase := hres.1
          have hbase' := hrange.1
          unfold MadtIoapic.pin at heq
          omega
        · exact Or.inl (h.sound.window_ne hk' hk hkk)
      rw [hwritten.entry_kept hpin hpin' hother, h.masked k' ioapic' gsi hk' hrange]
      simp only [hgsi, and_false, or_false]

end IrqsMasked

/-- The loop masks the entries of all IRQs that it does not skip, or panics at the first one of
them that no IOAPIC serves. -/
theorem maskIsaIrqs_spec (hsound : SoundIoapics madtIoapics s0)
    (hdisjoint : DisjointRanges madtIoapics s0)
    (hisos : ∀ iso ∈ madtIsos, iso.gsi.toNat < 128) (hmap : heapStartAddr ≤ map)
    (hend : map + 16 ≤ 2 ^ 64) (lapicIdReg : BitVec 32) (hn : n ≤ 16) :
    (∃ m' s', maskIsaIrqs madtIoapics madtIsos lapicIdReg ⟨map, 16⟩
        (m.memset (physOf map) 0 16) s0 n = .ok (m', s') ∧
      IrqsMasked madtIoapics madtIsos (physOf map) s0 n m' s') ∨
    ((∃ e, maskIsaIrqs madtIoapics madtIsos lapicIdReg ⟨map, 16⟩
        (m.memset (physOf map) 0 16) s0 n = .error e) ∧
      ∃ j < n, ¬ SkippedIrq madtIsos j ∧
        ∀ ioapic ∈ madtIoapics, ¬ ioapic.Resolves s0 (effectiveGsi madtIsos j)) := by
  induction n with
  | zero => exact Or.inl ⟨_, _, rfl, IrqsMasked.start hsound⟩
  | succ n ih =>
    rcases ih (by omega) with ⟨m1, s1, hrun, hinv⟩ | ⟨⟨e, hrun⟩, j, hj, hnot, hnone⟩
    · have hcheck := bitmapCheckBit_at (m := m1) (irqBitmap_byte hmap hend (show n < 128 by omega))
        (show n < 2 ^ 31 by omega)
      have hgsi := effectiveGsi_lt hisos (show n < 16 by omega)
      by_cases hskip : SkippedIrq madtIsos n
      · have hbit := (hinv.bit_iff (by omega)).mpr hskip
        have hset : bitmapCheckBit m1 ⟨map, 16⟩ (toInt n) ≠ 0#8 := by
          intro hclear
          rw [hcheck.mp hclear] at hbit
          simp at hbit
        refine Or.inl ⟨m1, s1, ?_, hinv.skip hskip⟩
        simp only [maskIsaIrqs, hrun, hset, if_false]
      · have hclear : bitmapCheckBit m1 ⟨map, 16⟩ (toInt n) = 0#8 := by
          apply hcheck.mpr
          rw [← Bool.not_eq_true]
          exact fun hbit => hskip ((hinv.bit_iff (by omega)).mp hbit)
        rcases ioapicIFromGsi_cases madtIoapics s1 (effectiveGsi madtIsos n) with
          ⟨k, s2, -, hfirst, -⟩ | ⟨hpanic, hnone⟩
        · obtain ⟨ioapic, hk, -, -⟩ := id hfirst
          obtain ⟨s', hset, hwritten⟩ := ioapicSetGsiRedirect_spec hinv.sound hfirst hk
            ((lapicGetId lapicIdReg).setWidth 32) (BitVec.ofNat 8 (n + 32))
            (effectiveFlags madtIsos n) true
          refine Or.inl ⟨_, s', ?_, hinv.redirect hdisjoint hskip hfirst hk hwritten
            (redirectEntry_fields _ _ _ _).mask (fun b _ => usedBit_set_at
              (irqBitmap_byte hmap hend hgsi) (by omega))⟩
          simp only [maskIsaIrqs, hrun, hclear, if_true, ioapicSetIrqRedirect_eq, hset]
        · have herror : maskIsaIrqs madtIoapics madtIsos lapicIdReg ⟨map, 16⟩
              (m.memset (physOf map) 0 16) s0 (n + 1) = .error (.panic
                "Couldn't find an IOAPIC for GSI %d!\n" (effectiveGsi madtIsos n).toNat) := by
            simp only [maskIsaIrqs, hrun, hclear, if_true, ioapicSetIrqRedirect_eq,
              ioapicSetGsiRedirect, hpanic]
          refine Or.inr ⟨⟨_, herror⟩, n, Nat.lt_succ_self n, hskip,
            fun ioapic hmem hres => ?_⟩
          exact hnone ioapic hmem ((resolves_congr (hinv.maxRedirect ioapic hmem)).mpr hres)
    · exact Or.inr ⟨⟨e, by simp only [maskIsaIrqs, hrun]⟩, j, by omega, hnot, hnone⟩

end Loop

theorem firstIoapic_iff {madtIoapics : List MadtIoapic} {s : Ioapics} {gsi : BitVec 32} :
    (∃ k, FirstIoapic madtIoapics s gsi k) ↔
    ∃ ioapic ∈ madtIoapics, ioapic.Resolves s gsi := by
  constructor
  · rintro ⟨k, ioapic, hk, hres, -⟩
    exact ⟨ioapic, List.mem_of_getElem? hk, hres⟩
  · rintro ⟨ioapic, hmem, hres⟩
    rcases ioapicIFromGsi_cases madtIoapics s gsi with ⟨k, s', -, hfirst, -⟩ | ⟨-, hnone⟩
    · exact ⟨k, hfirst⟩
    · exact absurd hres (hnone ioapic hmem)

/-- For every list of overrides with targets below 128 and all contents of the redirection
tables: the loop ends with all ISA IRQs masked exactly if each IRQ that it does not skip arrives
at a GSI that it finds an IOAPIC for, and each IRQ arrives where one of those does, or at an
input that was masked before. -/
theorem isa_irqs_masked_iff (madtIoapics : List MadtIoapic) (madtIsos : List MadtIso) (s : Ioapics)
    (hsound : SoundIoapics madtIoapics s) (hdisjoint : DisjointRanges madtIoapics s)
    (hisos : ∀ iso ∈ madtIsos, iso.gsi.toNat < 128) (lapicIdReg : BitVec 32) (map : Nat)
    (hmap : heapStartAddr ≤ map) (hend : map + 16 ≤ 2 ^ 64) (m : Mem) :
    MasksIsaIrqs madtIoapics madtIsos lapicIdReg map m s ↔
      (∀ irq < 16, ¬ SkippedIrq madtIsos irq →
        ∃ ioapic ∈ madtIoapics, ioapic.Resolves s (effectiveGsi madtIsos irq)) ∧
      ∀ irq < 16, (∃ j < 16, ¬ SkippedIrq madtIsos j ∧
          effectiveGsi madtIsos j = effectiveGsi madtIsos irq) ∨
        GsiMasked madtIoapics s (effectiveGsi madtIsos irq) := by
  have hspec := maskIsaIrqs_spec (m := m) hsound hdisjoint hisos hmap hend lapicIdReg (le_refl 16)
  constructor
  · rintro ⟨m', s', hrun, hmasked⟩
    rcases hspec with ⟨m1, s1, hrun1, hinv⟩ | ⟨⟨e, hrun1⟩, -⟩
    · obtain ⟨rfl, rfl⟩ := Prod.mk.inj (Except.ok.inj (hrun1.symm.trans hrun))
      refine ⟨fun irq hirq hnot => firstIoapic_iff.mp (hinv.served irq hirq hnot),
        fun irq hirq => ?_⟩
      rcases hinv.masked_iff.mp (hmasked irq hirq) with hbefore | ⟨-, -, -, hirqs⟩
      · exact Or.inr hbefore
      · exact Or.inl hirqs
    · have hrun' : Except.error e = Except.ok (m', s') := hrun1.symm.trans hrun
      simp at hrun'
  · rintro ⟨hserved, hcovered⟩
    rcases hspec with ⟨m', s', hrun, hinv⟩ | ⟨-, j, hj, hnot, hnone⟩
    · refine ⟨m', s', hrun, fun irq hirq => hinv.masked_iff.mpr ?_⟩
      rcases hcovered irq hirq with ⟨j, hj, hnot, hgsi⟩ | hbefore
      · obtain ⟨ioapic, hmem, hres⟩ := hserved j hj hnot
        have hrange := hres.inRange
        rw [hgsi] at hrange
        exact Or.inr ⟨ioapic, hmem, hrange, j, hj, hnot, hgsi⟩
      · exact Or.inl hbefore
    · obtain ⟨ioapic, hmem, hres⟩ := hserved j hj hnot
      exact absurd hres (hnone ioapic hmem)

/-- The override of the timer that PCs have. -/
def timerIso : MadtIso := ⟨0, 2, 0⟩

theorem timer_effectiveGsi :
    ∀ irq < 16, (effectiveGsi [timerIso] irq).toNat = if irq = 0 then 2 else irq := by decide

theorem timer_skips {irq : Nat} (hirq : irq < 16) (h : SkippedIrq [timerIso] irq) : irq = 2 := by
  obtain ⟨j, hj, -, hgsi⟩ := skippedIrq_iff.mp h
  rw [timer_effectiveGsi j (by omega)] at hgsi
  split_ifs at hgsi <;> omega

/-- With it alone, IRQ 2 is skipped and all are masked. -/
theorem isa_irqs_masked_iff_timer : MasksIsaIrqs pcIoapics [timerIso] 0 (heapStartAddr + 0x1002)
    (fun _ => 0) pcRegisters := by
  refine (isa_irqs_masked_iff pcIoapics [timerIso] pcRegisters pcIoapics_sound
    (List.pairwise_singleton _ _) (by decide) 0 (heapStartAddr + 0x1002) (by decide) (by decide)
    (fun _ => 0)).mpr ⟨fun irq hirq _ => ?_, fun irq hirq => ?_⟩
  · have hserved : ∀ irq < 16, MadtIoapic.Resolves pcRegisters ⟨0xFEC00000, 0⟩
        (effectiveGsi [timerIso] irq) := by decide
    exact ⟨_, List.mem_singleton.mpr rfl, hserved irq hirq⟩
  · by_cases h2 : irq = 2
    · subst h2
      exact Or.inl ⟨0, by decide, fun h => absurd (timer_skips (by decide) h) (by decide),
        by decide⟩
    · exact Or.inl ⟨irq, hirq, fun h => h2 (timer_skips hirq h), rfl⟩

/-- With the timer at GSI 2 and IRQ 2 moved to GSI 20, IRQ 2 is skipped because GSI 2 is
programmed already, and nothing masks GSI 20. -/
theorem moved_cascade_unmasked : ¬ MasksIsaIrqs pcIoapics [timerIso, ⟨2, 20, 0⟩] 0
    (heapStartAddr + 0x1002) (fun _ => 0) pcRegisters := by
  have heval : (match apicInitIrqs pcIoapics [timerIso, ⟨2, 20, 0⟩] 0 (heapStartAddr + 0x1002)
      (fun _ => 0) pcRegisters with
      | .ok r => (MadtIoapic.entry r.2 ⟨0xFEC00000, 0⟩ 20).getLsbD 16
      | .error _ => true) = false := by decide +kernel
  rintro ⟨m', s', hrun, hmasked⟩
  rw [hrun] at heval
  obtain ⟨ioapic, hmem, -, hbit⟩ := hmasked 2 (by decide)
  obtain rfl := List.mem_singleton.mp hmem
  have hpin : MadtIoapic.pin ⟨0xFEC00000, 0⟩ (effectiveGsi [timerIso, ⟨2, 20, 0⟩] 2) =
      20 := by
    decide
  have hclear : (MadtIoapic.entry s' ⟨0xFEC00000, 0⟩ 20).getLsbD 16 = false := heval
  rw [hpin, hclear] at hbit
  simp at hbit

end ApoptOS
