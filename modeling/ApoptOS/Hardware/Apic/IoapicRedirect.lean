import ApoptOS.Framework.BitFields
import ApoptOS.Hardware.Apic.Ioapic

namespace ApoptOS

open Framework

def ioapicPinpolBit : BitVec 64 := BitVec.twoPow 64 13
def ioapicTrigmodeBit : BitVec 64 := BitVec.twoPow 64 15
def ioapicMaskBit : BitVec 64 := BitVec.twoPow 64 16

/-- `IRQ_TO_IOREDTBL_REG`, in 32 bits. -/
def irqToIoredtblReg (irq : BitVec 32) : BitVec 32 := irq * 2#32 + 0x10#32

/-- The entry `ioapic_set_gsi_redirect` puts together. -/
def redirectEntry (lapicId : BitVec 32) (vector : BitVec 8) (flags : BitVec 16) (mask : Bool) :
    BitVec 64 :=
  let entry := vector.setWidth 64
  let entry := if flags &&& 2 ≠ 0 then entry ||| ioapicPinpolBit else entry
  let entry := if flags &&& 8 ≠ 0 then entry ||| ioapicTrigmodeBit else entry
  let entry := if mask then entry ||| ioapicMaskBit else entry &&& ~~~ioapicMaskBit
  entry ||| lapicId.setWidth 64 <<< 56

section Redirect

variable (madtIoapics : List MadtIoapic)

/-- The register number is cut to 8 bits when it is passed on. -/
def ioapicSetGsiRedirect (s : Ioapics) (lapicId : BitVec 32) (vector : BitVec 8) (gsi : BitVec 32)
    (flags : BitVec 16) (mask : Bool) : Except Halt Ioapics :=
  let entry := redirectEntry lapicId vector flags mask
  match ioapicIFromGsi madtIoapics s gsi with
  | .error e => .error e
  | .ok (ioapicI, s) =>
    let ioredtbl := irqToIoredtblReg (gsi - (madtIoapic madtIoapics ioapicI).gsiBase)
    let s := ioapicWriteReg madtIoapics s ioapicI (ioredtbl.setWidth 8) (entry.setWidth 32)
    .ok (ioapicWriteReg madtIoapics s ioapicI ((ioredtbl + 1#32).setWidth 8)
      ((entry >>> 32).setWidth 32))

def ioapicGetVectorFromGsi (s : Ioapics) (gsi : BitVec 32) : Except Halt (BitVec 8 × Ioapics) :=
  match ioapicIFromGsi madtIoapics s gsi with
  | .error e => .error e
  | .ok (ioapicI, s) =>
    let ioredtbl := irqToIoredtblReg (gsi - (madtIoapic madtIoapics ioapicI).gsiBase)
    let low := ioapicReadReg madtIoapics s ioapicI (ioredtbl.setWidth 8)
    let high := ioapicReadReg madtIoapics low.2 ioapicI ((ioredtbl + 1#32).setWidth 8)
    .ok ((joinWords low.1 high.1 &&& 0xFF).setWidth 8, high.2)

end Redirect

/-- `IOREDTBL` of a chip: input `pin` has the registers `0x10 + 2 * pin` and the one behind it. -/
def lowReg (pin : Nat) : BitVec 8 := BitVec.ofNat 8 (0x10 + 2 * pin)
def highReg (pin : Nat) : BitVec 8 := BitVec.ofNat 8 (0x10 + 2 * pin + 1)

def MadtIoapic.entry (s : Ioapics) (ioapic : MadtIoapic) (pin : Nat) : BitVec 64 :=
  joinWords (s.reg ioapic.window (lowReg pin)) (s.reg ioapic.window (highReg pin))

/-- The input of a chip that a GSI is. -/
def MadtIoapic.pin (ioapic : MadtIoapic) (gsi : BitVec 32) : Nat := gsi.toNat - ioapic.gsiBase.toNat

/-- Every IOAPIC has a register window of its own, and no more entries than its 8-bit selector
can reach. -/
structure SoundIoapics (madtIoapics : List MadtIoapic) (s : Ioapics) : Prop where
  windows : (madtIoapics.map MadtIoapic.ioapicAddress).Nodup
  fits : ∀ ioapic ∈ madtIoapics, ioapic.maxRedirect s ≤ 120

section Entry

variable {lapicId : BitVec 32} {vector : BitVec 8} {flags : BitVec 16} {mask : Bool}

/-- The two bits of the flags that matter. -/
theorem flags_polarity (flags : BitVec 16) : flags &&& 2 ≠ 0 ↔ flags.getLsbD 1 = true :=
  and_twoPow_ne_zero flags (show 1 < 16 by decide)

theorem flags_trigger (flags : BitVec 16) : flags &&& 8 ≠ 0 ↔ flags.getLsbD 3 = true :=
  and_twoPow_ne_zero flags (show 3 < 16 by decide)

/-- The entry, bit by bit. -/
theorem redirectEntry_bit {i : Nat} (hi : i < 64) :
    (redirectEntry lapicId vector flags mask).getLsbD i =
      (vector.getLsbD i || (flags.getLsbD 1 && decide (i = 13)) ||
        (flags.getLsbD 3 && decide (i = 15)) || (mask && decide (i = 16)) ||
        (decide (56 ≤ i) && lapicId.getLsbD (i - 56))) := by
  have hhigh : (!decide (i < 56)) = decide (56 ≤ i) := by
    rw [← decide_not, decide_eq_decide]
    exact Nat.not_lt
  simp only [redirectEntry, flags_polarity, flags_trigger, ioapicPinpolBit, ioapicTrigmodeBit,
    ioapicMaskBit]
  rw [BitVec.getLsbD_or, getLsbD_writeBit (by decide), getLsbD_orBit (by decide),
    getLsbD_orBit (by decide)]
  · simp only [BitVec.getLsbD_setWidth, BitVec.getLsbD_shiftLeft, hi, hhigh,
      show i - 56 < 64 by omega, decide_true, Bool.true_and]
  · -- the vector does not reach up to the mask bit
    rw [getLsbD_orBit (by decide), getLsbD_orBit (by decide), BitVec.getLsbD_setWidth,
      BitVec.getLsbD_of_ge vector 16 (by decide)]
    simp

end Entry

section Layout

variable {madtIoapics : List MadtIoapic} {s s' : Ioapics} {ioapic other : MadtIoapic}
  {gsi : BitVec 32} {pin pin' i j k : Nat}

theorem lowReg_toNat (h : pin < 120) : (lowReg pin).toNat = 0x10 + 2 * pin := by
  rw [lowReg, BitVec.toNat_ofNat]
  omega

theorem highReg_toNat (h : pin < 120) : (highReg pin).toNat = 0x10 + 2 * pin + 1 := by
  rw [highReg, BitVec.toNat_ofNat]
  omega

/-- `IRQ_TO_IOREDTBL_REG` and the register behind it, cut to 8 bits. -/
theorem irqToIoredtblReg_eq (h : ioapic.gsiBase.toNat ≤ gsi.toNat) :
    (irqToIoredtblReg (gsi - ioapic.gsiBase)).setWidth 8 = lowReg (ioapic.pin gsi) ∧
      (irqToIoredtblReg (gsi - ioapic.gsiBase) + 1#32).setWidth 8 = highReg (ioapic.pin gsi) := by
  have hbase := ioapic.gsiBase.isLt
  have hgsi := gsi.isLt
  constructor
  · apply BitVec.eq_of_toNat_eq
    simp only [irqToIoredtblReg, lowReg, MadtIoapic.pin, BitVec.toNat_setWidth, BitVec.toNat_add,
      BitVec.toNat_mul, BitVec.toNat_sub, BitVec.toNat_ofNat]
    omega
  · apply BitVec.eq_of_toNat_eq
    simp only [irqToIoredtblReg, highReg, MadtIoapic.pin, BitVec.toNat_setWidth, BitVec.toNat_add,
      BitVec.toNat_mul, BitVec.toNat_sub, BitVec.toNat_ofNat]
    omega

theorem window_inj (h : ioapic.window = other.window) :
    ioapic.ioapicAddress = other.ioapicAddress := by
  have ha := ioapic.ioapicAddress.isLt
  have hb := other.ioapicAddress.isLt
  apply BitVec.eq_of_toNat_eq
  unfold MadtIoapic.window physToHigherHalfData higherHalfData at h
  rw [add64_of_lt (by omega), add64_of_lt (by omega)] at h
  omega

theorem SoundIoapics.window_ne (h : SoundIoapics madtIoapics s) (hi : madtIoapics[i]? = some ioapic)
    (hj : madtIoapics[j]? = some other) (hij : i ≠ j) : ioapic.window ≠ other.window := by
  intro hwindow
  have hlen : i < (madtIoapics.map MadtIoapic.ioapicAddress).length := by
    rw [List.length_map]
    exact (List.getElem?_eq_some_iff.mp hi).1
  refine hij ((List.getElem?_inj hlen h.windows).mp ?_)
  rw [List.getElem?_map, List.getElem?_map, hi, hj, Option.map_some, Option.map_some,
    window_inj hwindow]

theorem SoundIoapics.pin_le (h : SoundIoapics madtIoapics s) (hmem : ioapic ∈ madtIoapics)
    (hrange : ioapic.InRange s gsi.toNat) : ioapic.pin gsi ≤ 120 := by
  have hfits := h.fits ioapic hmem
  have hle := hrange.2
  unfold MadtIoapic.pin
  omega

theorem SoundIoapics.pin_lt (h : SoundIoapics madtIoapics s) (hmem : ioapic ∈ madtIoapics)
    (hres : ioapic.Resolves s gsi) : ioapic.pin gsi < 120 := by
  have hfits := h.fits ioapic hmem
  have hlt := hres.2.1
  unfold MadtIoapic.pin
  omega

/-- Writes to other registers leave an entry as it is. -/
theorem entry_congr (hlow : s'.reg ioapic.window (lowReg pin) = s.reg ioapic.window (lowReg pin))
    (hhigh : s'.reg ioapic.window (highReg pin) = s.reg ioapic.window (highReg pin)) :
    ioapic.entry s' pin = ioapic.entry s pin := by
  rw [MadtIoapic.entry, hlow, hhigh, MadtIoapic.entry]

end Layout

section Set

variable {madtIoapics : List MadtIoapic} {s s' : Ioapics} {ioapic other : MadtIoapic}
  {gsi : BitVec 32} {i j k : Nat} {lapicId : BitVec 32} {vector : BitVec 8} {flags : BitVec 16}
  {mask : Bool}

theorem ioapicWriteReg_reg (madtIoapics : List MadtIoapic) (s : Ioapics) (i : Nat)
    (reg : BitVec 8) (data : BitVec 32) (a : Nat) (r : BitVec 8) :
    (ioapicWriteReg madtIoapics s i reg data).reg a r =
      if a = (madtIoapic madtIoapics i).window ∧ r = reg then data else s.reg a r :=
  WindowBank.setData_select

/-- What writing an entry does to the registers: those of the entry hold it, the others stay. -/
structure EntryWritten (s s' : Ioapics) (ioapic : MadtIoapic) (pin : Nat) (entry : BitVec 64) :
    Prop where
  written : ioapic.entry s' pin = entry
  kept : ∀ a r, ¬ (a = ioapic.window ∧ (r = lowReg pin ∨ r = highReg pin)) →
    s'.reg a r = s.reg a r

theorem ioapicSetGsiRedirect_spec (hsound : SoundIoapics madtIoapics s)
    (hfirst : FirstIoapic madtIoapics s gsi k) (hk : madtIoapics[k]? = some ioapic)
    (lapicId : BitVec 32) (vector : BitVec 8) (flags : BitVec 16) (mask : Bool) :
    ∃ s', ioapicSetGsiRedirect madtIoapics s lapicId vector gsi flags mask = .ok s' ∧
      EntryWritten s s' ioapic (ioapic.pin gsi) (redirectEntry lapicId vector flags mask) := by
  obtain ⟨s1, hrun, hsame⟩ := hfirst.found
  obtain ⟨found, hfound, hres, -⟩ := hfirst
  rw [hk] at hfound
  obtain rfl := Option.some.inj hfound
  have hpin := hsound.pin_lt (List.mem_of_getElem? hk) hres
  obtain ⟨hlow, hhigh⟩ := irqToIoredtblReg_eq hres.1
  have hne : lowReg (ioapic.pin gsi) ≠ highReg (ioapic.pin gsi) := by
    intro heq
    have hnat := congrArg BitVec.toNat heq
    rw [lowReg_toNat hpin, highReg_toNat hpin] at hnat
    omega
  let entry := redirectEntry lapicId vector flags mask
  refine ⟨ioapicWriteReg madtIoapics (ioapicWriteReg madtIoapics s1 k (lowReg (ioapic.pin gsi))
    (entry.setWidth 32)) k (highReg (ioapic.pin gsi)) ((entry >>> 32).setWidth 32), ?_, ?_, ?_⟩
  · simp only [ioapicSetGsiRedirect, hrun, madtIoapic_eq hk, hlow, hhigh, entry]
  · rw [MadtIoapic.entry, ioapicWriteReg_reg, ioapicWriteReg_reg, ioapicWriteReg_reg,
      madtIoapic_eq hk, if_neg (fun h => hne h.2), if_pos ⟨rfl, rfl⟩, if_pos ⟨rfl, rfl⟩]
    exact joinWords_split _
  · intro a r hr
    rw [ioapicWriteReg_reg, ioapicWriteReg_reg, madtIoapic_eq hk,
      if_neg (fun h => hr ⟨h.1, Or.inr h.2⟩), if_neg (fun h => hr ⟨h.1, Or.inl h.2⟩)]
    exact hsame a r

namespace EntryWritten

variable {entry : BitVec 64} {pin pin' : Nat}

/-- The registers below `IOREDTBL`. -/
theorem low_kept (h : EntryWritten s s' ioapic pin entry) (hpin : pin < 120) (a : Nat)
    {r : BitVec 8} (hr : r.toNat < 0x10) : s'.reg a r = s.reg a r := by
  apply h.kept
  rintro ⟨-, rfl | rfl⟩
  · rw [lowReg_toNat hpin] at hr
    omega
  · rw [highReg_toNat hpin] at hr
    omega

theorem maxRedirect_eq (h : EntryWritten s s' ioapic pin entry) (hpin : pin < 120)
    (other : MadtIoapic) : other.maxRedirect s' = other.maxRedirect s := by
  rw [MadtIoapic.maxRedirect, h.low_kept hpin _ (by decide), MadtIoapic.maxRedirect]

theorem sound (h : EntryWritten s s' ioapic pin entry) (hpin : pin < 120)
    (hsound : SoundIoapics madtIoapics s) : SoundIoapics madtIoapics s' := by
  refine ⟨hsound.windows, fun other hother => ?_⟩
  rw [h.maxRedirect_eq hpin]
  exact hsound.fits other hother

/-- The entries of other windows and of other inputs. -/
theorem entry_kept (h : EntryWritten s s' ioapic pin entry) (hpin : pin < 120)
    (hpin' : pin' ≤ 120) (hother : other.window ≠ ioapic.window ∨ pin' ≠ pin) :
    other.entry s' pin' = other.entry s pin' := by
  have hlow := lowReg_toNat hpin
  have hhigh := highReg_toNat hpin
  have hlow' : (lowReg pin').toNat = (0x10 + 2 * pin') % 2 ^ 8 := BitVec.toNat_ofNat _ _
  have hhigh' : (highReg pin').toNat = (0x10 + 2 * pin' + 1) % 2 ^ 8 := BitVec.toNat_ofNat _ _
  apply entry_congr
  · apply h.kept
    rintro ⟨hwindow, heq | heq⟩
    · rw [heq] at hlow'
      omega
    · rw [heq] at hlow'
      omega
  · apply h.kept
    rintro ⟨hwindow, heq | heq⟩
    · rw [heq] at hhigh'
      omega
    · rw [heq] at hhigh'
      omega

end EntryWritten

theorem setWidth_and_byte (x : BitVec 64) : (x &&& 0xFF).setWidth 8 = x.setWidth 8 := by
  apply BitVec.eq_of_getLsbD_eq
  intro i hi
  have hbyte : ∀ i < 8, (0xFF : BitVec 64).getLsbD i = true := by decide
  rw [BitVec.getLsbD_setWidth, BitVec.getLsbD_setWidth, BitVec.getLsbD_and, hbyte i hi,
    Bool.and_true]

theorem ioapicGetVectorFromGsi_spec (hfirst : FirstIoapic madtIoapics s gsi k)
    (hk : madtIoapics[k]? = some ioapic) :
    ∃ s', ioapicGetVectorFromGsi madtIoapics s gsi =
      .ok ((ioapic.entry s (ioapic.pin gsi)).setWidth 8, s') := by
  obtain ⟨s1, hrun, hsame⟩ := hfirst.found
  obtain ⟨found, hfound, hres, -⟩ := hfirst
  rw [hk] at hfound
  obtain rfl := Option.some.inj hfound
  obtain ⟨hlow, hhigh⟩ := irqToIoredtblReg_eq hres.1
  obtain ⟨hread, hsame1⟩ := ioapicReadReg_spec madtIoapics s1 k (lowReg (ioapic.pin gsi))
  obtain ⟨hread', -⟩ := ioapicReadReg_spec madtIoapics
    (ioapicReadReg madtIoapics s1 k (lowReg (ioapic.pin gsi))).2 k (highReg (ioapic.pin gsi))
  rw [madtIoapic_eq hk, hsame] at hread
  rw [madtIoapic_eq hk, hsame1, hsame] at hread'
  refine ⟨(ioapicReadReg madtIoapics (ioapicReadReg madtIoapics s1 k
    (lowReg (ioapic.pin gsi))).2 k (highReg (ioapic.pin gsi))).2, ?_⟩
  simp only [ioapicGetVectorFromGsi, hrun, madtIoapic_eq hk, hlow, hhigh, hread, hread',
    setWidth_and_byte, MadtIoapic.entry]

end Set

/-- What the bits of an entry say. -/
structure EntryFields (entry : BitVec 64) (lapicId : BitVec 32) (vector : BitVec 8)
    (flags : BitVec 16) (mask : Bool) : Prop where
  vector : entry.setWidth 8 = vector
  polarity : entry.getLsbD 13 = true ↔ flags &&& 2 ≠ 0
  trigger : entry.getLsbD 15 = true ↔ flags &&& 8 ≠ 0
  mask : entry.getLsbD 16 = mask
  destination : (entry >>> 56).toNat = lapicId.toNat % 256

theorem redirectEntry_fields (lapicId : BitVec 32) (vector : BitVec 8) (flags : BitVec 16)
    (mask : Bool) :
    EntryFields (redirectEntry lapicId vector flags mask) lapicId vector flags mask := by
  have hvector (i : Nat) (h8 : 8 ≤ i) : vector.getLsbD i = false :=
    BitVec.getLsbD_of_ge vector i h8
  refine ⟨?_, ?_, ?_, ?_, ?_⟩
  · apply BitVec.eq_of_getLsbD_eq
    intro i hi
    rw [BitVec.getLsbD_setWidth, redirectEntry_bit (by omega)]
    simp [hi, show i ≠ 13 by omega, show i ≠ 15 by omega, show i ≠ 16 by omega,
      show ¬ 56 ≤ i by omega]
  · rw [redirectEntry_bit (by decide), hvector 13 (by decide), flags_polarity]
    simp
  · rw [redirectEntry_bit (by decide), hvector 15 (by decide), flags_trigger]
    simp
  · rw [redirectEntry_bit (by decide), hvector 16 (by decide)]
    simp
  · have hhigh : redirectEntry lapicId vector flags mask >>> 56 =
        (lapicId.setWidth 8).setWidth 64 := by
      apply BitVec.eq_of_getLsbD_eq
      intro i hi
      rw [BitVec.getLsbD_ushiftRight, BitVec.getLsbD_setWidth, BitVec.getLsbD_setWidth]
      by_cases h8 : i < 8
      · rw [redirectEntry_bit (by omega), hvector (56 + i) (by omega)]
        simp [hi, h8, show 56 + i ≠ 13 by omega, show 56 + i ≠ 15 by omega,
          show 56 + i ≠ 16 by omega]
      · rw [BitVec.getLsbD_of_ge _ _ (by omega)]
        simp [h8]
    rw [hhigh, BitVec.toNat_setWidth, BitVec.toNat_setWidth]
    exact Nat.mod_eq_of_lt (by omega)

/-- For every list of IOAPICs, every GSI that `ioapic_i_from_gsi` resolves and all arguments: the
vector reads back, the entry says what was asked for, and no other entry and no register outside
`IOREDTBL` changes. -/
theorem gsi_redirect_reads_back (madtIoapics : List MadtIoapic) (s : Ioapics)
    (hsound : SoundIoapics madtIoapics s) (gsi : BitVec 32) (k : Nat) (s0 : Ioapics)
    (hgsi : ioapicIFromGsi madtIoapics s gsi = .ok (k, s0)) (lapicId : BitVec 32)
    (vector : BitVec 8) (flags : BitVec 16) (mask : Bool) :
    ∃ s' ioapic, ioapicSetGsiRedirect madtIoapics s lapicId vector gsi flags mask = .ok s' ∧
      madtIoapics[k]? = some ioapic ∧
      (∃ s'', ioapicGetVectorFromGsi madtIoapics s' gsi = .ok (vector, s'')) ∧
      EntryFields (ioapic.entry s' (ioapic.pin gsi)) lapicId vector flags mask ∧
      (∀ (j : Nat) (other : MadtIoapic) (pin : Nat), madtIoapics[j]? = some other →
        pin < 120 →
        j ≠ k ∨ pin ≠ ioapic.pin gsi → other.entry s' pin = other.entry s pin) ∧
      ∀ other ∈ madtIoapics, ∀ reg : BitVec 8, reg.toNat < 0x10 →
        s'.reg other.window reg = s.reg other.window reg := by
  obtain ⟨hfirst, -⟩ := firstIoapic_of_ok hgsi
  obtain ⟨ioapic, hk, hres, -⟩ := id hfirst
  have hpin := hsound.pin_lt (List.mem_of_getElem? hk) hres
  obtain ⟨s', hset, hwritten⟩ :=
    ioapicSetGsiRedirect_spec hsound hfirst hk lapicId vector flags mask
  have hfields := redirectEntry_fields lapicId vector flags mask
  rw [← hwritten.written] at hfields
  refine ⟨s', ioapic, hset, hk, ?_, hfields, ?_, fun other _ reg hreg =>
    hwritten.low_kept hpin _ hreg⟩
  · have hagain := hfirst.congr (fun other _ => hwritten.maxRedirect_eq hpin other)
    obtain ⟨s'', hget⟩ := ioapicGetVectorFromGsi_spec hagain hk
    rw [hfields.vector] at hget
    exact ⟨s'', hget⟩
  · intro j other pin hj hlt hother
    apply hwritten.entry_kept hpin (Nat.le_of_lt hlt)
    rcases hother with hjk | hne
    · exact Or.inl (hsound.window_ne hj hk hjk)
    · exact Or.inr hne

theorem pcIoapics_sound : SoundIoapics pcIoapics pcRegisters := by
  refine ⟨List.nodup_singleton _, fun ioapic hmem => ?_⟩
  obtain rfl := List.mem_singleton.mp hmem
  decide

theorem pcIoapics_timer : FirstIoapic pcIoapics pcRegisters 2 0 :=
  ⟨_, rfl, by decide, fun j hj => absurd hj (Nat.not_lt_zero j)⟩

/-- Vector 32 for input 2 of the IOAPIC of a PC. -/
theorem gsi_redirect_reads_back_timer : ∃ s' ioapic,
    ioapicSetGsiRedirect pcIoapics pcRegisters 0 32 2 0 true = .ok s' ∧
      pcIoapics[0]? = some ioapic ∧
      (∃ s'', ioapicGetVectorFromGsi pcIoapics s' 2 = .ok (32, s'')) ∧
      EntryFields (ioapic.entry s' 2) 0 32 0 true := by
  obtain ⟨s0, hs0, -⟩ := pcIoapics_timer.found
  obtain ⟨s', ioapic, hset, hk, hget, hfields, -, -⟩ :=
    gsi_redirect_reads_back pcIoapics pcRegisters
    pcIoapics_sound 2 0 s0 hs0 0 32 0 true
  refine ⟨s', ioapic, hset, hk, hget, ?_⟩
  obtain rfl := Option.some.inj hk
  exact hfields

end ApoptOS
