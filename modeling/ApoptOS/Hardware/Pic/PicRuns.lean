import ApoptOS.Framework.BitFields
import ApoptOS.Hardware.Pic.Pic

namespace ApoptOS.Pic

open Framework

/-- The vectors, the cascade and the mode that `pic_remap` sets. -/
structure Configured (s : Pair) : Prop where
  ready1 : s.pic1.init = .ready
  ready2 : s.pic2.init = .ready
  mode1 : s.pic1.icw4 = icw48086
  mode2 : s.pic2.icw4 = icw48086
  base1 : s.pic1.vectorBase = 0x20
  base2 : s.pic2.vectorBase = 0x28
  cascade1 : s.pic1.icw3 = 0x04
  cascade2 : s.pic2.icw3 = 0x02

def Pair.masked (s : Pair) (n : Nat) : Bool :=
  if n < 8 then s.pic1.imr.getLsbD n else s.pic2.imr.getLsbD (n - 8)

def Pair.requested (s : Pair) (n : Nat) : Bool :=
  if n < 8 then s.pic1.irr.getLsbD n else s.pic2.irr.getLsbD (n - 8)

/-- The line of the first controller that a line comes in at. -/
def level (n : Nat) : Nat := if n < 8 then n else 2

/-- The lines in the order of their priorities: 0, 1, 8 to 15, 3 to 7. -/
def rank (n : Nat) : Nat := if n < 2 then n else if n < 8 then n + 7 else n - 6

/-- A line that the controllers may serve while the handlers are running. -/
structure Eligible (t : PicSystem) (n : Nat) : Prop where
  line : n < 16
  device : n ≠ 2
  requested : t.pair.requested n = true
  unmasked : t.pair.masked n = false
  cascade : 8 ≤ n → t.pair.masked 2 = false
  prior : ∀ m ∈ t.handlers, level n < level m

/-- The interrupts in service are those whose handlers are running, each of a higher priority than
the one it interrupted. -/
structure InService (t : PicSystem) : Prop where
  lines : ∀ n ∈ t.handlers, n < 16 ∧ n ≠ 2
  nested : t.handlers.Pairwise (fun n m => level n < level m)
  isr1 : ∀ i, t.pair.pic1.isr.getLsbD i = true ↔ ∃ n ∈ t.handlers, level n = i
  isr2 : ∀ j, t.pair.pic2.isr.getLsbD j = true ↔ 8 + j ∈ t.handlers

section Remap

/-- Whatever state the controllers are in, also in the middle of an initialisation. -/
theorem picRemap_eq (s : Pair) : picRemap s =
    ⟨⟨0, 0, s.pic1.imr, .ready, false, true, 0x20, 0x04, 0x01⟩,
      ⟨0, 0, s.pic2.imr, .ready, false, true, 0x28, 0x02, 0x01⟩⟩ := rfl

theorem picRemap_configured (s : Pair) : Configured (picRemap s) := by
  rw [picRemap_eq]
  constructor <;> rfl

theorem picRemap_inService (s : Pair) : InService ⟨picRemap s, []⟩ := by
  rw [picRemap_eq]
  constructor <;> simp

theorem picRemap_masked (s : Pair) (n : Nat) : (picRemap s).masked n = s.masked n := rfl

end Remap

section Registers

variable {c : Controller} {i : Nat} {irr value : BitVec 8}

/-- A request that nothing stands in the way of. -/
def Controller.CanServe (c : Controller) (irr : BitVec 8) (i : Nat) : Prop :=
  irr.getLsbD i = true ∧ c.imr.getLsbD i = false ∧ ∀ j ≤ i, c.isr.getLsbD j = false

theorem canServe_iff : (irr.getLsbD i && !c.imr.getLsbD i &&
    (List.range (i + 1)).all (fun j => !c.isr.getLsbD j)) = true ↔ c.CanServe irr i := by
  simp [Controller.CanServe, and_assoc]

theorem next_some : c.next irr = some i ↔
    i < 8 ∧ c.CanServe irr i ∧ ∀ k < i, ¬ c.CanServe irr k := by
  rw [Controller.next, List.find?_range_eq_some, canServe_iff, List.mem_range]
  simp only [Bool.not_eq_true', ← Bool.not_eq_true, canServe_iff]
  exact and_left_comm

theorem next_none : c.next irr = none ↔ ∀ i < 8, ¬ c.CanServe irr i := by
  rw [Controller.next, List.find?_range_eq_none]
  simp only [Bool.not_eq_true', ← Bool.not_eq_true, canServe_iff]

theorem next_isSome (hi : i < 8) (h : c.CanServe irr i) : (c.next irr).isSome = true := by
  cases hnext : c.next irr with
  | none => exact absurd h (next_none.mp hnext i hi)
  | some k => rfl

/-- The end of an interrupt clears the lowest bit in service. -/
theorem eoi_lowest (h : c.isr.getLsbD i = true) (hlow : ∀ k < i, c.isr.getLsbD k = false)
    (hi : i < 8) : c.eoi = { c with isr := c.isr &&& ~~~BitVec.twoPow 8 i } := by
  have hfind : (List.range 8).find? (fun k => c.isr.getLsbD k) = some i := by
    rw [List.find?_range_eq_some]
    exact ⟨h, List.mem_range.mpr hi, fun k hk => by simp [hlow k hk]⟩
  simp only [Controller.eoi, hfind]

/-- The command of `pic_signal_eoi`. -/
theorem writeCommand_eoi : c.writeCommand 0x20 = c.eoi := by
  simp [Controller.writeCommand]

/-- A ready controller takes a byte at its data port for a mask. -/
theorem writeData_ready (h : c.init = .ready) : c.writeData value = { c with imr := value } := by
  simp only [Controller.writeData, h]

end Registers

section Calls

variable {s : Pair} {n m : Nat}

theorem outb_pic1Data (value : BitVec 8) :
    asmIoOutb pic1Data value s = { s with pic1 := s.pic1.writeData value } := rfl

theorem outb_pic2Data (value : BitVec 8) :
    asmIoOutb pic2Data value s = { s with pic2 := s.pic2.writeData value } := rfl

theorem outb_eoi1 : asmIoOutb pic1Command 0x20 s = { s with pic1 := s.pic1.eoi } := by
  rw [← writeCommand_eoi]
  rfl

theorem outb_eoi2 : asmIoOutb pic2Command 0x20 s = { s with pic2 := s.pic2.eoi } := by
  rw [← writeCommand_eoi]
  rfl

theorem picDisable_eq (h : Configured s) : picDisable s =
    ⟨{ s.pic1 with imr := 0xFF }, { s.pic2 with imr := 0xFF }⟩ := by
  simp only [picDisable, outb_pic1Data, outb_pic2Data, writeData_ready h.ready1,
    writeData_ready h.ready2]

/-- The bit of a line goes through an `int`. -/
theorem picChangeMask_eq (change : BitVec 32 → BitVec 32 → BitVec 32) (hn : n < 16)
    (h : Configured s) : picChangeMask change (BitVec.ofNat 8 n) s =
      if n < 8 then { s with pic1 := { s.pic1 with imr :=
        (change (s.pic1.imr.setWidth 32) (1#32 <<< n)).setWidth 8 } }
      else { s with pic2 := { s.pic2 with imr :=
        (change (s.pic2.imr.setWidth 32) (1#32 <<< (n - 8))).setWidth 8 } } := by
  have hmod : n % 2 ^ 8 = n := by omega
  have hlt : BitVec.ofNat 8 n < 8 ↔ n < 8 := by
    rw [BitVec.lt_def, BitVec.toNat_ofNat, hmod]
    rfl
  by_cases hn8 : n < 8
  · have hline := hlt.mpr hn8
    simp only [picChangeMask, if_pos hline, if_pos hn8, outb_pic1Data, writeData_ready h.ready1,
      BitVec.toNat_ofNat, hmod]
    rfl
  · have hline : ¬ BitVec.ofNat 8 n < 8 := fun hc => hn8 (hlt.mp hc)
    have hsub : (BitVec.ofNat 8 n - 8).toNat = n - 8 := by
      have h8 : (8 : BitVec 8).toNat = 8 := rfl
      simp only [BitVec.toNat_sub, BitVec.toNat_ofNat, h8]
      omega
    simp only [picChangeMask, if_neg hline, if_neg hn8, outb_pic2Data, writeData_ready h.ready2,
      hsub]
    rfl

/-- What is left of the change in the byte. -/
theorem setMask_byte (imr : BitVec 8) {k i : Nat} (hk : k < 8) :
    ((imr.setWidth 32 ||| 1#32 <<< k).setWidth 8).getLsbD i =
    (imr.getLsbD i || decide (i = k)) := by
  rw [← BitVec.twoPow_eq]
  simp only [BitVec.getLsbD_setWidth, getLsbD_setBit (by omega : k < 32)]
  by_cases hi : i < 8
  · have hi32 : i < 32 := by omega
    simp [hi, hi32]
  · have hne : i ≠ k := by omega
    simp [BitVec.getLsbD_of_ge imr i (by omega), hi, hne]

theorem clearMask_byte (imr : BitVec 8) {k i : Nat} :
    ((imr.setWidth 32 &&& ~~~(1#32 <<< k)).setWidth 8).getLsbD i =
      (imr.getLsbD i && decide (i ≠ k)) := by
  rw [← BitVec.twoPow_eq]
  simp only [BitVec.getLsbD_setWidth, getLsbD_clearBit]
  by_cases hi : i < 8
  · have hi32 : i < 32 := by omega
    simp [hi, hi32]
  · simp [BitVec.getLsbD_of_ge imr i (by omega), hi]

end Calls

section Order

variable {t : PicSystem} {s' : Pair} {i j n : Nat}

theorem requests_bit (hi : i ≠ 2) : t.pair.requests.getLsbD i = t.pair.pic1.irr.getLsbD i := by
  unfold Pair.requests
  split_ifs with hsome
  · rw [getLsbD_setBit (by decide)]
    simp [hi]
  · rw [getLsbD_clearBit]
    simp [hi]

theorem requests_cascade :
    t.pair.requests.getLsbD 2 = (t.pair.pic2.next t.pair.pic2.irr).isSome := by
  unfold Pair.requests
  split_ifs with hsome
  · rw [getLsbD_setBit (by decide), hsome]
    simp
  · rw [getLsbD_clearBit]
    simp [hsome]

namespace InService

/-- Nothing stands in the way of a line of the first controller that comes before all handlers. -/
theorem free1 (h : InService t) (i : Nat) :
    (∀ j ≤ i, t.pair.pic1.isr.getLsbD j = false) ↔ ∀ m ∈ t.handlers, i < level m := by
  constructor
  · intro hfree m hm
    by_contra hle
    have hbit := (h.isr1 (level m)).mpr ⟨m, hm, rfl⟩
    rw [hfree (level m) (by omega)] at hbit
    simp at hbit
  · intro hprior j hj
    by_contra hbit
    obtain ⟨m, hm, hlevel⟩ := (h.isr1 j).mp (by simpa using hbit)
    have hlt := hprior m hm
    omega

/-- Then the second controller has nothing in service. -/
theorem free2 (h : InService t) (hprior : ∀ m ∈ t.handlers, 2 < level m) (j : Nat) :
    t.pair.pic2.isr.getLsbD j = false := by
  by_contra hbit
  have hlt := hprior (8 + j) ((h.isr2 j).mp (by simpa using hbit))
  unfold level at hlt
  split_ifs at hlt
  · omega
  · omega

theorem eligible_low (h : InService t) (hn : n < 8) :
    Eligible t n ↔ n ≠ 2 ∧ t.pair.pic1.CanServe t.pair.requests n := by
  have hlevel : level n = n := if_pos hn
  have hreq : t.pair.requested n = t.pair.pic1.irr.getLsbD n := if_pos hn
  have hmask : t.pair.masked n = t.pair.pic1.imr.getLsbD n := if_pos hn
  constructor
  · intro he
    refine ⟨he.device, ?_, ?_, (h.free1 n).mpr (hlevel ▸ he.prior)⟩
    · rw [requests_bit he.device, ← hreq]
      exact he.requested
    · rw [← hmask]
      exact he.unmasked
  · rintro ⟨hdevice, hirr, himr, hisr⟩
    rw [requests_bit hdevice] at hirr
    exact ⟨by omega, hdevice, hreq.trans hirr, hmask.trans himr, fun h8 => absurd h8 (by omega),
      hlevel.symm ▸ (h.free1 n).mp hisr⟩

theorem eligible_high (h : InService t) (hn : 8 ≤ n) : Eligible t n ↔
    n < 16 ∧ t.pair.pic2.CanServe t.pair.pic2.irr (n - 8) ∧
      t.pair.pic1.imr.getLsbD 2 = false ∧ ∀ m ∈ t.handlers, 2 < level m := by
  have hlevel : level n = 2 := if_neg (by omega)
  have hreq : t.pair.requested n = t.pair.pic2.irr.getLsbD (n - 8) := if_neg (by omega)
  have hmask : t.pair.masked n = t.pair.pic2.imr.getLsbD (n - 8) := if_neg (by omega)
  constructor
  · intro he
    have hprior : ∀ m ∈ t.handlers, 2 < level m := hlevel ▸ he.prior
    exact ⟨he.line,
      ⟨hreq ▸ he.requested, hmask ▸ he.unmasked, fun j _ => h.free2 hprior j⟩,
      he.cascade hn, hprior⟩
  · rintro ⟨hline, ⟨hirr, himr, -⟩, hcascade, hprior⟩
    exact ⟨hline, by omega, hreq.trans hirr, hmask.trans himr, fun _ => hcascade,
      hlevel.symm ▸ hprior⟩

/-- A line of the second controller needs line 2 of the first. -/
theorem canServe_cascade (h : InService t) (hn : 8 ≤ n) (he : Eligible t n) :
    t.pair.pic1.CanServe t.pair.requests 2 := by
  obtain ⟨hline, hserve, hcascade, hprior⟩ := (h.eligible_high hn).mp he
  refine ⟨?_, hcascade, (h.free1 2).mpr hprior⟩
  rw [requests_cascade]
  exact next_isSome (by omega) hserve

/-- A handler on top of the others. -/
theorem push (h : InService t) (he : Eligible t n)
    (h1 : ∀ i, s'.pic1.isr.getLsbD i = (t.pair.pic1.isr.getLsbD i || decide (i = level n)))
    (h2 : ∀ j, s'.pic2.isr.getLsbD j = (t.pair.pic2.isr.getLsbD j || decide (8 + j = n))) :
    InService ⟨s', n :: t.handlers⟩ := by
  refine ⟨?_, List.pairwise_cons.mpr ⟨he.prior, h.nested⟩, fun i => ?_, fun j => ?_⟩
  · simpa using ⟨⟨he.line, he.device⟩, h.lines⟩
  · rw [h1 i, Bool.or_eq_true, h.isr1 i, decide_eq_true_eq]
    simp only [List.mem_cons, exists_eq_or_imp, eq_comm (a := i)]
    exact or_comm
  · rw [h2 j, Bool.or_eq_true, h.isr2 j, decide_eq_true_eq]
    rw [List.mem_cons]
    exact or_comm

/-- The innermost handler alone is at its level, and so its bits are the lowest ones. -/
theorem top_lowest (h : InService t) {handlers : List Nat} (ht : t.handlers = n :: handlers) :
    (∀ m ∈ handlers, level n < level m) ∧ t.pair.pic1.isr.getLsbD (level n) = true ∧
      (∀ k < level n, t.pair.pic1.isr.getLsbD k = false) ∧
      (8 ≤ n → t.pair.pic2.isr.getLsbD (n - 8) = true ∧
        ∀ k < n - 8, t.pair.pic2.isr.getLsbD k = false) := by
  have hnested := h.nested
  rw [ht] at hnested
  have hinner := (List.pairwise_cons.mp hnested).1
  have hmem : n ∈ t.handlers := by rw [ht]; exact List.mem_cons_self
  refine ⟨hinner, (h.isr1 _).mpr ⟨n, hmem, rfl⟩, fun k hk => ?_,
    fun h8 => ⟨?_, fun k hk => ?_⟩⟩
  · by_contra hbit
    obtain ⟨m, hm, hlevel⟩ := (h.isr1 k).mp (by simpa using hbit)
    rw [ht] at hm
    rcases List.mem_cons.mp hm with rfl | hm
    · omega
    · have hlt := hinner m hm
      omega
  · rw [h.isr2]
    have hline : 8 + (n - 8) = n := by omega
    rwa [hline]
  · by_contra hbit
    have hm := (h.isr2 k).mp (by simpa using hbit)
    rw [ht] at hm
    rcases List.mem_cons.mp hm with hkn | hm
    · omega
    · have hlt := hinner _ hm
      have hn2 : level n = 2 := if_neg (by omega)
      have hk2 : level (8 + k) = 2 := if_neg (by omega)
      omega

/-- `pic_signal_eoi` with the interrupt number of the innermost handler ends that one alone. -/
theorem pop (h : InService t) {handlers : List Nat} (ht : t.handlers = n :: handlers) :
    InService ⟨picSignalEoi (0x20 + n) t.pair, handlers⟩ := by
  obtain ⟨hinner, hbit1, hlow1, hslave⟩ := h.top_lowest ht
  obtain ⟨hline, hdevice⟩ := h.lines n (by rw [ht]; exact List.mem_cons_self)
  have hlevel : level n < 8 := by
    unfold level
    split_ifs with h8
    · exact h8
    · decide
  have hnested := h.nested
  rw [ht] at hnested
  have hlines : ∀ m ∈ handlers, m < 16 ∧ m ≠ 2 := fun m hm =>
    h.lines m (by rw [ht]; exact List.mem_cons_of_mem n hm)
  have hisr1 : ∀ i, (t.pair.pic1.isr &&& ~~~BitVec.twoPow 8 (level n)).getLsbD i = true ↔
      ∃ m ∈ handlers, level m = i := by
    intro i
    rw [getLsbD_clearBit, Bool.and_eq_true, h.isr1 i, decide_eq_true_eq, ht]
    simp only [List.mem_cons, exists_eq_or_imp]
    constructor
    · rintro ⟨hni | hm, hne⟩
      · exact absurd hni.symm hne
      · exact hm
    · rintro ⟨m, hm, rfl⟩
      exact ⟨Or.inr ⟨m, hm, rfl⟩, ne_of_gt (hinner m hm)⟩
  by_cases h8 : 8 ≤ n
  · obtain ⟨hbit2, hlow2⟩ := hslave h8
    have hif : 40 ≤ 0x20 + n := by omega
    simp only [picSignalEoi, if_pos hif, outb_eoi1, outb_eoi2, eoi_lowest hbit1 hlow1 hlevel,
      eoi_lowest hbit2 hlow2 (by omega)]
    refine ⟨hlines, (List.pairwise_cons.mp hnested).2, hisr1, fun j => ?_⟩
    rw [getLsbD_clearBit, Bool.and_eq_true, h.isr2 j, decide_eq_true_eq, ht, List.mem_cons]
    constructor
    · rintro ⟨hjn | hm, hne⟩
      · omega
      · exact hm
    · intro hm
      refine ⟨Or.inr hm, fun hj => ?_⟩
      have hlt := hinner _ hm
      have hjn : 8 + j = n := by omega
      rw [hjn] at hlt
      exact lt_irrefl _ hlt
  · have hif : ¬ 40 ≤ 0x20 + n := by omega
    simp only [picSignalEoi, if_neg hif, outb_eoi1, eoi_lowest hbit1 hlow1 hlevel]
    refine ⟨hlines, (List.pairwise_cons.mp hnested).2, hisr1, fun j => ?_⟩
    rw [h.isr2 j, ht, List.mem_cons]
    have hjn : 8 + j ≠ n := by omega
    simp [hjn]

end InService

/-- What an acknowledged interrupt is: the first in rank of the lines that may be served. -/
structure Served (t : PicSystem) (n : Nat) (s' : Pair) : Prop where
  vector : ack t.pair = some (BitVec.ofNat 8 (0x20 + n), s')
  eligible : Eligible t n
  first : ∀ m, Eligible t m → rank n ≤ rank m

/-- An interrupt is served at the second controller. -/
theorem ack_high (hc : Configured t.pair) (h : InService t)
    (hnext : t.pair.pic1.next t.pair.requests = some 2) :
    ∃ n s', Served t n s' ∧ t.exec .ack = some ⟨s', n :: t.handlers⟩ ∧
      InService ⟨s', n :: t.handlers⟩ := by
  obtain ⟨-, ⟨hirr, himr, hisr⟩, hfirst⟩ := next_some.mp hnext
  rw [requests_cascade] at hirr
  obtain ⟨j, hj⟩ := Option.isSome_iff_exists.mp hirr
  obtain ⟨hj8, hserve, hfirst2⟩ := next_some.mp hj
  have hprior := (h.free1 2).mp hisr
  have he : Eligible t (8 + j) :=
    (h.eligible_high (by omega)).mpr ⟨by omega, by simpa using hserve, himr, hprior⟩
  have hcascade : t.pair.pic1.icw3.getLsbD 2 = true := by rw [hc.cascade1]; decide
  have hid : t.pair.pic2.icw3 = BitVec.ofNat 8 2 := hc.cascade2
  have hvector : (0x28 : BitVec 8) + BitVec.ofNat 8 j = BitVec.ofNat 8 (0x20 + (8 + j)) := by
    apply BitVec.eq_of_toNat_eq
    have h28 : (0x28 : BitVec 8).toNat = 0x28 := rfl
    simp only [BitVec.toNat_add, BitVec.toNat_ofNat, h28]
    omega
  have hack : ack t.pair = some (BitVec.ofNat 8 (0x20 + (8 + j)),
      ⟨{ t.pair.pic1 with isr := t.pair.pic1.isr ||| BitVec.twoPow 8 2 },
        t.pair.pic2.serve j⟩) := by
    simp only [ack, hc.ready1, hc.ready2, hc.mode1, hc.mode2, and_self, if_true, hnext, hcascade,
      hid, hj, hc.base2, hvector]
  refine ⟨8 + j, _, ⟨hack, he, fun m hm => ?_⟩, ?_, h.push he (fun i => ?_) (fun k => ?_)⟩
  · have hrank : rank (8 + j) = 2 + j := by
      unfold rank
      rw [if_neg (by omega), if_neg (by omega)]
      omega
    rw [hrank]
    by_cases hm8 : m < 8
    · obtain ⟨hm2, hmserve⟩ := (h.eligible_low hm8).mp hm
      have hle : 2 ≤ m := not_lt.mp (fun hlt => hfirst m hlt hmserve)
      unfold rank
      rw [if_neg (by omega), if_pos hm8]
      omega
    · obtain ⟨hm16, hmserve, -⟩ := (h.eligible_high (by omega)).mp hm
      have hle : j ≤ m - 8 := not_lt.mp (fun hlt => hfirst2 _ hlt hmserve)
      unfold rank
      rw [if_neg (by omega), if_neg hm8]
      omega
  · have hnumber : (BitVec.ofNat 8 (0x20 + (8 + j))).toNat - 0x20 = 8 + j := by
      rw [BitVec.toNat_ofNat]
      omega
    simp only [PicSystem.exec, hack, hnext, Option.map_some, Option.isSome_some, if_true, hnumber]
  · have hlevel : level (8 + j) = 2 := if_neg (by omega)
    rw [getLsbD_setBit (by decide), hlevel]
  · rw [Controller.serve, getLsbD_setBit hj8]
    simp only [Nat.add_left_cancel_iff]

/-- An interrupt is served at the first controller. -/
theorem ack_low (hc : Configured t.pair) (h : InService t)
    (hnext : t.pair.pic1.next t.pair.requests = some n) (hn2 : n ≠ 2) :
    ∃ s', Served t n s' ∧ t.exec .ack = some ⟨s', n :: t.handlers⟩ ∧
      InService ⟨s', n :: t.handlers⟩ := by
  obtain ⟨hn8, hserve, hfirst⟩ := next_some.mp hnext
  have he : Eligible t n := (h.eligible_low hn8).mpr ⟨hn2, hserve⟩
  have hcascade : t.pair.pic1.icw3.getLsbD n = false := by
    rw [hc.cascade1]
    interval_cases n
    all_goals first | rfl | exact absurd rfl hn2
  have hvector : (0x20 : BitVec 8) + BitVec.ofNat 8 n = BitVec.ofNat 8 (0x20 + n) := by
    apply BitVec.eq_of_toNat_eq
    have h20 : (0x20 : BitVec 8).toNat = 0x20 := rfl
    simp only [BitVec.toNat_add, BitVec.toNat_ofNat, h20]
    omega
  have hack : ack t.pair = some (BitVec.ofNat 8 (0x20 + n),
      { t.pair with pic1 := t.pair.pic1.serve n }) := by
    simp only [ack, hc.ready1, hc.ready2, hc.mode1, hc.mode2, and_self, if_true, hnext, hcascade,
      hc.base1, hvector, Bool.false_eq_true, if_false]
  refine ⟨_, ⟨hack, he, fun m hm => ?_⟩, ?_, h.push he (fun i => ?_) (fun k => ?_)⟩
  · by_cases hm8 : m < 8
    · have hle : n ≤ m := not_lt.mp (fun hlt => hfirst m hlt ((h.eligible_low hm8).mp hm).2)
      unfold rank
      split_ifs
      all_goals omega
    · have hle : n ≤ 2 := not_lt.mp (fun hlt => hfirst 2 hlt (h.canServe_cascade (by omega) hm))
      unfold rank
      split_ifs
      all_goals omega
  · have hnumber : (BitVec.ofNat 8 (0x20 + n)).toNat - 0x20 = n := by
      rw [BitVec.toNat_ofNat]
      omega
    simp only [PicSystem.exec, hack, hnext, Option.map_some, Option.isSome_some, if_true, hnumber]
  · have hlevel : level n = n := if_pos hn8
    rw [Controller.serve, getLsbD_setBit hn8, hlevel]
  · have hk : 8 + k ≠ n := by omega
    simp [hk]

/-- No line may be served. -/
theorem ack_none (hc : Configured t.pair) (h : InService t)
    (hnext : t.pair.pic1.next t.pair.requests = none) :
    (∀ n, ¬ Eligible t n) ∧ ack t.pair = some (0x27, t.pair) ∧ t.exec .ack = some t := by
  have hack : ack t.pair = some (0x27, t.pair) := by
    simp only [ack, hc.ready1, hc.ready2, hc.mode1, hc.mode2, and_self, if_true, hnext, hc.base1]
    rfl
  refine ⟨fun n he => ?_, hack, ?_⟩
  · rw [next_none] at hnext
    by_cases hn8 : n < 8
    · exact hnext n hn8 ((h.eligible_low hn8).mp he).2
    · exact hnext 2 (by decide) (h.canServe_cascade (by omega) he)
  · simp [PicSystem.exec, hack, hnext]

end Order

section Runs

variable {t t' : PicSystem} {e : PicEvent} {events : List PicEvent}

/-- What is set once and for all. -/
def Controller.setup (c : Controller) : PicInit × BitVec 8 × BitVec 8 × BitVec 8 :=
  (c.init, c.icw4, c.vectorBase, c.icw3)

theorem Configured.congr {s s' : Pair} (h : Configured s)
    (h1 : s'.pic1.setup = s.pic1.setup) (h2 : s'.pic2.setup = s.pic2.setup) : Configured s' := by
  simp only [Controller.setup, Prod.mk.injEq] at h1 h2
  obtain ⟨hr1, hm1, hb1, hc1⟩ := h1
  obtain ⟨hr2, hm2, hb2, hc2⟩ := h2
  exact ⟨hr1.trans h.ready1, hr2.trans h.ready2, hm1.trans h.mode1, hm2.trans h.mode2,
    hb1.trans h.base1, hb2.trans h.base2, hc1.trans h.cascade1, hc2.trans h.cascade2⟩

/-- Requests and masks do not matter for what is in service. -/
theorem InService.congr (h : InService t) (hhandlers : t'.handlers = t.handlers)
    (h1 : t'.pair.pic1.isr = t.pair.pic1.isr) (h2 : t'.pair.pic2.isr = t.pair.pic2.isr) :
    InService t' := by
  refine ⟨?_, ?_, fun i => ?_, fun j => ?_⟩
  · rw [hhandlers]
    exact h.lines
  · rw [hhandlers]
    exact h.nested
  · rw [hhandlers, h1]
    exact h.isr1 i
  · rw [hhandlers, h2]
    exact h.isr2 j

theorem eoi_setup (c : Controller) : c.eoi.setup = c.setup := by
  unfold Controller.eoi
  split
  · rfl
  · rfl

/-- An acknowledged interrupt leaves set-up and masks alone. -/
theorem ack_keeps {s s' : Pair} {vector : BitVec 8} (h : ack s = some (vector, s')) :
    s'.pic1.setup = s.pic1.setup ∧ s'.pic2.setup = s.pic2.setup ∧
      s'.pic1.imr = s.pic1.imr ∧ s'.pic2.imr = s.pic2.imr := by
  unfold ack at h
  split_ifs at h
  split at h
  · obtain ⟨-, rfl⟩ := Prod.mk.inj (Option.some.inj h)
    exact ⟨rfl, rfl, rfl, rfl⟩
  · split_ifs at h
    · split at h
      all_goals
        obtain ⟨-, rfl⟩ := Prod.mk.inj (Option.some.inj h)
        exact ⟨rfl, rfl, rfl, rfl⟩
    · obtain ⟨-, rfl⟩ := Prod.mk.inj (Option.some.inj h)
      exact ⟨rfl, rfl, rfl, rfl⟩

/-- What holds from `pic_remap` on. -/
structure PicInv (t : PicSystem) : Prop where
  configured : Configured t.pair
  inService : InService t

/-- What becomes of the mask of a line. -/
def PicEvent.maskAfter (n : Fin 16) (masked : Bool) : PicEvent → Bool
  | .setMask m => masked || decide (n = m)
  | .clearMask m => masked && decide (n ≠ m)
  | .disable => true
  | _ => masked

namespace PicInv

theorem ack_cases (h : PicInv t) :
    (∃ n s', Served t n s' ∧ t.exec .ack = some ⟨s', n :: t.handlers⟩ ∧
      InService ⟨s', n :: t.handlers⟩) ∨
    ((∀ n, ¬ Eligible t n) ∧ Pic.ack t.pair = some (0x27, t.pair) ∧
      t.exec .ack = some t) := by
  cases hnext : t.pair.pic1.next t.pair.requests with
  | none => exact .inr (ack_none h.configured h.inService hnext)
  | some n =>
    by_cases hn : n = 2
    · subst hn
      exact .inl (ack_high h.configured h.inService hnext)
    · exact .inl ⟨n, ack_low h.configured h.inService hnext hn⟩

theorem step_ack (h : PicInv t) (he : t.exec .ack = some t') :
    PicInv t' ∧ ∀ n, t'.pair.masked n = t.pair.masked n := by
  rcases h.ack_cases with ⟨n, s', hserved, hexec, hin⟩ | ⟨-, -, hexec⟩
  · obtain rfl := Option.some.inj (he.symm.trans hexec)
    obtain ⟨hs1, hs2, hm1, hm2⟩ := ack_keeps hserved.vector
    exact ⟨⟨h.configured.congr hs1 hs2, hin⟩, fun n => by simp only [Pair.masked, hm1, hm2]⟩
  · obtain rfl := Option.some.inj (he.symm.trans hexec)
    exact ⟨h, fun _ => rfl⟩

theorem step_eoi (h : PicInv t) (he : t.exec .eoi = some t') :
    PicInv t' ∧ ∀ n, t'.pair.masked n = t.pair.masked n := by
  cases ht : t.handlers with
  | nil => simp [PicSystem.exec, ht] at he
  | cons n handlers =>
    have hin := h.inService.pop ht
    simp only [PicSystem.exec, ht, Option.some.injEq] at he
    subst he
    have himr : ∀ c : Controller, c.eoi.imr = c.imr := fun c => by
      unfold Controller.eoi
      split
      · rfl
      · rfl
    by_cases h8 : 40 ≤ 0x20 + n
    · simp only [picSignalEoi, if_pos h8, outb_eoi1, outb_eoi2] at hin ⊢
      exact ⟨⟨h.configured.congr (eoi_setup _) (eoi_setup _), hin⟩, fun n => by
        simp only [Pair.masked, himr]⟩
    · simp only [picSignalEoi, if_neg h8, outb_eoi1] at hin ⊢
      exact ⟨⟨h.configured.congr (eoi_setup _) rfl, hin⟩, fun n => by
        simp only [Pair.masked, himr]⟩

/-- The mask of a line changes in its own bit. -/
theorem step_change (h : PicInv t) (n : Fin 16)
    (change : BitVec 32 → BitVec 32 → BitVec 32) (after : Bool → Bool)
    (hbyte : ∀ (imr : BitVec 8) (k i : Nat), k < 8 →
      ((change (imr.setWidth 32) (1#32 <<< k)).setWidth 8).getLsbD i =
        if i = k then after (imr.getLsbD i) else imr.getLsbD i) :
    PicInv ⟨picChangeMask change (BitVec.ofNat 8 n) t.pair, t.handlers⟩ ∧
      ∀ m : Fin 16, (picChangeMask change (BitVec.ofNat 8 n) t.pair).masked m =
        if m = n then after (t.pair.masked m) else t.pair.masked m := by
  rw [picChangeMask_eq change n.2 h.configured]
  obtain ⟨n, hn⟩ := n
  dsimp only
  split_ifs with hn8
  · refine ⟨⟨h.configured.congr rfl rfl, h.inService.congr rfl rfl rfl⟩, fun m => ?_⟩
    obtain ⟨m, hm⟩ := m
    simp only [Pair.masked, Fin.mk.injEq, hbyte _ n _ hn8]
    split_ifs
    all_goals first | rfl | omega
  · refine ⟨⟨h.configured.congr rfl rfl, h.inService.congr rfl rfl rfl⟩, fun m => ?_⟩
    obtain ⟨m, hm⟩ := m
    simp only [Pair.masked, Fin.mk.injEq, hbyte _ (n - 8) _ (by omega)]
    split_ifs
    all_goals first | rfl | omega

/-- One event keeps the invariant, and changes the masks of the lines that it is about. -/
theorem step (h : PicInv t) (he : t.exec e = some t') :
    PicInv t' ∧ ∀ n : Fin 16, t'.pair.masked n = e.maskAfter n (t.pair.masked n) := by
  cases e with
  | raise n =>
    obtain rfl := Option.some.inj he
    unfold raise
    split_ifs
    · exact ⟨⟨h.configured.congr rfl rfl, h.inService.congr rfl rfl rfl⟩, fun _ => rfl⟩
    · exact ⟨⟨h.configured.congr rfl rfl, h.inService.congr rfl rfl rfl⟩, fun _ => rfl⟩
  | drop n =>
    obtain rfl := Option.some.inj he
    unfold drop
    split_ifs
    · exact ⟨⟨h.configured.congr rfl rfl, h.inService.congr rfl rfl rfl⟩, fun _ => rfl⟩
    · exact ⟨⟨h.configured.congr rfl rfl, h.inService.congr rfl rfl rfl⟩, fun _ => rfl⟩
  | setMask n =>
    obtain rfl := Option.some.inj he
    obtain ⟨hinv, hmask⟩ := h.step_change n (fun value bit => value ||| bit) (fun _ => true)
      (fun imr k i hk => by rw [setMask_byte imr hk]; by_cases hik : i = k <;> simp [hik])
    refine ⟨hinv, fun m => (hmask m).trans ?_⟩
    by_cases hmn : m = n <;> simp [PicEvent.maskAfter, hmn]
  | clearMask n =>
    obtain rfl := Option.some.inj he
    obtain ⟨hinv, hmask⟩ := h.step_change n (fun value bit => value &&& ~~~bit) (fun _ => false)
      (fun imr k i hk => by rw [clearMask_byte imr]; by_cases hik : i = k <;> simp [hik])
    refine ⟨hinv, fun m => (hmask m).trans ?_⟩
    by_cases hmn : m = n <;> simp [PicEvent.maskAfter, hmn]
  | disable =>
    obtain rfl := Option.some.inj he
    rw [picDisable_eq h.configured]
    refine ⟨⟨h.configured.congr rfl rfl, h.inService.congr rfl rfl rfl⟩, fun n => ?_⟩
    have hall : ∀ i < 8, (0xFF : BitVec 8).getLsbD i = true := by decide
    obtain ⟨n, hn⟩ := n
    simp only [Pair.masked, PicEvent.maskAfter]
    split_ifs with hn8
    · exact hall n hn8
    · exact hall (n - 8) (by omega)
  | ack =>
    obtain ⟨hinv, hmask⟩ := h.step_ack he
    exact ⟨hinv, fun n => hmask n⟩
  | eoi =>
    obtain ⟨hinv, hmask⟩ := h.step_eoi he
    exact ⟨hinv, fun n => hmask n⟩

theorem run (h : PicInv t) (hr : t.run events = some t') :
    PicInv t' ∧ ∀ n : Fin 16,
      t'.pair.masked n = events.foldl (PicEvent.maskAfter n) (t.pair.masked n) := by
  induction events generalizing t with
  | nil =>
    obtain rfl : t = t' := Option.some.inj hr
    exact ⟨h, fun _ => rfl⟩
  | cons e events ih =>
    obtain ⟨t1, he, hr⟩ := Option.bind_eq_some_iff.mp hr
    obtain ⟨h1, hmask⟩ := h.step he
    obtain ⟨h', hmask'⟩ := ih h1 hr
    refine ⟨h', fun n => ?_⟩
    rw [List.foldl_cons, ← hmask n]
    exact hmask' n

theorem of_remap (s : Pair) : PicInv ⟨picRemap s, []⟩ :=
  ⟨picRemap_configured s, picRemap_inService s⟩

/-- Handlers that are not left pile up. -/
theorem suffix_of_no_eoi (h : PicInv t) (hno : .eoi ∉ events) (hr : t.run events = some t') :
    t.handlers <:+ t'.handlers := by
  induction events generalizing t with
  | nil =>
    obtain rfl : t = t' := Option.some.inj hr
    exact List.suffix_refl _
  | cons e events ih =>
    obtain ⟨t1, he, hr⟩ := Option.bind_eq_some_iff.mp hr
    have hfirst : t.handlers <:+ t1.handlers := by
      cases e with
      | ack =>
        rcases h.ack_cases with ⟨n, s', -, hexec, -⟩ | ⟨-, -, hexec⟩
        · obtain rfl := Option.some.inj (he.symm.trans hexec)
          exact List.suffix_cons n _
        · obtain rfl := Option.some.inj (he.symm.trans hexec)
          exact List.suffix_refl _
      | eoi => exact absurd List.mem_cons_self hno
      | _ =>
        obtain rfl := Option.some.inj he
        exact List.suffix_refl _
    exact hfirst.trans (ih (h.step he).1 (fun hmem => hno (List.mem_cons_of_mem e hmem)) hr)

/-- There are no more handlers than levels. -/
theorem handlers_length (h : PicInv t) : t.handlers.length ≤ 8 := by
  have hnodup : (t.handlers.map level).Nodup := by
    rw [List.Nodup, List.pairwise_map]
    exact h.inService.nested.imp (fun hlt => ne_of_lt hlt)
  have hsub : ∀ i ∈ t.handlers.map level, i ∈ List.range 8 := by
    intro i hi
    obtain ⟨n, -, rfl⟩ := List.mem_map.mp hi
    rw [List.mem_range]
    unfold level
    split_ifs with hn
    · exact hn
    · decide
  have hle := (hnodup.subperm hsub).length_le
  rwa [List.length_map, List.length_range] at hle

end PicInv

end Runs

/-- Two controllers that the firmware has masked, in the middle of an initialisation. -/
def firmwarePair : Pair :=
  let c : Controller := ⟨0x81, 0x04, 0xFF, .icw3, true, false, 0x08, 0x00, 0x03⟩
  ⟨c, c⟩

/-- In every state that devices, the processor and the kernel reach from `pic_remap` on, in any
order of events: the interrupts in service are those of the running handlers, nested by priority,
each left through `pic_signal_eoi`. What is acknowledged is the first line in rank among those that
are requested, not masked and prior to all running handlers, with vector 0x20 and its number; with
no such line it is the spurious vector 0x27. -/
theorem pic_handlers_nest (s : Pair) (events : List PicEvent) (t : PicSystem)
    (hrun : PicSystem.run ⟨picRemap s, []⟩ events = some t) :
    InService t ∧ ((∃ n s', Served t n s' ∧ t.exec .ack = some ⟨s', n :: t.handlers⟩) ∨
      ((∀ n, ¬ Eligible t n) ∧ ack t.pair = some (0x27, t.pair))) := by
  have hinv := ((PicInv.of_remap s).run hrun).1
  refine ⟨hinv.inService, ?_⟩
  rcases hinv.ack_cases with ⟨n, s', hserved, hexec, -⟩ | ⟨hnone, hack, -⟩
  · exact .inl ⟨n, s', hserved, hexec⟩
  · exact .inr ⟨hnone, hack⟩

/-- The mouse is interrupted by the keyboard. -/
theorem pic_handlers_nest_keyboard : ∃ t, PicSystem.run ⟨picRemap firmwarePair, []⟩
    [.clearMask 2, .clearMask 12, .raise 12, .ack, .clearMask 1, .raise 1, .ack] = some t ∧
    t.handlers = [1, 12] ∧ InService t := by
  have heval : (PicSystem.run ⟨picRemap firmwarePair, []⟩
    [.clearMask 2, .clearMask 12, .raise 12, .ack, .clearMask 1, .raise 1, .ack]).map
      PicSystem.handlers = some [1, 12] := by decide
  obtain ⟨t, ht, hhandlers⟩ := Option.map_eq_some_iff.mp heval
  exact ⟨t, ht, hhandlers, (pic_handlers_nest firmwarePair _ t ht).1⟩

/-- The mask of a line is what the firmware left, `pic_remap` notwithstanding, but for the calls
about that line and `pic_disable`, whatever happens besides. -/
theorem pic_masks_kept (s : Pair) (events : List PicEvent) (t : PicSystem)
    (hrun : PicSystem.run ⟨picRemap s, []⟩ events = some t) (n : Fin 16) :
    t.pair.masked n = events.foldl (PicEvent.maskAfter n) (s.masked n) := by
  have hmask := ((PicInv.of_remap s).run hrun).2 n
  rwa [picRemap_masked] at hmask

theorem pic_masks_kept_mouse : ∃ t, PicSystem.run ⟨picRemap firmwarePair, []⟩
    [.clearMask 12, .raise 12, .setMask 1, .ack, .clearMask 2] = some t ∧
    t.pair.masked 12 = false := by
  have hrun : (PicSystem.run ⟨picRemap firmwarePair, []⟩
    [.clearMask 12, .raise 12, .setMask 1, .ack, .clearMask 2]).isSome := by decide
  obtain ⟨t, ht⟩ := Option.isSome_iff_exists.mp hrun
  exact ⟨t, ht, pic_masks_kept firmwarePair _ t ht 12⟩

/-- Nothing in the kernel calls `pic_signal_eoi`: `isr_handler` acknowledges at the local APIC
only. Then an interrupt that has come through the controllers keeps its own line and all lines of
no higher priority from being served ever again: what is acknowledged later has a higher priority
or is the spurious vector. No more than eight come through at all. -/
theorem pic_without_eoi (s : Pair) (events : List PicEvent) (t : PicSystem)
    (hrun : PicSystem.run ⟨picRemap s, []⟩ events = some t) (events' : List PicEvent)
    (hno : .eoi ∉ events') (t' : PicSystem) (hrun' : t.run events' = some t') :
    t.handlers <:+ t'.handlers ∧ t'.handlers.length ≤ 8 ∧
      ((∃ m s', Served t' m s' ∧ t'.exec .ack = some ⟨s', m :: t'.handlers⟩ ∧
          ∀ n ∈ t.handlers, level m < level n) ∨
        (ack t'.pair = some (0x27, t'.pair) ∧ t'.exec .ack = some t')) := by
  have hinv := ((PicInv.of_remap s).run hrun).1
  have hinv' := (hinv.run hrun').1
  have hsuffix := hinv.suffix_of_no_eoi hno hrun'
  refine ⟨hsuffix, hinv'.handlers_length, ?_⟩
  rcases hinv'.ack_cases with ⟨m, s', hserved, hexec, -⟩ | ⟨-, hack, hexec⟩
  · exact .inl
      ⟨m, s', hserved, hexec, fun n hn => hserved.eligible.prior n (hsuffix.subset hn)⟩
  · exact .inr ⟨hack, hexec⟩

/-- After the timer there is only the spurious vector. -/
theorem pic_without_eoi_timer : ∃ t t', PicSystem.run ⟨picRemap firmwarePair, []⟩
    [.clearMask 0, .raise 0, .ack] = some t ∧
    t.run [.clearMask 1, .raise 0, .raise 1, .ack] = some t' ∧
    ack t'.pair = some (0x27, t'.pair) := by
  have heval : (PicSystem.run ⟨picRemap firmwarePair, []⟩ [.clearMask 0, .raise 0, .ack]).map
      (fun t => (t.handlers, (t.run [.clearMask 1, .raise 0, .raise 1, .ack]).isSome)) =
        some ([0], true) := by decide
  obtain ⟨t, ht, hboth⟩ := Option.map_eq_some_iff.mp heval
  obtain ⟨hhandlers, hrest⟩ := Prod.mk.inj hboth
  obtain ⟨t', ht'⟩ := Option.isSome_iff_exists.mp hrest
  have hmem : 0 ∈ t.handlers := by rw [hhandlers]; simp
  rcases (pic_without_eoi firmwarePair _ t ht _ (by decide) t' ht').2.2 with
    ⟨m, s', -, -, hhigher⟩ | ⟨hack, -⟩
  · exact absurd (hhigher 0 hmem) (Nat.not_lt_zero _)
  · exact ⟨t, t', ht, ht', hack⟩

end ApoptOS.Pic
