import ApoptOS.Framework.ByteMemory
import ApoptOS.Framework.Fuel
import ApoptOS.Framework.Words

namespace ApoptOS

open Framework

/-- The serial port as its registers show it. A character written to the transmitter leaves it
full for a number of port accesses that is not known in advance; one written to a full
transmitter is lost. -/
structure Uart where
  dll : BitVec 8
  dlm : BitVec 8
  ier : BitVec 8
  fcr : BitVec 8
  lcr : BitVec 8
  mcr : BitVec 8
  /-- The bits of the line status other than that of the empty transmitter. -/
  line : BitVec 8
  /-- How many more accesses find the transmitter full. -/
  wait : Nat
  /-- How long the characters to come will take. -/
  delay : Nat → Nat
  sent : List (BitVec 8)
  lost : List (BitVec 8)

namespace Uart

/-- Registers 0 and 1 are those of the divisor while this bit of the line control is set. -/
def dlab (u : Uart) : Bool := u.lcr.getLsbD 7

def lineStatus (u : Uart) : BitVec 8 :=
  if u.wait = 0 then u.line ||| 0x20 else u.line &&& ~~~0x20

/-- An access takes its time. -/
def tick (u : Uart) : Uart := { u with wait := u.wait - 1 }

def transmit (u : Uart) (c : BitVec 8) : Uart :=
  if u.wait = 0 then
    { u with
      sent := u.sent ++ [c]
      wait := u.delay 0
      delay := fun n => u.delay (n + 1) }
  else { u with lost := u.lost ++ [c] }

def inb (u : Uart) (register : Nat) : BitVec 8 :=
  match register with
  | 0 => if u.dlab then u.dll else 0
  | 1 => if u.dlab then u.dlm else u.ier
  | 3 => u.lcr
  | 4 => u.mcr
  | 5 => u.lineStatus
  | _ => 0

def outb (u : Uart) (register : Nat) (value : BitVec 8) : Uart :=
  match register with
  | 0 => if u.dlab then { u with dll := value } else u.transmit value
  | 1 => if u.dlab then { u with dlm := value } else { u with ier := value }
  | 2 => { u with fcr := value }
  | 3 => { u with lcr := value }
  | 4 => { u with mcr := value }
  | _ => u

end Uart

def asmIoInb (register : Nat) (u : Uart) : BitVec 8 × Uart := (u.inb register, u.tick)

def asmIoOutb (register : Nat) (value : BitVec 8) (u : Uart) : Uart := (u.outb register value).tick

/-- Set basic values for the port. -/
def comInit (u : Uart) : Uart :=
  let u := asmIoOutb 1 0x00 u
  let u := asmIoOutb 3 0x80 u
  let u := asmIoOutb 0 0x03 u
  let u := asmIoOutb 1 0x00 u
  let u := asmIoOutb 3 0x03 u
  let u := asmIoOutb 2 0xC7 u
  asmIoOutb 4 0x0B u

def comIsTransmitEmpty (u : Uart) : Bool × Uart :=
  let (status, u) := asmIoInb 5 u
  (status &&& 0x20 ≠ 0, u)

/-- `while (!com_is_transmit_empty(port))`. -/
def waitTransmitEmpty : Nat → Uart → Option Uart
  | 0, _ => none
  | n + 1, u =>
    let (empty, u) := comIsTransmitEmpty u
    if empty then some u else waitTransmitEmpty n u

def comSendChar (fuel : Nat) (c : BitVec 8) (u : Uart) : Option Uart :=
  (waitTransmitEmpty fuel u).map (asmIoOutb 0 c)

/-- The loop over `str[i]`. -/
def comSendString (m : Mem) (str : Nat) : Nat → Nat → Uart → Option Uart
  | 0, _, _ => none
  | n + 1, i, u =>
    if m (add64 str i) ≠ 0 then
      match comSendChar n (m (add64 str i)) u with
      | none => none
      | some u => comSendString m str n (i + 1) u
    else some u

/-- The string at an address: characters other than zero, which an `int` counts, and a zero. -/
structure HoldsString (m : Mem) (str : Nat) (t : List (BitVec 8)) : Prop where
  bound : str + t.length < 2 ^ 64
  counted : t.length < 2 ^ 31
  chars : ∀ i c, t[i]? = some c → m (str + i) = c ∧ c ≠ 0
  terminator : m (str + t.length) = 0

/-- What sending changes: the characters sent, and the transmitter. -/
structure Uart.SameLine (u u' : Uart) : Prop where
  dll : u'.dll = u.dll
  dlm : u'.dlm = u.dlm
  ier : u'.ier = u.ier
  fcr : u'.fcr = u.fcr
  lcr : u'.lcr = u.lcr
  mcr : u'.mcr = u.mcr
  lost : u'.lost = u.lost

section Sending

variable {m : Mem} {str : Nat} {u u' u'' : Uart} {c : BitVec 8} {t : List (BitVec 8)}

theorem Uart.SameLine.refl (u : Uart) : u.SameLine u := ⟨rfl, rfl, rfl, rfl, rfl, rfl, rfl⟩

theorem Uart.SameLine.trans (h : u.SameLine u') (h' : u'.SameLine u'') : u.SameLine u'' :=
  ⟨h'.dll.trans h.dll, h'.dlm.trans h.dlm, h'.ier.trans h.ier, h'.fcr.trans h.fcr,
    h'.lcr.trans h.lcr, h'.mcr.trans h.mcr, h'.lost.trans h.lost⟩

theorem Uart.SameLine.dlab (h : u.SameLine u') (hdlab : u.dlab = false) : u'.dlab = false := by
  rwa [Uart.dlab, h.lcr, ← Uart.dlab]

theorem Uart.sameLine_tick (u : Uart) : u.SameLine u.tick := ⟨rfl, rfl, rfl, rfl, rfl, rfl, rfl⟩

theorem Uart.lineStatus_empty (u : Uart) : u.lineStatus &&& 0x20 ≠ 0 ↔ u.wait = 0 := by
  have hset : ∀ line : BitVec 8, (line ||| 0x20) &&& 0x20 ≠ 0 := by decide
  have hclear : ∀ line : BitVec 8, (line &&& ~~~0x20) &&& 0x20 = 0 := by decide
  unfold Uart.lineStatus
  by_cases hwait : u.wait = 0
  · rw [if_pos hwait]
    exact iff_of_true (hset u.line) hwait
  · rw [if_neg hwait]
    exact iff_of_false (not_not.mpr (hclear u.line)) hwait

theorem comIsTransmitEmpty_eq (u : Uart) :
    comIsTransmitEmpty u = (decide (u.wait = 0), u.tick) := by
  have hiff := u.lineStatus_empty
  simp only [comIsTransmitEmpty, asmIoInb, Uart.inb, hiff]

/-- The wait ends once the transmitter is empty, and has changed nothing else. -/
theorem waitTransmitEmpty_returns {n : Nat} (hn : u.wait < n) :
    ∃ u', waitTransmitEmpty n u = some u' ∧ u'.wait = 0 ∧ u'.sent = u.sent ∧
      u'.delay = u.delay ∧ u.SameLine u' := by
  induction n generalizing u with
  | zero => omega
  | succ n ih =>
    rw [waitTransmitEmpty, comIsTransmitEmpty_eq]
    by_cases hwait : u.wait = 0
    · refine ⟨u.tick, by simp [hwait], ?_, rfl, rfl, u.sameLine_tick⟩
      simp [Uart.tick, hwait]
    · obtain ⟨u', hu', hempty, hsent, hdelay, hsame⟩ :=
        ih (u := u.tick) (by simp [Uart.tick]; omega)
      exact ⟨u', by simpa [hwait] using hu', hempty, hsent, hdelay, u.sameLine_tick.trans hsame⟩

/-- A character is sent, not lost, and no register changes. -/
theorem comSendChar_returns (hdlab : u.dlab = false) {n : Nat} (hn : u.wait < n) (c : BitVec 8) :
    ∃ u', comSendChar n c u = some u' ∧ u'.sent = u.sent ++ [c] ∧ u'.wait ≤ u.delay 0 ∧
      u'.delay = (fun k => u.delay (k + 1)) ∧ u.SameLine u' := by
  obtain ⟨v, hv, hempty, hsent, hdelay, hsame⟩ := waitTransmitEmpty_returns hn
  have hvdlab := hsame.dlab hdlab
  have hout : asmIoOutb 0 c v =
      ({ v with
        sent := v.sent ++ [c]
        wait := v.delay 0
        delay := fun n => v.delay (n + 1) } : Uart).tick := by
    simp [asmIoOutb, Uart.outb, hvdlab, Uart.transmit, hempty]
  refine ⟨asmIoOutb 0 c v, by rw [comSendChar, hv]; rfl, ?_, ?_, ?_, ?_⟩
  · rw [hout, ← hsent]
    rfl
  · rw [hout, ← hdelay]
    exact Nat.sub_le _ _
  · rw [hout, ← hdelay]
    rfl
  · rw [hout]
    exact hsame.trans ⟨rfl, rfl, rfl, rfl, rfl, rfl, rfl⟩

theorem waitTransmitEmpty_succ {n : Nat} (h : waitTransmitEmpty n u = some u') :
    waitTransmitEmpty (n + 1) u = some u' := by
  induction n generalizing u with
  | zero => simp [waitTransmitEmpty] at h
  | succ n ih =>
    rw [waitTransmitEmpty] at h ⊢
    cases hempty : (comIsTransmitEmpty u).1 with
    | true => simpa [hempty] using h
    | false =>
      simp only [hempty, Bool.false_eq_true, if_false] at h ⊢
      exact ih h

theorem comSendString_succ {n i : Nat} (h : comSendString m str n i u = some u') :
    comSendString m str (n + 1) i u = some u' := by
  induction n generalizing i u with
  | zero => simp [comSendString] at h
  | succ n ih =>
    rw [comSendString] at h ⊢
    by_cases hc : m (add64 str i) ≠ 0
    · rw [if_pos hc] at h ⊢
      cases hwait : waitTransmitEmpty n u with
      | none => simp [comSendChar, hwait] at h
      | some v =>
        simp only [comSendChar, hwait, waitTransmitEmpty_succ hwait, Option.map_some] at h ⊢
        exact ih h
    · rwa [if_neg hc] at h ⊢

/-- How many accesses `k` characters take at most, after the one that is still on its way. -/
def totalDelay (u : Uart) (k : Nat) : Nat := u.wait + ((List.range k).map u.delay).sum

theorem holdsString_addr (h : HoldsString m str t) {i : Nat} (hi : i ≤ t.length) :
    add64 str i = str + i := add64_of_lt (by have hlen := h.bound; omega)

/-- From its character `i` on, a string is sent to its end. -/
theorem comSendString_from (h : HoldsString m str t) {n i : Nat} (hi : i ≤ t.length)
    (hdlab : u.dlab = false) (hn : t.length - i + totalDelay u (t.length - i) < n) :
    ∃ u', comSendString m str n i u = some u' ∧ u'.sent = u.sent ++ t.drop i ∧
      u.SameLine u' := by
  induction n generalizing i u with
  | zero => omega
  | succ n ih =>
    rw [comSendString, holdsString_addr h hi]
    cases hc : t[i]? with
    | none =>
      have hend : i = t.length := by
        have hge := List.getElem?_eq_none_iff.mp hc
        omega
      refine ⟨u, ?_, by simp [hend], .refl u⟩
      rw [hend, h.terminator]
      simp
    | some c =>
      obtain ⟨hmem, hne⟩ := h.chars i c hc
      obtain ⟨hlt, hget⟩ := List.getElem?_eq_some_iff.mp hc
      have hmore : t.length - i = t.length - (i + 1) + 1 := by omega
      have htotal : totalDelay u (t.length - i) = u.wait + (u.delay 0 +
          ((List.range (t.length - (i + 1))).map (fun k => u.delay (k + 1))).sum) := by
        rw [totalDelay, hmore, List.range_succ_eq_map, List.map_cons, List.map_map, List.sum_cons]
        rfl
      obtain ⟨v, hv, hsent, hwait, hdelay, hsame⟩ :=
        comSendChar_returns (u := u) hdlab (n := n) (by omega) c
      have hvdlab := hsame.dlab hdlab
      obtain ⟨u', hu', hsent', hsame'⟩ := ih (i := i + 1) (u := v) (by omega) hvdlab (by
        rw [totalDelay, hdelay]
        omega)
      refine ⟨u', ?_, ?_, hsame.trans hsame'⟩
      · rw [hmem, if_pos hne, hv]
        exact hu'
      · rw [hsent', hsent, List.append_assoc, ← hget, List.drop_eq_getElem_cons hlt]
        rfl

/-- A string is sent whole and in order, whatever the delays of the transmitter: the loop ends,
and no character is lost. -/
theorem comSendString_gives (h : HoldsString m str t) (hdlab : u.dlab = false) :
    ∃ u', Gives (fun n => comSendString m str n 0 u) u' ∧ u'.sent = u.sent ++ t ∧
      u.SameLine u' := by
  obtain ⟨u', hu', hsent, hsame⟩ := comSendString_from h (Nat.zero_le _) hdlab
    (Nat.lt_succ_self _)
  exact ⟨u', .of_step (fun _ _ hn => comSendString_succ hn) hu', hsent, hsame⟩

end Sending

/-- 38400 baud, eight data bits, no parity, one stop bit; registers 0 and 1 are those of the
line again. -/
structure Uart.Initialised (u : Uart) : Prop where
  divisor : u.dlm ++ u.dll = (3 : BitVec 16)
  lcr : u.lcr = 0x03
  fcr : u.fcr = 0xC7
  mcr : u.mcr = 0x0B

section Init

variable {m : Mem} {str : Nat} {t : List (BitVec 8)}

/-- `com_init` sets up a port, and sends and loses nothing. -/
theorem comInit_initialised (u : Uart) :
    (comInit u).Initialised ∧ (comInit u).sent = u.sent ∧ (comInit u).lost = u.lost := by
  -- The first write goes to the divisor or to the interrupts; the set-up overwrites either.
  cases hdlab : u.lcr[7] with
  | false =>
    refine ⟨⟨?_, ?_, ?_, ?_⟩, ?_, ?_⟩
    all_goals simp [comInit, asmIoOutb, Uart.outb, Uart.tick, Uart.dlab, hdlab]
  | true =>
    refine ⟨⟨?_, ?_, ?_, ?_⟩, ?_, ?_⟩
    all_goals simp [comInit, asmIoOutb, Uart.outb, Uart.tick, Uart.dlab, hdlab]

/-- The interrupts are off unless the divisor was addressed before. -/
theorem comInit_ier (u : Uart) (hdlab : u.dlab = false) : (comInit u).ier = 0 := by
  have hclear : u.lcr[7] = false := by simpa [Uart.dlab] using hdlab
  simp [comInit, asmIoOutb, Uart.outb, Uart.tick, Uart.dlab, hclear]

theorem Uart.Initialised.dlab {u : Uart} (h : u.Initialised) : u.dlab = false := by
  rw [Uart.dlab, h.lcr]
  decide

/-- On a port that `com_init` has set up, a string is sent whole and in order, whatever the
transmitter's delays: the loop ends, no character is lost, and the set-up stays. -/
theorem comSendString_after_init (u : Uart) (h : HoldsString m str t) :
    ∃ u', Gives (fun n => comSendString m str n 0 (comInit u)) u' ∧
      u'.sent = u.sent ++ t ∧ u'.lost = u.lost ∧ u'.Initialised ∧
      (u.dlab = false → u'.ier = 0) := by
  obtain ⟨hinit, hsent, hlost⟩ := comInit_initialised u
  obtain ⟨u', hu', hsent', hsame⟩ := comSendString_gives h hinit.dlab
  refine ⟨u', hu', by rw [hsent', hsent], by rw [hsame.lost, hlost], ?_, fun hdlab => ?_⟩
  · exact ⟨by rw [hsame.dlm, hsame.dll, hinit.divisor], by rw [hsame.lcr, hinit.lcr],
      by rw [hsame.fcr, hinit.fcr], by rw [hsame.mcr, hinit.mcr]⟩
  · rw [hsame.ier, comInit_ier u hdlab]

/-- The string `A` on a slow line. -/
theorem comSendString_after_init_A : ∃ u',
    Gives (fun n => comSendString (fun a => if a = 4096 then 65 else 0) 4096 n 0
        (comInit ⟨0, 0, 0, 0, 0, 0, 0, 7, fun _ => 3, [], []⟩)) u' ∧
      u'.sent = [] ++ [65] ∧ u'.lost = [] ∧ u'.Initialised ∧ u'.ier = 0 := by
  have hstring : HoldsString (fun a => if a = 4096 then 65 else 0) 4096 [65] := by
    refine ⟨by decide, by decide, fun i c hc => ?_, rfl⟩
    cases i with
    | zero =>
      obtain rfl : (65 : BitVec 8) = c := by simpa using hc
      decide
    | succ i => simp at hc
  obtain ⟨u', hu', hsent, hlost, hinit, hier⟩ :=
    comSendString_after_init ⟨0, 0, 0, 0, 0, 0, 0, 7, fun _ => 3, [], []⟩ hstring
  exact ⟨u', hu', hsent, hlost, hinit, hier rfl⟩

end Init

end ApoptOS
