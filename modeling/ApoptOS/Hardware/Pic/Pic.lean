import Mathlib.Data.List.Basic
import Mathlib.Tactic

namespace ApoptOS.Pic

/-- The initialisation command word a controller waits for. -/
inductive PicInit where
  | icw2
  | icw3
  | icw4
  | ready
  deriving DecidableEq, Repr

/-- An 8259A in fully nested mode: requests, interrupts in service and masks, line 0 first, and
what the initialisation command words have set. -/
structure Controller where
  irr : BitVec 8
  isr : BitVec 8
  imr : BitVec 8
  init : PicInit
  single : Bool
  needsIcw4 : Bool
  vectorBase : BitVec 8
  icw3 : BitVec 8
  icw4 : BitVec 8
  deriving DecidableEq, Repr

namespace Controller

/-- The end of the interrupt in service with the highest priority. -/
def eoi (c : Controller) : Controller :=
  match (List.range 8).find? (fun i => c.isr.getLsbD i) with
  | some i => { c with isr := c.isr &&& ~~~BitVec.twoPow 8 i }
  | none => c

/-- Bit 4 tells the first initialisation command word, after which everything else starts anew. -/
def writeCommand (c : Controller) (value : BitVec 8) : Controller :=
  if value.getLsbD 4 then
    { c with
      irr := 0
      isr := 0
      imr := 0
      init := .icw2
      single := value.getLsbD 1
      needsIcw4 := value.getLsbD 0
      icw4 := 0 }
  else if value = 0x20 then c.eoi
  else c

def writeData (c : Controller) (value : BitVec 8) : Controller :=
  let last : PicInit := if c.needsIcw4 then .icw4 else .ready
  match c.init with
  | .icw2 => { c with vectorBase := value &&& 0xF8, init := if c.single then last else .icw3 }
  | .icw3 => { c with icw3 := value, init := last }
  | .icw4 => { c with icw4 := value, init := .ready }
  | .ready => { c with imr := value }

/-- The line that is served next of those with a request in `irr`: it is not masked, and nothing
of its priority or a higher one is in service. -/
def next (c : Controller) (irr : BitVec 8) : Option Nat :=
  (List.range 8).find? (fun i =>
    irr.getLsbD i && !c.imr.getLsbD i && (List.range (i + 1)).all (fun j => !c.isr.getLsbD j))

def serve (c : Controller) (i : Nat) : Controller :=
  { c with
    irr := c.irr &&& ~~~BitVec.twoPow 8 i
    isr := c.isr ||| BitVec.twoPow 8 i }

end Controller

/-- The two controllers of a PC. -/
structure Pair where
  pic1 : Controller
  pic2 : Controller
  deriving DecidableEq, Repr

def pic1Command : Nat := 0x20
def pic1Data : Nat := 0x21
def pic2Command : Nat := 0xA0
def pic2Data : Nat := 0xA1
def icw48086 : BitVec 8 := 0x01

/-- A data port reads the mask register at any time. -/
def asmIoInb (port : Nat) (s : Pair) : BitVec 8 :=
  if port = pic1Data then s.pic1.imr else if port = pic2Data then s.pic2.imr else 0

def asmIoOutb (port : Nat) (value : BitVec 8) (s : Pair) : Pair :=
  if port = pic1Command then { s with pic1 := s.pic1.writeCommand value }
  else if port = pic1Data then { s with pic1 := s.pic1.writeData value }
  else if port = pic2Command then { s with pic2 := s.pic2.writeCommand value }
  else if port = pic2Data then { s with pic2 := s.pic2.writeData value }
  else s

def picDisable (s : Pair) : Pair :=
  let s := asmIoOutb pic2Data 0xFF s
  asmIoOutb pic1Data 0xFF s

/-- The waits between the words read a port that is not one of the controllers'. -/
def picRemap (s : Pair) : Pair :=
  let mask1 := asmIoInb pic1Data s
  let mask2 := asmIoInb pic2Data s
  let s := asmIoOutb pic1Command 0x11 s
  let s := asmIoOutb pic2Command 0x11 s
  let s := asmIoOutb pic1Data 0x20 s
  let s := asmIoOutb pic2Data 0x28 s
  let s := asmIoOutb pic1Data 0x04 s
  let s := asmIoOutb pic2Data 0x02 s
  let s := asmIoOutb pic1Data 0x01 s
  let s := asmIoOutb pic2Data 0x01 s
  let s := asmIoOutb pic1Data 0x00 s
  let s := asmIoOutb pic2Data 0x00 s
  let s := asmIoOutb pic1Data icw48086 s
  let s := asmIoOutb pic2Data icw48086 s
  let s := asmIoOutb pic1Data mask1 s
  asmIoOutb pic2Data mask2 s

/-- `value` is computed as an `int` and cut off to a byte. -/
def picChangeMask (change : BitVec 32 → BitVec 32 → BitVec 32) (irqLine : BitVec 8) (s : Pair) :
    Pair :=
  let port := if irqLine < 8 then pic1Data else pic2Data
  let irqLine := if irqLine < 8 then irqLine else irqLine - 8
  let value := (change ((asmIoInb port s).setWidth 32) (1#32 <<< irqLine.toNat)).setWidth 8
  asmIoOutb port value s

def picSetMask : BitVec 8 → Pair → Pair := picChangeMask (fun value bit => value ||| bit)
def picClearMask : BitVec 8 → Pair → Pair := picChangeMask (fun value bit => value &&& ~~~bit)

def picSignalEoi (isrNumber : Nat) (s : Pair) : Pair :=
  let s := if 40 ≤ isrNumber then asmIoOutb pic2Command 0x20 s else s
  asmIoOutb pic1Command 0x20 s

/-- A device raises or drops one of the sixteen lines. -/
def raise (n : Nat) (s : Pair) : Pair :=
  if n < 8 then { s with pic1 := { s.pic1 with irr := s.pic1.irr ||| BitVec.twoPow 8 n } }
  else { s with pic2 := { s.pic2 with irr := s.pic2.irr ||| BitVec.twoPow 8 (n - 8) } }

def drop (n : Nat) (s : Pair) : Pair :=
  if n < 8 then { s with pic1 := { s.pic1 with irr := s.pic1.irr &&& ~~~BitVec.twoPow 8 n } }
  else { s with pic2 := { s.pic2 with irr := s.pic2.irr &&& ~~~BitVec.twoPow 8 (n - 8) } }

/-- The requests that the first controller sees: the output of the second one is its line 2. -/
def Pair.requests (s : Pair) : BitVec 8 :=
  if (s.pic2.next s.pic2.irr).isSome then s.pic1.irr ||| BitVec.twoPow 8 2
  else s.pic1.irr &&& ~~~BitVec.twoPow 8 2

/-- The answer to the processor that acknowledges an interrupt, both cycles at once: the vector
of the line that is served. The vector of line 7 when the request is gone, and no answer from
controllers that are not set up for this processor and for each other. -/
def ack (s : Pair) : Option (BitVec 8 × Pair) :=
  if s.pic1.init = .ready ∧ s.pic2.init = .ready ∧ s.pic1.icw4 = icw48086 ∧
      s.pic2.icw4 = icw48086 then
    match s.pic1.next s.requests with
    | none => some (s.pic1.vectorBase + 7, s)
    | some i =>
      if s.pic1.icw3.getLsbD i then
        if s.pic2.icw3 = BitVec.ofNat 8 i then
          match s.pic2.next s.pic2.irr with
          | none => some (s.pic2.vectorBase + 7, { s with
              pic1 := { s.pic1 with isr := s.pic1.isr ||| BitVec.twoPow 8 i } })
          | some j => some (s.pic2.vectorBase + BitVec.ofNat 8 j,
              ⟨{ s.pic1 with isr := s.pic1.isr ||| BitVec.twoPow 8 i }, s.pic2.serve j⟩)
        else none
      else some (s.pic1.vectorBase + BitVec.ofNat 8 i, { s with pic1 := s.pic1.serve i })
  else none

/-- What can happen to the controllers. -/
inductive PicEvent where
  | raise (n : Fin 16)
  | drop (n : Fin 16)
  | setMask (n : Fin 16)
  | clearMask (n : Fin 16)
  | disable
  | ack
  | eoi
  deriving DecidableEq, Repr

/-- The controllers and the lines whose handlers are running, the innermost one first. A handler
is left through `pic_signal_eoi` with its own interrupt number. -/
structure PicSystem where
  pair : Pair
  handlers : List Nat
  deriving DecidableEq, Repr

namespace PicSystem

def exec (t : PicSystem) : PicEvent → Option PicSystem
  | .raise n => some { t with pair := raise n t.pair }
  | .drop n => some { t with pair := drop n t.pair }
  | .setMask n => some { t with pair := picSetMask (BitVec.ofNat 8 n) t.pair }
  | .clearMask n => some { t with pair := picClearMask (BitVec.ofNat 8 n) t.pair }
  | .disable => some { t with pair := picDisable t.pair }
  | .ack => (Pic.ack t.pair).map (fun (vector, pair) =>
      if (t.pair.pic1.next t.pair.requests).isSome then
        ⟨pair, (vector.toNat - 0x20) :: t.handlers⟩
      else ⟨pair, t.handlers⟩)
  | .eoi =>
    match t.handlers with
    | [] => none
    | n :: handlers => some ⟨picSignalEoi (0x20 + n) t.pair, handlers⟩

def run (t : PicSystem) : List PicEvent → Option PicSystem
  | [] => some t
  | e :: events => (t.exec e).bind (fun t => t.run events)

end PicSystem

end ApoptOS.Pic
