import ApoptOS.Tables.IsrReport

namespace ApoptOS.Isr

open Framework Printf Serial CpuState

/-- An interrupt as it can come: an error code only from the CPU, and `int` only where the gates
let it through. -/
structure Interruption where
  cause : Cause
  vector : Nat
  errorCode : Nat
  cpu : CpuState
  vector_lt : vector < 256
  kernel : cause ≠ .software ∨ cpu.cs % 4 = 0
  pushes : cause = .exception ∨ ¬ PushesErrorCode vector
  sp_lt : cpu.stack.sp < 2 ^ 64

/-- What was interrupted, as `isr_handler` gets it. -/
def Interruption.frame (i : Interruption) : CpuInterruptState :=
  { interruptedState i.cpu i.vector i.errorCode with
    rbp := i.cpu.regs .rsi, rsi := i.cpu.regs .rbp }

/-- The tables, the line that the first CPU reports to, and whether that CPU is halted. -/
structure ReportState (κ : Type) where
  tables : TablesState κ
  uart : Uart
  halted : Bool

/-- The first CPU is interrupted between its calls of `debug`. In one of them only an exception
could come, for which `isr_handler` would wait for `debug_lock`. -/
inductive ReportEvent (κ : Type) where
  | table (e : TablesEvent κ)
  | debug (w : Text)
  | interrupt (i : Interruption)

def LiteralByte (B : SerialData) (D : IsrData) (x : Nat) : Prop :=
  ∃ a t, Literal B D a t ∧ a ≤ x ∧ x < a + (t.length + 1)

/-- The tables, the buffer, the literals, and the bytes that `lapic_signal_eoi` writes, are apart
from each other. -/
structure ReportPlaced (p : TablePlaces) (B : SerialData) (D : IsrData) : Prop where
  buffer : ∀ x, p.Constant x → x < B.debugBuffer ∨ B.debugBuffer + bufferSize ≤ x
  literals : ∀ x, LiteralByte B D x → ¬ p.Constant x ∧
    (x < p.tssDescriptor ∨ p.tssDescriptor + 16 ≤ x)
  eoi : ∀ x, EoiByte x → ¬ p.Constant x ∧ ¬ LiteralByte B D x

variable {κ : Type} [DecidableEq κ]

section Steps

variable (p : TablePlaces) (B : SerialData) (D : IsrData) (isrVectorAsm : Nat → Nat) (bsp : κ)

/-- Stores of the kernel leave the literals alone. A halted CPU takes no more interrupts, and no
other CPU prints. -/
inductive ReportStep : ReportState κ → ReportEvent κ → ReportState κ → Prop where
  | table {s e t} (hexec : s.tables.exec p e = some t)
      (hstore : ∀ x b, e = .store x b → ¬ LiteralByte B D x) :
      ReportStep s (.table e) { s with tables := t }
  | debug {s format va va' w m' u'} (hruns : s.halted = false)
      (hprints : Prints (cString s.tables.mem) format va va' w) (hfits : w.length < bufferSize)
      (hgives : Gives (fun n => Serial.debug B n format va s.tables.mem s.uart) (m', u')) :
      ReportStep s (.debug (untilZero w))
        { s with tables := { s.tables with mem := m' }, uart := u' }
  | interrupt {s i cpu' frame e m' u'} (hruns : s.halted = false)
      (hdeliver : deliver s.tables.mem (s.tables.cpus bsp) i.cause i.vector i.errorCode i.cpu =
        .ok cpu')
      (hsees : handlerSees isrVectorAsm cpu' = some frame)
      (hgives : Gives (fun n => isrHandler B D n frame s.tables.mem s.uart) (e, m', u')) :
      ReportStep s (.interrupt i)
        { tables := { s.tables with mem := m' }
          uart := u'
          halted := e = .halted }

inductive ReportRun : ReportState κ → List (ReportEvent κ) → ReportState κ → Prop where
  | nil {s} : ReportRun s [] s
  | cons {s e s' events t} (hstep : ReportStep p B D isrVectorAsm bsp s e s')
      (hrest : ReportRun s' events t) : ReportRun s (e :: events) t

/-- What every step keeps. -/
structure ReportInv (s : ReportState κ) : Prop where
  tables : TablesHold p isrVectorAsm s.tables.mem
  loaded : (s.tables.cpus bsp).Loaded p
  placed : D.Placed B s.tables.mem
  dlab : s.uart.dlab = false

end Steps

namespace ReportEvent

/-- What an event sends. -/
def text : ReportEvent κ → Text
  | .table _ => []
  | .debug w => w
  | .interrupt i => isrText i.frame

/-- What an event writes into the memory: a call of `debug` its buffer, an interrupt the same and
for one of the lines four bytes more. -/
def Writes (B : SerialData) (m m' : Mem) : ReportEvent κ → Prop
  | .table _ => True
  | .debug _ => OnlyDebugBuffer B m m'
  | .interrupt i => OnlyReport B i.vector m m'

def halts : ReportEvent κ → Bool
  | .table _ => false
  | .debug _ => false
  | .interrupt i => isrEnd i.vector = .halted

end ReportEvent

variable {p : TablePlaces} {B : SerialData} {D : IsrData} {isrVectorAsm : Nat → Nat} {bsp : κ}
  {s s' t : ReportState κ} {e : ReportEvent κ} {events : List (ReportEvent κ)} {m m' : Mem}

theorem IsrData.Placed.store (h : D.Placed B m) (hsame : ∀ x, LiteralByte B D x → m' x = m x) :
    D.Placed B m' :=
  h.keep (fun a t ht x hx hlt => hsame x ⟨a, t, ht, hx, hlt⟩)

section Invariant

variable (hcanon : ∀ v < 256, Canonical (isrVectorAsm v))
  (hinj : ∀ v < 256, ∀ w < 256, isrVectorAsm v = isrVectorAsm w → v = w)

include hcanon hinj

omit [DecidableEq κ] in
theorem ReportInv.delivers (h : ReportInv p B D isrVectorAsm bsp s) (i : Interruption) :
    ∃ cpu', deliver s.tables.mem (s.tables.cpus bsp) i.cause i.vector i.errorCode i.cpu =
      .ok cpu' ∧ handlerSees isrVectorAsm cpu' = some i.frame := by
  obtain ⟨cpu', hok, -, -, hsees⟩ :=
    reaches_handler h.tables h.loaded hcanon hinj i.vector_lt i.kernel
    i.pushes i.sp_lt i.errorCode
  exact ⟨cpu', hok, hsees⟩

/-- Every interrupt is taken, and `isr_handler` comes to its end. -/
theorem ReportInv.takes (h : ReportInv p B D isrVectorAsm bsp s) (hruns : s.halted = false)
    (i : Interruption) : ∃ s', ReportStep p B D isrVectorAsm bsp s (.interrupt i) s' := by
  obtain ⟨cpu', hok, hsees⟩ := h.delivers hcanon hinj i
  obtain ⟨m', u', hgives, -⟩ := isrHandler_gives h.placed h.dlab i.frame
  exact ⟨_, .interrupt hruns hok hsees hgives⟩

theorem ReportInv.step (hplaced : ReportPlaced p B D) (h : ReportInv p B D isrVectorAsm bsp s)
    (hs : ReportStep p B D isrVectorAsm bsp s e s') : ReportInv p B D isrVectorAsm bsp s' ∧
      s'.uart.sent = s.uart.sent ++ e.text ∧ s.uart.SameLine s'.uart ∧
      s'.halted = (s.halted || e.halts) ∧ e.Writes B s.tables.mem s'.tables.mem := by
  cases hs with
  | @table e t hexec hstore =>
    have hrun : s.tables.run p [e] = some t := by simp [TablesState.run, hexec]
    have hloaded : (t.cpus bsp).Loaded p := h.tables.loaded h.loaded hrun (.inl rfl)
    obtain ⟨htables, -⟩ := h.tables.step (c := bsp) hexec
    have hliterals : D.Placed B t.mem := by
      apply h.placed.store
      intro x hx
      apply TablesState.exec_outside hexec (hplaced.literals x hx).2
      intro b hb
      exact hstore x b hb hx
    refine ⟨⟨htables, hloaded, hliterals, h.dlab⟩, ?_, .refl _, ?_, trivial⟩
    · simp [ReportEvent.text]
    · simp [ReportEvent.halts]
  | @debug format va va' w m' u' hruns hprints hfits hgives =>
    obtain ⟨m'', u'', hend, hsent, hline, hsame⟩ :=
      debug_gives h.placed.serial h.dlab hprints hfits
    obtain ⟨rfl, rfl⟩ : m'' = m' ∧ u'' = u' := by simpa using hend.unique hgives
    refine ⟨⟨h.tables.congr ?_, h.loaded, h.placed.frame hsame, hline.dlab h.dlab⟩, hsent,
      hline, ?_, hsame⟩
    · exact fun x hx => hsame x (hplaced.buffer x hx)
    · simp [ReportEvent.halts]
  | @interrupt i cpu' frame e m' u' hruns hdeliver hsees hgives =>
    obtain ⟨cpu'', hok, hframe⟩ := h.delivers hcanon hinj i
    obtain rfl : cpu'' = cpu' := Except.ok.inj (hok.symm.trans hdeliver)
    obtain rfl : i.frame = frame := Option.some.inj (hframe.symm.trans hsees)
    obtain ⟨m'', u'', hend, hsent, hline, hsame⟩ := isrHandler_gives h.placed h.dlab i.frame
    have hnumber : i.frame.isrNumber = i.vector := rfl
    rw [hnumber] at hend hsame
    obtain ⟨rfl, rfl, rfl⟩ : isrEnd i.vector = e ∧ m'' = m' ∧ u'' = u' := by
      simpa using hend.unique hgives
    have htables : TablesHold p isrVectorAsm m'' := h.tables.congr (fun x hx =>
      hsame.outside x (hplaced.buffer x hx) (fun heoi => (hplaced.eoi x heoi).1 hx))
    have hliterals : D.Placed B m'' := by
      apply h.placed.store
      rintro x ⟨a, t, ht, hx, hlt⟩
      have hout := (h.placed.apart a t ht).1
      exact hsame.outside x (by omega) (fun heoi => (hplaced.eoi x heoi).2 ⟨a, t, ht, hx, hlt⟩)
    refine ⟨⟨htables, h.loaded, hliterals, hline.dlab h.dlab⟩, hsent, hline, ?_, hsame⟩
    simp [ReportEvent.halts, hruns]

theorem ReportInv.run (hplaced : ReportPlaced p B D) (h : ReportInv p B D isrVectorAsm bsp s)
    (hr : ReportRun p B D isrVectorAsm bsp s events t) : ReportInv p B D isrVectorAsm bsp t ∧
      t.uart.sent = s.uart.sent ++ (events.map ReportEvent.text).flatten ∧
      s.uart.SameLine t.uart ∧ t.halted = (s.halted || events.any ReportEvent.halts) := by
  induction hr with
  | nil => simp [h, Uart.SameLine.refl]
  | @cons s e s' events t hstep hrest ih =>
    obtain ⟨hinv, hsent, hline, hhalted, -⟩ := h.step hcanon hinj hplaced hstep
    obtain ⟨hinv', hsent', hline', hhalted'⟩ := ih hinv
    refine ⟨hinv', ?_, hline.trans hline', ?_⟩
    · rw [hsent', hsent, List.map_cons, List.flatten_cons, List.append_assoc]
    · rw [hhalted', hhalted, List.any_cons, Bool.or_assoc]

end Invariant

end ApoptOS.Isr
