import ApoptOS.Tables.IsrDump

namespace ApoptOS.Isr

open Framework Printf Serial

def exceptions : List String :=
  ["#DE: Divide Error", "#DB: Debug Exception", " — : NMI Interrupt", "#BP: Breakpoint",
    "#OF: Overflow", "#BR: BOUND Range Exceeded", "#UD: Invalid Opcode (Undefined Opcode)",
    "#NM: Device Not Available (No Math Coprocessor)", "#DF: Double Fault",
    "— : Coprocessor Segment Overrun (reserved)", "#TS: Invalid TSS", "#NP: Segment Not Present",
    "#SS: Stack-Segment Fault", "#GP: General Protection", "#PF: Page Fault",
    "— : (Intel reserved. Do not use.)", "#MF: x87 FPU Floating-Point Error (Math Fault)",
    "#AC: Alignment Check", "#MC: Machine Check", "#XM: SIMD Floating-Point Exception",
    "#VE: Virtualization Exception", "#CP: Control Protection Exception",
    "— : Intel reserved. Do not use.", "— : Intel reserved. Do not use.",
    "— : Intel reserved. Do not use.", "— : Intel reserved. Do not use.",
    "— : Intel reserved. Do not use.", "— : Intel reserved. Do not use.",
    "— : Intel reserved. Do not use.", "— : Intel reserved. Do not use.",
    "— : Intel reserved. Do not use.", "— : Intel reserved. Do not use."]

def isaIrqs : List String :=
  ["Programmable Interrupt Timer", "Keyboard", "Cascade", "COM2", "COM1", "LPT2", "Floppy Disk",
    "LPT1 / Unreliable spurious interrupt", "CMOS real-time clock",
    "Free for peripherals / legacy SCSI / NIC", "Free for peripherals / SCSI / NIC",
    "Free for peripherals / SCSI / NIC", "PS2 Mouse", "FPU / Coprocessor / Inter-processor",
    "Primary ATA Hard Disk", "Secondary ATA Hard Disk"]

def lapicTimerInt : Nat := 32
def spuriousInt : Nat := 255

def bar : Text :=
  utf8 "\n────────────────────────\n"
def numberNameFormat : Text := utf8 "⤷ ISR-No. %d: %s\n"
def errorCodeFormat : Text := utf8 "⤷ Error code: 0x%.16llx\n\n\n"
def numberFormat : Text := utf8 "⤷ ISR-No. %d\n"

/-- Where the strings of this file are. -/
structure IsrData where
  red : Nat
  cyan : Nat
  colorReset : Nat
  exceptions : Nat → Nat
  isaIrqs : Nat → Nat

/-- How `isr_handler` ends: it returns, or the CPU is halted. -/
inductive IsrEnd where
  | returned
  | halted
  deriving DecidableEq, Repr

/-- The variable `lapic_address`, which only `apic_init` sets. The kernel does not call it. -/
def lapicAddress : Nat := 0

def lapicEoiReg : Nat := 0xB0

def lapicWriteReg (reg data : Nat) (m : Mem) : Mem := m.storeLE (lapicAddress + reg) 4 data

def lapicSignalEoi (m : Mem) : Mem := lapicWriteReg lapicEoiReg 0 m

section Code

variable (B : SerialData) (D : IsrData) (fuel : Nat)

/-- Calls of `debug` one after the other. -/
def debugAll : List (Text × List Nat) → Mem → Uart → Option (Mem × Uart)
  | [], m, u => some (m, u)
  | (format, va) :: calls, m, u =>
    (Serial.debug B fuel format va m u).bind fun (m, u) => debugAll calls m u

def isrRegisterDump (cpu : CpuInterruptState) (m : Mem) (u : Uart) : Option (Mem × Uart) :=
  debugAll B fuel [(dumpTitle, []), (dumpFormat, dumpArguments cpu)] m u

/-- The branches of `isr_handler` print their title, one in red, and the registers. -/
def report (title : List (Text × List Nat)) (cpu : CpuInterruptState) (m : Mem) (u : Uart) :
    Option (Mem × Uart) :=
  (Serial.debugSetColor fuel D.red m u).bind fun u =>
    (debugAll B fuel ((bar, []) :: title) m u).bind fun (m, u) =>
      (Serial.debugSetColor fuel D.cyan m u).bind fun u =>
        (isrRegisterDump B fuel cpu m u).bind fun (m, u) =>
          (Serial.debugSetColor fuel D.colorReset m u).map fun u => (m, u)

def isrHandler (cpu : CpuInterruptState) (m : Mem) (u : Uart) : Option (IsrEnd × Mem × Uart) :=
  if cpu.isrNumber < 32 then
    (report B D fuel [(utf8 "⚠ EXCEPTION OCCURRED! ⚠\n\n", []),
      (numberNameFormat, [cpu.isrNumber, D.exceptions cpu.isrNumber]),
      (errorCodeFormat, [cpu.errorCode])] cpu m u).map fun r => (.halted, r)
  else if 32 ≤ cpu.isrNumber ∧ cpu.isrNumber < 48 then
    if cpu.isrNumber = lapicTimerInt then
      (Serial.debug B fuel (utf8 ".") [] m u).map fun (m, u) => (.returned, lapicSignalEoi m, u)
    else
      (report B D fuel [(utf8 "⚠ UNHANDLED HARDWARE INTERRUPT OCCURRED! ⚠\n\n", []),
        (numberNameFormat, [cpu.isrNumber, D.isaIrqs (cpu.isrNumber - 32)])] cpu m u).map
          fun (m, u) => (.returned, lapicSignalEoi m, u)
  else if cpu.isrNumber = syscallInt then
    (report B D fuel [(utf8 "⚠ SYSCALL OCCURRED - UNHANDLED FOR NOW! ⚠\n\n", [])] cpu m u).map
      fun r => (.returned, r)
  else if cpu.isrNumber = spuriousInt then
    (report B D fuel [(utf8 "⚠ SPURIOUS INTERRUPT OCCURRED - UNHANDLED FOR NOW! ⚠\n\n", [])]
      cpu m u).map fun r => (.halted, r)
  else
    (report B D fuel [(utf8 "⚠ UNKNOWN INTERRUPT OCCURRED! ⚠\n\n", []),
      (numberFormat, [cpu.isrNumber])] cpu m u).map fun r => (.halted, r)

end Code

/-- The string literals that are read through a pointer. -/
inductive Literal (B : SerialData) (D : IsrData) : Nat → Text → Prop where
  | color (status : LogStatus) : Literal B D (B.color status) (colorCode status)
  | logReset : Literal B D B.colorReset colorResetCode
  | red : Literal B D D.red (colorCode .panic)
  | cyan : Literal B D D.cyan (colorCode .info)
  | colorReset : Literal B D D.colorReset colorResetCode
  | exception {n : Nat} {t : String} (h : exceptions[n]? = some t) :
      Literal B D (D.exceptions n) (utf8 t)
  | isaIrq {n : Nat} {t : String} (h : isaIrqs[n]? = some t) : Literal B D (D.isaIrqs n) (utf8 t)

/-- The literals are where the linker puts them, away from the buffers. -/
structure IsrData.Placed (D : IsrData) (B : SerialData) (m : Mem) : Prop where
  debug_ne : B.debugBuffer ≠ 0
  log_ne : B.logBuffer ≠ 0
  debug_fits : B.debugBuffer + bufferSize ≤ 2 ^ 64
  log_fits : B.logBuffer + bufferSize ≤ 2 ^ 64
  log_apart : B.logBuffer + bufferSize ≤ B.debugBuffer ∨
    B.debugBuffer + bufferSize ≤ B.logBuffer
  holds : ∀ a t, Literal B D a t → HoldsString m a t
  apart : ∀ a t, Literal B D a t → B.Apart a (t.length + 1)

/-- Nothing is changed but the buffer of `debug`. -/
def OnlyDebugBuffer (B : SerialData) (m m' : Mem) : Prop :=
  ∀ x, x < B.debugBuffer ∨ B.debugBuffer + bufferSize ≤ x → m' x = m x

/-- A byte of the register that `lapic_signal_eoi` writes to, at the address it takes it to have. -/
def EoiByte (x : Nat) : Prop :=
  lapicAddress + lapicEoiReg ≤ x ∧ x < lapicAddress + lapicEoiReg + 4

/-- Nothing else is changed by `isr_handler`: besides the buffer four bytes are, to zero, for an
interrupt from one of the lines. -/
structure OnlyReport (B : SerialData) (isrNumber : Nat) (m m' : Mem) : Prop where
  outside : ∀ x, x < B.debugBuffer ∨ B.debugBuffer + bufferSize ≤ x → ¬ EoiByte x →
    m' x = m x
  line : 32 ≤ isrNumber ∧ isrNumber < 48 → ∀ x, EoiByte x → m' x = 0
  other : ¬ (32 ≤ isrNumber ∧ isrNumber < 48) → OnlyDebugBuffer B m m'

def numberNameText (isrNumber : Nat) (name : Text) : Text :=
  utf8 "⤷ ISR-No. " ++ (decimalText (asInt 32 isrNumber) ++ (utf8 ": " ++ (name ++ utf8 "\n")))

def errorCodeText (errorCode : Nat) : Text :=
  utf8 "⤷ Error code: 0x" ++ (hexText (errorCode % 2 ^ 64) ++ utf8 "\n\n\n")

def numberText (isrNumber : Nat) : Text :=
  utf8 "⤷ ISR-No. " ++ (decimalText (asInt 32 isrNumber) ++ utf8 "\n")

/-- What an interrupt is announced with. -/
def titleText (cpu : CpuInterruptState) : List Text :=
  if cpu.isrNumber < 32 then
    [utf8 "⚠ EXCEPTION OCCURRED! ⚠\n\n",
      numberNameText cpu.isrNumber (utf8 (exceptions.getD cpu.isrNumber "")),
      errorCodeText cpu.errorCode]
  else if cpu.isrNumber < 48 then
    [utf8 "⚠ UNHANDLED HARDWARE INTERRUPT OCCURRED! ⚠\n\n",
      numberNameText cpu.isrNumber (utf8 (isaIrqs.getD (cpu.isrNumber - 32) ""))]
  else if cpu.isrNumber = syscallInt then
    [utf8 "⚠ SYSCALL OCCURRED - UNHANDLED FOR NOW! ⚠\n\n"]
  else if cpu.isrNumber = spuriousInt then
    [utf8 "⚠ SPURIOUS INTERRUPT OCCURRED - UNHANDLED FOR NOW! ⚠\n\n"]
  else [utf8 "⚠ UNKNOWN INTERRUPT OCCURRED! ⚠\n\n", numberText cpu.isrNumber]

def reportText (title : List Text) (cpu : CpuInterruptState) : Text :=
  colorCode .panic ++ ((bar :: title).flatten ++ (colorCode .info ++
    (dumpTitle ++ dumpText cpu ++ colorResetCode)))

/-- What `isr_handler` sends. -/
def isrText (cpu : CpuInterruptState) : Text :=
  if cpu.isrNumber = lapicTimerInt then utf8 "." else reportText (titleText cpu) cpu

def isrEnd (isrNumber : Nat) : IsrEnd :=
  if 32 ≤ isrNumber ∧ isrNumber < 48 then .returned
  else if isrNumber = syscallInt then .returned
  else .halted

section Report

variable {B : SerialData} {D : IsrData} {m m' m'' : Mem} {u : Uart} {a : Nat} {t : Text}
  {call : Text × List Nat} {calls : List (Text × List Nat)} {ts : List Text}

theorem OnlyDebugBuffer.refl (B : SerialData) (m : Mem) : OnlyDebugBuffer B m m := fun _ _ => rfl

theorem OnlyDebugBuffer.trans (h : OnlyDebugBuffer B m m') (h' : OnlyDebugBuffer B m' m'') :
    OnlyDebugBuffer B m m'' := fun x hx => (h' x hx).trans (h x hx)

theorem IsrData.Placed.keep (h : D.Placed B m)
    (hsame : ∀ a t, Literal B D a t → ∀ x, a ≤ x → x < a + (t.length + 1) →
      m' x = m x) :
    D.Placed B m' where
  debug_ne := h.debug_ne
  log_ne := h.log_ne
  debug_fits := h.debug_fits
  log_fits := h.log_fits
  log_apart := h.log_apart
  holds a t ht := holdsString_frame (h.holds a t ht) (hsame a t ht)
  apart := h.apart

theorem IsrData.Placed.frame (h : D.Placed B m) (hsame : OnlyDebugBuffer B m m') :
    D.Placed B m' := by
  apply h.keep
  intro a t ht x hx hlt
  have hout := (h.apart a t ht).1
  exact hsame x (by omega)

theorem lapicSignalEoi_line {isrNumber : Nat} (hline : 32 ≤ isrNumber ∧ isrNumber < 48)
    (hsame : OnlyDebugBuffer B m m') : OnlyReport B isrNumber m (lapicSignalEoi m') where
  outside x hx heoi := by
    rw [lapicSignalEoi, lapicWriteReg,
      Mem.storeLE_outside _ _ _ _ _ (by unfold EoiByte at heoi; omega)]
    exact hsame x hx
  line _ x heoi := Mem.storeLE_zero m' heoi.1 heoi.2
  other h := absurd hline h

theorem IsrData.Placed.serial (h : D.Placed B m) : B.Placed m where
  debug_ne := h.debug_ne
  log_ne := h.log_ne
  debug_fits := h.debug_fits
  log_fits := h.log_fits
  log_apart := h.log_apart
  color status := ⟨h.holds _ _ (.color status), h.apart _ _ (.color status)⟩
  colorReset := ⟨h.holds _ _ .logReset, h.apart _ _ .logReset⟩

/-- A call of `debug` prints a text, whatever is in its buffer. -/
structure Says (B : SerialData) (m : Mem) (call : Text × List Nat) (t : Text) : Prop where
  prints : ∀ m', OnlyDebugBuffer B m m' → Prints (cString m') call.1 call.2 [] t
  fits : t.length < bufferSize
  plain : ∀ c ∈ t, c ≠ 0

theorem Says.frame (h : Says B m call t) (hsame : OnlyDebugBuffer B m m') : Says B m' call t :=
  ⟨fun _ hm => h.prints _ (hsame.trans hm), h.fits, h.plain⟩

theorem debugAll_gives (hD : D.Placed B m) (hdlab : u.dlab = false)
    (h : List.Forall₂ (Says B m) calls ts) :
    ∃ m' u', Gives (fun n => debugAll B n calls m u) (m', u') ∧
      u'.sent = u.sent ++ ts.flatten ∧ u.SameLine u' ∧ OnlyDebugBuffer B m m' := by
  induction calls generalizing ts m u with
  | nil =>
    cases h
    exact ⟨m, u, gives_some _, by simp, .refl u, .refl B m⟩
  | cons call calls ih =>
    cases h with
    | @cons _ t _ ts hcall hcalls =>
      obtain ⟨m₁, u₁, hdebug, hsent₁, hline₁, hsame₁⟩ :=
        debug_gives hD.serial hdlab (hcall.prints m (.refl B m)) hcall.fits
      rw [untilZero_eq hcall.plain] at hsent₁
      have hrest := hcalls.imp (fun _ _ hsays => hsays.frame hsame₁)
      obtain ⟨m', u', hall, hsent, hline, hsame⟩ :=
        ih (hD.frame hsame₁) (hline₁.dlab hdlab) hrest
      refine ⟨m', u', hdebug.bind hall, ?_, hline₁.trans hline, .trans hsame₁ hsame⟩
      rw [hsent, hsent₁, List.flatten_cons, List.append_assoc]

/-- A text without a directive. -/
theorem says_plain {w : Text} (hw : isPlain w = true) (hfits : w.length < bufferSize) :
    Says B m (w, []) w :=
  ⟨fun _ _ => prints_isPlain _ [] hw, hfits, isPlain_ne_zero hw⟩

theorem says_dump (cpu : CpuInterruptState) :
    Says B m (dumpFormat, dumpArguments cpu) (dumpText cpu) :=
  ⟨fun _ _ => prints_dump _ cpu, dumpText_length cpu, dumpText_plain cpu⟩

theorem decimalText_length (n : Nat) : (decimalText (asInt 32 n)).length ≤ 21 := by
  have hlt := asInt_natAbs_le (by decide : 32 ≤ 64) n
  have hdigits : (numeral 10 (asInt 32 n).natAbs).length ≤ 20 :=
    (numeral_length_le_iff (by decide) (by decide)).mpr (hlt.trans (by decide))
  unfold decimalText digitText
  split_ifs <;> simp <;> omega

/-- A line is said if each of its three parts may stand in a format or is what a directive
prints. -/
theorem says_number {format rest before after : Text} {n : Nat} {va : List Nat}
    (hformat : format = before ++ (ascii ['%', 'd'] ++ rest))
    (hbefore : isPlain before = true)
    (hrest : ∀ m', OnlyDebugBuffer B m m' → Prints (cString m') rest va [] after)
    (hfits : before.length + 21 + after.length < bufferSize) (hafter : ∀ c ∈ after, c ≠ 0) :
    Says B m (format, n :: va) (before ++ (decimalText (asInt 32 n) ++ after)) := by
  have hlen := decimalText_length n
  refine ⟨fun m' hm => ?_, ?_, fun c hc => ?_⟩
  · rw [hformat]
    apply (prints_isPlain _ _ hbefore).append
    exact (prints_decimal _ n va).append (hrest m' hm)
  · rw [List.length_append, List.length_append]
    omega
  · rw [List.mem_append, List.mem_append] at hc
    rcases hc with hc | hc | hc
    · exact isPlain_ne_zero hbefore c hc
    · exact decimalText_ne_zero _ c hc
    · exact hafter c hc

theorem says_numberName (hD : D.Placed B m) (hname : Literal B D a t) (hfits : t.length ≤ 100)
    (n : Nat) :
    Says B m (numberNameFormat, [n, a]) (numberNameText n t) := by
  have hformat : numberNameFormat = utf8 "⤷ ISR-No. " ++
      (ascii ['%', 'd'] ++ (utf8 ": " ++ (ascii ['%', 's'] ++ utf8 "\n"))) := by decide +kernel
  have hbefore : isPlain (utf8 "⤷ ISR-No. ") = true := by decide
  have hcolon : isPlain (utf8 ": ") = true := by decide
  have hend : isPlain (utf8 "\n") = true := by decide
  apply says_number hformat hbefore
  · intro m' hm
    have hholds := (hD.frame hm).holds a t hname
    have hstring := prints_string (cString m') a []
    rw [cString_eq hholds] at hstring
    apply (prints_isPlain _ _ hcolon).append
    exact hstring.append (prints_isPlain _ _ hend)
  · have hlen :
        (utf8 "⤷ ISR-No. ").length + 21 + ((utf8 ": ").length + (100 + (utf8 "\n").length)) <
        bufferSize := by decide
    rw [List.length_append, List.length_append]
    omega
  · intro c hc
    rw [List.mem_append, List.mem_append] at hc
    rcases hc with hc | hc | hc
    · exact isPlain_ne_zero hcolon c hc
    · exact HoldsString.ne_zero (hD.holds a t hname) c hc
    · exact isPlain_ne_zero hend c hc

theorem says_numberOnly (n : Nat) : Says B m (numberFormat, [n]) (numberText n) := by
  have hformat : numberFormat = utf8 "⤷ ISR-No. " ++ (ascii ['%', 'd'] ++ utf8 "\n") := by
    decide +kernel
  have hend : isPlain (utf8 "\n") = true := by decide
  apply says_number hformat (by decide)
  · exact fun _ _ => prints_isPlain _ _ hend
  · decide
  · exact isPlain_ne_zero hend

theorem says_errorCode (e : Nat) : Says B m (errorCodeFormat, [e]) (errorCodeText e) := by
  have hformat : errorCodeFormat = utf8 "⤷ Error code: 0x" ++ (hexFormat ++ utf8 "\n\n\n") := by
    decide +kernel
  have hbefore : isPlain (utf8 "⤷ Error code: 0x") = true := by decide
  have hend : isPlain (utf8 "\n\n\n") = true := by decide
  refine ⟨fun m' _ => ?_, ?_, fun c hc => ?_⟩
  · rw [hformat]
    apply (prints_isPlain _ _ hbefore).append
    exact (prints_hex _ e []).append (prints_isPlain _ _ hend)
  · have hlen : (utf8 "⤷ Error code: 0x").length + (16 + (utf8 "\n\n\n").length) <
        bufferSize := by decide
    rwa [errorCodeText, List.length_append, List.length_append,
      hexText_length (Nat.mod_lt e (by decide))]
  · rw [errorCodeText, List.mem_append, List.mem_append] at hc
    rcases hc with hc | hc | hc
    · exact isPlain_ne_zero hbefore c hc
    · exact padded_plain (by decide) (by decide) hc
    · exact isPlain_ne_zero hend c hc

theorem names_fit : (∀ t ∈ exceptions, (utf8 t).length ≤ 100) ∧
    ∀ t ∈ isaIrqs, (utf8 t).length ≤ 100 := by
  decide +kernel

/-- Every branch but one: a title in red and the registers. -/
theorem report_gives (hD : D.Placed B m) (hdlab : u.dlab = false) {title : List (Text × List Nat)}
    (h : List.Forall₂ (Says B m) title ts) (cpu : CpuInterruptState) :
    ∃ m' u', Gives (fun n => report B D n title cpu m u) (m', u') ∧
      u'.sent = u.sent ++ reportText ts cpu ∧ u.SameLine u' ∧ OnlyDebugBuffer B m m' := by
  have hbar : Says B m (bar, []) bar := says_plain (by decide) (by decide)
  have htitle : ∀ m, Says B m (dumpTitle, []) dumpTitle :=
    fun m => says_plain (by decide) (by decide)
  obtain ⟨u₁, hred, hsent₁, hline₁⟩ := debugSetColor_gives (hD.holds _ _ .red) hdlab
  have hdlab₁ := hline₁.dlab hdlab
  obtain ⟨m₂, u₂, hshow, hsent₂, hline₂, hsame₂⟩ :=
    debugAll_gives hD hdlab₁ (.cons hbar h)
  have hdlab₂ := hline₂.dlab hdlab₁
  have hD₂ := hD.frame hsame₂
  obtain ⟨u₃, hcyan, hsent₃, hline₃⟩ :=
    debugSetColor_gives (hD₂.holds _ _ .cyan) hdlab₂
  have hdlab₃ := hline₃.dlab hdlab₂
  obtain ⟨m₄, u₄, hdump, hsent₄, hline₄, hsame₄⟩ :=
    debugAll_gives hD₂ hdlab₃ (.cons (htitle m₂) (.cons (says_dump cpu) .nil))
  have hdlab₄ := hline₄.dlab hdlab₃
  obtain ⟨u₅, hreset, hsent₅, hline₅⟩ :=
    debugSetColor_gives ((hD₂.frame hsame₄).holds _ _ .colorReset) hdlab₄
  refine ⟨m₄, u₅, hred.bind (hshow.bind (hcyan.bind (hdump.bind (hreset.map _)))), ?_,
    (((hline₁.trans hline₂).trans hline₃).trans hline₄).trans hline₅,
    .trans hsame₂ hsame₄⟩
  rw [hsent₅, hsent₄, hsent₃, hsent₂, hsent₁]
  simp only [reportText, List.append_assoc, List.flatten_cons, List.flatten_nil, List.append_nil]
  rfl

theorem says_name {names : List String} (hD : D.Placed B m)
    (hfit : ∀ t ∈ names, (utf8 t).length ≤ 100)
    {place : Nat → Nat}
    (hplace : ∀ {k t}, names[k]? = some t → Literal B D (place k) (utf8 t)) {k : Nat}
    (hk : k < names.length) (n : Nat) : Says B m (numberNameFormat, [n, place k])
      (numberNameText n (utf8 (names.getD k ""))) := by
  have hname : names[k]? = some (names.getD k "") := by simp [hk]
  exact says_numberName hD (hplace hname) (hfit _ (List.mem_of_getElem? hname)) n

/-- `isr_handler` on a frame: what it sends, what it leaves as it was, and how it ends. -/
theorem isrHandler_gives (hD : D.Placed B m) (hdlab : u.dlab = false) (cpu : CpuInterruptState) :
    ∃ m' u', Gives (fun n => isrHandler B D n cpu m u) (isrEnd cpu.isrNumber, m', u') ∧
      u'.sent = u.sent ++ isrText cpu ∧ u.SameLine u' ∧ OnlyReport B cpu.isrNumber m m' := by
  have hreport {title ts} (e : IsrEnd) (hno : ¬ (32 ≤ cpu.isrNumber ∧ cpu.isrNumber < 48))
      (h : List.Forall₂ (Says B m) title ts) :
      ∃ m' u', Gives (fun n => (report B D n title cpu m u).map fun r => (e, r)) (e, m', u') ∧
        u'.sent = u.sent ++ reportText ts cpu ∧ u.SameLine u' ∧
        OnlyReport B cpu.isrNumber m m' := by
    obtain ⟨m', u', hgives, hsent, hline, hsame⟩ := report_gives hD hdlab h cpu
    exact ⟨m', u', hgives.map _, hsent, hline, fun x hx _ => hsame x hx, fun h => absurd h hno,
      fun _ => hsame⟩
  unfold isrHandler isrText isrEnd titleText
  generalize hn : cpu.isrNumber = n at hreport ⊢
  by_cases hexception : n < 32
  · have hno : n ≠ lapicTimerInt ∧ ¬ (32 ≤ n ∧ n < 48) ∧ n ≠ syscallInt := by
      unfold lapicTimerInt syscallInt
      omega
    simp only [hexception, hno, if_true, if_false]
    exact hreport .halted hno.2.1 (.cons (says_plain (by decide) (by decide))
      (.cons (says_name hD names_fit.1 .exception hexception n) (.cons (says_errorCode _) .nil)))
  · by_cases hirq : n < 48
    · have hrange : 32 ≤ n ∧ n < 48 := ⟨by omega, hirq⟩
      by_cases htimer : n = lapicTimerInt
      · subst htimer
        have hdot : Says B m (utf8 ".", []) (utf8 ".") := says_plain (by decide) (by decide)
        obtain ⟨m', u', hdebug, hsent, hline, hsame⟩ :=
          debug_gives hD.serial hdlab (hdot.prints m (.refl B m)) hdot.fits
        rw [untilZero_eq hdot.plain] at hsent
        refine ⟨_, u', ?_, by rw [if_pos rfl, hsent], hline, lapicSignalEoi_line hrange hsame⟩
        simp only [hexception, hrange, and_self, if_true, if_false]
        exact hdebug.map _
      · simp only [hexception, hirq, hrange, htimer, and_self, if_true, if_false]
        have hk : n - 32 < isaIrqs.length := by
          have hlen : isaIrqs.length = 16 := rfl
          omega
        have htitle : Says B m (utf8 "⚠ UNHANDLED HARDWARE INTERRUPT OCCURRED! ⚠\n\n", [])
            (utf8 "⚠ UNHANDLED HARDWARE INTERRUPT OCCURRED! ⚠\n\n") :=
          says_plain (by decide) (by decide)
        obtain ⟨m', u', hgives, hsent, hline, hsame⟩ := report_gives hD hdlab
          (.cons htitle (.cons (says_name hD names_fit.2 .isaIrq hk n) .nil)) cpu
        exact ⟨_, u', hgives.map _, hsent, hline, lapicSignalEoi_line hrange hsame⟩
    · have hno : n ≠ lapicTimerInt ∧ ¬ (32 ≤ n ∧ n < 48) := by
        unfold lapicTimerInt
        omega
      by_cases hsyscall : n = syscallInt
      · subst hsyscall
        simp only [hexception, hirq, hno, if_true, if_false]
        exact hreport .returned hno.2 (.cons (says_plain (by decide) (by decide)) .nil)
      · by_cases hspurious : n = spuriousInt
        · subst hspurious
          simp only [hexception, hirq, hno, hsyscall, if_true, if_false]
          exact hreport .halted hno.2 (.cons (says_plain (by decide) (by decide)) .nil)
        · simp only [hexception, hirq, hno, hsyscall, hspurious, and_false, if_false]
          exact hreport .halted hno.2 (.cons (says_plain (by decide) (by decide))
            (.cons (says_numberOnly n) .nil))

end Report

end ApoptOS.Isr
