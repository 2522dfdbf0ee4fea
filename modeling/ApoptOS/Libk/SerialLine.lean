import ApoptOS.Framework.Tape
import ApoptOS.Libk.Serial

namespace ApoptOS.Serial

open Framework Printf

/-- The logging functions as lists of commands. What a command formats or is to find in a buffer
is the text that its call has been given; a step of a command is one character. -/
inductive SerialCmd where
  | acquire (l : KernelLock)
  | release (l : KernelLock)
  | work
  /-- `vsnprintf` of a text into the buffer that a lock protects. -/
  | format (l : KernelLock) (t : Text)
  /-- `vsnprintf` into `debug_buffer` of a text that ends with the string in `log_buffer`. -/
  | formatLine (head t : Text)
  /-- `com_send_string` of `debug_buffer`. -/
  | sendBuffer (t : Text)
  /-- The assertion of `debug_set_color`. -/
  | assertColor (t : Text)
  /-- `com_send_string` of a colour code. -/
  | sendCode (t : Text)
  /-- `cli; hlt` for good. -/
  | halt

/-- A message sent as a whole, and whether its CPU held `log_lock`. -/
structure Message where
  logged : Bool
  text : Text

/-- What the CPUs share. The messages sent and the lines logged are kept for the proofs only. -/
structure SerialState where
  locks : KernelLock → Spinlock
  /-- `log_buffer` and `debug_buffer`, by the locks that protect them. -/
  buffer : KernelLock → Nat → BitVec 8
  wire : Text
  messages : List Message
  lines : List (List Text)

/-- A CPU, what is left of its call, the characters done of the command it is at, and the messages
it has sent since it took `log_lock`, which are kept for the proofs only. -/
structure Talker where
  cpu : Cpu KernelLock
  code : List SerialCmd
  pos : Nat
  said : List Text

def SerialState.store (x : SerialState) (l : KernelLock) (pos : Nat) (c : BitVec 8) : SerialState :=
  { x with buffer := Function.update x.buffer l (Function.update (x.buffer l) pos c) }

theorem SerialState.store_same (x : SerialState) (l : KernelLock) (pos : Nat) (c : BitVec 8) :
    (x.store l pos c).buffer l = Function.update (x.buffer l) pos c := Function.update_self ..

theorem SerialState.store_other (x : SerialState) {k l : KernelLock} (h : k ≠ l) (pos : Nat)
    (c : BitVec 8) : (x.store l pos c).buffer k = x.buffer k := Function.update_of_ne h ..

def SerialState.send (x : SerialState) (c : BitVec 8) : SerialState :=
  { x with wire := x.wire ++ [c] }

/-- `color_code[0] == '\e' && color_code[1] == '['`. -/
def IsColorCode (t : Text) : Prop := t[0]? = some 0x1B ∧ t[1]? = some (chr '[')

instance (t : Text) : Decidable (IsColorCode t) := inferInstanceAs (Decidable (_ ∧ _))

/-- One step of a command that is none of a lock, and how far the command has come with it if it
is not done. There is none where the CPU is halted or an assertion fails. -/
def SerialCmd.exec (x : SerialState) (pos : Nat) : SerialCmd → Option (SerialState × Option Nat)
  | .acquire _ | .release _ | .halt => none
  | .work => some (x, none)
  | .format l t =>
    match t[pos]? with
    | some c => some (x.store l pos c, some (pos + 1))
    | none => some (x.store l pos 0, none)
  | .formatLine head _ =>
    match head[pos]? with
    | some c => some (x.store .debug pos c, some (pos + 1))
    | none =>
      let c := x.buffer .log (pos - head.length)
      some (x.store .debug pos c, if c ≠ 0 then some (pos + 1) else none)
  | .sendBuffer _ =>
    let c := x.buffer .debug pos
    if c ≠ 0 then some (x.send c, some (pos + 1)) else some (x, none)
  | .assertColor t => if IsColorCode t then some (x, none) else none
  | .sendCode t =>
    match t[pos]? with
    | some c => some (x.send c, some (pos + 1))
    | none => some (x, none)

/-- The message that a command sends. -/
def SerialCmd.message : SerialCmd → Option Text
  | .sendBuffer t | .sendCode t => some t
  | _ => none

/-- `debug` with a format that prints `t`. -/
def debugCode (t : Text) : List SerialCmd :=
  [.acquire .debug, .format .debug t, .sendBuffer t, .release .debug]

def debugSetColorCode (t : Text) : List SerialCmd :=
  [.acquire .debug, .assertColor t, .sendCode t, .release .debug]

/-- `log_impl` with a format that prints `t`. -/
def logImplCode (status : LogStatus) (file : Text) (line : Nat) (t : Text) : List SerialCmd :=
  [.acquire .log, .format .log t] ++ debugSetColorCode (colorCode status) ++
    [.acquire .debug, .formatLine (lineText status file line []) t,
      .sendBuffer (lineText status file line t), .release .debug] ++
    if status = .panic then [.halt] else debugSetColorCode colorResetCode ++ [.release .log]

/-- What a call of `log_impl` is given. -/
structure LogArgs where
  status : LogStatus
  file : Text
  line : Nat
  text : Text

def LogArgs.code (a : LogArgs) : List SerialCmd := logImplCode a.status a.file a.line a.text

inductive SerialCall where
  | debug (t : Text)
  | debugSetColor (t : Text)
  | logImpl (a : LogArgs)
  /-- A critical section of the start-up of the CPUs, with the lines it logs. -/
  | smpSection (logs : List LogArgs)

def SerialCall.code : SerialCall → List SerialCmd
  | .debug t => debugCode t
  | .debugSetColor t => debugSetColorCode t
  | .logImpl a => a.code
  | .smpSection logs =>
    [.acquire .smp, .work] ++ logs.flatMap (fun a => a.code ++ [.work]) ++ [.release .smp]

def ZeroFree (t : Text) : Prop := ∀ c ∈ t, c ≠ 0

/-- A call that returns, with texts that have no zero in them and fit the buffers. -/
def LogArgs.Valid (a : LogArgs) : Prop :=
  a.status ≠ .panic ∧ ZeroFree a.file ∧ ZeroFree a.text ∧ a.text.length < bufferSize ∧
    (lineText a.status a.file a.line a.text).length < bufferSize

def SerialCall.Valid : SerialCall → Prop
  | .debug t => ZeroFree t ∧ t.length < bufferSize
  | .debugSetColor t => IsColorCode t ∧ ZeroFree t
  | .logImpl a => a.Valid
  | .smpSection logs => ∀ a ∈ logs, a.Valid

/-- `spinlock_release(&log_lock)` ends a line. -/
def SerialState.released (x : SerialState) (l : KernelLock) (said : List Text) : SerialState :=
  if l = .log then { x with lines := x.lines ++ [said] } else x

def SerialState.record (x : SerialState) (logged : Bool) : Option Text → SerialState
  | some t => { x with messages := x.messages ++ [⟨logged, t⟩] }
  | none => x

def Talker.logged (y : Talker) : Bool := KernelLock.log ∈ y.cpu.held

/-- What a CPU does: a step inside a spinlock function, the next step of its call, `log(PANIC)`
where an assertion fails, another call when it is done, or anything with its interrupt flag between
calls. -/
inductive TalkerMove (x : SerialState) (y : Talker) : SerialState × Talker → Prop where
  | spin {locks : KernelLock → Spinlock} {cpu : Cpu KernelLock}
      (h : y.cpu.step x.locks = some (locks, cpu)) :
      TalkerMove x y ({ x with locks := locks }, { y with cpu := cpu })
  | acquire {l : KernelLock} {rest : List SerialCmd} {cpu : Cpu KernelLock}
      (hcode : y.code = .acquire l :: rest)
      (h : y.cpu.exec x.locks (.acquire l) = some (x.locks, cpu)) :
      TalkerMove x y (x, { y with cpu := cpu, code := rest })
  | release {l : KernelLock} {rest : List SerialCmd} {cpu : Cpu KernelLock}
      (hcode : y.code = .release l :: rest)
      (h : y.cpu.exec x.locks (.release l) = some (x.locks, cpu)) :
      TalkerMove x y (x.released l y.said,
        { y with cpu := cpu, code := rest, said := if l = .log then [] else y.said })
  | more {cmd : SerialCmd} {rest : List SerialCmd} {x' : SerialState} {pos : Nat}
      (hcode : y.code = cmd :: rest) (hpc : y.cpu.pc = .idle)
      (h : cmd.exec x y.pos = some (x', some pos)) : TalkerMove x y (x', { y with pos := pos })
  | done {cmd : SerialCmd} {rest : List SerialCmd} {x' : SerialState}
      (hcode : y.code = cmd :: rest) (hpc : y.cpu.pc = .idle)
      (h : cmd.exec x y.pos = some (x', none)) :
      TalkerMove x y (x'.record y.logged cmd.message,
        { y with
          code := rest
          pos := 0
          said := if y.logged then y.said ++ cmd.message.toList else y.said })
  | fails {t file text : Text} {line : Nat} {rest : List SerialCmd}
      (hcode : y.code = .assertColor t :: rest) (hpc : y.cpu.pc = .idle) (h : ¬ IsColorCode t) :
      TalkerMove x y (x, { y with code := logImplCode .panic file line text })
  | call (k : SerialCall) (hk : k.Valid) (hcode : y.code = []) (hpc : y.cpu.pc = .idle) :
      TalkerMove x y (x, { y with code := k.code })
  | flag {v : Bool} {cpu : Cpu KernelLock} (hcode : y.code = [])
      (h : y.cpu.exec x.locks (.flag v) = some (x.locks, cpu)) :
      TalkerMove x y (x, { y with cpu := cpu })

def talkerAct {κ : Type} (_ : κ) (before after : SerialState × Talker) : Prop :=
  TalkerMove before.1 before.2 after

/-- The locks that a CPU holds when it has left the spinlock function it is in. -/
def heldSoon (cpu : Cpu KernelLock) : List KernelLock :=
  match cpu.pc with
  | .idle | .readFlag _ | .storeFlag _ _ | .cli _ => cpu.held
  | .testAndSet l => l :: cpu.held
  | .loadFlag _ | .stiOrCli _ _ | .clear _ => cpu.held.tail

/-- The three messages of a line: the colour, the text, and the colour reset. -/
def IsLine (said : List Text) : Prop :=
  ∃ status file line t, said = [colorCode status, lineText status file line t, colorResetCode]

/-- The text that the rest of a call relies on to be in the buffer of a lock. -/
def relies (l : KernelLock) : List SerialCmd → Option Text
  | [] => none
  | .format k _ :: rest => if l = k then none else relies l rest
  | .formatLine _ t :: rest =>
    if l = .log then some t else if l = .debug then none else relies l rest
  | .sendBuffer t :: rest => if l = .debug then some t else relies l rest
  | .halt :: _ => none
  | .acquire _ :: rest | .release _ :: rest | .work :: rest | .assertColor _ :: rest
  | .sendCode _ :: rest => relies l rest

/-- With the locks `held` and after the messages `said` under `log_lock`, the rest of a call takes
and releases its locks in turn, uses a buffer only under its lock, relies only on what it has put
there since, says a whole line before it releases `log_lock`, passes its assertions and comes to
its end. -/
def Disciplined (held : List KernelLock) (said : List Text) : List SerialCmd → Prop
  | [] => held = []
  | .acquire l :: rest => l ∉ held ∧ relies l rest = none ∧ Disciplined (l :: held) said rest
  | .release l :: rest => ∃ ls, held = l :: ls ∧ relies l rest = none ∧
      (l = .log → IsLine said) ∧ Disciplined ls (if l = .log then [] else said) rest
  | .work :: rest => Disciplined held said rest
  | .format l t :: rest => l ∈ held ∧ (∀ u, relies l rest = some u → u = t) ∧
      Disciplined held said rest
  | .formatLine head t :: rest => .log ∈ held ∧ .debug ∈ held ∧ ZeroFree t ∧
      (∀ u, relies .debug rest = some u → u = head ++ t) ∧
      (∀ u, relies .log rest = some u → u = t) ∧ Disciplined held said rest
  | .sendBuffer t :: rest => .debug ∈ held ∧ ZeroFree t ∧
      (∀ u, relies .debug rest = some u → u = t) ∧
      Disciplined held (if .log ∈ held then said ++ [t] else said) rest
  | .assertColor t :: rest => .debug ∈ held ∧ IsColorCode t ∧ Disciplined held said rest
  | .sendCode t :: rest => .debug ∈ held ∧
      Disciplined held (if .log ∈ held then said ++ [t] else said) rest
  | .halt :: _ => False

section Discipline

variable {held : List KernelLock} {said : List Text} {code rest : List SerialCmd} {l : KernelLock}
  {t : Text}

/-- A call relies on a buffer only while it holds the lock. -/
theorem Disciplined.held_of_relies (h : Disciplined held said code) (ht : relies l code = some t) :
    l ∈ held := by
  induction code generalizing held said with
  | nil => simp [relies] at ht
  | cons cmd rest ih =>
    cases cmd with
    | acquire k =>
      obtain ⟨-, hnone, hrest⟩ := h
      have hmem := ih hrest ht
      rcases List.mem_cons.mp hmem with hlk | hmem
      · rw [relies, hlk, hnone] at ht
        simp at ht
      · exact hmem
    | release k =>
      obtain ⟨ls, hheld, -, -, hrest⟩ := h
      rw [hheld]
      exact List.mem_cons_of_mem k (ih hrest ht)
    | work => exact ih h ht
    | format k u =>
      obtain ⟨hk, -, hrest⟩ := h
      rw [relies] at ht
      split_ifs at ht
      exact ih hrest ht
    | formatLine head u =>
      obtain ⟨hlog, hdebug, -, -, -, hrest⟩ := h
      rw [relies] at ht
      split_ifs at ht with hl
      · rwa [hl]
      · exact ih hrest ht
    | sendBuffer u =>
      obtain ⟨hdebug, -, -, hrest⟩ := h
      rw [relies] at ht
      split_ifs at ht with hl
      · rwa [hl]
      · exact ih hrest ht
    | assertColor u =>
      obtain ⟨-, -, hrest⟩ := h
      exact ih hrest ht
    | sendCode u =>
      obtain ⟨-, hrest⟩ := h
      exact ih hrest ht
    | halt => exact h.elim

theorem disciplined_debug {t : Text} (ht : ZeroFree t) (hdebug : .debug ∉ held)
    (hlog : .log ∉ held) (hnone : relies .debug rest = none)
    (hrest : Disciplined held said rest) :
    Disciplined held said (debugCode t ++ rest) := by
  have hnot : KernelLock.log ∉ KernelLock.debug :: held := by simpa using hlog
  refine ⟨hdebug, rfl, List.mem_cons_self, ?_, List.mem_cons_self, ht, ?_, ?_⟩
  · intro u hu
    exact (Option.some.inj hu).symm
  · intro u hu
    simp [relies, hnone] at hu
  · rw [if_neg hnot]
    exact ⟨held, rfl, hnone, by simp, by simpa using hrest⟩

theorem isColorCode_color (status : LogStatus) : IsColorCode (colorCode status) := by
  cases status <;> exact ⟨rfl, rfl⟩

theorem isColorCode_reset : IsColorCode colorResetCode := ⟨rfl, rfl⟩

theorem disciplined_color {t : Text} (ht : IsColorCode t) (hdebug : .debug ∉ held)
    (hnone : relies .debug rest = none)
    (hrest : Disciplined held (if .log ∈ held then said ++ [t] else said) rest) :
    Disciplined held said (debugSetColorCode t ++ rest) := by
  have hmem : KernelLock.log ∈ KernelLock.debug :: held ↔ KernelLock.log ∈ held := by simp
  refine ⟨hdebug, by simpa [relies] using hnone, List.mem_cons_self, ht, List.mem_cons_self, held,
    rfl, hnone, by simp, ?_⟩
  simpa [hmem] using hrest

theorem lineText_append (status : LogStatus) (file : Text) (line : Nat) (t : Text) :
    lineText status file line t = lineText status file line [] ++ t := by
  simp [lineText]

theorem disciplined_logImpl {a : LogArgs} (ha : a.Valid) (hdebug : .debug ∉ held)
    (hlog : .log ∉ held) (hnone : relies .debug rest = none) (hnone' : relies .log rest = none)
    (hrest : Disciplined held [] rest) : Disciplined held [] (a.code ++ rest) := by
  obtain ⟨hpanic, hfile, htext, -, -⟩ := ha
  have hmem : KernelLock.log ∈ KernelLock.log :: held := List.mem_cons_self
  have hdebug' : KernelLock.debug ∉ KernelLock.log :: held := by simpa using hdebug
  have hline : ZeroFree (lineText a.status a.file a.line a.text) := lineText_ne_zero hfile htext
  have hend : Disciplined (.log :: held)
      [colorCode a.status, lineText a.status a.file a.line a.text, colorResetCode]
      (.release .log :: rest) :=
    ⟨held, rfl, hnone', fun _ => ⟨_, _, _, _, rfl⟩, by simpa using hrest⟩
  have hreset : Disciplined (.log :: held)
      [colorCode a.status, lineText a.status a.file a.line a.text]
      (debugSetColorCode colorResetCode ++ .release .log :: rest) := by
    apply disciplined_color isColorCode_reset hdebug' (by simpa [relies] using hnone)
    rw [if_pos hmem]
    exact hend
  have hmessage : Disciplined (.log :: held) [colorCode a.status]
      (.acquire .debug :: .formatLine (lineText a.status a.file a.line []) a.text ::
        .sendBuffer (lineText a.status a.file a.line a.text) :: .release .debug ::
          (debugSetColorCode colorResetCode ++ .release .log :: rest)) := by
    refine ⟨hdebug', rfl, by simp, by simp, htext, ?_, ?_, by simp, hline, ?_, ?_⟩
    · intro u hu
      rw [← Option.some.inj hu]
      exact lineText_append _ _ _ _
    · intro u hu
      simp [relies, debugSetColorCode, hnone'] at hu
    · intro u hu
      simp [relies, debugSetColorCode, hnone] at hu
    · refine ⟨.log :: held, rfl, by simpa [relies, debugSetColorCode] using hnone, by simp, ?_⟩
      simpa using hreset
  have hcolor : Disciplined (.log :: held) []
      (debugSetColorCode (colorCode a.status) ++
        (.acquire .debug :: .formatLine (lineText a.status a.file a.line []) a.text ::
          .sendBuffer (lineText a.status a.file a.line a.text) :: .release .debug ::
            (debugSetColorCode colorResetCode ++ .release .log :: rest))) := by
    apply disciplined_color (isColorCode_color a.status) hdebug' (by simp [relies])
    rw [if_pos hmem]
    exact hmessage
  have hcode : a.code ++ rest = .acquire .log :: .format .log a.text ::
      (debugSetColorCode (colorCode a.status) ++
        (.acquire .debug :: .formatLine (lineText a.status a.file a.line []) a.text ::
          .sendBuffer (lineText a.status a.file a.line a.text) :: .release .debug ::
            (debugSetColorCode colorResetCode ++ .release .log :: rest))) := by
    simp [LogArgs.code, logImplCode, hpanic]
  rw [hcode]
  refine ⟨hlog, rfl, hmem, ?_, hcolor⟩
  intro u hu
  simp [relies, debugSetColorCode] at hu
  exact hu.symm

theorem relies_logImpl (a : LogArgs) (hnone : relies l rest = none) :
    relies l (a.code ++ rest) = none := by
  by_cases hpanic : a.status = .panic
  · cases l <;> simp [LogArgs.code, logImplCode, debugSetColorCode, relies, hpanic]
  · cases l <;> simp [LogArgs.code, logImplCode, debugSetColorCode, relies, hpanic, hnone]

/-- The critical section of the start-up after `spinlock_acquire(&smp_lock)`. -/
def sectionCode (logs : List LogArgs) : List SerialCmd :=
  logs.flatMap (fun a => a.code ++ [.work]) ++ [.release .smp]

theorem sectionCode_cons (a : LogArgs) (logs : List LogArgs) :
    sectionCode (a :: logs) = a.code ++ .work :: sectionCode logs := by
  simp [sectionCode]

theorem relies_section (l : KernelLock) (logs : List LogArgs) :
    relies l (sectionCode logs) = none := by
  induction logs with
  | nil => rfl
  | cons a logs ih =>
    rw [sectionCode_cons]
    exact relies_logImpl a ih

theorem disciplined_section {logs : List LogArgs} (hlogs : ∀ a ∈ logs, a.Valid) :
    Disciplined [.smp] [] (sectionCode logs) := by
  induction logs with
  | nil => exact ⟨[], rfl, rfl, by simp, rfl⟩
  | cons a logs ih =>
    rw [sectionCode_cons]
    apply disciplined_logImpl (hlogs a List.mem_cons_self) (by simp) (by simp)
    · exact relies_section .debug logs
    · exact relies_section .log logs
    · exact ih (fun b hb => hlogs b (List.mem_cons_of_mem a hb))

/-- Every call keeps the discipline. -/
theorem disciplined_call {k : SerialCall} (hk : k.Valid) : Disciplined [] [] k.code := by
  have hend : Disciplined [] [] [] := rfl
  cases k with
  | debug t =>
    have h := disciplined_debug hk.1 (by simp) (by simp) rfl hend
    rwa [List.append_nil] at h
  | debugSetColor t =>
    have h := disciplined_color hk.1 (by simp) rfl hend
    rwa [List.append_nil] at h
  | logImpl a =>
    have h := disciplined_logImpl hk (by simp) (by simp) rfl rfl hend
    rwa [List.append_nil] at h
  | smpSection logs =>
    have hcode :
        (SerialCall.smpSection logs).code = .acquire .smp :: .work :: sectionCode logs := by
      simp [SerialCall.code, sectionCode]
    rw [hcode]
    exact ⟨by simp, relies_section .smp logs, disciplined_section hk⟩

end Discipline

/-- A buffer holds a text and the zero that ends it. -/
def Holds (b : Nat → BitVec 8) (t : Text) : Prop :=
  (∀ i < t.length, t[i]? = some (b i)) ∧ b t.length = 0

/-- How far a command has come: the first `pos` characters are in the buffer it formats into, or
have been sent. -/
def SerialCmd.At (x : SerialState) (pos : Nat) : SerialCmd → Prop
  | .format l t => pos ≤ t.length ∧ ∀ i < pos, t[i]? = some (x.buffer l i)
  | .formatLine head t => pos ≤ (head ++ t).length ∧
      ∀ i < pos, (head ++ t)[i]? = some (x.buffer .debug i)
  | .sendBuffer t | .sendCode t => pos ≤ t.length
  | _ => pos = 0

/-- The locks of the buffers that a step of a command writes. -/
def SerialCmd.Writes (l : KernelLock) : SerialCmd → Prop
  | .format k _ => l = k
  | .formatLine _ _ => l = .debug
  | _ => False

section Steps

variable {x x' : SerialState} {cmd : SerialCmd} {pos : Nat} {r : Option Nat} {t : Text}

/-- What a step of a command does: it stores a character in a buffer, sends the next character of
its message, or ends without a change. -/
theorem exec_cases (h : cmd.exec x pos = some (x', r)) :
    (∃ l c, cmd.Writes l ∧ x' = x.store l pos c) ∨
    (∃ c, cmd.message ≠ none ∧ x' = x.send c ∧ r = some (pos + 1)) ∨
    (x' = x ∧ r = none) := by
  cases cmd with
  | acquire l | release l | halt => simp [SerialCmd.exec] at h
  | work =>
    simp only [SerialCmd.exec, Option.some.injEq, Prod.mk.injEq] at h
    exact .inr (.inr ⟨h.1.symm, h.2.symm⟩)
  | assertColor t =>
    simp only [SerialCmd.exec] at h
    split_ifs at h
    simp only [Option.some.injEq, Prod.mk.injEq] at h
    exact .inr (.inr ⟨h.1.symm, h.2.symm⟩)
  | format l t =>
    simp only [SerialCmd.exec] at h
    split at h
    all_goals
      simp only [Option.some.injEq, Prod.mk.injEq] at h
      exact .inl ⟨l, _, rfl, h.1.symm⟩
  | formatLine head t =>
    simp only [SerialCmd.exec] at h
    split at h
    all_goals
      simp only [Option.some.injEq, Prod.mk.injEq] at h
      exact .inl ⟨.debug, _, rfl, h.1.symm⟩
  | sendBuffer t =>
    simp only [SerialCmd.exec] at h
    split_ifs at h
    · simp only [Option.some.injEq, Prod.mk.injEq] at h
      exact .inr (.inl ⟨_, by simp [SerialCmd.message], h.1.symm, h.2.symm⟩)
    · simp only [Option.some.injEq, Prod.mk.injEq] at h
      exact .inr (.inr ⟨h.1.symm, h.2.symm⟩)
  | sendCode t =>
    simp only [SerialCmd.exec] at h
    split at h
    · simp only [Option.some.injEq, Prod.mk.injEq] at h
      exact .inr (.inl ⟨_, by simp [SerialCmd.message], h.1.symm, h.2.symm⟩)
    · simp only [Option.some.injEq, Prod.mk.injEq] at h
      exact .inr (.inr ⟨h.1.symm, h.2.symm⟩)

theorem Holds.read {b : Nat → BitVec 8} (h : Holds b t) (ht : ZeroFree t)
    (hpos : pos ≤ t.length) :
    (b pos ≠ 0 → t[pos]? = some (b pos)) ∧ (b pos = 0 → pos = t.length) := by
  by_cases hlt : pos < t.length
  · have hget := h.1 pos hlt
    have hne : b pos ≠ 0 := ht _ (List.mem_of_getElem? hget)
    exact ⟨fun _ => hget, fun hzero => absurd hzero hne⟩
  · have hend : pos = t.length := by omega
    exact ⟨fun hne => absurd (hend ▸ h.2) hne, fun _ => hend⟩

/-- A buffer whose first characters are those of a text, and the next one stored. -/
theorem stored_more {b : Nat → BitVec 8} (h : ∀ i < pos, t[i]? = some (b i)) {c : BitVec 8}
    (hc : t[pos]? = some c) : ∀ i < pos + 1, t[i]? = some (Function.update b pos c i) := by
  intro i hi
  by_cases hip : i = pos
  · rw [hip, Function.update_self, hc]
  · rw [Function.update_of_ne hip]
    exact h i (by omega)

theorem stored_all {b : Nat → BitVec 8} (h : ∀ i < t.length, t[i]? = some (b i)) :
    Holds (Function.update b t.length 0) t := by
  refine ⟨fun i hi => ?_, Function.update_self ..⟩
  rw [Function.update_of_ne (by omega)]
  exact h i hi

end Steps

section Cpu

variable {x x' : KernelLock → Spinlock} {y y' : Cpu KernelLock} {l : KernelLock}

/-- A step inside a spinlock function leads to the locks that were to be held after it. -/
theorem heldSoon_step (ho : y.Owns x) (hm : y.Move x .step (x', y')) :
    heldSoon y' = heldSoon y := by
  cases hm with
  | spin => rfl
  | take hpc | readFlag hpc | storeFlag hpc | cli hpc | loadFlag hpc | stiOrCli hpc =>
    simp [heldSoon, hpc]
  | @clear l hpc =>
    have hcons := (ho.held_eq (l := l) (by rw [hpc]; rfl)).1
    simp only [heldSoon, hpc]
    rw [hcons, List.erase_cons_head, List.tail_cons]

theorem mem_held_of_heldSoon (h : l ∈ heldSoon y) (hpc : y.pc ≠ .testAndSet l) :
    l ∈ y.held := by
  unfold heldSoon at h
  cases hy : y.pc with
  | idle | readFlag | storeFlag | cli => simpa only [hy] using h
  | testAndSet k =>
    simp only [hy] at h
    rcases List.mem_cons.mp h with hlk | h
    · rw [hy, hlk] at hpc
      exact absurd rfl hpc
    · exact h
  | loadFlag k | stiOrCli k | clear k =>
    simp only [hy] at h
    exact List.mem_of_mem_tail h

/-- A lock is held while it is in use: it has been taken, and its release has not begun. -/
def InUse (l : KernelLock) (y : Cpu KernelLock) : Prop := l ∈ y.held ∧ l ∈ heldSoon y

instance (l : KernelLock) (y : Cpu KernelLock) : Decidable (InUse l y) := by
  unfold InUse
  infer_instance

/-- Inside a spinlock function a lock comes into use when its byte is set. -/
theorem inUse_step (ho : y.Owns x) (hm : y.Move x .step (x', y')) :
    (InUse l y → InUse l y') ∧ (InUse l y' → InUse l y ∨ y.pc = .testAndSet l) := by
  have hsoon := heldSoon_step ho hm
  unfold InUse
  rw [hsoon]
  cases hm with
  | spin => exact ⟨id, .inl⟩
  | @take k hpc _ =>
    refine ⟨fun h => ⟨List.mem_cons_of_mem k h.1, h.2⟩, fun h => ?_⟩
    rcases List.mem_cons.mp h.1 with hlk | hl
    · exact .inr (hlk ▸ hpc)
    · exact .inl ⟨hl, h.2⟩
  | readFlag | storeFlag | cli | loadFlag | stiOrCli => exact ⟨id, .inl⟩
  | @clear k hpc =>
    have hcons := (ho.held_eq (l := k) (by rw [hpc]; rfl)).1
    have htail : heldSoon y = y.held.tail := by simp [heldSoon, hpc]
    refine ⟨fun h => ⟨?_, h.2⟩, fun h => .inl ⟨List.mem_of_mem_erase h.1, h.2⟩⟩
    rw [hcons, List.erase_cons_head, ← htail]
    exact h.2

end Cpu

/-- A CPU keeps the discipline, finds in the buffers what it relies on, and has said nothing under
`log_lock` while the lock is not in use. -/
structure Talker.Ok (x : SerialState) (y : Talker) : Prop where
  owns : y.cpu.Owns x.locks
  disciplined : Disciplined (heldSoon y.cpu) y.said y.code
  buffers : ∀ l t, relies l y.code = some t → Holds (x.buffer l) t
  waiting : ∀ l, y.cpu.pc = .testAndSet l → relies l y.code = none
  place : ∀ cmd rest, y.code = cmd :: rest → cmd.At x y.pos
  fresh : y.code = [] → y.pos = 0
  idle : y.pos ≠ 0 → y.cpu.pc = .idle
  silent : ¬ InUse .log y.cpu → y.said = []

section Talkers

variable {x x' : SerialState} {y y' z : Talker} {l : KernelLock} {t : Text}

theorem exec_locks {cmd : SerialCmd} {pos : Nat} {r : Option Nat}
    (h : cmd.exec x pos = some (x', r)) : x'.locks = x.locks := by
  rcases exec_cases h with ⟨l, c, -, rfl⟩ | ⟨c, -, rfl, -⟩ | ⟨rfl, -⟩ <;> rfl

theorem record_locks (b : Bool) (m : Option Text) : (x.record b m).locks = x.locks := by
  cases m <;> rfl

theorem released_locks (l : KernelLock) (said : List Text) :
    (x.released l said).locks = x.locks := by
  unfold SerialState.released
  split <;> rfl

theorem record_buffer (b : Bool) (m : Option Text) : (x.record b m).buffer = x.buffer := by
  cases m <;> rfl

theorem released_buffer (l : KernelLock) (said : List Text) :
    (x.released l said).buffer = x.buffer := by
  unfold SerialState.released
  split <;> rfl

/-- On its own a CPU leaves the locks alone or uses them in a well-nested way. -/
theorem TalkerMove.cpu_move (h : TalkerMove x y (x', y')) (hy : y.Ok x) :
    (x'.locks = x.locks ∧ y'.cpu = y.cpu) ∨
      ∃ a : SpinAct KernelLock, a.WellNested y.cpu ∧
        y.cpu.Move x.locks a (x'.locks, y'.cpu) := by
  have hd := hy.disciplined
  cases h with
  | spin h => exact .inr ⟨.step, trivial, Cpu.move_of_step h⟩
  | @acquire l rest cpu hcode h =>
    have hm := Cpu.move_of_exec h
    refine .inr ⟨.acquire l, ?_, hm⟩
    cases hm with
    | acquire hpc =>
      rw [hcode] at hd
      simp only [heldSoon, hpc] at hd
      exact hd.1
  | @release l rest cpu hcode h =>
    have hm := Cpu.move_of_exec h
    refine .inr ⟨.release l, ?_, by rwa [released_locks]⟩
    cases hm with
    | release hpc =>
      rw [hcode] at hd
      simp only [heldSoon, hpc] at hd
      obtain ⟨ls, hls, -⟩ := hd
      simp [SpinAct.WellNested, hls]
  | more hcode hpc h => exact .inl ⟨exec_locks h, rfl⟩
  | done hcode hpc h => exact .inl ⟨by rw [record_locks, exec_locks h], rfl⟩
  | fails | call => exact .inl ⟨rfl, rfl⟩
  | @flag v cpu hcode h =>
    have hm := Cpu.move_of_exec h
    refine .inr ⟨.flag v, ?_, hm⟩
    cases hm with
    | flag hpc =>
      rw [hcode] at hd
      simp only [heldSoon, hpc] at hd
      exact hd

theorem Talker.Ok.held_of_relies (hy : y.Ok x) (h : relies l y.code = some t) :
    l ∈ y.cpu.held := by
  refine mem_held_of_heldSoon (hy.disciplined.held_of_relies h) (fun hpc => ?_)
  rw [hy.waiting l hpc] at h
  simp at h

theorem at_zero (x : SerialState) (cmd : SerialCmd) : cmd.At x 0 := by
  cases cmd <;> simp [SerialCmd.At]

/-- A buffer that a command writes is under a lock that its CPU holds. -/
theorem Talker.Ok.held_of_writes (hy : y.Ok x) {cmd : SerialCmd} {rest : List SerialCmd}
    (hcode : y.code = cmd :: rest) (hpc : y.cpu.pc = .idle) (h : cmd.Writes l) :
    l ∈ y.cpu.held := by
  have hd := hy.disciplined
  rw [hcode] at hd
  simp only [heldSoon, hpc] at hd
  cases cmd with
  | format k t =>
    obtain rfl : l = k := h
    exact hd.1
  | formatLine head t =>
    obtain rfl : l = .debug := h
    exact hd.2.1
  | acquire | release | work | sendBuffer | assertColor | sendCode | halt => exact h.elim

/-- A buffer that no held lock protects may change without harm. -/
theorem Talker.Ok.congr (hz : z.Ok x) (hlocks : z.cpu.Owns x'.locks)
    (hbuffer : ∀ l ∈ z.cpu.held, x'.buffer l = x.buffer l) : z.Ok x' := by
  refine ⟨hlocks, hz.disciplined, fun l t h => ?_, hz.waiting, fun cmd rest hcode => ?_, hz.fresh,
    hz.idle, hz.silent⟩
  · rw [hbuffer l (hz.held_of_relies h)]
    exact hz.buffers l t h
  · by_cases hpos : z.pos = 0
    · rw [hpos]
      exact at_zero x' cmd
    · have hpc := hz.idle hpos
      have hat := hz.place cmd rest hcode
      cases cmd with
      | format l t =>
        have hl := hz.held_of_writes hcode hpc (l := l) rfl
        simp only [SerialCmd.At, hbuffer l hl]
        exact hat
      | formatLine head t =>
        have hl := hz.held_of_writes hcode hpc (l := .debug) rfl
        simp only [SerialCmd.At, hbuffer .debug hl]
        exact hat
      | acquire | release | work | sendBuffer | assertColor | sendCode | halt => exact hat

/-- A move writes no buffer but under a lock that its CPU holds. -/
theorem TalkerMove.buffer_eq (h : TalkerMove x y (x', y')) (hy : y.Ok x) (hl : l ∉ y.cpu.held) :
    x'.buffer l = x.buffer l := by
  have hexec : ∀ {cmd rest x' r}, y.code = cmd :: rest → y.cpu.pc = .idle →
      cmd.exec x y.pos = some (x', r) → x'.buffer l = x.buffer l := by
    intro cmd rest x' r hcode hpc h
    rcases exec_cases h with ⟨k, c, hw, rfl⟩ | ⟨c, -, rfl, -⟩ | ⟨rfl, -⟩
    · have hlk : l ≠ k := fun hlk => hl (hlk ▸ hy.held_of_writes hcode hpc hw)
      exact x.store_other hlk _ _
    · rfl
    · rfl
  cases h with
  | spin | acquire | fails | call | flag => rfl
  | release => rw [released_buffer]
  | more hcode hpc h => exact hexec hcode hpc h
  | done hcode hpc h => rw [record_buffer, hexec hcode hpc h]

/-- A move does not harm another CPU. -/
theorem Talker.Ok.others (hy : y.Ok x) (hz : z.Ok x) (hap : y.cpu.Apart z.cpu)
    (h : TalkerMove x y (x', y')) : z.Ok x' ∧ y'.cpu.Apart z.cpu := by
  have hbuffer : ∀ l ∈ z.cpu.held, x'.buffer l = x.buffer l :=
    fun l hl => h.buffer_eq hy (fun hly => hap l hly hl)
  rcases h.cpu_move hy with ⟨hlocks, hcpu⟩ | ⟨a, -, hm⟩
  · exact ⟨hz.congr (by rw [hlocks]; exact hz.owns) hbuffer, by rwa [hcpu]⟩
  · obtain ⟨hz', hap'⟩ := hy.owns.others hz.owns hap hm
    exact ⟨hz.congr hz' hbuffer, hap'⟩

end Talkers

end ApoptOS.Serial
