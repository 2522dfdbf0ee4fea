import ApoptOS.Hardware.Com.Com
import ApoptOS.Libk.Logging
import ApoptOS.Libk.PrintfCalls
import Mathlib.Data.List.TakeWhile

namespace ApoptOS.Serial

open Framework Printf

def ascii (s : List Char) : Text := s.map chr

/-- The characters from an address up to the first zero. -/
def readString (m : Mem) : Nat → Nat → Text
  | 0, _ => []
  | n + 1, a => if m a = 0 then [] else m a :: readString m n (add64 a 1)

def cString (m : Mem) (a : Nat) : Text := readString m (2 ^ 64) a

/-- Size of `debug_buffer` and of `log_buffer`. -/
def bufferSize : Nat := 5120

/-- Where the buffers and the colour codes are. -/
structure SerialData where
  debugBuffer : Nat
  logBuffer : Nat
  color : LogStatus → Nat
  colorReset : Nat

/-- `TERM_CYAN`, `TERM_YELLOW`, `TERM_RED`, `TERM_GREEN` and `TERM_PURPLE`. -/
def colorCode : LogStatus → Text
  | .info => 0x1B :: ascii ['[', '0', ';', '3', '6', 'm']
  | .warning => 0x1B :: ascii ['[', '0', ';', '3', '3', 'm']
  | .panic => 0x1B :: ascii ['[', '0', ';', '3', '1', 'm']
  | .success => 0x1B :: ascii ['[', '0', ';', '3', '2', 'm']
  | .fail => 0x1B :: ascii ['[', '0', ';', '3', '5', 'm']

def colorResetCode : Text := 0x1B :: ascii ['[', '0', 'm']

/-- What a line begins with. The marks of success and failure are UTF-8. -/
def label : LogStatus → Text
  | .info => ascii ['[', 'I', 'N', 'F', 'O', ']', ' ', ' ', ' ', ' ', '|', ' ']
  | .warning => ascii ['[', 'W', 'A', 'R', 'N', 'I', 'N', 'G', ']', ' ', '|', ' ']
  | .panic => ascii ['[', 'P', 'A', 'N', 'I', 'C', ']', ' ', ' ', ' ', '|', ' ']
  | .success => ascii ['[', ' '] ++ [0xF0, 0x9F, 0x97, 0xB8] ++ ascii [' ', ']', '\t', '|', ' ']
  | .fail => ascii ['[', ' '] ++ [0xE2, 0x9C, 0x97] ++ ascii [' ', ']', '\t', '|', ' ']

/-- `%s:%d -> %s`. -/
def lineFormat : Text := ascii ['%', 's', ':', '%', 'd', ' ', '-', '>', ' ', '%', 's']

variable (B : SerialData)

/-- `debug`. A format that `vsnprintf` goes astray on gives nothing. -/
def debug (fuel : Nat) (format : Text) (va : List Nat) (m : Mem) (u : Uart) :
    Option (Mem × Uart) :=
  match vsnprintf_ (cString m) B.debugBuffer (2 ^ 64 - 1) format va m with
  | .error _ => none
  | .ok (m, _) => (comSendString m B.debugBuffer fuel 0 u).map (fun u => (m, u))

/-- `debug_set_color`; a code that is none fails the assertion. -/
def debugSetColor (fuel colorCode : Nat) (m : Mem) (u : Uart) : Option Uart :=
  if m colorCode = 0x1B ∧ m (add64 colorCode 1) = chr '[' then comSendString m colorCode fuel 0 u
  else none

/-- How a call of `log_impl` ends: it returns, or the CPU is halted for good. -/
inductive LogEnd where
  | returned
  | halted
  deriving DecidableEq, Repr

def logImpl (fuel file line : Nat) (status : LogStatus) (format : Text) (va : List Nat) (m : Mem)
    (u : Uart) : Option (LogEnd × Mem × Uart) :=
  match vsnprintf_ (cString m) B.logBuffer (2 ^ 64 - 1) format va m with
  | .error _ => none
  | .ok (m, _) =>
    (debugSetColor fuel (B.color status) m u).bind fun u =>
      (debug B fuel (label status ++ lineFormat) [file, line, B.logBuffer] m u).bind
        fun (m, u) =>
          if status = .panic then some (.halted, m, u)
          else (debugSetColor fuel B.colorReset m u).map fun u => (.returned, m, u)

/-- A string that neither of the buffers overlaps. -/
def SerialData.Apart (a n : Nat) : Prop :=
  (a + n ≤ B.debugBuffer ∨ B.debugBuffer + bufferSize ≤ a) ∧
    (a + n ≤ B.logBuffer ∨ B.logBuffer + bufferSize ≤ a)

/-- The buffers and the colour codes as the linker places them. -/
structure SerialData.Placed (m : Mem) : Prop where
  debug_ne : B.debugBuffer ≠ 0
  log_ne : B.logBuffer ≠ 0
  debug_fits : B.debugBuffer + bufferSize ≤ 2 ^ 64
  log_fits : B.logBuffer + bufferSize ≤ 2 ^ 64
  log_apart : B.logBuffer + bufferSize ≤ B.debugBuffer ∨
    B.debugBuffer + bufferSize ≤ B.logBuffer
  color : ∀ status, HoldsString m (B.color status) (colorCode status) ∧
    B.Apart (B.color status) ((colorCode status).length + 1)
  colorReset : HoldsString m B.colorReset colorResetCode ∧
    B.Apart B.colorReset (colorResetCode.length + 1)

section Strings

variable {m m' : Mem} {a n : Nat} {t : Text}

theorem holdsString_cons {c : BitVec 8} (h : HoldsString m a (c :: t)) :
    m a = c ∧ c ≠ 0 ∧ HoldsString m (a + 1) t := by
  have hhead := h.chars 0 c rfl
  have hbound := h.bound
  have hcounted := h.counted
  rw [List.length_cons] at hbound hcounted
  refine ⟨hhead.1, hhead.2, by omega, by omega, fun i d hd => ?_, ?_⟩
  · have htail := h.chars (i + 1) d (by simpa using hd)
    rwa [Nat.add_comm i 1, ← Nat.add_assoc] at htail
  · have hend := h.terminator
    rwa [List.length_cons, Nat.add_comm t.length 1, ← Nat.add_assoc] at hend

theorem readString_eq (h : HoldsString m a t) (hn : t.length < n) : readString m n a = t := by
  induction t generalizing a n with
  | nil =>
    cases n with
    | zero => simp at hn
    | succ n =>
      have hend := h.terminator
      simp only [List.length_nil, Nat.add_zero] at hend
      simp [readString, hend]
  | cons c t ih =>
    cases n with
    | zero => simp at hn
    | succ n =>
      obtain ⟨hc, hne, htail⟩ := holdsString_cons h
      have hbound := h.bound
      rw [List.length_cons] at hbound hn
      have hnext : add64 a 1 = a + 1 := add64_of_lt (by omega)
      rw [readString, hc, if_neg hne, hnext, ih htail (by omega)]

theorem cString_eq (h : HoldsString m a t) : cString m a = t := by
  have hbound := h.bound
  exact readString_eq h (by omega)

theorem holdsString_frame (h : HoldsString m a t)
    (hsame : ∀ x, a ≤ x → x < a + (t.length + 1) → m' x = m x) : HoldsString m' a t := by
  refine ⟨h.bound, h.counted, fun i c hi => ?_, ?_⟩
  · have hlt : i < t.length := (List.getElem?_eq_some_iff.mp hi).1
    rw [hsame _ (by omega) (by omega)]
    exact h.chars i c hi
  · rw [hsame _ (by omega) (by omega)]
    exact h.terminator

/-- The part of a text before its first zero. -/
def untilZero (t : Text) : Text := t.takeWhile (· ≠ 0)

theorem untilZero_length_le (t : Text) : (untilZero t).length ≤ t.length :=
  (List.takeWhile_sublist _).length_le

theorem untilZero_getElem? {i : Nat} {c : BitVec 8} (h : (untilZero t)[i]? = some c) :
    t[i]? = some c ∧ c ≠ 0 := by
  induction t generalizing i with
  | nil => simp [untilZero] at h
  | cons d t ih =>
    by_cases hd : d ≠ 0
    · have hcons : untilZero (d :: t) = d :: untilZero t :=
        List.takeWhile_cons_of_pos (by simpa using hd)
      rw [hcons] at h
      cases i with
      | zero =>
        obtain rfl : d = c := by simpa using h
        exact ⟨rfl, hd⟩
      | succ i => exact ih (by simpa using h)
    · have hnil : untilZero (d :: t) = [] := List.takeWhile_cons_of_neg (by simpa using hd)
      simp [hnil] at h

theorem untilZero_end (h : (untilZero t).length < t.length) :
    t[(untilZero t).length]? = some 0 := by
  induction t with
  | nil => simp at h
  | cons d t ih =>
    by_cases hd : d ≠ 0
    · have hcons : untilZero (d :: t) = d :: untilZero t :=
        List.takeWhile_cons_of_pos (by simpa using hd)
      rw [hcons, List.length_cons, List.length_cons] at h
      rw [hcons, List.length_cons, List.getElem?_cons_succ]
      exact ih (by omega)
    · have hnil : untilZero (d :: t) = [] := List.takeWhile_cons_of_neg (by simpa using hd)
      rw [hnil, not_not.mp hd]
      rfl

/-- A stored text, read as a string, ends at its first zero. -/
theorem holdsString_stored {buffer : Nat} (h : Stored m m' buffer (2 ^ 64 - 1) t)
    (hfits : buffer + bufferSize ≤ 2 ^ 64) (ht : t.length < bufferSize) :
    HoldsString m' buffer (untilZero t) := by
  have hle := untilZero_length_le t
  unfold bufferSize at hfits ht
  refine ⟨by omega, by omega, fun i c hi => ?_, ?_⟩
  · obtain ⟨hget, hne⟩ := untilZero_getElem? hi
    have hlt : i < t.length := (List.getElem?_eq_some_iff.mp hget).1
    exact ⟨h.text i c hget (by omega), hne⟩
  · by_cases hall : (untilZero t).length = t.length
    · have hend := h.terminator (by decide)
      rwa [Nat.min_eq_left (by omega), ← hall] at hend
    · exact h.text _ 0 (untilZero_end (by omega)) (by omega)

end Strings

section Lines

variable {B : SerialData} {m m' : Mem} {u : Uart} {format t : Text} {va va' : List Nat}

theorem SerialData.Placed.frame (h : B.Placed m)
    (hsame : ∀ a n, B.Apart a n → ∀ x, a ≤ x → x < a + n →
    m' x = m x) : B.Placed m' := by
  refine ⟨h.debug_ne, h.log_ne, h.debug_fits, h.log_fits, h.log_apart, fun status => ?_, ?_⟩
  · obtain ⟨hcolor, hapart⟩ := h.color status
    exact ⟨holdsString_frame hcolor (hsame _ _ hapart), hapart⟩
  · obtain ⟨hreset, hapart⟩ := h.colorReset
    exact ⟨holdsString_frame hreset (hsame _ _ hapart), hapart⟩

/-- A text that fits one of the buffers changes nothing outside of it. -/
theorem stored_outside {buffer : Nat} (h : Stored m m' buffer (2 ^ 64 - 1) t)
    (ht : t.length < bufferSize) {x : Nat} (hx : x < buffer ∨ buffer + bufferSize ≤ x) :
    m' x = m x := by
  apply h.outside
  unfold bufferSize at ht hx
  omega

/-- `vsnprintf` into one of the buffers, for a text that fits: the buffer holds the text as a
string. -/
theorem vsnprintf_fills {buffer : Nat} (hne : buffer ≠ 0) (hfits : buffer + bufferSize ≤ 2 ^ 64)
    (h : Prints (cString m) format va va' t) (ht : t.length < bufferSize) :
    ∃ m' r, vsnprintf_ (cString m) buffer (2 ^ 64 - 1) format va m = .ok (m', r) ∧
      Stored m m' buffer (2 ^ 64 - 1) t ∧ HoldsString m' buffer (untilZero t) := by
  have hsmall := ht
  have hend := hfits
  unfold bufferSize at hsmall hend
  have hroom : buffer + min (2 ^ 64 - 1) (t.length + 1) ≤ 2 ^ 64 := by omega
  obtain ⟨m', hcall, hstored⟩ := h.stores (m := m) hne (by omega) hroom
  exact ⟨m', _, hcall, hstored, holdsString_stored hstored hfits ht⟩

theorem debug_stores (hB : B.Placed m) (hdlab : u.dlab = false)
    (h : Prints (cString m) format va va' t) (ht : t.length < bufferSize) :
    ∃ m' u', Gives (fun n => debug B n format va m u) (m', u') ∧
      Stored m m' B.debugBuffer (2 ^ 64 - 1) t ∧ u'.sent = u.sent ++ untilZero t ∧
      u.SameLine u' := by
  obtain ⟨m', r, hcall, hstored, hholds⟩ := vsnprintf_fills hB.debug_ne hB.debug_fits h ht
  obtain ⟨u', hu', hsent, hline⟩ := comSendString_gives hholds hdlab
  refine ⟨m', u', ?_, hstored, hsent, hline⟩
  simp only [debug, hcall]
  exact hu'.map _

/-- `debug` sends what its format prints, up to a zero in it. -/
theorem debug_gives (hB : B.Placed m) (hdlab : u.dlab = false)
    (h : Prints (cString m) format va va' t) (ht : t.length < bufferSize) :
    ∃ m' u', Gives (fun n => debug B n format va m u) (m', u') ∧
      u'.sent = u.sent ++ untilZero t ∧ u.SameLine u' ∧
      ∀ x, x < B.debugBuffer ∨ B.debugBuffer + bufferSize ≤ x → m' x = m x := by
  obtain ⟨m', u', hgives, hstored, hsent, hline⟩ := debug_stores hB hdlab h ht
  exact ⟨m', u', hgives, hsent, hline, fun x hx => stored_outside hstored ht hx⟩

theorem debugSetColor_gives {a : Nat} {code : Text} (h : HoldsString m a (0x1B :: chr '[' :: code))
    (hdlab : u.dlab = false) :
    ∃ u', Gives (fun n => debugSetColor n a m u) u' ∧
      u'.sent = u.sent ++ 0x1B :: chr '[' :: code ∧ u.SameLine u' := by
  obtain ⟨hfirst, -, htail⟩ := holdsString_cons h
  obtain ⟨hsecond, -, -⟩ := holdsString_cons htail
  have hbound := h.bound
  rw [List.length_cons, List.length_cons] at hbound
  have hnext : add64 a 1 = a + 1 := add64_of_lt (by omega)
  obtain ⟨u', hu', hsent, hline⟩ := comSendString_gives h hdlab
  refine ⟨u', ?_, hsent, hline⟩
  simpa only [debugSetColor, hnext, hfirst, hsecond, and_self, if_true] using hu'

def arrow : Text := ascii [' ', '-', '>', ' ']

/-- A line of the log without its colours. -/
def lineText (status : LogStatus) (file : Text) (line : Nat) (t : Text) : Text :=
  label status ++ (file ++ (chr ':' :: (decimalText (asInt 32 line) ++ (arrow ++ t))))

theorem prints_plain (strings : Nat → Text) (va : List Nat) {w : Text}
    (hw : ∀ c ∈ w, c ≠ chr '%') :
    Prints strings w va va w := by
  induction w with
  | nil => exact .done
  | cons c w ih =>
    exact .char (hw c List.mem_cons_self) (ih (fun d hd => hw d (List.mem_cons_of_mem c hd)))

theorem prints_string (strings : Nat → Text) (a : Nat) (va : List Nat) :
    Prints strings (ascii ['%', 's']) (a :: va) va (strings a) := by
  have htext : stringText { flags := {} } (strings a) = strings a := by
    simp [stringText, field, spaces]
  have h : Prints strings (ascii ['%', 's']) (a :: va) va
      (stringText { flags := {} } (strings a) ++ []) :=
    .directive rfl rfl .done
  rwa [htext, List.append_nil] at h

theorem prints_decimal (strings : Nat → Text) (a : Nat) (va : List Nat) :
    Prints strings (ascii ['%', 'd']) (a :: va) va (decimalText (asInt 32 a)) := by
  have h : Prints strings (ascii ['%', 'd']) (a :: va) va
      (integerText { flags := {} } (chr 'd') a ++ []) :=
    .directive rfl rfl .done
  rwa [integerText_decimal, List.append_nil] at h

/-- The format of a line, with its file, its number and the text in the log buffer. -/
theorem prints_line (strings : Nat → Text) (status : LogStatus) (file line log : Nat) :
    Prints strings (label status ++ lineFormat) [file, line, log] []
      (lineText status (strings file) line (strings log)) := by
  have hlabel : ∀ c ∈ label status, c ≠ chr '%' := by
    cases status <;> decide
  have hcolon : ∀ c ∈ ascii [':'], c ≠ chr '%' := by decide
  have harrow : ∀ c ∈ arrow, c ≠ chr '%' := by decide
  have hformat : lineFormat =
      ascii ['%', 's'] ++ (ascii [':'] ++ (ascii ['%', 'd'] ++ (arrow ++ ascii ['%', 's']))) := rfl
  have hline : lineText status (strings file) line (strings log) = label status ++ (strings file ++
      (ascii [':'] ++ (decimalText (asInt 32 line) ++ (arrow ++ strings log)))) := rfl
  rw [hformat, hline]
  apply (prints_plain strings _ hlabel).append
  apply (prints_string strings file _).append
  apply (prints_plain strings _ hcolon).append
  apply (prints_decimal strings line _).append
  exact (prints_plain strings _ harrow).append (prints_string strings log _)

theorem untilZero_eq {w : Text} (hw : ∀ c ∈ w, c ≠ 0) : untilZero w = w := by
  apply List.takeWhile_eq_self_iff.mpr
  intro c hc
  simpa using hw c hc

theorem untilZero_ne_zero (w : Text) : ∀ c ∈ untilZero w, c ≠ 0 := by
  intro c hc
  obtain ⟨i, hi⟩ := List.mem_iff_getElem?.mp hc
  exact (untilZero_getElem? hi).2

theorem lineText_ne_zero {status : LogStatus} {file : Text} {line : Nat} {w : Text}
    (hfile : ∀ c ∈ file, c ≠ 0) (hw : ∀ c ∈ w, c ≠ 0) :
    ∀ c ∈ lineText status file line w, c ≠ 0 := by
  have hlabel : ∀ c ∈ label status, c ≠ 0 := by
    cases status <;> decide
  have harrow : ∀ c ∈ arrow, c ≠ 0 := by decide
  have hcolon : chr ':' ≠ 0 := by decide
  intro c hc
  simp only [lineText, List.mem_append, List.mem_cons] at hc
  rcases hc with hc | hc | hc | hc | hc | hc
  · exact hlabel c hc
  · exact hfile c hc
  · rwa [hc]
  · exact decimalText_ne_zero _ c hc
  · exact harrow c hc
  · exact hw c hc

/-- What a call of `log_impl` sends. -/
def logText (status : LogStatus) (file : Text) (line : Nat) (t : Text) : Text :=
  colorCode status ++ (lineText status file line t ++
    if status = .panic then [] else colorResetCode)

theorem HoldsString.ne_zero {a : Nat} {w : Text} (h : HoldsString m a w) :
    ∀ c ∈ w, c ≠ 0 := by
  intro c hc
  obtain ⟨i, hi⟩ := List.mem_iff_getElem?.mp hc
  exact (h.chars i c hi).2

theorem SerialData.Placed.color_gives (h : B.Placed m) (hdlab : u.dlab = false)
    (status : LogStatus) :
    ∃ u', Gives (fun n => debugSetColor n (B.color status) m u) u' ∧
      u'.sent = u.sent ++ colorCode status ∧ u.SameLine u' := by
  have hcolor := (h.color status).1
  cases status <;> exact debugSetColor_gives hcolor hdlab

/-- The text of the format goes into `log_buffer`, the line into `debug_buffer`, and what
`log_impl` is to send onto the line. -/
theorem logImpl_stores (hB : B.Placed m) (hdlab : u.dlab = false) {file : Nat} {f : Text}
    (hfile : HoldsString m file f) (hapart : B.Apart file (f.length + 1)) (status : LogStatus)
    (line : Nat) (h : Prints (cString m) format va va' t) (ht : t.length < bufferSize)
    (hline : (lineText status f line (untilZero t)).length < bufferSize) :
    ∃ m₁ m' u', Stored m m₁ B.logBuffer (2 ^ 64 - 1) t ∧
      Stored m₁ m' B.debugBuffer (2 ^ 64 - 1) (lineText status f line (untilZero t)) ∧
      Gives (fun n => logImpl B n file line status format va m u)
        (if status = .panic then .halted else .returned, m', u') ∧
      u'.sent = u.sent ++ logText status f line (untilZero t) ∧ u.SameLine u' := by
  obtain ⟨m₁, r, hcall, hstored₁, hlog⟩ := vsnprintf_fills hB.log_ne hB.log_fits h ht
  have hB₁ : B.Placed m₁ := by
    refine hB.frame (fun a n hap x hx hlt => stored_outside hstored₁ ht ?_)
    have hout := hap.2
    omega
  have hfile₁ : HoldsString m₁ file f := by
    refine holdsString_frame hfile (fun x hx hlt => stored_outside hstored₁ ht ?_)
    have hout := hapart.2
    omega
  obtain ⟨u₁, hcolor, hsent₁, hline₁⟩ := hB₁.color_gives hdlab status
  have hprints := prints_line (cString m₁) status file line B.logBuffer
  rw [cString_eq hfile₁, cString_eq hlog] at hprints
  obtain ⟨m₂, u₂, hdebug, hstored₂, hsent₂, hline₂⟩ :=
    debug_stores hB₁ (hline₁.dlab hdlab) hprints hline
  rw [untilZero_eq (lineText_ne_zero (HoldsString.ne_zero hfile) (untilZero_ne_zero t))] at hsent₂
  have hB₂ : B.Placed m₂ := by
    refine hB₁.frame (fun a n hap x hx hlt => stored_outside hstored₂ hline ?_)
    have hout := hap.1
    omega
  simp only [logImpl, hcall]
  by_cases hpanic : status = .panic
  · refine ⟨m₁, m₂, u₂, hstored₁, hstored₂, ?_, ?_, hline₁.trans hline₂⟩
    · simp only [hpanic, if_true]
      simp only [hpanic] at hcolor hdebug
      exact hcolor.bind (hdebug.bind (gives_some _))
    · rw [hsent₂, hsent₁, logText, if_pos hpanic, List.append_nil, List.append_assoc]
  · have hcode : HoldsString m₂ B.colorReset (0x1B :: chr '[' :: ascii ['0', 'm']) :=
      hB₂.colorReset.1
    obtain ⟨u₃, hreset, hsent₃, hline₃⟩ :=
      debugSetColor_gives hcode (hline₂.dlab (hline₁.dlab hdlab))
    refine ⟨m₁, m₂, u₃, hstored₁, hstored₂, ?_, ?_,
      (hline₁.trans hline₂).trans hline₃⟩
    · simp only [hpanic, if_false]
      exact hcolor.bind (hdebug.bind (hreset.map _))
    · rw [hsent₃, hsent₂, hsent₁, logText, if_neg hpanic, List.append_assoc,
        List.append_assoc]
      rfl

end Lines

end ApoptOS.Serial
