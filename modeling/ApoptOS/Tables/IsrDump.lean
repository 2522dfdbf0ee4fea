import ApoptOS.Libk.Serial
import ApoptOS.Tables.TablesRun

namespace ApoptOS.Isr

open Framework Printf Serial

/-- The bytes of a string, without its terminator. -/
def utf8 (s : String) : Text := s.toUTF8.data.toList.map (·.toBitVec)

/-- Neither a directive begins in the text nor does it end early. -/
def isPlain (t : Text) : Bool := t.all fun c => c.toNat != 37 && c.toNat != 0

theorem isPlain_iff {t : Text} : isPlain t = true ↔ ∀ c ∈ t, c ≠ chr '%' ∧ c ≠ 0 := by
  have hpercent : (chr '%').toNat = 37 := rfl
  simp [isPlain, BitVec.toNat_eq, hpercent]

theorem isPlain_ne_zero {t : Text} (h : isPlain t = true) : ∀ c ∈ t, c ≠ 0 :=
  fun c hc => (isPlain_iff.mp h c hc).2

theorem prints_isPlain {t : Text} (strings : Nat → Text) (va : List Nat) (h : isPlain t = true) :
    Prints strings t va va t := prints_plain strings va (fun c hc => (isPlain_iff.mp h c hc).1)

def dumpTitle : Text := utf8 "ℹ Register dump:\n\n"

def dumpFormat : Text := utf8
  "⤷ rax: 0x%.16llx, rbx:    0x%.16llx, rcx: 0x%.16llx, rdx: 0x%.16llx\n" ++ utf8
  "⤷ rsi: 0x%.16llx, rdi:    0x%.16llx, rbp: 0x%.16llx, r8 : 0x%.16llx\n" ++ utf8
  "⤷ r9 : 0x%.16llx, r10:    0x%.16llx, r11: 0x%.16llx, r12: 0x%.16llx\n" ++ utf8
  "⤷ r13: 0x%.16llx, r14:    0x%.16llx, r15: 0x%.16llx, ss : 0x%.16llx\n" ++ utf8
  "⤷ rsp: 0x%.16llx, rflags: 0x%.16llx, cs : 0x%.16llx, rip: 0x%.16llx\n"

def dumpArguments (cpu : CpuInterruptState) : List Nat :=
  [cpu.rax, cpu.rbx, cpu.rcx, cpu.rdx, cpu.rsi, cpu.rdi, cpu.rbp, cpu.r8, cpu.r9, cpu.r10, cpu.r11,
    cpu.r12, cpu.r13, cpu.r14, cpu.r15, cpu.ss, cpu.rsp, cpu.rflags, cpu.cs, cpu.rip]

/-- What stands before each number of the dump. -/
def dumpLabels : List Text := List.map utf8
  ["⤷ rax: 0x", ", rbx:    0x", ", rcx: 0x", ", rdx: 0x", "\n⤷ rsi: 0x", ", rdi:    0x",
    ", rbp: 0x", ", r8 : 0x", "\n⤷ r9 : 0x", ", r10:    0x", ", r11: 0x", ", r12: 0x",
    "\n⤷ r13: 0x", ", r14:    0x", ", r15: 0x", ", ss : 0x", "\n⤷ rsp: 0x", ", rflags: 0x",
    ", cs : 0x", ", rip: 0x"]

def hexFormat : Text := utf8 "%.16llx"

/-- The sixteen hexadecimal digits of a word. -/
def hexText (v : Nat) : Text := padded false 16 (16 - (numeral 16 v).length) v

/-- Each number behind its label. -/
def labelled : List Text → List Nat → Text
  | label :: labels, v :: vs => label ++ (hexText (v % 2 ^ 64) ++ labelled labels vs)
  | _, _ => []

theorem dumpFormat_eq : dumpFormat = (dumpLabels.map (· ++ hexFormat)).flatten ++ utf8 "\n" := by
  decide +kernel

section Hex

variable {v : Nat}

theorem hexText_length (hv : v < 2 ^ 64) : (hexText v).length = 16 := by
  have hle : (numeral 16 v).length ≤ 16 :=
    (numeral_length_le_iff (by decide) (by decide)).mpr (by omega)
  simp only [hexText, padded, digitText, List.length_append, zeros_length, List.length_reverse,
    List.length_map]
  omega

theorem padded_plain {base k : Nat} {uppercase : Bool} (hb : 1 < base) (hbase : base ≤ 16)
    {c : BitVec 8} (hc : c ∈ padded uppercase base k v) : c ≠ 0 := by
  have hdigits : ∀ d < 16, ∀ uppercase, digitChar uppercase d ≠ 0 := by decide
  rw [← List.mem_reverse, padded_reverse, List.mem_map] at hc
  obtain ⟨d, hd, rfl⟩ := hc
  have hlt : d < 16 := by
    cases List.mem_append.mp hd with
    | inl hnum => exact (numeral_lt_base hb hnum).trans_le hbase
    | inr hzero =>
      rw [(List.mem_replicate.mp hzero).2]
      decide
  exact hdigits d hlt uppercase

theorem hexWidth_lt : 0 < 2 ^ 32 := by decide

theorem hexPrec_lt : 16 < 2 ^ 32 := by decide

theorem hexPrec_set (h : true = false) : 16 = 0 := absurd h (by decide)

/-- `%.16llx`. -/
def hexDirective : Directive where
  flags := { precision := true, long := true, longLong := true }
  prec := 16
  width_lt := hexWidth_lt
  prec_lt := hexPrec_lt
  unset := hexPrec_set

theorem integerText_hex (v : Nat) :
    integerText hexDirective (chr 'x') v = hexText (v % 2 ^ 64) := by
  have hbase : specifierBase (chr 'x') = 16 := rfl
  have hfits : NumberFits hexDirective (chr 'x') v := by
    apply numberFits_plain
    · rfl
    · decide
    · decide
    · simp [hexDirective]
    · simp [hbase]
  have hvalue : magnitude hexDirective (chr 'x') v = v % 2 ^ 64 := rfl
  have hupper : chr 'x' ≠ chr 'X' := by decide
  have hflags : numberFlags hexDirective (chr 'x') (v % 2 ^ 64) = hexDirective.flags := by
    simp [numberFlags, hexDirective, hupper]
  have hsign : signText (isNegative hexDirective (chr 'x') v) hexDirective.flags = [] := rfl
  have hplain : ∀ digits, standardText hexDirective.flags 16 16 0 [] digits =
      zeros (16 - digits.length) ++ digits := by
    intro digits
    simp [standardText, markText, hexDirective, spaces]
  rw [integerText_standard hfits, standardInteger, hvalue, hflags, hbase, hsign]
  apply (hplain _).trans
  by_cases hzero : v % 2 ^ 64 = 0
  · rw [hzero]
    decide
  · have hdigits : printedDigits (v % 2 ^ 64) 16 hexDirective.flags =
        digitText false 16 (v % 2 ^ 64) := by
      simp only [printedDigits, hzero, decide_false, Bool.and_false, Bool.false_eq_true, if_false]
      rfl
    rw [hdigits, hexText, padded]
    simp [digitText]

theorem prints_hex (strings : Nat → Text) (v : Nat) (va : List Nat) :
    Prints strings hexFormat (v :: va) va (hexText (v % 2 ^ 64)) := by
  have h : Prints strings hexFormat (v :: va) va (integerText hexDirective (chr 'x') v ++ []) :=
    .directive rfl rfl .done
  rwa [integerText_hex, List.append_nil] at h

end Hex

theorem prints_labelled (strings : Nat → Text) {labels : List Text} {vs : List Nat}
    (hlabels : ∀ label ∈ labels, isPlain label = true) (hlen : vs.length = labels.length)
    (rest : List Nat) : Prints strings (labels.map (· ++ hexFormat)).flatten (vs ++ rest) rest
      (labelled labels vs) := by
  induction labels generalizing vs with
  | nil =>
    rw [List.length_eq_zero_iff.mp hlen]
    exact .done
  | cons label labels ih =>
    cases vs with
    | nil => simp at hlen
    | cons v vs =>
      have hrest := ih (fun l hl => hlabels l (List.mem_cons_of_mem label hl)) (by simpa using hlen)
      have hplain := prints_isPlain strings (v :: (vs ++ rest)) (hlabels label List.mem_cons_self)
      rw [List.map_cons, List.flatten_cons, List.append_assoc]
      exact hplain.append ((prints_hex strings v _).append hrest)

theorem labelled_plain {labels : List Text} {vs : List Nat}
    (hlabels : ∀ label ∈ labels, isPlain label = true) :
    ∀ c ∈ labelled labels vs, c ≠ 0 := by
  induction labels generalizing vs with
  | nil => simp [labelled]
  | cons label labels ih =>
    cases vs with
    | nil => simp [labelled]
    | cons v vs =>
      intro c hc
      have hrest : ∀ d ∈ labelled labels vs, d ≠ 0 :=
        ih (fun l hl => hlabels l (List.mem_cons_of_mem label hl))
      rw [labelled, List.mem_append, List.mem_append] at hc
      rcases hc with hc | hc | hc
      · exact isPlain_ne_zero (hlabels label List.mem_cons_self) c hc
      · exact padded_plain (by decide) (by decide) hc
      · exact hrest c hc

theorem labelled_length {labels : List Text} {vs : List Nat} (hlen : vs.length = labels.length) :
    (labelled labels vs).length = labels.flatten.length + 16 * labels.length := by
  induction labels generalizing vs with
  | nil => simp [labelled]
  | cons label labels ih =>
    cases vs with
    | nil => simp at hlen
    | cons v vs =>
      have htail : vs.length = labels.length := by simpa using hlen
      have hrest := ih htail
      have hhex := hexText_length (Nat.mod_lt v (by decide : 0 < 2 ^ 64))
      simp only [labelled, List.length_append, List.flatten_cons, List.length_cons, hrest, hhex]
      omega

/-- What the dump prints below its title. -/
def dumpText (cpu : CpuInterruptState) : Text :=
  labelled dumpLabels (dumpArguments cpu) ++ utf8 "\n"

theorem dumpLabels_plain : ∀ label ∈ dumpLabels, isPlain label = true := by
  decide +kernel

theorem prints_dump (strings : Nat → Text) (cpu : CpuInterruptState) :
    Prints strings dumpFormat (dumpArguments cpu) [] (dumpText cpu) := by
  have hend : isPlain (utf8 "\n") = true := by decide
  have hlabels := prints_labelled strings dumpLabels_plain
    (rfl : (dumpArguments cpu).length = dumpLabels.length) []
  rw [List.append_nil] at hlabels
  rw [dumpFormat_eq]
  exact hlabels.append (prints_isPlain strings [] hend)

theorem dumpText_plain (cpu : CpuInterruptState) : ∀ c ∈ dumpText cpu, c ≠ 0 := by
  have hend : isPlain (utf8 "\n") = true := by decide
  intro c hc
  cases List.mem_append.mp hc with
  | inl hlabel => exact labelled_plain dumpLabels_plain c hlabel
  | inr hlast => exact isPlain_ne_zero hend c hlast

theorem dumpText_length (cpu : CpuInterruptState) : (dumpText cpu).length < bufferSize := by
  have hlabels : dumpLabels.flatten.length + 16 * dumpLabels.length + (utf8 "\n").length <
      bufferSize := by
    decide +kernel
  rwa [dumpText, List.length_append, labelled_length rfl]

end ApoptOS.Isr
