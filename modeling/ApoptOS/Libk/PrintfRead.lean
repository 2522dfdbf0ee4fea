import ApoptOS.Libk.PrintfInteger

namespace ApoptOS.Printf

open Framework

def charValue (ch : BitVec 8) : Nat :=
  if ch.toNat ≤ 57 then ch.toNat - 48
  else if ch.toNat < 97 then ch.toNat - 55
  else ch.toNat - 87

/-- The number that a text of digits stands for. -/
def readNumber (base : Nat) (t : Text) : Nat := Nat.ofDigits base (t.reverse.map charValue)

/-- A number with or without a sign before it. -/
def readSigned (base : Nat) : Text → Int
  | [] => 0
  | c :: rest =>
    if c = chr '-' then -(readNumber base rest)
    else if c = chr '+' then readNumber base rest
    else readNumber base (c :: rest)

/-- Blanks on either side of a number do not count. -/
def readInteger (base : Nat) (t : Text) : Int := readSigned base (t.filter (· ≠ chr ' '))

section Digits

variable {base value : Nat} {uppercase : Bool}

theorem digitChar_facts : ∀ d < 16, ∀ uppercase, charValue (digitChar uppercase d) = d ∧
    digitChar uppercase d ≠ chr ' ' ∧ digitChar uppercase d ≠ chr '-' ∧
    digitChar uppercase d ≠ chr '+' := by
  decide

theorem charValue_digitChar {d : Nat} (hd : d < 16) : charValue (digitChar uppercase d) = d :=
  (digitChar_facts d hd uppercase).1

/-- Leading zeros and digits, as they stand between a sign and the end of the number. -/
def padded (uppercase : Bool) (base k value : Nat) : Text :=
  zeros k ++ digitText uppercase base value

theorem padded_reverse (k : Nat) : (padded uppercase base k value).reverse =
    (numeral base value ++ List.replicate k 0).map (digitChar uppercase) := by
  have hzero : digitChar uppercase 0 = chr '0' := rfl
  simp [padded, digitText, zeros, hzero]

theorem readNumber_padded (hb : 1 < base) (hbase : base ≤ 16) (k : Nat) :
    readNumber base (padded uppercase base k value) = value := by
  rw [readNumber, padded_reverse, List.map_map]
  have hread : ∀ d ∈ numeral base value ++ List.replicate k 0,
      (charValue ∘ digitChar uppercase) d = d := by
    intro d hd
    apply charValue_digitChar
    rcases List.mem_append.mp hd with hd | hd
    · exact (numeral_lt_base hb hd).trans_le hbase
    · rw [(List.mem_replicate.mp hd).2]
      decide
  rw [List.map_congr_left hread, List.map_id', Nat.ofDigits_append_replicate_zero, ofDigits_numeral]

/-- No blank and no sign is among the digits. -/
theorem mem_padded (hb : 1 < base) (hbase : base ≤ 16) {k : Nat} {c : BitVec 8}
    (hc : c ∈ padded uppercase base k value) : c ≠ chr ' ' ∧ c ≠ chr '-' ∧
    c ≠ chr '+' := by
  rw [← List.mem_reverse, padded_reverse, List.mem_map] at hc
  obtain ⟨d, hd, rfl⟩ := hc
  have hlt : d < 16 := by
    rcases List.mem_append.mp hd with hd | hd
    · exact (numeral_lt_base hb hd).trans_le hbase
    · rw [(List.mem_replicate.mp hd).2]
      decide
  exact (digitChar_facts d hlt uppercase).2

end Digits

section Numbers

variable {base prec width value : Nat} {flags : Flags} {sign digits : Text}

theorem filter_spaces (n : Nat) : (spaces n).filter (· ≠ chr ' ') = [] := by
  simp [spaces]

theorem standardText_shape (base prec width : Nat) (sign digits : Text)
    (hhash : flags.hash = false) : ∃ i j k, standardText flags base prec width sign digits =
      spaces i ++ sign ++ (zeros k ++ digits) ++ spaces j := by
  obtain ⟨pad, hpad⟩ : ∃ pad, pad = width - (sign.length + 0 + (prec - digits.length +
    digits.length)) := ⟨_, rfl⟩
  have hmark : markText base flags = [] := by simp [markText, hhash]
  cases hleft : flags.left with
  | true => exact ⟨0, pad, prec - digits.length,
      by simp [standardText, hmark, hleft, spaces, hpad]⟩
  | false =>
    cases hzero : flags.zeropad with
    | true =>
      have hsplit : zeros (pad + (prec - digits.length)) =
          zeros pad ++ zeros (prec - digits.length) := by simp [zeros]
      refine ⟨0, 0, pad + (prec - digits.length), ?_⟩
      rw [hsplit]
      simp [standardText, hmark, hleft, hzero, spaces, hpad]
    | false =>
      exact ⟨pad, 0, prec - digits.length,
        by simp [standardText, hmark, hleft, hzero, spaces, hpad]⟩

/-- Zeros and digits read as the number, also where precision 0 leaves no digit of a zero. -/
theorem readNumber_printedDigits (value : Nat) (flags : Flags) (hb : 1 < base) (hbase : base ≤ 16)
    (k : Nat) :
    readNumber base (zeros k ++ printedDigits value base flags) = value ∧
      ∀ c ∈ zeros k ++ printedDigits value base flags,
        c ≠ chr ' ' ∧ c ≠ chr '-' ∧ c ≠ chr '+' := by
  unfold printedDigits
  by_cases hnone : (flags.precision && decide (value = 0)) = true
  · have hv : value = 0 := by
      simp only [Bool.and_eq_true, decide_eq_true_eq] at hnone
      exact hnone.2
    rw [if_pos hnone, List.append_nil, hv]
    constructor
    · have hzero : charValue (chr '0') = 0 := rfl
      simp [readNumber, zeros, hzero, Nat.ofDigits_replicate_zero]
    · intro c hc
      rw [(List.mem_replicate.mp hc).2]
      decide
  · rw [if_neg hnone]
    exact ⟨readNumber_padded hb hbase k, fun c hc => mem_padded hb hbase hc⟩

/-- A sign and a number without blanks are read as the signed number. -/
theorem readInteger_signed {negative : Bool} {t : Text} {i j : Nat}
    (ht : ∀ c ∈ t, c ≠ chr ' ' ∧ c ≠ chr '-' ∧ c ≠ chr '+') :
    readInteger base (spaces i ++ signText negative flags ++ t ++ spaces j) =
      if negative then -(readNumber base t : Int) else readNumber base t := by
  have hkeep : t.filter (· ≠ chr ' ') = t := by
    apply List.filter_eq_self.mpr
    intro c hc
    simpa using (ht c hc).1
  have hfilter : (spaces i ++ signText negative flags ++ t ++ spaces j).filter (· ≠ chr ' ') =
      (signText negative flags).filter (· ≠ chr ' ') ++ t := by
    simp only [List.filter_append, filter_spaces, hkeep, List.nil_append, List.append_nil]
  have hplain : readSigned base t = readNumber base t := by
    cases t with
    | nil => simp [readSigned, readNumber]
    | cons c rest =>
      have hc := ht c List.mem_cons_self
      simp [readSigned, hc.2.1, hc.2.2]
  have hminus : ([chr '-'] : Text).filter (· ≠ chr ' ') = [chr '-'] := by decide
  have hplus : ([chr '+'] : Text).filter (· ≠ chr ' ') = [chr '+'] := by decide
  have hblank : ([chr ' '] : Text).filter (· ≠ chr ' ') = [] := by decide
  have hne : chr '+' ≠ chr '-' := by decide
  rw [readInteger, hfilter]
  unfold signText
  split_ifs with hneg hp hs
  · rw [hminus]
    simp [readSigned]
  · rw [hplus]
    simp [readSigned, hne]
  · rw [hblank]
    exact hplain
  · exact hplain

theorem specifierBase_le (c : BitVec 8) : specifierBase c ≤ 16 := by
  unfold specifierBase
  split_ifs <;> decide

/-- The number that an integer conversion prints. -/
def integerValue (d : Directive) (c : BitVec 8) (a : Nat) : Int :=
  if isSigned c then signedValue (integerFlags c d.flags) a
  else unsignedValue (integerFlags c d.flags) a

theorem integerValue_eq (d : Directive) (c : BitVec 8) (a : Nat) : integerValue d c a =
    if isNegative d c a then -(magnitude d c a : Int) else magnitude d c a := by
  unfold integerValue isNegative magnitude
  cases hsigned : isSigned c with
  | false => simp
  | true =>
    by_cases hneg : signedValue (integerFlags c d.flags) a < 0
    · simp only [hneg, decide_true, Bool.and_self, if_true]
      omega
    · simp only [hneg, decide_false, Bool.and_false, Bool.false_eq_true, if_false, if_true]
      omega

/-- What C asks for is the number, whatever is put around it. -/
theorem readInteger_standardInteger {d : Directive} {c : BitVec 8} {a : Nat}
    (hhash : (numberFlags d c (magnitude d c a)).hash = false) :
    readInteger (specifierBase c) (standardInteger d c a) = integerValue d c a := by
  obtain ⟨i, j, k, hshape⟩ := standardText_shape (specifierBase c) d.prec d.width
    (signText (isNegative d c a) (numberFlags d c (magnitude d c a)))
    (printedDigits (magnitude d c a) (specifierBase c) (numberFlags d c (magnitude d c a))) hhash
  obtain ⟨hread, hplain⟩ := readNumber_printedDigits (magnitude d c a)
    (numberFlags d c (magnitude d c a)) (one_lt_specifierBase c) (specifierBase_le c) k
  rw [standardInteger, hshape, readInteger_signed hplain, hread, integerValue_eq]

end Numbers

section Width

variable {format rest fs : Text} {va : List Nat} {flags : Flags} {value : Nat}

theorem decimal_facts : ∀ d < 10, ∀ uppercase, isDigit (digitChar uppercase d) = true ∧
    (digitChar uppercase d).toNat - 48 = d := by
  decide

theorem atoi_digits (ds : List Nat) (hds : ∀ d ∈ ds, d < 10) (i : Nat) :
    atoi i (ds.map (digitChar false) ++ rest) =
      atoi (ds.foldl (fun i d => (i * 10 + d) % 2 ^ 32) i) rest := by
  induction ds generalizing i with
  | nil => rfl
  | cons d ds ih =>
    obtain ⟨hdigit, hvalue⟩ := decimal_facts d (hds d List.mem_cons_self) false
    rw [List.map_cons, List.cons_append, atoi, if_pos hdigit, hvalue]
    exact ih (fun e he => hds e (List.mem_cons_of_mem d he)) _

/-- `_atoi` reads a number modulo 2 ^ 32, up to the end of its digits. -/
theorem atoi_digitText (value : Nat) (hrest : ∀ c ∈ rest.head?, isDigit c = false) :
    atoi 0 (digitText false 10 value ++ rest) = (value % 2 ^ 32, rest) := by
  have hstop : ∀ i, atoi i rest = (i, rest) := by
    intro i
    cases rest with
    | nil => rfl
    | cons c rest => simp [atoi, hrest c rfl]
  have hread := readDigits_numeral 10 (2 ^ 32) 0 value
  rw [List.replicate_zero, List.append_nil] at hread
  rw [digitText, ← List.map_reverse, atoi_digits, hstop]
  · rw [← hread, readDigits]
  · intro d hd
    exact numeral_lt_base (by decide) (List.mem_reverse.mp hd)

def flagChars : Text := [chr '0', chr '-', chr '+', chr ' ', chr '#']

theorem parseFlags_flags (hfs : ∀ c ∈ fs, c ∈ flagChars) (flags : Flags) :
    parseFlags flags (fs ++ rest) = parseFlags (parseFlags flags fs).1 rest := by
  induction fs generalizing flags with
  | nil => rfl
  | cons c fs ih =>
    have hc : c = chr '0' ∨ c = chr '-' ∨ c = chr '+' ∨ c = chr ' ' ∨ c = chr '#' := by
      simpa [flagChars] using hfs c List.mem_cons_self
    have htail := ih (fun e he => hfs e (List.mem_cons_of_mem c he))
    rw [List.cons_append, parseFlags, parseFlags]
    split_ifs
    case neg => simp_all
    all_goals exact htail _

theorem parseFlags_stop (hrest : ∀ c ∈ rest.head?, c ∉ flagChars) (flags : Flags) :
    parseFlags flags rest = (flags, rest) := by
  cases rest with
  | nil => rfl
  | cons c rest =>
    have hc := hrest c rfl
    simp only [flagChars, List.mem_cons, List.not_mem_nil, or_false, not_or] at hc
    simp [parseFlags, hc]

/-- The first digit of a positive number is neither a flag nor a zero. -/
theorem digitText_head (hv : value ≠ 0) : ∃ c t, digitText false 10 value = c :: t ∧
    isDigit c = true ∧ c ∉ flagChars := by
  have hfacts : ∀ d < 10, d ≠ 0 → isDigit (digitChar false d) = true ∧
      digitChar false d ∉ flagChars := by decide
  have hne : Nat.digits 10 value ≠ [] := Nat.digits_ne_nil_iff_ne_zero.mpr hv
  obtain ⟨l, d, hl⟩ := (List.eq_nil_or_concat (Nat.digits 10 value)).resolve_left hne
  have hlast : (Nat.digits 10 value).getLast hne = d := by simp [hl]
  have hd := Nat.getLast_digit_ne_zero 10 hv
  have hlt : d < 10 := Nat.digits_lt_base (by decide) (by rw [hl]; simp)
  rw [hlast] at hd
  refine ⟨digitChar false d, (l.map (digitChar false)).reverse, ?_, hfacts d hlt hd⟩
  simp [digitText, numeral, hv, hl]

/-- A number in decimal. As a width a negative one is read as a minus sign among the flags. -/
def decimalText (w : Int) : Text := (if w < 0 then [chr '-'] else []) ++ digitText false 10 w.natAbs

theorem parseDirective_star (hfs : ∀ c ∈ fs, c ∈ flagChars) {a : Nat} (ha : asInt 32 a ≠ 0)
    (hrest : ∀ c ∈ rest.head?, isDigit c = false) :
    parseDirective (a :: va) (fs ++ chr '*' :: rest) =
      parseDirective va (fs ++ (decimalText (asInt 32 a) ++ rest)) := by
  have hpos : (asInt 32 a).natAbs ≠ 0 := by omega
  obtain ⟨c, t, htext, hdigit, hflag⟩ := digitText_head hpos
  have hstar : parseFlags (parseFlags {} fs).1 (chr '*' :: rest) =
      ((parseFlags {} fs).1, chr '*' :: rest) := by
    apply parseFlags_stop
    intro e he
    obtain rfl : chr '*' = e := by simpa using he
    decide
  have hstop : ∀ flags, parseFlags flags (digitText false 10 (asInt 32 a).natAbs ++ rest) =
      (flags, digitText false 10 (asInt 32 a).natAbs ++ rest) := by
    intro flags
    apply parseFlags_stop
    intro e he
    rw [htext] at he
    obtain rfl : c = e := by simpa using he
    exact hflag
  have hwidth : parseFlags (parseFlags {} fs).1 (decimalText (asInt 32 a) ++ rest) =
      (if asInt 32 a < 0 then { (parseFlags {} fs).1 with left := true } else (parseFlags {} fs).1,
        digitText false 10 (asInt 32 a).natAbs ++ rest) := by
    by_cases hneg : asInt 32 a < 0
    · have hminus : chr '-' ≠ chr '0' := by decide
      simpa [decimalText, hneg, parseFlags, hminus] using hstop _
    · simpa [decimalText, hneg] using hstop _
  have hatoi := atoi_digitText (asInt 32 a).natAbs hrest
  rw [Nat.mod_eq_of_lt (asInt_natAbs_lt a), htext, List.cons_append] at hatoi
  have hnodigit : isDigit (chr '*') = false := by decide
  have hsame : ∀ flags, parseWidth flags va (digitText false 10 (asInt 32 a).natAbs ++ rest) =
      .ok ({ flags, width := (asInt 32 a).natAbs, width_lt := asInt_natAbs_lt a }, va, rest) := by
    intro flags
    rw [htext, List.cons_append, parseWidth, if_pos hdigit]
    simp [hatoi]
  simp only [parseDirective, parseFlags_flags hfs, hstar, hwidth, hsame]
  simp [parseWidth, hnodigit, vaArg]

end Width

section Decimal

/-- `%d` without flags, width and precision. -/
theorem integerText_decimal (a : Nat) :
    integerText { flags := {} } (chr 'd') a = decimalText (asInt 32 a) := by
  have hfits : NumberFits { flags := {} } (chr 'd') a :=
    numberFits_plain rfl (by decide) (by decide) (by decide) (fun hbin => absurd hbin (by decide))
  have hbase : specifierBase (chr 'd') = 10 := rfl
  have hsigned : isSigned (chr 'd') = true := rfl
  have hupper : chr 'd' ≠ chr 'X' := by decide
  rw [integerText_standard hfits]
  unfold standardInteger standardText markText signText printedDigits decimalText
  by_cases hneg : asInt 32 a < 0
  · simp [numberFlags, magnitude, isNegative, hbase, hsigned, hupper, signedValue, hneg, zeros,
      spaces]
  · simp [numberFlags, magnitude, isNegative, hbase, hsigned, hupper, signedValue, hneg, zeros,
      spaces]

theorem decimalText_ne_zero (w : Int) : ∀ c ∈ decimalText w, c ≠ 0 := by
  have hdigits : ∀ d < 10, digitChar false d ≠ 0 := by decide
  intro c hc
  unfold decimalText digitText at hc
  rcases List.mem_append.mp hc with hc | hc
  · split_ifs at hc
    · rw [List.mem_singleton.mp hc]
      decide
    · simp at hc
  · obtain ⟨d, hd, rfl⟩ := List.mem_map.mp (List.mem_reverse.mp hc)
    exact hdigits d (numeral_lt_base (by decide) hd)

end Decimal

end ApoptOS.Printf
