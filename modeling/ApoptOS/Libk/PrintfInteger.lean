import ApoptOS.Framework.Numerals
import ApoptOS.Libk.PrintfText

namespace ApoptOS.Printf

open Framework

def zeros (n : Nat) : Text := List.replicate n (chr '0')

/-- A number as it is written in a base. -/
def digitText (uppercase : Bool) (base value : Nat) : Text :=
  ((numeral base value).map (digitChar uppercase)).reverse

def signText (negative : Bool) (flags : Flags) : Text :=
  if negative then [chr '-']
  else if flags.plus then [chr '+']
  else if flags.space then [chr ' ']
  else []

def markText (base : Nat) (flags : Flags) : Text :=
  if !flags.hash then []
  else if base = 16 then [chr '0', chr (if flags.uppercase then 'X' else 'x')]
  else if base = 2 then [chr '0', chr 'b']
  else [chr '0']

/-- What the C standard asks for: at least `prec` digits, behind a sign and the mark of the base,
padded to `width` with blanks on the left or right, or with zeros behind sign and mark. An octal
number has no mark if its precision already gives it a leading zero. -/
def standardText (flags : Flags) (base prec width : Nat) (sign digits : Text) : Text :=
  let mark := if base = 8 ∧ digits.length < prec then [] else markText base flags
  let body := zeros (prec - digits.length) ++ digits
  let pad := width - (sign.length + mark.length + body.length)
  if flags.left then sign ++ mark ++ body ++ spaces pad
  else if flags.zeropad then sign ++ mark ++ zeros pad ++ body
  else spaces pad ++ sign ++ mark ++ body

/-- The conversion buffer has room for a number of `count` digits, and the short cuts that the
code takes for left alignment and for the mark of the base do no harm. -/
structure Fits (flags : Flags) (base prec width count : Nat) (sign : Text) : Prop where
  room : sign.length + (markText base flags).length + max count prec ≤ ntoaBufferSize
  left : flags.left → prec ≤ count
  zeropad : flags.zeropad → flags.left = false → flags.precision = false ∧
    width ≤ ntoaBufferSize
  unset : flags.precision = false → prec = 0
  unsigned : flags.hash → sign = []
  octal : flags.hash → base = 8 → prec ≤ count
  -- a number as wide as its field would lose its first digits to the mark
  mark : flags.hash → flags.precision = false → count ≠ width
  filled : flags.hash → flags.zeropad → flags.left = false → count < width →
    base ≠ 2 ∧ count + (markText base flags).length ≤ width

section Buffer

variable {buf : NtoaBuffer} {base prec width : Nat} {flags : Flags}

theorem NtoaBuffer.push_text (buf : NtoaBuffer) (h : buf.text.length < ntoaBufferSize)
    (c : BitVec 8) :
    (buf.push c).text = buf.text ++ [c] := by
  rw [push, dif_pos h]

theorem padZeros_text (limit n : Nat) (buf : NtoaBuffer) : (padZeros limit n buf).text =
    buf.text ++ zeros (min n (min limit ntoaBufferSize - buf.text.length)) := by
  induction n generalizing buf with
  | zero => simp [padZeros, zeros]
  | succ n ih =>
    rw [padZeros]
    by_cases h : buf.text.length < limit ∧ buf.text.length < ntoaBufferSize
    · have hmore : min (n + 1) (min limit ntoaBufferSize - buf.text.length) =
          min n (min limit ntoaBufferSize - (buf.text.length + 1)) + 1 := by omega
      rw [if_pos h, ih, NtoaBuffer.push_text _ h.2, hmore]
      simp [zeros, List.replicate_succ]
    · have hnone : min limit ntoaBufferSize - buf.text.length = 0 := by omega
      simp [h, hnone, zeros]

/-- With room for the limit, or nothing to add, the buffer is filled up to the limit. -/
theorem padZeros_fills {limit : Nat} (h : limit ≤ ntoaBufferSize) :
    (padZeros limit ntoaBufferSize buf).text = buf.text ++ zeros (limit - buf.text.length) := by
  rw [padZeros_text, Nat.min_eq_left h, Nat.min_eq_right (by omega)]

theorem ntoaDigits_text (hb : 1 < base) {uppercase : Bool} (n : Nat) {value : Nat}
    (buf : NtoaBuffer) (hn : (numeral base value).length ≤ n)
    (hroom : buf.text.length + (numeral base value).length ≤ ntoaBufferSize) :
    (ntoaDigits uppercase base n value buf).text =
      buf.text ++ (numeral base value).map (digitChar uppercase) := by
  induction n generalizing value buf with
  | zero =>
    have hpos := numeral_length_pos base value
    omega
  | succ n ih =>
    rw [ntoaDigits]
    by_cases hnext : value / base ≠ 0
    · rw [numeral_next hb hnext, List.length_cons] at hn hroom
      have hpush := NtoaBuffer.push_text buf (by omega) (digitChar uppercase (value % base))
      rw [if_pos hnext, ih _ (by omega) (by rw [hpush]; simp; omega), hpush, numeral_next hb hnext]
      simp
    · rw [numeral_last hb (not_not.mp hnext), List.length_singleton] at hroom
      rw [if_neg hnext, NtoaBuffer.push_text _ (by omega), numeral_last hb (not_not.mp hnext)]
      rfl

/-- How many zeros `_ntoa_format` adds to a number of `count` digits. -/
def zeroCount (flags : Flags) (prec width count : Nat) : Nat :=
  if flags.left then 0 else if flags.zeropad then width - count else prec - count

@[simp] theorem zeros_length (n : Nat) : (zeros n).length = n := List.length_replicate

theorem zeroPadded_text (hprec : prec ≤ ntoaBufferSize)
    (hzero : flags.zeropad → flags.left = false → prec = 0 ∧ width ≤ ntoaBufferSize) :
    (zeroPadded buf prec width flags).text =
      buf.text ++ zeros (zeroCount flags prec width buf.text.length) := by
  unfold zeroPadded zeroCount
  cases hleft : flags.left with
  | true => simp [zeros]
  | false =>
    cases hpad : flags.zeropad with
    | false => simp [padZeros_fills hprec]
    | true =>
      obtain ⟨hnone, hwidth⟩ := hzero hpad hleft
      have hsame : (padZeros prec ntoaBufferSize buf).text = buf.text := by
        rw [padZeros_fills hprec, hnone]
        simp [zeros]
      simp [padZeros_fills hwidth, hsame]

theorem pushMark_text (hhash : flags.hash = true)
    (h : buf.text.length + (markText base flags).length ≤ ntoaBufferSize) :
    (pushMark buf base flags).text = buf.text ++ (markText base flags).reverse := by
  have htwo : ∀ c, buf.text.length + 2 ≤ ntoaBufferSize →
      ((buf.push c).push (chr '0')).text = buf.text ++ [c, chr '0'] := by
    intro c hroom
    have hc := NtoaBuffer.push_text buf (by omega) c
    rw [NtoaBuffer.push_text _ (by rw [hc]; simp; omega), hc]
    simp
  revert h
  unfold pushMark markText
  rw [hhash]
  by_cases hhex : base = 16
  · cases hupper : flags.uppercase <;> simpa [hhex] using htwo _
  by_cases hbin : base = 2
  · simpa [hbin] using htwo (chr 'b')
  · intro h
    simp only [hhex, hbin]
    simpa using NtoaBuffer.push_text _ (by simpa [hhex, hbin] using h) (chr '0')

/-- Nothing is taken off a number that is narrower or wider than its field. -/
theorem hashMarked_keep (hkeep : flags.hash → flags.precision = false →
      prec = 0 ∧ buf.text.length ≠ width)
    (h : buf.text.length + (markText base flags).length ≤ ntoaBufferSize) :
    (hashMarked buf base prec width flags).text = buf.text ++ (markText base flags).reverse := by
  unfold hashMarked
  cases hhash : flags.hash with
  | false => simp [markText, hhash]
  | true =>
    cases hprec : flags.precision with
    | true => simpa using pushMark_text hhash h
    | false =>
      obtain ⟨hnone, hwidth⟩ := hkeep hhash hprec
      simp only [if_true]
      rw [if_neg (by simp [hnone, hwidth])]
      exact pushMark_text hhash h

/-- A number filled up with zeros to its field gives as many of them as the mark needs. -/
theorem hashMarked_drop {t : Text} (hhash : flags.hash = true) (hprec : flags.precision = false)
    (hbase : base ≠ 2) (hbuf : buf.text = t ++ zeros (markText base flags).length)
    (hwidth : buf.text.length = width) :
    (hashMarked buf base prec width flags).text = t ++ (markText base flags).reverse := by
  have hfits := buf.fits
  rw [hbuf, List.length_append, zeros, List.length_replicate] at hfits
  have hpopped : ∀ b : NtoaBuffer, b.text = t → (pushMark b base flags).text =
      t ++ (markText base flags).reverse := by
    intro b hb
    rw [pushMark_text hhash (by rw [hb]; exact hfits), hb]
  by_cases hhex : base = 16
  · have hzeros : buf.text = t ++ [chr '0', chr '0'] := by
      rw [hbuf, markText, hhash, hhex]
      rfl
    have hlen : buf.text.length = t.length + 2 := by simp [hzeros]
    unfold hashMarked
    simp only [hhash, hprec, if_true]
    rw [if_pos (by simp [← hwidth, hzeros]), if_pos (by simp [NtoaBuffer.pop, hzeros, hhex])]
    apply hpopped
    simp [NtoaBuffer.pop, hzeros]
  · have hzeros : buf.text = t ++ [chr '0'] := by
      rw [hbuf, markText, hhash]
      simp [hhex, hbase, zeros]
    have hlen : buf.text.length = t.length + 1 := by simp [hzeros]
    unfold hashMarked
    simp only [hhash, hprec, if_true]
    rw [if_pos (by simp [← hwidth, hzeros]), if_neg (by simp [hhex])]
    apply hpopped
    simp [NtoaBuffer.pop, hzeros]

theorem signed_text {negative : Bool}
    (h : buf.text.length + (signText negative flags).length ≤ ntoaBufferSize) :
    (signed buf negative flags).text = buf.text ++ (signText negative flags).reverse := by
  revert h
  unfold signed signText
  split_ifs <;> intro h
  case neg => simp
  all_goals
    rw [NtoaBuffer.push_text _ (by simpa using h)]
    rfl

theorem signWidth_eq (negative : Bool) (width : Nat) (flags : Flags) :
    signWidth negative width flags =
    if flags.left = false ∧ flags.zeropad then width - (signText negative flags).length
    else width := by
  unfold signWidth signText
  cases flags.left <;> cases flags.zeropad <;> cases negative <;> cases flags.plus <;>
    cases flags.space <;> by_cases hwidth : width = 0 <;> simp [hwidth]

/-- The zeros between the mark and the digits. -/
def innerZeros (flags : Flags) (prec width count : Nat) (sign mark : Text) : Nat :=
  if flags.left then 0
  else if flags.zeropad then width - (sign.length + mark.length + count)
  else prec - count

theorem Fits.signWidth_le {negative : Bool} {count : Nat}
    (h : Fits flags base prec width count (signText negative flags)) :
    flags.zeropad → flags.left = false →
      prec = 0 ∧ signWidth negative width flags ≤ ntoaBufferSize := by
  intro hpad hleft
  obtain ⟨hprec, hwidth⟩ := h.zeropad hpad hleft
  exact ⟨h.unset hprec, (Printf.signWidth_le _ _ _).trans hwidth⟩

theorem hashMarked_text {negative : Bool} {digits : Text} (hbuf : buf.text = digits.reverse)
    (h : Fits flags base prec width digits.length (signText negative flags)) :
    (hashMarked (zeroPadded buf prec (signWidth negative width flags) flags) base prec
        (signWidth negative width flags) flags).text =
      digits.reverse ++ zeros (innerZeros flags prec width digits.length (signText negative flags)
        (markText base flags)) ++ (markText base flags).reverse := by
  have hroom := h.room
  have hpadded : (zeroPadded buf prec (signWidth negative width flags) flags).text =
      digits.reverse ++
        zeros (zeroCount flags prec (signWidth negative width flags) digits.length) := by
    rw [zeroPadded_text (by omega) h.signWidth_le, hbuf, List.length_reverse]
  have hlen := congrArg List.length hpadded
  rw [List.length_append, List.length_reverse, zeros_length] at hlen
  have hnomark : flags.hash = false → (markText base flags).length = 0 := by
    intro hhash
    simp [markText, hhash]
  have hunsigned : flags.hash = true → (signText negative flags).length = 0 := by
    intro hhash
    simp [h.unsigned hhash]
  have hwidth := signWidth_eq negative width flags
  by_cases hdrop : flags.hash ∧ flags.zeropad ∧ flags.left = false ∧ digits.length < width
  · -- the zeros that fill the field make room for the mark
    obtain ⟨hhash, hpad, hleft, hcount⟩ := hdrop
    obtain ⟨hbase, hmark⟩ := h.filled hhash hpad hleft hcount
    have hnone := hunsigned hhash
    rw [hnone, Nat.sub_zero, ite_self] at hwidth
    rw [hwidth] at hlen hpadded ⊢
    have hzero : zeroCount flags prec width digits.length = width - digits.length := by
      simp [zeroCount, hleft, hpad]
    have hinner : innerZeros flags prec width digits.length (signText negative flags)
        (markText base flags) = width - digits.length - (markText base flags).length := by
      simp only [innerZeros, hleft, hpad, hnone]
      simp
      omega
    rw [hinner, hashMarked_drop hhash (h.zeropad hpad hleft).1 hbase _ (by omega)]
    rw [hpadded, hzero, List.append_assoc]
    congr 1
    simp only [zeros, List.replicate_append_replicate]
    congr 1
    omega
  · have hinner : innerZeros flags prec width digits.length (signText negative flags)
        (markText base flags) =
          zeroCount flags prec (signWidth negative width flags) digits.length := by
      unfold innerZeros zeroCount
      cases hleft : flags.left <;> cases hpad : flags.zeropad <;> cases hhash : flags.hash <;>
        simp_all
      all_goals omega
    rw [hinner, hashMarked_keep, hpadded]
    · intro hhash hprec
      have hne := h.mark hhash hprec
      have hnone := hunsigned hhash
      have hzero := h.unset hprec
      refine ⟨hzero, ?_⟩
      rw [hlen, hwidth, zeroCount]
      cases hleft : flags.left <;> cases hpad : flags.zeropad <;> simp_all
    · rw [hlen, ← hinner, innerZeros]
      cases hleft : flags.left with
      | true =>
        simp only [if_true]
        omega
      | false =>
        cases hpad : flags.zeropad with
        | false =>
          simp only [Bool.false_eq_true, if_false]
          omega
        | true =>
          have hfit := (h.zeropad hpad hleft).2
          simp only [if_true, Bool.false_eq_true, if_false]
          omega

theorem formatBuffer_text {negative : Bool} {digits : Text} (hbuf : buf.text = digits.reverse)
    (h : Fits flags base prec width digits.length (signText negative flags)) :
    (formatBuffer buf negative base prec width flags).text.reverse =
      signText negative flags ++ markText base flags ++
        zeros (innerZeros flags prec width digits.length (signText negative flags)
          (markText base flags)) ++ digits := by
  have hroom := h.room
  have hmarked := hashMarked_text hbuf h
  have hinner : digits.length + innerZeros flags prec width digits.length (signText negative flags)
      (markText base flags) + (markText base flags).length + (signText negative flags).length ≤
        ntoaBufferSize := by
    unfold innerZeros
    cases hleft : flags.left with
    | true =>
      simp only [if_true]
      omega
    | false =>
      cases hpad : flags.zeropad with
      | false =>
        simp only [Bool.false_eq_true, if_false]
        omega
      | true =>
        have hfit := (h.zeropad hpad hleft).2
        simp only [if_true, Bool.false_eq_true, if_false]
        omega
  have hlen := congrArg List.length hmarked
  simp only [List.length_append, List.length_reverse, zeros_length] at hlen
  rw [formatBuffer, signed_text (by omega), hmarked]
  simp [zeros, List.reverse_append]

theorem Fits.mark_eq {count : Nat} {sign : Text} (h : Fits flags base prec width count sign) :
    (if base = 8 ∧ count < prec then [] else markText base flags) = markText base flags := by
  by_cases hoctal : base = 8 ∧ count < prec
  · cases hhash : flags.hash with
    | true =>
      have hle := h.octal hhash hoctal.1
      omega
    | false => simp [markText, hhash]
  · rw [if_neg hoctal]

/-- What the buffer holds is printed as the standard asks. -/
theorem outRevText_standard {negative : Bool} {digits : Text} (hbuf : buf.text = digits.reverse)
    (h : Fits flags base prec width digits.length (signText negative flags)) :
    outRevText (formatBuffer buf negative base prec width flags).text
        (signWidth negative width flags) flags =
      standardText flags base prec width (signText negative flags) digits := by
  have hrev := formatBuffer_text hbuf h
  have hlen := congrArg List.length hrev
  simp only [List.length_append, List.length_reverse, zeros_length] at hlen
  have hwidth := signWidth_eq negative width flags
  unfold outRevText standardText
  rw [hrev, h.mark_eq, hwidth]
  unfold innerZeros at hlen ⊢
  cases hleft : flags.left with
  | true =>
    have hnone : prec - digits.length = 0 := by
      have hle := h.left hleft
      omega
    rw [hleft] at hlen
    simp [hnone, hlen, zeros, Nat.add_assoc]
  | false =>
    cases hpad : flags.zeropad with
    | true =>
      have hnone := h.unset (h.zeropad hpad hleft).1
      simp [hnone, zeros]
    | false =>
      rw [hleft, hpad] at hlen
      simp only [Bool.false_eq_true, if_false] at hlen
      simp [hlen, Nat.add_assoc]

end Buffer

/-- The digits an integer conversion starts from. -/
def printedDigits (value base : Nat) (flags : Flags) : Text :=
  if flags.precision && value = 0 then [] else digitText flags.uppercase base value

section Conversion

variable {base prec width value : Nat} {flags : Flags} {negative : Bool}

theorem digitBuffer_text (hb : 1 < base)
    (h : (printedDigits value base flags).length ≤ ntoaBufferSize) :
    (digitBuffer value base flags).text = (printedDigits value base flags).reverse := by
  revert h
  unfold digitBuffer printedDigits
  by_cases hnone : flags.precision ∧ value = 0
  · simp [hnone, NtoaBuffer.empty]
  · have hsome : (!flags.precision || decide (value ≠ 0)) = true := by
      cases hprec : flags.precision <;> simp_all
    have hdigits : ¬ (flags.precision && decide (value = 0)) = true := by simpa using hnone
    rw [if_pos hsome, if_neg hdigits, digitText, List.reverse_reverse, List.length_reverse,
      List.length_map]
    intro hlen
    rw [ntoaDigits_text hb _ _ hlen (by simpa [NtoaBuffer.empty] using hlen)]
    rfl

theorem ntoaText_standard (hb : 1 < base) (h : Fits (zeroFlags value flags) base prec width
      (printedDigits value base (zeroFlags value flags)).length
      (signText negative (zeroFlags value flags))) :
    ntoaText value negative base prec width flags =
      standardText (zeroFlags value flags) base prec width
        (signText negative (zeroFlags value flags))
        (printedDigits value base (zeroFlags value flags)) := by
  have hroom := h.room
  exact outRevText_standard (digitBuffer_text hb (by omega)) h

theorem one_lt_specifierBase (c : BitVec 8) : 1 < specifierBase c := by
  unfold specifierBase
  split_ifs <;> decide

/-- The flags that an integer conversion works with. -/
def numberFlags (d : Directive) (c : BitVec 8) (value : Nat) : Flags :=
  zeroFlags value (integerFlags c d.flags)

/-- Magnitude and sign of the number that an integer conversion prints. -/
def magnitude (d : Directive) (c : BitVec 8) (a : Nat) : Nat :=
  if isSigned c then (signedValue (integerFlags c d.flags) a).natAbs
  else unsignedValue (integerFlags c d.flags) a

def isNegative (d : Directive) (c : BitVec 8) (a : Nat) : Bool :=
  isSigned c && decide (signedValue (integerFlags c d.flags) a < 0)

/-- The conversion buffer has room for the number that a conversion prints. -/
def NumberFits (d : Directive) (c : BitVec 8) (a : Nat) : Prop :=
  Fits (numberFlags d c (magnitude d c a)) (specifierBase c) d.prec d.width
    (printedDigits (magnitude d c a) (specifierBase c) (numberFlags d c (magnitude d c a))).length
    (signText (isNegative d c a) (numberFlags d c (magnitude d c a)))

/-- The type that a signed number is negated in, `int` or one of 64 bits, has its negation. -/
def Negatable (d : Directive) (c : BitVec 8) (a : Nat) : Prop :=
  isSigned c → signedValue (integerFlags c d.flags) a ≠
    if d.flags.longLong || d.flags.long then -2 ^ 63 else -2 ^ 31

instance (d : Directive) (c : BitVec 8) (a : Nat) : Decidable (Negatable d c a) := by
  unfold Negatable
  infer_instance

/-- A number that the code can negate and has room for. -/
def IntegerFits (d : Directive) (c : BitVec 8) (a : Nat) : Prop :=
  Negatable d c a ∧ NumberFits d c a

/-- What C asks an integer conversion to print. -/
def standardInteger (d : Directive) (c : BitVec 8) (a : Nat) : Text :=
  standardText (numberFlags d c (magnitude d c a)) (specifierBase c) d.prec d.width
    (signText (isNegative d c a) (numberFlags d c (magnitude d c a)))
    (printedDigits (magnitude d c a) (specifierBase c) (numberFlags d c (magnitude d c a)))

@[simp] theorem zeroFlags_eq (value : Nat) (flags : Flags) : zeroFlags value flags =
    { flags with hash := flags.hash && value ≠ 0 } := by
  cases flags
  by_cases hv : value = 0 <;> simp [zeroFlags, hv]

/-- What an integer conversion does to its flags. -/
@[simp] theorem integerFlags_eq (c : BitVec 8) (flags : Flags) : integerFlags c flags =
    { flags with
      hash := flags.hash && specifierBase c ≠ 10
      uppercase := flags.uppercase || c = chr 'X'
      plus := flags.plus && isSigned c
      space := flags.space && isSigned c
      zeropad := flags.zeropad && !flags.precision } := by
  cases flags with
  | mk zeropad left plus space hash uppercase char short long longLong precision =>
    by_cases hupper : c = chr 'X'
    · have hsigned : isSigned (chr 'X') = false := rfl
      have hbase : specifierBase (chr 'X') = 16 := rfl
      cases precision <;> simp [integerFlags, hupper, hsigned, hbase]
    · by_cases hbase : specifierBase c = 10 <;> cases hsigned : isSigned c <;>
        cases precision <;> simp [integerFlags, hupper, hsigned, hbase]

theorem signText_length_le (negative : Bool) (flags : Flags) :
    (signText negative flags).length ≤ 1 := by
  unfold signText
  split_ifs <;> simp

theorem printedDigits_length_le (hb : 1 < base) {k : Nat} (hk : 0 < k) (h : value < base ^ k) :
    (printedDigits value base flags).length ≤ k := by
  unfold printedDigits digitText
  split_ifs
  · simp
  · rw [List.length_reverse, List.length_map]
    exact (numeral_length_le_iff hb hk).mpr h

theorem asInt_natAbs_le {w : Nat} (hw : w ≤ 64) (a : Nat) : (asInt w a).natAbs < 2 ^ 64 := by
  have hle := BitVec.toInt_lt (x := BitVec.ofNat w a)
  have hge := BitVec.le_toInt (BitVec.ofNat w a)
  have hpow : (2 : Int) ^ (w - 1) ≤ 2 ^ 63 := by
    exact_mod_cast Nat.pow_le_pow_right (by decide) (by omega : w - 1 ≤ 63)
  rw [asInt]
  omega

theorem magnitude_lt (d : Directive) (c : BitVec 8) (a : Nat) : magnitude d c a < 2 ^ 64 := by
  unfold magnitude signedValue unsignedValue
  split_ifs
  case pos | pos | pos | neg => exact asInt_natAbs_le (by decide) a
  all_goals omega

/-- There is room for every number of 64 bits without a mark in a field of the buffer's size, with
binary ones limited to 31 digits. -/
theorem numberFits_plain {d : Directive} {c : BitVec 8} {a : Nat} (hhash : d.flags.hash = false)
    (hprec : d.prec < ntoaBufferSize) (hwidth : d.width ≤ ntoaBufferSize)
    (hleft : d.flags.left → d.prec = 0)
    (hbin : specifierBase c = 2 → magnitude d c a < 2 ^ 31) :
    NumberFits d c a := by
  have hcount : ∀ flags,
      (printedDigits (magnitude d c a) (specifierBase c) flags).length ≤ 31 := by
    intro flags
    apply printedDigits_length_le (one_lt_specifierBase c) (by decide)
    have hlt := magnitude_lt d c a
    revert hbin
    unfold specifierBase
    split_ifs <;> intro hbin
    · exact hlt.trans (by decide)
    · exact hlt.trans (by decide)
    · exact hbin rfl
    · exact hlt.trans (by decide)
  have hsign := signText_length_le (isNegative d c a) (numberFlags d c (magnitude d c a))
  have hcount' := hcount (numberFlags d c (magnitude d c a))
  have hnone : (numberFlags d c (magnitude d c a)).hash = false := by simp [numberFlags, hhash]
  have hmark : markText (specifierBase c) (numberFlags d c (magnitude d c a)) = [] := by
    simp [markText, hnone]
  refine ⟨?_, ?_, ?_, ?_, ?_, ?_, ?_, ?_⟩
  · rw [hmark, List.length_nil]
    unfold ntoaBufferSize at hprec ⊢
    omega
  · intro hl
    have hzero := hleft (by simpa [numberFlags] using hl)
    omega
  · intro hpad _
    simp only [numberFlags, zeroFlags_eq, integerFlags_eq, Bool.and_eq_true,
      Bool.not_eq_true'] at hpad
    exact ⟨by simpa [numberFlags] using hpad.2, hwidth⟩
  · intro hp
    exact d.unset (by simpa [numberFlags] using hp)
  all_goals simp [hnone]

theorem integerText_standard {d : Directive} {c : BitVec 8} {a : Nat} (h : NumberFits d c a) :
    integerText d c a = standardInteger d c a := ntoaText_standard (one_lt_specifierBase c) h

end Conversion

end ApoptOS.Printf
