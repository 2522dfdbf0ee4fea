import ApoptOS.Framework.Sink

namespace ApoptOS.Printf

open Framework

/-- Characters up to a terminating zero, without it. -/
abbrev Text := List (BitVec 8)

def chr (c : Char) : BitVec 8 := BitVec.ofNat 8 c.toNat

def spaces (n : Nat) : Text := List.replicate n (chr ' ')

structure Flags where
  zeropad : Bool := false
  left : Bool := false
  plus : Bool := false
  space : Bool := false
  hash : Bool := false
  uppercase : Bool := false
  char : Bool := false
  short : Bool := false
  long : Bool := false
  longLong : Bool := false
  precision : Bool := false
  deriving DecidableEq, Repr

/-- Why a call leaves its format or its arguments: a conversion is cut off by the end of the
format, whose terminator the code steps over, or asks for an argument that was not passed. -/
inductive Halt where
  | formatEnd
  | missingArgument
  | outOfFuel
  deriving DecidableEq, Repr

def ntoaBufferSize : Nat := 32

/-- The conversion buffer on the stack, filled from the last character on. -/
structure NtoaBuffer where
  text : Text
  fits : text.length ≤ ntoaBufferSize

def NtoaBuffer.empty : NtoaBuffer := ⟨[], Nat.zero_le _⟩

/-- `if (len < PRINTF_NTOA_BUFFER_SIZE) buf[len++] = c`. -/
def NtoaBuffer.push (c : BitVec 8) (buf : NtoaBuffer) : NtoaBuffer :=
  if h : buf.text.length < ntoaBufferSize then
    ⟨buf.text ++ [c], by rw [List.length_append]; exact h⟩
  else buf

/-- `len--`. -/
def NtoaBuffer.pop (buf : NtoaBuffer) : NtoaBuffer :=
  ⟨buf.text.dropLast, by rw [List.length_dropLast]; exact (Nat.sub_le _ _).trans buf.fits⟩

def strnlenS (s : Text) (maxsize : Nat) : Nat := min s.length maxsize % 2 ^ 32

def isDigit (ch : BitVec 8) : Bool := 48 ≤ ch.toNat && ch.toNat ≤ 57

/-- `_atoi`: the number, and the text after its last digit. -/
def atoi (i : Nat) : Text → Nat × Text
  | [] => (i, [])
  | ch :: rest =>
    if isDigit ch then atoi ((i * 10 + (ch.toNat - 48)) % 2 ^ 32) rest else (i, ch :: rest)

section Output

variable {σ : Type*} (out : Writer σ)

/-- `while (idx - start_idx < width) out(' ', buffer, idx++, maxlen)`. -/
def padTo (start width : Nat) : Nat → Sink σ → Sink σ
  | 0, p => p
  | n + 1, p =>
    if sub64 p.idx start < width then padTo start width n (p.put out (chr ' ')) else p

def outRev (buf : Text) (width : Nat) (flags : Flags) (p : Sink σ) : Sink σ :=
  let start := p.idx
  let p :=
    if !flags.left && !flags.zeropad then p.putAll out (spaces (width - buf.length)) else p
  let p := p.putAll out buf.reverse
  if flags.left then padTo out start width width p else p

end Output

/-- `while (len < limit && len < PRINTF_NTOA_BUFFER_SIZE) buf[len++] = '0'`. -/
def padZeros (limit : Nat) : Nat → NtoaBuffer → NtoaBuffer
  | 0, buf => buf
  | n + 1, buf =>
    if buf.text.length < limit ∧ buf.text.length < ntoaBufferSize then
      padZeros limit n (buf.push (chr '0'))
    else buf

/-- What `width` has become when the sign takes a place of the zero padding. -/
def signWidth (negative : Bool) (width : Nat) (flags : Flags) : Nat :=
  if !flags.left && (width ≠ 0 && flags.zeropad && (negative || flags.plus || flags.space)) then
    width - 1
  else width

/-! `_ntoa_format` in three parts: leading zeros, the mark of the base, the sign. -/

def zeroPadded (buf : NtoaBuffer) (prec width : Nat) (flags : Flags) : NtoaBuffer :=
  if !flags.left then
    let buf := padZeros prec ntoaBufferSize buf
    if flags.zeropad then padZeros width ntoaBufferSize buf else buf
  else buf

def pushMark (buf : NtoaBuffer) (base : Nat) (flags : Flags) : NtoaBuffer :=
  let buf :=
    if base = 16 && !flags.uppercase then buf.push (chr 'x')
    else if base = 16 && flags.uppercase then buf.push (chr 'X')
    else if base = 2 then buf.push (chr 'b')
    else buf
  buf.push (chr '0')

/-- The mark takes the place of leading zeros, or of what has filled the width or precision. -/
def hashMarked (buf : NtoaBuffer) (base prec width : Nat) (flags : Flags) : NtoaBuffer :=
  if flags.hash then
    let len := buf.text.length
    let buf :=
      if !flags.precision && len ≠ 0 && (len = prec || len = width) then
        let buf := buf.pop
        if buf.text.length ≠ 0 && base = 16 then buf.pop else buf
      else buf
    pushMark buf base flags
  else buf

def signed (buf : NtoaBuffer) (negative : Bool) (flags : Flags) : NtoaBuffer :=
  if negative then buf.push (chr '-')
  else if flags.plus then buf.push (chr '+')
  else if flags.space then buf.push (chr ' ')
  else buf

def formatBuffer (buf : NtoaBuffer) (negative : Bool) (base prec width : Nat) (flags : Flags) :
    NtoaBuffer :=
  let width := signWidth negative width flags
  signed (hashMarked (zeroPadded buf prec width flags) base prec width flags) negative flags

def digitChar (uppercase : Bool) (digit : Nat) : BitVec 8 :=
  if digit < 10 then BitVec.ofNat 8 (48 + digit)
  else BitVec.ofNat 8 ((if uppercase then 65 else 97) + digit - 10)

/-- The digits of a number, the last one first. -/
def ntoaDigits (uppercase : Bool) (base : Nat) : Nat → Nat → NtoaBuffer → NtoaBuffer
  | 0, _, buf => buf
  | n + 1, value, buf =>
    let buf := buf.push (digitChar uppercase (value % base))
    if value / base ≠ 0 then ntoaDigits uppercase base n (value / base) buf else buf

/-- No hash for 0 values. -/
def zeroFlags (value : Nat) (flags : Flags) : Flags :=
  if value = 0 then { flags with hash := false } else flags

/-- Without a precision 0 has a digit, with one it has none. -/
def digitBuffer (value base : Nat) (flags : Flags) : NtoaBuffer :=
  if !flags.precision || value ≠ 0 then
    ntoaDigits flags.uppercase base ntoaBufferSize value .empty
  else .empty

section Numbers

variable {σ : Type*} (out : Writer σ)

def ntoaFormat (buf : NtoaBuffer) (negative : Bool) (base prec width : Nat) (flags : Flags) :
    Sink σ → Sink σ :=
  outRev out (formatBuffer buf negative base prec width flags).text
    (signWidth negative width flags) flags

/-- `_ntoa_long` and `_ntoa_long_long`: `long` and `long long` are both 64 bits wide. -/
def ntoa (value : Nat) (negative : Bool) (base prec width : Nat) (flags : Flags) :
    Sink σ → Sink σ :=
  let flags := zeroFlags value flags
  ntoaFormat out (digitBuffer value base flags) negative base prec width flags

def ntoaLong (value : Nat) (negative : Bool) (base prec width : Nat) (flags : Flags) :
    Sink σ → Sink σ := ntoa out value negative base prec width flags

def ntoaLongLong (value : Nat) (negative : Bool) (base prec width : Nat) (flags : Flags) :
    Sink σ → Sink σ := ntoa out value negative base prec width flags

end Numbers

/-- `va_arg`: the next argument, a 64-bit word of which a conversion reads the low bits. -/
def vaArg : List Nat → Except Halt (Nat × List Nat)
  | [] => .error .missingArgument
  | a :: va => .ok (a, va)

def asInt (w a : Nat) : Int := (BitVec.ofNat w a).toInt

def parseFlags (flags : Flags) : Text → Flags × Text
  | [] => (flags, [])
  | c :: rest =>
    if c = chr '0' then parseFlags { flags with zeropad := true } rest
    else if c = chr '-' then parseFlags { flags with left := true } rest
    else if c = chr '+' then parseFlags { flags with plus := true } rest
    else if c = chr ' ' then parseFlags { flags with space := true } rest
    else if c = chr '#' then parseFlags { flags with hash := true } rest
    else (flags, c :: rest)

/-- Flags, width and precision of one conversion, both of them `unsigned int`. -/
@[ext] structure Directive where
  flags : Flags
  width : Nat := 0
  prec : Nat := 0
  width_lt : width < 2 ^ 32 := by decide
  prec_lt : prec < 2 ^ 32 := by decide
  unset : flags.precision = false → prec = 0 := by simp

theorem atoi_lt (t : Text) : ∀ {i : Nat}, i < 2 ^ 32 → (atoi i t).1 < 2 ^ 32 := by
  induction t with
  | nil => exact id
  | cons ch rest ih =>
    intro i hi
    rw [atoi]
    by_cases hch : isDigit ch
    · rw [if_pos hch]
      exact ih (Nat.mod_lt _ (by decide))
    · rwa [if_neg hch]

theorem atoi_zero_lt (t : Text) : (atoi 0 t).1 < 2 ^ 32 := atoi_lt t (by decide)

theorem asInt_natAbs_lt (a : Nat) : (asInt 32 a).natAbs < 2 ^ 32 := by
  have hle := BitVec.toInt_lt (x := BitVec.ofNat 32 a)
  have hge := BitVec.le_toInt (BitVec.ofNat 32 a)
  rw [asInt]
  omega

theorem asInt_toNat_lt (a : Nat) : (asInt 32 a).toNat < 2 ^ 32 := by
  have h := asInt_natAbs_lt a
  omega

def parseWidth (flags : Flags) (va : List Nat) (format : Text) :
    Except Halt (Directive × List Nat × Text) :=
  match format with
  | [] => .ok ({ flags }, va, [])
  | c :: rest =>
    if isDigit c then
      let d := { flags, width := (atoi 0 (c :: rest)).1, width_lt := atoi_zero_lt _ }
      .ok (d, va, (atoi 0 (c :: rest)).2)
    else if c = chr '*' then
      match vaArg va with
      | .error e => .error e
      | .ok (a, va) =>
        let w := asInt 32 a
        let flags := if w < 0 then { flags with left := true } else flags
        .ok ({ flags, width := w.natAbs, width_lt := asInt_natAbs_lt a }, va, rest)
    else .ok ({ flags }, va, c :: rest)

/-- The precision is given: `flags |= FLAGS_PRECISION`. -/
def Directive.withPrec (d : Directive) (prec : Nat) (h : prec < 2 ^ 32) : Directive :=
  { d with flags := { d.flags with precision := true }, prec, prec_lt := h, unset := by simp }

def parsePrecision (d : Directive) (va : List Nat) (format : Text) :
    Except Halt (Directive × List Nat × Text) :=
  match format with
  | [] => .ok (d, va, [])
  | c :: rest =>
    if c = chr '.' then
      match rest with
      | [] => .ok (d.withPrec 0 (by decide), va, [])
      | c :: rest =>
        if isDigit c then
          .ok (d.withPrec (atoi 0 (c :: rest)).1 (atoi_zero_lt _), va, (atoi 0 (c :: rest)).2)
        else if c = chr '*' then
          match vaArg va with
          | .error e => .error e
          | .ok (a, va) => .ok (d.withPrec (asInt 32 a).toNat (asInt_toNat_lt a), va, rest)
        else .ok (d.withPrec 0 (by decide), va, c :: rest)
    else .ok (d, va, c :: rest)

def parseLength (flags : Flags) : Text → Flags × Text
  | [] => (flags, [])
  | c :: rest =>
    if c = chr 'l' then
      match rest with
      | [] => ({ flags with long := true }, [])
      | e :: rest =>
        if e = chr 'l' then ({ flags with long := true, longLong := true }, rest)
        else ({ flags with long := true }, e :: rest)
    else if c = chr 'h' then
      match rest with
      | [] => ({ flags with short := true }, [])
      | e :: rest =>
        if e = chr 'h' then ({ flags with short := true, char := true }, rest)
        else ({ flags with short := true }, e :: rest)
    -- ptrdiff_t, intmax_t and size_t are as wide as long
    else if c = chr 't' ∨ c = chr 'j' ∨ c = chr 'z' then ({ flags with long := true }, rest)
    else (flags, c :: rest)

theorem parseLength_precision (flags : Flags) (t : Text) :
    (parseLength flags t).1.precision = flags.precision := by
  cases t with
  | nil => rfl
  | cons c rest =>
    cases rest with
    | nil => simp only [parseLength]; split_ifs <;> rfl
    | cons e rest => simp only [parseLength]; split_ifs <;> rfl

/-- `%[flags][width][.precision][length]`, from behind the percent sign. -/
def parseDirective (va : List Nat) (format : Text) : Except Halt (Directive × List Nat × Text) :=
  let (flags, format) := parseFlags {} format
  match parseWidth flags va format with
  | .error e => .error e
  | .ok (d, va, format) =>
    match parsePrecision d va format with
    | .error e => .error e
    | .ok (d, va, format) =>
      let unset := fun h => d.unset (parseLength_precision d.flags format ▸ h)
      .ok ({ d with flags := (parseLength d.flags format).1, unset }, va,
        (parseLength d.flags format).2)

def integerSpecifiers : Text := [chr 'd', chr 'i', chr 'u', chr 'x', chr 'X', chr 'o', chr 'b']

instance (c : BitVec 8) : Decidable (c ∈ integerSpecifiers) :=
  List.instDecidableMemOfLawfulBEq c integerSpecifiers

def isSigned (c : BitVec 8) : Bool := c = chr 'd' || c = chr 'i'

def specifierBase (c : BitVec 8) : Nat :=
  if c = chr 'x' ∨ c = chr 'X' then 16
  else if c = chr 'o' then 8
  else if c = chr 'b' then 2
  else 10

/-- The flags an integer conversion keeps. -/
def integerFlags (c : BitVec 8) (flags : Flags) : Flags :=
  let flags := if specifierBase c = 10 then { flags with hash := false } else flags
  let flags := if c = chr 'X' then { flags with uppercase := true } else flags
  let flags := if isSigned c then flags else { flags with plus := false, space := false }
  if flags.precision then { flags with zeropad := false } else flags

/-- The value of a signed argument, cut to the type that the length names. -/
def signedValue (flags : Flags) (a : Nat) : Int :=
  if flags.longLong || flags.long then asInt 64 a
  else if flags.char then asInt 8 a
  else if flags.short then asInt 16 a
  else asInt 32 a

def unsignedValue (flags : Flags) (a : Nat) : Nat :=
  if flags.longLong || flags.long then a % 2 ^ 64
  else if flags.char then a % 2 ^ 8
  else if flags.short then a % 2 ^ 16
  else a % 2 ^ 32

section Conversions

variable {σ : Type*} (out : Writer σ)

/-- `%d %i %u %x %X %o %b`. C leaves `0 - value` undefined for the least value of a type, for which
this has its magnitude. -/
def convertInteger (d : Directive) (c : BitVec 8) (a : Nat) : Sink σ → Sink σ :=
  let flags := integerFlags c d.flags
  let value := if isSigned c then (signedValue flags a).natAbs else unsignedValue flags a
  let negative := isSigned c && decide (signedValue flags a < 0)
  if flags.longLong then ntoaLongLong out value negative (specifierBase c) d.prec d.width flags
  else ntoaLong out value negative (specifierBase c) d.prec d.width flags

def convertChar (d : Directive) (a : Nat) (p : Sink σ) : Sink σ :=
  let p := if !d.flags.left then p.putAll out (spaces (d.width - 1)) else p
  let p := p.put out (BitVec.ofNat 8 a)
  if d.flags.left then p.putAll out (spaces (d.width - 1)) else p

def convertString (d : Directive) (s : Text) (p : Sink σ) : Sink σ :=
  let l := strnlenS s (if d.prec ≠ 0 then d.prec else 2 ^ 64 - 1)
  let l := if d.flags.precision then min l d.prec else l
  let p := if !d.flags.left then p.putAll out (spaces (d.width - l)) else p
  let p := p.putAll out (if d.flags.precision then s.take d.prec else s)
  if d.flags.left then p.putAll out (spaces (d.width - l)) else p

def convertPointer (d : Directive) (a : Nat) : Sink σ → Sink σ :=
  ntoaLongLong out (a % 2 ^ 64) false 16 d.prec 16
    { d.flags with zeropad := true, uppercase := true }

/-- The strings that arguments point to are at `strings`. -/
def convert (strings : Nat → Text) (d : Directive) (c : BitVec 8) (va : List Nat) (p : Sink σ) :
    Except Halt (List Nat × Sink σ) :=
  if c ∈ integerSpecifiers then
    match vaArg va with
    | .error e => .error e
    | .ok (a, va) => .ok (va, convertInteger out d c a p)
  else if c = chr 'c' then
    match vaArg va with
    | .error e => .error e
    | .ok (a, va) => .ok (va, convertChar out d a p)
  else if c = chr 's' then
    match vaArg va with
    | .error e => .error e
    | .ok (a, va) => .ok (va, convertString out d (strings a) p)
  else if c = chr 'p' then
    match vaArg va with
    | .error e => .error e
    | .ok (a, va) => .ok (va, convertPointer out d a p)
  -- `%%`, and every letter that is no specifier: floats are compiled in with SSE only
  else .ok (va, p.put out c)

/-- The loop of `_vsnprintf` over the format. -/
def formatLoop (strings : Nat → Text) : Nat → Text → List Nat → Sink σ →
    Except Halt (Sink σ)
  | _, [], _, p => .ok p
  | 0, _ :: _, _, _ => .error .outOfFuel
  | n + 1, c :: format, va, p =>
    if c ≠ chr '%' then formatLoop strings n format va (p.put out c)
    else
      match parseDirective va format with
      | .error e => .error e
      | .ok (_, _, []) => .error .formatEnd
      | .ok (d, va, c :: format) =>
        match convert out strings d c va p with
        | .error e => .error e
        | .ok (va, p) => formatLoop strings n format va p

/-- `_vsnprintf`: what has been made of the characters, and the result, an `int`. -/
def vsnprintf (strings : Nat → Text) (maxlen : Nat) (format : Text) (va : List Nat) (s : σ) :
    Except Halt (σ × Int) :=
  match formatLoop out strings format.length format va ⟨0, s, Nat.two_pow_pos 64⟩ with
  | .error e => .error e
  | .ok p =>
    .ok (out 0 (if p.idx < maxlen then p.idx else sub64 maxlen 1) p.state, asInt 32 p.idx)

end Conversions

def outBuffer (buffer maxlen : Nat) : Writer Mem := boundedWriter buffer maxlen

def outNull {σ : Type*} : Writer σ := fun _ _ s => s

def outFct {σ : Type*} (fct : BitVec 8 → σ → σ) : Writer σ :=
  fun character _ s => if character ≠ 0 then fct character s else s

def vsnprintf_ (strings : Nat → Text) (buffer count : Nat) (format : Text) (va : List Nat)
    (m : Mem) : Except Halt (Mem × Int) :=
  vsnprintf (if buffer = 0 then outNull else outBuffer buffer count) strings count format va m

def snprintf_ (strings : Nat → Text) (buffer count : Nat) (format : Text) (va : List Nat)
    (m : Mem) : Except Halt (Mem × Int) :=
  vsnprintf (if buffer = 0 then outNull else outBuffer buffer count) strings count format va m

def sprintf_ (strings : Nat → Text) (buffer : Nat) (format : Text) (va : List Nat) (m : Mem) :
    Except Halt (Mem × Int) :=
  let maxlen := 2 ^ 64 - 1
  vsnprintf (if buffer = 0 then outNull else outBuffer buffer maxlen) strings maxlen format va m

def fctprintf {σ : Type*} (strings : Nat → Text) (fct : BitVec 8 → σ → σ) (format : Text)
    (va : List Nat) (s : σ) : Except Halt (σ × Int) :=
  vsnprintf (outFct fct) strings (2 ^ 64 - 1) format va s

end ApoptOS.Printf
