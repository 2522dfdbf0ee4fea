import ApoptOS.Libk.Printf

namespace ApoptOS.Printf

open Framework

/-- What `_out_rev` prints. -/
def outRevText (buf : Text) (width : Nat) (flags : Flags) : Text :=
  let pad := spaces (width - buf.length)
  (if !flags.left && !flags.zeropad then pad else []) ++ buf.reverse ++
    (if flags.left then pad else [])

def ntoaText (value : Nat) (negative : Bool) (base prec width : Nat) (flags : Flags) : Text :=
  let flags := zeroFlags value flags
  let buf := formatBuffer (digitBuffer value base flags) negative base prec width flags
  outRevText buf.text (signWidth negative width flags) flags

def integerText (d : Directive) (c : BitVec 8) (a : Nat) : Text :=
  let flags := integerFlags c d.flags
  let value := if isSigned c then (signedValue flags a).natAbs else unsignedValue flags a
  let negative := isSigned c && decide (signedValue flags a < 0)
  ntoaText value negative (specifierBase c) d.prec d.width flags

/-- A field of `width` characters, or more if its content has more. -/
def field (left : Bool) (width : Nat) (t : Text) (len : Nat) : Text :=
  (if !left then spaces (width - len) else []) ++ t ++ if left then spaces (width - len) else []

def charText (d : Directive) (a : Nat) : Text := field d.flags.left d.width [BitVec.ofNat 8 a] 1

def stringText (d : Directive) (s : Text) : Text :=
  let l := strnlenS s (if d.prec ≠ 0 then d.prec else 2 ^ 64 - 1)
  let l := if d.flags.precision then min l d.prec else l
  field d.flags.left d.width (if d.flags.precision then s.take d.prec else s) l

def pointerText (d : Directive) (a : Nat) : Text :=
  ntoaText (a % 2 ^ 64) false 16 d.prec 16 { d.flags with zeropad := true, uppercase := true }

/-- What a conversion makes of its argument, if it takes one. -/
def argumentText (strings : Nat → Text) (d : Directive) (c : BitVec 8) : Option (Nat → Text) :=
  if c ∈ integerSpecifiers then some (integerText d c)
  else if c = chr 'c' then some (charText d)
  else if c = chr 's' then some (fun a => stringText d (strings a))
  else if c = chr 'p' then some (pointerText d)
  else none

/-- What a conversion prints, and the arguments it leaves. -/
def convertText (strings : Nat → Text) (d : Directive) (c : BitVec 8) (va : List Nat) :
    Except Halt (List Nat × Text) :=
  match argumentText strings d c with
  | none => .ok (va, [c])
  | some text =>
    match vaArg va with
    | .error e => .error e
    | .ok (a, va) => .ok (va, text a)

/-- What a format prints: from the arguments `va` the text `t`, leaving the arguments `va'`. -/
inductive Prints (strings : Nat → Text) : Text → List Nat → List Nat → Text → Prop where
  | done {va} : Prints strings [] va va []
  | char {c format va va' t} (hc : c ≠ chr '%') (h : Prints strings format va va' t) :
      Prints strings (c :: format) va va' (c :: t)
  | directive {format d va₁ c rest va₂ va va' t u} (hparse : parseDirective va format =
      .ok (d, va₁, c :: rest)) (hconvert : convertText strings d c va₁ = .ok (va₂, t))
      (h : Prints strings rest va₂ va' u) : Prints strings (chr '%' :: format) va va' (t ++ u)

section Output

variable {σ : Type*} {out : Writer σ} {strings : Nat → Text} {d : Directive} {c : BitVec 8}
  {p : Sink σ}

theorem padTo_eq {start width : Nat} (hwidth : width < 2 ^ 64) (n : Nat) (p : Sink σ)
    (hn : width - sub64 p.idx start ≤ n) :
    padTo out start width n p = p.putAll out (spaces (width - sub64 p.idx start)) := by
  induction n generalizing p with
  | zero =>
    have hnone : width - sub64 p.idx start = 0 := by omega
    rw [hnone]
    rfl
  | succ n ih =>
    rw [padTo]
    by_cases hless : sub64 p.idx start < width
    · have hnext : sub64 (p.put out (chr ' ')).idx start = sub64 p.idx start + 1 := by
        have hp := p.idx_lt
        simp only [Sink.put]
        revert hless
        unfold sub64 add64
        omega
      have hpad : width - sub64 p.idx start = width - (sub64 p.idx start + 1) + 1 := by omega
      rw [if_pos hless, ih _ (by omega), hnext, hpad]
      rfl
    · have hnone : width - sub64 p.idx start = 0 := by omega
      rw [if_neg hless, hnone]
      rfl

theorem outRev_eq {buf : Text} {width : Nat} {flags : Flags} (hwidth : width < 2 ^ 64)
    (hbuf : buf.length < 2 ^ 64) :
    outRev out buf width flags p = p.putAll out (outRevText buf width flags) := by
  have hmoved : sub64 (p.putAll out buf.reverse).idx p.idx = buf.length := by
    rw [Sink.putAll_moved, List.length_reverse]
    exact Nat.mod_eq_of_lt hbuf
  cases hleft : flags.left with
  | true =>
    simp only [outRev, outRevText, hleft, Bool.not_true, Bool.false_and, Bool.false_eq_true,
      if_false, if_true, List.nil_append, Sink.putAll_append]
    rw [padTo_eq hwidth _ _ (by omega), hmoved]
  | false =>
    cases hzero : flags.zeropad <;>
      simp [outRev, outRevText, hleft, hzero, Sink.putAll_append]

theorem signWidth_le (negative : Bool) (width : Nat) (flags : Flags) :
    signWidth negative width flags ≤ width := by
  unfold signWidth
  split <;> omega

theorem ntoa_eq {value base prec width : Nat} {negative : Bool} {flags : Flags}
    (hwidth : width < 2 ^ 64) : ntoa out value negative base prec width flags p =
      p.putAll out (ntoaText value negative base prec width flags) := by
  apply outRev_eq
  · exact (signWidth_le _ _ _).trans_lt hwidth
  · exact (NtoaBuffer.fits _).trans_lt (by decide)

theorem convertInteger_eq (a : Nat) :
    convertInteger out d c a p = p.putAll out (integerText d c a) := by
  have hwidth := d.width_lt
  unfold convertInteger
  split <;> exact ntoa_eq (by omega)

theorem convertChar_eq (a : Nat) : convertChar out d a p = p.putAll out (charText d a) := by
  cases hleft : d.flags.left <;> simp [convertChar, charText, field, hleft, Sink.putAll_append]

theorem convertString_eq (s : Text) :
    convertString out d s p = p.putAll out (stringText d s) := by
  cases hleft : d.flags.left <;> simp [convertString, stringText, field, hleft, Sink.putAll_append]

theorem convert_eq (va : List Nat) : convert out strings d c va p =
    (convertText strings d c va).map (fun r => (r.1, p.putAll out r.2)) := by
  have hpointer : ∀ a, convertPointer out d a p = p.putAll out (pointerText d a) :=
    fun a => ntoa_eq (by decide)
  unfold convert convertText argumentText
  split_ifs
  · cases va <;> simp [vaArg, Except.map, convertInteger_eq]
  · cases va <;> simp [vaArg, Except.map, convertChar_eq]
  · cases va <;> simp [vaArg, Except.map, convertString_eq]
  · cases va <;> simp [vaArg, Except.map, hpointer]
  · simp [Except.map]

end Output

/-! What the parsing functions leave is the end of what they were given. -/

section Suffix

variable {flags : Flags} {d d' : Directive} {va va' : List Nat} {format rest : Text}

theorem atoi_suffix (i : Nat) (t : Text) : (atoi i t).2 <:+ t := by
  induction t generalizing i with
  | nil => simp [atoi]
  | cons ch rest ih =>
    rw [atoi]
    by_cases hch : isDigit ch
    · simpa [hch] using (ih _).trans (List.suffix_cons ch rest)
    · simp [hch]

theorem parseFlags_suffix (flags : Flags) (t : Text) : (parseFlags flags t).2 <:+ t := by
  induction t generalizing flags with
  | nil => simp [parseFlags]
  | cons c rest ih =>
    rw [parseFlags]
    split_ifs
    case neg => exact List.suffix_rfl
    all_goals exact (ih _).trans (List.suffix_cons c rest)

theorem parseWidth_suffix (h : parseWidth flags va format = .ok (d, va', rest)) :
    rest <:+ format := by
  cases format with
  | nil =>
    simp only [parseWidth, Except.ok.injEq, Prod.mk.injEq] at h
    simp [← h.2.2]
  | cons c format =>
    simp only [parseWidth] at h
    split_ifs at h
    · simp only [Except.ok.injEq, Prod.mk.injEq] at h
      simpa [← h.2.2] using atoi_suffix 0 (c :: format)
    · cases va with
      | nil => simp [vaArg] at h
      | cons a va =>
        simp only [vaArg, Except.ok.injEq, Prod.mk.injEq] at h
        simp [← h.2.2]
    · simp only [Except.ok.injEq, Prod.mk.injEq] at h
      simp [← h.2.2]

theorem parsePrecision_suffix (h : parsePrecision d va format = .ok (d', va', rest)) :
    rest <:+ format := by
  cases format with
  | nil =>
    simp only [parsePrecision, Except.ok.injEq, Prod.mk.injEq] at h
    simp [← h.2.2]
  | cons c format =>
    simp only [parsePrecision] at h
    split_ifs at h
    case neg =>
      simp only [Except.ok.injEq, Prod.mk.injEq] at h
      simp [← h.2.2]
    cases format with
    | nil =>
      simp only [Except.ok.injEq, Prod.mk.injEq] at h
      simp [← h.2.2]
    | cons e format =>
      apply List.IsSuffix.trans _ (List.suffix_cons c (e :: format))
      simp only at h
      split_ifs at h
      · simp only [Except.ok.injEq, Prod.mk.injEq] at h
        simpa [← h.2.2] using atoi_suffix 0 (e :: format)
      · cases va with
        | nil => simp [vaArg] at h
        | cons a va =>
          simp only [vaArg, Except.ok.injEq, Prod.mk.injEq] at h
          simp [← h.2.2]
      · simp only [Except.ok.injEq, Prod.mk.injEq] at h
        simp [← h.2.2]

theorem parseLength_suffix (flags : Flags) (t : Text) : (parseLength flags t).2 <:+ t := by
  cases t with
  | nil => simp [parseLength]
  | cons c rest =>
    simp only [parseLength]
    split_ifs
    case pos | pos =>
      cases rest with
      | nil => simp
      | cons e rest =>
        apply List.IsSuffix.trans _ (List.suffix_cons c (e :: rest))
        simp only
        split_ifs <;> simp
    all_goals simp

theorem parseDirective_suffix (h : parseDirective va format = .ok (d, va', rest)) :
    rest <:+ format := by
  simp only [parseDirective] at h
  cases hwidth : parseWidth (parseFlags {} format).1 va (parseFlags {} format).2 with
  | error e => simp [hwidth] at h
  | ok r =>
    cases hprec : parsePrecision r.1 r.2.1 r.2.2 with
    | error e => simp [hwidth, hprec] at h
    | ok r' =>
      simp only [hwidth, hprec, Except.ok.injEq, Prod.mk.injEq] at h
      rw [← h.2.2]
      have hlast := parseLength_suffix r'.1.flags r'.2.2
      exact ((hlast.trans (parsePrecision_suffix hprec)).trans (parseWidth_suffix hwidth)).trans
        (parseFlags_suffix {} format)

end Suffix

/-! A conversion that ends before the end of a format does not see what follows it. -/

section Append

variable {flags : Flags} {d d' : Directive} {va va' : List Nat} {format rest : Text} (g : Text)

theorem atoi_append (i : Nat) (t : Text) (ht : (atoi i t).2 ≠ []) :
    atoi i (t ++ g) = ((atoi i t).1, (atoi i t).2 ++ g) := by
  induction t generalizing i with
  | nil => simp [atoi] at ht
  | cons ch rest ih =>
    rw [atoi] at ht
    by_cases hch : isDigit ch
    · rw [if_pos hch] at ht
      simpa [atoi, hch] using ih _ ht
    · simp [atoi, hch]

theorem parseFlags_append (flags : Flags) (t : Text) (ht : (parseFlags flags t).2 ≠ []) :
    parseFlags flags (t ++ g) = ((parseFlags flags t).1, (parseFlags flags t).2 ++ g) := by
  induction t generalizing flags with
  | nil => simp [parseFlags] at ht
  | cons c rest ih =>
    rw [parseFlags] at ht
    rw [List.cons_append, parseFlags, parseFlags]
    split_ifs at ht ⊢
    case neg => rfl
    all_goals exact ih _ ht

theorem parseWidth_append (h : parseWidth flags va format = .ok (d, va', rest))
    (hrest : rest ≠ []) :
    parseWidth flags va (format ++ g) = .ok (d, va', rest ++ g) := by
  cases format with
  | nil =>
    simp only [parseWidth, Except.ok.injEq, Prod.mk.injEq] at h
    exact absurd h.2.2.symm hrest
  | cons c format =>
    simp only [List.cons_append, parseWidth] at h ⊢
    split_ifs at h ⊢
    · simp only [Except.ok.injEq, Prod.mk.injEq] at h
      have hatoi := atoi_append g 0 (c :: format) (by rwa [h.2.2])
      rw [List.cons_append] at hatoi
      simp [← h.1, ← h.2.1, ← h.2.2, hatoi]
    · cases va with
      | nil => simp [vaArg] at h
      | cons a va =>
        simp only [vaArg, Except.ok.injEq, Prod.mk.injEq] at h ⊢
        simp [← h.1, ← h.2.1, ← h.2.2]
    · simp only [Except.ok.injEq, Prod.mk.injEq] at h ⊢
      simp [← h.1, ← h.2.1, ← h.2.2]

theorem parsePrecision_append (h : parsePrecision d va format = .ok (d', va', rest))
    (hrest : rest ≠ []) : parsePrecision d va (format ++ g) = .ok (d', va', rest ++ g) := by
  cases format with
  | nil =>
    simp only [parsePrecision, Except.ok.injEq, Prod.mk.injEq] at h
    exact absurd h.2.2.symm hrest
  | cons c format =>
    simp only [List.cons_append, parsePrecision] at h ⊢
    split_ifs at h ⊢
    case neg =>
      simp only [Except.ok.injEq, Prod.mk.injEq] at h ⊢
      simp [← h.1, ← h.2.1, ← h.2.2]
    cases format with
    | nil =>
      simp only [Except.ok.injEq, Prod.mk.injEq] at h
      exact absurd h.2.2.symm hrest
    | cons e format =>
      simp only [List.cons_append] at h ⊢
      split_ifs at h ⊢
      · simp only [Except.ok.injEq, Prod.mk.injEq] at h
        have hatoi := atoi_append g 0 (e :: format) (by rwa [h.2.2])
        rw [List.cons_append] at hatoi
        simp [← h.1, ← h.2.1, ← h.2.2, hatoi]
      · cases va with
        | nil => simp [vaArg] at h
        | cons a va =>
          simp only [vaArg, Except.ok.injEq, Prod.mk.injEq] at h ⊢
          simp [← h.1, ← h.2.1, ← h.2.2]
      · simp only [Except.ok.injEq, Prod.mk.injEq] at h ⊢
        simp [← h.1, ← h.2.1, ← h.2.2]

theorem parseLength_append (flags : Flags) (t : Text) (ht : (parseLength flags t).2 ≠ []) :
    parseLength flags (t ++ g) = ((parseLength flags t).1, (parseLength flags t).2 ++ g) := by
  cases t with
  | nil => simp [parseLength] at ht
  | cons c rest =>
    simp only [List.cons_append, parseLength] at ht ⊢
    split_ifs at ht ⊢
    case pos | pos =>
      cases rest with
      | nil => simp at ht
      | cons e rest =>
        simp only [List.cons_append]
        split_ifs <;> rfl
    all_goals rfl

theorem parseDirective_append (h : parseDirective va format = .ok (d, va', rest))
    (hrest : rest ≠ []) : parseDirective va (format ++ g) = .ok (d, va', rest ++ g) := by
  have hne : ∀ {t : Text}, rest <:+ t → t ≠ [] := by
    intro t ht hnil
    rw [hnil] at ht
    exact hrest (List.suffix_nil.mp ht)
  simp only [parseDirective] at h ⊢
  cases hwidth : parseWidth (parseFlags {} format).1 va (parseFlags {} format).2 with
  | error e => simp [hwidth] at h
  | ok r =>
    cases hprec : parsePrecision r.1 r.2.1 r.2.2 with
    | error e => simp [hwidth, hprec] at h
    | ok r' =>
      simp only [hwidth, hprec, Except.ok.injEq, Prod.mk.injEq] at h
      have hlast : rest <:+ r'.2.2 := by
        rw [← h.2.2]
        exact parseLength_suffix r'.1.flags r'.2.2
      have hmid : rest <:+ r.2.2 := hlast.trans (parsePrecision_suffix hprec)
      have hfirst := hmid.trans (parseWidth_suffix hwidth)
      rw [parseFlags_append g {} format (hne hfirst)]
      simp only [parseWidth_append g hwidth (hne hmid), parsePrecision_append g hprec (hne hlast)]
      have hlen : (parseLength r'.1.flags r'.2.2).2 ≠ [] := by rwa [h.2.2]
      simp [parseLength_append g r'.1.flags r'.2.2 hlen, ← h.1, ← h.2.1, ← h.2.2]

end Append

section Formats

variable {σ : Type*} {out : Writer σ} {strings : Nat → Text} {format g : Text}
  {va va' va'' : List Nat} {t u : Text}

/-- Each turn takes at least a character off the format. -/
theorem formatLoop_fuel (n m : Nat) (p : Sink σ) (hn : format.length ≤ n)
    (hm : format.length ≤ m) :
    formatLoop out strings n format va p = formatLoop out strings m format va p := by
  induction n generalizing format va p m with
  | zero =>
    have hnil : format = [] := List.length_eq_zero_iff.mp (by omega)
    rw [hnil]
    cases m <;> rfl
  | succ n ih =>
    cases format with
    | nil => cases m <;> rfl
    | cons c format =>
      simp only [List.length_cons] at hn hm
      cases m with
      | zero => omega
      | succ m =>
        rw [formatLoop, formatLoop]
        by_cases hc : c ≠ chr '%'
        · rw [if_pos hc, if_pos hc]
          exact ih _ _ (by omega) (by omega)
        · rw [if_neg hc, if_neg hc]
          cases hparse : parseDirective va format with
          | error e => rfl
          | ok r =>
            obtain ⟨d, va₁, rest⟩ := r
            cases rest with
            | nil => rfl
            | cons e rest =>
              have hlen := (parseDirective_suffix hparse).length_le
              simp only [List.length_cons] at hlen
              simp only
              cases hconvert : convert out strings d e va₁ p with
              | error e => rfl
              | ok r => exact ih _ _ (by omega) (by omega)

/-- A format put before another prints before it, and takes its arguments first. -/
theorem Prints.append (h : Prints strings format va va' t) (hg : Prints strings g va' va'' u) :
    Prints strings (format ++ g) va va'' (t ++ u) := by
  induction h with
  | done => exact hg
  | char hc _ ih => exact .char hc (ih hg)
  | directive hparse hconvert _ ih =>
    rw [List.append_assoc]
    have happend := parseDirective_append g hparse (List.cons_ne_nil _ _)
    exact .directive happend hconvert (ih hg)

theorem Prints.formatLoop (h : Prints strings format va va' t) (n : Nat) (p : Sink σ)
    (hn : format.length ≤ n) : formatLoop out strings n format va p = .ok (p.putAll out t) := by
  induction h generalizing n p with
  | done => cases n <;> rfl
  | char hc _ ih =>
    cases n with
    | zero => simp at hn
    | succ n =>
      rw [Printf.formatLoop, if_pos hc, ih n _ (by simpa using hn)]
      rfl
  | @directive format d va₁ c rest va₂ va va' t u hparse hconvert _ ih =>
    have hlen := (parseDirective_suffix hparse).length_le
    cases n with
    | zero => simp at hn
    | succ n =>
      simp only [List.length_cons] at hn hlen
      rw [Printf.formatLoop, if_neg (by simp), hparse]
      simp only [convert_eq, hconvert, Except.map]
      rw [ih n _ (by omega), Sink.putAll_append]

theorem prints_of_formatLoop (n : Nat) {p q : Sink σ}
    (h : formatLoop out strings n format va p = .ok q) :
    ∃ va' t, Prints strings format va va' t ∧ q = p.putAll out t := by
  induction n generalizing format va p with
  | zero =>
    cases format with
    | nil => exact ⟨va, [], .done, by simpa [formatLoop] using h.symm⟩
    | cons c format => simp [formatLoop] at h
  | succ n ih =>
    cases format with
    | nil => exact ⟨va, [], .done, by simpa [formatLoop] using h.symm⟩
    | cons c format =>
      rw [formatLoop] at h
      by_cases hc : c ≠ chr '%'
      · rw [if_pos hc] at h
        obtain ⟨va', t, ht, hq⟩ := ih h
        exact ⟨va', c :: t, .char hc ht, hq⟩
      · rw [if_neg hc] at h
        rw [not_not.mp hc]
        cases hparse : parseDirective va format with
        | error e => simp [hparse] at h
        | ok r =>
          obtain ⟨d, va₁, rest⟩ := r
          cases rest with
          | nil => simp [hparse] at h
          | cons e rest =>
            simp only [hparse, convert_eq] at h
            cases hconvert : convertText strings d e va₁ with
            | error e => simp [hconvert, Except.map] at h
            | ok r =>
              simp only [hconvert, Except.map] at h
              obtain ⟨va', u, hu, hq⟩ := ih h
              exact ⟨va', _, .directive hparse hconvert hu, by rw [hq, Sink.putAll_append]⟩

/-- The loop returns exactly on the formats that print something, and puts that out. -/
theorem formatLoop_ok_iff {p q : Sink σ} :
    formatLoop out strings format.length format va p = .ok q ↔
    ∃ va' t, Prints strings format va va' t ∧ q = p.putAll out t := by
  constructor
  · exact prints_of_formatLoop _
  · intro h
    obtain ⟨va', t, ht, hq⟩ := h
    rw [hq]
    exact ht.formatLoop _ _ le_rfl

end Formats

end ApoptOS.Printf
