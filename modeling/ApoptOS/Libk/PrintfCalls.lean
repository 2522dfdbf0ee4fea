import ApoptOS.Libk.PrintfArguments

namespace ApoptOS.Printf

open Framework

section Compose

variable {strings : Nat → Text} {format g : Text} {va va' va'' : List Nat} {t u : Text}

/-- A text as a format that prints it. -/
def escape (t : Text) : Text :=
  t.flatMap (fun c => if c = chr '%' then [chr '%', chr '%'] else [c])

theorem prints_escape (strings : Nat → Text) (va : List Nat) (t : Text) :
    Prints strings (escape t) va va t := by
  induction t with
  | nil => exact .done
  | cons c t ih =>
    by_cases hc : c = chr '%'
    · have hescape : escape (c :: t) = chr '%' :: chr '%' :: escape t := by
        simp [escape, hc]
      rw [hescape, hc]
      exact .directive (t := [chr '%']) (d := { flags := {} }) rfl rfl ih
    · have hescape : escape (c :: t) = c :: escape t := by
        simp [escape, hc]
      rw [hescape]
      exact .char hc ih

/-- A message put together from two formats, with any text between them, prints what they print
and the text as it is; the second takes the arguments that the first leaves. -/
theorem snprintf_compose (hformat : Prints strings format va va' t) (w : Text)
    (hg : Prints strings g va' va'' u) {buffer count : Nat} (hbuffer : buffer ≠ 0)
    (hlen : (t ++ (w ++ u)).length < 2 ^ 64)
    (hfit : buffer + min count ((t ++ (w ++ u)).length + 1) ≤ 2 ^ 64) (m : Mem) :
    ∃ m', snprintf_ strings buffer count (format ++ (escape w ++ g)) va m =
        .ok (m', asInt 32 (t ++ (w ++ u)).length) ∧
      Stored m m' buffer count (t ++ (w ++ u)) := by
  have hprints := hformat.append ((prints_escape strings va' w).append hg)
  exact hprints.stores hbuffer hlen hfit

/-- `%u`, the text `%` and `%c`, with 5 and an `a`. -/
theorem snprintf_compose_percent : ∃ m',
    snprintf_ (fun _ => []) 4096 8 ([chr '%', chr 'u'] ++ (escape [chr '%'] ++
        [chr '%', chr 'c'])) [5, 97] (fun _ => 1) =
      .ok (m', asInt 32 ([chr '5'] ++ ([chr '%'] ++ [chr 'a'])).length) ∧
    Stored (fun _ => 1) m' 4096 8 ([chr '5'] ++ ([chr '%'] ++ [chr 'a'])) := by
  have hformat : Prints (fun _ => []) [chr '%', chr 'u'] [5, 97] [97] [chr '5'] :=
    .directive (t := [chr '5']) rfl rfl .done
  have hg : Prints (fun _ => []) [chr '%', chr 'c'] [97] [] [chr 'a'] :=
    .directive (t := [chr 'a']) rfl rfl .done
  exact snprintf_compose hformat [chr '%'] hg (by decide) (by decide) (by decide) _

end Compose

section Star

variable {σ : Type*} {out : Writer σ} {strings : Nat → Text} {f g rest fs : Text}
  {va va' : List Nat} {p : Sink σ}

/-- The loop sees of a conversion only what it is parsed to. -/
theorem formatLoop_directive_congr (h : parseDirective va f = parseDirective va' g) {n m : Nat}
    (hn : f.length ≤ n) (hm : g.length ≤ m) :
    formatLoop out strings (n + 1) (chr '%' :: f) va p =
      formatLoop out strings (m + 1) (chr '%' :: g) va' p := by
  rw [formatLoop, formatLoop, if_neg (by simp), if_neg (by simp), h]
  cases hparse : parseDirective va' g with
  | error e => rfl
  | ok r =>
    obtain ⟨d, va₁, t⟩ := r
    cases t with
    | nil => rfl
    | cons c t =>
      have hf := (parseDirective_suffix (h.trans hparse)).length_le
      have hg := (parseDirective_suffix hparse).length_le
      simp only [List.length_cons] at hf hg
      simp only
      cases convert out strings d c va₁ p with
      | error e => rfl
      | ok r => exact formatLoop_fuel _ _ _ (by omega) (by omega)

/-- Wherever the loop has come to, a width passed for a star prints as the same width written
out, behind a minus sign if it is negative. -/
theorem formatLoop_star (hfs : ∀ c ∈ fs, c ∈ flagChars) {a : Nat} (ha : asInt 32 a ≠ 0)
    (hrest : ∀ c ∈ rest.head?, isDigit c = false) {n m : Nat}
    (hn : (chr '%' :: (fs ++ chr '*' :: rest)).length ≤ n)
    (hm : (chr '%' :: (fs ++ (decimalText (asInt 32 a) ++ rest))).length ≤ m) :
    formatLoop out strings n (chr '%' :: (fs ++ chr '*' :: rest)) (a :: va) p =
      formatLoop out strings m (chr '%' :: (fs ++ (decimalText (asInt 32 a) ++ rest))) va p := by
  have hparse : parseDirective (a :: va) (fs ++ chr '*' :: rest) =
      parseDirective va (fs ++ (decimalText (asInt 32 a) ++ rest)) :=
        parseDirective_star hfs ha hrest
  rw [formatLoop_fuel n _ p hn le_rfl, formatLoop_fuel m _ p hm le_rfl]
  exact formatLoop_directive_congr hparse le_rfl le_rfl

/-- `%-*d` with 6 and 1 is `%-6d` with 1. -/
theorem formatLoop_star_six :
    formatLoop outNull (fun _ => []) 4 [chr '%', chr '-', chr '*', chr 'd'] [6, 1]
        ⟨0, (), Nat.two_pow_pos 64⟩ =
      formatLoop outNull (fun _ => []) 4 (chr '%' :: ([chr '-'] ++ (decimalText (asInt 32 6) ++
        [chr 'd']))) [1] ⟨0, (), Nat.two_pow_pos 64⟩ :=
  have hfs : ∀ c ∈ [chr '-'], c ∈ flagChars := by decide
  have hrest : ∀ c ∈ [chr 'd'].head?, isDigit c = false := by simp; decide
  formatLoop_star hfs (by decide) hrest le_rfl (by decide)

end Star

section Integers

variable {σ : Type*} {out : Writer σ} {d : Directive} {c : BitVec 8} {a : Nat}

theorem standardText_width_le {flags : Flags} {base prec width : Nat} {sign digits : Text} :
    width ≤ (standardText flags base prec width sign digits).length := by
  unfold standardText
  simp only
  split_ifs <;> simp [spaces, zeros] <;> omega

/-- A conversion without the mark of the base, of a number with room in the buffer, prints a text,
as wide as its field at least, that reads back as the number. -/
theorem convertInteger_reads_back (h : IntegerFits d c a) (hhash : d.flags.hash = false)
    (p : Sink σ) : ∃ t, convertInteger out d c a p = p.putAll out t ∧ d.width ≤ t.length ∧
      readInteger (specifierBase c) t = integerValue d c a := by
  have hnone : (numberFlags d c (magnitude d c a)).hash = false := by simp [numberFlags, hhash]
  refine ⟨standardInteger d c a, ?_, standardText_width_le, readInteger_standardInteger hnone⟩
  rw [convertInteger_eq, integerText_standard h.2]

/-- `%08d` with -42. -/
theorem convertInteger_reads_back_minus :
    ∃ t, convertInteger outNull { flags := { zeropad := true }, width := 8 } (chr 'd')
        (2 ^ 32 - 42) ⟨0, (), Nat.two_pow_pos 64⟩ =
          (⟨0, (), Nat.two_pow_pos 64⟩ : Sink Unit).putAll outNull t ∧
      8 ≤ t.length ∧ readInteger (specifierBase (chr 'd')) t =
        integerValue { flags := { zeropad := true }, width := 8 } (chr 'd') (2 ^ 32 - 42) :=
  convertInteger_reads_back
    ⟨by decide, numberFits_plain rfl (by decide) (by decide) (by decide) (by decide)⟩ rfl _

end Integers

end ApoptOS.Printf
