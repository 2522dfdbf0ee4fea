import ApoptOS.Libk.PrintfBuffer

namespace ApoptOS.Printf

open Framework

/-- A part of the format takes `k` arguments and leaves `rest`, whatever the arguments are. -/
def Takes {α β : Type*} (f : List Nat → Except Halt (α × List Nat × β)) (k : Nat)
    (rest : β) : Prop :=
  ∀ va, (k ≤ va.length → ∃ x, f va = .ok (x, va.drop k, rest)) ∧
    (va.length < k → f va = .error .missingArgument)

section Takes

variable {α β : Type*} {format : Text}

theorem takes_none {f : List Nat → Except Halt (α × List Nat × β)} {rest : β}
    (h : ∀ va, ∃ x, f va = .ok (x, va, rest)) : Takes f 0 rest :=
  fun va => ⟨fun _ => h va, fun hlt => absurd hlt (Nat.not_lt_zero _)⟩

theorem takes_one {f : List Nat → Except Halt (α × List Nat × β)} {rest : β}
    (hnil : f [] = .error .missingArgument) (h : ∀ a va, ∃ x, f (a :: va) = .ok (x, va, rest)) :
    Takes f 1 rest := by
  intro va
  cases va with
  | nil => exact ⟨fun hle => absurd hle (by simp), fun _ => hnil⟩
  | cons a va => exact ⟨fun _ => h a va, fun hlt => absurd hlt (by simp)⟩

theorem parseWidth_takes (flags : Flags) (format : Text) :
    ∃ k rest, Takes (fun va => parseWidth flags va format) k rest := by
  cases format with
  | nil => exact ⟨0, [], takes_none (fun va => ⟨_, rfl⟩)⟩
  | cons c format =>
    by_cases hdigit : isDigit c = true
    · apply Exists.intro 0
      exact ⟨_, takes_none (fun va => ⟨_, by rw [parseWidth, if_pos hdigit]⟩)⟩
    by_cases hstar : c = chr '*'
    · apply Exists.intro 1
      refine ⟨format, takes_one ?_ (fun a va => ?_)⟩
      all_goals rw [parseWidth, if_neg hdigit, if_pos hstar, vaArg]
      exact ⟨_, rfl⟩
    · apply Exists.intro 0
      exact ⟨_, takes_none (fun va => ⟨_, by rw [parseWidth, if_neg hdigit, if_neg hstar]⟩)⟩

theorem parsePrecision_takes (format : Text) :
    ∃ k rest, ∀ d, Takes (fun va => parsePrecision d va format) k rest := by
  cases format with
  | nil => exact ⟨0, [], fun d => takes_none (fun va => ⟨_, rfl⟩)⟩
  | cons c format =>
    by_cases hdot : c = chr '.'
    case neg =>
      apply Exists.intro 0
      exact ⟨_, fun d => takes_none (fun va => ⟨_, by
        simp only [parsePrecision, if_neg hdot]; rfl⟩)⟩
    cases format with
    | nil =>
      apply Exists.intro 0
      exact ⟨_, fun d => takes_none (fun va => ⟨_, by
        simp only [parsePrecision, if_pos hdot]; rfl⟩)⟩
    | cons e format =>
      by_cases hdigit : isDigit e = true
      · apply Exists.intro 0
        exact ⟨_, fun d => takes_none (fun va => ⟨_, by
          simp only [parsePrecision, if_pos hdot, if_pos hdigit]; rfl⟩)⟩
      by_cases hstar : e = chr '*'
      · apply Exists.intro 1
        refine ⟨format, fun d => takes_one ?_ (fun a va => ?_)⟩
        all_goals simp only [parsePrecision, if_pos hdot, if_neg hdigit, if_pos hstar, vaArg]
        exact ⟨_, rfl⟩
      · apply Exists.intro 0
        exact ⟨_, fun d => takes_none (fun va => ⟨_, by
          simp only [parsePrecision, if_pos hdot, if_neg hdigit, if_neg hstar]; rfl⟩)⟩

theorem parseLength_rest (flags : Flags) (t : Text) :
    (parseLength flags t).2 = (parseLength {} t).2 := by
  cases t with
  | nil => rfl
  | cons c rest =>
    cases rest with
    | nil => simp only [parseLength]; split_ifs <;> rfl
    | cons e rest => simp only [parseLength]; split_ifs <;> rfl

theorem parseDirective_takes (format : Text) :
    ∃ k rest, Takes (fun va => parseDirective va format) k rest := by
  obtain ⟨k, mid, hwidth⟩ := parseWidth_takes (parseFlags {} format).1 (parseFlags {} format).2
  obtain ⟨j, rest, hprec⟩ := parsePrecision_takes mid
  refine ⟨k + j, (parseLength {} rest).2, fun va => ⟨fun hle => ?_, fun hlt => ?_⟩⟩
  · obtain ⟨d, hd⟩ := (hwidth va).1 (by omega)
    obtain ⟨d', hd'⟩ := (hprec d (va.drop k)).1 (by rw [List.length_drop]; omega)
    simp only at hd hd'
    rw [List.drop_drop] at hd'
    simp only [parseDirective, hd, hd', parseLength_rest d'.flags]
    exact ⟨_, rfl⟩
  · by_cases hk : k ≤ va.length
    · obtain ⟨d, hd⟩ := (hwidth va).1 hk
      have hmiss := (hprec d (va.drop k)).2 (by rw [List.length_drop]; omega)
      simp only at hd hmiss
      simp only [parseDirective, hd, hmiss]
    · have hmiss := (hwidth va).2 (by omega)
      simp only at hmiss
      simp only [parseDirective, hmiss]

/-- Whether a conversion takes an argument is up to its letter. -/
theorem convertText_takes (c : BitVec 8) : ∃ k ≤ 1, ∀ strings d va,
    (k ≤ va.length → ∃ t, convertText strings d c va = .ok (va.drop k, t)) ∧
      (va.length < k → convertText strings d c va = .error .missingArgument) := by
  by_cases hsome : ∀ strings d, ∃ text, argumentText strings d c = some text
  · refine ⟨1, le_rfl, fun strings d va => ?_⟩
    obtain ⟨text, htext⟩ := hsome strings d
    cases va with
    | nil => simp [convertText, htext, vaArg]
    | cons a va => simp [convertText, htext, vaArg]
  · refine ⟨0, Nat.zero_le _, fun strings d va => ?_⟩
    have hnone : argumentText strings d c = none := by
      unfold argumentText at hsome ⊢
      split_ifs at hsome ⊢ <;> simp_all
    simp [convertText, hnone]

theorem convert_takes (c : BitVec 8) : ∃ k ≤ 1, ∀ {σ : Type}
    (out : Writer σ) strings d va p,
    (k ≤ va.length → ∃ q, convert out strings d c va p = .ok (va.drop k, q)) ∧
      (va.length < k → convert out strings d c va p = .error .missingArgument) := by
  obtain ⟨k, hk, htext⟩ := convertText_takes c
  refine ⟨k, hk, fun out strings d va p => ⟨fun hle => ?_, fun hlt => ?_⟩⟩
  · obtain ⟨t, ht⟩ := (htext strings d va).1 hle
    rw [convert_eq, ht]
    exact ⟨_, rfl⟩
  · rw [convert_eq, (htext strings d va).2 hlt]
    rfl

end Takes

/-- The loop comes to the end of the format, or else to a conversion that this end cuts off. -/
def ComesTo {α : Type*} (whole : Bool) (r : Except Halt α) : Prop :=
  if whole then ∃ q, r = .ok q else r = .error .formatEnd

/-- The loop takes `k` arguments, whatever they are: it misses one in a call that is passed fewer,
and in the others comes to the end of the format as `whole` says. -/
def Arity (format : Text) (k : Nat) (whole : Bool) : Prop :=
  ∀ {σ : Type} (out : Writer σ) strings n va p, format.length ≤ n →
    (va.length < k → formatLoop out strings n format va p = .error .missingArgument) ∧
    (k ≤ va.length → ComesTo whole (formatLoop out strings n format va p))

section Arity

variable {format rest : Text} {c : BitVec 8} {j k : Nat} {whole : Bool}

theorem arity_nil : Arity [] 0 true := by
  intro σ out strings n va p _
  refine ⟨fun hlt => absurd hlt (Nat.not_lt_zero _), fun _ => ?_⟩
  cases n <;> exact ⟨p, rfl⟩

theorem arity_char (hc : c ≠ chr '%') (h : Arity format k whole) :
    Arity (c :: format) k whole := by
  intro σ out strings n va p hn
  cases n with
  | zero => simp at hn
  | succ n =>
    rw [formatLoop, if_pos hc]
    exact h out strings n va _ (by simpa using hn)

theorem arity_cut (h : Takes (fun va => parseDirective va format) j []) :
    Arity (chr '%' :: format) j false := by
  intro σ out strings n va p hn
  cases n with
  | zero => simp at hn
  | succ n =>
    rw [formatLoop, if_neg (not_not.mpr rfl)]
    constructor
    · intro hlt
      have hmiss : parseDirective va format = .error .missingArgument := (h va).2 hlt
      rw [hmiss]
    · intro hle
      obtain ⟨d, hd⟩ := (h va).1 hle
      have hparse : parseDirective va format = .ok (d, va.drop j, []) := hd
      rw [hparse, ComesTo, if_neg Bool.false_ne_true]

theorem arity_directive (h : Takes (fun va => parseDirective va format) j (c :: rest))
    (hlen : rest.length ≤ format.length) {i : Nat}
    (hconvert : ∀ {σ : Type} (out : Writer σ) strings d va p,
      (i ≤ va.length → ∃ q, convert out strings d c va p = .ok (va.drop i, q)) ∧
        (va.length < i → convert out strings d c va p = .error .missingArgument))
    (hrest : Arity rest k whole) : Arity (chr '%' :: format) (j + (i + k)) whole := by
  intro σ out strings n va p hn
  cases n with
  | zero => simp at hn
  | succ n =>
    rw [formatLoop, if_neg (not_not.mpr rfl)]
    by_cases hj : j ≤ va.length
    case neg =>
      have hmiss : parseDirective va format = .error .missingArgument := (h va).2 (by omega)
      exact ⟨fun _ => by rw [hmiss], fun hle => absurd hle (by omega)⟩
    obtain ⟨d, hd⟩ := (h va).1 hj
    have hparse : parseDirective va format = .ok (d, va.drop j, c :: rest) := hd
    rw [hparse]
    have hleft : (va.drop j).length = va.length - j := List.length_drop
    by_cases hi : i ≤ (va.drop j).length
    case neg =>
      have hmiss := (hconvert out strings d (va.drop j) p).2 (by omega)
      exact ⟨fun _ => by simp only [hmiss], fun hle => absurd hle (by omega)⟩
    obtain ⟨q, hq⟩ := (hconvert out strings d (va.drop j) p).1 hi
    simp only [hq]
    -- what is left of the arguments is for the rest of the format
    have hlast : ((va.drop j).drop i).length = va.length - j - i := by
      rw [List.length_drop, hleft]
    have hend := hrest out strings n ((va.drop j).drop i) q (by
      simp only [List.length_cons] at hn
      omega)
    rw [hlast] at hend
    exact ⟨fun hlt => hend.1 (by omega), fun hle => hend.2 (by omega)⟩

/-- Every format takes a number of arguments, and may have a conversion that is cut off. -/
theorem exists_arity (format : Text) : ∃ k whole, Arity format k whole := by
  obtain ⟨n, hn⟩ : ∃ n, format.length ≤ n := ⟨_, le_rfl⟩
  induction n generalizing format with
  | zero =>
    have hnil : format = [] := List.length_eq_zero_iff.mp (by omega)
    rw [hnil]
    exact ⟨0, true, arity_nil⟩
  | succ n ih =>
    cases format with
    | nil => exact ⟨0, true, arity_nil⟩
    | cons c format =>
      simp only [List.length_cons] at hn
      by_cases hc : c = chr '%'
      case neg =>
        obtain ⟨k, whole, hk⟩ := ih format (by omega)
        exact ⟨k, whole, arity_char hc hk⟩
      subst hc
      obtain ⟨j, rest, hparse⟩ := parseDirective_takes format
      cases rest with
      | nil => exact ⟨j, false, arity_cut hparse⟩
      | cons e rest =>
        have hlen : rest.length ≤ format.length := by
          obtain ⟨d, hd⟩ := (hparse (List.replicate j 0)).1 (by simp)
          have hshort := (parseDirective_suffix hd).length_le
          simp only [List.length_cons] at hshort
          omega
        obtain ⟨i, -, hconvert⟩ := convert_takes e
        obtain ⟨k, whole, hk⟩ := ih rest (by omega)
        exact ⟨_, whole, arity_directive hparse hlen hconvert hk⟩

end Arity

/-- Whether a call returns is up to the format and the number of its arguments alone. One that is
passed fewer than the format takes misses an argument. All others return, or, if the format has a
conversion cut off by its end, step over that end. The values, the strings and the destination do
not matter. -/
theorem vsnprintf_returns_by_count (format : Text) : ∃ k,
    (∀ {σ : Type} (out : Writer σ) strings maxlen va s, va.length < k →
      vsnprintf out strings maxlen format va s = .error .missingArgument) ∧
    ((∀ {σ : Type} (out : Writer σ) strings maxlen va s, k ≤ va.length →
      ∃ r, vsnprintf out strings maxlen format va s = .ok r) ∨
    ∀ {σ : Type} (out : Writer σ) strings maxlen va s, k ≤ va.length →
      vsnprintf out strings maxlen format va s = .error .formatEnd) := by
  obtain ⟨k, whole, hk⟩ := exists_arity format
  refine ⟨k, fun out strings maxlen va s hlt => ?_, ?_⟩
  · have hmiss := (hk out strings format.length va ⟨0, s, Nat.two_pow_pos 64⟩ le_rfl).1 hlt
    rw [vsnprintf, hmiss]
  cases whole with
  | true =>
    refine .inl (fun out strings maxlen va s hle => ?_)
    obtain ⟨q, hq⟩ :=
      (hk out strings format.length va ⟨0, s, Nat.two_pow_pos 64⟩ le_rfl).2 hle
    rw [vsnprintf, hq]
    exact ⟨_, rfl⟩
  | false =>
    refine .inr (fun out strings maxlen va s hle => ?_)
    have hcut : formatLoop out strings format.length format va ⟨0, s, Nat.two_pow_pos 64⟩ =
        .error .formatEnd := (hk out strings format.length va _ le_rfl).2 hle
    rw [vsnprintf, hcut]

end ApoptOS.Printf
