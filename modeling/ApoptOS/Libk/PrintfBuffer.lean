import ApoptOS.Libk.PrintfRead

namespace ApoptOS.Printf

open Framework

section Destinations

variable {σ τ : Type*} {out : Writer σ} {out' : Writer τ} {strings : Nat → Text}
  {format : Text} {va va' : List Nat} {t : Text} {maxlen : Nat}

theorem Prints.vsnprintf (out : Writer σ) (h : Prints strings format va va' t)
    (ht : t.length < 2 ^ 64) (s : σ) :
    vsnprintf out strings maxlen format va s =
      .ok (out 0 (if t.length < maxlen then t.length else sub64 maxlen 1)
        ((⟨0, s, Nat.two_pow_pos 64⟩ : Sink σ).putAll out t).state, asInt 32 t.length) := by
  have hidx : ((⟨0, s, Nat.two_pow_pos 64⟩ : Sink σ).putAll out t).idx = t.length := by
    rw [Sink.putAll_idx]
    exact (add64_of_lt (a := 0) (b := t.length) (by omega)).trans (Nat.zero_add _)
  rw [Printf.vsnprintf, h.formatLoop _ _ le_rfl]
  simp only [hidx]

/-- Two runs of the loop that print to different places stay in step. -/
theorem formatLoop_idx (n : Nat) {p : Sink σ} {q : Sink τ} (h : p.idx = q.idx) :
    (formatLoop out strings n format va p).map Sink.idx =
      (formatLoop out' strings n format va q).map Sink.idx := by
  induction n generalizing format va p q with
  | zero =>
    cases format with
    | nil => simp [formatLoop, Except.map, h]
    | cons c format => rfl
  | succ n ih =>
    cases format with
    | nil => simp [formatLoop, Except.map, h]
    | cons c format =>
      rw [formatLoop, formatLoop]
      by_cases hc : c ≠ chr '%'
      · rw [if_pos hc, if_pos hc]
        apply ih
        simp [Sink.put, h]
      · rw [if_neg hc, if_neg hc]
        cases hparse : parseDirective va format with
        | error e => rfl
        | ok r =>
          obtain ⟨d, va₁, rest⟩ := r
          cases rest with
          | nil => rfl
          | cons e rest =>
            simp only [convert_eq]
            cases hconvert : convertText strings d e va₁ with
            | error e => rfl
            | ok r =>
              simp only [Except.map]
              apply ih
              rw [Sink.putAll_idx, Sink.putAll_idx, h]

/-- What a call returns, and whether and why it goes astray, does not depend on where its text
goes: on the output function, the buffer and its size, or what was there before. -/
theorem vsnprintf_result_independent (s : σ) (s' : τ) (maxlen maxlen' : Nat) :
    (vsnprintf out strings maxlen format va s).map Prod.snd =
      (vsnprintf out' strings maxlen' format va s').map Prod.snd := by
  have h : (formatLoop out strings format.length format va ⟨0, s, Nat.two_pow_pos 64⟩).map
      Sink.idx =
      (formatLoop out' strings format.length format va ⟨0, s', Nat.two_pow_pos 64⟩).map
        Sink.idx :=
    formatLoop_idx _ rfl
  rw [vsnprintf, vsnprintf]
  revert h
  cases formatLoop out strings format.length format va ⟨0, s, Nat.two_pow_pos 64⟩ <;>
    cases formatLoop out' strings format.length format va ⟨0, s', Nat.two_pow_pos 64⟩ <;>
      simp [Except.map]
  intro h
  rw [h]

end Destinations

/-- A buffer of `count` bytes holds as much of a text as it has room for, and a terminator. -/
structure Stored (m m' : Mem) (buffer count : Nat) (t : Text) : Prop where
  text : ∀ i c, t[i]? = some c → i + 1 < count → m' (buffer + i) = c
  terminator : 0 < count → m' (buffer + min t.length (count - 1)) = 0
  outside : ∀ x, x < buffer ∨ buffer + min count (t.length + 1) ≤ x → m' x = m x

section Buffer

variable {strings : Nat → Text} {format : Text} {va va' : List Nat} {t : Text}
  {buffer count : Nat} {m : Mem}

theorem stored_putAll (m : Mem) (ht : t.length < 2 ^ 64)
    (hfit : buffer + min count (t.length + 1) ≤ 2 ^ 64) :
    Stored m (outBuffer buffer count 0 (if t.length < count then t.length else sub64 count 1)
      ((⟨0, m, Nat.two_pow_pos 64⟩ : Sink Mem).putAll (outBuffer buffer count) t).state)
      buffer count t := by
  obtain ⟨p, hp⟩ : ∃ p : Sink Mem, p = ⟨0, m, Nat.two_pow_pos 64⟩ := ⟨_, rfl⟩
  rw [← hp]
  have hidx : p.idx = 0 := by rw [hp]
  have hstate : p.state = m := by rw [hp]
  have hin := fun {i : Nat} {c : BitVec 8} (hi : t[i]? = some c) (hlt : p.idx + i < count) =>
    boundedWriter_inside buffer count (p := p) (by omega) (by omega) hi hlt
  have hout :=
    fun {x : Nat} (hx : x < buffer + p.idx ∨ buffer + min count (p.idx + t.length) ≤ x) =>
    boundedWriter_outside buffer count (p := p) (t := t) (by omega) (by omega) hx
  rw [hidx, hstate] at hout
  rw [hidx] at hin
  simp only [Nat.zero_add, Nat.add_zero] at hin hout
  have hend : ∀ state : Mem, 0 < count →
      outBuffer buffer count 0 (if t.length < count then t.length else sub64 count 1) state =
        state.set (buffer + min t.length (count - 1)) 0 := by
    intro state hpos
    unfold outBuffer boundedWriter
    by_cases hlen : t.length < count
    · have haddr : add64 buffer t.length = buffer + t.length := add64_of_lt (by omega)
      rw [if_pos hlen, if_pos hlen, haddr, Nat.min_eq_left (by omega)]
    · have hlast : sub64 count 1 = count - 1 := sub64_of_le (by omega) hpos
      have haddr : add64 buffer (count - 1) = buffer + (count - 1) := add64_of_lt (by omega)
      rw [if_neg hlen, hlast, if_pos (by omega), haddr, Nat.min_eq_right (by omega)]
  refine ⟨?_, ?_, ?_⟩
  · intro i c hi hroom
    have hlt : i < t.length := (List.getElem?_eq_some_iff.mp hi).1
    rw [hend _ (by omega), Mem.set_other _ _ (by omega)]
    exact hin hi (by omega)
  · intro hpos
    rw [hend _ hpos, Mem.set_same]
  · intro x hx
    by_cases hpos : 0 < count
    · rw [hend _ hpos, Mem.set_other _ _ (by omega)]
      exact hout (by omega)
    · have hnone : count = 0 := by omega
      have hskip : ∀ idx state, outBuffer buffer count 0 idx state = state := by
        intro idx state
        simp [outBuffer, boundedWriter, hnone]
      rw [hskip]
      exact hout (by omega)

/-- What all functions with a buffer come down to. -/
theorem Prints.stores (h : Prints strings format va va' t) (hbuffer : buffer ≠ 0)
    (ht : t.length < 2 ^ 64) (hfit : buffer + min count (t.length + 1) ≤ 2 ^ 64) :
    ∃ m', vsnprintf_ strings buffer count format va m = .ok (m', asInt 32 t.length) ∧
      Stored m m' buffer count t := by
  have hcall : vsnprintf_ strings buffer count format va m = _ :=
    h.vsnprintf (if buffer = 0 then outNull else outBuffer buffer count) ht m
  rw [if_neg hbuffer] at hcall
  exact ⟨_, hcall, stored_putAll m ht hfit⟩

/-- `snprintf_` and `vsnprintf_` store what their format prints, cut to the size of the buffer and
always terminated, and nothing outside; they return how long the whole text is. -/
theorem snprintf_stores (h : Prints strings format va va' t) (hbuffer : buffer ≠ 0)
    (ht : t.length < 2 ^ 64) (hfit : buffer + min count (t.length + 1) ≤ 2 ^ 64) :
    ∃ m', snprintf_ strings buffer count format va m = .ok (m', asInt 32 t.length) ∧
      vsnprintf_ strings buffer count format va m = .ok (m', asInt 32 t.length) ∧
      Stored m m' buffer count t := by
  obtain ⟨m', hcall, hstored⟩ := h.stores (m := m) hbuffer ht hfit
  exact ⟨m', hcall, hcall, hstored⟩

/-- The format `n=%u` with 7, into three bytes. -/
theorem snprintf_stores_number : ∃ m',
    snprintf_ (fun _ => []) 4096 3 [chr 'n', chr '=', chr '%', chr 'u'] [7] (fun _ => 1) =
        .ok (m', asInt 32 3) ∧
      vsnprintf_ (fun _ => []) 4096 3 [chr 'n', chr '=', chr '%', chr 'u'] [7] (fun _ => 1) =
        .ok (m', asInt 32 3) ∧
      Stored (fun _ => 1) m' 4096 3 [chr 'n', chr '=', chr '7'] := by
  have h : Prints (fun _ => []) [chr 'n', chr '=', chr '%', chr 'u'] [7] []
      [chr 'n', chr '=', chr '7'] :=
    .char (by decide) (.char (by decide) (.directive (t := [chr '7']) rfl rfl .done))
  exact snprintf_stores h (by decide) (by decide) (by decide)

/-- `sprintf_` stores all of its text. -/
theorem sprintf_stores (h : Prints strings format va va' t) (hbuffer : buffer ≠ 0)
    (hfit : buffer + (t.length + 1) ≤ 2 ^ 64) :
    ∃ m', sprintf_ strings buffer format va m = .ok (m', asInt 32 t.length) ∧
      (∀ i c, t[i]? = some c → m' (buffer + i) = c) ∧ m' (buffer + t.length) = 0 ∧
      ∀ x, x < buffer ∨ buffer + (t.length + 1) ≤ x → m' x = m x := by
  have hfit' : buffer + min (2 ^ 64 - 1) (t.length + 1) ≤ 2 ^ 64 := by omega
  obtain ⟨m', hcall, hstored⟩ := h.stores (m := m) hbuffer (by omega) hfit'
  refine ⟨m', hcall, ?_, ?_, ?_⟩
  · intro i c hi
    have hlt : i < t.length := (List.getElem?_eq_some_iff.mp hi).1
    exact hstored.text i c hi (by omega)
  · have hend := hstored.terminator (by decide)
    rwa [Nat.min_eq_left (by omega)] at hend
  · intro x hx
    exact hstored.outside x (by omega)

theorem putAll_outFct {σ : Type*} (fct : BitVec 8 → σ → σ) (t : Text) (p : Sink σ) :
    (p.putAll (outFct fct) t).state = (t.filter (· ≠ 0)).foldl (fun s c => fct c s) p.state := by
  induction t generalizing p with
  | nil => rfl
  | cons c t ih =>
    rw [Sink.putAll_cons, ih]
    by_cases hc : c ≠ 0
    · rw [List.filter_cons_of_pos (by simpa using hc), List.foldl_cons]
      simp only [Sink.put, outFct, if_pos hc]
    · rw [List.filter_cons_of_neg (by simpa using hc)]
      simp only [Sink.put, outFct, if_neg hc]

/-- `fctprintf` hands the characters over one by one, zeros excepted. -/
theorem fctprintf_hands_over {σ : Type*} (fct : BitVec 8 → σ → σ) (s : σ)
    (h : Prints strings format va va' t) (ht : t.length < 2 ^ 64) :
    fctprintf strings fct format va s =
      .ok ((t.filter (· ≠ 0)).foldl (fun s c => fct c s) s, asInt 32 t.length) := by
  rw [fctprintf, h.vsnprintf _ ht, putAll_outFct]
  rfl

/-- The format `%c!` with a zero and with an `a`: the zero counts but is not handed over. -/
theorem fctprintf_hands_over_zero : fctprintf (fun _ => []) (fun c s => s ++ [c])
    [chr '%', chr 'c', chr '%', chr 'c', chr '!'] [0, 97] [] =
      .ok (([0, chr 'a', chr '!'].filter (· ≠ 0)).foldl (fun s c => s ++ [c]) [],
        asInt 32 3) := by
  have h : Prints (fun _ => []) [chr '%', chr 'c', chr '%', chr 'c', chr '!'] [0, 97] []
      [0, chr 'a', chr '!'] :=
    .directive (t := [0]) rfl rfl (.directive (t := [chr 'a']) rfl rfl (.char (by decide) .done))
  exact fctprintf_hands_over _ _ h (by decide)

end Buffer

end ApoptOS.Printf
