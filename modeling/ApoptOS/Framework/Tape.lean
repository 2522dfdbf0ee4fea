import Mathlib.Logic.Function.Basic
import Mathlib.Data.List.Basic

namespace Framework

variable {κ α : Type*} {tape tape' whole whole' : List α} {part : κ → Option (List α)}
  {c : κ} {p : List α} {q : Option (List α)}

/-- A tape of whole records and, at its end, the part of a record that an agent has written so
far. An agent that writes none has no part. -/
structure Recorded (tape whole : List α) (part : κ → Option (List α)) : Prop where
  writing : ∀ c p, part c = some p → tape = whole ++ p
  quiet : (∀ c, part c = none) → tape = whole

/-- What an agent may do to the tape, with its part before and after. -/
inductive TapeStep (tape whole : List α) :
    Option (List α) → List α → List α → Option (List α) → Prop where
  | same (q : Option (List α)) : TapeStep tape whole q tape whole q
  | start : TapeStep tape whole none tape whole (some [])
  | extend (p s : List α) : TapeStep tape whole (some p) (tape ++ s) whole (some (p ++ s))
  | commit (p : List α) : TapeStep tape whole (some p) tape (whole ++ p) none
  | next (p : List α) : TapeStep tape whole (some p) tape (whole ++ p) (some [])

namespace Recorded

theorem congr {part' : κ → Option (List α)} (h : Recorded tape whole part)
    (hpart : ∀ c, part' c = part c) : Recorded tape whole part' :=
  ⟨fun c p hc => h.writing c p (hpart c ▸ hc),
    fun hnone => h.quiet (fun c => hpart c ▸ hnone c)⟩

/-- Whoever writes, the tape ends with the part. -/
theorem split (h : Recorded tape whole part) :
    ∃ p, tape = whole ++ p ∧ (p ≠ [] → ∃ c, part c = some p) := by
  by_cases hnone : ∀ c, part c = none
  · exact ⟨[], by rw [h.quiet hnone, List.append_nil], by simp⟩
  · push Not at hnone
    obtain ⟨c, hc⟩ := hnone
    obtain ⟨p, hp⟩ := Option.ne_none_iff_exists'.mp hc
    exact ⟨p, h.writing c p hp, fun _ => ⟨c, hp⟩⟩

variable [DecidableEq κ]

/-- One agent may write while all others do not. -/
theorem alone (htape : tape = whole ++ p) (hothers : ∀ d, d ≠ c → part d = none) :
    Recorded tape whole (Function.update part c (some p)) := by
  constructor
  · intro d q hd
    by_cases hdc : d = c
    · rw [hdc, Function.update_self] at hd
      rw [htape, Option.some.inj hd]
    · rw [Function.update_of_ne hdc, hothers d hdc] at hd
      simp at hd
  · intro hnone
    have hc := hnone c
    rw [Function.update_self] at hc
    simp at hc

theorem start (h : Recorded tape whole part) (hnone : ∀ d, part d = none) (c : κ) :
    Recorded tape whole (Function.update part c (some [])) :=
  alone (by rw [h.quiet hnone, List.append_nil]) (fun d _ => hnone d)

theorem extend (h : Recorded tape whole part) (hc : part c = some p)
    (hothers : ∀ d, d ≠ c → part d = none) (s : List α) :
    Recorded (tape ++ s) whole (Function.update part c (some (p ++ s))) :=
  alone (by rw [h.writing c p hc, List.append_assoc]) hothers

/-- A part becomes a whole record. -/
theorem commit (h : Recorded tape whole part) (hc : part c = some p)
    (hothers : ∀ d, d ≠ c → part d = none) :
    Recorded tape (whole ++ p) (Function.update part c none) := by
  constructor
  · intro d q hd
    by_cases hdc : d = c
    · rw [hdc, Function.update_self] at hd
      simp at hd
    · rw [Function.update_of_ne hdc, hothers d hdc] at hd
      simp at hd
  · exact fun _ => h.writing c p hc

/-- The tape is kept as long as an agent writes only while all others do not. -/
theorem step (h : Recorded tape whole part) (hstep : TapeStep tape whole (part c) tape' whole' q)
    (hothers : part c ≠ none ∨ q ≠ none → ∀ d, d ≠ c → part d = none) :
    Recorded tape' whole' (Function.update part c q) := by
  obtain ⟨q₀, hq₀⟩ : ∃ q₀, q₀ = part c := ⟨_, rfl⟩
  rw [← hq₀] at hstep hothers
  cases hstep with
  | same =>
    rw [hq₀, Function.update_eq_self]
    exact h
  | start =>
    have hnone : ∀ d, part d = none := by
      intro d
      by_cases hdc : d = c
      · rw [hdc, ← hq₀]
      · exact hothers (.inr (by simp)) d hdc
    exact h.start hnone c
  | extend p s => exact h.extend hq₀.symm (hothers (.inl (by simp))) s
  | commit p => exact h.commit hq₀.symm (hothers (.inl (by simp)))
  | next p =>
    have hwhole : tape = whole ++ p := h.writing c p hq₀.symm
    exact alone (by rw [hwhole, List.append_nil]) (hothers (.inl (by simp)))

end Recorded

end Framework
