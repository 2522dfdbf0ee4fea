import Mathlib.Data.List.Basic
import Mathlib.Tactic
import Mathlib.Order.CompletePartialOrder

namespace Framework

/-- Records one behind the other, the one at `o` of length `len o`: those a walk from `o` on meets
before it gets to `stop`. -/
inductive RecordWalk (len : Nat → Nat) (stop : Nat) : Nat → List Nat → Prop
  | done {o : Nat} (h : stop ≤ o) : RecordWalk len stop o []
  | record {o : Nat} {l : List Nat} (h : o < stop) (rest : RecordWalk len stop (o + len o) l) :
      RecordWalk len stop o (o :: l)

/-- The lengths lead from `start` to a record or to the end. -/
inductive LeadsTo (len : Nat → Nat) (stop start : Nat) : Nat → Prop
  | start : LeadsTo len stop start start
  | next {o : Nat} (h : LeadsTo len stop start o) (hlt : o < stop) :
      LeadsTo len stop start (o + len o)

/-- The records fill the range up to `stop`, each at least `least` long. -/
inductive Tiles (len : Nat → Nat) (least stop : Nat) : Nat → List Nat → Prop
  | done : Tiles len least stop stop []
  | record {o : Nat} {l : List Nat} (h : least ≤ len o)
      (rest : Tiles len least stop (o + len o) l) :
      Tiles len least stop o (o :: l)

variable {len : Nat → Nat} {stop start o x least : Nat} {l l' : List Nat}

namespace LeadsTo

theorem trans (h : LeadsTo len stop start o) (h' : LeadsTo len stop o x) :
    LeadsTo len stop start x := by
  induction h' with
  | start => exact h
  | next _ hlt ih => exact ih.next hlt

/-- From a record on: the record itself, or what its length leads to. -/
theorem cases_first (h : LeadsTo len stop start x) :
    x = start ∨ start < stop ∧ LeadsTo len stop (start + len start) x := by
  induction h with
  | start => exact Or.inl rfl
  | next _ hlt ih =>
    rcases ih with rfl | ⟨hstart, hrest⟩
    · exact Or.inr ⟨hlt, .start⟩
    · exact Or.inr ⟨hstart, hrest.next hlt⟩

end LeadsTo

namespace RecordWalk

theorem unique (h : RecordWalk len stop o l) (h' : RecordWalk len stop o l') : l = l' := by
  induction h generalizing l' with
  | done hle =>
    cases h' with
    | done => rfl
    | record hlt _ => omega
  | record hlt _ ih =>
    cases h' with
    | done hle => omega
    | record _ rest' => rw [ih rest']

/-- The walk meets what the lengths lead to. -/
theorem mem_iff (h : RecordWalk len stop o l) : x ∈ l ↔ LeadsTo len stop o x ∧ x < stop := by
  induction h with
  | done hle =>
    simp only [List.not_mem_nil, false_iff, not_and]
    intro hx hlt
    rcases hx.cases_first with rfl | ⟨hstart, -⟩
    · omega
    · omega
  | record hlt _ ih =>
    rw [List.mem_cons, ih]
    constructor
    · rintro (rfl | ⟨hx, hxlt⟩)
      · exact ⟨.start, hlt⟩
      · exact ⟨(LeadsTo.start.next hlt).trans hx, hxlt⟩
    · rintro ⟨hx, hxlt⟩
      rcases hx.cases_first with rfl | ⟨-, hrest⟩
      · exact Or.inl rfl
      · exact Or.inr ⟨hrest, hxlt⟩

/-- A walk ends if and only if no record on it is empty. -/
theorem exists_iff : (∃ l, RecordWalk len stop start l) ↔
    ∀ x, LeadsTo len stop start x → x < stop → len x ≠ 0 := by
  constructor
  · rintro ⟨l, h⟩
    induction h with
    | done hle =>
      intro x hx hlt
      rcases hx.cases_first with rfl | ⟨hstart, -⟩
      · omega
      · omega
    | @record o l hlt rest ih =>
      intro x hx hxlt hzero
      rcases hx.cases_first with rfl | ⟨-, hrest⟩
      · -- an empty record leads back to itself
        rw [hzero, Nat.add_zero] at ih
        exact ih x .start hlt hzero
      · exact ih x hrest hxlt hzero
  · intro h
    generalize hleft : stop - start = left
    induction left using Nat.strong_induction_on generalizing start with
    | _ left ih =>
      by_cases hlt : start < stop
      · have hpos := h start .start hlt
        obtain ⟨l, hl⟩ := ih (stop - (start + len start)) (by omega)
          (fun x hx hxlt => h x ((LeadsTo.start.next hlt).trans hx) hxlt) rfl
        exact ⟨start :: l, .record hlt hl⟩
      · exact ⟨[], .done (by omega)⟩

end RecordWalk

namespace Tiles

theorem nil_iff : Tiles len least stop o [] ↔ o = stop := by
  constructor
  · intro h
    cases h
    rfl
  · intro h
    rw [h]
    exact .done

theorem cons_iff :
    Tiles len least stop o (x :: l) ↔ x = o ∧ least ≤ len o ∧
      Tiles len least stop (o + len o) l := by
  constructor
  · intro h
    cases h with
    | record hlen rest => exact ⟨rfl, hlen, rest⟩
  · intro h
    rw [h.1]
    exact .record h.2.1 h.2.2

instance decidable (len : Nat → Nat) (least stop : Nat) :
    (l : List Nat) → (o : Nat) → Decidable (Tiles len least stop o l)
  | [], _ => decidable_of_iff _ nil_iff.symm
  | _ :: l, o =>
    have := decidable len least stop l (o + len o)
    decidable_of_iff _ cons_iff.symm

theorem le_stop (h : Tiles len least stop o l) : o ≤ stop := by
  induction h with
  | done => exact le_refl _
  | record _ _ ih => omega

/-- Records that fill the range are what the walk meets. -/
theorem walk (h : Tiles len least stop o l) (hleast : 0 < least) : RecordWalk len stop o l := by
  induction h with
  | done => exact .done (le_refl _)
  | record hlen rest ih =>
    have hle := rest.le_stop
    exact .record (by omega) ih

/-- A record lies in the range with all its bytes. -/
theorem inside (h : Tiles len least stop o l) (hx : x ∈ l) :
    least ≤ len x ∧ x + len x ≤ stop := by
  induction h with
  | done => simp at hx
  | record hlen rest ih =>
    rcases List.mem_cons.mp hx with rfl | hx
    · exact ⟨hlen, rest.le_stop⟩
    · exact ih hx

end Tiles

end Framework
