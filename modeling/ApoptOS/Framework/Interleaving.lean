import Mathlib.Logic.Function.Basic
import Mathlib.Logic.Relation

namespace Framework

/-- Agents with a local state each, over one shared state. -/
structure Sys (κ σ τ : Type) where
  shared : σ
  locals : κ → τ

namespace Sys

variable {κ σ τ : Type} [DecidableEq κ]

/-- Agent `c` leaves the shared state `x` and the local state `y` behind. -/
def move (s : Sys κ σ τ) (c : κ) (x : σ) (y : τ) : Sys κ σ τ :=
  ⟨x, Function.update s.locals c y⟩

@[simp] theorem move_shared (s : Sys κ σ τ) (c : κ) (x : σ) (y : τ) :
    (s.move c x y).shared = x :=
  rfl

@[simp] theorem move_self (s : Sys κ σ τ) (c : κ) (x : σ) (y : τ) :
    (s.move c x y).locals c = y := by simp [move]

theorem move_other (s : Sys κ σ τ) {c d : κ} (x : σ) (y : τ) (h : d ≠ c) :
    (s.move c x y).locals d = s.locals d := by simp [move, h]

/-- One agent makes a move of its own; `act c` relates the shared state and its
local state before and after. -/
def Step (act : κ → σ × τ → σ × τ → Prop) (s s' : Sys κ σ τ) : Prop :=
  ∃ c x y, act c (s.shared, s.locals c) (x, y) ∧ s' = s.move c x y

/-- Any number of moves, in any order. -/
def Run (act : κ → σ × τ → σ × τ → Prop) : Sys κ σ τ → Sys κ σ τ → Prop :=
  Relation.ReflTransGen (Step act)

variable {act : κ → σ × τ → σ × τ → Prop}

theorem Run.induct {Inv : Sys κ σ τ → Prop}
    (hstep : ∀ s c x y, Inv s → act c (s.shared, s.locals c) (x, y) → Inv (s.move c x y))
    {s s' : Sys κ σ τ} (hrun : Run act s s') (h : Inv s) : Inv s' := by
  induction hrun with
  | refl => exact h
  | tail _ hlast ih =>
    obtain ⟨c, x, y, hact, rfl⟩ := hlast
    exact hstep _ c x y ih hact

/-- Every agent meets its own condition, any two a common one. -/
def Holds (P : κ → σ → τ → Prop) (R : τ → τ → Prop) (s : Sys κ σ τ) : Prop :=
  (∀ c, P c s.shared (s.locals c)) ∧ ∀ c d, c ≠ d → R (s.locals c) (s.locals d)

/-- A move keeps the mover's condition, and does not interfere with those of
the others. -/
structure Stable (act : κ → σ × τ → σ × τ → Prop) (P : κ → σ → τ → Prop)
    (R : τ → τ → Prop) :
    Prop where
  symm : ∀ y z, R y z → R z y
  own : ∀ c x y x' y', act c (x, y) (x', y') → P c x y → P c x' y'
  others : ∀ c d x y z x' y', c ≠ d → act c (x, y) (x', y') → P c x y → P d x z →
    R y z →
    P d x' z ∧ R y' z

theorem Stable.move {P : κ → σ → τ → Prop} {R : τ → τ → Prop} (h : Stable act P R)
    {s : Sys κ σ τ} {c : κ} {x : σ} {y : τ} (hs : s.Holds P R)
    (hact : act c (s.shared, s.locals c) (x, y)) : (s.move c x y).Holds P R := by
  obtain ⟨hP, hR⟩ := hs
  have hother : ∀ d, d ≠ c → P d x (s.locals d) ∧ R y (s.locals d) :=
    fun d hd => h.others c d _ _ _ _ _ hd.symm hact (hP c) (hP d) (hR c d hd.symm)
  refine ⟨fun d => ?_, fun d e hde => ?_⟩
  · by_cases hd : d = c
    · subst hd
      rw [move_self]
      exact h.own d _ _ _ _ hact (hP d)
    · rw [move_other s x y hd]
      exact (hother d hd).1
  · by_cases hd : d = c
    · subst hd
      rw [move_self, move_other s x y hde.symm]
      exact (hother e hde.symm).2
    · rw [move_other s x y hd]
      by_cases he : e = c
      · subst he
        rw [move_self]
        exact h.symm _ _ (hother d hd).2
      · rw [move_other s x y he]
        exact hR d e hde

/-- A whole run, with the moves of the agents in any order. -/
theorem Stable.run {P : κ → σ → τ → Prop} {R : τ → τ → Prop} (h : Stable act P R)
    {s s' : Sys κ σ τ} (hrun : Run act s s') (hs : s.Holds P R) : s'.Holds P R :=
  hrun.induct (fun _ _ _ _ hinv hact => h.move hinv hact) hs

end Sys

end Framework
