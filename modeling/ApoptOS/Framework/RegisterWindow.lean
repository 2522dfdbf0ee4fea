import Mathlib.Logic.Function.Basic
import Mathlib.Tactic.Common

namespace Framework

/-- A device whose registers are reached through a window of two words: one of them selects a
register, the other one carries its data. -/
structure RegisterWindow (S D : Type*) where
  selected : S
  regs : S → D

/-- Such devices, by the address of their window. -/
abbrev WindowBank (A S D : Type*) := A → RegisterWindow S D

namespace WindowBank

variable {A S D : Type*}

def reg (b : WindowBank A S D) (a : A) (r : S) : D := (b a).regs r

/-- The banks differ at most in what is selected. -/
def SameRegs (b b' : WindowBank A S D) : Prop := ∀ a r, b'.reg a r = b.reg a r

theorem SameRegs.refl (b : WindowBank A S D) : SameRegs b b := fun _ _ => rfl

theorem SameRegs.trans {b b' b'' : WindowBank A S D} (h : SameRegs b b') (h' : SameRegs b' b'') :
    SameRegs b b'' :=
  fun a r => (h' a r).trans (h a r)

variable [DecidableEq A]

/-- A store to the selecting word. -/
def select (b : WindowBank A S D) (a : A) (r : S) : WindowBank A S D :=
  Function.update b a { b a with selected := r }

/-- The data word read and written. -/
def data (b : WindowBank A S D) (a : A) : D := b.reg a (b a).selected
def setData [DecidableEq S] (b : WindowBank A S D) (a : A) (d : D) : WindowBank A S D :=
  Function.update b a { b a with regs := Function.update (b a).regs (b a).selected d }

variable {b : WindowBank A S D} {a a' : A} {r r' : S} {d : D}

theorem sameRegs_select (b : WindowBank A S D) (a : A) (r : S) : SameRegs b (b.select a r) := by
  intro a' r'
  by_cases ha : a' = a
  · subst ha
    simp only [reg, select, Function.update_self]
  · simp only [reg, select, Function.update_of_ne ha]

theorem data_select : (b.select a r).data a = b.reg a r := by
  simp only [data, reg, select, Function.update_self]

/-- Selecting and writing changes the selected register and no other one. -/
theorem setData_select [DecidableEq S] : ((b.select a r).setData a d).reg a' r' =
    if a' = a ∧ r' = r then d else b.reg a' r' := by
  by_cases ha : a' = a
  · subst ha
    by_cases hr : r' = r
    · subst hr
      simp only [reg, setData, select, Function.update_self, and_self, if_true]
    · simp only [reg, setData, select, Function.update_self, Function.update_of_ne hr, hr,
        and_false, if_false]
  · simp only [reg, setData, select, Function.update_of_ne ha, ha, false_and, if_false]

end WindowBank

end Framework
