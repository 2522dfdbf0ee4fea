import ApoptOS.Framework.ByteMemory

namespace Framework

/-- Two computations that stop with the same error or reach related values. -/
inductive Both {ε α β : Type*} (R : α → β → Prop) : Except ε α → Except ε β → Prop
  | error (e : ε) : Both R (.error e) (.error e)
  | ok {a : α} {b : β} (h : R a b) : Both R (.ok a) (.ok b)

namespace Both

variable {ε α β : Type*} {R T : α → β → Prop} {x : Except ε α} {y : Except ε β}

theorem mono (h : Both R x y) (hRT : ∀ a b, R a b → T a b) : Both T x y := by
  cases h with
  | error e => exact .error e
  | ok h => exact .ok (hRT _ _ h)

theorem map {γ δ : Type*} {T : γ → δ → Prop} (h : Both R x y) {f : α → γ}
    {g : β → δ} (hfg : ∀ a b, R a b → T (f a) (g b)) : Both T (x.map f) (y.map g) := by
  cases h with
  | error e => exact .error e
  | ok h => exact .ok (hfg _ _ h)

theorem of_ok {a : α} (h : Both R (.ok a) y) : ∃ b, y = .ok b ∧ R a b := by
  cases h with
  | ok h => exact ⟨_, rfl, h⟩

theorem of_error {e : ε} (h : Both R (.error e) y) : y = .error e := by
  cases h with
  | error => rfl

end Both

namespace Mem

/-- The bytes of the 64-bit words at the addresses `C`. -/
def wordBytes (C : Set Nat) : Set Nat := {x | ∃ c ∈ C, c ≤ x ∧ x < c + 8}

/-- Two memories that may differ in the words at `C`, and nowhere else. -/
def SameBut (C : Set Nat) (m m' : Mem) : Prop := SameOn (wordBytes C)ᶜ m m'

namespace SameBut

variable {C D : Set Nat} {m m' m'' : Mem} {a : Nat}

theorem refl (C : Set Nat) (m : Mem) : SameBut C m m := SameOn.refl _ _

theorem mono (h : SameBut C m m') (hCD : C ⊆ D) : SameBut D m m' := by
  refine SameOn.mono h (Set.compl_subset_compl.mpr ?_)
  rintro x ⟨c, hc, hx⟩
  exact ⟨c, hCD hc, hx⟩

theorem trans (h : SameBut C m m') (h' : SameBut C m' m'') : SameBut C m m'' :=
  SameOn.trans h h'

theorem load64 (h : SameBut C m m') (ha : ∀ c ∈ C, a + 8 ≤ c ∨ c + 8 ≤ a) :
    m'.load64 a = m.load64 a := by
  refine SameOn.load64 h (fun x h1 h2 => ?_)
  rintro ⟨c, hc, h3, h4⟩
  have hapart := ha c hc
  omega

theorem load16 (h : SameBut C m m') (ha : ∀ c ∈ C, a + 2 ≤ c ∨ c + 8 ≤ a) :
    m'.load16 a = m.load16 a := by
  refine SameOn.load16 h (fun x h1 h2 => ?_)
  rintro ⟨c, hc, h3, h4⟩
  have hapart := ha c hc
  omega

/-- Storing the same word in both memories ends a difference there. -/
theorem store64 (h : SameBut C m m') (a v : Nat) :
    SameBut (C \ {a}) (m.store64 a v) (m'.store64 a v) := by
  intro x hx
  by_cases hin : a ≤ x ∧ x < a + 8
  · exact store64_inside _ _ _ hin.1 hin.2
  · rw [store64_outside _ _ (by omega), store64_outside _ _ (by omega)]
    refine h x ?_
    rintro ⟨c, hc, hcx⟩
    refine hx ⟨c, ⟨hc, ?_⟩, hcx⟩
    rintro rfl
    exact hin hcx

theorem store16 (h : SameBut C m m') (a v : Nat) :
    SameBut C (m.store16 a v) (m'.store16 a v) := by
  intro x hx
  by_cases hin : a ≤ x ∧ x < a + 2
  · exact store16_inside _ _ _ hin.1 hin.2
  · rw [store16_outside _ _ (by omega), store16_outside _ _ (by omega)]
    exact h x hx

theorem memset (h : SameBut C m m') (a v n : Nat) :
    SameBut C (m.memset a v n) (m'.memset a v n) := by
  intro x hx
  by_cases hin : a ≤ x ∧ x < a + n
  · rw [memset_inside _ hin.1 hin.2, memset_inside _ hin.1 hin.2]
  · rw [memset_outside _ (by omega), memset_outside _ (by omega)]
    exact h x hx

/-- A store in one memory only. -/
theorem of_store64 (m : Mem) (v : Nat) (ha : a ∈ C) : SameBut C m (m.store64 a v) := by
  intro x hx
  refine store64_outside _ _ ?_
  by_contra hin
  exact hx ⟨a, ha, by omega, by omega⟩

end SameBut

end Mem

end Framework
