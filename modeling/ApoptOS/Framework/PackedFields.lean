import ApoptOS.Framework.ByteMemory

namespace Framework

/-- The fields of a packed structure in their order, each with its width in bytes and its value. -/
abbrev Fields := List (Nat × Nat)

def Fields.width (fs : Fields) : Nat := (fs.map Prod.fst).sum

@[simp] theorem Fields.width_nil : Fields.width [] = 0 := rfl

@[simp] theorem Fields.width_cons (f : Nat × Nat) (fs : Fields) :
    Fields.width (f :: fs) = f.1 + Fields.width fs := by
  simp [Fields.width]

namespace Mem

def storeFields (m : Mem) (a : Nat) : Fields → Mem
  | [] => m
  | (n, v) :: fs => (m.storeLE a n v).storeFields (a + n) fs

/-- Every field is in its place, cut to its width. -/
def HoldsFields (m : Mem) : Nat → Fields → Prop
  | _, [] => True
  | a, (n, v) :: fs => m.loadLE a n = v % 256 ^ n ∧ m.HoldsFields (a + n) fs

/-- The entries of a table, by their indices, each `size` bytes long. -/
def storeEntries (m : Mem) (a size : Nat) (entry : Nat → Fields) : List Nat → Mem
  | [] => m
  | i :: is => (m.storeFields (a + size * i) (entry i)).storeEntries a size entry is

variable {m m' : Mem} {a size i x : Nat} {fs gs : Fields} {entry : Nat → Fields} {is : List Nat}

theorem storeFields_outside (h : x < a ∨ a + fs.width ≤ x) : m.storeFields a fs x = m x := by
  induction fs generalizing m a with
  | nil => rfl
  | cons f fs ih =>
    obtain ⟨n, v⟩ := f
    rw [Fields.width_cons] at h
    rw [storeFields, ih (by omega)]
    exact storeLE_outside m a n v x (by omega)

theorem HoldsFields.congr (h : m.HoldsFields a fs)
    (hsame : ∀ x, a ≤ x → x < a + fs.width → m' x = m x) : m'.HoldsFields a fs := by
  induction fs generalizing a with
  | nil => trivial
  | cons f fs ih =>
    obtain ⟨n, v⟩ := f
    rw [Fields.width_cons] at hsame
    refine ⟨?_, ih h.2 (fun x hx hn => hsame x (by omega) (by omega))⟩
    rw [loadLE_congr m m' a n (fun x hx hn => hsame x hx (by omega))]
    exact h.1

theorem holdsFields_storeFields (m : Mem) (a : Nat) (fs : Fields) :
    (m.storeFields a fs).HoldsFields a fs := by
  induction fs generalizing m a with
  | nil => trivial
  | cons f fs ih =>
    obtain ⟨n, v⟩ := f
    refine ⟨?_, ih _ _⟩
    rw [storeFields, ← loadLE_storeLE_same m a n v]
    exact loadLE_congr _ _ a n (fun x hx hn => storeFields_outside (by omega))

theorem storeEntries_append (is js : List Nat) : m.storeEntries a size entry (is ++ js) =
    (m.storeEntries a size entry is).storeEntries a size entry js := by
  induction is generalizing m with
  | nil => rfl
  | cons i is ih => exact ih

/-- Two entries of a table do not overlap. -/
theorem entries_apart {i j : Nat} (h : i ≠ j) :
    a + size * i + size ≤ a + size * j ∨ a + size * j + size ≤ a + size * i := by
  rcases Nat.lt_or_gt_of_ne h with hlt | hgt
  · have hle := Nat.mul_le_mul_left size hlt
    rw [Nat.mul_succ] at hle
    omega
  · have hle := Nat.mul_le_mul_left size hgt
    rw [Nat.mul_succ] at hle
    omega

theorem storeEntries_outside (hsize : ∀ i, (entry i).width = size)
    (h : ∀ i ∈ is, x < a + size * i ∨ a + size * i + size ≤ x) :
    m.storeEntries a size entry is x = m x := by
  induction is generalizing m with
  | nil => rfl
  | cons i is ih =>
    rw [storeEntries, ih (fun j hj => h j (List.mem_cons_of_mem _ hj))]
    apply storeFields_outside
    rw [hsize]
    exact h i List.mem_cons_self

/-- A table that has been filled holds every entry, in whatever order it was filled. -/
theorem holdsFields_storeEntries (hsize : ∀ i, (entry i).width = size) (hi : i ∈ is) :
    (m.storeEntries a size entry is).HoldsFields (a + size * i) (entry i) := by
  induction is generalizing m with
  | nil => simp at hi
  | cons j js ih =>
    by_cases hlater : i ∈ js
    · exact ih hlater
    · have hij : i = j := by
        simp only [List.mem_cons] at hi
        exact hi.resolve_right hlater
      subst hij
      apply (holdsFields_storeFields m (a + size * i) (entry i)).congr
      intro x hx hlt
      rw [hsize] at hlt
      rw [storeEntries]
      apply storeEntries_outside hsize
      intro k hk
      have hne : i ≠ k := fun h => hlater (h ▸ hk)
      have hapart : a + size * i + size ≤ a + size * k ∨ a + size * k + size ≤ a + size * i :=
        entries_apart hne
      omega

end Mem

end Framework
