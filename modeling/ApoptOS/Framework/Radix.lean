import Mathlib.Data.Set.Insert
import Mathlib.Tactic
import Mathlib.Order.CompletePartialOrder

namespace Framework

/-- Tables of words, by table number and index. -/
abbrev Tables (W : Type*) := Nat → Nat → W

/-- A path of at most `depth` indices into tables of `width` words. -/
def IsPath (width depth : Nat) (p : List Nat) : Prop :=
  p.length ≤ depth ∧ ∀ i ∈ p, i < width

namespace Radix

variable {W : Type*} (link : W → Option Nat)

/-- The table a path leads to, following the links of its words. -/
def find (E : Tables W) : List Nat → Nat → Option Nat
  | [], t => some t
  | i :: p, t => (link (E t i)).bind (find E p)

/-- Every link on the path has the property `P`, as far as the path goes. -/
def Along (E : Tables W) (P : W → Prop) : List Nat → Nat → Prop
  | [], _ => True
  | i :: p, t => ∀ u, link (E t i) = some u → P (E t i) ∧ Along E P p u

/-- How many tables are missing on the path, from the first missing link on. -/
def missing (E : Tables W) : List Nat → Nat → Nat
  | [], _ => 0
  | i :: p, t =>
    match link (E t i) with
    | some u => missing E p u
    | none => p.length + 1

/-- No table is reached along two paths, and all reached ones are in `S`. -/
structure Separated (width depth : Nat) (E : Tables W) (root : Nat) (S : Set Nat) : Prop where
  mem : ∀ p t, IsPath width depth p → find link E p root = some t → t ∈ S
  inj : ∀ p q t, IsPath width depth p → IsPath width depth q →
    find link E p root = some t → find link E q root = some t → p = q

variable {link} {width depth root t g i : Nat} {E E' : Tables W} {S : Set Nat} {p q : List Nat}

@[simp] theorem find_nil : find link E [] t = some t := rfl

theorem find_concat (p : List Nat) (i t : Nat) :
    find link E (p ++ [i]) t = (find link E p t).bind (fun u => link (E u i)) := by
  induction p generalizing t with
  | nil =>
    simp only [List.nil_append, find, Option.bind_some]
    cases link (E t i) <;> rfl
  | cons j p ih =>
    simp only [List.cons_append, find]
    cases link (E t j) with
    | none => rfl
    | some u => exact ih u

theorem find_append (p q : List Nat) (t : Nat) :
    find link E (p ++ q) t = (find link E p t).bind (find link E q) := by
  induction p generalizing t with
  | nil => rfl
  | cons i p ih =>
    simp only [List.cons_append, find]
    cases link (E t i) with
    | none => rfl
    | some u => exact ih u

/-- A path that leads nowhere stops at its first missing link. -/
theorem find_none_split {t : Nat} (h : find link E p t = none) :
    ∃ a i b u, p = a ++ i :: b ∧ find link E a t = some u ∧ link (E u i) = none := by
  induction p generalizing t with
  | nil => simp [find] at h
  | cons i p ih =>
    simp only [find] at h
    cases hu : link (E t i) with
    | none => exact ⟨[], i, p, t, rfl, rfl, hu⟩
    | some u =>
      rw [hu] at h
      obtain ⟨a, j, b, x, hp, hx, hnone⟩ := ih h
      refine ⟨i :: a, j, b, x, by rw [hp]; rfl, ?_, hnone⟩
      simp only [find, hu, Option.bind_some, hx]

theorem missing_of_some {t u : Nat} (h : find link E p t = some u) : missing link E p t = 0 := by
  induction p generalizing t with
  | nil => rfl
  | cons i p ih =>
    simp only [find] at h
    simp only [missing]
    cases hx : link (E t i) with
    | none =>
      rw [hx] at h
      simp at h
    | some x =>
      rw [hx] at h
      exact ih h

theorem missing_split {a b : List Nat} {i t u : Nat} (h : find link E a t = some u)
    (hnone : link (E u i) = none) : missing link E (a ++ i :: b) t = b.length + 1 := by
  induction a generalizing t with
  | nil =>
    obtain rfl := Option.some.inj h
    simp only [List.nil_append, missing, hnone]
  | cons j a ih =>
    simp only [find] at h
    simp only [List.cons_append, missing]
    cases hx : link (E t j) with
    | none =>
      rw [hx] at h
      simp at h
    | some x =>
      rw [hx] at h
      exact ih h

/-- Only the words on the path matter. -/
theorem along_congr {P : W → Prop}
    (h : ∀ a i b u, p = a ++ i :: b → find link E a t = some u →
    E' u i = E u i) : Along link E' P p t ↔ Along link E P p t := by
  induction p generalizing t with
  | nil => exact Iff.rfl
  | cons i p ih =>
    have hword : E' t i = E t i := h [] i p t rfl rfl
    simp only [Along, hword]
    refine forall_congr' (fun u => imp_congr_right (fun hu => and_congr_right (fun _ => ?_)))
    refine ih (fun a j b x hp hx => h (i :: a) j b x (by rw [hp]; rfl) ?_)
    simp only [find, hu, Option.bind_some, hx]

/-- The walk decides whether its links have a property. -/
instance decidableAlong (P : W → Prop) [DecidablePred P] :
    (p : List Nat) → (t : Nat) → Decidable (Along link E P p t)
  | [], _ => isTrue trivial
  | i :: p, t =>
    match h : link (E t i) with
    | none => isTrue (fun u hu => by rw [h] at hu; simp at hu)
    | some u =>
      have : Decidable (Along link E P p u) := decidableAlong P p u
      decidable_of_iff (P (E t i) ∧ Along link E P p u) (by simp [Along, h])

theorem append_isPath : IsPath width depth (p ++ q) →
    IsPath width depth p ∧ (q ≠ [] → p.length < depth) := by
  rintro ⟨hlen, hall⟩
  rw [List.length_append] at hlen
  refine ⟨⟨by omega, fun j hj => hall j (List.mem_append_left _ hj)⟩, fun hq => ?_⟩
  have hpos := List.length_pos_iff.mpr hq
  omega

theorem concat_isPath : IsPath width depth (p ++ [i]) ↔
    IsPath width depth p ∧ p.length < depth ∧ i < width := by
  simp only [IsPath, List.length_append, List.length_singleton, List.mem_append,
    List.mem_singleton]
  constructor
  · rintro ⟨hlen, hall⟩
    exact ⟨⟨by omega, fun j hj => hall j (Or.inl hj)⟩, by omega, hall i (Or.inr rfl)⟩
  · rintro ⟨⟨_, hall⟩, hlen, hi⟩
    refine ⟨by omega, ?_⟩
    rintro j (hj | rfl)
    · exact hall j hj
    · exact hi

/-- Only links of tables above the last level matter. -/
theorem find_congr (h : ∀ p u, IsPath width depth p → p.length < depth →
      find link E p root = some u → ∀ j < width, link (E' u j) = link (E u j))
    (hq : IsPath width depth q) : find link E' q root = find link E q root := by
  induction q using List.reverseRecOn with
  | nil => rfl
  | append_singleton q j ih =>
    obtain ⟨hq, hlen, hj⟩ := concat_isPath.mp hq
    rw [find_concat, find_concat, ih hq]
    cases hu : find link E q root with
    | none => rfl
    | some u => exact h q u hq hlen hu j hj

namespace Separated

theorem congr (h : Separated link width depth E root S)
    (hlink : ∀ p u, IsPath width depth p → p.length < depth →
      find link E p root = some u → ∀ j < width, link (E' u j) = link (E u j)) :
    Separated link width depth E' root S := by
  refine ⟨fun p t hp ht => h.mem p t hp ?_, fun p q t hp hq ht ht' => h.inj p q t hp hq ?_ ?_⟩
  · rwa [find_congr hlink hp] at ht
  · rwa [find_congr hlink hp] at ht
  · rwa [find_congr hlink hq] at ht'

/-- Linking an empty table `g` at word `i` of the table behind `p`. -/
theorem find_linked (h : Separated link width depth E root S)
    (hp : IsPath width depth (p ++ [i])) (ht : find link E p root = some t)
    (hnone : link (E t i) = none) (hlink : link (E' t i) = some g)
    (hE : ∀ u ∈ S, ∀ j < width, ¬ (u = t ∧ j = i) → link (E' u j) = link (E u j))
    (hg : ∀ j < width, link (E' g j) = none) (hq : IsPath width depth q) :
    find link E' q root = if q = p ++ [i] then some g else find link E q root := by
  obtain ⟨hp, _, _⟩ := concat_isPath.mp hp
  induction q using List.reverseRecOn with
  | nil => simp
  | append_singleton q j ih =>
    obtain ⟨hq, _, hj⟩ := concat_isPath.mp hq
    rw [find_concat, find_concat, ih hq]
    by_cases hqp : q = p ++ [i]
    · -- below the new table there is nothing, as before
      have hne : q ++ [j] ≠ p ++ [i] := by
        intro he
        have hlen := congrArg List.length he
        rw [hqp] at hlen
        simp at hlen
      rw [if_pos hqp, if_neg hne, hqp, find_concat, ht]
      simp [hg j hj, hnone]
    · rw [if_neg hqp]
      cases hu : find link E q root with
      | none =>
        have hne : q ++ [j] ≠ p ++ [i] := by
          intro he
          have hpq : q = p := (List.append_inj' he rfl).1
          rw [hpq, ht] at hu
          simp at hu
        rw [if_neg hne]
        rfl
      | some u =>
        by_cases hui : u = t ∧ j = i
        · have hpq : q = p := h.inj q p u hq hp hu (hui.1 ▸ ht)
          rw [if_pos (by rw [hpq, hui.2]), hui.1, hui.2]
          exact hlink
        · have hne : q ++ [j] ≠ p ++ [i] := by
            intro he
            obtain ⟨hpq, hji⟩ := List.append_inj' he rfl
            rw [hpq, ht] at hu
            exact hui ⟨(Option.some.inj hu).symm, List.singleton_inj.mp hji⟩
          rw [if_neg hne]
          exact hE u (h.mem q u hq hu) j hj hui

theorem linked (h : Separated link width depth E root S)
    (hp : IsPath width depth (p ++ [i])) (ht : find link E p root = some t)
    (hnone : link (E t i) = none) (hlink : link (E' t i) = some g) (hgS : g ∉ S)
    (hE : ∀ u ∈ S, ∀ j < width, ¬ (u = t ∧ j = i) → link (E' u j) = link (E u j))
    (hg : ∀ j < width, link (E' g j) = none) :
    Separated link width depth E' root (insert g S) := by
  have hfind := fun {q} hq => h.find_linked (q := q) hp ht hnone hlink hE hg hq
  constructor
  · intro q u hq hu
    rw [hfind hq] at hu
    split_ifs at hu
    · exact Option.some.inj hu ▸ Set.mem_insert g S
    · exact Set.mem_insert_of_mem _ (h.mem q u hq hu)
  · intro q r u hq hr hqu hru
    rw [hfind hq] at hqu
    rw [hfind hr] at hru
    split_ifs at hqu hru with hqp hrp hrp
    · rw [hqp, hrp]
    · exact absurd (h.mem r u hr hru) (Option.some.inj hqu ▸ hgS)
    · exact absurd (h.mem q u hq hqu) (Option.some.inj hru ▸ hgS)
    · exact h.inj q r u hq hr hqu hru

end Separated

end Radix

end Framework
