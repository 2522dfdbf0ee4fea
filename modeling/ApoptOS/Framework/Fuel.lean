import Mathlib.Order.CompletePartialOrder
import Mathlib.Tactic

namespace Framework

variable {α β : Type*} {f : Nat → Option α} {a : α}

/-- With enough fuel a computation gives `a`, and more fuel changes nothing. -/
def Gives (f : Nat → Option α) (a : α) : Prop := ∃ n, ∀ k ≥ n, f k = some a

theorem Gives.of_step (hstep : ∀ n a, f n = some a → f (n + 1) = some a) {n : Nat}
    (h : f n = some a) : Gives f a := by
  refine ⟨n, fun k hk => ?_⟩
  induction k, hk using Nat.le_induction with
  | base => exact h
  | succ k _ ih => exact hstep k a ih

theorem gives_some (a : α) : Gives (fun _ => some a) a := ⟨0, fun _ _ => rfl⟩

theorem Gives.unique {b : α} (h : Gives f a) (h' : Gives f b) : a = b := by
  obtain ⟨n, hn⟩ := h
  obtain ⟨m, hm⟩ := h'
  have hsame := (hn (max n m) (le_max_left n m)).symm.trans (hm (max n m) (le_max_right n m))
  exact Option.some.inj hsame

theorem Gives.bind {g : α → Nat → Option β} {b : β} (h : Gives f a) (hg : Gives (g a) b) :
    Gives (fun n => (f n).bind (fun a => g a n)) b := by
  obtain ⟨n, hn⟩ := h
  obtain ⟨m, hm⟩ := hg
  refine ⟨max n m, fun k hk => ?_⟩
  simp only [hn k (le_of_max_le_left hk), Option.bind_some]
  exact hm k (le_of_max_le_right hk)

theorem Gives.map (g : α → β) (h : Gives f a) : Gives (fun n => (f n).map g) (g a) := by
  obtain ⟨n, hn⟩ := h
  exact ⟨n, fun k hk => by simp [hn k hk]⟩

end Framework
