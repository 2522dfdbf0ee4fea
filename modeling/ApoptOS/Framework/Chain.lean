import Mathlib.Data.List.Nodup
import Mathlib.Tactic
import Mathlib.Order.CompletePartialOrder

namespace Framework

variable {α : Type*}

/-- Following `next` from the first argument visits exactly the list and then
arrives at `stop`. The links live in the function, not in the list. -/
def Chain (next : α → α) (stop : α) : α → List α → Prop
  | h, [] => h = stop
  | h, a :: l => h = a ∧ a ≠ stop ∧ Chain next stop (next a) l

instance Chain.decidable [DecidableEq α] (next : α → α) (stop : α) :
    (h : α) → (l : List α) → Decidable (Chain next stop h l)
  | h, [] => inferInstanceAs (Decidable (h = stop))
  | h, a :: l =>
    have := Chain.decidable next stop (next a) l
    inferInstanceAs (Decidable (h = a ∧ a ≠ stop ∧ Chain next stop (next a) l))

namespace Chain

variable {next next' : α → α} {stop h a : α} {l l' : List α}

@[simp] theorem nil_iff : Chain next stop h [] ↔ h = stop := Iff.rfl

@[simp] theorem cons_iff :
    Chain next stop h (a :: l) ↔ h = a ∧ a ≠ stop ∧ Chain next stop (next a) l := Iff.rfl

theorem congr (hc : Chain next stop h l) (he : ∀ a ∈ l, next' a = next a) :
    Chain next' stop h l := by
  induction l generalizing h with
  | nil => exact hc
  | cons a l ih =>
    obtain ⟨rfl, hne, ht⟩ := hc
    refine ⟨rfl, hne, ?_⟩
    rw [he h (by simp)]
    exact ih ht (fun b hb => he b (by simp [hb]))

theorem ne_stop (hc : Chain next stop h l) : ∀ a ∈ l, a ≠ stop := by
  induction l generalizing h with
  | nil => simp
  | cons b l ih =>
    intro a ha
    rcases List.mem_cons.mp ha with rfl | ha
    · exact hc.2.1
    · exact ih hc.2.2 a ha

/-- A head determines the list it leads to. -/
theorem unique (hc : Chain next stop h l) (hc' : Chain next stop h l') : l = l' := by
  induction l generalizing h l' with
  | nil =>
    cases l' with
    | nil => rfl
    | cons b l' => exact absurd (hc'.1.symm.trans hc) hc'.2.1
  | cons a l ih =>
    cases l' with
    | nil => exact absurd (hc.1.symm.trans hc') hc.2.1
    | cons b l' =>
      have hab : a = b := hc.1.symm.trans hc'.1
      subst hab
      exact congrArg (List.cons a) (ih hc.2.2 hc'.2.2)

/-- Every visited node starts a chain that is no longer than the whole. -/
theorem from_mem (hc : Chain next stop h l) (ha : a ∈ l) :
    ∃ t, Chain next stop a (a :: t) ∧ t.length < l.length := by
  induction l generalizing h with
  | nil => simp at ha
  | cons b l ih =>
    rcases List.mem_cons.mp ha with rfl | ha
    · exact ⟨l, ⟨rfl, hc.2⟩, by simp⟩
    · obtain ⟨t, ht, hlen⟩ := ih hc.2.2 ha
      exact ⟨t, ht, by simp; omega⟩

/-- A chain that stops does not run in a circle. -/
theorem nodup (hc : Chain next stop h l) : l.Nodup := by
  induction l generalizing h with
  | nil => exact List.nodup_nil
  | cons a l ih =>
    refine List.nodup_cons.mpr ⟨?_, ih hc.2.2⟩
    intro hmem
    obtain ⟨t, ht, hlen⟩ := hc.2.2.from_mem hmem
    have heq := unique ht (show Chain next stop a (a :: l) from ⟨rfl, hc.2⟩)
    have htl : t = l := (List.cons.inj heq).2
    subst htl
    exact absurd hlen (lt_irrefl _)

/-- Redirect the link of one node: what was visited up to it stays, what
followed it is replaced. -/
theorem splice {pre post : List α} (hc : Chain next stop h (pre ++ a :: post))
    (hpre : ∀ b ∈ pre, next' b = next b) (ht : Chain next' stop (next' a) l) :
    Chain next' stop h (pre ++ a :: l) := by
  induction pre generalizing h with
  | nil => exact ⟨hc.1, hc.2.1, ht⟩
  | cons b pre ih =>
    refine ⟨hc.1, hc.2.1, ?_⟩
    rw [hpre b (by simp)]
    exact ih hc.2.2 (fun c hb => hpre c (by simp [hb]))

/-- The link out of a visited node is the head of what follows it. -/
theorem tail {pre post : List α} (hc : Chain next stop h (pre ++ a :: post)) :
    Chain next stop (next a) post := by
  induction pre generalizing h with
  | nil => exact hc.2.2
  | cons b pre ih => exact ih hc.2.2

/-- A chain is entered at the head of its list, or at `stop` when it is empty. -/
theorem head_eq (hc : Chain next stop h l) : h = l.headD stop := by
  cases l with
  | nil => exact hc
  | cons a l => exact hc.1

theorem head_mem (hc : Chain next stop h l) : h = stop ∨ h ∈ l := by
  cases l with
  | nil => exact Or.inl hc
  | cons a l => exact Or.inr (hc.1 ▸ List.mem_cons_self)

/-- The links of a chain stay inside it until it stops. -/
theorem next_mem (hc : Chain next stop h l) (ha : a ∈ l) : next a = stop ∨ next a ∈ l := by
  obtain ⟨pre, post, rfl⟩ := List.append_of_mem ha
  refine hc.tail.head_mem.imp_right (fun hmem => ?_)
  exact List.mem_append_right _ (List.mem_cons_of_mem _ hmem)

/-- A chain that enters a set closed under its links stays in it. -/
theorem subset_of_closed {X : Set α} (hc : Chain next stop h l) (hh : h = stop ∨ h ∈ X)
    (hX : ∀ a ∈ X, next a = stop ∨ next a ∈ X) : ∀ a ∈ l, a ∈ X := by
  induction l generalizing h with
  | nil => simp
  | cons b l ih =>
    obtain ⟨rfl, hne, ht⟩ := hc
    have hmem := hh.resolve_left hne
    intro a ha
    rcases List.mem_cons.mp ha with rfl | ha
    · exact hmem
    · exact ih ht (hX _ hmem) a ha

theorem eq_nil_iff (hc : Chain next stop h l) : l = [] ↔ h = stop := by
  cases l with
  | nil => exact ⟨fun _ => hc, fun _ => rfl⟩
  | cons a l =>
    refine ⟨fun hl => by simp at hl, fun hh => ?_⟩
    exact absurd (hc.1.symm.trans hh) hc.2.1

end Chain

end Framework
