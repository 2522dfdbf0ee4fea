import ApoptOS.Memory.Virtual.PageWalk

namespace ApoptOS

open Framework

/-- The tables of the frames `S` below `root`: no table is shared, entries in use above the last
level are a table and a privilege, those of the last level are in use or zero. An entry that is
not in use may hold any stale address. -/
structure PageTree (m : Mem) (root : Nat) (S : Set Nat) : Prop where
  separated : Radix.Separated nextTable 512 3 (tables m) root S
  upper : ∀ p t i, IsPath 512 3 (p ++ [i]) → Radix.find nextTable (tables m) p root = some t →
    tables m t i % 2 = 1 → ∃ f flags, tables m t i = f * 4096 + flags ∧ f < 2 ^ 40 ∧
      flags < 8
  leaf : ∀ p t i, IsPath 512 3 p → p.length = 3 →
    Radix.find nextTable (tables m) p root = some t → i < 512 →
    tables m t i = 0 ∨ tables m t i % 2 = 1

/-- The tables the walk from `root` can reach. -/
def pageTables (m : Mem) (root : Nat) : Set Nat :=
  {t | ∃ p, IsPath 512 3 p ∧ Radix.find nextTable (tables m) p root = some t}

variable {m m' : Mem} {root t g i j u v w flags : Nat} {S F : Set Nat} {p q : List Nat}

theorem tables_store (hi : i < 512) (hj : j < 512) :
    tables (m.store64 (t * 4096 + 8 * i) w) u j =
      if u = t ∧ j = i then w % 2 ^ 64 else tables m u j := by
  split_ifs with h
  · obtain ⟨rfl, rfl⟩ := h
    exact Mem.load64_store64_same _ _ _
  · refine Mem.load64_store64_other _ _ ?_
    have hne : u ≠ t ∨ j ≠ i := not_and_or.mp h
    omega

theorem tables_sameOn (h : Mem.SameOn (frameBytes F) m m') (hu : u ∈ F) (hj : j < 512) :
    tables m' u j = tables m u j := by
  refine h.load64 (fun x h1 h2 => mem_frameBytes.mpr ?_)
  have hx : x / 4096 = u := by omega
  rwa [hx]

theorem tables_zero (h : ∀ a, a / 4096 = g → m a = 0#8) (hj : j < 512) : tables m g j = 0 :=
  Mem.load64_zero m (fun x h1 h2 => h x (by omega))

namespace PageTree

theorem root_mem (h : PageTree m root S) : root ∈ S :=
  h.separated.mem [] root ⟨by simp, by simp⟩ rfl

theorem mem (h : PageTree m root S) (hp : IsPath 512 3 p)
    (ht : Radix.find nextTable (tables m) p root = some t) : t ∈ S :=
  h.separated.mem p t hp ht

theorem pageTables_subset (h : PageTree m root S) : pageTables m root ⊆ S := by
  rintro t ⟨p, hp, ht⟩
  exact h.mem hp ht

/-- Frames off the tree can be left out. -/
theorem reachable (h : PageTree m root S) : PageTree m root (pageTables m root) :=
  ⟨⟨fun p _ hp ht => ⟨p, hp, ht⟩, h.separated.inj⟩, h.upper, h.leaf⟩

/-- A zeroed frame is a tree of its own. -/
theorem empty (hzero : ∀ j < 512, tables m root j = 0) : PageTree m root {root} := by
  have hfind : ∀ p t, IsPath 512 3 p → Radix.find nextTable (tables m) p root = some t →
      p = [] ∧ t = root := by
    intro p t hp ht
    cases p with
    | nil => exact ⟨rfl, (Option.some.inj ht).symm⟩
    | cons i p =>
      simp only [Radix.find, hzero i (hp.2 i List.mem_cons_self), nextTable_even] at ht
      simp at ht
  refine ⟨⟨fun p t hp ht => (hfind p t hp ht).2, fun p q t hp hq ht hu => ?_⟩, ?_, ?_⟩
  · rw [(hfind p t hp ht).1, (hfind q t hq hu).1]
  · intro p t i hp ht hin
    obtain ⟨hp', -, hi⟩ := Radix.concat_isPath.mp hp
    rw [(hfind p t hp' ht).2, hzero i hi] at hin
    simp at hin
  · intro p t i hp hlen ht hi
    rw [(hfind p t hp ht).2]
    exact Or.inl (hzero i hi)

/-- An entry in use above the last level leads to its table. -/
theorem next (h : PageTree m root S) (hp : IsPath 512 3 (p ++ [i]))
    (ht : Radix.find nextTable (tables m) p root = some t) (hw : tables m t i % 2 = 1) :
    ∃ f flags, tables m t i = f * 4096 + flags ∧ f < 2 ^ 40 ∧ flags < 8 ∧
      nextTable (tables m t i) = some f := by
  obtain ⟨f, flags, he, hf, hflags⟩ := h.upper p t i hp ht hw
  refine ⟨f, flags, he, hf, hflags, ?_⟩
  rw [he] at hw ⊢
  exact nextTable_entry hf (by omega) (by omega)

theorem not_next (h : PageTree m root S) (hp : IsPath 512 3 (p ++ [i]))
    (ht : Radix.find nextTable (tables m) p root = some t) :
    nextTable (tables m t i) = none ↔ tables m t i % 2 = 0 := by
  refine ⟨fun hnone => ?_, nextTable_even⟩
  by_contra hw
  obtain ⟨f, flags, -, -, -, hsome⟩ := h.next hp ht (by omega)
  rw [hsome] at hnone
  simp at hnone

/-- Only tables on the tree matter. -/
theorem of_links (h : PageTree m root S)
    (hlink : ∀ p t, IsPath 512 3 p → p.length < 3 →
      Radix.find nextTable (tables m) p root = some t → ∀ j < 512,
      nextTable (tables m' t j) = nextTable (tables m t j))
    (hupper : ∀ p t i, IsPath 512 3 (p ++ [i]) →
      Radix.find nextTable (tables m) p root = some t → tables m' t i % 2 = 1 →
      ∃ f flags, tables m' t i = f * 4096 + flags ∧ f < 2 ^ 40 ∧ flags < 8)
    (hleaf : ∀ p t i, IsPath 512 3 p → p.length = 3 →
      Radix.find nextTable (tables m) p root = some t → i < 512 →
      tables m' t i = 0 ∨ tables m' t i % 2 = 1) :
    PageTree m' root S ∧ ∀ q, IsPath 512 3 q →
      Radix.find nextTable (tables m') q root = Radix.find nextTable (tables m) q root := by
  have hfind : ∀ q, IsPath 512 3 q →
      Radix.find nextTable (tables m') q root = Radix.find nextTable (tables m) q root :=
    fun q hq => Radix.find_congr hlink hq
  refine ⟨⟨h.separated.congr hlink, fun p t i hp ht => ?_, fun p t i hp hlen ht => ?_⟩,
    hfind⟩
  · rw [hfind p (Radix.concat_isPath.mp hp).1] at ht
    exact hupper p t i hp ht
  · rw [hfind p hp] at ht
    exact hleaf p t i hp hlen ht

/-- A frame off the tree does not matter. -/
theorem congr (h : PageTree m root S)
    (hS : ∀ t ∈ S, ∀ j < 512, tables m' t j = tables m t j) :
    PageTree m' root S ∧ (∀ q, IsPath 512 3 q →
      Radix.find nextTable (tables m') q root = Radix.find nextTable (tables m) q root) ∧
      ∀ v, translate m' root v = translate m root v := by
  have hword : ∀ p t i, IsPath 512 3 p → Radix.find nextTable (tables m) p root = some t →
      i < 512 →
      tables m' t i = tables m t i := fun p t i hp ht hi => hS t (h.mem hp ht) i hi
  obtain ⟨htree, hfind⟩ := h.of_links (fun p t hp _ ht j hj => by rw [hword p t j hp ht hj])
    (fun p t i hp ht => by
      obtain ⟨hp', -, hi⟩ := Radix.concat_isPath.mp hp
      rw [hword p t i hp' ht hi]
      exact h.upper p t i hp ht)
    (fun p t i hp hlen ht hi => by
      rw [hword p t i hp ht hi]
      exact h.leaf p t i hp hlen ht hi)
  refine ⟨htree, hfind, fun v => ?_⟩
  rw [translate, translate, hfind _ (upperPath_isPath v)]
  cases ht : Radix.find nextTable (tables m) (upperPath v) root with
  | none => rfl
  | some pt =>
    have hpt := hword _ pt _ (upperPath_isPath v) ht (leafIndex_lt v)
    simp only [Option.bind_some, hpt]

/-- A table of the last level is none of the upper ones. -/
theorem last_not_upper (h : PageTree m root S) (hp : IsPath 512 3 p) (hq : IsPath 512 3 q)
    (hlast : p.length = 3) (hupper : q.length < 3)
    (ht : Radix.find nextTable (tables m) p root = some t)
    (hu : Radix.find nextTable (tables m) q root = some u) : u ≠ t := by
  intro hut
  rw [hut] at hu
  have hpq := h.separated.inj p q t hp hq ht hu
  rw [hpq] at hlast
  omega

/-- A write to the last level. The page behind the word is the only one that changes. -/
theorem update_leaf (h : PageTree m root S) (hp : IsPath 512 3 p) (hlen : p.length = 3)
    (ht : Radix.find nextTable (tables m) p root = some t) (hword : w = 0 ∨ w % 2 = 1)
    (hm : ∀ u ∈ S, ∀ j < 512, tables m' u j = if u = t ∧ j = i then w else tables m u j) :
    PageTree m' root S ∧
      (∀ q, IsPath 512 3 q →
        Radix.find nextTable (tables m') q root = Radix.find nextTable (tables m) q root) ∧
      ∀ v, translate m' root v =
        if upperPath v = p ∧ leafIndex v = i then leafPage w else translate m root v := by
  have hother : ∀ q u j, IsPath 512 3 q → q.length < 3 →
      Radix.find nextTable (tables m) q root = some u → j < 512 →
      tables m' u j = tables m u j := by
    intro q u j hq hqlen hu hj
    have hut := h.last_not_upper hp hq hlen hqlen ht hu
    rw [hm u (h.mem hq hu) j hj, if_neg (fun hc => hut hc.1)]
  obtain ⟨htree, hfind⟩ := h.of_links
    (fun q u hq hqlen hu j hj => by rw [hother q u j hq hqlen hu hj])
    (fun q u j hq hu => by
      obtain ⟨hq', hqlen, hj⟩ := Radix.concat_isPath.mp hq
      rw [hother q u j hq' hqlen hu hj]
      exact h.upper q u j hq hu)
    (fun q u j hq hqlen hu hj => by
      rw [hm u (h.mem hq hu) j hj]
      split_ifs
      · exact hword
      · exact h.leaf q u j hq hqlen hu hj)
  refine ⟨htree, hfind, fun v => ?_⟩
  have hv := upperPath_isPath v
  rw [translate, translate, hfind _ hv]
  split_ifs with hpage
  · rw [hpage.1, ht]
    simp only [Option.bind_some]
    rw [hm t (h.mem hp ht) _ (leafIndex_lt v), if_pos ⟨rfl, hpage.2⟩]
  · cases hu : Radix.find nextTable (tables m) (upperPath v) root with
    | none => rfl
    | some u =>
      have hne : ¬ (u = t ∧ leafIndex v = i) := by
        rintro ⟨hut, hi⟩
        rw [hut] at hu
        exact hpage ⟨h.separated.inj _ _ t hv hp hu ht, hi⟩
      simp only [Option.bind_some]
      rw [hm u (h.mem hv hu) _ (leafIndex_lt v), if_neg hne]

/-- A write to an upper level leaves the words of the last level as they are. -/
theorem translate_of_upper (h : PageTree m root S) (hp : IsPath 512 3 (p ++ [i]))
    (ht : Radix.find nextTable (tables m) p root = some t)
    (hm : ∀ u ∈ S, ∀ j < 512, ¬ (u = t ∧ j = i) → tables m' u j = tables m u j)
    (hu : Radix.find nextTable (tables m) (upperPath v) root = some u) :
    tables m' u (leafIndex v) = tables m u (leafIndex v) := by
  obtain ⟨hp', hplen, -⟩ := Radix.concat_isPath.mp hp
  have hv := upperPath_isPath v
  have hne := h.last_not_upper hv hp' rfl hplen hu ht
  exact hm u (h.mem hv hu) _ (leafIndex_lt v) (fun hc => hne hc.1.symm)

/-- An unused entry of an upper level rewritten, still unused. -/
theorem update_unused (h : PageTree m root S) (hp : IsPath 512 3 (p ++ [i]))
    (ht : Radix.find nextTable (tables m) p root = some t) (hold : tables m t i % 2 = 0)
    (hm : ∀ u ∈ S, ∀ j < 512, ¬ (u = t ∧ j = i) → tables m' u j = tables m u j)
    (hw : tables m' t i % 2 = 0) :
    PageTree m' root S ∧
      (∀ q, IsPath 512 3 q →
        Radix.find nextTable (tables m') q root = Radix.find nextTable (tables m) q root) ∧
      ∀ v, translate m' root v = translate m root v := by
  obtain ⟨hp', hplen, hi⟩ := Radix.concat_isPath.mp hp
  obtain ⟨htree, hfind⟩ := h.of_links
    (fun q u hq hqlen hu j hj => by
      by_cases hc : u = t ∧ j = i
      · rw [hc.1, hc.2, nextTable_even hw, nextTable_even hold]
      · rw [hm u (h.mem hq hu) j hj hc])
    (fun q u j hq hu hodd => by
      obtain ⟨hq', -, hj⟩ := Radix.concat_isPath.mp hq
      by_cases hc : u = t ∧ j = i
      · rw [hc.1, hc.2, hw] at hodd
        simp at hodd
      · rw [hm u (h.mem hq' hu) j hj hc] at hodd ⊢
        exact h.upper q u j hq hu hodd)
    (fun q u j hq hqlen hu hj => by
      have hne := h.last_not_upper hq hp' hqlen hplen hu ht
      rw [hm u (h.mem hq hu) j hj (fun hc => hne hc.1.symm)]
      exact h.leaf q u j hq hqlen hu hj)
  refine ⟨htree, hfind, fun v => ?_⟩
  rw [translate, translate, hfind _ (upperPath_isPath v)]
  cases hu : Radix.find nextTable (tables m) (upperPath v) root with
  | none => rfl
  | some u =>
    simp only [Option.bind_some]
    rw [h.translate_of_upper hp ht hm hu]

/-- A zeroed frame linked at an unused entry of an upper level. -/
theorem link (h : PageTree m root S) (hp : IsPath 512 3 (p ++ [i]))
    (ht : Radix.find nextTable (tables m) p root = some t) (hold : tables m t i % 2 = 0)
    (hg : g ∉ S) (hglt : g < 2 ^ 40) (hflags : flags < 8) (hodd : flags % 2 = 1)
    (hm : ∀ u ∈ S, ∀ j < 512, ¬ (u = t ∧ j = i) → tables m' u j = tables m u j)
    (hw : tables m' t i = g * 4096 + flags) (hzero : ∀ j < 512, tables m' g j = 0) :
    PageTree m' root (insert g S) ∧
      (∀ q, IsPath 512 3 q → Radix.find nextTable (tables m') q root =
        if q = p ++ [i] then some g else Radix.find nextTable (tables m) q root) ∧
      ∀ v, translate m' root v = translate m root v := by
  obtain ⟨hp', hplen, hi⟩ := Radix.concat_isPath.mp hp
  have hnone : nextTable (tables m t i) = none := nextTable_even hold
  have hlink : nextTable (tables m' t i) = some g := by
    rw [hw]
    exact nextTable_entry hglt (by omega) hodd
  have hsame : ∀ u ∈ S, ∀ j < 512, ¬ (u = t ∧ j = i) →
      nextTable (tables m' u j) = nextTable (tables m u j) :=
    fun u hu j hj hc => by rw [hm u hu j hj hc]
  have hempty : ∀ j < 512, nextTable (tables m' g j) = none :=
    fun j hj => nextTable_even (by rw [hzero j hj])
  have hfind : ∀ q, IsPath 512 3 q → Radix.find nextTable (tables m') q root =
      if q = p ++ [i] then some g else Radix.find nextTable (tables m) q root :=
    fun q hq => h.separated.find_linked hp ht hnone hlink hsame hempty hq
  refine ⟨⟨h.separated.linked hp ht hnone hlink hg hsame hempty, ?_, ?_⟩, hfind, ?_⟩
  · intro q u j hq hu hin
    obtain ⟨hq', -, hj⟩ := Radix.concat_isPath.mp hq
    rw [hfind q hq'] at hu
    split_ifs at hu with hqp
    · rw [← Option.some.inj hu, hzero j hj] at hin
      simp at hin
    · by_cases hc : u = t ∧ j = i
      · rw [hc.1, hc.2]
        exact ⟨g, flags, hw, hglt, hflags⟩
      · rw [hm u (h.mem hq' hu) j hj hc] at hin ⊢
        exact h.upper q u j hq hu hin
  · intro q u j hq hqlen hu hj
    rw [hfind q hq] at hu
    split_ifs at hu with hqp
    · exact Or.inl (by rw [← Option.some.inj hu, hzero j hj])
    · have hne := h.last_not_upper hq hp' hqlen hplen hu ht
      rw [hm u (h.mem hq hu) j hj (fun hc => hne hc.1.symm)]
      exact h.leaf q u j hq hqlen hu hj
  · intro v
    rw [translate, translate, hfind _ (upperPath_isPath v)]
    split_ifs with hv
    · rw [hv, Radix.find_concat, ht]
      simp only [Option.bind_some, hnone, Option.bind_none, hzero _ (leafIndex_lt v)]
      rfl
    · cases hu : Radix.find nextTable (tables m) (upperPath v) root with
      | none => rfl
      | some u =>
        simp only [Option.bind_some]
        rw [h.translate_of_upper hp ht hm hu]

end PageTree

end ApoptOS
