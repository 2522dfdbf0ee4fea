import ApoptOS.Memory.Virtual.PageRefused

namespace ApoptOS

open Framework

variable {ρ : Type} {A : PageFrames ρ} {U F S S' F' : Set Nat}
  {Holds : Mem → ρ → Set Nat → Prop}
  {k k' : Kernel ρ} {pageTable root t i pml flags virt phys : Nat} {p q : List Nat}
  {P : Set (List Nat)} {pages : List Nat}

theorem nextTable_some {w : Nat} (h : nextTable w = some t) : w % 2 = 1 := by
  unfold nextTable at h
  split_ifs at h with hbits
  exact hbits.1

/-- Tables that are found are still found after more have been added. -/
theorem Extends.find (hext : Extends Holds k k' root S S' F') (h : VmmState Holds k root S F)
    (hp : IsPath 512 3 p) (ht : Radix.find nextTable (tables k.mem) p root = some t) :
    Radix.find nextTable (tables k'.mem) p root = some t := by
  induction p using List.reverseRecOn generalizing t with
  | nil => exact ht
  | append_singleton p i ih =>
    obtain ⟨hp', -, hi⟩ := Radix.concat_isPath.mp hp
    rw [Radix.find_concat] at ht ⊢
    cases hu : Radix.find nextTable (tables k.mem) p root with
    | none =>
      rw [hu] at ht
      simp at ht
    | some u =>
      rw [hu, Option.bind_some] at ht
      rw [ih hp' hu, Option.bind_some,
        hext.kept u (h.tree.mem hp' hu) i hi (nextTable_some ht), ht]

/-- The frames held are the tables of `root`, each behind a path of `P`. -/
structure TablesWithin (Holds : Mem → ρ → Set Nat → Prop) (k : Kernel ρ) (root : Nat)
    (P : Set (List Nat)) (F : Set Nat) : Prop where
  state : VmmState Holds k root F F
  behind : ∀ t ∈ F, ∃ p ∈ P, IsPath 512 3 p ∧
    Radix.find nextTable (tables k.mem) p root = some t

namespace TablesWithin

/-- There are no more tables than paths. -/
theorem encard_le (h : TablesWithin Holds k root P F) : F.encard ≤ P.encard := by
  have hsub : F ⊆ (fun p => (Radix.find nextTable (tables k.mem) p root).getD 0) '' P := by
    intro t ht
    obtain ⟨p, hp, -, hfind⟩ := h.behind t ht
    exact ⟨p, hp, by simp only [hfind, Option.getD_some]⟩
  exact (Set.encard_le_encard hsub).trans (Set.encard_image_le _ P)

theorem extend (h : TablesWithin Holds k root P F) {f : Nat}
    (hext : Extends Holds k k' root F (insert f F) (insert f F)) (hp : p ∈ P)
    (hpath : IsPath 512 3 p) (hfind : Radix.find nextTable (tables k'.mem) p root = some f) :
    TablesWithin Holds k' root P (insert f F) := by
  refine ⟨hext.state, fun t ht => ?_⟩
  rcases ht with rfl | ht
  · exact ⟨p, hp, hpath, hfind⟩
  · obtain ⟨q, hq, hqpath, hqfind⟩ := h.behind t ht
    exact ⟨q, hq, hqpath, hext.find h.state hqpath hqfind⟩

/-- With more frames than paths all requests on the way down are served. -/
theorem descend (hA : A.Lawful U Holds) (hfull : A.Complete U Holds)
    (hroom : P.encard < U.encard) (h : TablesWithin Holds k root P F)
    (hp : IsPath 512 3 (p ++ q)) (hP : ∀ r, r <+: p ++ q → r ∈ P)
    (ht : Radix.find nextTable (tables k.mem) p root = some t) (hpml : Points pml t)
    (hflags : flags < 8) (hodd : flags % 2 = 1) (hs : k.Served) :
    ∃ F' u, (getOrCreatePath A flags q pml k).2.Served ∧
      TablesWithin Holds (getOrCreatePath A flags q pml k).2 root P F' ∧
      Points (getOrCreatePath A flags q pml k).1 u ∧
      Radix.find nextTable (tables (getOrCreatePath A flags q pml k).2.mem) (p ++ q) root =
        some u := by
  induction q generalizing p t pml k F with
  | nil =>
    rw [List.append_nil]
    exact ⟨F, t, hs, h, hpml, ht⟩
  | cons i q ih =>
    have hsplit : p ++ i :: q = (p ++ [i]) ++ q := by simp
    rw [hsplit] at hp hP ⊢
    have hpi := (Radix.append_isPath hp).1
    simp only [getOrCreatePath]
    by_cases hw : tables k.mem t i % 2 = 1
    · obtain ⟨u, hget, hu, -, hfind⟩ :=
        h.state.getOrCreate_present (A := A) flags hpi ht hpml hw
      rw [hget]
      exact ih h hp hP hfind (points_frame hu) hs
    · have hne : (k.pmmAllocz A 1).1 ≠ 0 := by
        intro hnull
        have hFU : F = U := hfull _ _ _ h.state.holds hnull
        exact absurd (h.encard_le.trans_lt hroom) (by rw [hFU]; exact lt_irrefl _)
      obtain ⟨f, k', -, hflt, hget, hcalls, hext, hfind, -, -, -⟩ :=
        h.state.getOrCreate_link hA hpi ht hpml (by omega) hflags hodd hne
      have hserved : k'.Served := by
        intro n hn
        rw [hcalls, List.mem_cons] at hn
        rcases hn with heq | hmem
        · injection heq with _ hnull
          have hf := hA.managed f (hA.subset _ _ _ hext.state.holds (Set.mem_insert f F))
          omega
        · exact hs n hmem
      rw [hget]
      exact ih (h.extend hext (hP _ (List.prefix_append _ _)) hpi hfind) hp hP hfind
        (points_frame hflt) hserved

/-- With more frames than paths `vmm_map_page` gets all the tables it asks for. -/
theorem map_page (hA : A.Lawful U Holds) (hfull : A.Complete U Holds)
    (hroom : P.encard < U.encard) (h : TablesWithin Holds k root P F)
    (hptr : Points pageTable root) (hphys : phys % 4096 = 0) (hlt : phys < 2 ^ 52)
    (hvirt : virt < 2 ^ 64) (hP : ∀ r, r <+: upperPath virt → r ∈ P)
    (privilege : MapPrivilege) (pat : PatCache) (hs : k.Served) :
    (vmmMapPage A k pageTable phys virt privilege.flags pat).Served ∧
      ∃ F', TablesWithin Holds (vmmMapPage A k pageTable phys virt privilege.flags pat)
        root P F' := by
  obtain ⟨hflags, hodd⟩ := leafFlags privilege pat
  have hpath := upperPath_isPath virt
  obtain ⟨F', u, hserved, hwithin, hu, hlast⟩ := h.descend (p := []) hA hfull hroom hpath hP rfl
    hptr privilege.flags_lt privilege.flags_odd hs
  obtain ⟨hstate, -, hfind, -⟩ := hwithin.state.store_leaf hA hu hlast
    (w := phys + (privilege.flags ||| vmmPatCacheToFlags pat)) (by omega) (Or.inr (by omega))
  rw [vmmMapPage, vmmSetPtValue_eq, upperPath_alignDown hvirt, leafIndex_alignDown hvirt,
    leafWord hphys]
  refine ⟨hserved, F', hstate, fun t ht => ?_⟩
  obtain ⟨p, hp, hppath, hpfind⟩ := hwithin.behind t ht
  exact ⟨p, hp, hppath, (hfind p hppath).trans hpfind⟩

/-- The same for a loop over pages. -/
theorem map_pages (hA : A.Lawful U Holds) (hfull : A.Complete U Holds)
    (hroom : P.encard < U.encard) (h : TablesWithin Holds k root P F)
    (hptr : Points pageTable root) (offset : Nat)
    (hpages : ∀ i ∈ pages, i < 2 ^ 52 ∧ i % 4096 = 0)
    (hP : ∀ i ∈ pages, ∀ r, r <+: upperPath (add64 i offset) → r ∈ P)
    (privilege : MapPrivilege) (pat : PatCache) (hs : k.Served) :
    (pages.foldl (fun k i =>
        vmmMapPage A k pageTable i (add64 i offset) privilege.flags pat) k).Served ∧
      ∃ F', TablesWithin Holds (pages.foldl (fun k i =>
        vmmMapPage A k pageTable i (add64 i offset) privilege.flags pat) k) root P F' := by
  induction pages generalizing k F with
  | nil => exact ⟨hs, F, h⟩
  | cons i pages ih =>
    obtain ⟨hlt, hmod⟩ := hpages i List.mem_cons_self
    obtain ⟨hserved, F', hwithin⟩ := h.map_page hA hfull hroom hptr hmod hlt
      (add64_lt i offset) (hP i List.mem_cons_self) privilege pat hs
    exact ih hwithin (fun j hj => hpages j (List.mem_cons_of_mem i hj))
      (fun j hj => hP j (List.mem_cons_of_mem i hj)) hserved

end TablesWithin

/-- Prefixes of paths of length three: at most four for each path. -/
theorem encard_prefixes_le (Q : Finset (List Nat)) (hQ : ∀ p ∈ Q, p.length = 3)
    (hP : ∀ r ∈ P, ∃ p ∈ Q, r <+: p) : P.encard ≤ ((Q.card * 4 : Nat) : ℕ∞) := by
  have hsub : P ⊆
      ((Q ×ˢ Finset.range 4).image (fun x => x.1.take x.2) : Finset (List Nat)) := by
    intro r hr
    obtain ⟨p, hp, hpre⟩ := hP r hr
    have hlen := hpre.length_le
    rw [hQ p hp] at hlen
    rw [Finset.mem_coe, Finset.mem_image]
    exact ⟨(p, r.length), by simp [hp]; omega, (List.prefix_iff_eq_take.mp hpre).symm⟩
  refine (Set.encard_le_encard hsub).trans ?_
  rw [Set.encard_coe_eq_coe_finsetCard]
  exact_mod_cast Finset.card_image_le.trans (by rw [Finset.card_product, Finset.card_range])

end ApoptOS
