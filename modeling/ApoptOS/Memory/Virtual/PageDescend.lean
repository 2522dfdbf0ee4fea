import ApoptOS.Memory.Virtual.PageTree

namespace ApoptOS

open Framework

variable {ρ : Type} (A : PageFrames ρ)

/-- The calls of `vmm_get_or_create_pml` on the way down, one for each index. -/
def getOrCreatePath (flags : Nat) : List Nat → Nat → Kernel ρ → Nat × Kernel ρ
  | [], pml, k => (pml, k)
  | i :: p, pml, k =>
    let r := vmmGetOrCreatePml A k pml i flags
    getOrCreatePath flags p r.1 r.2

/-- The pointer leads to the entries of table `t`. -/
def Points (pml t : Nat) : Prop := ∀ i < 512, pmlEntry pml i = t * 4096 + 8 * i

/-- The frame allocator is in order and the page tables of `root` are in frames it has handed
out. -/
structure VmmState (Holds : Mem → ρ → Set Nat → Prop) (k : Kernel ρ) (root : Nat)
    (S F : Set Nat) : Prop where
  holds : Holds k.mem k.frames F
  tree : PageTree k.mem root S
  held : S ⊆ F

/-- Tables have been added at most: all pages are translated as before. -/
structure Extends (Holds : Mem → ρ → Set Nat → Prop) (k k' : Kernel ρ) (root : Nat)
    (S S' F' : Set Nat) : Prop where
  state : VmmState Holds k' root S' F'
  grown : S ⊆ S'
  same : ∀ v, translate k'.mem root v = translate k.mem root v
  kept : ∀ s ∈ S, ∀ j < 512, tables k.mem s j % 2 = 1 → tables k'.mem s j = tables k.mem s j

variable {A} {U : Set Nat} {Holds : Mem → ρ → Set Nat → Prop} {k k' k'' : Kernel ρ}
  {root t g i pml flags : Nat} {S S' S'' F F' F'' : Set Nat} {p q : List Nat}

theorem points_frame (ht : t < 2 ^ 40) : Points (t * 4096) t := by
  intro i hi
  have hsum : t * 4096 + 8 * i < 2 ^ 53 := by omega
  rw [pmlEntry, add64_of_lt (by omega), physOf_low]
  unfold higherHalfData
  omega

/-- The pointer `PHYS_TO_HIGHER_HALF_DATA` makes for the root table. -/
theorem points_higherHalfData (ht : t < 2 ^ 32) : Points (physToHigherHalfData (t * 4096)) t := by
  intro i hi
  have hadd : add64 (physToHigherHalfData (t * 4096)) (8 * i) =
      physToHigherHalfData (t * 4096 + 8 * i) := by
    unfold physToHigherHalfData higherHalfData
    have hpage : add64 (t * 4096) 0xFFFF800000000000 = t * 4096 + 0xFFFF800000000000 :=
      add64_of_lt (by omega)
    rw [hpage, add64_of_lt (by omega), add64_of_lt (by omega)]
    omega
  rw [pmlEntry, hadd, physOf_higherHalfData (by omega)]

theorem getOrCreatePath_append (flags : Nat) (p q : List Nat) (pml : Nat) (k : Kernel ρ) :
    getOrCreatePath A flags (p ++ q) pml k =
      getOrCreatePath A flags q (getOrCreatePath A flags p pml k).1
        (getOrCreatePath A flags p pml k).2 := by
  induction p generalizing pml k with
  | nil => rfl
  | cons i p ih => exact ih _ _

theorem vmmSetPtValue_eq (k : Kernel ρ) (pageTable virtPage ptValue flags : Nat)
    (patType : PatCache) :
    vmmSetPtValue A k pageTable virtPage ptValue flags patType =
      (getOrCreatePath A flags (upperPath virtPage) pageTable k).2.store64
        (pmlEntry (getOrCreatePath A flags (upperPath virtPage) pageTable k).1
          (leafIndex virtPage)) (ptValue ||| flags ||| vmmPatCacheToFlags patType) := by
  simp only [vmmSetPtValue, index_eq]
  rfl

section Calls

theorem Kernel.Served.of_suffix (h : k'.Served) (hs : k.calls <:+ k'.calls) : k.Served :=
  fun n hn => h n (hs.mem hn)

theorem vmmGetOrCreatePml_calls (pml i flags : Nat) :
    k.calls <:+ (vmmGetOrCreatePml A k pml i flags).2.calls := by
  simp only [vmmGetOrCreatePml]
  split_ifs
  · exact List.suffix_cons _ _
  · exact List.suffix_refl _

theorem getOrCreatePath_calls (flags : Nat) (p : List Nat) (pml : Nat) (k : Kernel ρ) :
    k.calls <:+ (getOrCreatePath A flags p pml k).2.calls := by
  induction p generalizing pml k with
  | nil => exact List.suffix_refl _
  | cons i p ih => exact (vmmGetOrCreatePml_calls pml i flags).trans (ih _ _)

theorem vmmSetPtValue_calls (k : Kernel ρ) (pageTable virtPage ptValue flags : Nat)
    (patType : PatCache) :
    k.calls <:+ (vmmSetPtValue A k pageTable virtPage ptValue flags patType).calls := by
  rw [vmmSetPtValue_eq, Kernel.store64_calls]
  exact getOrCreatePath_calls _ _ _ _

end Calls

section OneLevel

theorem load64_pmlEntry (hpml : Points pml t) (hi : i < 512) (m : Mem) :
    m.load64 (pmlEntry pml i) = tables m t i := by
  rw [hpml i hi, tables]

/-- The mask takes the flags of an entry away. -/
theorem entry_mask {f flags : Nat} (hf : f < 2 ^ 40) (hflags : flags < 8) :
    (f * 4096 + flags) &&& (2 ^ 64 - 512) = f * 4096 := by
  have hmask : (2 ^ 64 - 512 : Nat) = (2 ^ 55 - 1) * 2 ^ 9 := by norm_num
  rw [hmask, land_highMask (k := 9) (w := 55) (by omega)]
  omega

/-- An entry in use is followed. -/
theorem vmmGetOrCreatePml_present (hpml : Points pml t) (hi : i < 512)
    (hw : tables k.mem t i % 2 = 1) :
    vmmGetOrCreatePml A k pml i flags = (tables k.mem t i &&& (2 ^ 64 - 512), k) := by
  have hbit : ¬ k.mem.load64 (pmlEntry pml i) &&& 1 = 0 := by
    rw [load64_pmlEntry hpml hi, Nat.and_one_is_mod]
    omega
  simp only [vmmGetOrCreatePml, if_neg hbit]
  rw [load64_pmlEntry hpml hi]

/-- For an entry not in use a frame is requested, and whatever the answer is goes into the
entry. -/
theorem vmmGetOrCreatePml_absent (flags : Nat) (hpml : Points pml t) (hi : i < 512)
    (hw : tables k.mem t i % 2 = 0) :
    vmmGetOrCreatePml A k pml i flags =
      ((((k.pmmAllocz A 1).1 ||| flags) % 2 ^ 64) &&& (2 ^ 64 - 512),
        (k.pmmAllocz A 1).2.store64 (t * 4096 + 8 * i) ((k.pmmAllocz A 1).1 ||| flags)) := by
  have hbit : k.mem.load64 (pmlEntry pml i) &&& 1 = 0 := by
    rw [load64_pmlEntry hpml hi, Nat.and_one_is_mod]
    exact hw
  simp only [vmmGetOrCreatePml, if_pos hbit, Kernel.store64_mem, Mem.load64_store64_same]
  rw [hpml i hi]

/-- If all requests on the way down are served, so is the first. -/
theorem request_served (hpml : Points pml t) (hi : i < 512) (hw : tables k.mem t i % 2 = 0)
    (hs : (getOrCreatePath A flags q (vmmGetOrCreatePml A k pml i flags).1
      (vmmGetOrCreatePml A k pml i flags).2).2.Served) : (k.pmmAllocz A 1).1 ≠ 0 := by
  intro hnull
  rw [vmmGetOrCreatePml_absent _ hpml hi hw] at hs
  refine hs.of_suffix (getOrCreatePath_calls _ _ _ _) 1 ?_
  rw [Kernel.store64_calls]
  simp only [Kernel.pmmAllocz] at hnull ⊢
  rw [hnull]
  exact List.mem_cons_self

end OneLevel

/-- A write of a client into a frame it holds. -/
theorem PageFrames.Lawful.store (hA : A.Lawful U Holds) {m : Mem} {r : ρ} (hh : Holds m r F)
    (ht : t ∈ F) (hi : i < 512) (w : Nat) : Holds (m.store64 (t * 4096 + 8 * i) w) r F := by
  refine hA.client_writes _ _ _ _ hh (fun x hx => Mem.store64_outside _ _ ?_)
  by_contra hin
  have hxt : x / 4096 = t := by omega
  exact hx (mem_frameBytes.mpr (hxt ▸ hA.subset _ _ _ hh ht))

/-- What a request that is served brings. -/
theorem PageFrames.Lawful.served (hA : A.Lawful U Holds) (hh : Holds k.mem k.frames F)
    (hne : (k.pmmAllocz A 1).1 ≠ 0) :
    ∃ f, f ∈ U ∧ f ∉ F ∧ f ≠ 0 ∧ f < 2 ^ 40 ∧ (k.pmmAllocz A 1).1 = f * 4096 ∧
      Holds (k.pmmAllocz A 1).2.mem (k.pmmAllocz A 1).2.frames (insert f F) ∧
      Mem.SameOn (frameBytes F) k.mem (k.pmmAllocz A 1).2.mem ∧
      (∀ j < 512, tables (k.pmmAllocz A 1).2.mem f j = 0) := by
  rcases hA.allocz_one _ _ _ hh with ⟨hnull, -, -⟩ | ⟨f, hf, hfF, hh', hsame, hzero⟩
  · exact absurd hnull hne
  · have hfU := hA.subset _ _ _ hh' (Set.mem_insert f F)
    obtain ⟨hf0, hflt⟩ := hA.managed f hfU
    exact ⟨f, hfU, hfF, hf0, hflt, hf, hh', hsame, fun j hj => tables_zero hzero hj⟩

/-- The memory after a served request whose frame is put into an entry: nothing else of the
held frames changes. -/
theorem PageFrames.Lawful.getOrCreate (hA : A.Lawful U Holds) (hh : Holds k.mem k.frames F)
    (ht : t ∈ F) (hi : i < 512) (hpml : Points pml t) (hw : tables k.mem t i % 2 = 0)
    (hflags : flags < 8) (hne : (k.pmmAllocz A 1).1 ≠ 0) :
    ∃ f k', f ∈ U ∧ f ∉ F ∧ f < 2 ^ 40 ∧
      vmmGetOrCreatePml A k pml i flags = (f * 4096, k') ∧
      k'.calls = .allocz 1 (f * 4096) :: k.calls ∧ (k.pmmAllocz A 1).1 = f * 4096 ∧
      Holds k'.mem k'.frames (insert f F) ∧
      tables k'.mem t i = f * 4096 + flags ∧
      (∀ s ∈ F, ∀ j < 512, ¬ (s = t ∧ j = i) → tables k'.mem s j = tables k.mem s j) ∧
      ∀ j < 512, tables k'.mem f j = 0 := by
  obtain ⟨f, hfU, hfF, -, hflt, hf, hh', hsame, hzero⟩ := hA.served hh hne
  have hft : f ≠ t := fun hc => hfF (hc ▸ ht)
  have hword : f * 4096 ||| flags = f * 4096 + flags := entry_lor (by omega)
  have hsmall : (f * 4096 + flags) % 2 ^ 64 = f * 4096 + flags := Nat.mod_eq_of_lt (by omega)
  refine ⟨f, (k.pmmAllocz A 1).2.store64 (t * 4096 + 8 * i) (f * 4096 + flags), hfU, hfF, hflt,
    ?_, ?_, hf, ?_, ?_, ?_, ?_⟩
  · rw [vmmGetOrCreatePml_absent _ hpml hi hw, hf, hword, hsmall, entry_mask hflt hflags]
  · rw [Kernel.store64_calls]
    simp only [Kernel.pmmAllocz] at hf ⊢
    rw [hf]
  · exact hA.store hh' (Set.mem_insert_of_mem f ht) hi _
  · rw [Kernel.store64_mem, tables_store hi hi, if_pos ⟨rfl, rfl⟩, hsmall]
  · intro s hs j hj hne'
    rw [Kernel.store64_mem, tables_store hi hj, if_neg hne']
    exact tables_sameOn hsame hs hj
  · intro j hj
    rw [Kernel.store64_mem, tables_store hi hj, if_neg (fun hc => hft hc.1), hzero j hj]

namespace Extends

theorem refl (h : VmmState Holds k root S F) : Extends Holds k k root S S F :=
  ⟨h, subset_refl S, fun _ => rfl, fun _ _ _ _ _ => rfl⟩

theorem trans (h : Extends Holds k k' root S S' F') (h' : Extends Holds k' k'' root S' S'' F'') :
    Extends Holds k k'' root S S'' F'' := by
  refine ⟨h'.state, h.grown.trans h'.grown, fun v => (h'.same v).trans (h.same v), ?_⟩
  intro s hs j hj hodd
  have hkept := h.kept s hs j hj hodd
  rw [h'.kept s (h.grown hs) j hj (by rw [hkept]; exact hodd), hkept]

end Extends

namespace VmmState

/-- The entry in use on the path leads to the next table. -/
theorem getOrCreate_present (h : VmmState Holds k root S F) (flags : Nat)
    (hp : IsPath 512 3 (p ++ [i]))
    (ht : Radix.find nextTable (tables k.mem) p root = some t) (hpml : Points pml t)
    (hw : tables k.mem t i % 2 = 1) :
    ∃ u, vmmGetOrCreatePml A k pml i flags = (u * 4096, k) ∧ u < 2 ^ 40 ∧
      nextTable (tables k.mem t i) = some u ∧
      Radix.find nextTable (tables k.mem) (p ++ [i]) root = some u := by
  obtain ⟨-, -, hi⟩ := Radix.concat_isPath.mp hp
  obtain ⟨u, flags', hentry, hu, hflags', hnext⟩ := h.tree.next hp ht hw
  refine ⟨u, ?_, hu, hnext, ?_⟩
  · rw [vmmGetOrCreatePml_present hpml hi hw, hentry, entry_mask hu hflags']
  · rw [Radix.find_concat, ht]
    exact hnext

/-- Flags with the present bit: the next table is there, new or not. -/
theorem getOrCreate_link (hA : A.Lawful U Holds) (h : VmmState Holds k root S F)
    (hp : IsPath 512 3 (p ++ [i])) (ht : Radix.find nextTable (tables k.mem) p root = some t)
    (hpml : Points pml t) (hw : tables k.mem t i % 2 = 0) (hflags : flags < 8)
    (hodd : flags % 2 = 1) (hne : (k.pmmAllocz A 1).1 ≠ 0) :
    ∃ f k', f ∉ F ∧ f < 2 ^ 40 ∧ vmmGetOrCreatePml A k pml i flags = (f * 4096, k') ∧
      k'.calls = .allocz 1 (f * 4096) :: k.calls ∧
      Extends Holds k k' root S (insert f S) (insert f F) ∧
      Radix.find nextTable (tables k'.mem) (p ++ [i]) root = some f ∧
      tables k'.mem t i = f * 4096 + flags ∧ nextTable (tables k'.mem t i) = some f ∧
      ∀ j < 512, tables k'.mem f j = 0 := by
  obtain ⟨hp', -, hi⟩ := Radix.concat_isPath.mp hp
  have htF := h.held (h.tree.mem hp' ht)
  obtain ⟨f, k', -, hfF, hflt, hget, hcalls, -, hh', hentry, hsame, hzero⟩ :=
    hA.getOrCreate h.holds htF hi hpml hw hflags hne
  have hfS : f ∉ S := fun hc => hfF (h.held hc)
  obtain ⟨htree, hfind, htrans⟩ := h.tree.link hp ht hw hfS hflt hflags hodd
    (fun s hs j hj hne' => hsame s (h.held hs) j hj hne') hentry hzero
  have hnext : nextTable (tables k'.mem t i) = some f := by
    rw [hentry]
    exact nextTable_entry hflt (by omega) hodd
  refine ⟨f, k', hfF, hflt, hget, hcalls, ⟨⟨hh', htree, Set.insert_subset_insert h.held⟩,
    Set.subset_insert f S, htrans, ?_⟩, ?_, hentry, hnext, hzero⟩
  · intro s hs j hj hin
    refine hsame s (h.held hs) j hj ?_
    rintro ⟨rfl, rfl⟩
    omega
  · rw [hfind _ hp, if_pos rfl]

/-- The way down with the present bit among the flags, all requests served: the path ends at a
table of the last level, and rights which the flags have are neither gained nor lost on it. -/
theorem getOrCreatePath_link (hA : A.Lawful U Holds) (h : VmmState Holds k root S F)
    (hp : IsPath 512 3 (p ++ q)) (ht : Radix.find nextTable (tables k.mem) p root = some t)
    (hpml : Points pml t) (hflags : flags < 8) (hodd : flags % 2 = 1)
    (hs : (getOrCreatePath A flags q pml k).2.Served) :
    ∃ S' F' u, Extends Holds k (getOrCreatePath A flags q pml k).2 root S S' F' ∧
      Points (getOrCreatePath A flags q pml k).1 u ∧
      Radix.find nextTable (tables (getOrCreatePath A flags q pml k).2.mem) (p ++ q) root =
        some u ∧
      ∀ P : Nat → Prop, (∀ f, P (f * 4096 + flags)) →
        (Radix.Along nextTable (tables (getOrCreatePath A flags q pml k).2.mem) P q t ↔
          Radix.Along nextTable (tables k.mem) P q t) := by
  induction q generalizing p t pml k S F with
  | nil =>
    rw [List.append_nil]
    exact ⟨S, F, t, Extends.refl h, hpml, ht, fun P _ => Iff.rfl⟩
  | cons i q ih =>
    have hsplit : p ++ i :: q = (p ++ [i]) ++ q := by simp
    rw [hsplit] at hp ⊢
    have hpi := (Radix.append_isPath hp).1
    obtain ⟨hp', -, hi⟩ := Radix.concat_isPath.mp hpi
    have htS := h.tree.mem hp' ht
    simp only [getOrCreatePath] at hs ⊢
    by_cases hw : tables k.mem t i % 2 = 1
    · obtain ⟨u, hget, hu, hnext, hfind⟩ := h.getOrCreate_present (A := A) flags
        hpi ht hpml hw
      rw [hget] at hs ⊢
      obtain ⟨S', F', x, hext, hx, hlast, halong⟩ := ih h hp hfind (points_frame hu) hs
      refine ⟨S', F', x, hext, hx, hlast, fun P hP => ?_⟩
      have hkept := hext.kept t htS i hi hw
      simp only [Radix.Along, hkept, hnext, Option.some.injEq, forall_eq']
      rw [halong P hP]
    · have hw' : tables k.mem t i % 2 = 0 := by omega
      have hne : (k.pmmAllocz A 1).1 ≠ 0 := request_served hpml hi hw' hs
      obtain ⟨f, k', hfF, hflt, hget, -, hext', hfind, hentry, hnext, hzero⟩ :=
        h.getOrCreate_link hA hpi ht hpml hw' hflags hodd hne
      rw [hget] at hs ⊢
      obtain ⟨S', F', x, hext, hx, hlast, halong⟩ :=
        ih hext'.state hp hfind (points_frame hflt) hs
      refine ⟨S', F', x, hext'.trans hext, hx, hlast, fun P hP => ?_⟩
      -- below the new table there is nothing yet, and its entry has the flags
      have hin : tables k'.mem t i % 2 = 1 := by rw [hentry]; omega
      have hkept := hext.kept t (hext'.grown htS) i hi hin
      have hnew : Radix.Along nextTable (tables k'.mem) P q f := by
        cases q with
        | nil => trivial
        | cons j q =>
          have hj : j < 512 := hp.2 j (by simp)
          intro x hx
          rw [hzero j hj, nextTable_even rfl] at hx
          simp at hx
      have hold : nextTable (tables k.mem t i) = none := nextTable_even hw'
      simp only [Radix.Along, hkept, hnext, hold, Option.some.injEq, forall_eq']
      rw [halong P hP, hentry]
      simp only [hP f, hnew, and_self, true_iff]
      intro x hx
      simp at hx

/-- The way down over tables that are all there changes nothing and requests nothing. -/
theorem getOrCreatePath_present (h : VmmState Holds k root S F) (flags : Nat)
    (hp : IsPath 512 3 (p ++ q))
    (ht : Radix.find nextTable (tables k.mem) p root = some t) (hpml : Points pml t) {u : Nat}
    (hu : Radix.find nextTable (tables k.mem) (p ++ q) root = some u) :
    (getOrCreatePath A flags q pml k).2 = k ∧ Points (getOrCreatePath A flags q pml k).1 u := by
  induction q generalizing p t pml with
  | nil =>
    rw [List.append_nil, ht] at hu
    exact ⟨rfl, Option.some.inj hu ▸ hpml⟩
  | cons i q ih =>
    have hsplit : p ++ i :: q = (p ++ [i]) ++ q := by simp
    rw [hsplit] at hp hu
    have hpi := (Radix.append_isPath hp).1
    have hw : tables k.mem t i % 2 = 1 := by
      by_contra hw
      rw [Radix.find_append, Radix.find_concat, ht] at hu
      have hold : nextTable (tables k.mem t i) = none := nextTable_even (by omega)
      simp [hold] at hu
    obtain ⟨x, hget, hx, -, hfind⟩ := h.getOrCreate_present (A := A) flags hpi ht hpml hw
    simp only [getOrCreatePath, hget]
    exact ih hp hfind (points_frame hx) hu

/-- The memory changed outside the tables only. -/
theorem extends_off (h : VmmState Holds k root S F) (k' : Kernel ρ)
    (hh : Holds k'.mem k'.frames F')
    (hF : F ⊆ F') (hsame : ∀ s ∈ S, ∀ j < 512, tables k'.mem s j = tables k.mem s j) :
    Extends Holds k k' root S S F' := by
  obtain ⟨htree, -, htrans⟩ := h.tree.congr hsame
  exact ⟨⟨hh, htree, h.held.trans hF⟩, subset_refl S, htrans, fun s hs j hj _ =>
    hsame s hs j hj⟩

/-- Without the present bit the way down goes on in frames that are not part of the tree. -/
theorem getOrCreatePath_off (hA : A.Lawful U Holds) (h : VmmState Holds k root S F)
    (hgF : g ∈ F) (hgS : g ∉ S) (hzero : ∀ j < 512, tables k.mem g j = 0)
    (hpml : Points pml g)
    (hq : ∀ i ∈ q, i < 512) (hs : (getOrCreatePath A 0 q pml k).2.Served) :
    ∃ F' u, Extends Holds k (getOrCreatePath A 0 q pml k).2 root S S F' ∧
      Points (getOrCreatePath A 0 q pml k).1 u ∧ u ∈ F' ∧ u ∉ S := by
  induction q generalizing g pml k F with
  | nil => exact ⟨F, g, Extends.refl h, hpml, hgF, hgS⟩
  | cons i q ih =>
    have hi : i < 512 := hq i List.mem_cons_self
    have hw : tables k.mem g i % 2 = 0 := by rw [hzero i hi]
    simp only [getOrCreatePath] at hs ⊢
    have hne : (k.pmmAllocz A 1).1 ≠ 0 := request_served hpml hi hw hs
    obtain ⟨f, k', -, hfF, hflt, hget, -, -, hh', -, hsame, hzero'⟩ :=
      hA.getOrCreate h.holds hgF hi hpml hw (by decide : 0 < 8) hne
    have hfS : f ∉ S := fun hc => hfF (h.held hc)
    have hext := h.extends_off k' hh' (Set.subset_insert f F) (fun s hs j hj =>
      hsame s (h.held hs) j hj (fun hc => hgS (hc.1 ▸ hs)))
    rw [hget] at hs ⊢
    obtain ⟨F', u, hext', hu, huF, huS⟩ := ih hext.state (Set.mem_insert f F) hfS hzero'
      (points_frame hflt) (fun j hj => hq j (List.mem_cons_of_mem i hj)) hs
    exact ⟨F', u, hext.trans hext', hu, huF, huS⟩

/-- Without the present bit, at an entry not in use: frames are taken but not linked. -/
theorem getOrCreatePath_unused (hA : A.Lawful U Holds) (h : VmmState Holds k root S F)
    (hp : IsPath 512 3 (p ++ i :: q)) (ht : Radix.find nextTable (tables k.mem) p root = some t)
    (hpml : Points pml t) (hw : tables k.mem t i % 2 = 0)
    (hs : (getOrCreatePath A 0 (i :: q) pml k).2.Served) :
    ∃ F' u, Extends Holds k (getOrCreatePath A 0 (i :: q) pml k).2 root S S F' ∧
      Points (getOrCreatePath A 0 (i :: q) pml k).1 u ∧ u ∈ F' ∧ u ∉ S := by
  have hsplit : p ++ i :: q = (p ++ [i]) ++ q := by simp
  rw [hsplit] at hp
  have hpi := (Radix.append_isPath hp).1
  obtain ⟨hp', -, hi⟩ := Radix.concat_isPath.mp hpi
  have htF := h.held (h.tree.mem hp' ht)
  simp only [getOrCreatePath] at hs ⊢
  have hne : (k.pmmAllocz A 1).1 ≠ 0 := request_served hpml hi hw hs
  obtain ⟨f, k', -, hfF, hflt, hget, -, -, hh', hentry, hsame, hzero⟩ :=
    hA.getOrCreate h.holds htF hi hpml hw (by decide : 0 < 8) hne
  have hfS : f ∉ S := fun hc => hfF (h.held hc)
  obtain ⟨htree, -, htrans⟩ := h.tree.update_unused hpi ht hw
    (fun s hs j hj hne' => hsame s (h.held hs) j hj hne') (by rw [hentry]; omega)
  have hstate : VmmState Holds k' root S (insert f F) :=
    ⟨hh', htree, h.held.trans (Set.subset_insert f F)⟩
  have hext : Extends Holds k k' root S S (insert f F) := by
    refine ⟨hstate, subset_refl S, htrans, fun s hs j hj hin => hsame s (h.held hs) j hj ?_⟩
    rintro ⟨rfl, rfl⟩
    omega
  rw [hget] at hs ⊢
  obtain ⟨F', u, hext', hu, huF, huS⟩ := hstate.getOrCreatePath_off hA (Set.mem_insert f F) hfS
    hzero (points_frame hflt) (fun j hj => hp.2 j (List.mem_append_right _ hj)) hs
  exact ⟨F', u, hext.trans hext', hu, huF, huS⟩

end VmmState

end ApoptOS
