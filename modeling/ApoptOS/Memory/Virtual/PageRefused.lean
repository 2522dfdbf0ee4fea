import ApoptOS.Memory.Virtual.VmmRange

namespace ApoptOS

open Framework

variable {ρ : Type} (A : PageFrames ρ)

/-- The store `vmm_get_or_create_pml` makes into an entry, if it makes one: address and value. -/
def pmlStores (k : Kernel ρ) (pml pmlIndex flags : Nat) : List (Nat × Nat) :=
  if k.mem.load64 (pmlEntry pml pmlIndex) &&& 1 = 0 then
    [(pmlEntry pml pmlIndex, (k.pmmAllocz A 1).1 ||| flags)]
  else []

/-- The stores on the way down. -/
def pathStores (flags : Nat) : List Nat → Nat → Kernel ρ → List (Nat × Nat)
  | [], _, _ => []
  | i :: p, pml, k =>
    let r := vmmGetOrCreatePml A k pml i flags
    pmlStores A k pml i flags ++ pathStores flags p r.1 r.2

/-- The store of `vmm_set_pt_value` into the last level. -/
def leafStore (k : Kernel ρ) (pageTable virtPage ptValue flags : Nat) (patType : PatCache) :
    Nat × Nat :=
  (pmlEntry (getOrCreatePath A flags (upperPath virtPage) pageTable k).1 (leafIndex virtPage),
    ptValue ||| flags ||| vmmPatCacheToFlags patType)

/-- An entry in use for frame 0. -/
def NamesFrameZero (w : Nat) : Prop := w % 2 = 1 ∧ w / 4096 % 2 ^ 40 = 0

/-- The store is outside frame 0 and does not put frame 0 to use. -/
def SparesFrameZero (s : Nat × Nat) : Prop := 4096 ≤ s.1 ∧ ¬ NamesFrameZero s.2

/-- Writing the entry of `virtPage` neither puts frame 0 to use as a table, nor maps it unless it
is the page asked for, nor stores an entry into it, and leaves all other pages alone. -/
structure SetsSafely (k : Kernel ρ) (pageTable root virtPage ptValue flags : Nat)
    (patType : PatCache) : Prop where
  upper : ∀ s ∈ pathStores A flags (upperPath virtPage) pageTable k, SparesFrameZero s
  leaf : 4096 ≤ (leafStore A k pageTable virtPage ptValue flags patType).1
  mapped : ptValue ≠ 0 →
    ¬ NamesFrameZero (leafStore A k pageTable virtPage ptValue flags patType).2
  others : ∀ v, CanonicalPage v → v ≠ virtPage →
    translate (vmmSetPtValue A k pageTable virtPage ptValue flags patType).mem root v =
      translate k.mem root v

/-- What `pmm_allocz` does when it has no frame: the memory it zeroes is that at `NULL`. -/
def PageFrames.ZeroesNull : Prop :=
  ∀ m r, (A.allocz 1 m r).1 = 0 → ∀ a < 4096, (A.allocz 1 m r).2.1 a = 0#8

variable {A} {U : Set Nat} {Holds : Mem → ρ → Set Nat → Prop} {k k' : Kernel ρ}
  {pageTable root t g i pml flags virt phys : Nat} {S F : Set Nat} {p q : List Nat}
  {pat : PatCache} {privilege : MapPrivilege}

theorem pmmFrames_zeroesNull : pmmFrames.ZeroesNull := by
  intro m r hnull a ha
  have hnull' : (pmmAlloc 1 m r).1 = 0 := hnull
  have hbytes : pageSize * 1 % 2 ^ 64 = 4096 := by decide
  simp only [pmmFrames, pmmAllocz, hnull', hbytes]
  exact Mem.memset_inside _ (Nat.zero_le a) (by omega)

/-- The stores are those the code makes. -/
theorem vmmGetOrCreatePml_stores (k : Kernel ρ) (pml i flags : Nat) :
    (vmmGetOrCreatePml A k pml i flags).2 =
      (pmlStores A k pml i flags).foldl (fun _ s => (k.pmmAllocz A 1).2.store64 s.1 s.2) k := by
  unfold vmmGetOrCreatePml pmlStores
  split_ifs <;> rfl

theorem vmmSetPtValue_leafStore (k : Kernel ρ) (pageTable virtPage ptValue flags : Nat)
    (patType : PatCache) :
    vmmSetPtValue A k pageTable virtPage ptValue flags patType =
      (getOrCreatePath A flags (upperPath virtPage) pageTable k).2.store64
        (leafStore A k pageTable virtPage ptValue flags patType).1
        (leafStore A k pageTable virtPage ptValue flags patType).2 :=
  vmmSetPtValue_eq _ _ _ _ _ _

theorem pathStores_append (flags : Nat) (p q : List Nat) (pml : Nat) (k : Kernel ρ) :
    pathStores A flags (p ++ q) pml k = pathStores A flags p pml k ++
      pathStores A flags q (getOrCreatePath A flags p pml k).1
        (getOrCreatePath A flags p pml k).2 := by
  induction p generalizing pml k with
  | nil => rfl
  | cons i p ih =>
    simp only [List.cons_append, pathStores, getOrCreatePath, List.append_assoc]
    rw [ih]

theorem pmlStores_present (hpml : Points pml t) (hi : i < 512) (hw : tables k.mem t i % 2 = 1) :
    pmlStores A k pml i flags = [] := by
  rw [pmlStores, if_neg]
  rw [load64_pmlEntry hpml hi, Nat.and_one_is_mod]
  omega

theorem pmlStores_absent (hpml : Points pml t) (hi : i < 512) (hw : tables k.mem t i % 2 = 0) :
    pmlStores A k pml i flags = [(t * 4096 + 8 * i, (k.pmmAllocz A 1).1 ||| flags)] := by
  rw [pmlStores, if_pos, hpml i hi]
  rw [load64_pmlEntry hpml hi, Nat.and_one_is_mod]
  exact hw

/-- No stores on the part of the way down that is there. -/
theorem VmmState.pathStores_present (h : VmmState Holds k root S F) (flags : Nat)
    (hp : IsPath 512 3 (p ++ q))
    (ht : Radix.find nextTable (tables k.mem) p root = some t) (hpml : Points pml t) {u : Nat}
    (hu : Radix.find nextTable (tables k.mem) (p ++ q) root = some u) :
    pathStores A flags q pml k = [] := by
  induction q generalizing p t pml with
  | nil => rfl
  | cons i q ih =>
    have hsplit : p ++ i :: q = (p ++ [i]) ++ q := by simp
    rw [hsplit] at hp hu
    have hpi := (Radix.append_isPath hp).1
    obtain ⟨-, -, hi⟩ := Radix.concat_isPath.mp hpi
    have hw : tables k.mem t i % 2 = 1 := by
      by_contra hw
      rw [Radix.find_append, Radix.find_concat, ht] at hu
      have hold : nextTable (tables k.mem t i) = none := nextTable_even (by omega)
      simp [hold] at hu
    obtain ⟨x, hget, hx, -, hfind⟩ := h.getOrCreate_present (A := A) flags hpi ht hpml hw
    simp only [pathStores, hget, pmlStores_present hpml hi hw, List.nil_append]
    exact ih hp hfind (points_frame hx) hu

section Room

/-- One frame less is left after a request. -/
theorem room_insert (hg : g ∈ U) (hgF : g ∉ F) :
    (U \ F).encard = (U \ insert g F).encard + 1 := by
  have hset : U \ insert g F = (U \ F) \ {g} := by
    ext x
    simp only [Set.mem_sdiff, Set.mem_insert_iff, Set.mem_singleton_iff]
    tauto
  have hmem : g ∈ U \ F := ⟨hg, hgF⟩
  rw [hset, Set.encard_sdiff_singleton_add_one hmem]

theorem PageFrames.Complete.served_of_room (hfull : A.Complete U Holds)
    (hh : Holds k.mem k.frames F) {n : Nat} (hroom : ((n + 1 : Nat) : ℕ∞) ≤ (U \ F).encard) :
    (k.pmmAllocz A 1).1 ≠ 0 := by
  intro hnull
  have hFU : F = U := hfull _ _ _ hh hnull
  rw [hFU, sdiff_self] at hroom
  simp at hroom

/-- With a frame left for every missing table all requests are served, and frame 0 is spared. -/
theorem PageFrames.Lawful.path_served (hA : A.Lawful U Holds) (hfull : A.Complete U Holds)
    (hh : Holds k.mem k.frames F) (ht : t ∈ F) (hpml : Points pml t) (hq : ∀ i ∈ q, i < 512)
    (hw : ∀ i ∈ q.head?, tables k.mem t i % 2 = 0) (hflags : flags < 8)
    (hroom : (q.length : ℕ∞) ≤ (U \ F).encard) (hs : k.Served) :
    (getOrCreatePath A flags q pml k).2.Served ∧
      (∀ s ∈ pathStores A flags q pml k, SparesFrameZero s) ∧
      ∃ u, u ≠ 0 ∧ Points (getOrCreatePath A flags q pml k).1 u := by
  have ht0 := (hA.managed t (hA.subset _ _ _ hh ht)).1
  induction q generalizing k F t pml with
  | nil => exact ⟨hs, by simp [pathStores], t, ht0, hpml⟩
  | cons i q ih =>
    have hi := hq i List.mem_cons_self
    have hwi : tables k.mem t i % 2 = 0 := hw i rfl
    have hne := hfull.served_of_room hh hroom
    obtain ⟨f, k', hfU, hfF, hflt, hget, hcalls, hvalue, hh', -, -, hzero⟩ :=
      hA.getOrCreate hh ht hi hpml hwi hflags hne
    have hserved : k'.Served := by
      intro n hn
      rw [hcalls, List.mem_cons] at hn
      rcases hn with heq | hmem
      · injection heq with _ hnull
        exact hne (hvalue.trans hnull.symm)
      · exact hs n hmem
    rw [List.length_cons, room_insert hfU hfF, Nat.cast_succ,
      ENat.add_le_add_iff_right ENat.one_ne_top] at hroom
    obtain ⟨hdown, hstores, hlast⟩ := ih hh' (Set.mem_insert f F)
      (points_frame hflt) (fun j hj => hq j (List.mem_cons_of_mem i hj)) (fun j hj => by
        rw [hzero j (hq j (List.mem_cons_of_mem i (List.mem_of_mem_head? hj)))]) hroom hserved
      (hA.managed f hfU).1
    simp only [getOrCreatePath, pathStores, hget, pmlStores_absent hpml hi hwi, hvalue]
    refine ⟨hdown, fun s hs => ?_, hlast⟩
    rcases List.mem_append.mp hs with hfirst | hrest
    · obtain rfl := List.mem_singleton.mp hfirst
      rw [SparesFrameZero, NamesFrameZero, entry_lor (by omega)]
      refine ⟨?_, fun hc => ?_⟩
      · show 4096 ≤ t * 4096 + 8 * i
        omega
      · have hframe : (f * 4096 + flags) / 4096 % 2 ^ 40 = 0 := hc.2
        omega
    · exact hstores s hrest

/-- With fewer frames than missing tables frame 0 is not spared. -/
theorem PageFrames.Lawful.path_refused (hA : A.Lawful U Holds) (hnull : A.ZeroesNull)
    (hh : Holds k.mem k.frames F) (ht : t ∈ F) (hpml : Points pml t) (hq : ∀ i ∈ q, i < 512)
    (hw : ∀ i ∈ q.head?, tables k.mem t i % 2 = 0) (hflags : flags < 8)
    (hbit : flags % 2 = 1 ∨ flags = 0) (hroom : (U \ F).encard < (q.length : ℕ∞)) :
    (∃ s ∈ pathStores A flags q pml k, ¬ SparesFrameZero s) ∨
      Points (getOrCreatePath A flags q pml k).1 0 := by
  have ht0 := (hA.managed t (hA.subset _ _ _ hh ht)).1
  induction q generalizing k F t pml with
  | nil => simp at hroom
  | cons i q ih =>
    have hi := hq i List.mem_cons_self
    have hwi : tables k.mem t i % 2 = 0 := hw i rfl
    simp only [getOrCreatePath, pathStores, pmlStores_absent hpml hi hwi]
    by_cases hne : (k.pmmAllocz A 1).1 = 0
    · -- the entry gets the flags alone
      have hstore := vmmGetOrCreatePml_absent (A := A) flags hpml hi hwi
      rw [hne, Nat.zero_or] at hstore ⊢
      rcases hbit with hodd | rfl
      · refine Or.inl ⟨(t * 4096 + 8 * i, flags), by simp,
          fun hspares => hspares.2 ⟨hodd, ?_⟩⟩
        show flags / 4096 % 2 ^ 40 = 0
        omega
      · have hpointer : ((0 : Nat) % 2 ^ 64 &&& (2 ^ 64 - 512)) = 0 := by decide
        rw [hpointer] at hstore
        rw [hstore]
        cases q with
        | nil => exact Or.inr (points_frame (t := 0) (by decide))
        | cons j q =>
          -- the next table is looked for in frame 0, which the request has zeroed
          have hj := hq j (by simp)
          have hzero : tables ((k.pmmAllocz A 1).2.store64 (t * 4096 + 8 * i) 0).mem 0 j % 2 =
              0 := by
            rw [Kernel.store64_mem, tables_store hi hj, if_neg (fun hc => ht0 hc.1.symm)]
            have hwiped : tables (k.pmmAllocz A 1).2.mem 0 j = 0 :=
              tables_zero (fun a ha => hnull _ _ hne a (by omega)) hj
            rw [hwiped]
          simp only [pathStores, pmlStores_absent (points_frame (t := 0) (by decide)) hj hzero]
          refine Or.inl ⟨_, List.mem_append_right _ (List.mem_append_left _
            (List.mem_singleton.mpr rfl)), fun hspares => ?_⟩
          have hlow : 4096 ≤ 0 * 4096 + 8 * j := hspares.1
          omega
    · obtain ⟨f, k', hfU, hfF, hflt, hget, -, -, hh', -, -, hzero⟩ :=
        hA.getOrCreate hh ht hi hpml hwi hflags hne
      rw [List.length_cons, room_insert hfU hfF, Nat.cast_succ, ← not_le,
        ENat.add_le_add_iff_right ENat.one_ne_top, not_le] at hroom
      rw [hget]
      rcases ih hh' (Set.mem_insert f F) (points_frame hflt)
        (fun j hj => hq j (List.mem_cons_of_mem i hj)) (fun j hj => by
          rw [hzero j (hq j (List.mem_cons_of_mem i (List.mem_of_mem_head? hj)))]) hroom
        (hA.managed f hfU).1 with ⟨s, hs, hbad⟩ | hlast
      · exact Or.inl ⟨s, List.mem_append_right _ hs, hbad⟩
      · exact Or.inr hlast

end Room

theorem PageTableRun.served (h : PageTableRun A Holds pageTable root k) : k.Served := by
  induction h with
  | empty k F holds root_mem zero calls =>
    intro n hn
    rw [calls] at hn
    simp at hn
  | map k phys virt privilege pat run aligned bound word served ih => exact served
  | unmap k virt run word served ih => exact served
  | other k m r F run holds held same ih => exact ih

/-- The number of tables missing on the walk for `virt`. -/
def missingTables (m : Mem) (root virt : Nat) : Nat :=
  Radix.missing nextTable (tables m) (upperPath virt) root

section Safe

variable (hA : A.Lawful U Holds) (h : VmmState Holds k root S F)
  (hptr : Points pageTable root)

include hA h hptr

/-- Frames for all missing tables: all requests are served. -/
theorem VmmState.sets_served (hfull : A.Complete U Holds) (hflags : flags < 8) (hs : k.Served)
    (hroom : (missingTables k.mem root virt : ℕ∞) ≤ (U \ F).encard) :
    (getOrCreatePath A flags (upperPath virt) pageTable k).2.Served ∧
      (∀ s ∈ pathStores A flags (upperPath virt) pageTable k, SparesFrameZero s) ∧
      ∀ i < 512, 4096 ≤
        pmlEntry (getOrCreatePath A flags (upperPath virt) pageTable k).1 i := by
  have hbeyond : ∀ {pml u : Nat}, u ≠ 0 → Points pml u →
      ∀ i < 512, 4096 ≤ pmlEntry pml i := by
    intro pml u hu hpml i hi
    rw [hpml i hi]
    omega
  cases hfind : Radix.find nextTable (tables k.mem) (upperPath virt) root with
  | some u =>
    have hpath := upperPath_isPath virt
    obtain ⟨hk, hu⟩ := h.getOrCreatePath_present (A := A) (p := []) flags
      (q := upperPath virt) hpath rfl hptr hfind
    have hstores := h.pathStores_present (A := A) (p := []) flags
      (q := upperPath virt) hpath rfl hptr hfind
    have hu0 := (hA.managed u (hA.subset _ _ _ h.holds (h.held (h.tree.mem hpath hfind)))).1
    rw [hk, hstores]
    exact ⟨hs, by simp, hbeyond hu0 hu⟩
  | none =>
    obtain ⟨p, i, q, t, hsplit, hp, hi, ht, hw, hdown⟩ := h.path_missing (A := A) hptr hfind
    obtain ⟨hk, hpml⟩ := hdown flags
    have hpath := upperPath_isPath virt
    rw [missingTables, hsplit, Radix.missing_split ht (nextTable_even hw)] at hroom
    have hstores := h.pathStores_present (A := A) (p := []) flags (q := p) hp rfl hptr ht
    rw [hsplit] at hpath
    rw [hsplit, getOrCreatePath_append, pathStores_append, hk, hstores, List.nil_append]
    obtain ⟨hserved, hspares, u, hu0, hu⟩ := hA.path_served hfull h.holds
      (h.held (h.tree.mem hp ht)) hpml (fun j hj => hpath.2 j (List.mem_append_right p hj))
      (fun j hj => by obtain rfl := Option.some.inj hj; exact hw) hflags hroom hs
    exact ⟨hserved, hspares, hbeyond hu0 hu⟩

/-- Too few frames for the missing tables. -/
theorem VmmState.sets_refused (hnull : A.ZeroesNull) (hflags : flags < 8)
    (hbit : flags % 2 = 1 ∨ flags = 0)
    (hroom : (U \ F).encard < (missingTables k.mem root virt : ℕ∞)) :
    (∃ s ∈ pathStores A flags (upperPath virt) pageTable k, ¬ SparesFrameZero s) ∨
      Points (getOrCreatePath A flags (upperPath virt) pageTable k).1 0 := by
  cases hfind : Radix.find nextTable (tables k.mem) (upperPath virt) root with
  | some u =>
    rw [missingTables, Radix.missing_of_some hfind] at hroom
    simp at hroom
  | none =>
    obtain ⟨p, i, q, t, hsplit, hp, hi, ht, hw, hdown⟩ := h.path_missing (A := A) hptr hfind
    obtain ⟨hk, hpml⟩ := hdown flags
    have hpath := upperPath_isPath virt
    rw [missingTables, hsplit, Radix.missing_split ht (nextTable_even hw)] at hroom
    rw [hsplit] at hpath
    rw [hsplit, getOrCreatePath_append, pathStores_append, hk]
    rcases hA.path_refused hnull h.holds (h.held (h.tree.mem hp ht)) hpml
      (fun j hj => hpath.2 j (List.mem_append_right p hj))
      (fun j hj => by obtain rfl := Option.some.inj hj; exact hw) hflags hbit hroom with
      ⟨s, hs, hbad⟩ | hlast
    · exact Or.inl ⟨s, List.mem_append_right _ hs, hbad⟩
    · exact Or.inr hlast

/-- Writing an entry is safe if and only if there is a frame for every missing table. -/
theorem VmmState.setsSafely_iff (hfull : A.Complete U Holds) (hnull : A.ZeroesNull)
    (hs : k.Served) (hflags : flags < 8) (hbit : flags % 2 = 1 ∨ flags = 0)
    {virtPage ptValue : Nat}
    (hmapped : ptValue ≠ 0 →
      ¬ NamesFrameZero (leafStore A k pageTable virtPage ptValue flags pat).2)
    (hothers : (vmmSetPtValue A k pageTable virtPage ptValue flags pat).Served →
      ∀ v, CanonicalPage v → v ≠ virtPage →
        translate (vmmSetPtValue A k pageTable virtPage ptValue flags pat).mem root v =
          translate k.mem root v) :
    SetsSafely A k pageTable root virtPage ptValue flags pat ↔
      (missingTables k.mem root virtPage : ℕ∞) ≤ (U \ F).encard := by
  constructor
  · intro hsafe
    by_contra hroom
    rcases h.sets_refused hA hptr hnull hflags hbit (not_le.mp hroom) with
        ⟨s, hmem, hbad⟩ | hlast
    · exact hbad (hsafe.upper s hmem)
    · have hleaf := hsafe.leaf
      rw [leafStore, hlast _ (leafIndex_lt virtPage)] at hleaf
      have hi := leafIndex_lt virtPage
      have hlow : 4096 ≤ 0 * 4096 + 8 * leafIndex virtPage := hleaf
      omega
  · intro hroom
    obtain ⟨hserved, hspares, hbeyond⟩ := h.sets_served hA hptr hfull hflags hs hroom
    refine ⟨hspares, hbeyond _ (leafIndex_lt virtPage), hmapped, hothers ?_⟩
    rw [vmmSetPtValue_leafStore]
    exact hserved

end Safe

/-- A request that maps another page than frame 0 does not name frame 0. -/
theorem mapped_page (hphys : phys % 4096 = 0) (hlt : phys < 2 ^ 52) (hne : phys ≠ 0)
    (privilege : MapPrivilege) (pat : PatCache) :
    ¬ NamesFrameZero (phys ||| privilege.flags ||| vmmPatCacheToFlags pat) := by
  obtain ⟨hflags, -⟩ := leafFlags privilege pat
  rw [leafWord hphys, NamesFrameZero]
  omega

/-- In every reachable state of the page tables, and whatever frames are left, `vmm_map_page` and
`vmm_unmap_page` stay clear of frame 0 and of other pages if and only if there is a frame for
every table missing on the walk. -/
theorem vmm_frame_zero_spared_iff (A : PageFrames ρ) (U : Set Nat)
    (Holds : Mem → ρ → Set Nat → Prop) (hA : A.Lawful U Holds) (hfull : A.Complete U Holds)
    (hnull : A.ZeroesNull) (pageTable root : Nat) (hptr : Points pageTable root) (k : Kernel ρ)
    (hrun : PageTableRun A Holds pageTable root k) (F : Set Nat) (hF : Holds k.mem k.frames F)
    (hheld : pageTables k.mem root ⊆ F) (virt : Nat) (hvirt : Canonical virt) :
    (∀ (phys : Nat) (privilege : MapPrivilege) (pat : PatCache), phys % 4096 = 0 →
      phys < 2 ^ 52 →
      (SetsSafely A k pageTable root (alignDown virt pageSize) phys privilege.flags pat ↔
        (missingTables k.mem root (alignDown virt pageSize) : ℕ∞) ≤ (U \ F).encard)) ∧
    (SetsSafely A k pageTable root (alignDown virt pageSize) 0 0 .uncacheable ↔
      (missingTables k.mem root (alignDown virt pageSize) : ℕ∞) ≤ (U \ F).encard) := by
  obtain ⟨S, _, hstate⟩ := hrun.state hA hptr
  have h : VmmState Holds k root (pageTables k.mem root) F := ⟨hF, hstate.tree.reachable, hheld⟩
  constructor
  · intro phys privilege pat hphys hlt
    refine h.setsSafely_iff hA hptr hfull hnull hrun.served
      (by have hp := privilege.flags_lt; omega)
      (Or.inl privilege.flags_odd) (fun hne => mapped_page hphys hlt hne privilege pat) ?_
    intro hserved v hv hne
    obtain ⟨-, -, -, -, htrans, -⟩ := h.map hA hptr hphys hlt hvirt.lt rfl hserved
    exact (htrans v).trans (if_neg (fun hc => hne ((indices_iff hv hvirt).mp hc)))
  · refine h.setsSafely_iff hA hptr hfull hnull hrun.served (by decide) (Or.inr rfl)
      (fun hne => absurd rfl hne) ?_
    intro hserved v hv hne
    obtain ⟨F', -, htrans⟩ := h.unmap hA hptr hvirt.lt hserved
    exact (htrans v).trans (if_neg (fun hc => hne ((indices_iff hv hvirt).mp hc)))

/-- Behind a page that is mapped no table is missing. -/
theorem vmm_frame_zero_spared_iff_smallMap :
    SetsSafely pmmFrames (vmmMapPage pmmFrames (pagingKernel smallMap).2
      (physToHigherHalfData 0x2000) 0x7000 0x400000 MapPrivilege.kernelReadWrite.flags
      .uncacheable) (physToHigherHalfData 0x2000) 2 (alignDown 0x401000 pageSize) 0x9000
        MapPrivilege.userRead.flags .uncacheable := by
  obtain ⟨U, Holds, hA, hfull, hF⟩ := bootKernel_complete smallMap_ok smallMap_frames_le
    (by decide) (by decide +kernel)
  have hrun := pagingKernel_mapped_run hA hF
  have hptr := points_higherHalfData (t := 2) (by decide)
  obtain ⟨S, F, hstate⟩ := hrun.state hA hptr
  have hnone : missingTables (vmmMapPage pmmFrames (pagingKernel smallMap).2
      (physToHigherHalfData 0x2000) 0x7000 0x400000 MapPrivilege.kernelReadWrite.flags
      .uncacheable).mem 2 (alignDown 0x401000 pageSize) = 0 := by decide +kernel
  refine ((vmm_frame_zero_spared_iff pmmFrames U Holds hA hfull pmmFrames_zeroesNull _ 2 hptr _ hrun
    F hstate.holds (hstate.tree.pageTables_subset.trans hstate.held) 0x401000 (by decide)).1 0x9000
    .userRead .uncacheable (by decide) (by decide)).mpr ?_
  rw [hnone]
  simp

/-- No frame is left behind the root table: the first entry is set to frame 0. -/
theorem vmm_links_frame_zero : ∃ U Holds, pmmFrames.Lawful U Holds ∧
    PageTableRun pmmFrames Holds (physToHigherHalfData 0x2000) 2 (pagingKernel oneFrameMap).2 ∧
    ¬ SetsSafely pmmFrames (pagingKernel oneFrameMap).2 (physToHigherHalfData 0x2000) 2
      (alignDown 0x400000 pageSize) 0x7000 MapPrivilege.kernelReadWrite.flags .uncacheable := by
  obtain ⟨U, Holds, hA, hF⟩ := bootKernel_lawful oneFrameMap_ok (by decide +kernel) (by decide)
  have hrun := pagingKernel_run hA hF
    (by decide +kernel : (pagingKernel oneFrameMap).1 = 2 * 4096) (by decide)
    (physToHigherHalfData 0x2000)
  refine ⟨U, Holds, hA, hrun, fun hsafe => ?_⟩
  have hstore : (0x2000, 3) ∈ pathStores pmmFrames MapPrivilege.kernelReadWrite.flags
      (upperPath (alignDown 0x400000 pageSize)) (physToHigherHalfData 0x2000)
      (pagingKernel oneFrameMap).2 := by decide +kernel
  exact (hsafe.upper _ hstore).2 ⟨by decide, by decide⟩

end ApoptOS
