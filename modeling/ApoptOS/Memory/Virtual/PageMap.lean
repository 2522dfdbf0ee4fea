import ApoptOS.Memory.Physical.PmmFirstFit
import ApoptOS.Memory.Virtual.PageDescend

namespace ApoptOS

open Framework

variable {ρ : Type}

/-- The canonical virtual pages. -/
abbrev VirtPage := {v : Nat // CanonicalPage v}

/-- The page tables as a map from virtual pages to physical page and flags. -/
def pageMap (m : Mem) (root : Nat) (v : VirtPage) : Option (Nat × Nat) := translate m root v

/-- The page of a canonical address. -/
def Canonical.virtPage {virt : Nat} (h : Canonical virt) : VirtPage :=
  ⟨alignDown virt pageSize, by
    rw [alignDown_page h.lt]
    exact h.page⟩

/-- What happens to the page tables of `root` from the time it is an empty table: pages are
mapped and unmapped, all frame requests being served, and the rest of the kernel uses other
frames. -/
inductive PageTableRun (A : PageFrames ρ) (Holds : Mem → ρ → Set Nat → Prop)
    (pageTable root : Nat) : Kernel ρ → Prop
  | empty (k : Kernel ρ) (F : Set Nat) (holds : Holds k.mem k.frames F) (root_mem : root ∈ F)
      (zero : ∀ j < 512, tables k.mem root j = 0) (calls : k.calls = []) :
      PageTableRun A Holds pageTable root k
  | map (k : Kernel ρ) (phys virt : Nat) (privilege : MapPrivilege) (pat : PatCache)
      (run : PageTableRun A Holds pageTable root k)
      (aligned : phys % 4096 = 0) (bound : phys < 2 ^ 52) (word : virt < 2 ^ 64)
      (served : (vmmMapPage A k pageTable phys virt privilege.flags pat).Served) :
      PageTableRun A Holds pageTable root
        (vmmMapPage A k pageTable phys virt privilege.flags pat)
  | unmap (k : Kernel ρ) (virt : Nat) (run : PageTableRun A Holds pageTable root k)
      (word : virt < 2 ^ 64) (served : (vmmUnmapPage A k pageTable virt).Served) :
      PageTableRun A Holds pageTable root (vmmUnmapPage A k pageTable virt)
  | other (k : Kernel ρ) (m : Mem) (r : ρ) (F : Set Nat)
      (run : PageTableRun A Holds pageTable root k) (holds : Holds m r F)
      (held : pageTables k.mem root ⊆ F)
      (same : Mem.SameOn (frameBytes (pageTables k.mem root)) k.mem m) :
      PageTableRun A Holds pageTable root ⟨m, r, k.calls⟩

variable {A : PageFrames ρ} {U : Set Nat} {Holds : Mem → ρ → Set Nat → Prop}
  {k k' : Kernel ρ} {pageTable root t u v w pml virt phys : Nat} {S F : Set Nat} {pat : PatCache}
  {privilege : MapPrivilege}

theorem upperPath_alignDown (h : virt < 2 ^ 64) :
    upperPath (alignDown virt pageSize) = upperPath virt := by
  rw [alignDown_page h]
  simp only [upperPath, List.cons.injEq, and_true]
  omega

theorem leafIndex_alignDown (h : virt < 2 ^ 64) :
    leafIndex (alignDown virt pageSize) = leafIndex virt := by
  rw [alignDown_page h, leafIndex, leafIndex]
  omega

/-- Only the page itself has the indices of a canonical address. -/
theorem indices_iff (hv : CanonicalPage v) (hvirt : Canonical virt) :
    (upperPath v = upperPath virt ∧ leafIndex v = leafIndex virt) ↔
      v = alignDown virt pageSize := by
  have hpage : CanonicalPage (alignDown virt pageSize) := hvirt.virtPage.2
  rw [← upperPath_alignDown hvirt.lt, ← leafIndex_alignDown hvirt.lt]
  constructor
  · rintro ⟨hpath, hleaf⟩
    exact hv.eq_of_indices hpage hpath hleaf
  · rintro rfl
    exact ⟨rfl, rfl⟩

/-- Privilege and cache bits of a last-level entry. -/
theorem leafFlags (privilege : MapPrivilege) (pat : PatCache) :
    privilege.flags ||| vmmPatCacheToFlags pat < 4096 ∧
      (privilege.flags ||| vmmPatCacheToFlags pat) % 2 = 1 := by
  cases privilege <;> cases pat <;> decide

theorem leafWord (hphys : phys % 4096 = 0) (privilege : MapPrivilege) (pat : PatCache) :
    phys ||| privilege.flags ||| vmmPatCacheToFlags pat =
      phys + (privilege.flags ||| vmmPatCacheToFlags pat) := by
  rw [Nat.lor_assoc]
  exact lor_eq_add (k := 12) hphys (leafFlags privilege pat).1

theorem translate_of_none (h : Radix.find nextTable (tables k.mem) (upperPath v) root = none) :
    translate k.mem root v = none := by
  rw [translate, h]
  rfl

namespace VmmState

/-- The store into the last level. -/
theorem store_leaf (hA : A.Lawful U Holds) (h : VmmState Holds k root S F) (hpml : Points pml t)
    (ht : Radix.find nextTable (tables k.mem) (upperPath virt) root = some t)
    (hw : w < 2 ^ 64) (hword : w = 0 ∨ w % 2 = 1) :
    VmmState Holds (k.store64 (pmlEntry pml (leafIndex virt)) w) root S F ∧
      (∀ s ∈ S, ∀ j < 512, tables (k.store64 (pmlEntry pml (leafIndex virt)) w).mem s j =
        if s = t ∧ j = leafIndex virt then w else tables k.mem s j) ∧
      (∀ q, IsPath 512 3 q → Radix.find nextTable
        (tables (k.store64 (pmlEntry pml (leafIndex virt)) w).mem) q root =
          Radix.find nextTable (tables k.mem) q root) ∧
      ∀ v, translate (k.store64 (pmlEntry pml (leafIndex virt)) w).mem root v =
        if upperPath v = upperPath virt ∧ leafIndex v = leafIndex virt then leafPage w
        else translate k.mem root v := by
  have hi := leafIndex_lt virt
  have htF := h.held (h.tree.mem (upperPath_isPath virt) ht)
  rw [hpml _ hi]
  have hstore :
      ∀ s ∈ S, ∀ j < 512, tables (k.store64 (t * 4096 + 8 * leafIndex virt) w).mem s j =
      if s = t ∧ j = leafIndex virt then w else tables k.mem s j := by
    intro s _ j hj
    rw [Kernel.store64_mem, tables_store hi hj, Nat.mod_eq_of_lt hw]
  obtain ⟨htree, hfind, htrans⟩ :=
    h.tree.update_leaf (upperPath_isPath virt) rfl ht hword hstore
  exact ⟨⟨hA.store h.holds htF hi w, htree, h.held⟩, hstore, hfind, htrans⟩

/-- The store into a frame off the tree. -/
theorem store_off (hA : A.Lawful U Holds) (h : VmmState Holds k root S F) (hpml : Points pml t)
    (htF : t ∈ F) (htS : t ∉ S) (virt w : Nat) :
    Extends Holds k (k.store64 (pmlEntry pml (leafIndex virt)) w) root S S F := by
  have hi := leafIndex_lt virt
  rw [hpml _ hi]
  refine h.extends_off _ (hA.store h.holds htF hi w) (subset_refl F) (fun s hs j hj => ?_)
  have hst : s ≠ t := fun hc => htS (hc ▸ hs)
  rw [Kernel.store64_mem, tables_store hi hj, if_neg (fun hc => hst hc.1)]

/-- The store into the last level does not reach the links above. -/
theorem along_store_leaf (h : VmmState Holds k root S F) {m' : Mem}
    (ht : Radix.find nextTable (tables k.mem) (upperPath virt) root = some t)
    (hstore : ∀ s ∈ S, ∀ j < 512, tables m' s j =
      if s = t ∧ j = leafIndex virt then w else tables k.mem s j) (P : Nat → Prop) :
    Radix.Along nextTable (tables m') P (upperPath virt) root ↔
      Radix.Along nextTable (tables k.mem) P (upperPath virt) root := by
  refine Radix.along_congr (fun a i b u hsplit hu => ?_)
  have hpath := upperPath_isPath virt
  rw [hsplit] at hpath
  obtain ⟨ha, hlen⟩ := Radix.append_isPath hpath
  have hut := h.tree.last_not_upper (upperPath_isPath virt) ha rfl (hlen (by simp)) ht hu
  have hi : i < 512 := hpath.2 i (by simp)
  rw [hstore u (h.tree.mem ha hu) i hi, if_neg (fun hc => hut hc.1)]

/-- `vmm_map_page`, all requests served: the entry of the page, and what becomes of the links
that lead to it. -/
theorem map (hA : A.Lawful U Holds) (h : VmmState Holds k root S F)
    (hptr : Points pageTable root) (hphys : phys % 4096 = 0) (hlt : phys < 2 ^ 52)
    (hvirt : virt < 2 ^ 64) (hk' : vmmMapPage A k pageTable phys virt privilege.flags pat = k')
    (hs : k'.Served) :
    ∃ S' F' u, VmmState Holds k' root S' F' ∧
      (∀ v, translate k'.mem root v =
        if upperPath v = upperPath virt ∧ leafIndex v = leafIndex virt then
          some (phys, privilege.flags ||| vmmPatCacheToFlags pat)
        else translate k.mem root v) ∧
      Radix.find nextTable (tables k'.mem) (upperPath virt) root = some u ∧
      tables k'.mem u (leafIndex virt) = phys + (privilege.flags ||| vmmPatCacheToFlags pat) ∧
      ∀ P : Nat → Prop, (∀ f, P (f * 4096 + privilege.flags)) →
        (Radix.Along nextTable (tables k'.mem) P (upperPath virt) root ↔
          Radix.Along nextTable (tables k.mem) P (upperPath virt) root) := by
  rw [vmmMapPage, vmmSetPtValue_eq, upperPath_alignDown hvirt, leafIndex_alignDown hvirt,
    leafWord hphys] at hk'
  subst hk'
  obtain ⟨hflags, hodd⟩ := leafFlags privilege pat
  obtain ⟨S', F', u, hext, hu, hlast, halong⟩ := h.getOrCreatePath_link (p := [])
    (q := upperPath virt) hA (upperPath_isPath virt) rfl hptr privilege.flags_lt
    privilege.flags_odd hs
  obtain ⟨hstate, hstore, hfind, htrans⟩ := hext.state.store_leaf hA hu hlast
    (w := phys + (privilege.flags ||| vmmPatCacheToFlags pat)) (by omega) (Or.inr (by omega))
  refine ⟨S', F', u, hstate, fun v => ?_, ?_, ?_, fun P hP => ?_⟩
  · rw [htrans v, leafPage_entry hphys hlt hflags hodd, hext.same v]
  · rw [hfind _ (upperPath_isPath virt)]
    exact hlast
  · rw [hstore u (hext.state.tree.mem (upperPath_isPath virt) hlast) _ (leafIndex_lt virt),
      if_pos ⟨rfl, rfl⟩]
  · rw [hext.state.along_store_leaf hlast hstore P]
    exact halong P hP

theorem unmap_eq (k : Kernel ρ) (pageTable : Nat) (hvirt : virt < 2 ^ 64) :
    vmmUnmapPage A k pageTable virt =
      (getOrCreatePath A 0 (upperPath virt) pageTable k).2.store64
        (pmlEntry (getOrCreatePath A 0 (upperPath virt) pageTable k).1 (leafIndex virt)) 0 := by
  have hzero : (0 ||| 0 ||| vmmPatCacheToFlags .uncacheable : Nat) = 0 := by decide
  rw [vmmUnmapPage, vmmSetPtValue_eq, upperPath_alignDown hvirt, leafIndex_alignDown hvirt, hzero]

/-- `vmm_unmap_page` where all tables of the walk are there: one entry is set to zero. -/
theorem unmap_complete (hA : A.Lawful U Holds) (h : VmmState Holds k root S F)
    (hptr : Points pageTable root) (hvirt : virt < 2 ^ 64)
    (hfind : Radix.find nextTable (tables k.mem) (upperPath virt) root = some u)
    (hk' : vmmUnmapPage A k pageTable virt = k') :
    VmmState Holds k' root S F ∧ k'.frames = k.frames ∧ k'.calls = k.calls ∧
      (∀ s ∈ S, ∀ j < 512, tables k'.mem s j =
        if s = u ∧ j = leafIndex virt then 0 else tables k.mem s j) ∧
      (∀ q, IsPath 512 3 q → Radix.find nextTable (tables k'.mem) q root =
        Radix.find nextTable (tables k.mem) q root) ∧
      ∀ v, translate k'.mem root v =
        if upperPath v = upperPath virt ∧ leafIndex v = leafIndex virt then none
        else translate k.mem root v := by
  obtain ⟨hk, hu⟩ := h.getOrCreatePath_present (A := A) (p := []) 0
    (q := upperPath virt) (upperPath_isPath virt) rfl hptr hfind
  rw [unmap_eq k pageTable hvirt, hk] at hk'
  subst hk'
  obtain ⟨hstate, hstore, hfind', htrans⟩ :=
    h.store_leaf hA hu hfind (by decide : 0 < 2 ^ 64) (Or.inl rfl)
  exact ⟨hstate, rfl, rfl, hstore, hfind', htrans⟩

/-- The way down to the first missing table. -/
theorem path_missing (h : VmmState Holds k root S F) (hptr : Points pageTable root)
    (hfind : Radix.find nextTable (tables k.mem) (upperPath virt) root = none) :
    ∃ p i q t, upperPath virt = p ++ i :: q ∧ IsPath 512 3 p ∧ i < 512 ∧
      Radix.find nextTable (tables k.mem) p root = some t ∧ tables k.mem t i % 2 = 0 ∧
      (∀ flags, (getOrCreatePath A flags p pageTable k).2 = k ∧
        Points (getOrCreatePath A flags p pageTable k).1 t) := by
  obtain ⟨p, i, q, t, hsplit, ht, hnone⟩ := Radix.find_none_split hfind
  have hpath := upperPath_isPath virt
  rw [hsplit, show p ++ i :: q = (p ++ [i]) ++ q by simp] at hpath
  have hpi := (Radix.append_isPath hpath).1
  obtain ⟨hp, -, hi⟩ := Radix.concat_isPath.mp hpi
  exact ⟨p, i, q, t, hsplit, hp, hi, ht, (h.tree.not_next hpi ht).mp hnone,
    fun flags => h.getOrCreatePath_present (p := []) flags hp rfl hptr ht⟩

/-- `vmm_unmap_page`, all requests served. -/
theorem unmap (hA : A.Lawful U Holds) (h : VmmState Holds k root S F)
    (hptr : Points pageTable root) (hvirt : virt < 2 ^ 64)
    (hs : (vmmUnmapPage A k pageTable virt).Served) :
    ∃ F', VmmState Holds (vmmUnmapPage A k pageTable virt) root S F' ∧
      ∀ v, translate (vmmUnmapPage A k pageTable virt).mem root v =
        if upperPath v = upperPath virt ∧ leafIndex v = leafIndex virt then none
        else translate k.mem root v := by
  cases hfind : Radix.find nextTable (tables k.mem) (upperPath virt) root with
  | some u =>
    obtain ⟨hstate, -, -, -, -, htrans⟩ := h.unmap_complete (A := A) hA hptr hvirt hfind rfl
    exact ⟨F, hstate, htrans⟩
  | none =>
    -- the way down leaves the tree at the first missing table
    obtain ⟨p, i, q, t, hsplit, hp, -, ht, hw, hdown⟩ := h.path_missing (A := A) hptr hfind
    obtain ⟨hk, hpml⟩ := hdown 0
    have hpath := upperPath_isPath virt
    rw [hsplit] at hpath
    rw [unmap_eq k pageTable hvirt, hsplit, getOrCreatePath_append, hk] at hs ⊢
    obtain ⟨F', u, hext, hu, huF, huS⟩ := h.getOrCreatePath_unused hA hpath ht hpml hw hs
    have hoff := hext.state.store_off hA hu huF huS virt 0
    refine ⟨F', hoff.state, fun v => ?_⟩
    rw [hoff.same v, hext.same v]
    split_ifs with hv
    · refine translate_of_none ?_
      rw [hv.1, ← hsplit, hfind]
    · rfl

end VmmState

theorem PageTableRun.state (hA : A.Lawful U Holds) (hptr : Points pageTable root)
    (h : PageTableRun A Holds pageTable root k) : ∃ S F, VmmState Holds k root S F := by
  induction h with
  | empty k F holds root_mem zero _ =>
    exact ⟨{root}, F, holds, PageTree.empty zero, Set.singleton_subset_iff.mpr root_mem⟩
  | map k phys virt privilege pat _ aligned bound word served ih =>
    obtain ⟨S, F, hstate⟩ := ih
    obtain ⟨S', F', -, hstate', -⟩ := hstate.map hA hptr aligned bound word rfl served
    exact ⟨S', F', hstate'⟩
  | unmap k virt _ word served ih =>
    obtain ⟨S, F, hstate⟩ := ih
    obtain ⟨F', hstate', -⟩ := hstate.unmap hA hptr word served
    exact ⟨S, F', hstate'⟩
  | other k m r F _ holds held same ih =>
    obtain ⟨S, _, hstate⟩ := ih
    refine ⟨pageTables k.mem root, F, holds, ?_, held⟩
    exact (hstate.tree.reachable.congr (fun t ht j hj => tables_sameOn same ht hj)).1

/-- Two page maps that differ in one page. -/
theorem pageMap_update {m m' : Mem} {x : Option (Nat × Nat)} (hvirt : Canonical virt)
    (h : ∀ v, translate m' root v =
      if upperPath v = upperPath virt ∧ leafIndex v = leafIndex virt then x
      else translate m root v) :
    pageMap m' root = Function.update (pageMap m root) hvirt.virtPage x := by
  funext v
  rw [Function.update_apply]
  unfold pageMap
  rw [h v]
  simp only [indices_iff v.2 hvirt]
  refine if_congr ?_ rfl rfl
  exact (@Subtype.ext_iff _ _ v hvirt.virtPage).symm

/-- In every reachable state of the page tables `vmm_map_page` sets the entry of one page in the
map they stand for, and `vmm_unmap_page` removes it. -/
theorem vmm_updates_page_map (A : PageFrames ρ) (U : Set Nat)
    (Holds : Mem → ρ → Set Nat → Prop)
    (hA : A.Lawful U Holds) (pageTable root : Nat) (hptr : Points pageTable root) (k : Kernel ρ)
    (hrun : PageTableRun A Holds pageTable root k) (virt : Nat) (hvirt : Canonical virt) :
    (∀ phys privilege pat, phys % 4096 = 0 → phys < 2 ^ 52 →
      (vmmMapPage A k pageTable phys virt (MapPrivilege.flags privilege) pat).Served →
      pageMap (vmmMapPage A k pageTable phys virt privilege.flags pat).mem root =
        Function.update (pageMap k.mem root) hvirt.virtPage
          (some (phys, privilege.flags ||| vmmPatCacheToFlags pat))) ∧
    ((vmmUnmapPage A k pageTable virt).Served →
      pageMap (vmmUnmapPage A k pageTable virt).mem root =
        Function.update (pageMap k.mem root) hvirt.virtPage none) := by
  obtain ⟨S, F, hstate⟩ := hrun.state hA hptr
  constructor
  · intro phys privilege pat hphys hlt hserved
    obtain ⟨-, -, -, -, htrans, -⟩ := hstate.map hA hptr hphys hlt hvirt.lt rfl hserved
    exact pageMap_update hvirt htrans
  · intro hserved
    obtain ⟨F', -, htrans⟩ := hstate.unmap hA hptr hvirt.lt hserved
    exact pageMap_update hvirt htrans

/-- The kernel with an empty root table, which `pmm_allocz(1)` has just returned. -/
def pagingKernel (memoryMap : List MmapEntry) : Nat × Kernel Pmm :=
  let r := (bootKernel memoryMap).pmmAllocz pmmFrames 1
  (r.1, ⟨r.2.mem, r.2.frames, []⟩)

theorem pagingKernel_run {memoryMap : List MmapEntry} {U : Set Nat}
    {Holds : Mem → Pmm → Set Nat → Prop} (hA : pmmFrames.Lawful U Holds)
    (hF : Holds (bootKernel memoryMap).mem (bootKernel memoryMap).frames ∅)
    (hroot : (pagingKernel memoryMap).1 = root * 4096) (hne : root ≠ 0) (pageTable : Nat) :
    PageTableRun pmmFrames Holds pageTable root (pagingKernel memoryMap).2 := by
  have hserved : ((bootKernel memoryMap).pmmAllocz pmmFrames 1).1 ≠ 0 := by
    rw [show ((bootKernel memoryMap).pmmAllocz pmmFrames 1).1 = root * 4096 from hroot]
    omega
  obtain ⟨f, -, -, -, -, hf, hholds, -, hzero⟩ := hA.served hF hserved
  have hfr : f = root := by
    have hpage : f * 4096 = root * 4096 := hf.symm.trans hroot
    omega
  rw [hfr] at hholds hzero
  exact .empty _ _ hholds (Set.mem_insert root ∅) hzero rfl

/-- A first page on a map with sixteen frames. -/
theorem vmm_updates_page_map_smallMap :
    pageMap (vmmMapPage pmmFrames (pagingKernel smallMap).2 (physToHigherHalfData 0x2000) 0x7000
        0x400123 MapPrivilege.userRead.flags .writeBack).mem 2 =
      Function.update (pageMap (pagingKernel smallMap).2.mem 2)
        (by decide : Canonical 0x400123).virtPage (some (0x7000, 0x95)) := by
  obtain ⟨U, Holds, hA, hF⟩ := bootKernel_lawful smallMap_ok smallMap_frames_le (by decide)
  have hrun := pagingKernel_run hA hF
    (by decide +kernel : (pagingKernel smallMap).1 = 2 * 4096) (by decide)
    (physToHigherHalfData 0x2000)
  have hcalls : (vmmMapPage pmmFrames (pagingKernel smallMap).2 (physToHigherHalfData 0x2000)
      0x7000 0x400123 MapPrivilege.userRead.flags .writeBack).calls =
        [.allocz 1 0x5000, .allocz 1 0x4000, .allocz 1 0x3000] := by decide +kernel
  exact (vmm_updates_page_map pmmFrames U Holds hA _ 2 (points_higherHalfData (by decide)) _ hrun
    0x400123 (by decide)).1 0x7000 .userRead .writeBack (by decide) (by decide)
    (fun n => by rw [hcalls]; simp)

end ApoptOS
