import ApoptOS.Memory.Virtual.PageMap

namespace ApoptOS

open Framework

variable {ρ : Type} {A : PageFrames ρ} {U : Set Nat} {Holds : Mem → ρ → Set Nat → Prop}
  {k k' : Kernel ρ} {pageTable root t virt phys n x flags : Nat} {S F : Set Nat}
  {privilege : MapPrivilege} {pat : PatCache}

/-- The entry has the bit of a right. -/
def Grants (bit w : Nat) : Prop := w &&& bit ≠ 0

instance (bit : Nat) : DecidablePred (Grants bit) := fun _ => inferInstanceAs (Decidable (_ ≠ _))

/-- All entries in use above the last level, as far as the walk gets, grant the right. -/
def UpperGrant (bit : Nat) (m : Mem) (root virt : Nat) : Prop :=
  Radix.Along nextTable (tables m) (Grants bit) (upperPath virt) root

instance (bit : Nat) (m : Mem) (root virt : Nat) : Decidable (UpperGrant bit m root virt) :=
  inferInstanceAs (Decidable (Radix.Along _ _ _ _ _))

/-- The CPU grants a right when the entries of all four levels do. -/
def Effective (bit : Nat) (m : Mem) (root virt : Nat) : Prop :=
  match Radix.find nextTable (tables m) (upperPath virt) root with
  | some pt => UpperGrant bit m root virt ∧ tables m pt (leafIndex virt) % 2 = 1 ∧
      Grants bit (tables m pt (leafIndex virt))
  | none => False

instance (bit : Nat) (m : Mem) (root virt : Nat) : Decidable (Effective bit m root virt) :=
  match h : Radix.find nextTable (tables m) (upperPath virt) root with
  | some pt => decidable_of_iff (UpperGrant bit m root virt ∧
      tables m pt (leafIndex virt) % 2 = 1 ∧ Grants bit (tables m pt (leafIndex virt)))
      (by simp only [Effective, h])
  | none => isFalse (by simp [Effective, h])

/-- The rights a privilege is about. -/
def rightBits : List Nat := [pteReadWrite, pteUserSupervisor]

/-- The page has exactly the rights of the flags. -/
def RightsExact (m : Mem) (root virt flags : Nat) : Prop :=
  ∀ bit ∈ rightBits, Effective bit m root virt ↔ Grants bit flags

instance (m : Mem) (root virt flags : Nat) : Decidable (RightsExact m root virt flags) :=
  inferInstanceAs (Decidable (∀ bit ∈ rightBits, _))

theorem grants_two_pow : Grants (2 ^ n) x ↔ x / 2 ^ n % 2 = 1 := by
  unfold Grants
  rw [Nat.and_two_pow, Nat.testBit_eq_decide_div_mod_eq]
  have hpos : 0 < 2 ^ n := by positivity
  by_cases h : x / 2 ^ n % 2 = 1
  · simp [h]
  · simp [h]

/-- An address does not reach the bits of the rights. -/
theorem grants_add (hn : n < 12) : Grants (2 ^ n) (t * 4096 + flags) ↔ Grants (2 ^ n) flags := by
  have hsplit : t * 4096 = 2 ^ n * (t * (2 ^ (11 - n) * 2)) := by
    have hpow : 2 ^ n * (2 ^ (11 - n) * 2) = 4096 := by
      rw [← Nat.pow_succ, ← Nat.pow_add, show n + (11 - n).succ = 12 by omega]
    rw [← hpow]
    ring
  have hdiv : (t * 4096 + flags) / 2 ^ n = t * (2 ^ (11 - n) * 2) + flags / 2 ^ n := by
    rw [hsplit, Nat.mul_add_div (by positivity)]
  rw [grants_two_pow, grants_two_pow, hdiv]
  have heven : t * (2 ^ (11 - n) * 2) = 2 * (t * 2 ^ (11 - n)) := by ring
  omega

theorem mem_rightBits {bit : Nat} : bit ∈ rightBits ↔ bit = 2 ^ 1 ∨ bit = 2 ^ 2 := by
  simp [rightBits, pteReadWrite, pteUserSupervisor]

/-- The cache bits of a last-level entry are none of its rights. -/
theorem grants_pat {bit : Nat} (hbit : bit ∈ rightBits) (privilege : MapPrivilege)
    (pat : PatCache) :
    Grants bit (privilege.flags ||| vmmPatCacheToFlags pat) ↔ Grants bit privilege.flags := by
  rcases mem_rightBits.mp hbit with rfl | rfl <;> cases privilege <;> cases pat <;> decide

theorem grants_entry {bit : Nat} (hbit : bit ∈ rightBits) :
    Grants bit (t * 4096 + flags) ↔ Grants bit flags := by
  rcases mem_rightBits.mp hbit with rfl | rfl
  · exact grants_add (by decide)
  · exact grants_add (by decide)

/-- After `vmm_map_page` a page has a right if the flags have it and all tables that were there
before pass it on. -/
theorem VmmState.map_effective (hA : A.Lawful U Holds) (h : VmmState Holds k root S F)
    (hptr : Points pageTable root) (hphys : phys % 4096 = 0) (hlt : phys < 2 ^ 52)
    (hvirt : virt < 2 ^ 64) (hk' : vmmMapPage A k pageTable phys virt privilege.flags pat = k')
    (hs : k'.Served) {bit : Nat} (hbit : bit ∈ rightBits) :
    Effective bit k'.mem root virt ↔
      Grants bit privilege.flags ∧ UpperGrant bit k.mem root virt := by
  obtain ⟨S', F', u, -, -, hfind, hword, halong⟩ := h.map hA hptr hphys hlt hvirt hk' hs
  obtain ⟨-, hodd⟩ := leafFlags privilege pat
  have hleaf : Grants bit (tables k'.mem u (leafIndex virt)) ↔ Grants bit privilege.flags := by
    have haddr : phys = phys / 4096 * 4096 := by omega
    rw [hword, haddr, grants_entry hbit, grants_pat hbit]
  have hpresent : tables k'.mem u (leafIndex virt) % 2 = 1 := by
    rw [hword]
    omega
  simp only [Effective, hfind, hleaf, hpresent, true_and]
  rw [and_comm]
  refine and_congr_right (fun hflags => ?_)
  exact halong (Grants bit) (fun f => (grants_entry hbit).mpr hflags)

/-- In every reachable state of the page tables the rights of a page that is mapped are those of
the flags if and only if no table that was on its walk before holds back a right the flags
have. -/
theorem vmm_map_rights_iff (A : PageFrames ρ) (U : Set Nat)
    (Holds : Mem → ρ → Set Nat → Prop)
    (hA : A.Lawful U Holds) (pageTable root : Nat) (hptr : Points pageTable root) (k : Kernel ρ)
    (hrun : PageTableRun A Holds pageTable root k) (phys virt : Nat) (privilege : MapPrivilege)
    (pat : PatCache) (hphys : phys % 4096 = 0) (hlt : phys < 2 ^ 52) (hvirt : Canonical virt)
    (hserved : (vmmMapPage A k pageTable phys virt privilege.flags pat).Served) :
    RightsExact (vmmMapPage A k pageTable phys virt privilege.flags pat).mem root virt
        privilege.flags ↔
      ∀ bit ∈ rightBits, Grants bit privilege.flags → UpperGrant bit k.mem root virt := by
  obtain ⟨S, F, hstate⟩ := hrun.state hA hptr
  refine forall_congr' (fun bit => forall_congr' (fun hbit => ?_))
  rw [hstate.map_effective hA hptr hphys hlt hvirt.lt rfl hserved hbit]
  exact and_iff_left_iff_imp

/-- On a map with sixteen frames the first page finds one for each table. -/
theorem smallMap_neighbour (privilege : MapPrivilege)
    (hcalls : (vmmMapPage pmmFrames (pagingKernel smallMap).2 (physToHigherHalfData 0x2000)
      0x7000 0x400000 privilege.flags .uncacheable).calls =
        [.allocz 1 0x5000, .allocz 1 0x4000, .allocz 1 0x3000]) :
    ∃ U Holds, pmmFrames.Lawful U Holds ∧
      PageTableRun pmmFrames Holds (physToHigherHalfData 0x2000) 2
        (vmmMapPage pmmFrames (pagingKernel smallMap).2 (physToHigherHalfData 0x2000)
          0x7000 0x400000 privilege.flags .uncacheable) := by
  obtain ⟨U, Holds, hA, hF⟩ := bootKernel_lawful smallMap_ok smallMap_frames_le (by decide)
  have hrun := pagingKernel_run hA hF
    (by decide +kernel : (pagingKernel smallMap).1 = 2 * 4096) (by decide)
    (physToHigherHalfData 0x2000)
  exact ⟨U, Holds, hA, .map _ 0x7000 0x400000 privilege .uncacheable hrun (by decide) (by decide)
    (by decide) (fun n => by rw [hcalls]; simp)⟩

/-- Two neighbours, the first one with all rights: the second one has those asked for. -/
theorem vmm_map_rights_iff_smallMap :
    RightsExact (vmmMapPage pmmFrames (vmmMapPage pmmFrames (pagingKernel smallMap).2
      (physToHigherHalfData 0x2000) 0x7000 0x400000 MapPrivilege.userReadWrite.flags .uncacheable)
      (physToHigherHalfData 0x2000) 0x8000 0x401000 MapPrivilege.kernelReadWrite.flags
      .uncacheable).mem 2 0x401000 MapPrivilege.kernelReadWrite.flags := by
  obtain ⟨U, Holds, hA, hrun⟩ := smallMap_neighbour .userReadWrite (by decide +kernel)
  have hcalls : (vmmMapPage pmmFrames (vmmMapPage pmmFrames (pagingKernel smallMap).2
      (physToHigherHalfData 0x2000) 0x7000 0x400000 MapPrivilege.userReadWrite.flags .uncacheable)
      (physToHigherHalfData 0x2000) 0x8000 0x401000 MapPrivilege.kernelReadWrite.flags
      .uncacheable).calls =
        [.allocz 1 0x5000, .allocz 1 0x4000, .allocz 1 0x3000] := by decide +kernel
  exact (vmm_map_rights_iff pmmFrames U Holds hA _ 2 (points_higherHalfData (by decide)) _ hrun
    0x8000 0x401000 .kernelReadWrite .uncacheable (by decide) (by decide) (by decide)
    (fun n => by rw [hcalls]; simp)).mpr (by decide +kernel)

/-- Two neighbours, the first one mapped for reading only: the second one cannot be written. -/
theorem vmm_map_rights_held_back : ∃ U Holds k, pmmFrames.Lawful U Holds ∧
    PageTableRun pmmFrames Holds (physToHigherHalfData 0x2000) 2 k ∧
    (vmmMapPage pmmFrames k (physToHigherHalfData 0x2000) 0x8000 0x401000
      MapPrivilege.kernelReadWrite.flags .uncacheable).Served ∧
    ¬ RightsExact (vmmMapPage pmmFrames k (physToHigherHalfData 0x2000) 0x8000 0x401000
      MapPrivilege.kernelReadWrite.flags .uncacheable).mem 2 0x401000
        MapPrivilege.kernelReadWrite.flags := by
  obtain ⟨U, Holds, hA, hrun⟩ := smallMap_neighbour .kernelRead (by decide +kernel)
  have hsecond : (vmmMapPage pmmFrames (vmmMapPage pmmFrames (pagingKernel smallMap).2
      (physToHigherHalfData 0x2000) 0x7000 0x400000 MapPrivilege.kernelRead.flags .uncacheable)
      (physToHigherHalfData 0x2000) 0x8000 0x401000 MapPrivilege.kernelReadWrite.flags
      .uncacheable).calls =
        [.allocz 1 0x5000, .allocz 1 0x4000, .allocz 1 0x3000] := by decide +kernel
  refine ⟨U, Holds, _, hA, hrun, fun n => by rw [hsecond]; simp, ?_⟩
  decide +kernel

end ApoptOS
