import ApoptOS.Framework.Radix
import ApoptOS.Memory.Virtual.Vmm

namespace ApoptOS

open Framework

/-! What the CPU makes of page tables in memory. -/

/-- The entries of all page frames, read as tables. -/
def tables (m : Mem) : Tables Nat := fun t i => m.load64 (t * 4096 + 8 * i)

/-- The table an entry of one of the upper three levels leads to. Bit 0 is the present bit, a set
bit 7 would end the walk with a large page. -/
def nextTable (w : Nat) : Option Nat :=
  if w % 2 = 1 ∧ w / 128 % 2 = 0 then some (w / 4096 % 2 ^ 40) else none

/-- Physical page and flags of an entry of the last level. -/
def leafPage (w : Nat) : Option (Nat × Nat) :=
  if w % 2 = 1 then some (w / 4096 % 2 ^ 40 * 4096, w % 4096 + w / 2 ^ 52 * 2 ^ 52) else none

/-- The indices for the three upper levels. -/
def upperPath (virt : Nat) : List Nat :=
  [virt / 2 ^ 39 % 512, virt / 2 ^ 30 % 512, virt / 2 ^ 21 % 512]

def leafIndex (virt : Nat) : Nat := virt / 2 ^ 12 % 512

/-- The 4-level walk from the table in frame `root`. -/
def translate (m : Mem) (root virt : Nat) : Option (Nat × Nat) :=
  (Radix.find nextTable (tables m) (upperPath virt) root).bind
    (fun pt => leafPage (tables m pt (leafIndex virt)))

/-- The upper 17 bits are equal. -/
def Canonical (virt : Nat) : Prop := virt < 2 ^ 47 ∨ (2 ^ 64 - 2 ^ 47 ≤ virt ∧ virt < 2 ^ 64)

def CanonicalPage (virt : Nat) : Prop := Canonical virt ∧ virt % 4096 = 0

instance (virt : Nat) : Decidable (Canonical virt) := inferInstanceAs (Decidable (_ ∨ _))
instance (virt : Nat) : Decidable (CanonicalPage virt) := inferInstanceAs (Decidable (_ ∧ _))

theorem upperPath_isPath (virt : Nat) : IsPath 512 3 (upperPath virt) := by
  refine ⟨le_refl 3, fun i hi => ?_⟩
  simp only [upperPath, List.mem_cons, List.not_mem_nil, or_false] at hi
  rcases hi with rfl | rfl | rfl <;> exact Nat.mod_lt _ (by decide)

theorem leafIndex_lt (virt : Nat) : leafIndex virt < 512 := Nat.mod_lt _ (by decide)

/-- Canonical pages are told apart by their indices. -/
theorem CanonicalPage.eq_of_indices {u v : Nat} (hu : CanonicalPage u) (hv : CanonicalPage v)
    (hpath : upperPath u = upperPath v) (hleaf : leafIndex u = leafIndex v) : u = v := by
  simp only [upperPath, List.cons.injEq, and_true] at hpath
  obtain ⟨h4, h3, h2⟩ := hpath
  unfold leafIndex at hleaf
  obtain ⟨hcu, hmu⟩ := hu
  obtain ⟨hcv, hmv⟩ := hv
  unfold Canonical at hcu hcv
  omega

theorem Canonical.page {virt : Nat} (h : Canonical virt) :
    CanonicalPage (virt / 4096 * 4096) := by
  unfold CanonicalPage Canonical
  unfold Canonical at h
  omega

theorem Canonical.lt {virt : Nat} (h : Canonical virt) : virt < 2 ^ 64 := by
  unfold Canonical at h
  omega

/-- The index fields as the code extracts them. -/
theorem index_eq (virt k : Nat) : (virt &&& 0x1ff <<< k) >>> k = virt / 2 ^ k % 512 :=
  land_field_shift virt k 9

/-- A table entry made of a frame and flags. -/
theorem entry_lor {f flags : Nat} (hflags : flags < 2 ^ 12) :
    f * 4096 ||| flags = f * 4096 + flags :=
  lor_eq_add (k := 12) (by omega) hflags

theorem nextTable_entry {f flags : Nat} (hf : f < 2 ^ 40) (hflags : flags < 128)
    (hodd : flags % 2 = 1) : nextTable (f * 4096 + flags) = some f := by
  have hodd' : (f * 4096 + flags) % 2 = 1 := by omega
  have hlarge : (f * 4096 + flags) / 128 % 2 = 0 := by omega
  have hframe : (f * 4096 + flags) / 4096 % 2 ^ 40 = f := by omega
  rw [nextTable, if_pos ⟨hodd', hlarge⟩, hframe]

theorem nextTable_even {w : Nat} (h : w % 2 = 0) : nextTable w = none :=
  if_neg (fun hc => by omega)

theorem leafPage_entry {phys flags : Nat} (hphys : phys % 4096 = 0) (hlt : phys < 2 ^ 52)
    (hflags : flags < 4096) (hodd : flags % 2 = 1) :
    leafPage (phys + flags) = some (phys, flags) := by
  have hodd' : (phys + flags) % 2 = 1 := by omega
  have haddr : (phys + flags) / 4096 % 2 ^ 40 * 4096 = phys := by omega
  have hrest : (phys + flags) % 4096 + (phys + flags) / 2 ^ 52 * 2 ^ 52 = flags := by omega
  rw [leafPage, if_pos hodd', haddr, hrest]

namespace MapPrivilege

theorem flags_lt (p : MapPrivilege) : p.flags < 8 := by
  cases p <;> decide

theorem flags_odd (p : MapPrivilege) : p.flags % 2 = 1 := by
  cases p <;> decide

end MapPrivilege

end ApoptOS
