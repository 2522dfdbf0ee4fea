import ApoptOS.Memory.Frames

namespace ApoptOS

open Framework

def ptePresent : Nat := 1 <<< 0
def pteReadWrite : Nat := 1 <<< 1
def pteUserSupervisor : Nat := 1 <<< 2
def pteWriteThrough : Nat := 1 <<< 3
def pteCacheDisabled : Nat := 1 <<< 4
def ptePat : Nat := 1 <<< 7

/-- `vmm_map_privilege_t`. -/
inductive MapPrivilege where
  | kernelRead
  | kernelReadWrite
  | userRead
  | userReadWrite
  deriving DecidableEq, Repr

def MapPrivilege.flags : MapPrivilege → Nat
  | .kernelRead => ptePresent
  | .kernelReadWrite => ptePresent ||| pteReadWrite
  | .userRead => ptePresent ||| pteUserSupervisor
  | .userReadWrite => ptePresent ||| pteReadWrite ||| pteUserSupervisor

/-- `pat_cache_t`; the first one is the value 0. -/
inductive PatCache where
  | uncacheable
  | writeCombining
  | writeThrough
  | writeProtected
  | writeBack
  | uncached
  deriving DecidableEq, Repr

def vmmPatCacheToFlags : PatCache → Nat
  | .uncacheable => 0
  | .writeCombining => pteWriteThrough
  | .writeThrough => ptePat
  | .writeProtected => ptePat ||| pteWriteThrough
  | .writeBack => ptePat ||| pteCacheDisabled
  | .uncached => ptePat ||| pteCacheDisabled ||| pteWriteThrough

variable {ρ : Type} (A : PageFrames ρ)

/-- The address in memory of `pml[pmlIndex]`. -/
def pmlEntry (pml pmlIndex : Nat) : Nat := physOf (add64 pml (8 * pmlIndex))

/-- A table for the level below, if need be a new one. The mask is `~(511)`. -/
def vmmGetOrCreatePml (k : Kernel ρ) (pml pmlIndex flags : Nat) : Nat × Kernel ρ :=
  let k :=
    if k.mem.load64 (pmlEntry pml pmlIndex) &&& 1 = 0 then
      let r := k.pmmAllocz A 1
      r.2.store64 (pmlEntry pml pmlIndex) (r.1 ||| flags)
    else k
  (k.mem.load64 (pmlEntry pml pmlIndex) &&& (2 ^ 64 - 512), k)

/-- Flushing the translation lookaside buffer changes nothing that is modelled. -/
def vmmSetPtValue (k : Kernel ρ) (pageTable virtPage ptValue flags : Nat) (patType : PatCache) :
    Kernel ρ :=
  let pml4Index := (virtPage &&& 0x1ff <<< 39) >>> 39
  let pdptIndex := (virtPage &&& 0x1ff <<< 30) >>> 30
  let pdIndex := (virtPage &&& 0x1ff <<< 21) >>> 21
  let ptIndex := (virtPage &&& 0x1ff <<< 12) >>> 12
  let r := vmmGetOrCreatePml A k pageTable pml4Index flags
  let pdpt := r.1
  let r := vmmGetOrCreatePml A r.2 pdpt pdptIndex flags
  let pd := r.1
  let r := vmmGetOrCreatePml A r.2 pd pdIndex flags
  let pt := r.1
  r.2.store64 (pmlEntry pt ptIndex) (ptValue ||| flags ||| vmmPatCacheToFlags patType)

def vmmMapPage (k : Kernel ρ) (pageTable physPage virtPage flags : Nat) (patType : PatCache) :
    Kernel ρ :=
  vmmSetPtValue A k pageTable (alignDown virtPage pageSize) physPage flags patType

def vmmUnmapPage (k : Kernel ρ) (pageTable virtPage : Nat) : Kernel ρ :=
  vmmSetPtValue A k pageTable (alignDown virtPage pageSize) 0 0 .uncacheable

/-- The loop of `vmm_map_range` and `vmm_unmap_range`: `body` for `i`, `i + PAGE_SIZE` and so on
while below `stop`. -/
def forPages (body : Nat → Kernel ρ → Kernel ρ) (stop : Nat) :
    Nat → Nat → Kernel ρ → Except Halt (Kernel ρ)
  | 0, _, _ => .error .outOfFuel
  | fuel + 1, i, k =>
    if i < stop then forPages body stop fuel (add64 i pageSize) (body i k) else .ok k

def vmmMapRange (fuel : Nat) (k : Kernel ρ) (pageTable start stop offset flags : Nat)
    (patType : PatCache) : Except Halt (Kernel ρ) :=
  forPages (fun i k => vmmMapPage A k pageTable i (add64 i offset) flags patType)
    (alignUp stop pageSize) fuel (alignDown start pageSize) k

def vmmUnmapRange (fuel : Nat) (k : Kernel ρ) (pageTable start stop : Nat) :
    Except Halt (Kernel ρ) :=
  forPages (fun i k => vmmUnmapPage A k pageTable i) (alignUp stop pageSize) fuel
    (alignDown start pageSize) k

end ApoptOS
