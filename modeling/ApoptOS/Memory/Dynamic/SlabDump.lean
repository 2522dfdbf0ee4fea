import ApoptOS.Memory.Dynamic.Slab

namespace ApoptOS

open Framework

/-- A line printed with `debug`: format and arguments. -/
structure DebugLine where
  format : String
  arguments : List Nat
  deriving DecidableEq, Repr

variable {ρ : Type}

def Kernel.bufctlIndex (k : Kernel ρ) (p : Nat) : Nat := k.mem.load16 (p + 8)

/-- The address printed for a bufctl, computed from its index. -/
def Kernel.bufctlPointer (k : Kernel ρ) (cache slab bufctl : Nat) : Nat :=
  add64 (k.slabBufctlAddr slab) (k.cacheSlabSize cache * k.bufctlIndex bufctl)

/-- The inner loop of `slab_cache_dump`, over the free list of the slab under the cursor. -/
def dumpBufctls (cache : Nat) : Nat → Nat → Kernel ρ →
    Except Halt (List DebugLine × Kernel ρ)
  | 0, _, _ => .error .outOfFuel
  | fuel + 1, bufctlCount, k =>
    let slab := k.cacheSlabs cache
    let bufctl := k.slabFreelist slab
    if bufctl = 0 then .ok ([], k)
    else
      let line : DebugLine := ⟨"\t\tBufctl no. %d\t with index %d\t -> has pointer 0x%p\n",
        [bufctlCount, k.bufctlIndex bufctl, k.bufctlPointer cache slab bufctl]⟩
      match dumpBufctls cache fuel (bufctlCount + 1)
          (k.setSlabFreelist slab (k.bufctlNext bufctl)) with
      | .error e => .error e
      | .ok (lines, k) => .ok (line :: lines, k)

/-- The outer loop. -/
def dumpSlabs (cache : Nat) : Nat → Nat → Kernel ρ →
    Except Halt (List DebugLine × Kernel ρ)
  | 0, _, _ => .error .outOfFuel
  | fuel + 1, slabCount, k =>
    let slab := k.cacheSlabs cache
    if slab = 0 then .ok ([], k)
    else
      match dumpBufctls cache fuel 0 (k.setSlabFreelist slab (k.slabFreelistHead slab)) with
      | .error e => .error e
      | .ok (bufctls, k) =>
        match dumpSlabs cache fuel (slabCount + 1)
            (k.setCacheSlabs cache (k.slabNext (k.cacheSlabs cache))) with
        | .error e => .error e
        | .ok (slabs, k) =>
          .ok (⟨"\tSlab no. %d is at 0x%p\n", [slabCount, slab]⟩ :: (bufctls ++ slabs), k)

def slabCacheDump (fuel : Nat) (k : Kernel ρ) (cache : Nat) (flags : SlabFlags) :
    Except Halt (List DebugLine × Kernel ρ) :=
  let k := k.setCacheSlabs cache (k.cacheSlabsHead cache)
  if k.cacheSlabs cache = 0 ∧ flags.panic then
    .error (.panic "Slab cache dump (name missing): Slabs don't exist\n" 0)
  else if k.cacheSlabs cache = 0 then .ok ([], k)
  else
    let line : DebugLine := ⟨"Dump for cache with name '%s'\n", [k.cacheName cache]⟩
    match dumpSlabs cache fuel 0 k with
    | .error e => .error e
    | .ok (lines, k) => .ok (line :: lines, k)

end ApoptOS
