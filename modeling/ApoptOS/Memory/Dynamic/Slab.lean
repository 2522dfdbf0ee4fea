import ApoptOS.Memory.Frames

namespace ApoptOS

open Framework

structure SlabFlags where
  panic : Bool
  autoGrow : Bool
  noAlign : Bool
  deriving DecidableEq, Repr

/-! The structures in memory: `slab_bufctl_t` is packed (`next` at 0, a 16-bit
`index` at 8); `slab_t` and `slab_cache_t` hold five words each. -/

def bufctlSize : Nat := 10
def slabSizeof : Nat := 40
def cacheSizeof : Nat := 40

section Fields

variable {ρ : Type} (k : Kernel ρ) (p v : Nat)

def Kernel.bufctlNext : Nat := k.mem.load64 p
def Kernel.setBufctlNext : Kernel ρ := k.store64 p v
def Kernel.setBufctlIndex : Kernel ρ := k.store16 (p + 8) v

def Kernel.slabNext : Nat := k.mem.load64 p
def Kernel.slabBufctlCount : Nat := k.mem.load64 (p + 8)
def Kernel.slabBufctlAddr : Nat := k.mem.load64 (p + 16)
def Kernel.slabFreelistHead : Nat := k.mem.load64 (p + 24)
def Kernel.slabFreelist : Nat := k.mem.load64 (p + 32)
def Kernel.setSlabNext : Kernel ρ := k.store64 p v
def Kernel.setSlabBufctlCount : Kernel ρ := k.store64 (p + 8) v
def Kernel.setSlabBufctlAddr : Kernel ρ := k.store64 (p + 16) v
def Kernel.setSlabFreelistHead : Kernel ρ := k.store64 (p + 24) v
def Kernel.setSlabFreelist : Kernel ρ := k.store64 (p + 32) v

def Kernel.cacheName : Nat := k.mem.load64 p
def Kernel.cacheSlabSize : Nat := k.mem.load64 (p + 8)
def Kernel.cacheBufctlCountMax : Nat := k.mem.load64 (p + 16)
def Kernel.cacheSlabsHead : Nat := k.mem.load64 (p + 24)
def Kernel.cacheSlabs : Nat := k.mem.load64 (p + 32)
def Kernel.setCacheName : Kernel ρ := k.store64 p v
def Kernel.setCacheSlabSize : Kernel ρ := k.store64 (p + 8) v
def Kernel.setCacheBufctlCountMax : Kernel ρ := k.store64 (p + 16) v
def Kernel.setCacheSlabsHead : Kernel ρ := k.store64 (p + 24) v
def Kernel.setCacheSlabs : Kernel ρ := k.store64 (p + 32) v

end Fields

variable {ρ : Type} (A : PageFrames ρ)

def isPowerOfTwo (num : Nat) : Bool := 0 < num && num &&& (num - 1) = 0

def slabCreateBufctlBuffer (k : Kernel ρ) : Nat × Kernel ρ :=
  let r := k.pmmAllocz A 1
  if r.1 = 0 then (0, r.2) else (r.1, r.2.setBufctlNext r.1 0)

/-- The slab structure sits at the end of the bufctl buffer and is linked
behind the cursor `cache->slabs`. -/
def slabCreateSlab (k : Kernel ρ) (cache bufctl : Nat) : Kernel ρ :=
  let slab := sub64 (add64 bufctl pageSize) slabSizeof
  let k := k.setSlabNext slab 0
  let k := k.setSlabBufctlCount slab (k.cacheBufctlCountMax cache)
  let k := k.setSlabBufctlAddr slab bufctl
  let k := k.setSlabFreelistHead slab 0
  let k := k.setSlabFreelist slab 0
  if k.cacheSlabs cache = 0 then
    let k := k.setCacheSlabsHead cache slab
    k.setCacheSlabs cache slab
  else
    let k := k.setSlabNext (k.cacheSlabs cache) slab
    k.setCacheSlabs cache (k.slabNext (k.cacheSlabs cache))

/-- With `SLAB_NO_ALIGN` a page-aligned slot is left out and the capacity of
slab and cache shrinks by one. -/
def slabInitBufctls (k : Kernel ρ) (cache bufctl index : Nat) (flags : SlabFlags) : Kernel ρ :=
  let newBufctl := add64 bufctl (k.cacheSlabSize cache * index)
  let k := k.setBufctlIndex newBufctl index
  if flags.noAlign ∧ newBufctl % 4096 = 0 then
    let k := k.setSlabBufctlCount (k.cacheSlabs cache)
      (sub64 (k.slabBufctlCount (k.cacheSlabs cache)) 1)
    k.setCacheBufctlCountMax cache (sub64 (k.cacheBufctlCountMax cache) 1)
  else if k.slabFreelist (k.cacheSlabs cache) = 0 then
    let k := k.setSlabFreelistHead (k.cacheSlabs cache) newBufctl
    k.setSlabFreelist (k.cacheSlabs cache) newBufctl
  else
    let k := k.setBufctlNext (k.slabFreelist (k.cacheSlabs cache)) newBufctl
    k.setSlabFreelist (k.cacheSlabs cache)
      (k.bufctlNext (k.slabFreelist (k.cacheSlabs cache)))

/-- The first `n` iterations of the inner loop of `slab_cache_grow`. -/
def initBufctls (k : Kernel ρ) (cache bufctl : Nat) (flags : SlabFlags) : Nat → Kernel ρ
  | 0 => k
  | j + 1 => slabInitBufctls (initBufctls k cache bufctl flags j) cache bufctl j flags

/-- The loop of `slab_cache_grow` with `count` iterations left. -/
def growSlabs (cache : Nat) (flags : SlabFlags) : Nat → Kernel ρ → Except Halt (Kernel ρ)
  | 0, k => .ok k
  | count + 1, k =>
    let r := slabCreateBufctlBuffer A k
    let bufctl := r.1
    if bufctl = 0 ∧ flags.panic then
      .error (.panic "Slab cache grow ('%s'): Couldn't create bufctl\n" (r.2.cacheName cache))
    else if bufctl = 0 then .ok r.2
    else
      let k := slabCreateSlab r.2 cache bufctl
      -- read once: the loop below may lower bufctl_count_max
      let maxConst := k.cacheBufctlCountMax cache
      growSlabs cache flags count (initBufctls k cache bufctl flags maxConst)

def slabCacheGrow (k : Kernel ρ) (cache count : Nat) (flags : SlabFlags) :
    Except Halt (Kernel ρ) :=
  if cache = 0 ∧ flags.panic then
    .error (.panic "Slab cache grow (name missing): Cache doesn't exist\n" 0)
  else if cache = 0 then .ok k
  else growSlabs A cache flags count (k.setCacheSlabs cache (k.cacheSlabsHead cache))

/-- `assert(condition)` in line `line` of slab.c. -/
def slabAssert (condition : Bool) (line : Nat) : Except Halt Unit :=
  if condition then .ok ()
  else .error (.panic "Assert failed at: %s:%d with %s as the condition\n" line)

def slabCacheCreate (k : Kernel ρ) (name slabSize : Nat) (flags : SlabFlags) :
    Except Halt (Nat × Kernel ρ) := do
  slabAssert (slabSize ≤ 512) 52
  slabAssert (bufctlSize ≤ slabSize) 53
  slabAssert (isPowerOfTwo slabSize) 54
  let r := k.pmmAllocz A 1
  let cache := r.1
  if cache = 0 ∧ flags.panic then
    .error (.panic "Slab cache create ('%s'): Couldn't allocate memory\n" name)
  else if cache = 0 then .ok (0, r.2)
  else
    let k := r.2.setCacheName cache name
    let k := k.setCacheSlabSize cache slabSize
    let k := k.setCacheBufctlCountMax cache ((pageSize - cacheSizeof) / k.cacheSlabSize cache)
    let k := k.setCacheSlabs cache 0
    let k ← slabCacheGrow A k cache 1 flags
    .ok (cache, k)

/-- The loop of `slab_cache_alloc`. Growing re-enters `slab_cache_alloc` on the
same non-null cache, which starts over at the head of the list. -/
def allocFromSlabs (cache : Nat) (flags : SlabFlags) :
    Nat → Kernel ρ → Except Halt (Nat × Kernel ρ)
  | 0, _ => .error .outOfFuel
  | fuel + 1, k =>
    let slab := k.cacheSlabs cache
    if slab = 0 ∧ flags.autoGrow then
      match slabCacheGrow A k cache 1 flags with
      | .error e => .error e
      | .ok k => allocFromSlabs cache flags fuel (k.setCacheSlabs cache (k.cacheSlabsHead cache))
    else if slab = 0 ∧ flags.panic then
      .error (.panic "Slab cache alloc ('%s'): Couldn't find allocatable memory\n"
        (k.cacheName cache))
    else if slab = 0 then .ok (0, k)
    else if k.slabFreelistHead slab ≠ 0 then
      let pointer := k.slabFreelistHead slab
      let k := k.setSlabFreelistHead slab (k.bufctlNext (k.slabFreelistHead slab))
      .ok (pointer, k.setSlabBufctlCount slab (sub64 (k.slabBufctlCount slab) 1))
    else allocFromSlabs cache flags fuel (k.setCacheSlabs cache (k.slabNext slab))

def slabCacheAlloc (fuel : Nat) (k : Kernel ρ) (cache : Nat) (flags : SlabFlags) :
    Except Halt (Nat × Kernel ρ) :=
  if cache = 0 ∧ flags.panic then
    .error (.panic "Slab cache alloc (name missing): Cache doesn't exist\n" 0)
  else if cache = 0 then .ok (0, k)
  else allocFromSlabs A cache flags fuel (k.setCacheSlabs cache (k.cacheSlabsHead cache))

/-- The loop of `slab_cache_free`: the first slab with room takes the pointer,
whichever slab it came from. -/
def freeToSlabs (cache pointer : Nat) (flags : SlabFlags) :
    Nat → Kernel ρ → Except Halt (Kernel ρ)
  | 0, _ => .error .outOfFuel
  | fuel + 1, k =>
    let slab := k.cacheSlabs cache
    if slab = 0 ∧ flags.panic then
      .error (.panic "Slab cache free ('%s'): Couldn't find a slab for the to be freed pointer\n"
        (k.cacheName cache))
    else if slab = 0 then .ok k
    else if k.slabBufctlCount slab < k.cacheBufctlCountMax cache then
      let k := k.setBufctlNext pointer (k.slabFreelistHead slab)
      let k := k.setBufctlIndex pointer
        (sub64 pointer (k.slabBufctlAddr slab) / k.cacheSlabSize cache)
      let k := k.setSlabFreelistHead slab pointer
      .ok (k.setSlabBufctlCount slab (k.slabBufctlCount slab + 1))
    else freeToSlabs cache pointer flags fuel (k.setCacheSlabs cache (k.slabNext slab))

def slabCacheFree (fuel : Nat) (k : Kernel ρ) (cache pointer : Nat) (flags : SlabFlags) :
    Except Halt (Kernel ρ) :=
  if cache = 0 ∧ flags.panic then
    .error (.panic "Slab cache free (name missing): Cache doesn't exist\n" 0)
  else if cache = 0 then .ok k
  else freeToSlabs cache pointer flags fuel (k.setCacheSlabs cache (k.cacheSlabsHead cache))

/-- The loop of `slab_cache_reap`. After a slab is unlinked, `prev->next` is
read, and may be written again, in a frame already given back. -/
def reapSlabs (cache : Nat) : Nat → Nat → Kernel ρ → Except Halt (Kernel ρ)
  | 0, _, _ => .error .outOfFuel
  | fuel + 1, prev, k =>
    let slab := k.cacheSlabs cache
    if slab = 0 then .ok k
    else if k.slabBufctlCount slab = k.cacheBufctlCountMax cache then
      let k := if slab = k.cacheSlabsHead cache then k.setCacheSlabsHead cache (k.slabNext slab)
        else k
      let k := k.setSlabNext prev (k.slabNext slab)
      let k := k.pmmFree A slab 1
      reapSlabs cache fuel prev (k.setCacheSlabs cache (k.slabNext prev))
    else reapSlabs cache fuel slab (k.setCacheSlabs cache (k.slabNext slab))

def slabCacheReap (fuel : Nat) (k : Kernel ρ) (cache : Nat) (flags : SlabFlags) :
    Except Halt (Kernel ρ) :=
  if cache = 0 ∧ flags.panic then
    .error (.panic "Slab cache reap (name missing): Cache doesn't exist\n" 0)
  else if cache = 0 then .ok k
  else
    let k := k.setCacheSlabs cache (k.cacheSlabsHead cache)
    reapSlabs A cache fuel (k.cacheSlabsHead cache) k

/-- The loop of `slab_cache_destroy`; the flag tells whether it got past every
slab (`break`) or met a slab in use (`return`). -/
def destroySlabs (cache : Nat) (flags : SlabFlags) :
    Nat → Kernel ρ → Except Halt (Bool × Kernel ρ)
  | 0, _ => .error .outOfFuel
  | fuel + 1, k =>
    let slab := k.cacheSlabs cache
    if slab = 0 then .ok (true, k)
    else if k.slabBufctlCount slab ≠ k.cacheBufctlCountMax cache ∧ flags.panic then
      .error (.panic "Slab cache destroy ('%s'): A slab wasn't compeltely free\n"
        (k.cacheName cache))
    else if k.slabBufctlCount slab ≠ k.cacheBufctlCountMax cache then .ok (false, k)
    else
      let k := k.pmmFree A (k.slabFreelistHead slab) 1
      destroySlabs cache flags fuel (k.setCacheSlabs cache (k.slabNext (k.cacheSlabs cache)))

def slabCacheDestroy (fuel : Nat) (k : Kernel ρ) (cache : Nat) (flags : SlabFlags) :
    Except Halt (Bool × Kernel ρ) :=
  if cache = 0 ∧ flags.panic then
    .error (.panic "Slab cache destroy (name missing): Cache doesn't exist\n" 0)
  else if cache = 0 then .ok (false, k)
  else
    match destroySlabs A cache flags fuel (k.setCacheSlabs cache (k.cacheSlabsHead cache)) with
    | .error e => .error e
    | .ok (false, k) => .ok (false, k)
    | .ok (true, k) =>
      let k := { k with mem := k.mem.memset cache 0 cacheSizeof }
      .ok (true, k.pmmFree A cache 1)

end ApoptOS
