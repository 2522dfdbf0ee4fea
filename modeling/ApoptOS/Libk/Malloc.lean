import ApoptOS.Memory.Dynamic.Slab

namespace ApoptOS

open Framework

/-- `malloc_metadata_t` is one 16-bit word: cache index or page count. -/
def metadataSize : Nat := 2

def nextPowerOfTwo (n : Nat) : Nat :=
  if n ≤ 16 then 16
  else
    let n := n - 1
    let n := n ||| n >>> 1
    let n := n ||| n >>> 2
    let n := n ||| n >>> 4
    let n := n ||| n >>> 8
    let n := n ||| n >>> 16
    (n + 1) % 2 ^ 32

def roundAllocSize (size : Nat) : Nat :=
  if size ≤ 512 then nextPowerOfTwo size else alignUp size pageSize

/-- `none` is the code's -1. -/
def sizeToSlabCacheIndex : Nat → Option Nat
  | 16 => some 0
  | 32 => some 1
  | 64 => some 2
  | 128 => some 3
  | 256 => some 4
  | 512 => some 5
  | _ => none

/-- The kernel with the static array `slab_caches` of malloc.c. -/
structure Heap (ρ : Type) where
  kernel : Kernel ρ
  slabCaches : List Nat

variable {ρ : Type} (A : PageFrames ρ)

def heapFlags : SlabFlags := ⟨true, true, true⟩
def panicFlags : SlabFlags := ⟨true, false, false⟩

/-- `slab_cache_create` once for each size, in order; the name of a cache is
represented by its size. -/
def createCaches (k : Kernel ρ) : List Nat → Except Halt (List Nat × Kernel ρ)
  | [] => .ok ([], k)
  | size :: sizes =>
    match slabCacheCreate A k size size heapFlags with
    | .error e => .error e
    | .ok (cache, k) =>
      match createCaches k sizes with
      | .error e => .error e
      | .ok (caches, k) => .ok (cache :: caches, k)

def heapSlabSizes : List Nat := [16, 32, 64, 128, 256, 512]

def mallocHeapInit (k : Kernel ρ) : Except Halt (Heap ρ) :=
  match createCaches A k heapSlabSizes with
  | .error e => .error e
  | .ok (caches, k) => .ok ⟨k, caches⟩

/-- Store the tag and step over it, into the heap window. -/
def Heap.tagged (h : Heap ρ) (pointer tag : Nat) : Nat × Heap ρ :=
  (add64 (add64 pointer metadataSize) heapStartAddr,
    { h with kernel := h.kernel.store16 pointer tag })

def malloc (fuel : Nat) (h : Heap ρ) (size : Nat) : Except Halt (Nat × Heap ρ) :=
  let newSize := roundAllocSize (add64 size metadataSize)
  if newSize ≤ 512 then
    match sizeToSlabCacheIndex newSize with
    | none => .ok (0, h)
    | some index =>
      match slabCacheAlloc A fuel h.kernel (h.slabCaches.getD index 0) panicFlags with
      | .error e => .error e
      | .ok (pointer, k) =>
        if pointer = 0 then .ok (0, { h with kernel := k })
        else .ok (Heap.tagged { h with kernel := k } pointer index)
  else
    let pageCount := newSize / pageSize
    let r := h.kernel.pmmAllocz A pageCount
    if r.1 = 0 then .ok (0, { h with kernel := r.2 })
    else .ok (Heap.tagged { h with kernel := r.2 } r.1 pageCount)

/-- Where `free` looks for the metadata of a heap pointer. -/
def metadataOf (pointer : Nat) : Nat := sub64 (sub64 pointer heapStartAddr) metadataSize

/-- An index beyond the array, which no pointer from `malloc` leads to, is
read as a null cache. -/
def free (fuel : Nat) (h : Heap ρ) (pointer : Nat) : Except Halt (Heap ρ) :=
  if pointer = 0 then .ok h
  else
    let metadata := metadataOf pointer
    if metadata % 4096 ≠ 0 then
      let index := h.kernel.mem.load16 metadata
      match slabCacheFree fuel h.kernel (h.slabCaches.getD index 0) metadata panicFlags with
      | .error e => .error e
      | .ok k => .ok { h with kernel := k }
    else
      let pageCount := h.kernel.mem.load16 metadata
      .ok { h with kernel := h.kernel.pmmFree A metadata pageCount }

/-- `none` is the code's -1. -/
def slabCacheIndexToSize : Nat → Option Nat
  | 0 => some 16
  | 1 => some 32
  | 2 => some 64
  | 3 => some 128
  | 4 => some 256
  | 5 => some 512
  | _ => none

/-- The heap window maps `HEAP_START_ADDR + a` to `a`. -/
def heapPhys (address : Nat) : Nat := sub64 address heapStartAddr

/-- `memcpy` between heap pointers, byte by byte from the front. -/
def memcpy (m : Mem) (dest src : Nat) : Nat → Mem
  | 0 => m
  | n + 1 =>
    let m := memcpy m dest src n
    m.set (heapPhys (dest + n)) (m (heapPhys (src + n)))

/-- The size `realloc` takes a block to have: the slot size its tag names, or
the page count in its tag divided by `PAGE_SIZE`. -/
def reallocOldSize (m : Mem) (metadata : Nat) : Option Nat :=
  if metadata % 4096 ≠ 0 then slabCacheIndexToSize (m.load16 metadata)
  else some (m.load16 metadata / pageSize)

def realloc (fuel : Nat) (h : Heap ρ) (oldPointer newSize : Nat) : Except Halt (Nat × Heap ρ) :=
  if oldPointer = 0 then malloc A fuel h newSize
  else if newSize = 0 then
    match free A fuel h oldPointer with
    | .error e => .error e
    | .ok h => .ok (0, h)
  else
    let metadata := metadataOf oldPointer
    let roundedNewSize := roundAllocSize newSize
    match reallocOldSize h.kernel.mem metadata with
    | none => .ok (0, h)
    | some oldSize =>
      let oldPointer := add64 (add64 metadata metadataSize) heapStartAddr
      if oldSize = roundedNewSize then .ok (oldPointer, h)
      else
        match malloc A fuel h newSize with
        | .error e => .error e
        | .ok (newPointer, h) =>
          if newPointer = 0 then .ok (0, h)
          else
            let n := if roundedNewSize < oldSize then roundedNewSize else oldSize
            let mem := memcpy h.kernel.mem newPointer oldPointer n
            match free A fuel { h with kernel := { h.kernel with mem := mem } } oldPointer with
            | .error e => .error e
            | .ok h => .ok (newPointer, h)

end ApoptOS
