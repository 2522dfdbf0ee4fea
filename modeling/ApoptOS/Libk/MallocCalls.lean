import ApoptOS.Libk.MallocWhole
import ApoptOS.Libk.ReallocMove

namespace ApoptOS

open Framework

/-- A step of the heap, or a call of `realloc`. -/
inductive HeapCall where
  | heap (op : HeapOp)
  | realloc (pointer size : Nat)

namespace HeapCall

/-- The block that a call or a write is about. -/
def Given (b : Block) : HeapCall → Prop
  | .heap op => op.Given b
  | .realloc p _ => p = b.pointer

/-- For `NULL` the request is sound. A block that `realloc` keeps has room for the new size; for one
that it moves the request for the new block is sound, and what is copied fits there. -/
def Sound (W : Set Nat) (s : HeapState Pmm) : HeapCall → Prop
  | .heap op => op.Sound W s
  | .realloc p n => n < 2 ^ 64 ∧ (p = 0 → HeapOp.Sound W s (.malloc n)) ∧
    ∀ b ∈ s.blocks, b.pointer = p → n ≠ 0 →
      if b.oldSize = roundAllocSize n then metadataSize + n ≤ b.space
      else HeapOp.Sound W s (.malloc n) ∧ CopyFits b n

end HeapCall

namespace HeapState

variable {ρ : Type} (A : PageFrames ρ) (fuel : Nat)

/-- For `NULL` there is a new block only. A new size of 0 frees the block, and a refused request
leaves it as it was. `none` when the kernel does not return, or when a client names a block it does
not own. -/
def call (s : HeapState ρ) : HeapCall → Option (HeapState ρ)
  | .heap op => s.exec A fuel op
  | .realloc p n =>
    match realloc A fuel s.heap p n with
    | .error _ => none
    | .ok (q, h) =>
      if p = 0 then some ⟨h, if q = 0 then s.blocks else ⟨q, n⟩ :: s.blocks⟩
      else do
        let b ← s.blocks.find? (fun b => b.pointer = p)
        some ⟨h,
          if n = 0 then s.blocks.erase b
          else if q = 0 then s.blocks
          else ⟨q, n⟩ :: s.blocks.erase b⟩

end HeapState

namespace HeapInv

section Resize

variable {ρ : Type} {Holds : Mem → ρ → Set Nat → Prop} {s : HeapState ρ} {F : Set Nat}
  {caches : List SlabCache} {view : Nat → CacheView}

end Resize

variable {base fuel n q : Nat} {U W F : Set Nat} {s s' : HeapState Pmm} {h1 h' : Heap Pmm}
  {caches : List SlabCache} {view : Nat → CacheView} {b : Block}

end HeapInv

end ApoptOS
