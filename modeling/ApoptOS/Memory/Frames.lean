import ApoptOS.Framework.ByteMemory
import ApoptOS.Memory.Mem

namespace ApoptOS

open Framework

/-- What the slab allocator, the page tables and the heap call of the page
frame allocator: `pmm_allocz(pageCount)` and `pmm_free(pointer, pageCount)`,
acting on memory and on the allocator's own variables `ρ`. -/
structure PageFrames (ρ : Type) where
  allocz : Nat → Mem → ρ → Nat × Mem × ρ
  free : Nat → Nat → Mem → ρ → Mem × ρ

inductive FrameCall where
  | allocz (pageCount pointer : Nat)
  | free (pointer pageCount : Nat)
  deriving DecidableEq, Repr

/-- Memory, the frame allocator's variables and the calls made to it so far,
latest first. The history is only observed, never read by the code. -/
structure Kernel (ρ : Type) where
  mem : Mem
  frames : ρ
  calls : List FrameCall

variable {ρ : Type}

namespace Kernel

def pmmAllocz (A : PageFrames ρ) (k : Kernel ρ) (pageCount : Nat) : Nat × Kernel ρ :=
  let r := A.allocz pageCount k.mem k.frames
  (r.1, ⟨r.2.1, r.2.2, .allocz pageCount r.1 :: k.calls⟩)

def pmmFree (A : PageFrames ρ) (k : Kernel ρ) (pointer pageCount : Nat) : Kernel ρ :=
  let r := A.free pointer pageCount k.mem k.frames
  ⟨r.1, r.2, .free pointer pageCount :: k.calls⟩

def store64 (k : Kernel ρ) (a v : Nat) : Kernel ρ := { k with mem := k.mem.store64 a v }
def store16 (k : Kernel ρ) (a v : Nat) : Kernel ρ := { k with mem := k.mem.store16 a v }

@[simp] theorem store64_mem (k : Kernel ρ) (a v : Nat) :
    (k.store64 a v).mem = k.mem.store64 a v := rfl
@[simp] theorem store64_frames (k : Kernel ρ) (a v : Nat) : (k.store64 a v).frames = k.frames :=
  rfl
@[simp] theorem store64_calls (k : Kernel ρ) (a v : Nat) : (k.store64 a v).calls = k.calls := rfl
@[simp] theorem store16_mem (k : Kernel ρ) (a v : Nat) :
    (k.store16 a v).mem = k.mem.store16 a v := rfl
@[simp] theorem store16_frames (k : Kernel ρ) (a v : Nat) : (k.store16 a v).frames = k.frames :=
  rfl
@[simp] theorem store16_calls (k : Kernel ρ) (a v : Nat) : (k.store16 a v).calls = k.calls := rfl

/-- No frame request has been refused so far. -/
def Served (k : Kernel ρ) : Prop := ∀ n, FrameCall.allocz n 0 ∉ k.calls

end Kernel

/-- How the kernel stops without returning: `log(PANIC, ..)` with its format
and argument, or the bound put on a loop of the model. -/
inductive Halt where
  | panic (format : String) (argument : Nat)
  | outOfFuel
  deriving DecidableEq, Repr

/-- The addresses of a set of page frames. -/
def frameBytes (F : Set Nat) : Set Nat := {a | a / 4096 ∈ F}

theorem mem_frameBytes {F : Set Nat} {a : Nat} : a ∈ frameBytes F ↔ a / 4096 ∈ F := Iff.rfl

/-- The behaviour clients rely on for single frames. `U` are the frames under
management, in which the allocator keeps nothing of its own; `Holds m r F`
says that the frames `F` are handed out in that state. A request either fails
or hands out a zeroed frame that nobody holds. -/
structure PageFrames.Lawful (A : PageFrames ρ) (U : Set Nat)
    (Holds : Mem → ρ → Set Nat → Prop) : Prop where
  managed : ∀ f ∈ U, f ≠ 0 ∧ f < 2 ^ 40
  subset : ∀ m r F, Holds m r F → F ⊆ U
  allocz_one : ∀ m r F, Holds m r F →
    ((A.allocz 1 m r).1 = 0 ∧ Holds (A.allocz 1 m r).2.1 (A.allocz 1 m r).2.2 F ∧
      Mem.SameOn (frameBytes F) m (A.allocz 1 m r).2.1) ∨
    ∃ f, (A.allocz 1 m r).1 = f * 4096 ∧ f ∉ F ∧
      Holds (A.allocz 1 m r).2.1 (A.allocz 1 m r).2.2 (insert f F) ∧
      Mem.SameOn (frameBytes F) m (A.allocz 1 m r).2.1 ∧
      ∀ a, a / 4096 = f → (A.allocz 1 m r).2.1 a = 0#8
  free_one : ∀ m r F p, Holds m r F → p / 4096 ∈ F →
    Holds (A.free p 1 m r).1 (A.free p 1 m r).2 (F \ {p / 4096}) ∧
      Mem.SameOn (frameBytes U) m (A.free p 1 m r).1
  client_writes : ∀ m m' r F, Holds m r F → Mem.SameOn (frameBytes U)ᶜ m m' → Holds m' r F

/-- A frame is refused only when all frames under management are held. -/
def PageFrames.Complete (A : PageFrames ρ) (U : Set Nat)
    (Holds : Mem → ρ → Set Nat → Prop) :
    Prop :=
  ∀ m r F, Holds m r F → (A.allocz 1 m r).1 = 0 → F = U

theorem PageFrames.Complete.refused_iff {A : PageFrames ρ} {U F : Set Nat}
    {Holds : Mem → ρ → Set Nat → Prop} (hfull : A.Complete U Holds) (hA : A.Lawful U Holds)
    {m : Mem} {r : ρ} (h : Holds m r F) : (A.allocz 1 m r).1 = 0 ↔ F = U := by
  refine ⟨hfull m r F h, fun hFU => ?_⟩
  rcases hA.allocz_one m r F h with ⟨h0, -⟩ | ⟨f, -, hfF, hh, -⟩
  · exact h0
  · exact absurd (hFU ▸ hA.subset _ _ _ hh (Set.mem_insert f F)) hfF

end ApoptOS
