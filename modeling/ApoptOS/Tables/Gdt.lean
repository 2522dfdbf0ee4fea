import Mathlib.Data.Nat.Bits
import Mathlib.Tactic

namespace ApoptOS

/-- `tss_descriptor_t`, the sixth entry of the table. -/
structure TssDescriptor where
  length : Nat
  baseLow : Nat
  baseMiddle : Nat
  flags1 : Nat
  flags2 : Nat
  baseHigh : Nat
  baseUpper : Nat
  reserved : Nat
  deriving DecidableEq, Repr

inductive TssField where
  | length
  | baseLow
  | baseMiddle
  | flags1
  | flags2
  | baseHigh
  | baseUpper
  | reserved
  deriving DecidableEq, Repr

/-- A segment that may be loaded, and one that a CPU has loaded. -/
def tssAvailable : Nat := 0b10001001
def tssBusy : Nat := 0b10001011

namespace TssDescriptor

/-- One assignment of `tss_create_segment`. -/
def store (d : TssDescriptor) (addr : Nat) : TssField → TssDescriptor
  | .length => { d with length := 104 }
  | .baseLow => { d with baseLow := addr % 2 ^ 16 }
  | .baseMiddle => { d with baseMiddle := (addr >>> 16) % 2 ^ 8 }
  | .flags1 => { d with flags1 := tssAvailable }
  | .flags2 => { d with flags2 := 0 }
  | .baseHigh => { d with baseHigh := (addr >>> 24) % 2 ^ 8 }
  | .baseUpper => { d with baseUpper := (addr >>> 32) % 2 ^ 32 }
  | .reserved => { d with reserved := 0 }

/-- The address the CPU reads from the descriptor. -/
def base (d : TssDescriptor) : Nat :=
  d.baseLow + d.baseMiddle * 2 ^ 16 + d.baseHigh * 2 ^ 24 + d.baseUpper * 2 ^ 32

/-- `ltr`: the base is loaded and the segment marked busy. On one that is not
available the instruction faults. -/
def ltr (d : TssDescriptor) : Option (Nat × TssDescriptor) :=
  if d.flags1 = tssAvailable then some (d.base, { d with flags1 := tssBusy }) else none

theorem available_of_ltr {d : TssDescriptor} {r : Nat × TssDescriptor} (h : d.ltr = some r) :
    d.flags1 = tssAvailable := by
  unfold ltr at h
  split_ifs at h with hflags
  exact hflags

end TssDescriptor

/-- The assignments in the order of the source. -/
def tssCreateSegment : List TssField :=
  [.length, .baseLow, .baseMiddle, .flags1, .flags2, .baseHigh, .baseUpper, .reserved]

/-- The pieces of an address put together again. -/
theorem base_pieces {addr : Nat} (h : addr < 2 ^ 64) :
    addr % 2 ^ 16 + (addr >>> 16) % 2 ^ 8 * 2 ^ 16 + (addr >>> 24) % 2 ^ 8 * 2 ^ 24 +
      (addr >>> 32) % 2 ^ 32 * 2 ^ 32 = addr := by
  simp only [Nat.shiftRight_eq_div_pow]
  omega

/-- Whatever the descriptor held, after all assignments `ltr` loads the address. -/
theorem ltr_tssCreateSegment (d : TssDescriptor) {addr : Nat} (h : addr < 2 ^ 64) :
    ∃ d', (tssCreateSegment.foldl (fun d f => d.store addr f) d).ltr = some (addr, d') := by
  refine ⟨⟨104, addr % 2 ^ 16, (addr >>> 16) % 2 ^ 8, tssBusy, 0, (addr >>> 24) % 2 ^ 8,
    (addr >>> 32) % 2 ^ 32, 0⟩, ?_⟩
  have hbase := base_pieces h
  simp only [tssCreateSegment, List.foldl_cons, List.foldl_nil, TssDescriptor.store,
    TssDescriptor.ltr, TssDescriptor.base, if_true, hbase]

end ApoptOS
