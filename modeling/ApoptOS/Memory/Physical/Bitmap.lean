import ApoptOS.Framework.ByteMemory
import ApoptOS.Memory.Mem

namespace ApoptOS

open Framework

structure Bitmap where
  map : Nat
  size : Nat
  deriving DecidableEq, Repr

/-- A 64-bit bit index converted to the `int` parameter of the bitmap functions. -/
def toInt (n : Nat) : Int := (BitVec.ofNat 32 n).toInt

/-- The byte `bitmap->map[bit / 8]`, with C's truncating division. -/
def bitmapByte (bitmap : Bitmap) (bit : Int) : Nat :=
  physOf ((bitmap.map + bit.tdiv 8) % 2 ^ 64).toNat

/-- `1 << (bit % 8)`. A negative count is undefined in C: the processor takes it modulo
32, which moves the bit out of the byte. No index below 2^31 has one. -/
def bitmapMask (bit : Int) : BitVec 8 := 1#8 <<< (bit.tmod 8 % 32).toNat

def bitmapSetBit (m : Mem) (bitmap : Bitmap) (bit : Int) : Mem :=
  m.set (bitmapByte bitmap bit) (m (bitmapByte bitmap bit) ||| bitmapMask bit)

def bitmapUnsetBit (m : Mem) (bitmap : Bitmap) (bit : Int) : Mem :=
  m.set (bitmapByte bitmap bit) (m (bitmapByte bitmap bit) &&& ~~~(bitmapMask bit))

def bitmapCheckBit (m : Mem) (bitmap : Bitmap) (bit : Int) : BitVec 8 :=
  m (bitmapByte bitmap bit) &&& bitmapMask bit

/-- Bit `b` of a bitmap whose bytes start at physical address `base`. -/
def usedBit (m : Mem) (base b : Nat) : Bool := (m (base + b / 8)).getLsbD (b % 8)

/-- The bitmap's bytes lie at `base`, seen through the higher-half data window,
and stay inside that window for every index an `int` can carry. -/
structure Bitmap.StoredAt (bitmap : Bitmap) (base : Nat) : Prop where
  map : bitmap.map = physToHigherHalfData base
  window : base + 2 ^ 28 ≤ 2 ^ 44

theorem Bitmap.StoredAt.phys {bitmap : Bitmap} {base : Nat} (h : bitmap.StoredAt base) :
    physOf bitmap.map = base := by
  have hw := h.window
  rw [h.map]
  exact physOf_higherHalfData (by omega)

theorem toInt_of_lt {b : Nat} (hb : b < 2 ^ 31) : toInt b = b := by
  unfold toInt
  rw [BitVec.toInt_ofNat', Int.bmod_eq_of_le (by omega) (by omega)]

variable {m : Mem} {bitmap : Bitmap} {base b c : Nat}

theorem bitmapByte_eq (h : bitmap.StoredAt base) (hb : b < 2 ^ 31) :
    bitmapByte bitmap (toInt b) = base + b / 8 := by
  have hw := h.window
  have hdiv : (toInt b).tdiv 8 = ((b / 8 : Nat) : Int) := by
    rw [toInt_of_lt hb]
    exact (Int.ofNat_tdiv b 8).symm
  have hmap : bitmap.map = base + higherHalfData := by
    rw [h.map]
    exact add64_of_lt (by unfold higherHalfData; omega)
  have hsum : (((bitmap.map : Int) + ((b / 8 : Nat) : Int)) % 2 ^ 64).toNat =
      physToHigherHalfData (base + b / 8) := by
    rw [hmap]
    unfold physToHigherHalfData add64
    omega
  rw [bitmapByte, hdiv, hsum]
  exact physOf_higherHalfData (by omega)

theorem bitmapMask_eq (hb : b < 2 ^ 31) : bitmapMask (toInt b) = 1#8 <<< (b % 8) := by
  have hmod : (toInt b).tmod 8 = ((b % 8 : Nat) : Int) := by
    rw [toInt_of_lt hb]
    exact (Int.ofNat_tmod b 8).symm
  have hcount : (((b % 8 : Nat) : Int) % 32).toNat = b % 8 := by omega
  rw [bitmapMask, hmod, hcount]

private theorem and_mask_eq_zero (x : BitVec 8) (k : Nat) (hk : k < 8) :
    x &&& (1#8 <<< k) = 0#8 ↔ x.getLsbD k = false := by
  constructor
  · intro h
    have hbit := congrArg (fun y : BitVec 8 => y.getLsbD k) h
    simpa [hk] using hbit
  · intro h
    apply BitVec.eq_of_getLsbD_eq
    intro i hi
    by_cases hik : i = k
    · subst hik
      simp [h]
    · have hne : ¬ (i - k = 0 ∧ k ≤ i) := by omega
      simp only [BitVec.getLsbD_and, BitVec.getLsbD_shiftLeft, BitVec.getLsbD_one,
        BitVec.getLsbD_zero]
      by_cases hki : i < k
      · simp [hki]
      · have h0 : ¬ (i - k = 0) := by omega
        simp [h0]

theorem bitmapCheckBit_at (hbyte : bitmapByte bitmap (toInt b) = base + b / 8) (hb : b < 2 ^ 31) :
    bitmapCheckBit m bitmap (toInt b) = 0#8 ↔ usedBit m base b = false := by
  rw [bitmapCheckBit, hbyte, bitmapMask_eq hb]
  exact and_mask_eq_zero _ _ (Nat.mod_lt _ (by decide))

theorem bitmapCheckBit_eq (h : bitmap.StoredAt base) (hb : b < 2 ^ 31) :
    bitmapCheckBit m bitmap (toInt b) = 0#8 ↔ usedBit m base b = false :=
  bitmapCheckBit_at (bitmapByte_eq h hb) hb

private theorem getLsbD_mask (k i : Nat) (hi : i < 8) :
    (1#8 <<< k).getLsbD i = decide (i = k) := by
  simp only [BitVec.getLsbD_shiftLeft, BitVec.getLsbD_one, hi]
  by_cases hik : i = k
  · simp [hik]
  · by_cases hlt : i < k
    · simp [hlt, hik]
    · have h0 : ¬ (i - k = 0) := by omega
      simp [h0, hik]

theorem usedBit_set_at (hb8 : bitmapByte bitmap (toInt b) = base + b / 8) (hb : b < 2 ^ 31) :
    usedBit (bitmapSetBit m bitmap (toInt b)) base c = (usedBit m base c || decide (c = b)) := by
  rw [bitmapSetBit, hb8, bitmapMask_eq hb]
  have hc8 : c % 8 < 8 := Nat.mod_lt _ (by decide)
  unfold usedBit
  by_cases hbyte : c / 8 = b / 8
  · have hcb : (c % 8 = b % 8) ↔ c = b := by omega
    rw [hbyte, Mem.set_same, BitVec.getLsbD_or, getLsbD_mask _ _ hc8]
    simp [hcb]
  · have hne : ¬ c = b := by
      intro he
      exact hbyte (by rw [he])
    rw [Mem.set_other _ _ (by omega)]
    simp [hne]

theorem usedBit_set (h : bitmap.StoredAt base) (hb : b < 2 ^ 31) :
    usedBit (bitmapSetBit m bitmap (toInt b)) base c = (usedBit m base c || decide (c = b)) :=
  usedBit_set_at (bitmapByte_eq h hb) hb

theorem usedBit_unset (h : bitmap.StoredAt base) (hb : b < 2 ^ 31) :
    usedBit (bitmapUnsetBit m bitmap (toInt b)) base c =
      (usedBit m base c && !decide (c = b)) := by
  rw [bitmapUnsetBit, bitmapByte_eq h hb, bitmapMask_eq hb]
  have hc8 : c % 8 < 8 := Nat.mod_lt _ (by decide)
  unfold usedBit
  by_cases hbyte : c / 8 = b / 8
  · have hcb : (c % 8 = b % 8) ↔ c = b := by omega
    rw [hbyte, Mem.set_same, BitVec.getLsbD_and, BitVec.getLsbD_not, getLsbD_mask _ _ hc8]
    simp [hcb, hc8]
  · have hne : ¬ c = b := by
      intro he
      exact hbyte (by rw [he])
    rw [Mem.set_other _ _ (by omega)]
    simp [hne]

/-- Setting a clear bit and clearing it again changes nothing. -/
theorem bitmapUnsetBit_setBit {bit : Int} (h : bitmapCheckBit m bitmap bit = 0#8) :
    bitmapUnsetBit (bitmapSetBit m bitmap bit) bitmap bit = m := by
  funext x
  rw [bitmapUnsetBit, bitmapSetBit]
  by_cases hx : x = bitmapByte bitmap bit
  · rw [hx, Mem.set_same, Mem.set_same]
    apply BitVec.eq_of_getLsbD_eq
    intro i hi
    have hbit := congrArg (fun y : BitVec 8 => y.getLsbD i) h
    simp only [bitmapCheckBit, BitVec.getLsbD_and, BitVec.getLsbD_zero] at hbit
    simp only [BitVec.getLsbD_and, BitVec.getLsbD_or, BitVec.getLsbD_not, hi, decide_true,
      Bool.true_and]
    cases hm : (m (bitmapByte bitmap bit)).getLsbD i <;>
      cases hk : (bitmapMask bit).getLsbD i <;> simp_all
  · rw [Mem.set_other _ _ hx, Mem.set_other _ _ hx]

/-- Setting or clearing a bit writes the one byte that holds it. -/
theorem bitmap_frame (h : bitmap.StoredAt base) (hb : b < 2 ^ 31) {x : Nat}
    (hx : x ≠ base + b / 8) :
    bitmapSetBit m bitmap (toInt b) x = m x ∧ bitmapUnsetBit m bitmap (toInt b) x = m x := by
  rw [bitmapSetBit, bitmapUnsetBit, bitmapByte_eq h hb]
  exact ⟨Mem.set_other _ _ hx, Mem.set_other _ _ hx⟩

theorem usedBit_congr {m' : Mem} (h : m' (base + b / 8) = m (base + b / 8)) :
    usedBit m' base b = usedBit m base b := by
  unfold usedBit
  rw [h]

end ApoptOS
