import ApoptOS.Memory.Physical.PmmInit

namespace ApoptOS

open Framework

/-- `bitmap->map[bit / 8]` is one of the bitmap's bytes. -/
def Bitmap.Inside (bitmap : Bitmap) (bit : Int) : Prop :=
  ∃ k < bitmap.size, (bitmap.map + bit.tdiv 8) % 2 ^ 64 = ((bitmap.map + k : Nat) : Int) % 2 ^ 64

/-- The bitmap has a bit for every frame, and the bitmap functions reach it. -/
structure BitmapCovers (pmm : Pmm) : Prop where
  size : pageToBit pmm.highestPageTop ≤ 8 * pmm.bitmap.size
  inside : ∀ f < pageToBit pmm.highestPageTop, pmm.bitmap.Inside (toInt f)

theorem freeUsable_keeps (es : List MmapEntry) (m : Mem) (pmm : Pmm) :
    (freeUsable m pmm es).2.bitmap = pmm.bitmap ∧
      (freeUsable m pmm es).2.highestPageTop = pmm.highestPageTop := by
  induction es generalizing m pmm with
  | nil => exact ⟨rfl, rfl⟩
  | cons e es ih =>
    rw [freeUsable]
    split_ifs
    · exact ih _ _
    · exact ih _ _

theorem pmmInit_size (m : Mem) (memoryMap : List MmapEntry) :
    (pmmInit m memoryMap).2.1.bitmap.size = bitmapSize (highestTop memoryMap) ∧
      (pmmInit m memoryMap).2.1.highestPageTop = highestTop memoryMap := by
  obtain ⟨hbitmap, htop⟩ := freeUsable_keeps (hostBitmap (bitmapSize (highestTop memoryMap))
    memoryMap).2 (m.memset (physOf (((hostBitmap (bitmapSize (highestTop memoryMap))
      memoryMap).1.map physToHigherHalfData).getD 0)) 0xFF (bitmapSize (highestTop memoryMap)))
    ⟨⟨((hostBitmap (bitmapSize (highestTop memoryMap)) memoryMap).1.map
      physToHigherHalfData).getD 0, bitmapSize (highestTop memoryMap)⟩, highestTop memoryMap,
      kbToPages (highestTop memoryMap)⟩
  exact ⟨congrArg Bitmap.size hbitmap, htop⟩

/-- The truncating division loses the last bits when the rest fills whole pages. -/
theorem bitmapSize_covers {top : Nat} (ht : top < 2 ^ 64) :
    pageToBit top ≤ 8 * bitmapSize top ↔
      pageToBit top % 32768 = 0 ∨ 8 ≤ pageToBit top % 32768 := by
  have hpage : pageToBit top = top / 4096 := rfl
  rw [bitmapSize_eq ht, hpage]
  omega

theorem Bitmap.inside_of_lt {bitmap : Bitmap} {f : Nat} (hf : f < 2 ^ 31)
    (hs : f < 8 * bitmap.size) : bitmap.Inside (toInt f) := by
  refine ⟨f / 8, by omega, ?_⟩
  rw [toInt_of_lt hf]
  have hdiv : ((f : Int)).tdiv 8 = ((f / 8 : Nat) : Int) := by
    rw [Int.tdiv_eq_ediv_of_nonneg (by omega)]
    omega
  rw [hdiv]
  push_cast
  rfl

/-- The index 2^31 is negative as an `int`: its byte lies in front of the bitmap. -/
theorem Bitmap.not_inside {bitmap : Bitmap} (hs : bitmap.size ≤ 2 ^ 52) :
    ¬ bitmap.Inside (toInt (2 ^ 31)) := by
  rintro ⟨k, hk, he⟩
  have hint : (toInt (2 ^ 31)).tdiv 8 = -2 ^ 28 := by decide
  rw [hint] at he
  push_cast at he
  omega

/-- For every memory map: the bitmap `pmm_init` sets up covers all frames exactly if
there are at most 2^31, and their number leaves no rest from 1 to 7 modulo 32768. -/
theorem bitmap_covers_iff (m : Mem) (memoryMap : List MmapEntry) :
    BitmapCovers (pmmInit m memoryMap).2.1 ↔
      pageToBit (highestTop memoryMap) ≤ 2 ^ 31 ∧
        (pageToBit (highestTop memoryMap) % 32768 = 0 ∨
          8 ≤ pageToBit (highestTop memoryMap) % 32768) := by
  obtain ⟨hsize, htop⟩ := pmmInit_size m memoryMap
  have hlt := highestTop_lt memoryMap
  have hcovers := bitmapSize_covers hlt
  constructor
  · intro h
    have hle := h.size
    rw [hsize, htop] at hle
    refine ⟨?_, hcovers.mp hle⟩
    by_contra hbig
    refine Bitmap.not_inside ?_ (h.inside (2 ^ 31) (by rw [htop]; omega))
    rw [hsize, bitmapSize_eq hlt]
    omega
  · rintro ⟨hN, hrest⟩
    have hle := hcovers.mpr hrest
    refine ⟨by rwa [hsize, htop], fun f hf => ?_⟩
    rw [htop] at hf
    exact Bitmap.inside_of_lt (by omega) (by rw [hsize]; omega)

/-- 128 MiB and one page: the bitmap of 4096 bytes has no bit for the last of 32769
frames. -/
theorem bitmap_misses_last_frame :
    pageToBit (highestTop [⟨0x1000, 0x8000000, .usable⟩]) = 32769 ∧
      bitmapSize (highestTop [⟨0x1000, 0x8000000, .usable⟩]) = 4096 ∧
      ¬ BitmapCovers (pmmInit (fun _ => 0#8) [⟨0x1000, 0x8000000, .usable⟩]).2.1 := by
  have htop : highestTop [⟨0x1000, 0x8000000, .usable⟩] = 0x8001000 :=
    highestTop_single (by decide)
  have hN : pageToBit (highestTop [⟨0x1000, 0x8000000, .usable⟩]) = 32769 := by
    rw [htop]
    decide
  have hs : bitmapSize (highestTop [⟨0x1000, 0x8000000, .usable⟩]) = 4096 := by
    rw [htop, bitmapSize_eq (by decide)]
  refine ⟨hN, hs, fun h => ?_⟩
  obtain ⟨hsize, hpage⟩ := pmmInit_size (fun _ => 0#8) [⟨0x1000, 0x8000000, .usable⟩]
  have hle := h.size
  rw [hsize, hpage, hN, hs] at hle
  omega

end ApoptOS
