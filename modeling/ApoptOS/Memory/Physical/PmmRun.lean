import ApoptOS.Memory.Physical.PmmInit

namespace ApoptOS

open Framework

/-- A call of a frame client. -/
inductive PmmOp where
  | alloc (pageCount : Nat)
  | allocz (pageCount : Nat)
  | free (pointer pageCount : Nat)
  deriving DecidableEq, Repr

/-- Memory, the allocator's variables and the ranges handed out and not yet
given back, as (pointer, page count) pairs. -/
structure PmmState where
  mem : Mem
  pmm : Pmm
  live : List (Nat × Nat)

namespace PmmState

/-- The range a successful request adds to the live ranges. -/
def record (live : List (Nat × Nat)) (pointer pageCount : Nat) : List (Nat × Nat) :=
  if pointer = 0 then live else (pointer, pageCount) :: live

/-- One call. Only live pairs may be freed. -/
def exec (s : PmmState) : PmmOp → Option PmmState
  | .alloc n =>
    let r := pmmAlloc n s.mem s.pmm
    some ⟨r.2.1, r.2.2, record s.live r.1 n⟩
  | .allocz n =>
    let r := pmmAllocz n s.mem s.pmm
    some ⟨r.2.1, r.2.2, record s.live r.1 n⟩
  | .free p n =>
    if (p, n) ∈ s.live then
      let r := pmmFree p n s.mem s.pmm
      some ⟨r.1, r.2, s.live.erase (p, n)⟩
    else none

def run (s : PmmState) : List PmmOp → Option PmmState
  | [] => some s
  | op :: ops =>
    match s.exec op with
    | some s' => s'.run ops
    | none => none

def boot (m : Mem) (memoryMap : List MmapEntry) : PmmState :=
  ⟨(pmmInit m memoryMap).1, (pmmInit m memoryMap).2.1, []⟩

end PmmState

/-- The request is for at least one page and meets neither defect of the
allocator: the run it is about to be given is free as a whole, and a refused
zeroing request does not wipe the bitmap from address 0 up. -/
def PmmOp.Sound (s : PmmState) : PmmOp → Prop
  | .alloc n => 0 < n ∧ ServedInFull s.mem s.pmm n
  | .allocz n => 0 < n ∧ ServedInFull s.mem s.pmm n ∧
      ((0 < s.pmm.usedPagesCount ∧
          ∃ i < pageToBit s.pmm.highestPageTop, ProbesFree s.mem s.pmm n i) ∨
        4096 * n ≤ physOf s.pmm.bitmap.map)
  | .free _ _ => True

instance (s : PmmState) (op : PmmOp) : Decidable (op.Sound s) :=
  match op with
  | .alloc n => inferInstanceAs (Decidable (0 < n ∧ ServedInFull s.mem s.pmm n))
  | .allocz n => inferInstanceAs (Decidable (0 < n ∧ ServedInFull s.mem s.pmm n ∧
      ((0 < s.pmm.usedPagesCount ∧
          ∃ i < pageToBit s.pmm.highestPageTop, ProbesFree s.mem s.pmm n i) ∨
        4096 * n ≤ physOf s.pmm.bitmap.map)))
  | .free _ _ => inferInstanceAs (Decidable True)

/-- Every request of the run is sound in the state it is made in. -/
def PmmState.SoundRun (s : PmmState) : List PmmOp → Prop
  | [] => True
  | op :: ops => op.Sound s ∧
    match s.exec op with
    | some s' => s'.SoundRun ops
    | none => True

instance PmmState.decidableSoundRun : (s : PmmState) → (ops : List PmmOp) →
    Decidable (s.SoundRun ops)
  | _, [] => isTrue trivial
  | s, op :: ops =>
    have : Decidable (match s.exec op with
        | some s' => s'.SoundRun ops
        | none => True) :=
      match s.exec op with
      | some s' => decidableSoundRun s' ops
      | none => isTrue trivial
    inferInstanceAs (Decidable (op.Sound s ∧ match s.exec op with
      | some s' => s'.SoundRun ops
      | none => True))

/-- The frames of the live ranges. -/
def heldFrames (live : List (Nat × Nat)) : Set Nat :=
  {f | ∃ r ∈ live, f ∈ frameRun (r.1 / 4096) r.2}

def RangesDisjoint (live : List (Nat × Nat)) : Prop :=
  live.Pairwise (fun a b => Disjoint (frameRun (a.1 / 4096) a.2) (frameRun (b.1 / 4096) b.2))

theorem heldFrames_cons (p n : Nat) (live : List (Nat × Nat)) :
    heldFrames ((p, n) :: live) = heldFrames live ∪ frameRun (p / 4096) n := by
  ext f
  simp only [heldFrames, List.mem_cons, Set.mem_union]
  constructor
  · rintro ⟨r, rfl | hr, hf⟩
    · exact Or.inr hf
    · exact Or.inl ⟨r, hr, hf⟩
  · rintro (⟨r, hr, hf⟩ | hf)
    · exact ⟨r, Or.inr hr, hf⟩
    · exact ⟨(p, n), Or.inl rfl, hf⟩

theorem heldFrames_erase {live : List (Nat × Nat)} {r : Nat × Nat} (hr : r ∈ live)
    (hd : RangesDisjoint live) :
    RangesDisjoint (live.erase r) ∧
      heldFrames (live.erase r) = heldFrames live \ frameRun (r.1 / 4096) r.2 := by
  have hperm := List.perm_cons_erase hr
  have hcons : (r :: live.erase r).Pairwise
      (fun a b => Disjoint (frameRun (a.1 / 4096) a.2) (frameRun (b.1 / 4096) b.2)) :=
    (hperm.pairwise_iff (fun h => h.symm)).mp hd
  obtain ⟨hhead, htail⟩ := List.pairwise_cons.mp hcons
  refine ⟨htail, ?_⟩
  ext f
  constructor
  · rintro ⟨q, hq, hf⟩
    exact ⟨⟨q, List.mem_of_mem_erase hq, hf⟩,
      fun hc => Set.disjoint_left.mp (hhead q hq) hc hf⟩
  · rintro ⟨⟨q, hq, hf⟩, hnot⟩
    have hmem : q ∈ r :: live.erase r := hperm.mem_iff.mp hq
    rcases List.mem_cons.mp hmem with rfl | hmem
    · exact absurd hf hnot
    · exact ⟨q, hmem, hf⟩

/-- Live ranges are disjoint and made of managed frames, and the bitmap knows
them all. -/
structure PmmState.Owned (s : PmmState) (base : Nat) (U : Set Nat) : Prop where
  inv : PmmInv s.mem s.pmm base U (heldFrames s.live)
  disjoint : RangesDisjoint s.live

namespace PmmState.Owned

variable {s s' : PmmState} {base : Nat} {U : Set Nat}

theorem cons {m : Mem} {pmm : Pmm} {i n : Nat} (h : s.Owned base U) (hi : i ≠ 0)
    (hrun : ∀ f ∈ frameRun i n, f ∈ U ∧ f ∉ heldFrames s.live)
    (hinv : PmmInv m pmm base U (heldFrames s.live ∪ frameRun i n)) :
    Owned ⟨m, pmm, record s.live (i * 4096) n⟩ base U := by
  have hne : ¬ i * 4096 = 0 := by omega
  have hdiv : i * 4096 / 4096 = i := by omega
  constructor
  · simp only [record, hne, if_false, heldFrames_cons, hdiv]
    exact hinv
  · simp only [record, hne, if_false]
    refine List.pairwise_cons.mpr ⟨fun r hr => ?_, h.disjoint⟩
    rw [hdiv]
    exact Set.disjoint_left.mpr (fun f hf hc => (hrun f hf).2 ⟨r, hr, hc⟩)

theorem bitmap_phys (h : s.Owned base U) : physOf s.pmm.bitmap.map = base := by
  have hw := h.inv.stored.window
  rw [h.inv.stored.map]
  exact physOf_higherHalfData (by omega)

/-- One sound call keeps the live ranges disjoint and managed. -/
theorem step (h : s.Owned base U) {op : PmmOp} (hop : op.Sound s) (he : s.exec op = some s') :
    s'.Owned base U := by
  cases op with
  | alloc n =>
    obtain ⟨hn, hfull⟩ := hop
    simp only [exec, Option.some.injEq] at he
    subst he
    rcases h.inv.alloc hn hfull with ⟨hnone, _⟩ | ⟨i, _, hi0, _, hrun, hptr, hinv, _⟩
    · rw [hnone]
      exact ⟨h.inv, h.disjoint⟩
    · rw [hptr]
      exact h.cons hi0 hrun hinv
  | allocz n =>
    obtain ⟨hn, hfull, hfail⟩ := hop
    simp only [exec, Option.some.injEq] at he
    subst he
    have hbase : (pmmAlloc n s.mem s.pmm).1 = 0 → 4096 * n ≤ base := by
      intro hnull
      rcases hfail with ⟨hused, i, hi, hprobe⟩ | hle
      · -- a probe run exists, so the search cannot have come back empty
        exfalso
        rcases h.inv.alloc hn hfull with ⟨_, hzero | hno⟩ | ⟨k, _, hk0, _, _, hptr, _⟩
        · omega
        · exact hno i hi hprobe
        · rw [hptr] at hnull
          omega
      · rw [h.bitmap_phys] at hle
        exact hle
    rcases h.inv.allocz hn hfull hbase with
        ⟨hnull, hinv, _⟩ | ⟨i, _, hi0, _, hrun, hptr, hinv, _⟩
    · rw [hnull]
      exact ⟨hinv, h.disjoint⟩
    · rw [hptr]
      exact h.cons hi0 hrun hinv
  | free p n =>
    simp only [exec] at he
    split_ifs at he with hlive
    simp only [Option.some.injEq] at he
    subst he
    have hsub : frameRun (p / 4096) n ⊆ heldFrames s.live := fun f hf => ⟨(p, n), hlive, hf⟩
    obtain ⟨hd, hheld⟩ := heldFrames_erase hlive h.disjoint
    have hinv := (h.inv.free hsub).1
    exact ⟨by rw [hheld]; exact hinv, hd⟩

/-- A whole run of sound calls. -/
theorem run (h : s.Owned base U) {ops : List PmmOp} (hs : s.SoundRun ops)
    (hr : s.run ops = some s') : s'.Owned base U := by
  induction ops generalizing s with
  | nil =>
    simp only [PmmState.run, Option.some.injEq] at hr
    rw [← hr]
    exact h
  | cons op ops ih =>
    obtain ⟨hop, hrest⟩ := hs
    cases he : s.exec op with
    | none => simp [PmmState.run, he] at hr
    | some s1 =>
      simp only [PmmState.run, he] at hr
      simp only [he] at hrest
      exact ih (h.step hop he) hrest hr

end PmmState.Owned

/-- In every run whose requests are sound, on a machine with at most 2^31
frames, the live ranges are pairwise disjoint and consist of frames that
`pmm_init` left free: never frame 0, never a frame of the bitmap, never a frame
outside the usable entries. -/
theorem pmm_live_ranges_owned (m : Mem) (memoryMap : List MmapEntry) (hm : MapOk memoryMap)
    (hN : pageToBit (highestTop memoryMap) ≤ 2 ^ 31) (ops : List PmmOp) (s : PmmState)
    (hsound : (PmmState.boot m memoryMap).SoundRun ops)
    (hrun : (PmmState.boot m memoryMap).run ops = some s) :
    RangesDisjoint s.live ∧
    ∀ r ∈ s.live, ∀ f ∈ frameRun (r.1 / 4096) r.2,
      bitmapCheckBit (PmmState.boot m memoryMap).mem (PmmState.boot m memoryMap).pmm.bitmap
        (toInt f) = 0#8 ∧
      f ≠ 0 ∧ UsableFrame memoryMap f ∧
      ¬ (physOf (PmmState.boot m memoryMap).pmm.bitmap.map / 4096 ≤ f ∧
        f < (physOf (PmmState.boot m memoryMap).pmm.bitmap.map +
          (PmmState.boot m memoryMap).pmm.bitmap.size) / 4096) := by
  obtain ⟨base, hinv, hbitmap, _, _, hfree⟩ := pmmInit_spec m hm hN
  have hempty : heldFrames [] = ∅ := by
    ext f
    simp [heldFrames]
  have hboot : (PmmState.boot m memoryMap).Owned base {f | InitiallyFree memoryMap base f} :=
    ⟨by rw [PmmState.boot, hempty]; exact hinv, List.Pairwise.nil⟩
  have hfinal := hboot.run hsound hrun
  refine ⟨hfinal.disjoint, fun r hr f hf => ?_⟩
  have hf0 : InitiallyFree memoryMap base f := hfinal.inv.held ⟨r, hr, hf⟩
  have hlt : f < 8 * bitmapSize (highestTop memoryMap) := by
    have htop := hinv.topLe
    have hmf := (hinv.managed f hf0).2.1
    rw [hbitmap] at htop
    exact lt_of_lt_of_le hmf htop
  have hsize := bitmapSize_le hN
  refine ⟨(bitmapCheckBit_eq hinv.stored (by omega)).mpr ((hfree f hlt).mpr hf0), hf0.1,
    hf0.2.1, ?_⟩
  rw [hboot.bitmap_phys]
  show ¬ (base / 4096 ≤ f ∧ f < (base + (pmmInit m memoryMap).2.1.bitmap.size) / 4096)
  rw [hbitmap]
  exact hf0.2.2

theorem pmm_live_ranges_owned_smallMap :
    (PmmState.boot (fun _ => 0#8) smallMap).SoundRun [.allocz 2, .alloc 1, .free 0x2000 2] ∧
    ∀ s, (PmmState.boot (fun _ => 0#8) smallMap).run [.allocz 2, .alloc 1, .free 0x2000 2] =
      some s → RangesDisjoint s.live := by
  have hsound : (PmmState.boot (fun _ => 0#8) smallMap).SoundRun
      [.allocz 2, .alloc 1, .free 0x2000 2] := by decide +kernel
  refine ⟨hsound, fun s hs => ?_⟩
  exact (pmm_live_ranges_owned _ smallMap smallMap_ok smallMap_frames_le _ s hsound hs).1

/-- A freed hole of one frame is handed out for a request of two: the second
frame is still live. -/
theorem pmm_live_ranges_overlap :
    MapOk smallMap ∧ ∃ s,
      (PmmState.boot (fun _ => 0#8) smallMap).run
        [.alloc 1, .alloc 1, .free 0x2000 1, .alloc 2] = some s ∧
      s.live = [(0x2000, 2), (0x3000, 1)] ∧ ¬ RangesDisjoint s.live := by
  have hlive : ((PmmState.boot (fun _ => 0#8) smallMap).run
      [.alloc 1, .alloc 1, .free 0x2000 1, .alloc 2]).map PmmState.live =
      some [(0x2000, 2), (0x3000, 1)] := by decide +kernel
  obtain ⟨s, hs, hl⟩ := Option.map_eq_some_iff.mp hlive
  refine ⟨smallMap_ok, s, hs, hl, ?_⟩
  rw [hl]
  intro hd
  have hpair := (List.pairwise_cons.mp hd).1 (0x3000, 1) (by simp)
  exact Set.disjoint_left.mp hpair (show 3 ∈ frameRun (0x2000 / 4096) 2 by simp)
    (show 3 ∈ frameRun (0x3000 / 4096) 1 by simp)

end ApoptOS
