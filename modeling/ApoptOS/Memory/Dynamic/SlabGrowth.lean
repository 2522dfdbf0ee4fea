import ApoptOS.Memory.Dynamic.SlabReaping

namespace ApoptOS

open Framework

variable {ρ : Type} {A : PageFrames ρ} {U : Set Nat} {Holds : Mem → ρ → Set Nat → Prop}
  {k k1 k' : Kernel ρ} {cache size max count : Nat} {F frames : Set Nat}
  {slabs pre rest : List SlabView} {live : List Nat} {flags : SlabFlags}

theorem ok_of_toOption {ε α : Type} {x : Except ε α} {a : α} (h : x.toOption = some a) :
    x = .ok a := by
  cases x with
  | error e => simp [Except.toOption] at h
  | ok b => exact congrArg Except.ok (Option.some.inj h)

/-- The slabs made of the frames `fs`, in this order. With `lo = 1` (`SLAB_NO_ALIGN`) each has
one slot less than the one before. -/
def newSlabs (size lo : Nat) : Nat → List Nat → List SlabView
  | _, [] => []
  | max, f :: fs => ⟨f, slotList size f lo max⟩ :: newSlabs size lo (max - lo) fs

/-- The list after slabs were linked behind the cursor; `rest` starts at the cursor. -/
def grownBy (pre rest new : List SlabView) : List SlabView :=
  if new = [] then pre ++ rest else pre ++ rest.take 1 ++ new

theorem newSlabs_length (size lo max : Nat) (fs : List Nat) :
    (newSlabs size lo max fs).length = fs.length := by
  induction fs generalizing max with
  | nil => rfl
  | cons f fs ih => simp [newSlabs, ih]

theorem newSlabs_eq_nil {lo : Nat} {fs : List Nat} : newSlabs size lo max fs = [] ↔ fs = [] := by
  cases fs with
  | nil => simp [newSlabs]
  | cons f fs => simp [newSlabs]

/-- The first `count` frame requests of the loop of `slab_cache_grow` are served. -/
def LoopServed (A : PageFrames ρ) (cache : Nat) (flags : SlabFlags) (count : Nat)
    (k : Kernel ρ) : Prop :=
  ∀ n < count, ∀ k1, growSlabs A cache flags n k = .ok k1 → (k1.pmmAllocz A 1).1 ≠ 0

theorem growSlabs_refused (hp : (k.pmmAllocz A 1).1 = 0) :
    growSlabs A cache flags (count + 1) k =
      if flags.panic then .error (.panic "Slab cache grow ('%s'): Couldn't create bufctl\n"
        ((k.pmmAllocz A 1).2.cacheName cache))
      else .ok (k.pmmAllocz A 1).2 := by
  simp only [growSlabs, slabCreateBufctlBuffer, hp, if_true, true_and]

/-- A served request: the rest of the loop goes on from the same state, however many
iterations are left. -/
theorem growSlabs_served (cache : Nat) (flags : SlabFlags) (hp : (k.pmmAllocz A 1).1 ≠ 0) :
    ∃ k1, ∀ n, growSlabs A cache flags (n + 1) k = growSlabs A cache flags n k1 := by
  obtain ⟨r, hr⟩ : ∃ r, r = slabCreateBufctlBuffer A k := ⟨_, rfl⟩
  have hbufctl : r.1 ≠ 0 := by
    simp only [hr, slabCreateBufctlBuffer, hp, if_false]
    exact hp
  obtain ⟨k2, hk2⟩ : ∃ k2, k2 = slabCreateSlab r.2 cache r.1 := ⟨_, rfl⟩
  refine ⟨initBufctls k2 cache r.1 flags (k2.cacheBufctlCountMax cache), fun n => ?_⟩
  simp only [growSlabs, ← hr, hbufctl, if_false, false_and, ← hk2]

theorem loopServed_zero : LoopServed A cache flags 0 k := fun n hn => absurd hn (Nat.not_lt_zero n)

theorem loopServed_succ (hp : (k.pmmAllocz A 1).1 ≠ 0)
    (hk : ∀ n, growSlabs A cache flags (n + 1) k = growSlabs A cache flags n k1) :
    LoopServed A cache flags (count + 1) k ↔ LoopServed A cache flags count k1 := by
  constructor
  · intro h n hn k2 hok
    exact h (n + 1) (by omega) k2 (by rw [hk, hok])
  · intro h n hn k2 hok
    cases n with
    | zero =>
      obtain rfl := Except.ok.inj hok
      exact hp
    | succ n =>
      rw [hk] at hok
      exact h n (by omega) k2 hok

/-- Growing comes back when its requests are served. -/
theorem LoopServed.returns (h : LoopServed A cache flags count k) :
    ∃ k', growSlabs A cache flags count k = .ok k' := by
  induction count generalizing k with
  | zero => exact ⟨k, rfl⟩
  | succ count ih =>
    have hp := h 0 (by omega) k rfl
    obtain ⟨k1, hk⟩ := growSlabs_served cache flags hp
    obtain ⟨k', hok⟩ := ih ((loopServed_succ hp hk).mp h)
    exact ⟨k', by rw [hk, hok]⟩

/-- The loop of `slab_cache_grow` makes slabs of the frames `fs` it gets, until a request is
refused or `count` are made, and links them behind the cursor. -/
theorem growSlabs_exact (hA : A.Lawful U Holds)
    (h : CacheState Holds k cache size max F frames (pre ++ rest) live)
    (hg : GrowAt k.mem cache pre rest) (hok : growSlabs A cache flags count k = .ok k') :
    ∃ fs F' frames', fs.length ≤ count ∧ LoopServed A cache flags fs.length k ∧
      (fs.length < count → ¬ LoopServed A cache flags (fs.length + 1) k) ∧
      CacheState Holds k' cache size (max - fs.length * firstSlot flags) F' frames'
        (grownBy pre rest (newSlabs size (firstSlot flags) max fs)) live ∧
      Effect k k' F F' (ownFrames cache frames) (ownFrames cache frames') ∧
      (fs.length = count →
        k'.calls = (fs.map (fun f => FrameCall.allocz 1 (f * 4096))).reverse ++ k.calls) := by
  induction count generalizing k max F frames pre rest with
  | zero =>
    obtain rfl := Except.ok.inj hok
    exact ⟨[], F, frames, le_refl _, loopServed_zero, fun hlt => absurd hlt (lt_irrefl _),
      by simpa [grownBy, newSlabs] using h, Effect.write (Mem.SameOn.refl _ _), fun _ => rfl⟩
  | succ count ih =>
    rcases growSlabs_succ flags hA h hg 0 with
      ⟨-, hsame, hp, hst⟩ | ⟨f, m', hfF, hp, hone, hst, hg', hsame, -⟩
    · rw [growSlabs_refused hp] at hok
      split_ifs at hok
      obtain rfl := Except.ok.inj hok
      refine ⟨[], F, frames, Nat.zero_le _, loopServed_zero, fun _ hs => ?_,
        by simpa [grownBy, newSlabs] using hst, Effect.frame_refused hsame,
        fun hlen => by simp at hlen⟩
      exact hs 0 (by simp) k rfl hp
    · have hf0 : f * 4096 ≠ 0 := by
        have hfb := hst.inv.frameBounds f (Set.mem_insert f frames)
        omega
      have hp0 : (k.pmmAllocz A 1).1 ≠ 0 := by rwa [hp]
      have heff := Effect.frame_added (A := A) hfF hsame
      obtain ⟨k1, hk1⟩ : ∃ k1 : Kernel ρ, k1 = { (k.pmmAllocz A 1).2 with mem := m' } :=
        ⟨_, rfl⟩
      rw [← hk1] at hone hst heff
      have hmem : m' = k1.mem := by rw [hk1]
      rw [hmem] at hg'
      obtain ⟨k2, hk⟩ := growSlabs_served cache flags hp0
      have hk12 : k1 = k2 := Except.ok.inj (hone.symm.trans (hk 0))
      rw [← hk12] at hk
      rw [hk] at hok
      obtain ⟨fs, F', frames', hlen, hserved, hlast, hst', heff', hcalls⟩ := ih hst hg' hok
      have hmax : max - firstSlot flags - fs.length * firstSlot flags =
          max - (f :: fs).length * firstSlot flags := by
        rw [List.length_cons, Nat.succ_mul]
        omega
      have hlist : grownBy (pre ++ rest.take 1) [⟨f, slotList size f (firstSlot flags) max⟩]
          (newSlabs size (firstSlot flags) (max - firstSlot flags) fs) =
          grownBy pre rest (newSlabs size (firstSlot flags) max (f :: fs)) := by
        simp [grownBy, newSlabs]
      rw [hmax, hlist] at hst'
      refine ⟨f :: fs, F', frames', by simpa using hlen, (loopServed_succ hp0 hk).mpr hserved,
        fun hlt hs => ?_, hst', heff.trans heff', fun heq => ?_⟩
      · exact hlast (by simpa using hlt) ((loopServed_succ hp0 hk).mp hs)
      · rw [hcalls (by simpa using heq), hk1]
        simp [Kernel.pmmAllocz] at hp ⊢
        rw [hp]

instance (A : PageFrames ρ) (cache : Nat) (flags : SlabFlags) (count : Nat) (k : Kernel ρ) :
    Decidable (LoopServed A cache flags count k) :=
  decidable_of_iff (∀ n < count, (growSlabs A cache flags n k).toOption.all
    (fun k1 => decide ((k1.pmmAllocz A 1).1 ≠ 0)) = true) (by
      refine forall_congr' (fun n => forall_congr' (fun _ => ?_))
      cases growSlabs A cache flags n k with
      | error e => simp [Except.toOption]
      | ok k1 => simp [Except.toOption])

/-- Every frame request of `slab_cache_grow(cache, count, flags)` is served. -/
def GrowServed (A : PageFrames ρ) (k : Kernel ρ) (cache count : Nat) (flags : SlabFlags) : Prop :=
  LoopServed A cache flags count (k.setCacheSlabs cache (k.cacheSlabsHead cache))

instance (A : PageFrames ρ) (k : Kernel ρ) (cache count : Nat) (flags : SlabFlags) :
    Decidable (GrowServed A k cache count flags) :=
  inferInstanceAs (Decidable (LoopServed _ _ _ _ _))

theorem slabCacheGrow_eq (A : PageFrames ρ) (h : cache ≠ 0) :
    slabCacheGrow A k cache count flags =
      growSlabs A cache flags count (k.setCacheSlabs cache (k.cacheSlabsHead cache)) := by
  rw [slabCacheGrow, if_neg (fun hc => h hc.1), if_neg h]

/-- `slab_cache_grow` starts with the cursor on the head of the list. -/
theorem slabCacheGrow_exact (hA : A.Lawful U Holds)
    (h : CacheState Holds k cache size max F frames slabs live)
    (hok : slabCacheGrow A k cache count flags = .ok k') :
    ∃ fs F' frames', fs.length ≤ count ∧ GrowServed A k cache fs.length flags ∧
      (fs.length < count → ¬ GrowServed A k cache (fs.length + 1) flags) ∧
      CacheState Holds k' cache size (max - fs.length * firstSlot flags) F' frames'
        (grownBy [] slabs (newSlabs size (firstSlot flags) max fs)) live ∧
      Effect k k' F F' (ownFrames cache frames) (ownFrames cache frames') ∧
      (fs.length = count →
        k'.calls = (fs.map (fun f => FrameCall.allocz 1 (f * 4096))).reverse ++ k.calls) := by
  rw [slabCacheGrow_eq A h.inv.cacheBounds.1] at hok
  have hst : CacheState Holds (k.setCacheSlabs cache (k.cacheSlabsHead cache)) cache size max F
      frames ([] ++ slabs) live := h.setCacheSlabs hA _
  obtain ⟨fs, F', frames', hle, hserved, hlast, hst', heff, hcalls⟩ :=
    growSlabs_exact hA hst ⟨h.cursor_head, fun _ => rfl⟩ hok
  exact ⟨fs, F', frames', hle, hserved, hlast, hst', (h.effect_cursor _).trans heff, hcalls⟩

/-- Growing by `count` leads from the old list to the old list, with its free lists, followed by
`count` slabs in fresh frames, each with all its slots on the free list. -/
def GrowAppends (A : PageFrames ρ) (k : Kernel ρ) (cache count : Nat) (flags : SlabFlags)
    (slabs : List SlabView) : Prop :=
  ∃ k' fs new, slabCacheGrow A k cache count flags = .ok k' ∧ fs.length = count ∧
    k'.calls = (fs.map (fun f => FrameCall.allocz 1 (f * 4096))).reverse ++ k.calls ∧
    new = newSlabs (k.cacheSlabSize cache) (firstSlot flags) (k.cacheBufctlCountMax cache) fs ∧
    ListedSlabs k' cache ((slabs ++ new).map SlabView.addr) ∧
    ∀ v ∈ slabs ++ new, Chain k'.bufctlNext 0 (k'.slabFreelistHead v.addr) v.free

theorem grownBy_head {new : List SlabView} (h : new = [] ∨ slabs.length ≤ 1) :
    grownBy [] slabs new = slabs ++ new := by
  unfold grownBy
  split_ifs with hnew
  · simp [hnew]
  · rw [List.take_of_length_le (h.resolve_left hnew)]
    simp

/-- A new cache has the one slab its growth made, if that got a frame. -/
theorem slabCacheCreate_exact (hA : A.Lawful U Holds) (hh : Holds k.mem k.frames F) {name : Nat}
    (hok : slabCacheCreate A k name size flags = .ok (cache, k')) (hc : cache ≠ 0) :
    7 ≤ 4056 / size ∧ ∃ fs F' frames', fs.length ≤ 1 ∧
      CacheState Holds k' cache size (4056 / size - fs.length * firstSlot flags) F' frames'
        (newSlabs size (firstSlot flags) (4056 / size) fs) [] := by
  have hadm := slabCacheCreate_admitted hok
  have hpos : 10 ≤ size := hadm.2.1
  refine ⟨(Nat.le_div_iff_mul_le (by omega)).mpr (by omega), ?_⟩
  rcases slabCacheCreate_cases flags name hA hh hadm with
    ⟨heq, -⟩ | ⟨f, m', -, -, -, heq, hst, -⟩
  · rw [heq] at hok
    split_ifs at hok
    exact absurd (Prod.mk.inj (Except.ok.inj hok)).1.symm hc
  · rw [heq] at hok
    rcases hg : slabCacheGrow A { (k.pmmAllocz A 1).2 with mem := m' } (f * 4096) 1 flags with
      e | k1
    · rw [hg] at hok
      simp [Except.map] at hok
    · rw [hg] at hok
      obtain ⟨rfl, rfl⟩ := Prod.mk.inj (Except.ok.inj hok)
      obtain ⟨fs, F', frames', hle, -, -, hst', -, -⟩ := slabCacheGrow_exact hA hst hg
      rw [grownBy_head (Or.inr (by simp)), List.nil_append] at hst'
      exact ⟨fs, F', frames', hle, hst'⟩

/-- For every cache and every growth whose requests are served: it appends exactly if it grows
by nothing or the list has at most one slab. Otherwise the slabs behind the first one are no
longer linked. -/
theorem slab_grow_appends_iff (A : PageFrames ρ) (U : Set Nat)
    (Holds : Mem → ρ → Set Nat → Prop)
    (hA : A.Lawful U Holds) (k : Kernel ρ) (cache size max : Nat) (F frames : Set Nat)
    (slabs : List SlabView) (live : List Nat)
    (h : CacheState Holds k cache size max F frames slabs live) (count : Nat) (flags : SlabFlags)
    (hserved : GrowServed A k cache count flags) :
    GrowAppends A k cache count flags slabs ↔ count = 0 ∨ slabs.length ≤ 1 := by
  obtain ⟨k', hok⟩ := LoopServed.returns hserved
  rw [← slabCacheGrow_eq A h.inv.cacheBounds.1] at hok
  obtain ⟨fs, F', frames', hle, -, hlast, hst, -, hcalls⟩ := slabCacheGrow_exact hA h hok
  have hlen : fs.length = count := by
    by_contra hne
    refine hlast (by omega) (fun n hn => hserved n (by omega))
  have hsize : k.cacheSlabSize cache = size := h.inv.sizeWord
  constructor
  · rintro ⟨k2, fs2, new, hok2, hlen2, -, hnew, hlisted, -⟩
    obtain rfl := Except.ok.inj (hok.symm.trans hok2)
    have heq := congrArg List.length (hlisted.unique hst.listed)
    rw [List.length_map, List.length_map, List.length_append, hnew, newSlabs_length, hlen2] at heq
    by_contra hcon
    have hne : newSlabs size (firstSlot flags) max fs ≠ [] := by
      rw [Ne, newSlabs_eq_nil]
      rintro rfl
      exact hcon (Or.inl hlen.symm)
    rw [grownBy, if_neg hne] at heq
    simp [newSlabs_length] at heq
    omega
  · intro hcond
    have hlist : grownBy [] slabs (newSlabs size (firstSlot flags) max fs) =
        slabs ++ newSlabs size (firstSlot flags) max fs := by
      refine grownBy_head (hcond.imp_left (fun h0 => newSlabs_eq_nil.mpr ?_))
      exact List.eq_nil_of_length_eq_zero (hlen.trans h0)
    rw [hlist] at hst
    refine ⟨k', fs, _, hok, hlen, hcalls hlen, rfl, ?_, ?_⟩
    · rw [hsize, h.maxWord]
      exact hst.listed
    · rw [hsize, h.maxWord]
      exact hst.inv.freeList

/-- A new cache with one slab grows by two more. -/
theorem slab_grow_appends_iff_newCache : ∃ k slabs,
    slabCacheCreate pmmFrames (bootKernel smallMap) 0 512 ⟨true, false, false⟩ =
      .ok (0x2000, k) ∧
    ListedSlabs k 0x2000 (slabs.map SlabView.addr) ∧ slabs.length = 1 ∧
    GrowAppends pmmFrames k 0x2000 2 ⟨true, false, false⟩ slabs := by
  have heval :
      (slabCacheCreate pmmFrames (bootKernel smallMap) 0 512 ⟨true, false, false⟩).toOption.all
      (fun r => decide
        (r.1 = 0x2000 ∧ GrowServed pmmFrames r.2 0x2000 2 ⟨true, false, false⟩) &&
        decide (Chain r.2.slabNext 0 (r.2.cacheSlabsHead 0x2000) [0x3fd8])) = true ∧
      (slabCacheCreate pmmFrames (bootKernel smallMap) 0 512
        ⟨true, false, false⟩).toOption.isSome = true := by decide +kernel
  obtain ⟨U, Holds, hA, hF⟩ := bootKernel_lawful smallMap_ok smallMap_frames_le (by decide)
  cases hok : slabCacheCreate pmmFrames (bootKernel smallMap) 0 512 ⟨true, false, false⟩ with
  | error e =>
    rw [hok] at heval
    simp [Except.toOption] at heval
  | ok r =>
    rw [hok] at heval
    simp only [Except.toOption, Option.all_some, Bool.and_eq_true, decide_eq_true_eq] at heval
    obtain ⟨⟨⟨hcache, hserved⟩, hchain⟩, -⟩ := heval
    obtain ⟨cache, k⟩ := r
    obtain rfl : cache = 0x2000 := hcache
    obtain ⟨-, fs, F', frames', hlen, hst⟩ := slabCacheCreate_exact hA hF hok (by decide)
    have hone := congrArg List.length (hst.listed.unique hchain)
    rw [List.length_map] at hone
    have hone' : (newSlabs 512 (firstSlot ⟨true, false, false⟩) (4056 / 512) fs).length = 1 :=
      hone
    refine ⟨k, _, rfl, hst.listed, hone', ?_⟩
    exact (slab_grow_appends_iff pmmFrames U Holds hA k 0x2000 512 _ F' frames' _ [] hst 2
      ⟨true, false, false⟩ hserved).mpr (Or.inr (by omega))

/-- The cache of two slabs, in frames 3 and 4, each with seven free slots. -/
def twoSlabs : List SlabView := [⟨3, slotList 512 3 0 7⟩, ⟨4, slotList 512 4 0 7⟩]

/-- Growing a cache of two slabs by one more: the slab in frame 4 drops off the list. -/
theorem slab_grow_drops_second_slab : ∃ s,
    SlabState.run pmmFrames 5 ⟨bootKernel smallMap, []⟩
      [.create 0 512 ⟨true, false, false⟩, .grow 0 1 ⟨true, false, false⟩] = some s ∧
    ListedSlabs s.kernel 0x2000 (twoSlabs.map SlabView.addr) ∧
    (∀ v ∈ twoSlabs, Chain s.kernel.bufctlNext 0 (s.kernel.slabFreelistHead v.addr) v.free) ∧
    GrowServed pmmFrames s.kernel 0x2000 1 ⟨true, false, false⟩ ∧
    ¬ GrowAppends pmmFrames s.kernel 0x2000 1 ⟨true, false, false⟩ twoSlabs := by
  have heval : (SlabState.run pmmFrames 5 ⟨bootKernel smallMap, []⟩
      [.create 0 512 ⟨true, false, false⟩, .grow 0 1 ⟨true, false, false⟩]).all (fun s =>
        decide (Chain s.kernel.slabNext 0 (s.kernel.cacheSlabsHead 0x2000) [0x3fd8, 0x4fd8] ∧
          GrowServed pmmFrames s.kernel 0x2000 1 ⟨true, false, false⟩) &&
        decide (∀ v ∈ twoSlabs, Chain s.kernel.bufctlNext 0 (s.kernel.slabFreelistHead v.addr)
          v.free) &&
        (slabCacheGrow pmmFrames s.kernel 0x2000 1 ⟨true, false, false⟩).toOption.all (fun k' =>
          decide (Chain k'.slabNext 0 (k'.cacheSlabsHead 0x2000) [0x3fd8, 0x5fd8]))) = true ∧
      (SlabState.run pmmFrames 5 ⟨bootKernel smallMap, []⟩
        [.create 0 512 ⟨true, false, false⟩, .grow 0 1 ⟨true, false, false⟩]).isSome =
      true := by
    decide +kernel
  obtain ⟨hall, hsome⟩ := heval
  obtain ⟨s, hs⟩ := Option.isSome_iff_exists.mp hsome
  rw [hs] at hall
  simp only [Option.all_some, Bool.and_eq_true, decide_eq_true_eq] at hall
  obtain ⟨⟨⟨hchain, hserved⟩, hfree⟩, hgrown⟩ := hall
  refine ⟨s, hs, hchain, hfree, hserved, ?_⟩
  rintro ⟨k', fs, new, hok, -, -, -, hlisted, -⟩
  rw [hok] at hgrown
  simp only [Except.toOption, Option.all_some, decide_eq_true_eq] at hgrown
  have htail := List.cons.inj (hlisted.unique hgrown)
  have hsecond := (List.cons.inj htail.2).1
  exact absurd hsecond (by decide)

/-- Calls of `slab_cache_grow`, one for each count. -/
def growAll (A : PageFrames ρ) (cache : Nat) (flags : SlabFlags) :
    List Nat → Kernel ρ → Except Halt (Kernel ρ)
  | [], k => .ok k
  | count :: counts, k =>
    match slabCacheGrow A k cache count flags with
    | .error e => .error e
    | .ok k => growAll A cache flags counts k

/-- None of the calls gets a frame: each grows by nothing or has its first request refused. -/
def GrowsNothing (A : PageFrames ρ) (cache : Nat) (flags : SlabFlags) :
    List Nat → Kernel ρ → Prop
  | [], _ => True
  | count :: counts, k => (count = 0 ∨ ¬ GrowServed A k cache 1 flags) ∧
      ∀ k1, slabCacheGrow A k cache count flags = .ok k1 → GrowsNothing A cache flags counts k1

/-- In `k'` the cache has the capacity it had in `k`, and each slab on its list has as many
slots, all free, so that it passes for unused. -/
structure CapacityKept (k k' : Kernel ρ) (cache : Nat) : Prop where
  max : k'.cacheBufctlCountMax cache = k.cacheBufctlCountMax cache
  slots : ∃ slabs : List SlabView, ListedSlabs k' cache (slabs.map SlabView.addr) ∧
    ∀ v ∈ slabs, Chain k'.bufctlNext 0 (k'.slabFreelistHead v.addr) v.free ∧
      v.free.length = k.cacheBufctlCountMax cache ∧
      k'.slabBufctlCount v.addr = k'.cacheBufctlCountMax cache

theorem newSlabs_full {fs : List Nat} {v : SlabView} (hv : v ∈ newSlabs size 0 max fs) :
    v.free.length = max := by
  induction fs with
  | nil => simp [newSlabs] at hv
  | cons f fs ih =>
    rcases List.mem_cons.mp hv with rfl | hv
    · rw [slotList_length]
      rfl
    · exact ih hv

theorem mem_grownBy {new : List SlabView} {v : SlabView} (hv : v ∈ grownBy pre rest new) :
    v ∈ pre ++ rest ∨ v ∈ new := by
  unfold grownBy at hv
  split_ifs at hv with hnew
  · exact Or.inl hv
  · exact (List.mem_append.mp hv).imp_left kept_subset

/-- One call: without `SLAB_NO_ALIGN`, or without a frame, the capacity is kept; with both it
shrinks. -/
theorem slabCacheGrow_capacity (hA : A.Lawful U Holds)
    (h : CacheState Holds k cache size max F frames slabs live)
    (hfull : ∀ v ∈ slabs, v.free.length = max)
    (hok : slabCacheGrow A k cache count flags = .ok k') :
    ∃ max' F' frames' slabs', CacheState Holds k' cache size max' F' frames' slabs' live ∧
      max' ≤ max ∧
      (flags.noAlign = false ∨ (count = 0 ∨ ¬ GrowServed A k cache 1 flags) →
        max' = max ∧ ∀ v ∈ slabs', v.free.length = max) ∧
      (flags.noAlign = true → ¬ (count = 0 ∨ ¬ GrowServed A k cache 1 flags) →
        max' ≤ max - 1) := by
  obtain ⟨fs, F', frames', hle, hserved, hlast, hst, -, -⟩ := slabCacheGrow_exact hA h hok
  refine ⟨_, F', frames', _, hst, Nat.sub_le _ _, fun hkeep => ?_, fun hna hsome => ?_⟩
  · rcases hkeep with hna | hnone
    · have hlo := firstSlot_eq_zero hna
      rw [hlo] at hst ⊢
      refine ⟨by omega, fun v hv => ?_⟩
      exact (mem_grownBy hv).elim (hfull v) newSlabs_full
    · have hfs : fs = [] := by
        rcases hnone with h0 | hrefused
        · exact List.eq_nil_of_length_eq_zero (by omega)
        · by_contra hne
          have hpos := List.length_pos_iff.mpr hne
          exact hrefused (fun n hn => hserved n (by omega))
      subst hfs
      exact ⟨by simp, fun v hv => hfull v (by simpa [grownBy, newSlabs] using hv)⟩
  · have hlo : firstSlot flags = 1 := by rw [firstSlot, if_pos hna]
    have hpos : 0 < fs.length := by
      by_contra h0
      have hzero : fs.length = 0 := by omega
      rw [hzero] at hlast
      by_cases hcount : count = 0
      · exact hsome (Or.inl hcount)
      · exact hsome (Or.inr (hlast (by omega)))
    rw [hlo]
    omega

theorem growAll_shrinks (hA : A.Lawful U Holds) {counts : List Nat}
    (h : CacheState Holds k cache size max F frames slabs live)
    (hok : growAll A cache flags counts k = .ok k') :
    ∃ max' F' frames' slabs', CacheState Holds k' cache size max' F' frames' slabs' live ∧
      max' ≤ max := by
  induction counts generalizing k max F frames slabs with
  | nil =>
    obtain rfl := Except.ok.inj hok
    exact ⟨max, F, frames, slabs, h, le_refl _⟩
  | cons count counts ih =>
    cases hgrow : slabCacheGrow A k cache count flags with
    | error e =>
      simp only [growAll, hgrow] at hok
      simp at hok
    | ok k1 =>
      simp only [growAll, hgrow] at hok
      obtain ⟨fs, F1, frames1, -, -, -, h1, -, -⟩ := slabCacheGrow_exact hA h hgrow
      obtain ⟨max', F', frames', slabs', hst, hle⟩ := ih h1 hok
      exact ⟨max', F', frames', slabs', hst, hle.trans (Nat.sub_le _ _)⟩

theorem growAll_capacity (hA : A.Lawful U Holds) {counts : List Nat}
    (h : CacheState Holds k cache size max F frames slabs live)
    (hfull : ∀ v ∈ slabs, v.free.length = max) (hok : growAll A cache flags counts k = .ok k') :
    ∃ max' F' frames' slabs', CacheState Holds k' cache size max' F' frames' slabs' live ∧
      max' ≤ max ∧
      (flags.noAlign = false ∨ GrowsNothing A cache flags counts k →
        max' = max ∧ ∀ v ∈ slabs', v.free.length = max) ∧
      (flags.noAlign = true → ¬ GrowsNothing A cache flags counts k → max' ≤ max - 1) := by
  induction counts generalizing k max F frames slabs with
  | nil =>
    obtain rfl := Except.ok.inj hok
    exact ⟨max, F, frames, slabs, h, le_refl _, fun _ => ⟨rfl, hfull⟩,
      fun _ hsome => absurd trivial hsome⟩
  | cons count counts ih =>
    cases hgrow : slabCacheGrow A k cache count flags with
    | error e =>
      simp only [growAll, hgrow] at hok
      simp at hok
    | ok k1 =>
      simp only [growAll, hgrow] at hok
      obtain ⟨max1, F1, frames1, slabs1, h1, hle1, hkeep1, hshrink1⟩ :=
        slabCacheGrow_capacity hA h hfull hgrow
      by_cases hcase : flags.noAlign = false ∨ (count = 0 ∨ ¬ GrowServed A k cache 1 flags)
      · obtain ⟨rfl, hfull1⟩ := hkeep1 hcase
        obtain ⟨max', F', frames', slabs', hst, hle, hkeep, hshrink⟩ := ih h1 hfull1 hok
        refine ⟨max', F', frames', slabs', hst, hle, fun hk => hkeep ?_, fun hna hsome => ?_⟩
        · exact hk.imp_right (fun hn => hn.2 k1 hgrow)
        · refine hshrink hna (fun hn => hsome ⟨hcase.resolve_left (by simp [hna]), ?_⟩)
          intro k2 hk2
          obtain rfl := Except.ok.inj (hgrow.symm.trans hk2)
          exact hn
      · obtain ⟨hna, hsome⟩ := not_or.mp hcase
        have hna' : flags.noAlign = true := by simpa using hna
        have hlt := hshrink1 hna' hsome
        obtain ⟨max', F', frames', slabs', hst, hle⟩ := growAll_shrinks hA h1 hok
        exact ⟨max', F', frames', slabs', hst, hle.trans hle1,
          fun hk => absurd (hk.resolve_left hna).1 hsome, fun _ _ => hle.trans hlt⟩

/-- For every cache as it is created and every sequence of growths with the same flags: the
capacity is kept, and every slab has it, exactly if `SLAB_NO_ALIGN` is not among the flags or
no growth got a frame. -/
theorem slab_capacity_kept_iff (A : PageFrames ρ) (U : Set Nat)
    (Holds : Mem → ρ → Set Nat → Prop)
    (hA : A.Lawful U Holds) (k0 : Kernel ρ) (F : Set Nat) (hF : Holds k0.mem k0.frames F)
    (name size cache : Nat) (flags : SlabFlags) (k : Kernel ρ)
    (hcreate : slabCacheCreate A k0 name size flags = .ok (cache, k)) (hc : cache ≠ 0)
    (counts : List Nat) (k' : Kernel ρ) (hgrow : growAll A cache flags counts k = .ok k') :
    CapacityKept k k' cache ↔ flags.noAlign = false ∨ GrowsNothing A cache flags counts k := by
  obtain ⟨hseven, fs, F1, frames1, hle, hst⟩ := slabCacheCreate_exact hA hF hcreate hc
  have hlo := firstSlot_le_one flags
  have hmax : k.cacheBufctlCountMax cache = 4056 / size - fs.length * firstSlot flags := hst.maxWord
  have hpos : 0 < 4056 / size - fs.length * firstSlot flags := by
    have hmul : fs.length * firstSlot flags ≤ 1 * 1 := Nat.mul_le_mul hle hlo
    omega
  have hfull : ∀ v ∈ newSlabs size (firstSlot flags) (4056 / size) fs,
      v.free.length = 4056 / size - fs.length * firstSlot flags := by
    intro v hv
    cases fs with
    | nil => simp [newSlabs] at hv
    | cons f fs =>
      have hnil : fs = [] := List.eq_nil_of_length_eq_zero (by simpa using hle)
      subst hnil
      simp only [newSlabs, List.mem_singleton] at hv
      rw [hv, slotList_length]
      simp
  obtain ⟨max', F', frames', slabs', hst', -, hkeep, hshrink⟩ :=
    growAll_capacity hA hst hfull hgrow
  have hmax' : k'.cacheBufctlCountMax cache = max' := hst'.maxWord
  constructor
  · intro hcap
    have heq := hcap.max
    rw [hmax, hmax'] at heq
    by_contra hcon
    obtain ⟨hna, hsome⟩ := not_or.mp hcon
    have hlt := hshrink (by simpa using hna) hsome
    omega
  · intro hcond
    obtain ⟨heq, hall⟩ := hkeep hcond
    refine ⟨by rw [hmax, hmax', heq], slabs', hst'.listed,
      fun v hv => ⟨hst'.inv.freeList v hv, ?_, ?_⟩⟩
    · rw [hmax]
      exact hall v hv
    · have hcount : k'.slabBufctlCount v.addr = v.free.length := hst'.inv.count v hv
      rw [hcount, hall v hv, hmax', heq]

/-- One slab more, then two more, with aligned slots. -/
theorem slab_capacity_kept_iff_aligned : ∃ k k',
    slabCacheCreate pmmFrames (bootKernel smallMap) 0 512 ⟨true, false, false⟩ =
      .ok (0x2000, k) ∧
    growAll pmmFrames 0x2000 ⟨true, false, false⟩ [1, 2] k = .ok k' ∧
    CapacityKept k k' 0x2000 := by
  have heval : (((slabCacheCreate pmmFrames (bootKernel smallMap) 0 512
      ⟨true, false, false⟩).toOption.bind (fun r =>
        (growAll pmmFrames 0x2000 ⟨true, false, false⟩ [1, 2] r.2).toOption.map
          (fun _ => r.1))) = some 0x2000) := by decide +kernel
  obtain ⟨⟨cache, k⟩, hcreate, hgrow⟩ := Option.bind_eq_some_iff.mp heval
  obtain ⟨k', hgrow, hcache⟩ := Option.map_eq_some_iff.mp hgrow
  obtain rfl : cache = 0x2000 := hcache
  have hcreate' := ok_of_toOption hcreate
  have hgrow' := ok_of_toOption hgrow
  obtain ⟨U, Holds, hA, hF⟩ := bootKernel_lawful smallMap_ok smallMap_frames_le (by decide)
  exact ⟨k, k', hcreate', hgrow',
    (slab_capacity_kept_iff pmmFrames U Holds hA _ ∅ hF 0 512 0x2000
    ⟨true, false, false⟩ k hcreate' (by decide) [1, 2] k' hgrow').mpr (Or.inl rfl)⟩

/-- With `SLAB_NO_ALIGN` a second slab lowers the capacity from six to five, below the six slots
of the first slab. -/
theorem slab_capacity_shrinks : ∃ k k',
    slabCacheCreate pmmFrames (bootKernel smallMap) 0 512 ⟨true, false, true⟩ =
      .ok (0x2000, k) ∧
    growAll pmmFrames 0x2000 ⟨true, false, true⟩ [1] k = .ok k' ∧
    k.cacheBufctlCountMax 0x2000 = 6 ∧ k'.cacheBufctlCountMax 0x2000 = 5 ∧
    k'.slabBufctlCount (k'.cacheSlabsHead 0x2000) = 6 ∧ ¬ CapacityKept k k' 0x2000 := by
  have heval : (((slabCacheCreate pmmFrames (bootKernel smallMap) 0 512
      ⟨true, false, true⟩).toOption.bind (fun r =>
        (growAll pmmFrames 0x2000 ⟨true, false, true⟩ [1] r.2).toOption.map
          (fun k' => (r.1, r.2.cacheBufctlCountMax 0x2000, k'.cacheBufctlCountMax 0x2000,
            k'.slabBufctlCount (k'.cacheSlabsHead 0x2000))))) = some (0x2000, 6, 5, 6)) := by
    decide +kernel
  obtain ⟨⟨cache, k⟩, hcreate, hgrow⟩ := Option.bind_eq_some_iff.mp heval
  obtain ⟨k', hgrow, hwords⟩ := Option.map_eq_some_iff.mp hgrow
  simp only [Prod.mk.injEq] at hwords
  obtain ⟨rfl, hmax, hmax', hcount⟩ := hwords
  refine ⟨k, k', ok_of_toOption hcreate, ok_of_toOption hgrow, hmax,
    hmax', hcount, fun hcap => ?_⟩
  have heq := hcap.max
  omega

end ApoptOS
