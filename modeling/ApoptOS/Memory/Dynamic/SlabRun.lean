import ApoptOS.Memory.Dynamic.SlabReap

namespace ApoptOS

open Framework

/-- A cache as its clients know it: where it is, its object size and the
objects handed out and not freed. -/
structure SlabCache where
  cache : Nat
  size : Nat
  live : List Nat
  deriving DecidableEq, Repr

structure SlabState (ρ : Type) where
  kernel : Kernel ρ
  caches : List SlabCache

inductive SlabOp where
  | create (name slabSize : Nat) (flags : SlabFlags)
  | grow (i count : Nat) (flags : SlabFlags)
  | alloc (i : Nat) (flags : SlabFlags)
  | free (i pointer : Nat) (flags : SlabFlags)
  | reap (i : Nat) (flags : SlabFlags)
  | write (address : Nat) (value : BitVec 8)

/-- The address lies inside a live object. -/
def InLiveObject (caches : List SlabCache) (a : Nat) : Prop :=
  ∃ c ∈ caches, ∃ b ∈ c.live, b ≤ a ∧ a < b + c.size

instance (caches : List SlabCache) (a : Nat) : Decidable (InLiveObject caches a) :=
  inferInstanceAs (Decidable (∃ c ∈ caches, ∃ b ∈ c.live, b ≤ a ∧ a < b + c.size))

namespace SlabState

variable {ρ : Type} (A : PageFrames ρ) (fuel : Nat)

/-- One call, or one byte written by a client. `none` when the kernel does not
return from the call, or when a client frees or writes what it does not own. -/
def exec (s : SlabState ρ) : SlabOp → Option (SlabState ρ)
  | .create name slabSize flags =>
    match slabCacheCreate A s.kernel name slabSize flags with
    | .error _ => none
    | .ok (cache, k) =>
      some ⟨k, if cache = 0 then s.caches else s.caches ++ [⟨cache, slabSize, []⟩]⟩
  | .grow i count flags => do
    let c ← s.caches[i]?
    match slabCacheGrow A s.kernel c.cache count flags with
    | .error _ => none
    | .ok k => some ⟨k, s.caches⟩
  | .alloc i flags => do
    let c ← s.caches[i]?
    match slabCacheAlloc A fuel s.kernel c.cache flags with
    | .error _ => none
    | .ok (p, k) =>
      some ⟨k, s.caches.set i { c with live := if p = 0 then c.live else p :: c.live }⟩
  | .free i pointer flags => do
    let c ← s.caches[i]?
    if pointer ∈ c.live then
      match slabCacheFree fuel s.kernel c.cache pointer flags with
      | .error _ => none
      | .ok k => some ⟨k, s.caches.set i { c with live := c.live.erase pointer }⟩
    else none
  | .reap i flags => do
    let c ← s.caches[i]?
    match slabCacheReap A fuel s.kernel c.cache flags with
    | .error _ => none
    | .ok k => some ⟨k, s.caches⟩
  | .write a v =>
    if InLiveObject s.caches a then
      some { s with kernel := { s.kernel with mem := s.kernel.mem.set a v } }
    else none

def run (s : SlabState ρ) : List SlabOp → Option (SlabState ρ)
  | [] => some s
  | op :: ops => (s.exec A fuel op).bind (fun s => s.run ops)

theorem run_append (s : SlabState ρ) (ops ops' : List SlabOp) :
    s.run A fuel (ops ++ ops') = (s.run A fuel ops).bind (fun s => s.run A fuel ops') := by
  induction ops generalizing s with
  | nil => rfl
  | cons op ops ih =>
    simp only [List.cons_append, run, Option.bind_assoc]
    congr 1
    funext s'
    exact ih s'

end SlabState

/-- The addresses of the slabs on a cache's list. -/
def ListedSlabs {ρ : Type} (k : Kernel ρ) (cache : Nat) (slabs : List Nat) : Prop :=
  Chain k.slabNext 0 (k.cacheSlabsHead cache) slabs

/-- The condition under which reaping is safe, on the state before each call.
A slab is linked with `SLAB_NO_ALIGN`, which lowers the capacity of the whole
cache, only when it is the first one and has an object left; a freed object is
credited to the slab it lies in, if to any. -/
def SlabOp.Fair {ρ : Type} (s : SlabState ρ) : SlabOp → Prop
  | .grow i count flags => ∀ c, s.caches[i]? = some c → flags.noAlign = true →
      count = 0 ∨ count = 1 ∧ s.kernel.cacheSlabsHead c.cache = 0 ∧
        2 ≤ s.kernel.cacheBufctlCountMax c.cache
  | .alloc i flags => ∀ c slabs, s.caches[i]? = some c → ListedSlabs s.kernel c.cache slabs →
      flags.autoGrow = true → flags.noAlign = true →
      (∃ t ∈ slabs, s.kernel.slabFreelistHead t ≠ 0) ∨
        slabs = [] ∧ 2 ≤ s.kernel.cacheBufctlCountMax c.cache
  | .free i pointer _ => ∀ c slabs, s.caches[i]? = some c →
      ListedSlabs s.kernel c.cache slabs → ∀ t, slabs.find? (fun t =>
        s.kernel.slabBufctlCount t < s.kernel.cacheBufctlCountMax c.cache) = some t →
      pointer / 4096 = t / 4096
  | _ => True

/-- What the proofs know about a cache beyond its clients. -/
structure CacheView where
  max : Nat
  frames : Set Nat
  slabs : List SlabView

section Good

variable {ρ : Type} {A : PageFrames ρ} {U : Set Nat} {Holds : Mem → ρ → Set Nat → Prop}

/-- What a client writes inside one of its objects does not reach the cache's
structures, nor a free object. -/
theorem CacheInv.client_write {m m' : Mem} {cache size max b : Nat} {frames : Set Nat}
    {slabs : List SlabView} {live : List Nat}
    (h : CacheInv m cache size max frames slabs live) (hb : b ∈ live)
    (hm : ∀ x, (x < b ∨ b + size ≤ x) → m' x = m x) :
    CacheInv m' cache size max frames slabs live := by
  have hslot := h.slot_of_live hb
  have hal := h.cacheAligned
  have hs := h.sizeBounds
  refine h.congr ?_ ?_ ?_
  · intro x h1 h2
    apply hm
    by_contra hcon
    have hin := hslot.inside (x := x) (by omega) (by omega)
    have hxc : x / 4096 = cache / 4096 := by omega
    exact h.cacheApart (hxc ▸ hin.1)
  · intro v hv x h1 h2
    apply hm
    by_contra hcon
    have hin := hslot.inside (x := x) (by omega) (by omega)
    unfold SlabView.addr at h1 h2
    omega
  · intro v hv d hd
    have hdis := (List.nodup_append.mp h.nodup).2.2
    have hne : d ≠ b := hdis d (List.mem_flatMap.mpr ⟨v, hv, hd⟩) b hb
    have hap := (h.slot_of_free hv hd).apart hslot hne
    exact Mem.load64_congr (fun x h1 h2 => hm x (by omega))

/-- Every cache is in a valid state and no two share a frame. -/
structure SlabState.Good (Holds : Mem → ρ → Set Nat → Prop) (s : SlabState ρ) (F : Set Nat)
    (view : Nat → CacheView) : Prop where
  holds : Holds s.kernel.mem s.kernel.frames F
  cache : ∀ i c, s.caches[i]? = some c → CacheState Holds s.kernel c.cache c.size (view i).max F
    (view i).frames (view i).slabs c.live
  apart : ∀ i j c d, i ≠ j → s.caches[i]? = some c → s.caches[j]? = some d →
    Disjoint (ownFrames c.cache (view i).frames) (ownFrames d.cache (view j).frames)

/-- The accounts of all caches hold. -/
def SlabState.AllAccounted (s : SlabState ρ) (view : Nat → CacheView) : Prop :=
  ∀ i c, s.caches[i]? = some c → Accounted (view i).max (view i).slabs c.live

section Fair

variable {k : Kernel ρ} {cache size max : Nat} {F frames : Set Nat} {slabs : List SlabView}
  {live : List Nat}

theorem CacheState.listed (h : CacheState Holds k cache size max F frames slabs live) :
    ListedSlabs k cache (slabs.map SlabView.addr) := h.inv.slabList

theorem CacheState.maxWord (h : CacheState Holds k cache size max F frames slabs live) :
    k.cacheBufctlCountMax cache = max := h.inv.maxWord

theorem CacheState.growFair (h : CacheState Holds k cache size max F frames slabs live)
    {flags : SlabFlags} {count : Nat}
    (hf : flags.noAlign = true → count = 0 ∨ count = 1 ∧ k.cacheSlabsHead cache = 0 ∧
      2 ≤ k.cacheBufctlCountMax cache) : GrowFair flags count max slabs := by
  intro hna
  rw [h.maxWord] at hf
  rcases hf hna with h0 | ⟨h1, hhead, h2⟩
  · exact Or.inl h0
  · exact Or.inr ⟨h1, List.map_eq_nil_iff.mp (h.inv.slabList.eq_nil_iff.mpr hhead), h2⟩

theorem CacheState.allocFair (h : CacheState Holds k cache size max F frames slabs live)
    {flags : SlabFlags}
    (hf : flags.autoGrow = true → flags.noAlign = true →
      (∃ t ∈ slabs.map SlabView.addr, k.slabFreelistHead t ≠ 0) ∨
        slabs.map SlabView.addr = [] ∧ 2 ≤ k.cacheBufctlCountMax cache) :
    AllocFair flags max [] slabs := by
  intro hauto hna
  rw [h.maxWord] at hf
  rcases hf hauto hna with ⟨t, ht, hne⟩ | ⟨hnil, h2⟩
  · obtain ⟨v, hv, rfl⟩ := List.mem_map.mp ht
    exact Or.inl ⟨v, hv, fun he => hne ((h.inv.freeList v hv).eq_nil_iff.mp he)⟩
  · exact Or.inr ⟨List.map_eq_nil_iff.mp hnil, h2⟩

/-- The first listed slab with room, by the count words. -/
theorem CacheState.find_room (h : CacheState Holds k cache size max F frames slabs live) :
    (slabs.map SlabView.addr).find? (fun t => k.slabBufctlCount t < k.cacheBufctlCountMax cache) =
      (slabs.find? (fun v => v.free.length < max)).map SlabView.addr := by
  have hcongr : slabs.find? (fun w => decide (k.slabBufctlCount w.addr <
      k.cacheBufctlCountMax cache)) = slabs.find? (fun w => decide (w.free.length < max)) := by
    refine List.find?_congr (fun w hw => ?_)
    rw [h.maxWord]
    have hcount : k.slabBufctlCount w.addr = w.free.length := h.inv.count w hw
    rw [hcount]
  rw [List.find?_map]
  exact congrArg _ hcongr

theorem CacheState.freeFair (h : CacheState Holds k cache size max F frames slabs live) {p : Nat} :
    (∀ t, (slabs.map SlabView.addr).find? (fun t =>
      k.slabBufctlCount t < k.cacheBufctlCountMax cache) = some t → p / 4096 = t / 4096) ↔
    FreeFair max p slabs := by
  rw [h.find_room]
  constructor
  · intro hf v hv
    rw [← (h.inv.addr_bounds (List.mem_of_find?_eq_some hv)).2.2]
    exact hf v.addr (by rw [hv]; rfl)
  · intro hf t ht
    obtain ⟨v, hv, rfl⟩ := Option.map_eq_some_iff.mp ht
    rw [(h.inv.addr_bounds (List.mem_of_find?_eq_some hv)).2.2]
    exact hf v hv

end Fair

section Lookup

variable {caches : List SlabCache} {i j : Nat} {c c' d : SlabCache}

theorem getElem?_set_cases (hc : caches[i]? = some c) (hj : (caches.set i c')[j]? = some d) :
    (j = i ∧ d = c') ∨ (j ≠ i ∧ caches[j]? = some d) := by
  have hi : i < caches.length := (List.getElem?_eq_some_iff.mp hc).1
  by_cases hji : j = i
  · subst hji
    rw [List.getElem?_set_self hi] at hj
    exact Or.inl ⟨rfl, (Option.some.inj hj).symm⟩
  · rw [List.getElem?_set_ne (fun hij => hji hij.symm)] at hj
    exact Or.inr ⟨hji, hj⟩

theorem getElem?_concat_cases (hj : (caches ++ [c'])[j]? = some d) :
    (j = caches.length ∧ d = c') ∨ (j ≠ caches.length ∧ caches[j]? = some d) := by
  rcases lt_trichotomy j caches.length with hlt | rfl | hgt
  · rw [List.getElem?_append_left hlt] at hj
    exact Or.inr ⟨Nat.ne_of_lt hlt, hj⟩
  · rw [List.getElem?_concat_length] at hj
    exact Or.inl ⟨rfl, (Option.some.inj hj).symm⟩
  · rw [List.getElem?_eq_none (by simp; omega)] at hj
    simp at hj

theorem set_same_live (hc : caches[i]? = some c) :
    caches.set i { c with live := c.live } = caches := by
  obtain ⟨hi, hget⟩ := List.getElem?_eq_some_iff.mp hc
  rw [← hget]
  exact List.set_getElem_self hi

end Lookup

section Accounts

variable {s : SlabState ρ} {view : Nat → CacheView} {i : Nat} {c : SlabCache} {k' : Kernel ρ}
  {P : Nat → List SlabView → List Nat → Prop}

/-- A property of capacity, slab list and live objects, for all caches. -/
def SlabState.AllCaches (P : Nat → List SlabView → List Nat → Prop) (s : SlabState ρ)
    (view : Nat → CacheView) : Prop :=
  ∀ i c, s.caches[i]? = some c → P (view i).max (view i).slabs c.live

theorem SlabState.AllCaches.update (h : s.AllCaches P view) (hc : s.caches[i]? = some c)
    {v : CacheView} {live' : List Nat} (ha : P v.max v.slabs live') :
    SlabState.AllCaches P ⟨k', s.caches.set i { c with live := live' }⟩
      (Function.update view i v) := by
  intro j d hj
  rcases getElem?_set_cases hc hj with ⟨rfl, rfl⟩ | ⟨hji, hd⟩
  · rw [Function.update_self]
    exact ha
  · rw [Function.update_of_ne hji]
    exact h j d hd

theorem SlabState.AllCaches.append (h : s.AllCaches P view) {cache size : Nat} {v : CacheView}
    (ha : P v.max v.slabs []) :
    SlabState.AllCaches P ⟨k', s.caches ++ [⟨cache, size, []⟩]⟩
      (Function.update view s.caches.length v) := by
  intro j d hj
  rcases getElem?_concat_cases hj with ⟨rfl, rfl⟩ | ⟨hji, hd⟩
  · rw [Function.update_self]
    exact ha
  · rw [Function.update_of_ne hji]
    exact h j d hd

theorem SlabState.allAccounted_iff : s.AllAccounted view ↔ s.AllCaches Accounted view := Iff.rfl

end Accounts

namespace SlabState.Good

variable {s s' : SlabState ρ} {F F' : Set Nat} {view : Nat → CacheView} {i : Nat}
  {c : SlabCache} {k' : Kernel ρ}

/-- An operation on one cache leaves the others valid. -/
theorem update (h : s.Good Holds F view) (hc : s.caches[i]? = some c) {v : CacheView}
    {live' : List Nat}
    (hst : CacheState Holds k' c.cache c.size v.max F' v.frames v.slabs live')
    (he : Effect s.kernel k' F F' (ownFrames c.cache (view i).frames)
      (ownFrames c.cache v.frames)) :
    SlabState.Good Holds ⟨k', s.caches.set i { c with live := live' }⟩ F'
      (Function.update view i v) := by
  have hother : ∀ j d, j ≠ i → s.caches[j]? = some d →
      Disjoint (ownFrames c.cache v.frames) (ownFrames d.cache (view j).frames) := by
    intro j d hji hd
    have hdis := h.apart j i d c hji hd hc
    have hsub : ownFrames d.cache (view j).frames ⊆ F \ ownFrames c.cache (view i).frames :=
      fun x hx => ⟨(h.cache j d hd).own_held hx, Set.disjoint_left.mp hdis hx⟩
    exact he.apart.mono_right hsub
  refine ⟨hst.holds, fun j d hj => ?_, fun j l d e hjl hj hl => ?_⟩
  · rcases getElem?_set_cases hc hj with ⟨rfl, rfl⟩ | ⟨hji, hd⟩
    · rw [Function.update_self]
      exact hst
    · rw [Function.update_of_ne hji]
      exact (h.cache j d hd).other he hst.holds (h.apart j i d c hji hd hc)
  · rcases getElem?_set_cases hc hj with ⟨rfl, rfl⟩ | ⟨hji, hd⟩
    · rcases getElem?_set_cases hc hl with ⟨rfl, _⟩ | ⟨hli, he'⟩
      · exact absurd rfl hjl
      · rw [Function.update_self, Function.update_of_ne hli]
        exact hother l e hli he'
    · rcases getElem?_set_cases hc hl with ⟨rfl, rfl⟩ | ⟨hli, he'⟩
      · rw [Function.update_self, Function.update_of_ne hji]
        exact (hother j d hji hd).symm
      · rw [Function.update_of_ne hji, Function.update_of_ne hli]
        exact h.apart j l d e hjl hd he'

/-- A new cache takes frames of its own. -/
theorem append (h : s.Good Holds F view) {cache size : Nat} {v : CacheView}
    (hst : CacheState Holds k' cache size v.max F' v.frames v.slabs [])
    (he : Effect s.kernel k' F F' ∅ (ownFrames cache v.frames)) :
    SlabState.Good Holds ⟨k', s.caches ++ [⟨cache, size, []⟩]⟩ F'
      (Function.update view s.caches.length v) := by
  have hother : ∀ j d, s.caches[j]? = some d →
      Disjoint (ownFrames cache v.frames) (ownFrames d.cache (view j).frames) := by
    intro j d hd
    have hsub : ownFrames d.cache (view j).frames ⊆ F \ ∅ :=
      fun x hx => ⟨(h.cache j d hd).own_held hx, by simp⟩
    exact he.apart.mono_right hsub
  refine ⟨hst.holds, fun j d hj => ?_, fun j l d e hjl hj hl => ?_⟩
  · rcases getElem?_concat_cases hj with ⟨rfl, rfl⟩ | ⟨hji, hd⟩
    · rw [Function.update_self]
      exact hst
    · rw [Function.update_of_ne hji]
      exact (h.cache j d hd).other he hst.holds (Set.disjoint_empty _)
  · rcases getElem?_concat_cases hj with ⟨rfl, rfl⟩ | ⟨hji, hd⟩
    · rcases getElem?_concat_cases hl with ⟨rfl, _⟩ | ⟨hli, he'⟩
      · exact absurd rfl hjl
      · rw [Function.update_self, Function.update_of_ne hli]
        exact hother l e he'
    · rcases getElem?_concat_cases hl with ⟨rfl, rfl⟩ | ⟨hli, he'⟩
      · rw [Function.update_self, Function.update_of_ne hji]
        exact (hother j d hd).symm
      · rw [Function.update_of_ne hji, Function.update_of_ne hli]
        exact h.apart j l d e hjl hd he'

/-- A client's write stays inside its object. -/
theorem write (hA : A.Lawful U Holds) {fuel a : Nat} {value : BitVec 8} (h : s.Good Holds F view)
    (he : s.exec A fuel (.write a value) = some s') :
    s'.Good Holds F view ∧ s'.caches = s.caches := by
  simp only [exec] at he
  split_ifs at he with hlive
  simp only [Option.some.injEq] at he
  subst he
  obtain ⟨c, hcm, b, hb, hba, hlt⟩ := hlive
  obtain ⟨i, hi⟩ := List.mem_iff_getElem?.mp hcm
  have hci := h.cache i c hi
  have hin := (hci.inv.slot_of_live hb).inside hba hlt
  have hsame : Mem.SameOn (frameBytes (ownFrames c.cache (view i).frames))ᶜ s.kernel.mem
      (s.kernel.mem.set a value) := by
    intro x hx
    refine Mem.set_other _ _ (fun hxa => hx ?_)
    subst hxa
    exact mem_frameBytes.mpr (Set.mem_insert_of_mem _ hin.1)
  have hst := hci.write hA (hsame.mono (fun x hx hxo => hx (hci.own_held hxo)))
    (hci.inv.client_write hb (fun x hx => Mem.set_other _ _ (by omega)))
  have hgood := h.update (v := view i) hi hst (Effect.write hsame)
  rw [set_same_live hi, Function.update_eq_self] at hgood
  exact ⟨hgood, rfl⟩

/-- A step keeps all caches valid. A reap needs the accounts, which it then
keeps, as does every other step that is fair. -/
theorem step (hA : A.Lawful U Holds) {fuel : Nat} {op : SlabOp} (h : s.Good Holds F view)
    (hreap : ∀ i flags, op = .reap i flags → s.AllAccounted view)
    (he : s.exec A fuel op = some s') :
    ∃ F' view', s'.Good Holds F' view' ∧
      (s.AllAccounted view → op.Fair s → s'.AllAccounted view') := by
  cases op with
  | create name slabSize flags =>
    simp only [exec] at he
    split at he
    · simp at he
    · rename_i cache k hok
      simp only [Option.some.injEq] at he
      subst he
      rcases slabCacheCreate_spec hA h.holds hok with
        ⟨rfl, hh, heff⟩ | ⟨max', F', frames', slabs', hst, heff, hacc⟩
      · refine ⟨F, view, ⟨hh, fun i c hc => ?_, h.apart⟩, fun ha _ => ha⟩
        exact (h.cache i c hc).other heff hh (Set.disjoint_empty _)
      · rw [if_neg hst.inv.cacheBounds.1]
        exact ⟨F', _, h.append (v := ⟨max', frames', slabs'⟩) hst heff,
          fun ha _ => (allAccounted_iff.mp ha).append hacc⟩
  | grow i count flags =>
    obtain ⟨c, hc, he⟩ := Option.bind_eq_some_iff.mp he
    split at he
    · simp at he
    · rename_i k hok
      simp only [Option.some.injEq] at he
      subst he
      have hci := h.cache i c hc
      obtain ⟨max', F', frames', slabs', hst, heff, hacc⟩ := slabCacheGrow_spec hA hci hok
      rw [← set_same_live hc]
      refine ⟨F', _, h.update (v := ⟨max', frames', slabs'⟩) hc hst heff,
        fun ha hfair => ?_⟩
      exact (allAccounted_iff.mp ha).update hc (hacc (ha i c hc) (hci.growFair (hfair c hc)))
  | alloc i flags =>
    obtain ⟨c, hc, he⟩ := Option.bind_eq_some_iff.mp he
    split at he
    · simp at he
    · rename_i p k hok
      simp only [Option.some.injEq] at he
      subst he
      have hci := h.cache i c hc
      obtain ⟨max', F', frames', slabs', hst, heff, hacc⟩ := slabCacheAlloc_spec hA hci hok
      refine ⟨F', _, h.update (v := ⟨max', frames', slabs'⟩) hc hst heff,
        fun ha hfair => ?_⟩
      exact (allAccounted_iff.mp ha).update hc
        (hacc (ha i c hc) (hci.allocFair (hfair c _ hc hci.listed)))
  | free i pointer flags =>
    obtain ⟨c, hc, he⟩ := Option.bind_eq_some_iff.mp he
    split_ifs at he with hp
    split at he
    · simp at he
    · rename_i k hok
      simp only [Option.some.injEq] at he
      subst he
      have hci := h.cache i c hc
      obtain ⟨slabs', hst, heff, hacc⟩ := slabCacheFree_spec hA hci hp hok
      refine ⟨F, _, h.update (v := ⟨(view i).max, (view i).frames, slabs'⟩) hc hst heff,
        fun ha hfair => ?_⟩
      exact (allAccounted_iff.mp ha).update hc
        (hacc (ha i c hc) (hci.freeFair.mp (hfair c _ hc hci.listed)))
  | reap i flags =>
    obtain ⟨c, hc, he⟩ := Option.bind_eq_some_iff.mp he
    split at he
    · simp at he
    · rename_i k hok
      simp only [Option.some.injEq] at he
      subst he
      have ha := hreap i flags rfl
      obtain ⟨F', frames', slabs', hst, heff, hacc, _⟩ :=
        slabCacheReap_spec hA (h.cache i c hc) (ha i c hc) hok
      rw [← set_same_live hc]
      exact ⟨F', _, h.update (v := ⟨(view i).max, frames', slabs'⟩) hc hst heff,
        fun ha _ => (allAccounted_iff.mp ha).update hc hacc⟩
  | write a value =>
    obtain ⟨hgood, hcaches⟩ := h.write hA he
    exact ⟨F, view, hgood, fun ha _ i c hc => ha i c (by rwa [hcaches] at hc)⟩

/-- Live objects of all caches are apart from each other. -/
theorem live_apart (h : s.Good Holds F view) {j : Nat} {d : SlabCache} (hij : i ≠ j)
    (hc : s.caches[i]? = some c) (hd : s.caches[j]? = some d) {b e x : Nat} (hb : b ∈ c.live)
    (he : e ∈ d.live) (hxb : b ≤ x ∧ x < b + c.size) (hxe : e ≤ x ∧ x < e + d.size) :
    False := by
  have hin := ((h.cache i c hc).inv.slot_of_live hb).inside hxb.1 hxb.2
  have hin' := ((h.cache j d hd).inv.slot_of_live he).inside hxe.1 hxe.2
  exact Set.disjoint_left.mp (h.apart i j c d hij hc hd) (Set.mem_insert_of_mem _ hin.1)
    (Set.mem_insert_of_mem _ hin'.1)

end SlabState.Good

end Good

end ApoptOS
