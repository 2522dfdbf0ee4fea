import ApoptOS.Memory.Dynamic.SlabFilter

namespace ApoptOS

open Framework

variable {ρ : Type} {A : PageFrames ρ} {U F : Set Nat} {Holds : Mem → ρ → Set Nat → Prop}
  {k k' : Kernel ρ} {m0 m : Mem} {cache v fuel : Nat} {slabs post rest ps : List Nat}
  {flags : SlabFlags} {done : Bool}

/-- The loop of `slab_cache_destroy` in memory `m`, started in `m0`, with the slabs `rest` still
in front of the cursor. Only the cursor has been written. -/
structure Releasing (U : Set Nat) (m0 m : Mem) (cache : Nat) (rest : List Nat) : Prop where
  cacheAligned : cache % 4096 = 0
  cacheFrame : cache / 4096 ∈ U
  slab : ∀ t ∈ rest, t % 4096 = 4056 ∧ t / 4096 ∈ U ∧ t / 4096 ≠ cache / 4096
  listed : Chain m0.load64 0 (m.load64 (cache + 32)) rest
  same : ∀ x, x / 4096 ∈ U → (x < cache + 32 ∨ cache + 40 ≤ x) → m x = m0 x

namespace Releasing

theorem start (h : SlabsIn U k.mem cache slabs) :
    Releasing U k.mem (k.setCacheSlabs cache (k.cacheSlabsHead cache)).mem cache slabs := by
  refine ⟨h.cacheAligned, h.cacheFrame, h.slab, ?_, fun x _ hx => Mem.store64_outside _ _ hx⟩
  show Chain k.mem.load64 0
    ((k.mem.store64 (cache + 32) (k.mem.load64 (cache + 24))).load64 (cache + 32)) slabs
  rw [Mem.load64_store64_same, Nat.mod_eq_of_lt (Mem.load64_lt _ _)]
  exact h.listed

theorem field (h : Releasing U m0 m cache rest) {t d : Nat} (ht : t ∈ rest) (hd : d + 8 ≤ 40) :
    m.load64 (t + d) = m0.load64 (t + d) := by
  obtain ⟨htm, htU, htc⟩ := h.slab t ht
  have hal := h.cacheAligned
  apply Mem.load64_congr
  intro x h1 h2
  have hxt : x / 4096 = t / 4096 := by omega
  exact h.same x (hxt ▸ htU) (by omega)

theorem maxWord (h : Releasing U m0 m cache rest) :
    m.load64 (cache + 16) = m0.load64 (cache + 16) := by
  have hal := h.cacheAligned
  apply Mem.load64_congr
  intro x h1 h2
  have hxc : x / 4096 = cache / 4096 := by omega
  exact h.same x (hxc ▸ h.cacheFrame) (by omega)

/-- The list itself is never written. -/
theorem keeps_list (h : Releasing U m0 m cache rest) (hs : SlabsIn U m0 cache slabs) :
    Chain m.load64 0 (m.load64 (cache + 24)) slabs := by
  have hal := h.cacheAligned
  have hhead : m.load64 (cache + 24) = m0.load64 (cache + 24) := by
    refine Mem.load64_congr (fun x h1 h2 => h.same x ?_ (Or.inl (by omega)))
    have hx : x / 4096 = cache / 4096 := by omega
    exact hx ▸ h.cacheFrame
  rw [hhead]
  refine hs.listed.congr (fun t ht => Mem.load64_congr (fun x h1 h2 => ?_))
  obtain ⟨hmod, htU, hne⟩ := hs.slab t ht
  have hx : x / 4096 = t / 4096 := by omega
  exact h.same x (hx ▸ htU) (by omega)

theorem cursor (h : Releasing U m0 m cache (v :: post)) : m.load64 (cache + 32) = v ∧ v ≠ 0 :=
  ⟨h.listed.1, h.listed.ne_stop v (by simp)⟩

theorem whole_iff (h : Releasing U m0 k.mem cache (v :: post)) :
    k.slabBufctlCount v = k.cacheBufctlCountMax cache ↔ WholeSlab m0 cache v := by
  rw [Kernel.slabBufctlCount, Kernel.cacheBufctlCountMax, h.field (by simp) (by omega), h.maxWord]
  rfl

/-- Slabs on the list are in different frames. -/
theorem frames_nodup (h : Releasing U m0 m cache rest) : (rest.map (· / 4096)).Nodup := by
  refine List.Nodup.map_on (fun t ht u hu he => ?_) h.listed.nodup
  obtain ⟨htm, -, -⟩ := h.slab t ht
  obtain ⟨hum, -, -⟩ := h.slab u hu
  omega

theorem frame_ne (h : Releasing U m0 m cache (v :: post)) :
    ∀ t ∈ post, t / 4096 ≠ v / 4096 := by
  intro t ht he
  have hnodup := h.frames_nodup
  rw [List.map_cons, List.nodup_cons] at hnodup
  exact hnodup.1 (List.mem_map.mpr ⟨t, ht, he⟩)

/-- A slab in use ends the loop. -/
theorem stop (h : Releasing U m0 k.mem cache (v :: post)) (hv : ¬ WholeSlab m0 cache v)
    (hpanic : flags.panic = false) (fuel : Nat) :
    destroySlabs A cache flags (fuel + 1) k = .ok (false, k) := by
  have hslab : k.cacheSlabs cache = v := h.cursor.1
  have hcount : k.slabBufctlCount v ≠ k.cacheBufctlCountMax cache :=
    fun he => hv (h.whole_iff.mp he)
  simp [destroySlabs, hslab, h.cursor.2, hcount, hpanic]

/-- For a slab that is free as a whole, the frame its free list starts in is given back. -/
theorem free_eq (h : Releasing U m0 k.mem cache (v :: post)) (hv : WholeSlab m0 cache v)
    (fuel : Nat) :
    destroySlabs A cache flags (fuel + 1) k =
      destroySlabs A cache flags fuel
        ((k.pmmFree A (m0.load64 (v + 24)) 1).setCacheSlabs cache
          ((k.pmmFree A (m0.load64 (v + 24)) 1).slabNext
            ((k.pmmFree A (m0.load64 (v + 24)) 1).cacheSlabs cache))) := by
  have hslab : k.cacheSlabs cache = v := h.cursor.1
  have hcount := h.whole_iff.mpr hv
  have hhead : k.slabFreelistHead v = m0.load64 (v + 24) := h.field (by simp) (by omega)
  simp only [destroySlabs, hslab, h.cursor.2, if_false, ne_eq, hcount, not_true, false_and, hhead]

/-- If that frame is one that is handed out, the loop goes on along the old list. -/
theorem free (hA : A.Lawful U Holds) (h : Releasing U m0 k.mem cache (v :: post))
    (hh : Holds k.mem k.frames F) (hv : WholeSlab m0 cache v)
    (hin : m0.load64 (v + 24) / 4096 ∈ F) :
    ∃ k1, (∀ fuel, destroySlabs A cache flags (fuel + 1) k =
      destroySlabs A cache flags fuel k1) ∧ Releasing U m0 k1.mem cache post ∧
      Holds k1.mem k1.frames (F \ {m0.load64 (v + 24) / 4096}) ∧
      k1.calls = .free (m0.load64 (v + 24)) 1 :: k.calls := by
  obtain ⟨hvm, hvU, hvc⟩ := h.slab v (by simp)
  have hal := h.cacheAligned
  obtain ⟨k2, hk2⟩ : ∃ k2, k2 = k.pmmFree A (m0.load64 (v + 24)) 1 := ⟨_, rfl⟩
  obtain ⟨hh2, hs2⟩ := hA.free_one _ _ _ _ hh hin
  have hs2' : Mem.SameOn (frameBytes U) k.mem k2.mem := by
    rw [hk2]
    exact hs2
  have hh2' : Holds k2.mem k2.frames (F \ {m0.load64 (v + 24) / 4096}) := by
    rw [hk2]
    exact hh2
  have hcur : k2.cacheSlabs cache = v := by
    rw [← h.cursor.1]
    refine hs2'.load64 (fun x h1 h2 => mem_frameBytes.mpr ?_)
    have hxc : x / 4096 = cache / 4096 := by omega
    exact hxc ▸ h.cacheFrame
  have hnext : k2.slabNext v = m0.load64 v := by
    refine Eq.trans ?_ (h.field (d := 0) (by simp) (by omega))
    refine hs2'.load64 (fun x h1 h2 => mem_frameBytes.mpr ?_)
    have hxv : x / 4096 = v / 4096 := by omega
    exact hxv ▸ hvU
  refine ⟨k2.setCacheSlabs cache (m0.load64 v), fun fuel => ?_, ⟨hal, h.cacheFrame,
    fun t ht => h.slab t (by simp [ht]), ?_, fun x hxU hxc => ?_⟩,
    hA.cursor hh2' hal h.cacheFrame _, ?_⟩
  · rw [h.free_eq hv, ← hk2, hcur, hnext]
  · show Chain m0.load64 0 ((k2.mem.store64 (cache + 32) (m0.load64 v)).load64 (cache + 32)) post
    rw [Mem.load64_store64_same, Nat.mod_eq_of_lt (Mem.load64_lt _ _)]
    exact h.listed.2.2
  · show k2.mem.store64 (cache + 32) _ x = _
    rw [Mem.store64_outside _ _ hxc, hs2' x hxU]
    exact h.same x hxU hxc
  · rw [hk2]
    rfl

/-- The whole loop, when every slab is free as a whole and the free lists start in handed-out
frames, no two in the same one. -/
theorem run (flags : SlabFlags) (hA : A.Lawful U Holds) (h : Releasing U m0 k.mem cache rest)
    (hh : Holds k.mem k.frames F) (hwhole : ∀ t ∈ rest, WholeSlab m0 cache t)
    (hin : ∀ t ∈ rest, m0.load64 (t + 24) / 4096 ∈ F)
    (hnodup : (rest.map (fun t => m0.load64 (t + 24) / 4096)).Nodup) :
    ∃ k', (∀ fuel, destroySlabs A cache flags fuel k =
        if rest.length < fuel then .ok (true, k') else .error .outOfFuel) ∧
      k'.calls = ((rest.map (fun t => m0.load64 (t + 24))).map (FrameCall.free · 1)).reverse ++
        k.calls := by
  induction rest generalizing k F with
  | nil =>
    have h0 : k.cacheSlabs cache = 0 := h.listed
    refine ⟨k, fun fuel => ?_, by simp⟩
    cases fuel with
    | zero => rfl
    | succ fuel => simp [destroySlabs, h0]
  | cons v post ih =>
    rw [List.map_cons, List.nodup_cons] at hnodup
    obtain ⟨k1, heq, h1, hh1, hcalls1⟩ := h.free hA hh (hwhole v (by simp)) (hin v (by simp))
    obtain ⟨k', hrun, hcalls⟩ := ih h1 hh1 (fun t ht => hwhole t (by simp [ht]))
      (fun t ht => ⟨hin t (by simp [ht]), fun he =>
        hnodup.1 (List.mem_map.mpr ⟨t, ht, Set.mem_singleton_iff.mp he⟩)⟩) hnodup.2
    refine ⟨k', fun fuel => ?_, ?_⟩
    · cases fuel with
      | zero => rfl
      | succ fuel =>
        rw [heq, hrun]
        simp
    · rw [hcalls, hcalls1]
      simp

/-- Where every slab that is free as a whole starts its free list in its own frame: if the loop
gets past every slab, they are all of that kind. -/
theorem whole_of_done (hA : A.Lawful U Holds) (h : Releasing U m0 k.mem cache rest)
    (hh : Holds k.mem k.frames F) (hin : ∀ t ∈ rest, t / 4096 ∈ F)
    (hhome : ∀ t ∈ rest, WholeSlab m0 cache t → m0.load64 (t + 24) / 4096 = t / 4096)
    (hok : destroySlabs A cache flags fuel k = .ok (true, k')) :
    ∀ t ∈ rest, WholeSlab m0 cache t := by
  induction rest generalizing k F fuel with
  | nil => simp
  | cons v post ih =>
    cases fuel with
    | zero => simp [destroySlabs] at hok
    | succ fuel =>
      have hv : WholeSlab m0 cache v := by
        by_contra hv
        have hslab : k.cacheSlabs cache = v := h.cursor.1
        have hcount : k.slabBufctlCount v ≠ k.cacheBufctlCountMax cache :=
          fun he => hv (h.whole_iff.mp he)
        simp only [destroySlabs, hslab, h.cursor.2, if_false, ne_eq, hcount, not_false_eq_true,
          true_and, if_true] at hok
        split at hok <;> simp at hok
      have hvhome := hhome v (by simp) hv
      obtain ⟨k1, heq, h1, hh1, -⟩ := h.free hA hh hv (hvhome ▸ hin v (by simp))
      rw [hvhome] at hh1
      rw [heq] at hok
      have hpost := ih h1 hh1 (fun t ht => ⟨hin t (by simp [ht]), h.frame_ne t ht⟩)
        (fun t ht => hhome t (by simp [ht])) hok
      intro t ht
      rcases List.mem_cons.mp ht with rfl | ht
      · exact hv
      · exact hpost t ht

end Releasing

/-- Whatever the loop meets, it only gives frames back. -/
theorem destroySlabs_calls (hok : destroySlabs A cache flags fuel k = .ok (done, k')) :
    ∃ ps : List Nat, k'.calls = (ps.map (FrameCall.free · 1)).reverse ++ k.calls := by
  induction fuel generalizing k with
  | zero => simp [destroySlabs] at hok
  | succ fuel ih =>
    simp only [destroySlabs] at hok
    split_ifs at hok
    · obtain ⟨-, rfl⟩ := Prod.mk.inj (Except.ok.inj hok)
      exact ⟨[], rfl⟩
    · obtain ⟨-, rfl⟩ := Prod.mk.inj (Except.ok.inj hok)
      exact ⟨[], rfl⟩
    · obtain ⟨ps, hps⟩ := ih hok
      refine ⟨k.slabFreelistHead (k.cacheSlabs cache) :: ps, ?_⟩
      rw [hps]
      simp [Kernel.setCacheSlabs, Kernel.pmmFree]

theorem frees_injective {ps' : List Nat} {log : List FrameCall}
    (h : (ps.map (FrameCall.free · 1)).reverse ++ log = (ps'.map (FrameCall.free · 1)).reverse ++
      log) :
    ps = ps' :=
  List.map_injective_iff.mpr (fun _ _ hpq => (FrameCall.free.inj hpq).1)
    (List.reverse_inj.mp (List.append_cancel_right h))

/-- If the loop gave back different frames, all of them handed out, then it went over the whole
list and they are those its free lists start in. -/
theorem Releasing.frees (hA : A.Lawful U Holds) (h : Releasing U m0 k.mem cache rest)
    (hh : Holds k.mem k.frames F) (hwhole : ∀ t ∈ rest, WholeSlab m0 cache t)
    (hok : destroySlabs A cache flags fuel k = .ok (done, k'))
    (hcalls : k'.calls = (ps.map (FrameCall.free · 1)).reverse ++ k.calls)
    (hin : ∀ p ∈ ps, p / 4096 ∈ F) (hnodup : (ps.map (· / 4096)).Nodup) :
    done = true ∧ ps = rest.map (fun t => m0.load64 (t + 24)) := by
  induction rest generalizing k F fuel ps with
  | nil =>
    have h0 : k.cacheSlabs cache = 0 := h.listed
    cases fuel with
    | zero => simp [destroySlabs] at hok
    | succ fuel =>
      simp only [destroySlabs, h0, if_true, Except.ok.injEq, Prod.mk.injEq] at hok
      obtain ⟨rfl, rfl⟩ := hok
      refine ⟨rfl, ?_⟩
      simpa using hcalls
  | cons v post ih =>
    cases fuel with
    | zero => simp [destroySlabs] at hok
    | succ fuel =>
      have hv := hwhole v (by simp)
      -- the first call of the loop is the first one of `ps`
      obtain ⟨ps', rfl⟩ : ∃ ps', ps = m0.load64 (v + 24) :: ps' := by
        have hstep := hok
        rw [h.free_eq hv] at hstep
        obtain ⟨ps', hps'⟩ := destroySlabs_calls hstep
        refine ⟨ps', ?_⟩
        have hlog : (ps.map (FrameCall.free · 1)).reverse ++ k.calls =
            ((m0.load64 (v + 24) :: ps').map (FrameCall.free · 1)).reverse ++ k.calls := by
          rw [← hcalls, hps']
          simp [Kernel.setCacheSlabs, Kernel.pmmFree]
        exact frees_injective hlog
      rw [List.map_cons, List.nodup_cons] at hnodup
      obtain ⟨k1, heq, h1, hh1, hcalls1⟩ := h.free hA hh hv (hin _ (by simp))
      rw [heq] at hok
      have hcalls' : k'.calls = (ps'.map (FrameCall.free · 1)).reverse ++ k1.calls := by
        rw [hcalls, hcalls1]
        simp
      obtain ⟨hdone, hps⟩ := ih h1 hh1 (fun t ht => hwhole t (by simp [ht])) hok hcalls'
        (fun p hp => ⟨hin p (by simp [hp]), fun he =>
          hnodup.1 (List.mem_map.mpr ⟨p, hp, Set.mem_singleton_iff.mp he⟩)⟩) hnodup.2
      exact ⟨hdone, by rw [hps, List.map_cons]⟩

end ApoptOS
