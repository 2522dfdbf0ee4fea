import ApoptOS.Memory.Physical.PmmCounted
import ApoptOS.Memory.Physical.PmmRun

namespace ApoptOS

open Framework

section Counter

/-- The pages `pmm_init` gives to `pmm_free`, entry by entry. -/
def usablePages (es : List MmapEntry) : Nat :=
  (es.map (fun e => if e.type = .usable then e.length / pageSize else 0)).sum

theorem freeUsable_used (es : List MmapEntry) (m : Mem) (pmm : Pmm)
    (hlt : pmm.usedPagesCount < 2 ^ 64) (hle : usablePages es ≤ pmm.usedPagesCount) :
    (freeUsable m pmm es).2.usedPagesCount = pmm.usedPagesCount - usablePages es := by
  induction es generalizing m pmm with
  | nil => rfl
  | cons e es ih =>
    by_cases hu : e.type = .usable
    · obtain ⟨n, hn⟩ : ∃ n, n = e.length / pageSize := ⟨_, rfl⟩
      have hsum : usablePages (e :: es) = n + usablePages es := by simp [usablePages, hu, hn]
      rw [hsum] at hle ⊢
      have hsub : (pmmFree e.base n m pmm).2.usedPagesCount = pmm.usedPagesCount - n :=
        sub64_of_le hlt (by omega)
      rw [freeUsable, if_pos hu, ← hn]
      show (freeUsable (pmmFree e.base n m pmm).1 (pmmFree e.base n m pmm).2 es).2.usedPagesCount =
          _
      rw [ih _ _ (by rw [hsub]; omega) (by rw [hsub]; omega), hsub]
      omega
    · have hsum : usablePages (e :: es) = usablePages es := by simp [usablePages, hu]
      rw [hsum] at hle ⊢
      rw [freeUsable, if_neg hu]
      exact ih m pmm hlt hle

/-- Disjoint entries below a bound have no more pages than fit below it. -/
theorem usablePages_le {es : List MmapEntry} {n : Nat}
    (hal : ∀ e ∈ es, e.type = .usable → e.base % 4096 = 0 ∧ e.length % 4096 = 0)
    (hdis : es.Pairwise (fun a b => a.type = .usable → b.type = .usable →
      a.base + a.length ≤ b.base ∨ b.base + b.length ≤ a.base))
    (hbelow : ∀ e ∈ es, e.type = .usable → e.base + e.length ≤ 4096 * n) :
    usablePages es ≤ n := by
  -- list all frames of all usable entries: no frame is listed twice
  have hmem : ∀ e ∈ es, ∀ f, f ∈ (if e.type = .usable then
      List.range' (e.base / 4096) (e.length / pageSize) else []) →
      e.type = .usable ∧ e.base / 4096 ≤ f ∧ f < (e.base + e.length) / 4096 := by
    intro e he f hf
    split_ifs at hf with hu
    · have ha := hal e he hu
      have hf' := List.mem_range'_1.mp hf
      unfold pageSize at hf'
      exact ⟨hu, hf'.1, by omega⟩
    · simp at hf
  have hnodup : (es.flatMap (fun e => if e.type = .usable then
      List.range' (e.base / 4096) (e.length / pageSize) else [])).Nodup := by
    rw [List.nodup_flatMap]
    constructor
    · intro e _
      split_ifs
      · exact List.nodup_range'
      · exact List.nodup_nil
    · refine hdis.imp_of_mem (fun {a b} ha hb hab => ?_)
      intro f hfa hfb
      obtain ⟨hua, h1, h2⟩ := hmem a ha f hfa
      obtain ⟨hub, h3, h4⟩ := hmem b hb f hfb
      have hsep := hab hua hub
      omega
  have hsub : ∀ f ∈ es.flatMap (fun e => if e.type = .usable then
      List.range' (e.base / 4096) (e.length / pageSize) else []), f ∈ List.range n := by
    intro f hf
    obtain ⟨e, he, hfe⟩ := List.mem_flatMap.mp hf
    obtain ⟨hu, _, hlt⟩ := hmem e he f hfe
    have hb := hbelow e he hu
    exact List.mem_range.mpr (by omega)
  have hlen := (hnodup.subperm hsub).length_le
  rw [List.length_range, List.length_flatMap] at hlen
  have hmap : (es.map (fun e => (if e.type = .usable then
      List.range' (e.base / 4096) (e.length / pageSize) else []).length)) =
      es.map (fun e => if e.type = .usable then e.length / pageSize else 0) := by
    refine List.map_congr_left (fun e _ => ?_)
    split_ifs
    · exact List.length_range'
    · rfl
  rw [hmap] at hlen
  exact hlen

theorem usablePages_cut {size : Nat} {e : MmapEntry} (pre post : List MmapEntry)
    (hs : size ≤ e.length) (hlt : e.length < 2 ^ 64) :
    usablePages (pre ++ e.cut size :: post) ≤ usablePages (pre ++ e :: post) := by
  have hlen : (e.cut size).length = e.length - size := sub64_of_le hlt hs
  have htype : (e.cut size).type = e.type := rfl
  simp only [usablePages, List.map_append, List.map_cons, List.sum_append, List.sum_cons, hlen,
    htype]
  have hdiv : (e.length - size) / pageSize ≤ e.length / pageSize :=
    Nat.div_le_div_right (by omega)
  split_ifs <;> omega

/-- `used_pages_count` starts a quarter of the top of memory in bytes, which
no number of frees brings down to zero. -/
theorem pmmInit_used_pos {memoryMap : List MmapEntry} (m : Mem) (hm : MapOk memoryMap)
    (hN : pageToBit (highestTop memoryMap) ≤ 2 ^ 31) :
    (1 ≤ pageToBit (highestTop memoryMap) → 0 < (pmmInit m memoryMap).2.1.usedPagesCount) ∧
      (pmmInit m memoryMap).2.1.usedPagesCount < 2 ^ 63 := by
  have hsize := bitmapSize_le hN
  have hbound : ∀ e ∈ memoryMap, e.type = .usable → e.base + e.length ≤ 2 ^ 43 := by
    intro e he hu
    have hc := hm.covered e he hu
    omega
  obtain ⟨e, pre, post, heq, hu, hs, _, hpmm, _⟩ :=
    pmmInit_bits m hm.aligned hm.disjoint hm.host hbound hsize
  have hemem : e ∈ memoryMap := by rw [heq]; simp
  have heb := hbound e hemem hu
  have hpages : usablePages memoryMap ≤ pageToBit (highestTop memoryMap) := by
    refine usablePages_le hm.aligned hm.disjoint (fun d hd hdu => ?_)
    have htop := hm.usable_below_top hN hd hdu
    have hda := hm.aligned d hd hdu
    unfold pageToBit pageSize
    omega
  have hcut : usablePages (pre ++ e.cut (bitmapSize (highestTop memoryMap)) :: post) ≤
      usablePages memoryMap := by
    have h := usablePages_cut pre post hs (by omega)
    rwa [← heq] at h
  have hkb : kbToPages (highestTop memoryMap) = highestTop memoryMap / 4 := by
    unfold kbToPages pageSize
    unfold pageToBit pageSize at hN
    omega
  unfold pageToBit pageSize at hN hpages ⊢
  rw [hpmm, freeUsable_used]
  · show (_ → 0 < kbToPages (highestTop memoryMap) - _) ∧
        kbToPages (highestTop memoryMap) - _ < _
    rw [hkb]
    omega
  · show kbToPages (highestTop memoryMap) < 2 ^ 64
    rw [hkb]
    omega
  · show _ ≤ kbToPages (highestTop memoryMap)
    rw [hkb]
    omega

end Counter

/-- A call of a client that handles one frame at a time. -/
def PmmOp.OneFrame : PmmOp → Prop
  | .alloc n => n = 1
  | .allocz _ => False
  | .free _ n => n = 1

namespace PmmState

/-- Frame `f` is free according to the bitmap. -/
def IsFree (s : PmmState) (f : Nat) : Prop := bitmapCheckBit s.mem s.pmm.bitmap (toInt f) = 0#8

/-- The frames below the top of memory. -/
def frameCount (s : PmmState) : Nat := pageToBit s.pmm.highestPageTop

/-- The next call treats the free frames as a set from which requests take the
least element: what `pmm_alloc(1)` returns and removes, what `pmm_free(p, 1)`
adds, that the guard on the page counter is never the reason for a refusal,
and that giving a frame back at once restores everything. -/
structure FirstFit (s : PmmState) : Prop where
  null_iff : (pmmAlloc 1 s.mem s.pmm).1 = 0 ↔ ∀ f < s.frameCount, ¬ s.IsFree f
  null_keeps : (pmmAlloc 1 s.mem s.pmm).1 = 0 → s.exec (.alloc 1) = some s
  least : ∀ f < s.frameCount, s.IsFree f → (∀ g < f, ¬ s.IsFree g) →
    ∃ s', s.exec (.alloc 1) = some s' ∧ s'.live = (4096 * f, 1) :: s.live ∧
      (pmmAlloc 1 s.mem s.pmm).1 = 4096 * f ∧
      ∀ g < 8 * s.pmm.bitmap.size, s'.IsFree g ↔ s.IsFree g ∧ g ≠ f
  free : ∀ p s', s.exec (.free p 1) = some s' →
    ∀ g < 8 * s.pmm.bitmap.size, s'.IsFree g ↔ s.IsFree g ∨ g = p / 4096
  guard : (∃ f < s.frameCount, s.IsFree f) → ¬ s.pmm.usedPagesCount ≤ 0
  restore : (pmmAlloc 1 s.mem s.pmm).1 ≠ 0 →
    pmmFree (pmmAlloc 1 s.mem s.pmm).1 1 (pmmAlloc 1 s.mem s.pmm).2.1
      (pmmAlloc 1 s.mem s.pmm).2.2 = (s.mem, s.pmm)

/-- The ranges handed out are single frames, all accounted for. -/
structure Counted (s : PmmState) (base : Nat) (U : Set Nat) (u0 : Nat) : Prop where
  counted : PmmCounted s.mem s.pmm base U u0 (heldFrames s.live)
  disjoint : RangesDisjoint s.live

namespace Counted

variable {s s' : PmmState} {base u0 : Nat} {U : Set Nat}

theorem isFree_iff (h : s.Counted base U u0) {f : Nat} (hf : f < 8 * s.pmm.bitmap.size) :
    s.IsFree f ↔ usedBit s.mem base f = false := by
  have hsize := h.counted.inv.sizeLe
  exact bitmapCheckBit_eq h.counted.inv.stored (by omega)

theorem free_managed (h : s.Counted base U u0) {f : Nat} (hf : f < s.frameCount)
    (hfree : s.IsFree f) : f ∈ U ∧ f ∉ heldFrames s.live := by
  have htop := h.counted.inv.topLe
  have hlt : f < 8 * s.pmm.bitmap.size := lt_of_lt_of_le hf htop
  exact h.counted.inv.clear f hlt ((h.isFree_iff hlt).mp hfree)

theorem probesFree_iff (f : Nat) : ProbesFree s.mem s.pmm 1 f ↔ s.IsFree f := by
  constructor
  · intro h
    exact h 0 (by decide)
  · intro h j hj
    obtain rfl : j = 0 := by omega
    exact h

/-- The page counter is positive as long as anything is managed. -/
theorem used_pos (h : s.Counted base U u0) (hpos : U.Nonempty → 0 < u0) {f : Nat}
    (hf : f < s.frameCount) (hfree : s.IsFree f) : 0 < s.pmm.usedPagesCount := by
  have hu0 := hpos ⟨f, (h.free_managed hf hfree).1⟩
  rw [h.counted.used]
  omega

/-- `pmm_alloc(1)` takes the least free frame, if there is one. -/
theorem alloc_cases (h : s.Counted base U u0) (hpos : U.Nonempty → 0 < u0) :
    (pmmAlloc 1 s.mem s.pmm = (0, s.mem, s.pmm) ∧ ∀ f < s.frameCount, ¬ s.IsFree f) ∨
    ∃ f < s.frameCount, s.IsFree f ∧ (∀ g < f, ¬ s.IsFree g) ∧ f ≠ 0 ∧
      f ∈ U ∧ f ∉ heldFrames s.live ∧
      pmmAlloc 1 s.mem s.pmm = (f * 4096, setBits s.mem s.pmm.bitmap f 1,
        { s.pmm with usedPagesCount := add64 s.pmm.usedPagesCount 1 }) := by
  rcases h.counted.inv.alloc_one with
      ⟨hnone, hwhy⟩ | ⟨f, ⟨hf, hfree, hleast⟩, hf0, hU, hF, hone⟩
  · refine Or.inl ⟨hnone, fun f hf hfree => ?_⟩
    rcases hwhy with hused | hno
    · have hp := h.used_pos hpos hf hfree
      omega
    · exact hno f hf ((probesFree_iff f).mpr hfree)
  · exact Or.inr ⟨f, hf, (probesFree_iff f).mp hfree,
      fun g hg hgfree => hleast g hg ((probesFree_iff g).mpr hgfree), hf0, hU, hF, hone⟩

theorem step (h : s.Counted base U u0) (hu : u0 + U.ncard < 2 ^ 64)
    (hpos : U.Nonempty → 0 < u0) {op : PmmOp} (hop : op.OneFrame)
    (he : s.exec op = some s') : s'.Counted base U u0 := by
  cases op with
  | alloc n =>
    obtain rfl : n = 1 := hop
    simp only [exec, Option.some.injEq] at he
    subst he
    rcases h.alloc_cases hpos with ⟨hnone, _⟩ | ⟨f, _, _, _, hf0, hU, hF, hone⟩
    · rw [hnone]
      exact h
    · have hne : ¬ f * 4096 = 0 := by omega
      have hdiv : f * 4096 / 4096 = f := by omega
      rw [hone]
      constructor
      · simp only [record, hne, if_false, heldFrames_cons, hdiv, frameRun_one,
          Set.union_singleton]
        exact h.counted.taken hu hU hF
      · simp only [record, hne, if_false]
        refine List.pairwise_cons.mpr ⟨fun r hr => ?_, h.disjoint⟩
        rw [hdiv, frameRun_one]
        exact Set.disjoint_singleton_left.mpr (fun hc => hF ⟨r, hr, hc⟩)
  | allocz n => exact absurd hop (by simp [PmmOp.OneFrame])
  | free p n =>
    obtain rfl : n = 1 := hop
    simp only [exec] at he
    split_ifs at he with hlive
    simp only [Option.some.injEq] at he
    subst he
    obtain ⟨hd, hheld⟩ := heldFrames_erase hlive h.disjoint
    have hp : p / 4096 ∈ heldFrames s.live :=
      ⟨(p, 1), hlive, by rw [frameRun_one]; exact Set.mem_singleton _⟩
    refine ⟨?_, hd⟩
    rw [hheld, frameRun_one]
    exact h.counted.given hu hp

theorem run (h : s.Counted base U u0) (hu : u0 + U.ncard < 2 ^ 64)
    (hpos : U.Nonempty → 0 < u0) {ops : List PmmOp} (hops : ∀ op ∈ ops, op.OneFrame)
    (hr : s.run ops = some s') : s'.Counted base U u0 := by
  induction ops generalizing s with
  | nil =>
    simp only [PmmState.run, Option.some.injEq] at hr
    rw [← hr]
    exact h
  | cons op ops ih =>
    cases he : s.exec op with
    | none => simp [PmmState.run, he] at hr
    | some s1 =>
      simp only [PmmState.run, he] at hr
      exact ih (h.step hu hpos (hops op (by simp)) he) (fun o ho => hops o (by simp [ho])) hr

/-- Bits after marking frame `f`, and after clearing it. -/
theorem bits_one (h : s.Counted base U u0) {f g : Nat} (hf : f < 8 * s.pmm.bitmap.size) :
    usedBit (setBits s.mem s.pmm.bitmap f 1) base g = (usedBit s.mem base g || decide (g = f)) ∧
    usedBit (unsetBits s.mem s.pmm.bitmap f 1) base g =
      (usedBit s.mem base g && !decide (g = f)) := by
  have hsize := h.counted.inv.sizeLe
  have hiff : (f ≤ g ∧ g < f + 1) ↔ g = f := by omega
  rw [setBits_used h.counted.inv.stored _ _ _ (by omega),
    unsetBits_used h.counted.inv.stored _ _ _ (by omega), decide_eq_decide.mpr hiff]
  exact ⟨rfl, rfl⟩

theorem firstFit (h : s.Counted base U u0) (hpos : U.Nonempty → 0 < u0)
    (hlt : s.pmm.usedPagesCount < 2 ^ 64) : s.FirstFit := by
  have hinv := h.counted.inv
  have htop : s.frameCount ≤ 8 * s.pmm.bitmap.size := hinv.topLe
  have hsize := hinv.sizeLe
  refine ⟨?_, ?_, ?_, ?_, ?_, ?_⟩
  · rcases h.alloc_cases hpos with ⟨hnone, hno⟩ | ⟨f, hf, hfree, _, hf0, _, _, hone⟩
    · rw [hnone]
      exact ⟨fun _ => hno, fun _ => rfl⟩
    · have hne : ¬ f * 4096 = 0 := by omega
      simp only [hone, hne, false_iff, not_forall, not_not]
      exact ⟨f, hf, hfree⟩
  · intro hnull
    rcases h.alloc_cases hpos with ⟨hnone, _⟩ | ⟨f, _, _, _, hf0, _, _, hone⟩
    · simp [exec, hnone, record]
    · rw [hone] at hnull
      have hne : f * 4096 ≠ 0 := by omega
      exact absurd hnull hne
  · intro f hf hfree hleast
    rcases h.alloc_cases hpos with ⟨_, hno⟩ | ⟨f', hf', hfree', hleast', hf0, _, _, hone⟩
    · exact absurd hfree (hno f hf)
    · have hff : f' = f := by
        rcases lt_trichotomy f' f with hlt' | heq | hgt
        · exact absurd hfree' (hleast f' hlt')
        · exact heq
        · exact absurd hfree (hleast' f hgt)
      subst hff
      have hne : ¬ f' * 4096 = 0 := by omega
      refine ⟨_, rfl, ?_, ?_, fun g hg => ?_⟩
      · simp only [hone, record, hne, if_false, Nat.mul_comm]
      · rw [hone, Nat.mul_comm]
      · rw [hone, h.isFree_iff hg]
        show bitmapCheckBit (setBits s.mem s.pmm.bitmap f' 1) s.pmm.bitmap (toInt g) = 0#8 ↔ _
        rw [bitmapCheckBit_eq hinv.stored (by omega), (h.bits_one (by omega)).1]
        simp
  · intro p s' he g hg
    simp only [exec] at he
    split_ifs at he with hlive
    simp only [Option.some.injEq] at he
    subst he
    have hp : p / 4096 ∈ heldFrames s.live :=
      ⟨(p, 1), hlive, by rw [frameRun_one]; exact Set.mem_singleton _⟩
    have hplt := (hinv.managed _ (hinv.held hp)).2.1
    have hpc : p / 4096 < s.frameCount := hplt
    have hindex : pageToBit p = p / 4096 := rfl
    rw [h.isFree_iff hg]
    simp only [IsFree, pmmFree, hindex]
    rw [bitmapCheckBit_eq hinv.stored (by omega), (h.bits_one (by omega)).2,
      Bool.and_eq_false_iff, Bool.not_eq_false', decide_eq_true_eq]
  · rintro ⟨f, hf, hfree⟩
    have hused := h.used_pos hpos hf hfree
    omega
  · intro hne
    rcases h.alloc_cases hpos with ⟨hnone, _⟩ | ⟨f, hf, hfree, _, _, _, _, hone⟩
    · rw [hnone] at hne
      exact absurd rfl hne
    · have hindex : pageToBit (f * 4096) = f := by
        unfold pageToBit pageSize
        omega
      rw [hone]
      simp only [pmmFree, hindex, sub64_add64 1 hlt]
      refine Prod.ext ?_ rfl
      show bitmapUnsetBit (bitmapSetBit s.mem s.pmm.bitmap (toInt (f + 0))) s.pmm.bitmap
        (toInt (f + 0)) = s.mem
      exact bitmapUnsetBit_setBit hfree

end Counted

end PmmState

/-- For clients of single frames the allocator is a first-fit allocator over
the set of free frames, in every state they reach after `pmm_init`. -/
theorem pmm_single_frames_first_fit (m : Mem) (memoryMap : List MmapEntry)
    (haligned : ∀ e ∈ memoryMap, e.type = .usable → e.base % 4096 = 0 ∧ e.length % 4096 = 0)
    (hdisjoint : memoryMap.Pairwise (fun a b => a.type = .usable → b.type = .usable →
      a.base + a.length ≤ b.base ∨ b.base + b.length ≤ a.base))
    (hhost : ∃ e ∈ memoryMap, e.type = .usable ∧
      bitmapSize (highestTop memoryMap) ≤ e.length)
    (hregion : ∀ e ∈ memoryMap, e.type = .usable → e.base + e.length < 2 ^ 64)
    (hcovered : pageToBit (highestTop memoryMap) ≤ 8 * bitmapSize (highestTop memoryMap))
    (hN : pageToBit (highestTop memoryMap) ≤ 2 ^ 31) (ops : List PmmOp)
    (hops : ∀ op ∈ ops, op.OneFrame) (s : PmmState)
    (hrun : (PmmState.boot m memoryMap).run ops = some s) : s.FirstFit := by
  have hm : MapOk memoryMap := by
    refine ⟨haligned, hdisjoint, hhost, hcovered, fun e he hu => ?_⟩
    have htop := (foldl_raiseTop_bounds memoryMap (show 0 < 2 ^ 64 by positivity)).2.2 e he hu
    rw [add64_of_lt (hregion e he hu)] at htop
    have htop' : e.base + e.length ≤ highestTop memoryMap := htop
    have hal := haligned e he hu
    unfold pageToBit pageSize at hcovered
    omega
  obtain ⟨base, _, hcard, hcount⟩ := pmmInit_counts m hm hN
  have hempty : heldFrames [] = ∅ := by
    ext f
    simp [heldFrames]
  have hboot : (PmmState.boot m memoryMap).Counted base {f | InitiallyFree memoryMap base f}
      (pmmInit m memoryMap).2.1.usedPagesCount :=
    ⟨by rw [PmmState.boot, hempty]; exact hcount, List.Pairwise.nil⟩
  have hused : ({f | InitiallyFree memoryMap base f}.Nonempty →
      0 < (pmmInit m memoryMap).2.1.usedPagesCount) ∧
      (pmmInit m memoryMap).2.1.usedPagesCount < 2 ^ 63 := by
    obtain ⟨hpos, hlt⟩ := pmmInit_used_pos m hm hN
    refine ⟨?_, hlt⟩
    rintro ⟨f, hf0, ⟨e, he, hu, _, hf⟩, _⟩
    have htop := hm.usable_below_top hN he hu
    have hal := haligned e he hu
    exact hpos (by unfold pageToBit pageSize; omega)
  have hsum : (pmmInit m memoryMap).2.1.usedPagesCount +
      {f | InitiallyFree memoryMap base f}.ncard < 2 ^ 64 := by omega
  have hfinal := hboot.run hsum hused.1 hops hrun
  refine hfinal.firstFit hused.1 ?_
  have hle : (heldFrames s.live).ncard ≤ _ :=
    Set.ncard_le_ncard hfinal.counted.inv.held (PmmCounted.finite hfinal.counted.inv)
  rw [hfinal.counted.used]
  omega

/-- Three requests and one free on a small map. -/
theorem pmm_single_frames_first_fit_smallMap : ∃ s,
    (PmmState.boot (fun _ => 0#8) smallMap).run [.alloc 1, .alloc 1, .free 0x2000 1, .alloc 1] =
      some s ∧ s.live = [(0x2000, 1), (0x3000, 1)] ∧ s.FirstFit := by
  have hlive : ((PmmState.boot (fun _ => 0#8) smallMap).run
      [.alloc 1, .alloc 1, .free 0x2000 1, .alloc 1]).map PmmState.live =
      some [(0x2000, 1), (0x3000, 1)] := by decide +kernel
  obtain ⟨s, hs, hl⟩ := Option.map_eq_some_iff.mp hlive
  refine ⟨s, hs, hl, ?_⟩
  exact pmm_single_frames_first_fit _ smallMap smallMap_ok.aligned smallMap_ok.disjoint
    smallMap_ok.host (by decide) smallMap_ok.topCovered smallMap_frames_le _
    (by simp [PmmOp.OneFrame]) s hs

/-- After `pmm_init` frames are handed out until none is left: the frames under management are
those left free. -/
theorem bootKernel_counted {memoryMap : List MmapEntry} (hm : MapOk memoryMap)
    (hN : pageToBit (highestTop memoryMap) ≤ 2 ^ 31)
    (hlow : ∀ e ∈ memoryMap, e.type = .usable → 4096 ≤ e.base)
    (hpage : 1 ≤ pageToBit (highestTop memoryMap)) :
    ∃ base u0, (∃ e ∈ memoryMap, e.type = .usable ∧ e.base = base) ∧ 0 < u0 ∧
      pmmFrames.Lawful {f | InitiallyFree memoryMap base f}
        (fun m pmm F => PmmCounted m pmm base {f | InitiallyFree memoryMap base f} u0 F) ∧
      pmmFrames.Complete {f | InitiallyFree memoryMap base f}
        (fun m pmm F => PmmCounted m pmm base {f | InitiallyFree memoryMap base f} u0 F) ∧
      PmmCounted (bootKernel memoryMap).mem (bootKernel memoryMap).frames base
        {f | InitiallyFree memoryMap base f} u0 ∅ := by
  obtain ⟨hpos, hlt⟩ := pmmInit_used_pos (fun _ => 0#8) hm hN
  obtain ⟨base, hbase, hA, hcount⟩ := pmmInit_counted (fun _ => 0#8) hm hN hlow rfl hlt
  refine ⟨base, _, hbase, hpos hpage, hA, fun m pmm F h hrefused => ?_, hcount⟩
  by_contra hne
  obtain ⟨f, hfU, hfF⟩ := Set.exists_of_ssubset (h.inv.held.ssubset_of_ne hne)
  exact h.serves (hpos hpage) hfU hfF hrefused

theorem bootKernel_complete {memoryMap : List MmapEntry} (hm : MapOk memoryMap)
    (hN : pageToBit (highestTop memoryMap) ≤ 2 ^ 31)
    (hlow : ∀ e ∈ memoryMap, e.type = .usable → 4096 ≤ e.base)
    (hpage : 1 ≤ pageToBit (highestTop memoryMap)) :
    ∃ U Holds, pmmFrames.Lawful U Holds ∧ pmmFrames.Complete U Holds ∧
      Holds (bootKernel memoryMap).mem (bootKernel memoryMap).frames ∅ := by
  obtain ⟨base, u0, -, -, hA, hfull, hcount⟩ := bootKernel_counted hm hN hlow hpage
  exact ⟨_, _, hA, hfull, hcount⟩

end ApoptOS
