import ApoptOS.Memory.Virtual.PageMap

namespace ApoptOS

open Framework

variable {ρ : Type} {A : PageFrames ρ} {U : Set Nat} {Holds : Mem → ρ → Set Nat → Prop}
  {k : Kernel ρ} {pageTable root start stop offset i : Nat} {S F : Set Nat} {pages : List Nat}
  {privilege : MapPrivilege} {pat : PatCache}

/-- The pages from `start` up to `stop`, both at page boundaries. -/
def pagesBetween (start stop : Nat) : List Nat :=
  List.range' start ((stop - start) / 4096) 4096

theorem mem_pagesBetween (hstart : start % 4096 = 0) (hstop : stop % 4096 = 0) :
    i ∈ pagesBetween start stop ↔ start ≤ i ∧ i < stop ∧ i % 4096 = 0 := by
  simp only [pagesBetween, List.mem_range']
  constructor
  · rintro ⟨j, hj, rfl⟩
    omega
  · rintro ⟨hlow, hhigh, hi⟩
    exact ⟨(i - start) / 4096, by omega, by omega⟩

theorem pagesBetween_of_le (h : stop ≤ start) : pagesBetween start stop = [] := by
  have hlen : (stop - start) / 4096 = 0 := by omega
  rw [pagesBetween, hlen]
  rfl

theorem pagesBetween_of_lt (hstart : start % 4096 = 0) (hstop : stop % 4096 = 0)
    (h : start < stop) : pagesBetween start stop = start :: pagesBetween (start + 4096) stop := by
  have hlen : (stop - start) / 4096 = (stop - (start + 4096)) / 4096 + 1 := by omega
  rw [pagesBetween, hlen, List.range'_succ, pagesBetween]

/-- Below the last page the loop goes through its pages and ends. -/
theorem forPages_eq (body : Nat → Kernel ρ → Kernel ρ) (hstart : start % 4096 = 0)
    (hstop : stop % 4096 = 0) (hlast : stop ≤ 2 ^ 64 - 4096) {fuel : Nat}
    (hfuel : (stop - start) / 4096 < fuel) (k : Kernel ρ) :
    forPages body stop fuel start k =
      .ok ((pagesBetween start stop).foldl (fun k i => body i k) k) := by
  induction fuel generalizing start k with
  | zero => omega
  | succ fuel ih =>
    by_cases hlt : start < stop
    · have hnext : add64 start pageSize = start + 4096 := by
        unfold pageSize
        exact add64_of_lt (by omega)
      rw [forPages, if_pos hlt, hnext, ih (by omega) (by omega),
        pagesBetween_of_lt hstart hstop hlt, List.foldl_cons]
    · rw [forPages, if_neg hlt, pagesBetween_of_le (by omega), List.foldl_nil]

/-- `ALIGN_UP` of a 64-bit word: beyond the last page it wraps to 0. -/
theorem alignUp_word (h : stop < 2 ^ 64) :
    alignUp stop pageSize =
      if stop ≤ 2 ^ 64 - 4096 then (stop + 4095) / 4096 * 4096 else 0 := by
  split_ifs with hle
  · exact alignUp_page (by omega)
  · have hwrap : (stop + 4096 - 1) % 2 ^ 64 / 2 ^ 12 = 0 := by omega
    have hmask : (2 ^ 64 - 4096 : Nat) = (2 ^ 52 - 1) * 2 ^ 12 := by norm_num
    unfold alignUp pageSize
    rw [hmask, land_highMask (k := 12) (w := 52) (Nat.mod_lt _ (by norm_num)), hwrap, Nat.zero_mul]

theorem alignUp_bounds (h : stop < 2 ^ 64) :
    alignUp stop pageSize % 4096 = 0 ∧ alignUp stop pageSize ≤ 2 ^ 64 - 4096 := by
  rw [alignUp_word h]
  split_ifs <;> omega

/-- The loops of `vmm_map_range` and `vmm_unmap_range` end, whatever the bounds. -/
theorem rangeLoop_eq (body : Nat → Kernel ρ → Kernel ρ) (hstart : start < 2 ^ 64)
    (hstop : stop < 2 ^ 64) {fuel : Nat} (hfuel : 2 ^ 52 ≤ fuel) (k : Kernel ρ) :
    forPages body (alignUp stop pageSize) fuel (alignDown start pageSize) k =
      .ok ((pagesBetween (alignDown start pageSize) (alignUp stop pageSize)).foldl
        (fun k i => body i k) k) := by
  obtain ⟨hmod, hle⟩ := alignUp_bounds hstop
  have hdown := alignDown_page hstart
  exact forPages_eq body (by omega) hmod hle (by omega) k

/-- A step of a range loop sets the entry of page `target i` to `value i`. -/
def SetsEntry (Holds : Mem → ρ → Set Nat → Prop) (root : Nat)
    (body : Nat → Kernel ρ → Kernel ρ)
    (target : Nat → Nat) (value : Nat → Option (Nat × Nat)) (i : Nat) : Prop :=
  ∀ k S F, VmmState Holds k root S F → (body i k).Served →
    ∃ S' F', VmmState Holds (body i k) root S' F' ∧ ∀ v, translate (body i k).mem root v =
      if upperPath v = upperPath (target i) ∧ leafIndex v = leafIndex (target i) then value i
      else translate k.mem root v

theorem foldl_calls {body : Nat → Kernel ρ → Kernel ρ}
    (hcalls : ∀ i k, k.calls <:+ (body i k).calls) (pages : List Nat) (k : Kernel ρ) :
    k.calls <:+ (pages.foldl (fun k i => body i k) k).calls := by
  induction pages generalizing k with
  | nil => exact List.suffix_refl _
  | cons i pages ih => exact (hcalls i k).trans (ih _)

/-- The loop sets the entries of all its pages and of no others. -/
theorem VmmState.foldl_sets (h : VmmState Holds k root S F) (body : Nat → Kernel ρ → Kernel ρ)
    (target : Nat → Nat) (value : Nat → Option (Nat × Nat))
    (hcalls : ∀ i k, k.calls <:+ (body i k).calls)
    (hsets : ∀ i ∈ pages, SetsEntry Holds root body target value i)
    (htarget : ∀ i ∈ pages, CanonicalPage (target i))
    (hinj : ∀ i ∈ pages, ∀ j ∈ pages, target i = target j → i = j)
    (hs : (pages.foldl (fun k i => body i k) k).Served) :
    ∃ S' F', VmmState Holds (pages.foldl (fun k i => body i k) k) root S' F' ∧
      (∀ i ∈ pages,
        translate (pages.foldl (fun k i => body i k) k).mem root (target i) = value i) ∧
      ∀ v, CanonicalPage v → (∀ i ∈ pages, v ≠ target i) →
        translate (pages.foldl (fun k i => body i k) k).mem root v = translate k.mem root v := by
  induction pages generalizing k S F with
  | nil => exact ⟨S, F, h, by simp, fun v _ _ => rfl⟩
  | cons i pages ih =>
    rw [List.foldl_cons] at hs ⊢
    have htail : ∀ j ∈ pages, j ∈ i :: pages := fun j hj => List.mem_cons_of_mem i hj
    have hi := htarget i List.mem_cons_self
    obtain ⟨S1, F1, h1, htrans⟩ := hsets i List.mem_cons_self k S F h
      (hs.of_suffix (foldl_calls hcalls pages _))
    obtain ⟨S', F', h', hset, hkept⟩ := ih h1 (fun j hj => hsets j (htail j hj))
      (fun j hj => htarget j (htail j hj))
      (fun j hj l hl => hinj j (htail j hj) l (htail l hl)) hs
    refine ⟨S', F', h', fun j hj => ?_, fun v hv hne => ?_⟩
    · by_cases hmem : j ∈ pages
      · exact hset j hmem
      · -- no later step of the loop comes back to this page
        have hji : j = i := (List.mem_cons.mp hj).resolve_right hmem
        subst hji
        rw [hkept _ hi (fun l hl heq => hmem (hinj j hj l (htail l hl) heq ▸ hl)), htrans,
          if_pos ⟨rfl, rfl⟩]
    · rw [hkept v hv (fun j hj => hne j (htail j hj)), htrans, if_neg]
      rintro ⟨hpath, hleaf⟩
      exact hne i List.mem_cons_self (hv.eq_of_indices hi hpath hleaf)

theorem add64_page (hi : i % 4096 = 0) (hoffset : offset % 4096 = 0) :
    add64 i offset % 4096 = 0 := by
  unfold add64
  omega

theorem add64_inj {j : Nat} (hi : i < 2 ^ 64) (hj : j < 2 ^ 64)
    (h : add64 i offset = add64 j offset) : i = j := by
  unfold add64 at h
  omega

/-- What `vmm_map_range` does to the pages of its loop, all requests served. -/
theorem VmmState.map_pages (hA : A.Lawful U Holds) (h : VmmState Holds k root S F)
    (hptr : Points pageTable root) (hoffset : offset % 4096 = 0)
    (hpages : ∀ i ∈ pages, i < 2 ^ 52 ∧ i % 4096 = 0 ∧ Canonical (add64 i offset))
    (hs : (pages.foldl (fun k i =>
      vmmMapPage A k pageTable i (add64 i offset) privilege.flags pat) k).Served) :
    ∃ S' F', VmmState Holds (pages.foldl (fun k i =>
        vmmMapPage A k pageTable i (add64 i offset) privilege.flags pat) k) root S' F' ∧
      (∀ i ∈ pages, translate (pages.foldl (fun k i =>
        vmmMapPage A k pageTable i (add64 i offset) privilege.flags pat) k).mem root
          (add64 i offset) = some (i, privilege.flags ||| vmmPatCacheToFlags pat)) ∧
      ∀ v, CanonicalPage v → (∀ i ∈ pages, v ≠ add64 i offset) →
        translate (pages.foldl (fun k i =>
          vmmMapPage A k pageTable i (add64 i offset) privilege.flags pat) k).mem root v =
            translate k.mem root v := by
  refine h.foldl_sets
    (fun i k => vmmMapPage A k pageTable i (add64 i offset) privilege.flags pat)
    (fun i => add64 i offset) (fun i => some (i, privilege.flags ||| vmmPatCacheToFlags pat))
    (fun i k => vmmSetPtValue_calls _ _ _ _ _ _) ?_ ?_ ?_ hs
  · intro i hi k S F hk hserved
    obtain ⟨hlt, hmod, hcanon⟩ := hpages i hi
    obtain ⟨S', F', -, hstate, htrans, -⟩ := hk.map hA hptr hmod hlt hcanon.lt rfl hserved
    exact ⟨S', F', hstate, htrans⟩
  · intro i hi
    obtain ⟨-, hmod, hcanon⟩ := hpages i hi
    exact ⟨hcanon, add64_page hmod hoffset⟩
  · intro i hi j hj heq
    exact add64_inj (by have hlt := (hpages i hi).1; omega)
      (by have hlt := (hpages j hj).1; omega) heq

/-- What `vmm_unmap_range` does to the pages of its loop, all requests served. -/
theorem VmmState.unmap_all (hA : A.Lawful U Holds) (h : VmmState Holds k root S F)
    (hptr : Points pageTable root) (hpages : ∀ i ∈ pages, CanonicalPage i)
    (hs : (pages.foldl (fun k i => vmmUnmapPage A k pageTable i) k).Served) :
    (∀ i ∈ pages, translate
      (pages.foldl (fun k i => vmmUnmapPage A k pageTable i) k).mem root i = none) ∧
    ∀ v, CanonicalPage v → v ∉ pages →
      translate (pages.foldl (fun k i => vmmUnmapPage A k pageTable i) k).mem root v =
        translate k.mem root v := by
  obtain ⟨-, -, -, hset, hkept⟩ := h.foldl_sets
    (fun i k => vmmUnmapPage A k pageTable i) (fun i => i) (fun _ => none)
    (fun i k => vmmSetPtValue_calls _ _ _ _ _ _) (fun i hi k S F hk hserved => by
      obtain ⟨F', hstate, htrans⟩ := hk.unmap hA hptr (hpages i hi).1.lt hserved
      exact ⟨S, F', hstate, htrans⟩)
    hpages (fun i _ j _ heq => heq) hs
  exact ⟨hset, fun v hv hne => hkept v hv (fun i hi heq => hne (heq ▸ hi))⟩

end ApoptOS
