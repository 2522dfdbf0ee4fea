import ApoptOS.Libk.MallocWhole
import ApoptOS.Libk.MallocWindow

namespace ApoptOS

open Framework

section Beside

variable {ρ : Type} {A : PageFrames ρ} {U : Set Nat} {Holds : Mem → ρ → Set Nat → Prop}

/-- The frames `F` are handed out to one client, and the frames `V` to others, who find them as
they were in `m₀`. -/
def Beside (Holds : Mem → ρ → Set Nat → Prop) (V : Set Nat) (m₀ m : Mem) (r : ρ)
    (F : Set Nat) :
    Prop :=
  Holds m r (F ∪ V) ∧ Disjoint F V ∧ Mem.SameOn (frameBytes V) m₀ m

/-- An allocator that serves all serves each client beside the others: what is proved of one
client alone holds of it in their presence, and it leaves their frames as they are. -/
theorem PageFrames.Lawful.beside (hA : A.Lawful U Holds) (V : Set Nat) (m₀ : Mem) :
    A.Lawful (U \ V) (Beside Holds V m₀) where
  managed := fun f hf => hA.managed f hf.1
  subset := by
    intro m r F ⟨hh, hdis, _⟩ f hf
    exact ⟨hA.subset _ _ _ hh (Or.inl hf), Set.disjoint_left.mp hdis hf⟩
  allocz_one := by
    intro m r F ⟨hh, hdis, hsame⟩
    have hmine : frameBytes F ⊆ frameBytes (F ∪ V) := fun x hx => Or.inl hx
    have hother : frameBytes V ⊆ frameBytes (F ∪ V) := fun x hx => Or.inr hx
    rcases hA.allocz_one m r (F ∪ V) hh with
        ⟨hnull, hh', hsame'⟩ | ⟨f, hf, hfree, hh', hsame', hz⟩
    · exact Or.inl ⟨hnull, ⟨hh', hdis, hsame.trans (hsame'.mono hother)⟩,
        hsame'.mono hmine⟩
    · refine Or.inr ⟨f, hf, fun hfF => hfree (Or.inl hfF), ⟨?_, ?_, ?_⟩,
        hsame'.mono hmine, hz⟩
      · rw [Set.insert_union]
        exact hh'
      · exact Set.disjoint_insert_left.mpr ⟨fun hfV => hfree (Or.inr hfV), hdis⟩
      · exact hsame.trans (hsame'.mono hother)
  free_one := by
    intro m r F p ⟨hh, hdis, hsame⟩ hp
    obtain ⟨hh', hsame'⟩ := hA.free_one m r (F ∪ V) p hh (Or.inl hp)
    have hpV : p / 4096 ∉ V := Set.disjoint_left.mp hdis hp
    have hV : frameBytes V ⊆ frameBytes U := fun x hx => hA.subset _ _ _ hh (Or.inr hx)
    refine ⟨⟨?_, hdis.mono_left Set.sdiff_subset, hsame.trans (hsame'.mono hV)⟩, ?_⟩
    · rw [Set.union_sdiff_distrib, Set.sdiff_singleton_eq_self hpV] at hh'
      exact hh'
    · exact hsame'.mono (fun x hx => hx.1)
  client_writes := by
    intro m m' r F ⟨hh, hdis, hsame⟩ hm
    refine ⟨hA.client_writes m m' r _ hh (hm.mono ?_), hdis, hsame.trans (hm.mono ?_)⟩
    · exact fun x hx hxU => hx hxU.1
    · exact fun x hx hxU => hxU.2 hx

end Beside

section History

variable {ρ : Type} {A : PageFrames ρ}

/-- The same state with earlier calls in its history. -/
def Kernel.after (k : Kernel ρ) (calls : List FrameCall) : Kernel ρ :=
  { k with calls := k.calls ++ calls }

/-- The state with an empty history. -/
def Kernel.fresh (k : Kernel ρ) : Kernel ρ := { k with calls := [] }

theorem Kernel.fresh_after (k : Kernel ρ) : k.fresh.after k.calls = k := rfl

/-- The history is not read. -/
theorem vmmGetOrCreatePml_after (k : Kernel ρ) (calls : List FrameCall) (pml i flags : Nat) :
    vmmGetOrCreatePml A (k.after calls) pml i flags =
      ((vmmGetOrCreatePml A k pml i flags).1,
        (vmmGetOrCreatePml A k pml i flags).2.after calls) := by
  have hmem : (k.after calls).mem = k.mem := rfl
  by_cases hin : k.mem.load64 (pmlEntry pml i) &&& 1 = 0
  · have hin' := hin
    rw [← hmem] at hin'
    simp only [vmmGetOrCreatePml, if_pos hin, if_pos hin']
    rfl
  · have hin' := hin
    rw [← hmem] at hin'
    simp only [vmmGetOrCreatePml, if_neg hin, if_neg hin']
    rfl

theorem getOrCreatePath_after (flags : Nat) (p : List Nat) (pml : Nat) (k : Kernel ρ)
    (calls : List FrameCall) :
    getOrCreatePath A flags p pml (k.after calls) =
      ((getOrCreatePath A flags p pml k).1, (getOrCreatePath A flags p pml k).2.after calls) := by
  induction p generalizing pml k with
  | nil => rfl
  | cons i p ih =>
    simp only [getOrCreatePath, vmmGetOrCreatePml_after]
    exact ih _ _

theorem vmmSetPtValue_fresh (k : Kernel ρ) (pageTable virtPage ptValue flags : Nat)
    (pat : PatCache) :
    vmmSetPtValue A k pageTable virtPage ptValue flags pat =
      (vmmSetPtValue A k.fresh pageTable virtPage ptValue flags pat).after k.calls := by
  have hpath := getOrCreatePath_after (A := A) flags (upperPath virtPage) pageTable k.fresh k.calls
  rw [Kernel.fresh_after] at hpath
  rw [vmmSetPtValue_eq, vmmSetPtValue_eq, hpath]
  rfl

end History

/-- What the kernel does with its memory: calls of the heap and writes into its blocks, and pages
mapped and unmapped. -/
inductive MemoryOp where
  | heap (op : HeapOp)
  | map (phys : Nat) (virt : {v : Nat // Canonical v}) (privilege : MapPrivilege) (pat : PatCache)
  | unmap (virt : {v : Nat // Canonical v})

namespace MemoryOp

/-- The block that a call or a write is about. -/
def Given (b : Block) : MemoryOp → Prop
  | .heap op => op.Given b
  | .map _ _ _ _ => False
  | .unmap _ => False

/-- What becomes of the map from virtual pages to physical ones. -/
def applyMap (pages : VirtPage → Option (Nat × Nat)) :
    MemoryOp → VirtPage → Option (Nat × Nat)
  | .heap _ => pages
  | .map phys virt privilege pat =>
    Function.update pages virt.2.virtPage (some (phys, privilege.flags ||| vmmPatCacheToFlags pat))
  | .unmap virt => Function.update pages virt.2.virtPage none

end MemoryOp

/-- The physical byte behind a virtual address; none when an access to it faults. -/
def physicalByte (m : Mem) (root address : Nat) : Option Nat :=
  if h : Canonical address then
    (pageMap m root h.virtPage).map (fun page => page.1 + address % 4096)
  else none

namespace HeapState

def withKernel (s : HeapState Pmm) (k : Kernel Pmm) : HeapState Pmm :=
  ⟨{ s.heap with kernel := k }, s.blocks⟩

/-- One call, or one byte written by a client, which goes to wherever the page tables map its
address. `none` also when the write faults. -/
def execMemory (pageTable fuel : Nat) (s : HeapState Pmm) : MemoryOp → Option (HeapState Pmm)
  | .heap (.write a value) =>
    if ∃ b ∈ s.blocks, b.pointer ≤ a ∧ a < b.pointer + b.size then
      (physicalByte s.heap.kernel.mem (vmmLoadPageTable pageTable / 4096) a).map (fun x =>
        s.withKernel { s.heap.kernel with mem := s.heap.kernel.mem.set x value })
    else none
  | .heap op => s.exec pmmFrames fuel op
  | .map phys virt privilege pat =>
    some (s.withKernel (vmmMapPage pmmFrames s.heap.kernel pageTable phys virt privilege.flags pat))
  | .unmap virt => some (s.withKernel (vmmUnmapPage pmmFrames s.heap.kernel pageTable virt))

def runMemory (pageTable fuel : Nat) (s : HeapState Pmm) : List MemoryOp → Option (HeapState Pmm)
  | [] => some s
  | op :: ops => (s.execMemory pageTable fuel op).bind (fun s => s.runMemory pageTable fuel ops)

end HeapState

/-- No call of the page tables is refused a frame for a table, and the pages in `boot`, through
which the kernel reaches its memory, keep their frames and their rights. Their memory type may
change. -/
def MemoryOp.Sound (W : Set Nat) (boot : VirtPage → Option (Nat × Nat)) (pageTable : Nat)
    (s : HeapState Pmm) : MemoryOp → Prop
  | .heap op => op.Sound W s
  | .map phys virt privilege pat => phys % 4096 = 0 ∧ phys < 2 ^ 52 ∧
    (∀ x, boot virt.2.virtPage = some x → x = (phys, privilege.flags)) ∧
    (vmmMapPage pmmFrames s.heap.kernel.fresh pageTable phys virt privilege.flags pat).Served
  | .unmap virt => boot virt.2.virtPage = none ∧
    (vmmUnmapPage pmmFrames s.heap.kernel.fresh pageTable virt).Served

/-- Every step of the run is sound in the state it is made in. -/
def HeapState.SoundMemoryRun (W : Set Nat) (boot : VirtPage → Option (Nat × Nat))
    (pageTable fuel : Nat) (s : HeapState Pmm) : List MemoryOp → Prop
  | [] => True
  | op :: ops => op.Sound W boot pageTable s ∧
    ∀ s', s.execMemory pageTable fuel op = some s' → s'.SoundMemoryRun W boot pageTable fuel ops

/-- The pages in `boot` are mapped to their frames with their rights, whatever their memory
types. -/
def BootKept (boot pages : VirtPage → Option (Nat × Nat)) : Prop :=
  ∀ v x, boot v = some x →
    ∃ pat : PatCache, pages v = some (x.1, x.2 ||| vmmPatCacheToFlags pat)

/-- The heap window has a page for each frame of `U`. -/
def WindowOver (U : Set Nat) (boot : VirtPage → Option (Nat × Nat)) : Prop :=
  ∀ f ∈ U, ∀ v : VirtPage, v.1 = f * 4096 + heapStartAddr →
    boot v = some (f * 4096, MapPrivilege.kernelReadWrite.flags)

/-- Nothing that is reserved for a block changes unless the step is about that block. -/
def MemoryKept (s s' : HeapState Pmm) (op : MemoryOp) : Prop :=
  ∀ b ∈ s.blocks, ¬ op.Given b → ∀ x, b.Reserves x →
    s'.heap.kernel.mem x = s.heap.kernel.mem x

/-- The heap is in order, so are the page tables of `root`, and neither uses a frame of the
other. -/
def MemoryInv (base : Nat) (U : Set Nat) (root : Nat) (s : HeapState Pmm) : Prop :=
  ∃ (F S : Set Nat) (caches : List SlabCache) (view : Nat → CacheView),
    HeapInv (pmmHolds base U) s F caches view ∧ (∀ b ∈ s.blocks, b.size < 2 ^ 64) ∧
    PageTree s.heap.kernel.mem root S ∧ HeapInv.Outside S F caches view s.blocks

section BootKept

variable {boot pages : VirtPage → Option (Nat × Nat)} {W : Set Nat} {pageTable : Nat}
  {s : HeapState Pmm}

theorem bootKept_apply {op : MemoryOp} (hop : op.Sound W boot pageTable s)
    (h : BootKept boot pages) : BootKept boot (op.applyMap pages) := by
  intro v x hx
  cases op with
  | heap op => exact h v x hx
  | map phys virt privilege pat =>
    obtain ⟨-, -, hsame, -⟩ := hop
    by_cases hv : v = virt.2.virtPage
    · subst hv
      obtain rfl := hsame x hx
      exact ⟨pat, Function.update_self _ _ _⟩
    · rw [MemoryOp.applyMap, Function.update_of_ne hv]
      exact h v x hx
  | unmap virt =>
    have hv : v ≠ virt.2.virtPage := by
      rintro rfl
      rw [hop.1] at hx
      simp at hx
    rw [MemoryOp.applyMap, Function.update_of_ne hv]
    exact h v x hx

/-- An address in the heap window leads to the byte below it. -/
theorem physicalByte_window {U : Set Nat} {m : Mem} {root x : Nat} (hwindow : WindowOver U boot)
    (h : BootKept boot (pageMap m root)) (hx : x / 4096 ∈ U) (hlt : x < 2 ^ 44) :
    physicalByte m root (x + heapStartAddr) = some x := by
  have hcanonical : Canonical (x + heapStartAddr) := by
    unfold Canonical heapStartAddr
    omega
  have hpage : hcanonical.virtPage.1 = x / 4096 * 4096 + heapStartAddr := by
    show alignDown (x + heapStartAddr) pageSize = _
    rw [alignDown_page hcanonical.lt]
    unfold heapStartAddr
    omega
  obtain ⟨pat, hpat⟩ := h _ _ (hwindow _ hx _ hpage)
  rw [physicalByte, dif_pos hcanonical, hpat]
  simp only [Option.map_some, Option.some.injEq]
  unfold heapStartAddr
  omega

end BootKept

namespace HeapInv

variable {base root pageTable fuel : Nat} {U F S W : Set Nat} {s s' : HeapState Pmm}
  {caches : List SlabCache} {view : Nat → CacheView}

/-- What is reserved for a block is in none of the frames outside. -/
theorem Outside.not_reserved (hV : Outside S F caches view s.blocks)
    (h : HeapInv (pmmHolds base U) s F caches view) (hsizes : ∀ b ∈ s.blocks, b.size < 2 ^ 64)
    {b : Block} (hb : b ∈ s.blocks) {x : Nat} (hx : b.Reserves x) : x / 4096 ∉ S := by
  cases hclass : blockClass b.size with
  | none =>
    have hp := h.page_of_reserves hsizes hb hclass hx
    exact fun hxS => Set.disjoint_left.mp (hV.pages b (page_mem hb hclass)) hxS hp
  | some i =>
    obtain ⟨c, hc, -, -, hslot⟩ := h.block_slot hb hclass
    have hin := hslot.inside hx.1 (h.space_eq hc hclass ▸ hx.2)
    exact fun hxS =>
      Set.disjoint_left.mp (hV.caches i c hc) hxS (Set.mem_insert_of_mem _ hin.1)

theorem Outside.own_beside (hV : Outside S F caches view s.blocks)
    (h : HeapInv (pmmHolds base U) s F caches view) {i : Nat} {c : SlabCache}
    (hc : caches[i]? = some c) : ownFrames c.cache (view i).frames ⊆ F \ S :=
  fun _ hf => ⟨h.own_subset hc hf, fun hfS => Set.disjoint_left.mp (hV.caches i c hc) hfS hf⟩

theorem Outside.pages_beside (hV : Outside S F caches view s.blocks)
    (h : HeapInv (pmmHolds base U) s F caches view) {b : Block} (hb : b ∈ pageBlocks s.blocks) :
    b.pages ⊆ F \ S :=
  fun _ hf => ⟨(h.pages b hb).held hf, fun hfS => Set.disjoint_left.mp (hV.pages b hb) hfS hf⟩

/-- The heap is not disturbed by a client that keeps off the frames of all others. -/
theorem withKernel (h : HeapInv (pmmHolds base U) s F caches view)
    (hV : Outside S F caches view s.blocks) {k' : Kernel Pmm} {F' : Set Nat}
    (hk : Beside (pmmHolds base U) (F \ S) s.heap.kernel.mem k'.mem k'.frames F')
    (hcalls : s.heap.kernel.calls <:+ k'.calls) :
    HeapInv (pmmHolds base U) (s.withKernel k') (F' ∪ F \ S) caches view := by
  obtain ⟨hholds, -, hsame⟩ := hk
  refine h.pages_update hholds (fun i c hc => ?_) hcalls (fun _ => rfl) (fun b hb => ?_)
    h.pagesApart h.cachesApart
  · have hown := hV.own_beside h hc
    exact ⟨hown.trans Set.subset_union_right, hsame.mono (fun x hx => hown hx)⟩
  · have hp := h.pages b hb
    have hpages := hV.pages_beside h hb
    refine { hp with
      held := hpages.trans Set.subset_union_right
      tag := ?_ }
    rw [← hp.tag]
    refine Mem.load16_congr (fun x h1 h2 => hsame x (hpages ?_))
    have hxp : x / 4096 = metadataOf b.pointer / 4096 := by
      have haligned := hp.aligned
      omega
    exact hxp ▸ hp.first

/-- The page tables as a client of the allocator, beside the heap. -/
theorem vmmState (h : HeapInv (pmmHolds base U) s F caches view)
    (hV : Outside S F caches view s.blocks) (htree : PageTree s.heap.kernel.mem root S) :
    VmmState (Beside (pmmHolds base U) (F \ S) s.heap.kernel.mem) s.heap.kernel.fresh root S S := by
  refine ⟨⟨?_, Set.disjoint_sdiff_right, Mem.SameOn.refl _ _⟩, htree, subset_refl S⟩
  rw [Set.union_sdiff_cancel hV.held]
  exact h.good.holds

/-- What a call of the page tables does to the rest of the memory. -/
theorem paging_step (h : HeapInv (pmmHolds base U) s F caches view)
    (hsizes : ∀ b ∈ s.blocks, b.size < 2 ^ 64) (hV : Outside S F caches view s.blocks)
    {k' : Kernel Pmm} {S' F' : Set Nat}
    (hstate : VmmState (Beside (pmmHolds base U) (F \ S) s.heap.kernel.mem) k' root S' F') :
    MemoryInv base U root (s.withKernel (k'.after s.heap.kernel.calls)) ∧
      ∀ b ∈ s.blocks, ∀ x, b.Reserves x → k'.mem x = s.heap.kernel.mem x := by
  obtain ⟨-, hdis, hsame⟩ := hstate.holds
  have hoff : ∀ V : Set Nat, V ⊆ F \ S → Disjoint S' V :=
    fun V hVs => hdis.mono hstate.held hVs
  constructor
  · have hheap : HeapInv (pmmHolds base U) (s.withKernel (k'.after s.heap.kernel.calls))
        (F' ∪ F \ S) caches view := h.withKernel hV hstate.holds (List.suffix_append _ _)
    refine ⟨F' ∪ F \ S, S', caches, view, hheap, hsizes, hstate.tree, ?_⟩
    exact ⟨hstate.held.trans Set.subset_union_left, fun i c hc => hoff _ (hV.own_beside h hc),
      fun b hb => hoff _ (hV.pages_beside h hb)⟩
  · intro b hb x hx
    exact hsame x ⟨h.held_of_reserves hsizes hb hx, hV.not_reserved h hsizes hb hx⟩

end HeapInv

namespace MemoryInv

variable {base root pageTable fuel : Nat} {U W : Set Nat} {s s' : HeapState Pmm} {op : MemoryOp}
  {boot : VirtPage → Option (Nat × Nat)}

theorem step_heap (hbase : 4096 ≤ base) (hU : U ⊆ W) (h : MemoryInv base U root s) {op : HeapOp}
    (hop : op.Sound W s) (he : s.exec pmmFrames fuel op = some s') :
    MemoryInv base U root s' ∧
    pageMap s'.heap.kernel.mem root = pageMap s.heap.kernel.mem root ∧
      BlocksKept s s' op := by
  obtain ⟨F, S, caches, view, hinv, hsizes, htree, hV⟩ := h
  obtain ⟨-, -, -, -, -, hkept, -⟩ := hinv.move hbase hU hsizes hop he
  have hone : s.run pmmFrames fuel [op] = some s' := by simp [HeapState.run, he]
  have hsound : s.SoundRun W fuel [op] := ⟨hop, fun _ _ => trivial⟩
  obtain ⟨F', caches', view', hinv', hsizes', hV', hsame⟩ :=
    hinv.run_sound hbase hU hsizes hV hsound hone
  obtain ⟨htree', -, htrans⟩ := htree.congr (fun t ht j hj => tables_sameOn hsame ht hj)
  refine ⟨⟨F', S, caches', view', hinv', hsizes', htree', hV'⟩, ?_, hkept⟩
  funext v
  exact htrans v

/-- A byte of a block is behind its address. -/
theorem block_byte (h : MemoryInv base U root s) (hwindow : WindowOver U boot)
    (hkept : BootKept boot (pageMap s.heap.kernel.mem root)) {b : Block} (hb : b ∈ s.blocks)
    {off : Nat} (hoff : off < b.size) (hend : b.pointer + b.size ≤ 2 ^ 64) :
    physicalByte s.heap.kernel.mem root (b.pointer + off) = some (heapPhys (b.pointer + off)) := by
  obtain ⟨F, S, caches, view, hinv, hsizes, -, -⟩ := h
  obtain ⟨hlow, hpoint⟩ := hinv.pointer_bound hb
  have hshort : b.size < 2 ^ 47 := by
    rw [hpoint] at hend
    unfold heapStartAddr at hend
    omega
  have hfit := hinv.space_fits hsizes hb (by omega)
  obtain ⟨x, hx⟩ : ∃ x, x = metadataOf b.pointer + 2 + off := ⟨_, rfl⟩
  have hreserved : b.Reserves x := ⟨by omega, by omega⟩
  have hheld := mem_frameBytes.mp (hinv.held_of_reserves hsizes hb hreserved)
  have hlt := hinv.frame_lt hheld
  have haddress : b.pointer + off = x + heapStartAddr := by omega
  rw [hinv.block_phys_of_pmm hb (by omega), ← hx, haddress]
  exact physicalByte_window hwindow hkept (hinv.pmm.held hheld) (by omega)

/-- While the window is mapped, clients write where their addresses say. -/
theorem exec_heap (h : MemoryInv base U (vmmLoadPageTable pageTable / 4096) s)
    (hwindow : WindowOver U boot)
    (hkept : BootKept boot (pageMap s.heap.kernel.mem (vmmLoadPageTable pageTable / 4096)))
    {op : HeapOp} (hop : op.Sound W s) :
    s.execMemory pageTable fuel (.heap op) = s.exec pmmFrames fuel op := by
  cases op with
  | malloc size => rfl
  | free p => rfl
  | write a value =>
    simp only [HeapState.execMemory, HeapState.exec]
    split_ifs with hin
    · obtain ⟨b, hb, hba, hab⟩ := hin
      obtain ⟨off, rfl⟩ : ∃ off, a = b.pointer + off := ⟨a - b.pointer, by omega⟩
      rw [h.block_byte hwindow hkept hb (by omega) (hop b hb hba hab)]
      rfl
    · rfl

/-- One step: the invariant is kept, the page map changes in the pages the step is about, and the
blocks the step is not about stay as they are. -/
theorem step (hbase : 4096 ≤ base) (hU : U ⊆ W)
    (hptr : Points pageTable (vmmLoadPageTable pageTable / 4096)) (hwindow : WindowOver U boot)
    (h : MemoryInv base U (vmmLoadPageTable pageTable / 4096) s)
    (hkept : BootKept boot (pageMap s.heap.kernel.mem (vmmLoadPageTable pageTable / 4096)))
    (hop : op.Sound W boot pageTable s) (he : s.execMemory pageTable fuel op = some s') :
    MemoryInv base U (vmmLoadPageTable pageTable / 4096) s' ∧
      pageMap s'.heap.kernel.mem (vmmLoadPageTable pageTable / 4096) =
        op.applyMap (pageMap s.heap.kernel.mem (vmmLoadPageTable pageTable / 4096)) ∧
      MemoryKept s s' op := by
  cases op with
  | heap op =>
    rw [h.exec_heap hwindow hkept hop] at he
    exact h.step_heap hbase hU hop he
  | map phys virt privilege pat =>
    obtain ⟨F, S, caches, view, hinv, hsizes, htree, hV⟩ := h
    obtain ⟨hphys, hlt, -, hserved⟩ := hop
    have hA := (pmmHolds_lawful hbase hinv.pmm).beside (F \ S) s.heap.kernel.mem
    obtain ⟨S', F', -, hstate, htrans, -⟩ :=
      (hinv.vmmState hV htree).map hA hptr hphys hlt virt.2.lt rfl hserved
    have heq : vmmMapPage pmmFrames s.heap.kernel pageTable phys virt privilege.flags pat =
        (vmmMapPage pmmFrames s.heap.kernel.fresh pageTable phys virt privilege.flags pat).after
          s.heap.kernel.calls := vmmSetPtValue_fresh _ _ _ _ _ _
    simp only [HeapState.execMemory, heq, Option.some.injEq] at he
    subst he
    obtain ⟨hinv', hkept⟩ := hinv.paging_step hsizes hV hstate
    exact ⟨hinv', pageMap_update virt.2 htrans, fun b hb _ => hkept b hb⟩
  | unmap virt =>
    obtain ⟨F, S, caches, view, hinv, hsizes, htree, hV⟩ := h
    have hA := (pmmHolds_lawful hbase hinv.pmm).beside (F \ S) s.heap.kernel.mem
    obtain ⟨F', hstate, htrans⟩ := (hinv.vmmState hV htree).unmap hA hptr virt.2.lt hop.2
    have heq : vmmUnmapPage pmmFrames s.heap.kernel pageTable virt =
        (vmmUnmapPage pmmFrames s.heap.kernel.fresh pageTable virt).after s.heap.kernel.calls :=
      vmmSetPtValue_fresh _ _ _ _ _ _
    simp only [HeapState.execMemory, heq, Option.some.injEq] at he
    subst he
    obtain ⟨hinv', hkept⟩ := hinv.paging_step hsizes hV hstate
    exact ⟨hinv', pageMap_update virt.2 htrans, fun b hb _ => hkept b hb⟩

/-- A whole run: the page map is what the calls of the page tables among its steps make of the
first one, and the pages of the boot are kept. -/
theorem run (hbase : 4096 ≤ base) (hU : U ⊆ W)
    (hptr : Points pageTable (vmmLoadPageTable pageTable / 4096)) (hwindow : WindowOver U boot)
    (h : MemoryInv base U (vmmLoadPageTable pageTable / 4096) s)
    (hkept : BootKept boot (pageMap s.heap.kernel.mem (vmmLoadPageTable pageTable / 4096)))
    {ops : List MemoryOp} (hs : s.SoundMemoryRun W boot pageTable fuel ops)
    (hr : s.runMemory pageTable fuel ops = some s') :
    MemoryInv base U (vmmLoadPageTable pageTable / 4096) s' ∧
      BootKept boot (pageMap s'.heap.kernel.mem (vmmLoadPageTable pageTable / 4096)) ∧
      pageMap s'.heap.kernel.mem (vmmLoadPageTable pageTable / 4096) =
        ops.foldl MemoryOp.applyMap
          (pageMap s.heap.kernel.mem (vmmLoadPageTable pageTable / 4096)) := by
  induction ops generalizing s with
  | nil =>
    obtain rfl : s = s' := Option.some.inj hr
    exact ⟨h, hkept, rfl⟩
  | cons op ops ih =>
    obtain ⟨s1, he, hr⟩ := Option.bind_eq_some_iff.mp hr
    obtain ⟨hop, hrest⟩ := hs
    obtain ⟨h1, hmap, -⟩ := h.step hbase hU hptr hwindow hkept hop he
    have hkept1 := bootKept_apply hop hkept
    rw [← hmap] at hkept1
    obtain ⟨h', hkept', hmap'⟩ := ih h1 hkept1 (hrest s1 he) hr
    refine ⟨h', hkept', ?_⟩
    rw [List.foldl_cons, ← hmap, hmap']

/-- The heap right after `malloc_heap_init`, on page tables that are there already. -/
theorem of_init {k : Kernel Pmm} {S F : Set Nat} (hbase : 4096 ≤ base)
    (hk : VmmState (pmmHolds base U) k root S F) {h : Heap Pmm}
    (hinit : mallocHeapInit pmmFrames k = .ok h) :
    MemoryInv base U root ⟨h, []⟩ ∧ pageMap h.kernel.mem root = pageMap k.mem root := by
  have hnone : HeapState.SoundRun Set.univ 0 ⟨h, []⟩ [] := trivial
  obtain ⟨F', caches, view, hinv, hsizes, hV, hsame⟩ :=
    HeapInv.of_init hbase hk.holds hinit (Set.subset_univ _) hnone rfl
  obtain ⟨htree, -, htrans⟩ :=
    hk.tree.congr (fun t ht j hj => tables_sameOn hsame (hk.held ht) hj)
  have hS : HeapInv.Outside S F' caches view [] :=
    ⟨hk.held.trans hV.held, fun i c hc => (hV.caches i c hc).mono_left hk.held,
      fun b hb => (hV.pages b hb).mono_left hk.held⟩
  refine ⟨⟨F', S, caches, view, hinv, hsizes, htree, hS⟩, ?_⟩
  funext v
  exact htrans v

end MemoryInv

/-- The pages as `vmm_init` maps them, of the windows that have one the last. -/
def bootPages (memoryMap : List MmapEntry) (v : VirtPage) : Option (Nat × Nat) :=
  (bootWindows memoryMap).foldl (fun x w => (w.value v).or x) none

/-- The window ends at `HEAP_MAX_SIZE`, and has all frames when the usable memory does too. -/
theorem windowOver_boot {m : Mem} {memoryMap : List MmapEntry} (hm : MapOk memoryMap)
    (hbound : ∀ e ∈ memoryMap, e.base + e.length ≤ 2 ^ 44)
    (hheap : ∀ e ∈ memoryMap, e.type = .usable → e.base + e.length ≤ heapMaxSize)
    {base : Nat} :
    WindowOver {f | InitiallyFree memoryMap base f} (bootPages (pmmInit m memoryMap).2.2) := by
  intro f hf v hv
  obtain ⟨-, ⟨e, he, husable, hlow, hhigh⟩, -⟩ := hf
  have hend := hheap e he husable
  have hlt : f * 4096 < heapMaxSize := by omega
  have hmax : heapMaxSize = 2 ^ 32 := rfl
  have hcut : ∀ e ∈ (pmmInit m memoryMap).2.2, e.base + e.length ≤ 2 ^ 44 :=
    hostBitmap_bound hm.host (by decide : 2 ^ 44 < 2 ^ 64) hbound
  rw [bootPages, hv, bootWindows_heap hcut (by omega), if_pos hlt]

theorem bootKept_refl (memoryMap : List MmapEntry) :
    BootKept (bootPages memoryMap) (bootPages memoryMap) := by
  intro v x hx
  refine ⟨.uncacheable, ?_⟩
  rw [hx]
  simp [vmmPatCacheToFlags]

/-- The memory after `pmm_init`, `vmm_init` and `malloc_heap_init`. -/
theorem memoryInv_boot {m : Mem} {memoryMap : List MmapEntry} (hm : MapOk memoryMap)
    (hN : pageToBit (highestTop memoryMap) ≤ 2 ^ 31)
    (hlow : ∀ e ∈ memoryMap, e.type = .usable → 4096 ≤ e.base)
    (hbound : ∀ e ∈ memoryMap, e.base + e.length ≤ 2 ^ 44) {fuel : Nat}
    (hfuel : 2 ^ 52 ≤ fuel) {rootPageTable : Nat} {k : Kernel Pmm}
    (hvmm : vmmInit pmmFrames fuel ⟨(pmmInit m memoryMap).1, (pmmInit m memoryMap).2.1, []⟩
      (pmmInit m memoryMap).2.2 = .ok (rootPageTable, k)) (hserved : k.Served) {h : Heap Pmm}
    (hinit : mallocHeapInit pmmFrames k = .ok h) :
    ∃ base, 4096 ≤ base ∧ Points rootPageTable (vmmLoadPageTable rootPageTable / 4096) ∧
      MemoryInv base {f | InitiallyFree memoryMap base f}
        (vmmLoadPageTable rootPageTable / 4096) ⟨h, []⟩ ∧
      pageMap h.kernel.mem (vmmLoadPageTable rootPageTable / 4096) =
        bootPages (pmmInit m memoryMap).2.2 := by
  obtain ⟨base, hpmm, -, -, ⟨e, he, husable, hbase⟩, -⟩ := pmmInit_spec m hm hN
  have hbase4 : 4096 ≤ base := hbase ▸ hlow e he husable
  have hA := pmmHolds_lawful hbase4 hpmm
  have hframes : ∀ f ∈ {f | InitiallyFree memoryMap base f}, f < 2 ^ 32 :=
    fun f hf => (initiallyFree_lt hm hN hf).trans (by decide)
  have hcut := hostBitmap_bound hm.host (by decide : 2 ^ 44 < 2 ^ 64) hbound
  have hF : pmmHolds base {f | InitiallyFree memoryMap base f}
    (pmmInit m memoryMap).1 (pmmInit m memoryMap).2.1 ∅ := hpmm
  have hok := vmmInit_ok (k := ⟨_, _, []⟩) hA hframes hF hcut hfuel
  obtain ⟨rfl, rfl⟩ := Prod.mk.inj (Except.ok.inj (hvmm.symm.trans hok))
  obtain ⟨root, S, F, hpage, -, hroot, hstate, htrans⟩ :=
    vmmKernel_state (k := ⟨_, _, []⟩) hA hframes hF hcut hserved
  rw [hpage, vmmLoadPageTable_root hroot]
  obtain ⟨hinv, hmap⟩ := MemoryInv.of_init hbase4 hstate hinit
  refine ⟨base, hbase4, points_higherHalfData hroot, hinv, ?_⟩
  rw [hmap]
  funext v
  exact htrans v v.2

/-- A mapped page is mapped anew without a request. -/
theorem MemoryInv.map_sound {base root pageTable phys : Nat} {U W : Set Nat} {s : HeapState Pmm}
    {boot : VirtPage → Option (Nat × Nat)} {virt : {v : Nat // Canonical v}} {x : Nat × Nat}
    (hptr : Points pageTable root) (h : MemoryInv base U root s) (hphys : phys % 4096 = 0)
    (hlt : phys < 2 ^ 52) (hpage : CanonicalPage virt)
    (hx : pageMap s.heap.kernel.mem root ⟨virt, hpage⟩ = some x) (privilege : MapPrivilege)
    (pat : PatCache)
    (hboot : ∀ x, boot virt.2.virtPage = some x → x = (phys, privilege.flags)) :
    MemoryOp.Sound W boot pageTable s (.map phys virt privilege pat) := by
  obtain ⟨F, S, caches, view, hinv, -, htree, hV⟩ := h
  have htrans : translate s.heap.kernel.mem root virt = some x := hx
  refine ⟨hphys, hlt, hboot, ?_⟩
  cases hfind : Radix.find nextTable (tables s.heap.kernel.mem) (upperPath virt) root with
  | none => simp [translate_of_none hfind] at htrans
  | some u =>
    obtain ⟨hpresent, -⟩ := (hinv.vmmState hV htree).getOrCreatePath_present (A := pmmFrames)
      (p := []) privilege.flags (q := upperPath virt) (upperPath_isPath virt) rfl hptr hfind
    intro n hn
    rw [vmmMapPage, vmmSetPtValue_eq, upperPath_alignDown virt.2.lt, hpresent] at hn
    simp [Kernel.store64, Kernel.fresh] at hn

/-- The boot on `lowMap`, whose usable memory is all below `HEAP_MAX_SIZE`. -/
theorem lowMap_booted : ∃ rootPageTable k h,
    vmmInit pmmFrames (2 ^ 52) (bootKernel lowMap) (bootMap lowMap) = .ok (rootPageTable, k) ∧
    k.Served ∧ mallocHeapInit pmmFrames k = .ok h ∧
    (∃ h1 p, HeapState.exec pmmFrames 1 ⟨h, []⟩ (.malloc 510) =
      some ⟨h1, [⟨p, 510⟩]⟩) ∧
    (∀ e ∈ lowMap, e.type = .usable → e.base + e.length ≤ heapMaxSize) ∧
    bootPages (bootMap lowMap) ⟨0x400000, by decide⟩ = some (0x400000, 3) := by
  have hentry : ∀ e ∈ bootMap lowMap, e = ⟨0x103000, 0xFFFD000, .usable⟩ := by
    rw [bootMap_lowMap]
    simp
  have hN : pageToBit (highestTop lowMap) ≤ 2 ^ 31 := by
    rw [lowMap_frames]
    decide
  obtain ⟨base, rootPageTable, k, h, hbase, hvmm, hserved, hinit, F, caches, view, hinv⟩ :=
    bootKernel_heap lowMap_layout.1 hN (by decide) (by decide) (by rw [lowMap_frames]; decide)
      (by decide : 28672 + 12 ≤ 65792 - 259) lowMap_free (fun e he => by rw [hentry e he]; decide)
  have hclass : blockClass 510 = some 5 := by decide +kernel
  have hcap : 4056 / roundAllocSize (add64 510 metadataSize) - 1 = 6 := by decide +kernel
  obtain ⟨h1, p, _, _, _, _, hs1, -⟩ := hinv.exec_malloc (pmmHolds_lawful hbase hinv.pmm) hclass
    (by rw [hcap]; simp [slabBlocks]) (le_refl 1)
  refine ⟨rootPageTable, k, h, hvmm, hserved, hinit, ⟨h1, p, hs1⟩, by decide, ?_⟩
  rw [bootMap_lowMap]
  decide +kernel

end ApoptOS
