import ApoptOS.Framework.TwoRuns
import ApoptOS.Memory.Frames

namespace ApoptOS

open Framework

variable {ρ : Type}

/-- What of the frame allocator a client can tell from two runs that differ in memory under
management: nothing. `Busy m r c` says that frame `c` is in use; it stays so until it is
given back. A frame may be given back more than once, and a client may pass `NULL`. -/
structure PageFrames.Oblivious (A : PageFrames ρ) (U : Set Nat)
    (Busy : Mem → ρ → Nat → Prop) :
    Prop where
  managed : ∀ f ∈ U, f ≠ 0 ∧ f < 2 ^ 40
  subset : ∀ m r c, Busy m r c → c ∈ U
  client_writes : ∀ m m' r c, Busy m r c → Mem.SameOn (frameBytes U)ᶜ m m' → Busy m' r c
  allocz_one : ∀ m r c, Busy m r c →
    Busy (A.allocz 1 m r).2.1 (A.allocz 1 m r).2.2 c ∧
    (((A.allocz 1 m r).1 = 0 ∧ Mem.SameOn (frameBytes U) m (A.allocz 1 m r).2.1) ∨
    ∃ f ∈ U, f ≠ c ∧ (A.allocz 1 m r).1 = f * 4096 ∧
      Mem.SameOn (frameBytes (U \ {f})) m (A.allocz 1 m r).2.1 ∧
      ∀ a, a / 4096 = f → (A.allocz 1 m r).2.1 a = 0#8)
  free_one : ∀ m r c p, Busy m r c → (p = 0 ∨ p / 4096 ∈ U) →
    Mem.SameOn (frameBytes U) m (A.free p 1 m r).1 ∧
      (p / 4096 ≠ c → Busy (A.free p 1 m r).1 (A.free p 1 m r).2 c)
  allocz_same : ∀ m m' r c D, Busy m r c → D ⊆ frameBytes U → Mem.SameOn Dᶜ m m' →
    (A.allocz 1 m' r).1 = (A.allocz 1 m r).1 ∧ (A.allocz 1 m' r).2.2 = (A.allocz 1 m r).2.2 ∧
      Mem.SameOn Dᶜ (A.allocz 1 m r).2.1 (A.allocz 1 m' r).2.1
  free_same : ∀ m m' r c p D, Busy m r c → (p = 0 ∨ p / 4096 ∈ U) → D ⊆ frameBytes U →
    Mem.SameOn Dᶜ m m' →
    (A.free p 1 m' r).2 = (A.free p 1 m r).2 ∧
      Mem.SameOn Dᶜ (A.free p 1 m r).1 (A.free p 1 m' r).1

/-- Two kernels that differ at most in the words at `C`: the same calls were made, and the
frame allocator is in the same state. -/
structure Twin (C : Set Nat) (k k' : Kernel ρ) : Prop where
  mem : Mem.SameBut C k.mem k'.mem
  frames : k'.frames = k.frames
  calls : k'.calls = k.calls

namespace Twin

variable {A : PageFrames ρ} {U : Set Nat} {Busy : Mem → ρ → Nat → Prop} {C D : Set Nat}
  {k k' k'' : Kernel ρ} {a c p : Nat}

theorem refl (C : Set Nat) (k : Kernel ρ) : Twin C k k := ⟨Mem.SameBut.refl _ _, rfl, rfl⟩

theorem mono (h : Twin C k k') (hCD : C ⊆ D) : Twin D k k' :=
  ⟨h.mem.mono hCD, h.frames, h.calls⟩

theorem trans (h : Twin C k k') (h' : Twin C k' k'') : Twin C k k'' :=
  ⟨h.mem.trans h'.mem, h'.frames.trans h.frames, h'.calls.trans h.calls⟩

theorem store64 (h : Twin C k k') (a v : Nat) : Twin (C \ {a}) (k.store64 a v) (k'.store64 a v) :=
  ⟨h.mem.store64 a v, h.frames, h.calls⟩

theorem store16 (h : Twin C k k') (a v : Nat) : Twin C (k.store16 a v) (k'.store16 a v) :=
  ⟨h.mem.store16 a v, h.frames, h.calls⟩

theorem memset (h : Twin C k k') (a v n : Nat) :
    Twin C { k with mem := k.mem.memset a v n } { k' with mem := k'.mem.memset a v n } :=
  ⟨h.mem.memset a v n, h.frames, h.calls⟩

/-- A store in the second kernel only. -/
theorem store64_right (h : Twin C k k') (v : Nat) (ha : a ∈ C) : Twin C k (k'.store64 a v) :=
  ⟨h.mem.trans (Mem.SameBut.of_store64 _ v ha), h.frames, h.calls⟩

theorem pmmAllocz (hA : A.Oblivious U Busy) (h : Twin C k k') (hb : Busy k.mem k.frames c)
    (hC : Mem.wordBytes C ⊆ frameBytes U) :
    (k'.pmmAllocz A 1).1 = (k.pmmAllocz A 1).1 ∧
      Twin C (k.pmmAllocz A 1).2 (k'.pmmAllocz A 1).2 := by
  obtain ⟨hpointer, hframes, hmem⟩ := hA.allocz_same _ _ _ _ _ hb hC h.mem
  simp only [Kernel.pmmAllocz, h.frames]
  exact ⟨hpointer, hmem, hframes, by rw [hpointer, h.calls]⟩

theorem pmmFree (hA : A.Oblivious U Busy) (h : Twin C k k') (hb : Busy k.mem k.frames c)
    (hC : Mem.wordBytes C ⊆ frameBytes U) (hp : p = 0 ∨ p / 4096 ∈ U) :
    Twin C (k.pmmFree A p 1) (k'.pmmFree A p 1) := by
  obtain ⟨hframes, hmem⟩ := hA.free_same _ _ _ _ _ _ hb hp hC h.mem
  simp only [Kernel.pmmFree, h.frames]
  exact ⟨hmem, hframes, by rw [h.calls]⟩

end Twin

end ApoptOS
