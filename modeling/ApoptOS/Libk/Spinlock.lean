import ApoptOS.Framework.Interleaving
import Mathlib.Data.List.Basic
import Mathlib.Data.Set.Basic
import Mathlib.Tactic.Common

namespace ApoptOS

open Framework

/-- `spinlock_t`: the lock byte and the interrupt state saved in it. -/
structure Spinlock where
  lock : Bool
  interrupts : Bool
  deriving DecidableEq, Repr

/-- Where a CPU is: outside the spinlock functions, or before one of the steps
of `spinlock_acquire` (the first four) or `spinlock_release`. -/
inductive SpinPc (ι : Type) where
  | idle
  | testAndSet (l : ι)
  | readFlag (l : ι)
  | storeFlag (l : ι) (flag : Bool)
  | cli (l : ι)
  | loadFlag (l : ι)
  | stiOrCli (l : ι) (flag : Bool)
  | clear (l : ι)
  deriving DecidableEq, Repr

/-- A CPU with its interrupt flag. `held` lists the locks whose byte it has set
and not yet cleared, the last one first. -/
structure Cpu (ι : Type) where
  pc : SpinPc ι
  held : List ι
  interruptFlag : Bool
  deriving DecidableEq, Repr

/-- What a CPU does next: call one of the functions, set its interrupt flag
outside of them, or make a step inside. -/
inductive SpinAct (ι : Type) where
  | acquire (l : ι)
  | release (l : ι)
  | flag (value : Bool)
  | step
  deriving DecidableEq, Repr

variable {ι : Type} [DecidableEq ι]

/-- The steps of `spinlock_acquire` and `spinlock_release`. A `test_and_set` that
finds the byte set leaves everything as it is. -/
def Cpu.step (locks : ι → Spinlock) (cpu : Cpu ι) : Option ((ι → Spinlock) × Cpu ι) :=
  match cpu.pc with
  | .idle => none
  | .testAndSet l =>
    if (locks l).lock then some (locks, cpu)
    else some (Function.update locks l { locks l with lock := true },
      { cpu with pc := .readFlag l, held := l :: cpu.held })
  | .readFlag l => some (locks, { cpu with pc := .storeFlag l cpu.interruptFlag })
  | .storeFlag l flag => some (Function.update locks l { locks l with interrupts := flag },
      { cpu with pc := .cli l })
  | .cli _ => some (locks, { cpu with pc := .idle, interruptFlag := false })
  | .loadFlag l => some (locks, { cpu with pc := .stiOrCli l (locks l).interrupts })
  | .stiOrCli l flag => some (locks, { cpu with pc := .clear l, interruptFlag := flag })
  | .clear l => some (Function.update locks l { locks l with lock := false },
      { cpu with pc := .idle, held := cpu.held.erase l })

def Cpu.exec (locks : ι → Spinlock) (cpu : Cpu ι) :
    SpinAct ι → Option ((ι → Spinlock) × Cpu ι)
  | .acquire l => if cpu.pc = .idle then some (locks, { cpu with pc := .testAndSet l }) else none
  | .release l => if cpu.pc = .idle then some (locks, { cpu with pc := .loadFlag l }) else none
  | .flag value =>
    if cpu.pc = .idle then some (locks, { cpu with interruptFlag := value }) else none
  | .step => cpu.step locks

/-- A well-nested use of the locks: none is acquired again while it is held, the
last one is released first, and the interrupt flag is left alone in between. -/
def SpinAct.WellNested (cpu : Cpu ι) : SpinAct ι → Prop
  | .acquire l => l ∉ cpu.held
  | .release l => cpu.held.head? = some l
  | .flag _ => cpu.held = []
  | .step => True

instance (cpu : Cpu ι) (a : SpinAct ι) : Decidable (a.WellNested cpu) := by
  cases a <;> unfold SpinAct.WellNested <;> infer_instance

/-- The lock whose byte the step at `pc` relies on. -/
def SpinPc.owned : SpinPc ι → Option ι
  | .idle | .testAndSet _ => none
  | .readFlag l | .storeFlag l _ | .cli l | .loadFlag l | .stiOrCli l _ | .clear l => some l

/-- A CPU owns the locks it lists, and the one it works on is the last. -/
structure Cpu.Owns (locks : ι → Spinlock) (cpu : Cpu ι) : Prop where
  set : ∀ l ∈ cpu.held, (locks l).lock = true
  nodup : cpu.held.Nodup
  last : ∀ l, cpu.pc.owned = some l → cpu.held.head? = some l
  fresh : ∀ l, cpu.pc = .testAndSet l → l ∉ cpu.held

/-- Two CPUs own no common lock. -/
def Cpu.Apart (y z : Cpu ι) : Prop := ∀ l ∈ y.held, l ∉ z.held

/-- All that an action does, with the condition under which it does it. -/
inductive Cpu.Move (x : ι → Spinlock) (y : Cpu ι) :
    SpinAct ι → (ι → Spinlock) × Cpu ι → Prop where
  | acquire {l : ι} (h : y.pc = .idle) : Move x y (.acquire l) (x, { y with pc := .testAndSet l })
  | release {l : ι} (h : y.pc = .idle) : Move x y (.release l) (x, { y with pc := .loadFlag l })
  | flag {v : Bool} (h : y.pc = .idle) : Move x y (.flag v) (x, { y with interruptFlag := v })
  | spin {l : ι} (h : y.pc = .testAndSet l) (hset : (x l).lock = true) : Move x y .step (x, y)
  | take {l : ι} (h : y.pc = .testAndSet l) (hclear : (x l).lock = false) :
      Move x y .step (Function.update x l { x l with lock := true },
        { y with pc := .readFlag l, held := l :: y.held })
  | readFlag {l : ι} (h : y.pc = .readFlag l) :
      Move x y .step (x, { y with pc := .storeFlag l y.interruptFlag })
  | storeFlag {l : ι} {f : Bool} (h : y.pc = .storeFlag l f) :
      Move x y .step (Function.update x l { x l with interrupts := f }, { y with pc := .cli l })
  | cli {l : ι} (h : y.pc = .cli l) :
      Move x y .step (x, { y with pc := .idle, interruptFlag := false })
  | loadFlag {l : ι} (h : y.pc = .loadFlag l) :
      Move x y .step (x, { y with pc := .stiOrCli l (x l).interrupts })
  | stiOrCli {l : ι} {f : Bool} (h : y.pc = .stiOrCli l f) :
      Move x y .step (x, { y with pc := .clear l, interruptFlag := f })
  | clear {l : ι} (h : y.pc = .clear l) :
      Move x y .step (Function.update x l { x l with lock := false },
        { y with pc := .idle, held := y.held.erase l })

theorem Cpu.move_of_step {x : ι → Spinlock} {y : Cpu ι} {r : (ι → Spinlock) × Cpu ι}
    (h : y.step x = some r) : y.Move x .step r := by
  unfold Cpu.step at h
  cases hpc : y.pc with
  | idle => simp [hpc] at h
  | testAndSet l =>
    simp only [hpc] at h
    split_ifs at h with hset
    · obtain rfl := Option.some.inj h
      exact .spin hpc hset
    · obtain rfl := Option.some.inj h
      exact .take hpc (by simpa using hset)
  | readFlag l =>
    simp only [hpc, Option.some.injEq] at h
    exact h ▸ .readFlag hpc
  | storeFlag l f =>
    simp only [hpc, Option.some.injEq] at h
    exact h ▸ .storeFlag hpc
  | cli l =>
    simp only [hpc, Option.some.injEq] at h
    exact h ▸ .cli hpc
  | loadFlag l =>
    simp only [hpc, Option.some.injEq] at h
    exact h ▸ .loadFlag hpc
  | stiOrCli l f =>
    simp only [hpc, Option.some.injEq] at h
    exact h ▸ .stiOrCli hpc
  | clear l =>
    simp only [hpc, Option.some.injEq] at h
    exact h ▸ .clear hpc

theorem Cpu.move_of_exec {x : ι → Spinlock} {y : Cpu ι} {a : SpinAct ι}
    {r : (ι → Spinlock) × Cpu ι} (h : y.exec x a = some r) : y.Move x a r := by
  cases a with
  | acquire l =>
    simp only [Cpu.exec] at h
    split_ifs at h with hpc
    exact Option.some.inj h ▸ .acquire hpc
  | release l =>
    simp only [Cpu.exec] at h
    split_ifs at h with hpc
    exact Option.some.inj h ▸ .release hpc
  | flag v =>
    simp only [Cpu.exec] at h
    split_ifs at h with hpc
    exact Option.some.inj h ▸ .flag hpc
  | step => exact Cpu.move_of_step h

section Owning

variable {x x' : ι → Spinlock} {y y' z : Cpu ι} {a : SpinAct ι}

theorem lock_update {l k : ι} {v : Spinlock} (hv : v.lock = true) (hset : (x l).lock = true) :
    (Function.update x k v l).lock = true := by
  by_cases hlk : l = k
  · rw [hlk, Function.update_self]
    exact hv
  · rw [Function.update_of_ne hlk]
    exact hset

/-- A well-nested move keeps what its CPU owns consistent. -/
theorem Cpu.Owns.move (h : y.Owns x) (ha : a.WellNested y) (hm : y.Move x a (x', y')) :
    y'.Owns x' := by
  have hset := h.set
  cases hm with
  | acquire hpc =>
    refine ⟨hset, h.nodup, fun l hl => ?_, fun l hl => ?_⟩
    · simp [SpinPc.owned] at hl
    · simp only [SpinPc.testAndSet.injEq] at hl
      exact hl ▸ ha
  | release hpc =>
    refine ⟨hset, h.nodup, fun l hl => ?_, fun l hl => by simp at hl⟩
    simp only [SpinPc.owned, Option.some.injEq] at hl
    exact hl ▸ ha
  | flag hpc => exact ⟨hset, h.nodup, h.last, h.fresh⟩
  | spin hpc _ => exact h
  | @take l hpc _ =>
    refine ⟨fun k hk => ?_, List.nodup_cons.mpr ⟨h.fresh l hpc, h.nodup⟩, fun k hk => ?_,
      fun k hk => by simp at hk⟩
    · rcases List.mem_cons.mp hk with rfl | hk
      · rw [Function.update_self]
      · exact lock_update rfl (hset k hk)
    · simp only [SpinPc.owned, Option.some.injEq] at hk
      simp [hk]
  | readFlag hpc =>
    refine ⟨hset, h.nodup, fun l hl => h.last l ?_, fun l hl => by simp at hl⟩
    rw [hpc]
    exact hl
  | @storeFlag l f hpc =>
    have hl := h.last l (by rw [hpc]; rfl)
    refine ⟨fun k hk => lock_update (hset l (List.mem_of_head? hl)) (hset k hk), h.nodup,
      fun k hk => h.last k ?_, fun k hk => by simp at hk⟩
    rw [hpc]
    exact hk
  | cli hpc =>
    exact ⟨hset, h.nodup, fun l hl => by simp [SpinPc.owned] at hl, fun l hl => by simp at hl⟩
  | loadFlag hpc =>
    refine ⟨hset, h.nodup, fun l hl => h.last l ?_, fun l hl => by simp at hl⟩
    rw [hpc]
    exact hl
  | stiOrCli hpc =>
    refine ⟨hset, h.nodup, fun l hl => h.last l ?_, fun l hl => by simp at hl⟩
    rw [hpc]
    exact hl
  | @clear l hpc =>
    refine ⟨fun k hk => ?_, h.nodup.erase l, fun k hk => by simp [SpinPc.owned] at hk,
      fun k hk => by simp at hk⟩
    have hkl : k ≠ l := (h.nodup.mem_erase_iff.mp hk).1
    rw [Function.update_of_ne hkl]
    exact hset k (List.mem_of_mem_erase hk)

/-- A move does not touch what another CPU owns. -/
theorem Cpu.Owns.others (h : y.Owns x) (hz : z.Owns x) (hap : y.Apart z)
    (hm : y.Move x a (x', y')) : z.Owns x' ∧ y'.Apart z := by
  have hkeep : (∀ l ∈ z.held, (x' l).lock = true) → z.Owns x' :=
    fun hset => ⟨hset, hz.nodup, hz.last, hz.fresh⟩
  cases hm with
  | acquire | release | flag | spin | readFlag | cli | loadFlag | stiOrCli => exact ⟨hz, hap⟩
  | @take l hpc hclear =>
    refine ⟨hkeep (fun k hk => lock_update rfl (hz.set k hk)), fun k hk hkz => ?_⟩
    rcases List.mem_cons.mp hk with rfl | hk
    · -- the byte was clear, so nobody owned it
      rw [hz.set k hkz] at hclear
      simp at hclear
    · exact hap k hk hkz
  | @storeFlag l f hpc =>
    have hl := h.set l (List.mem_of_head? (h.last l (by rw [hpc]; rfl)))
    exact ⟨hkeep (fun k hk => lock_update hl (hz.set k hk)), hap⟩
  | @clear l hpc =>
    have hl := List.mem_of_head? (h.last l (by rw [hpc]; rfl))
    refine ⟨hkeep (fun k hk => ?_), fun k hk => hap k (List.mem_of_mem_erase hk)⟩
    have hkl : k ≠ l := fun he => hap l hl (he ▸ hk)
    rw [Function.update_of_ne hkl]
    exact hz.set k hk

end Owning

/-- CPUs that use the locks in a well-nested way. -/
def spinAct {κ : Type} (_ : κ) (before after : (ι → Spinlock) × Cpu ι) : Prop :=
  ∃ a : SpinAct ι, a.WellNested before.2 ∧ before.2.exec before.1 a = some after

/-- No lock is set, and every CPU is outside. -/
def SpinStart {κ : Type} (s : Sys κ (ι → Spinlock) (Cpu ι)) : Prop :=
  (∀ l, (s.shared l).lock = false) ∧ ∀ c, (s.locals c).pc = .idle ∧ (s.locals c).held = []

section Exclusion

variable {κ : Type} {s s' : Sys κ (ι → Spinlock) (Cpu ι)}

theorem spinAct_stable : Sys.Stable (spinAct (ι := ι) (κ := κ)) (fun _ x y => y.Owns x)
    Cpu.Apart where
  symm := fun _ _ hap l hl hly => hap l hly hl
  own := fun _ _ _ _ _ ⟨_, ha, hexec⟩ h => h.move ha (Cpu.move_of_exec hexec)
  others := fun _ _ _ _ _ _ _ _ ⟨_, _, hexec⟩ h hz hap =>
    h.others hz hap (Cpu.move_of_exec hexec)

omit [DecidableEq ι] in
theorem SpinStart.holds (h : SpinStart s) :
    s.Holds (fun _ x y => y.Owns x) Cpu.Apart := by
  refine ⟨fun c => ?_, fun c d _ l hl => ?_⟩
  · obtain ⟨hpc, hheld⟩ := h.2 c
    refine ⟨?_, ?_, ?_, ?_⟩
    all_goals simp [hpc, hheld, SpinPc.owned]
  · rw [(h.2 c).2] at hl
    simp at hl

variable [DecidableEq κ]

/-- In every interleaving a lock has at most one owner. -/
theorem spin_owner_unique (h : SpinStart s) (hrun : Sys.Run spinAct s s') {c d : κ} {l : ι}
    (hc : l ∈ (s'.locals c).held) (hd : l ∈ (s'.locals d).held) : c = d := by
  by_contra hne
  exact (spinAct_stable.run hrun h.holds).2 c d hne l hc hd

end Exclusion

/-- The interrupt flag of a CPU that holds `held`, when `e` was its flag before
the outermost acquire. -/
def flagUnder (e : Bool) : List ι → Bool
  | [] => e
  | _ :: _ => false

/-- Each lock held has saved the flag from before it was acquired. -/
def SavedFlags (x : ι → Spinlock) (e : Bool) : List ι → Prop
  | [] => True
  | l :: ls => (x l).interrupts = flagUnder e ls ∧ SavedFlags x e ls

/-- The flag `e` from before the outermost acquire is in the CPU or saved. -/
def Cpu.FlagOk (e : Bool) (x : ι → Spinlock) (y : Cpu ι) : Prop :=
  match y.pc with
  | .idle | .testAndSet _ | .loadFlag _ =>
    y.interruptFlag = flagUnder e y.held ∧ SavedFlags x e y.held
  | .readFlag _ =>
    y.interruptFlag = flagUnder e y.held.tail ∧ SavedFlags x e y.held.tail
  | .storeFlag _ f =>
    f = flagUnder e y.held.tail ∧ y.interruptFlag = flagUnder e y.held.tail ∧
      SavedFlags x e y.held.tail
  | .cli _ | .clear _ => y.interruptFlag = flagUnder e y.held.tail ∧ SavedFlags x e y.held
  | .stiOrCli _ f =>
    f = flagUnder e y.held.tail ∧ y.interruptFlag = flagUnder e y.held ∧ SavedFlags x e y.held

section Flags

variable {e : Bool} {x x' : ι → Spinlock} {y y' z : Cpu ι} {a : SpinAct ι}

omit [DecidableEq ι] in
theorem SavedFlags.congr {ls : List ι} (h : SavedFlags x e ls)
    (hx : ∀ l ∈ ls, (x' l).interrupts = (x l).interrupts) : SavedFlags x' e ls := by
  induction ls with
  | nil => trivial
  | cons l ls ih =>
    obtain ⟨hl, hls⟩ := h
    exact ⟨(hx l (by simp)).trans hl, ih hls (fun k hk => hx k (List.mem_cons_of_mem _ hk))⟩

omit [DecidableEq ι] in
theorem SavedFlags.tail {ls : List ι} (h : SavedFlags x e ls) : SavedFlags x e ls.tail := by
  cases ls with
  | nil => trivial
  | cons l ls => exact h.2

/-- Setting or clearing a lock byte saves no flag. -/
theorem SavedFlags.lock {ls : List ι} (h : SavedFlags x e ls) (k : ι) (b : Bool) :
    SavedFlags (Function.update x k { x k with lock := b }) e ls := by
  refine h.congr (fun l _ => ?_)
  by_cases hlk : l = k
  · rw [hlk, Function.update_self]
  · rw [Function.update_of_ne hlk]

theorem SavedFlags.store {ls : List ι} (h : SavedFlags x e ls) {k : ι} (f : Bool)
    (hk : k ∉ ls) : SavedFlags (Function.update x k { x k with interrupts := f }) e ls := by
  refine h.congr (fun l hl => ?_)
  have hlk : l ≠ k := fun he => hk (he ▸ hl)
  rw [Function.update_of_ne hlk]

omit [DecidableEq ι] in
theorem Cpu.Owns.held_eq (h : y.Owns x) {l : ι} (hl : y.pc.owned = some l) :
    y.held = l :: y.held.tail ∧ l ∉ y.held.tail := by
  have hcons := List.eq_cons_of_mem_head? (h.last l hl)
  have hnd := h.nodup
  rw [hcons] at hnd
  exact ⟨hcons, (List.nodup_cons.mp hnd).1⟩

/-- A CPU's own move, except that it sets its flag outside, keeps `e`. -/
theorem Cpu.FlagOk.move (h : y.FlagOk e x) (ho : y.Owns x) (hflag : ∀ v, a ≠ .flag v)
    (ha : a.WellNested y) (hm : y.Move x a (x', y')) : y'.FlagOk e x' := by
  unfold Cpu.FlagOk at h ⊢
  cases hm with
  | acquire hpc => simpa only [hpc] using h
  | release hpc => simpa only [hpc] using h
  | @flag v hpc => exact absurd rfl (hflag v)
  | spin hpc _ => exact h
  | @take l hpc _ =>
    simp only [hpc, List.tail_cons] at h ⊢
    exact ⟨h.1, h.2.lock l true⟩
  | readFlag hpc =>
    simp only [hpc] at h ⊢
    exact ⟨h.1, h⟩
  | @storeFlag l f hpc =>
    obtain ⟨hcons, hnot⟩ := ho.held_eq (l := l) (by rw [hpc]; rfl)
    simp only [hpc] at h ⊢
    obtain ⟨hf, hif, hsaved⟩ := h
    refine ⟨hif, ?_⟩
    rw [hcons]
    refine ⟨?_, hsaved.store f hnot⟩
    rw [Function.update_self]
    exact hf
  | @cli l hpc =>
    obtain ⟨hcons, _⟩ := ho.held_eq (l := l) (by rw [hpc]; rfl)
    simp only [hpc] at h ⊢
    refine ⟨?_, h.2⟩
    rw [hcons]
    rfl
  | @loadFlag l hpc =>
    obtain ⟨hcons, _⟩ := ho.held_eq (l := l) (by rw [hpc]; rfl)
    simp only [hpc] at h ⊢
    obtain ⟨hif, hsaved⟩ := h
    refine ⟨?_, hif, hsaved⟩
    rw [hcons] at hsaved
    exact hsaved.1
  | stiOrCli hpc =>
    simp only [hpc] at h ⊢
    exact ⟨h.1, h.2.2⟩
  | @clear l hpc =>
    obtain ⟨hcons, _⟩ := ho.held_eq (l := l) (by rw [hpc]; rfl)
    simp only [hpc] at h ⊢
    have herase : y.held.erase l = y.held.tail := by
      rw [hcons, List.erase_cons_head, List.tail_cons]
    rw [herase]
    exact ⟨h.1, h.2.tail.lock l false⟩

/-- The moves of another CPU keep it too: they save no flag in its locks. -/
theorem Cpu.FlagOk.others (h : z.FlagOk e x) (ho : y.Owns x) (hap : y.Apart z)
    (hm : y.Move x a (x', y')) : z.FlagOk e x' := by
  have hsaved : ∀ ls, (∀ l ∈ ls, l ∈ z.held) → SavedFlags x e ls →
      SavedFlags x' e ls := by
    intro ls hls hs
    cases hm with
    | acquire | release | flag | spin | readFlag | cli | loadFlag | stiOrCli => exact hs
    | take => exact hs.lock _ _
    | @storeFlag l f hpc =>
      have hl := List.mem_of_head? (ho.last l (by rw [hpc]; rfl))
      exact hs.store f (fun hlz => hap l hl (hls l hlz))
    | clear => exact hs.lock _ _
  have hall : ∀ l ∈ z.held, l ∈ z.held := fun _ hl => hl
  have htail : ∀ l ∈ z.held.tail, l ∈ z.held := fun _ hl => List.mem_of_mem_tail hl
  unfold Cpu.FlagOk at h ⊢
  cases hpc : z.pc with
  | idle | testAndSet | loadFlag | cli | clear =>
    simp only [hpc] at h ⊢
    exact ⟨h.1, hsaved _ hall h.2⟩
  | readFlag =>
    simp only [hpc] at h ⊢
    exact ⟨h.1, hsaved _ htail h.2⟩
  | storeFlag =>
    simp only [hpc] at h ⊢
    exact ⟨h.1, h.2.1, hsaved _ htail h.2.2⟩
  | stiOrCli =>
    simp only [hpc] at h ⊢
    exact ⟨h.1, h.2.1, hsaved _ hall h.2.2⟩

end Flags

/-- Outside the spinlock functions, with no lock held. -/
def Cpu.Outside (y : Cpu ι) : Prop := y.pc = .idle ∧ y.held = []

/-- The moves while CPU `c` is in between: those of the others, and its own as
long as it is not outside. -/
def spinActInside {κ : Type} (c d : κ) (before after : (ι → Spinlock) × Cpu ι) : Prop :=
  spinAct d before after ∧ (d = c → ¬ before.2.Outside)

section Restore

variable {κ : Type} [DecidableEq κ] {s s' : Sys κ (ι → Spinlock) (Cpu ι)} {c : κ} {e : Bool}

/-- What holds of CPU `c` from its outermost acquire on. -/
def FlagKept (e : Bool) (c : κ) (s : Sys κ (ι → Spinlock) (Cpu ι)) : Prop :=
  s.Holds (fun _ x y => y.Owns x) Cpu.Apart ∧ (s.locals c).FlagOk e s.shared

theorem FlagKept.run (h : FlagKept e c s) (hrun : Sys.Run (spinActInside c) s s') :
    FlagKept e c s' := by
  have hstep : ∀ (s : Sys κ (ι → Spinlock) (Cpu ι)) d x y, FlagKept e c s →
      spinActInside c d (s.shared, s.locals d) (x, y) → FlagKept e c (s.move d x y) := ?_
  · exact hrun.induct hstep h
  intro s d x y ⟨hown, hflag⟩ ⟨⟨a, ha, hexec⟩, hin⟩
  have hmove := Cpu.move_of_exec hexec
  refine ⟨spinAct_stable.move hown ⟨a, ha, hexec⟩, ?_⟩
  by_cases hdc : d = c
  · subst hdc
    rw [Sys.move_self]
    refine hflag.move (hown.1 d) (fun v hv => ?_) ha hmove
    subst hv
    cases hmove with
    | flag hpc => exact hin rfl ⟨hpc, ha⟩
  · rw [Sys.move_other s x y (Ne.symm hdc)]
    exact hflag.others (hown.1 d) (hown.2 d c hdc) hmove

end Restore

/-- For any CPUs and locks and every interleaving of their steps: a lock has at
most one owner, and from an outermost acquire to the end of the release that
leaves no lock held, a CPU gets its interrupt flag back. -/
theorem spinlocks_exclude_and_restore {κ : Type} [DecidableEq κ]
    (s₀ s : Sys κ (ι → Spinlock) (Cpu ι)) (hstart : SpinStart s₀)
    (hrun : Sys.Run spinAct s₀ s) :
    (∀ c d l, l ∈ (s.locals c).held → l ∈ (s.locals d).held → c = d) ∧
    ∀ c l, (s.locals c).Outside → ∀ s', Sys.Run (spinActInside c)
      (s.move c s.shared { s.locals c with pc := .testAndSet l }) s' → (s'.locals c).Outside →
      (s'.locals c).interruptFlag = (s.locals c).interruptFlag := by
  refine ⟨fun c d l hc hd => spin_owner_unique hstart hrun hc hd,
    fun c l hout s' hin hend => ?_⟩
  have hexec : (s.locals c).exec s.shared (.acquire l) =
      some (s.shared, { s.locals c with pc := .testAndSet l }) := if_pos hout.1
  have hnest : (SpinAct.acquire l).WellNested (s.locals c) := by
    show l ∉ (s.locals c).held
    rw [hout.2]
    simp
  have hfirst : FlagKept (s.locals c).interruptFlag c
      (s.move c s.shared { s.locals c with pc := .testAndSet l }) := by
    refine ⟨spinAct_stable.move (spinAct_stable.run hrun hstart.holds) ⟨_, hnest, hexec⟩,
      ?_⟩
    rw [Sys.move_self, Sys.move_shared]
    unfold Cpu.FlagOk
    simp only [hout.2]
    exact ⟨rfl, trivial⟩
  have hlast := (hfirst.run hin).2
  unfold Cpu.FlagOk at hlast
  simp only [hend.1, hend.2] at hlast
  exact hlast.1

/-- Two CPUs and two locks: CPU 0 holds lock 0 while CPU 1 spins on it. -/
theorem spinlocks_exclude_and_restore_two : ∃ s₀ s : Sys (Fin 2) (Fin 2 → Spinlock)
    (Cpu (Fin 2)), SpinStart s₀ ∧ Sys.Run spinAct s₀ s ∧ (s.locals 0).held = [0] ∧
    ∀ d, 0 ∈ (s.locals d).held → (0 : Fin 2) = d := by
  obtain ⟨s₀, hs₀⟩ : ∃ s₀ : Sys (Fin 2) (Fin 2 → Spinlock) (Cpu (Fin 2)),
    s₀ = ⟨fun _ => ⟨false, false⟩, fun _ => ⟨.idle, [], true⟩⟩ := ⟨_, rfl⟩
  have hstart : SpinStart s₀ := by
    rw [hs₀]
    exact ⟨fun _ => rfl, fun _ => ⟨rfl, rfl⟩⟩
  obtain ⟨s₁, hs₁⟩ :
      ∃ s₁, s₁ = s₀.move 0 s₀.shared ⟨.testAndSet 0, [], true⟩ := ⟨_, rfl⟩
  obtain ⟨s₂, hs₂⟩ :
    ∃ s₂, s₂ = s₁.move 0 (Function.update s₀.shared 0 ⟨true, false⟩)
    ⟨.readFlag 0, [0], true⟩ := ⟨_, rfl⟩
  have hrun : Sys.Run spinAct s₀ s₂ := by
    refine (Relation.ReflTransGen.single ?_).tail (b := s₁) ?_
    · exact ⟨0, _, _,
        ⟨.acquire 0, by simp [SpinAct.WellNested, hs₀], by simp [Cpu.exec, hs₀]⟩, hs₁⟩
    · exact ⟨0, _, _, ⟨.step, trivial, by simp [Cpu.exec, Cpu.step, hs₁, hs₀]⟩, hs₂⟩
  have hheld : (s₂.locals 0).held = [0] := by rw [hs₂, Sys.move_self]
  refine ⟨s₀, s₂, hstart, hrun, hheld, fun d hd => ?_⟩
  exact (spinlocks_exclude_and_restore s₀ s₂ hstart hrun).1 0 d 0 (by rw [hheld]; simp) hd

end ApoptOS
