import ApoptOS.Hardware.Pic.PicRuns
import ApoptOS.Tables.Delivery

namespace ApoptOS

open Framework

/-- The memory that the CPUs share and what each of them has loaded. -/
structure TablesState (κ : Type) where
  mem : Mem
  cpus : κ → CpuTables

/-- What the CPUs do with the tables, and any other store of the kernel. -/
inductive TablesEvent (κ : Type) where
  | gdtLoad (c : κ)
  | idtLoad (c : κ)
  | tssStore (addr : Nat) (f : TssField)
  | tssLoad (c : κ)
  | store (x : Nat) (b : BitVec 8)
  deriving DecidableEq

variable {κ : Type} [DecidableEq κ] (p : TablePlaces)

namespace TablesState

/-- A fault ends a run. `tss_load` is for CPUs with the table of the kernel. -/
def exec (s : TablesState κ) : TablesEvent κ → Option (TablesState κ)
  | .gdtLoad c =>
    match gdtLoadAsm s.mem p.gdtr 0 with
    | .ok (gdtr, segments) =>
      some { s with cpus := Function.update s.cpus c { s.cpus c with gdtr, segments } }
    | .error _ => none
  | .idtLoad c =>
    let idtr := loadTableRegister s.mem p.idtr
    some { s with cpus := Function.update s.cpus c { s.cpus c with idtr } }
  | .tssStore addr f => some { s with mem := storeTssField s.mem p.tssDescriptor addr f }
  | .tssLoad c =>
    if (s.cpus c).gdtr = ⟨55, p.gdt⟩ then
      (tssDescriptorAt s.mem p.tssDescriptor).ltr.map fun (tss, d) =>
        { mem := s.mem.storeLE (p.tssDescriptor + 5) 1 d.flags1
          cpus := Function.update s.cpus c { s.cpus c with tss } }
    else none
  | .store x b => if p.Constant x then none else some { s with mem := s.mem.set x b }

def run (s : TablesState κ) : List (TablesEvent κ) → Option (TablesState κ)
  | [] => some s
  | e :: events => (s.exec p e).bind fun s => run s events

/-- `gdt_init` and `idt_init` on the first CPU. -/
def boot (isrVectorAsm : Nat → Nat) (bsp : κ) (s : TablesState κ) (pic : Pic.Pair) :
    Option (TablesState κ × Pic.Pair) :=
  (exec p { s with mem := gdtInit p s.mem } (.gdtLoad bsp)).bind fun s =>
    let r := idtInit p isrVectorAsm s.mem pic
    (exec p { s with mem := r.1 } (.idtLoad bsp)).map fun s => (s, r.2)

end TablesState

/-- The CPU has the tables of the kernel. -/
def CpuTables.Loaded (t : CpuTables) : Prop :=
  t.gdtr = ⟨55, p.gdt⟩ ∧ t.idtr = ⟨4095, p.idt⟩

variable {p} {isrVectorAsm : Nat → Nat} {s s' : TablesState κ} {e : TablesEvent κ}
  {events : List (TablesEvent κ)} {c bsp : κ}

/-- A step keeps the tables. The registers of a CPU change only when it loads a table, and then
they point to that of the kernel. -/
theorem TablesHold.step (h : TablesHold p isrVectorAsm s.mem) (he : s.exec p e = some s') :
    TablesHold p isrVectorAsm s'.mem ∧
    ((s'.cpus c).gdtr = ⟨55, p.gdt⟩ ∨ e ≠ .gdtLoad c ∧
      (s'.cpus c).gdtr = (s.cpus c).gdtr) ∧
    ((s'.cpus c).idtr = ⟨4095, p.idt⟩ ∨ e ≠ .idtLoad c ∧
      (s'.cpus c).idtr = (s.cpus c).idtr) := by
  cases e with
  | gdtLoad d =>
    simp only [TablesState.exec, h.gdtLoadAsm_ok, Option.some.injEq] at he
    subst he
    by_cases hd : c = d
    · subst hd
      simp [h]
    · simp [h, Function.update_of_ne hd, Ne.symm hd]
  | idtLoad d =>
    simp only [TablesState.exec, h.loads_idtr, Option.some.injEq] at he
    subst he
    by_cases hd : c = d
    · subst hd
      simp [h]
    · simp [h, Function.update_of_ne hd, Ne.symm hd]
  | tssStore addr f =>
    simp only [TablesState.exec, Option.some.injEq] at he
    subst he
    have hmem : TablesHold p isrVectorAsm (storeTssField s.mem p.tssDescriptor addr f) :=
      h.congr (fun x hx => storeTssField_outside hx.outside_tss)
    simp [hmem]
  | tssLoad d =>
    simp only [TablesState.exec] at he
    split_ifs at he with hown
    obtain ⟨r, -, hr⟩ := Option.map_eq_some_iff.mp he
    subst hr
    have hmem : TablesHold p isrVectorAsm (s.mem.storeLE (p.tssDescriptor + 5) 1 r.2.flags1) := by
      apply h.congr
      intro x hx
      have hout := hx.outside_tss
      apply Mem.storeLE_outside
      omega
    by_cases hd : c = d
    · subst hd
      simp [hmem]
    · simp [hmem, Function.update_of_ne hd]
  | store x b =>
    simp only [TablesState.exec] at he
    split_ifs at he with hconst
    obtain rfl := Option.some.inj he
    have hmem : TablesHold p isrVectorAsm (s.mem.set x b) := by
      apply h.congr
      intro y hy
      apply Mem.set_other
      intro hyx
      exact hconst (hyx ▸ hy)
    simp [hmem]

/-- A step on the tables writes the TSS descriptor, or the byte that the event names. -/
theorem TablesState.exec_outside (he : s.exec p e = some s') {x : Nat}
    (hx : x < p.tssDescriptor ∨ p.tssDescriptor + 16 ≤ x) (hne : ∀ b, e ≠ .store x b) :
    s'.mem x = s.mem x := by
  cases e with
  | gdtLoad c =>
    simp only [TablesState.exec] at he
    split at he
    · obtain rfl := Option.some.inj he
      rfl
    · simp at he
  | idtLoad c =>
    obtain rfl := Option.some.inj he
    rfl
  | tssStore addr f =>
    obtain rfl := Option.some.inj he
    exact storeTssField_outside hx
  | tssLoad c =>
    simp only [TablesState.exec] at he
    split_ifs at he with hown
    obtain ⟨r, -, hr⟩ := Option.map_eq_some_iff.mp he
    subst hr
    apply Mem.storeLE_outside
    omega
  | store y b =>
    simp only [TablesState.exec] at he
    split_ifs at he
    obtain rfl := Option.some.inj he
    apply Mem.set_other
    intro hxy
    exact hne b (hxy ▸ rfl)

/-- In a run the tables stay, and so does what a CPU has loaded. -/
theorem TablesHold.run (h : TablesHold p isrVectorAsm s.mem) (hr : s.run p events = some s') :
    TablesHold p isrVectorAsm s'.mem ∧
    ((s.cpus c).gdtr = ⟨55, p.gdt⟩ ∨ .gdtLoad c ∈ events →
      (s'.cpus c).gdtr = ⟨55, p.gdt⟩) ∧
    ((s.cpus c).idtr = ⟨4095, p.idt⟩ ∨ .idtLoad c ∈ events →
      (s'.cpus c).idtr = ⟨4095, p.idt⟩) := by
  induction events generalizing s with
  | nil =>
    simp only [TablesState.run, Option.some.injEq] at hr
    subst hr
    simp [h]
  | cons e events ih =>
    obtain ⟨s₁, he, hr⟩ := Option.bind_eq_some_iff.mp hr
    obtain ⟨hmem, hgdtr, hidtr⟩ := h.step (c := c) he
    obtain ⟨hend, hg, hi⟩ := ih hmem hr
    refine ⟨hend, fun hor => hg ?_, fun hor => hi ?_⟩
    · cases hgdtr with
      | inl hloaded => exact .inl hloaded
      | inr hkept =>
        cases hor with
        | inl hold => exact .inl (hkept.2.trans hold)
        | inr hin => exact .inr ((List.mem_cons.mp hin).resolve_left (Ne.symm hkept.1))
    · cases hidtr with
      | inl hloaded => exact .inl hloaded
      | inr hkept =>
        cases hor with
        | inl hold => exact .inl (hkept.2.trans hold)
        | inr hin => exact .inr ((List.mem_cons.mp hin).resolve_left (Ne.symm hkept.1))

/-- The boot raises no fault and leaves the first CPU with complete tables. -/
theorem boot_loads (p : TablePlaces) (isrVectorAsm : Nat → Nat) (bsp : κ) (s : TablesState κ)
    (pic : Pic.Pair) : ∃ s', s.boot p isrVectorAsm bsp pic = some (s', Pic.picRemap pic) ∧
      TablesHold p isrVectorAsm s'.mem ∧ (s'.cpus bsp).Loaded p := by
  have hgdt := gdtHolds_init p s.mem
  have htables := hgdt.idtInit isrVectorAsm pic
  simp only [TablesState.boot, TablesState.exec, hgdt.gdtLoadAsm_ok, Option.bind_some,
    Option.map_some]
  refine ⟨_, rfl, htables, ?_⟩
  simp [CpuTables.Loaded, htables.loads_idtr]

/-- A CPU that has loaded the tables: the first one from the boot on, another one after
`gdt_load` and `idt_load`. -/
def HasTables (bsp : κ) (events : List (TablesEvent κ)) (c : κ) : Prop :=
  c = bsp ∨ .gdtLoad c ∈ events ∧ .idtLoad c ∈ events

theorem TablesHold.loaded (h : TablesHold p isrVectorAsm s.mem) (hbsp : (s.cpus bsp).Loaded p)
    (hr : s.run p events = some s') (hc : HasTables bsp events c) : (s'.cpus c).Loaded p := by
  obtain ⟨-, hgdtr, hidtr⟩ := h.run (c := c) hr
  cases hc with
  | inl hfirst =>
    subst hfirst
    exact ⟨hgdtr (.inl hbsp.1), hidtr (.inl hbsp.2)⟩
  | inr hin => exact ⟨hgdtr (.inr hin.1), hidtr (.inr hin.2)⟩

theorem run_tssStores (addr : Nat) (fs : List TssField) (rest : List (TablesEvent κ)) :
    s.run p (fs.map (.tssStore addr) ++ rest) = TablesState.run p { s with
      mem := fs.foldl (fun m f => storeTssField m p.tssDescriptor addr f) s.mem } rest := by
  induction fs generalizing s with
  | nil => rfl
  | cons f fs ih => exact ih

/-- A CPU with the table of the kernel that creates its segment and loads it before another one
does gets its own TSS, whatever the descriptor held. -/
theorem run_tssCreateSegment (hgdtr : (s.cpus c).gdtr = ⟨55, p.gdt⟩) {addr : Nat}
    (haddr : addr < 2 ^ 64) :
    ∃ s', s.run p (tssCreateSegment.map (.tssStore addr) ++ [.tssLoad c]) =
      some s' ∧ (s'.cpus c).tss = addr := by
  obtain ⟨d, hd⟩ := ltr_tssCreateSegment (tssDescriptorAt s.mem p.tssDescriptor) haddr
  rw [← tssDescriptorAt_create] at hd
  simp [run_tssStores, TablesState.run, TablesState.exec, hgdtr, hd]

namespace CpuState

variable {cause : Cause} {vector : Nat} {cpu : CpuState} {t : CpuTables} {m : Mem}

/-- The way from an interrupt to `isr_handler`. -/
theorem reaches_handler (h : TablesHold p isrVectorAsm m) (ht : t.Loaded p)
    (hcanon : ∀ v < 256, Canonical (isrVectorAsm v))
    (hinj : ∀ v < 256, ∀ w < 256, isrVectorAsm v = isrVectorAsm w → v = w)
    (hvector : vector < 256) (hkernel : cause ≠ .software ∨ cpu.cs % 4 = 0)
    (hpush : cause = .exception ∨ ¬ PushesErrorCode vector) (hsp : cpu.stack.sp < 2 ^ 64)
    (errorCode : Nat) : ∃ cpu', deliver m t cause vector errorCode cpu = .ok cpu' ∧
    cpu'.cs = 0x08 ∧
      cpu'.rflags / 2 ^ 9 % 2 = 0 ∧ handlerSees isrVectorAsm cpu' = some
        { interruptedState cpu vector errorCode with
          rbp := cpu.regs .rsi, rsi := cpu.regs .rbp } := by
  have htop : startOfStack m t cpu < 2 ^ 64 := by
    have hload := m.loadLE_lt (t.tss + 4 + 8 * 0) 8
    unfold startOfStack tssRsp
    split_ifs
    · omega
    · exact hsp
  have hzero : cause = .software → cpu.cs % 4 = 0 :=
    fun hsoft => hkernel.resolve_left (fun hne => hne hsoft)
  have hok := deliver_ok h ht.1 ht.2 hvector (hcanon vector hvector) hzero errorCode
  exact ⟨_, hok, through_cs _, through_interrupts (handlerGate_kind _) _,
    handlerSees_through hinj hvector hpush htop (handlerGate_offset _)⟩

/-- In every state that the CPUs reach from the boot on, in any order of loading tables, storing
TSS descriptors and other stores: `gdt_load` raises no fault; on every CPU with the tables
`tss_create_segment` and `tss_load` in a row load its own TSS, each vector that the CPU or a
controller raises leads through its gate, with interrupts off, to a stub from which `isr_handler`
gets the vector and what was interrupted, though `rbp` and `rsi` in each other's place, and no `int`
instruction of user code gets through, that for system calls included. -/
theorem every_vector_reaches_handler (p : TablePlaces) (isrVectorAsm : Nat → Nat)
    (hcanon : ∀ v < 256, Canonical (isrVectorAsm v))
    (hinj : ∀ v < 256, ∀ w < 256, isrVectorAsm v = isrVectorAsm w → v = w) (bsp : κ)
    (s₀ : TablesState κ) (pic : Pic.Pair) : ∃ s₁, s₀.boot p isrVectorAsm bsp pic =
      some (s₁, Pic.picRemap pic) ∧ ∀ events s, s₁.run p events = some s →
    (∀ c, (s.exec p (.gdtLoad c)).isSome) ∧ ∀ c, HasTables bsp events c →
    (∀ tss < 2 ^ 64, ∃ s', s.run p (tssCreateSegment.map (.tssStore tss) ++ [.tssLoad c]) =
      some s' ∧ (s'.cpus c).tss = tss) ∧
    ∀ vector < 256, ∀ (cpu : CpuState) (errorCode : Nat),
      (∀ cause, cause ≠ .software ∨ cpu.cs % 4 = 0 →
        cause = .exception ∨ ¬ PushesErrorCode vector → cpu.stack.sp < 2 ^ 64 →
        ∃ cpu', deliver s.mem (s.cpus c) cause vector errorCode cpu = .ok cpu' ∧
          cpu'.cs = 0x08 ∧ cpu'.rflags / 2 ^ 9 % 2 = 0 ∧ handlerSees isrVectorAsm cpu' = some
            { interruptedState cpu vector errorCode with
              rbp := cpu.regs .rsi, rsi := cpu.regs .rbp }) ∧
      (0 < cpu.cs % 4 → deliver s.mem (s.cpus c) .software vector errorCode cpu =
        .error (.generalProtection (8 * vector + 2))) := by
  obtain ⟨s₁, hboot, htables, hbsp⟩ := boot_loads p isrVectorAsm bsp s₀ pic
  refine ⟨s₁, hboot, fun events s hr =>
    ⟨fun c => ?_, fun c hc => ⟨fun tss htss => ?_, ?_⟩⟩⟩
  · have hend := (htables.run (c := c) hr).1
    simp [TablesState.exec, hend.gdtLoadAsm_ok]
  · exact run_tssCreateSegment (htables.loaded hbsp hr hc).1 htss
  · intro vector hvector cpu errorCode
    have hend := (htables.run (c := c) hr).1
    have hloaded := htables.loaded hbsp hr hc
    constructor
    · intro cause hkernel hpush hsp
      exact reaches_handler hend hloaded hcanon hinj hvector hkernel hpush hsp errorCode
    · intro hcpl
      exact deliver_software hend hloaded.2 hvector (hcanon vector hvector) hcpl

/-- Where the kernel is linked to, with stubs of sixteen bytes. -/
def linkedPlaces : TablePlaces where
  gdt := 0xFFFFFFFF80010000
  gdtr := 0xFFFFFFFF80010040
  idt := 0xFFFFFFFF80020000
  idtr := 0xFFFFFFFF80010050
  gdt_fits := by decide
  idt_fits := by decide
  apart := by decide

def linkedStubs (vector : Nat) : Nat := 0xFFFFFFFF80001000 + 16 * vector

theorem linkedStubs_canonical : ∀ v < 256, Canonical (linkedStubs v) := by
  intro v hv
  unfold linkedStubs Canonical
  omega

theorem linkedStubs_injective : ∀ v < 256, ∀ w < 256, linkedStubs v = linkedStubs w →
    v = w := by
  intro v _ w _ h
  unfold linkedStubs at h
  omega

/-- A page fault on the first of two CPUs while the second one loads the interrupt table. -/
theorem every_vector_reaches_handler_pageFault : ∃ s : TablesState (Fin 2), ∃ cpu',
    deliver s.mem (s.cpus 0) .exception 14 2 interrupted = .ok cpu' ∧
    handlerSees linkedStubs cpu' = some (interruptedState interrupted 14 2) := by
  obtain ⟨s₁, -, hall⟩ := every_vector_reaches_handler linkedPlaces linkedStubs
    linkedStubs_canonical linkedStubs_injective (0 : Fin 2)
    ⟨fun _ => 0, fun _ => ⟨⟨0, 0⟩, ⟨0, 0⟩, 0, ⟨0, 0, 0, 0, 0, 0⟩⟩⟩
      Pic.firmwarePair
  obtain ⟨s, hs⟩ : ∃ s, s₁.run linkedPlaces [.idtLoad 1, .tssStore 0x7000 .baseLow] =
      some s :=
    ⟨_, rfl⟩
  obtain ⟨cpu', hok, -, -, hsees⟩ :=
    ((hall _ s hs).2 0 (.inl rfl)).2 14 (by decide) interrupted 2 |>.1
    .exception (.inl (by decide)) (.inl rfl) (by decide)
  exact ⟨s, cpu', hok, hsees⟩

open Pic in
/-- From the boot on, whatever the CPUs do with the tables and whatever has happened at the
interrupt controllers: the next interrupt that a CPU with the tables acknowledges comes to
`isr_handler` as the vector of one of the sixteen lines, for which it returns. The line is the first
in rank that may be served, or without one line 7. -/
theorem irq_reaches_handler (p : TablePlaces) (isrVectorAsm : Nat → Nat)
    (hcanon : ∀ v < 256, Canonical (isrVectorAsm v))
    (hinj : ∀ v < 256, ∀ w < 256, isrVectorAsm v = isrVectorAsm w → v = w) (bsp : κ)
    (s₀ : TablesState κ) (pic : Pair) : ∃ s₁, s₀.boot p isrVectorAsm bsp pic =
      some (s₁, picRemap pic) ∧ ∀ events s, s₁.run p events = some s →
    ∀ picEvents t, PicSystem.run ⟨picRemap pic, []⟩ picEvents = some t →
    ∀ c, HasTables bsp events c → ∀ cpu : CpuState, cpu.stack.sp < 2 ^ 64 →
      ∃ n < 16, ∃ pair' cpu', ack t.pair = some (BitVec.ofNat 8 (0x20 + n), pair') ∧
      (Eligible t n ∧ (∀ k, Eligible t k → rank n ≤ rank k) ∨
        n = 7 ∧ ∀ k, ¬ Eligible t k) ∧
      deliver s.mem (s.cpus c) .external (0x20 + n) 0 cpu = .ok cpu' ∧
      handlerSees isrVectorAsm cpu' = some { interruptedState cpu (0x20 + n) 0 with
        rbp := cpu.regs .rsi, rsi := cpu.regs .rbp } ∧ Returns (0x20 + n) := by
  obtain ⟨s₁, hboot, htables, hbsp⟩ := boot_loads p isrVectorAsm bsp s₀ pic
  refine ⟨s₁, hboot, fun events s hr picEvents t hpic c hc cpu hsp => ?_⟩
  have hend := (htables.run (c := c) hr).1
  have hloaded := htables.loaded hbsp hr hc
  have hinv := ((PicInv.of_remap pic).run hpic).1
  have hdeliver : ∀ n < 16, ∃ cpu', deliver s.mem (s.cpus c) .external (0x20 + n) 0 cpu =
      .ok cpu' ∧ handlerSees isrVectorAsm cpu' = some { interruptedState cpu (0x20 + n) 0 with
        rbp := cpu.regs .rsi, rsi := cpu.regs .rbp } ∧ Returns (0x20 + n) := by
    intro n hn
    have hreturns : Returns (0x20 + n) := .inl (by omega)
    have hpush : ¬ PushesErrorCode (0x20 + n) := by
      unfold PushesErrorCode
      omega
    have hkernel : Cause.external ≠ .software ∨ cpu.cs % 4 = 0 := .inl (by decide)
    obtain ⟨cpu', hok, -, -, hsees⟩ := reaches_handler hend hloaded hcanon hinj
      (by omega : 0x20 + n < 256) hkernel (.inr hpush) hsp 0
    exact ⟨cpu', hok, hsees, hreturns⟩
  cases hinv.ack_cases with
  | inl hserved =>
    obtain ⟨n, pair', hn, -, -⟩ := hserved
    obtain ⟨cpu', hrest⟩ := hdeliver n hn.eligible.line
    exact ⟨n, hn.eligible.line, pair', cpu', hn.vector, .inl ⟨hn.eligible, hn.first⟩, hrest⟩
  | inr hnone =>
    obtain ⟨cpu', hrest⟩ := hdeliver 7 (by decide)
    exact ⟨7, by decide, t.pair, cpu', hnone.2.1, .inr ⟨rfl, hnone.1⟩, hrest⟩

/-- The keyboard has raised its line, and the timer's is masked. -/
theorem irq_reaches_handler_keyboard : ∃ t pair' cpu', ∃ s : TablesState (Fin 2),
    Pic.PicSystem.run ⟨Pic.picRemap Pic.firmwarePair, []⟩ [.raise 0, .clearMask 1, .raise 1] =
      some t ∧
    Pic.ack t.pair = some (0x21, pair') ∧
    deliver s.mem (s.cpus 0) .external 0x21 0 interrupted = .ok cpu' ∧
    handlerSees linkedStubs cpu' = some (interruptedState interrupted 0x21 0) := by
  have heval : (Pic.PicSystem.run ⟨Pic.picRemap Pic.firmwarePair, []⟩
      [.raise 0, .clearMask 1, .raise 1]).bind (fun t => (Pic.ack t.pair).map Prod.fst) =
        some 0x21 := by decide
  obtain ⟨t, ht, hack⟩ := Option.bind_eq_some_iff.mp heval
  obtain ⟨s₁, -, hall⟩ := irq_reaches_handler linkedPlaces linkedStubs linkedStubs_canonical
    linkedStubs_injective (0 : Fin 2)
      ⟨fun _ => 0, fun _ => ⟨⟨0, 0⟩, ⟨0, 0⟩, 0, ⟨0, 0, 0, 0, 0, 0⟩⟩⟩
    Pic.firmwarePair
  obtain ⟨n, hn, pair', cpu', hvector, -, hok, hsees, -⟩ :=
    hall [] s₁ rfl _ t ht 0 (.inl rfl) interrupted (by decide)
  have hone : n = 1 := by
    rw [hvector, Option.map_some, Option.some.injEq] at hack
    have hnat := congrArg BitVec.toNat hack
    simp at hnat
    omega
  subst hone
  exact ⟨t, pair', cpu', s₁, ht, hvector, hok, hsees⟩

end CpuState

end ApoptOS
