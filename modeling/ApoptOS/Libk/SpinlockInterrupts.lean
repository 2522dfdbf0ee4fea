import ApoptOS.Libk.Spinlock

namespace ApoptOS

/-- One CPU and the contexts that interrupts have suspended on it, the last one
first. A handler runs as a context of its own, with interrupts disabled. -/
structure Core (ι : Type) where
  locks : ι → Spinlock
  cpu : Cpu ι
  interrupted : List (Cpu ι)

inductive CoreAct (ι : Type) where
  | spin (a : SpinAct ι)
  | interrupt
  | iret

namespace Core

variable {ι : Type} [DecidableEq ι]

/-- One step of the running context, the delivery of an interrupt, which needs
the flag set, or the return from a handler. `none` for a step that is not
well-nested. -/
def exec (s : Core ι) : CoreAct ι → Option (Core ι)
  | .spin a =>
    if a.WellNested s.cpu then
      (s.cpu.exec s.locks a).map (fun r => { s with locks := r.1, cpu := r.2 })
    else none
  | .interrupt =>
    if s.cpu.interruptFlag then
      some { s with cpu := ⟨.idle, [], false⟩, interrupted := s.cpu :: s.interrupted }
    else none
  | .iret =>
    if s.cpu.pc = .idle ∧ s.cpu.held = [] then
      match s.interrupted with
      | [] => none
      | c :: cs => some { s with cpu := c, interrupted := cs }
    else none

def run (s : Core ι) : List (CoreAct ι) → Option (Core ι)
  | [] => some s
  | a :: as => (s.exec a).bind (fun s => s.run as)

/-- `P` holds in every state of the run. -/
def Always (P : Core ι → Prop) (s : Core ι) : List (CoreAct ι) → Prop
  | [] => P s
  | a :: as => P s ∧ ∀ s', s.exec a = some s' → s'.Always P as

/-- `Q` holds of every step of the run, in the state it is made in. -/
def EachStep (Q : Core ι → CoreAct ι → Prop) (s : Core ι) : List (CoreAct ι) → Prop
  | [] => True
  | a :: as => Q s a ∧ ∀ s', s.exec a = some s' → s'.EachStep Q as

/-- No interrupt can be delivered while the CPU owns a lock. -/
def Safe (s : Core ι) : Prop :=
  s.cpu.interruptFlag = true → s.cpu.held = [] ∧ ∀ c ∈ s.interrupted, c.held = []

/-- A successful test-and-set by a context that holds no lock yet is made with
interrupts disabled. -/
def Masked (s : Core ι) (a : CoreAct ι) : Prop :=
  ∀ l, a = .spin .step → s.cpu.pc = .testAndSet l → (s.locks l).lock = false →
    s.cpu.held = [] → s.cpu.interruptFlag = false

/-- No lock is set and no handler runs. -/
def Start (s : Core ι) : Prop :=
  (∀ l, (s.locks l).lock = false) ∧ s.cpu.Outside ∧ s.interrupted = []

/-- Locks are held with interrupts disabled throughout, by the running context
only. -/
structure Quiet (s : Core ι) : Prop where
  owns : s.cpu.Owns s.locks
  flag : s.cpu.held ≠ [] → s.cpu.FlagOk false s.locks
  suspended : ∀ c ∈ s.interrupted, c.held = [] ∧ c.pc.owned = none

omit [DecidableEq ι] in
theorem flagUnder_false (ls : List ι) : flagUnder false ls = false := by
  cases ls with
  | nil => rfl
  | cons l ls => rfl

omit [DecidableEq ι] in
theorem flag_clear {x : ι → Spinlock} {y : Cpu ι} (h : y.FlagOk false x) :
    y.interruptFlag = false := by
  unfold Cpu.FlagOk at h
  cases hpc : y.pc with
  | idle | testAndSet | loadFlag | readFlag | cli | clear =>
    simp only [hpc, flagUnder_false] at h
    exact h.1
  | storeFlag | stiOrCli =>
    simp only [hpc, flagUnder_false] at h
    exact h.2.1

omit [DecidableEq ι] in
theorem Quiet.safe {s : Core ι} (h : s.Quiet) : s.Safe := by
  intro hif
  refine ⟨?_, fun c hc => (h.suspended c hc).1⟩
  by_contra hne
  rw [flag_clear (h.flag hne)] at hif
  simp at hif

omit [DecidableEq ι] in
theorem Owns_of_outside {x : ι → Spinlock} {y : Cpu ι} (hheld : y.held = [])
    (hpc : y.pc.owned = none) : y.Owns x := by
  refine ⟨?_, ?_, ?_, ?_⟩
  all_goals simp [hheld, hpc]

theorem Quiet.step {s s' : Core ι} {a : CoreAct ι} (h : s.Quiet) (ha : s.Masked a)
    (he : s.exec a = some s') : s'.Quiet := by
  cases a with
  | spin a =>
    simp only [exec] at he
    split_ifs at he with hnest
    obtain ⟨⟨x', y'⟩, hexec, rfl⟩ := Option.map_eq_some_iff.mp he
    have hmove := Cpu.move_of_exec hexec
    refine ⟨h.owns.move hnest hmove, fun hne => ?_, h.suspended⟩
    by_cases hheld : s.cpu.held = []
    · -- the first lock is taken now
      cases hmove with
      | @take l hpc hclear =>
        have hif := ha l rfl hpc hclear hheld
        show Cpu.FlagOk false _ _
        unfold Cpu.FlagOk
        simp only [List.tail_cons, hheld]
        exact ⟨hif, trivial⟩
      | acquire | release | flag | spin | readFlag | storeFlag | cli | loadFlag | stiOrCli =>
        exact absurd hheld hne
      | clear => simp [hheld] at hne
    · refine (h.flag hheld).move h.owns (fun v hv => ?_) hnest hmove
      subst hv
      exact hheld hnest
  | interrupt =>
    simp only [exec] at he
    split_ifs at he with hif
    obtain rfl := Option.some.inj he
    have hheld := (h.safe hif).1
    refine ⟨Owns_of_outside rfl rfl, fun hne => absurd rfl hne, fun c hc => ?_⟩
    rcases List.mem_cons.mp hc with rfl | hc
    · refine ⟨hheld, ?_⟩
      cases howned : s.cpu.pc.owned with
      | none => rfl
      | some l =>
        have hlast := h.owns.last l howned
        rw [hheld] at hlast
        simp at hlast
    · exact h.suspended c hc
  | iret =>
    simp only [exec] at he
    split_ifs at he with hout
    cases hint : s.interrupted with
    | nil => simp [hint] at he
    | cons c cs =>
      simp only [hint, Option.some.injEq] at he
      subst he
      have hc := h.suspended c (by simp [hint])
      exact ⟨Owns_of_outside hc.1 hc.2, fun hne => absurd hc.1 hne,
        fun d hd => h.suspended d (by simp [hint, hd])⟩

theorem Quiet.always {s : Core ι} (h : s.Quiet) {as : List (CoreAct ι)}
    (hs : s.EachStep Masked as) : s.Always Safe as := by
  induction as generalizing s with
  | nil => exact h.safe
  | cons a as ih => exact ⟨h.safe, fun s' he => ih (h.step hs.1 he) (hs.2 s' he)⟩

/-- An unmasked test-and-set leads to a state where an interrupt can come. -/
theorem masked_of_safe {s : Core ι} {a : CoreAct ι}
    (h : ∀ s', s.exec a = some s' → s'.Safe) : s.Masked a := by
  intro l hal hpc hclear hheld
  by_contra hif
  have hif' : s.cpu.interruptFlag = true := by simpa using hif
  have hexec : s.exec a = some { s with
      locks := Function.update s.locks l { s.locks l with lock := true }
      cpu := { s.cpu with pc := .readFlag l, held := l :: s.cpu.held } } := by
    subst hal
    simp [exec, SpinAct.WellNested, Cpu.exec, Cpu.step, hpc, hclear]
  have hheld' := (h _ hexec hif').1
  simp at hheld'

theorem masked_of_always {s : Core ι} {as : List (CoreAct ι)} (h : s.Always Safe as) :
    s.EachStep Masked as := by
  induction as generalizing s with
  | nil => trivial
  | cons a as ih =>
    refine ⟨masked_of_safe (fun s' he => ?_), fun s' he => ih (h.2 s' he)⟩
    have hnext := h.2 s' he
    cases as with
    | nil => exact hnext
    | cons b bs => exact hnext.1

end Core

/-- In a run of one CPU, with interrupts at any point where the flag allows them,
no interrupt can be delivered while a lock is owned exactly if every first lock
is taken with interrupts disabled already. -/
theorem interrupts_safe_iff_masked {ι : Type} [DecidableEq ι] (s : Core ι) (hs : s.Start)
    (as : List (CoreAct ι)) : s.Always Core.Safe as ↔ s.EachStep Core.Masked as := by
  obtain ⟨_, ⟨hpc, hheld⟩, hint⟩ := hs
  refine ⟨Core.masked_of_always, Core.Quiet.always ?_⟩
  exact ⟨Core.Owns_of_outside hheld (by rw [hpc]; rfl), fun hne => absurd hheld hne,
    by simp [hint]⟩

/-- Interrupts disabled before: the lock is taken and released in safety. -/
theorem interrupts_safe_iff_masked_disabled :
    (Core.mk (fun _ : Unit => ⟨false, false⟩) ⟨.idle, [], false⟩ []).Always Core.Safe
      [.spin (.acquire ()), .spin .step, .spin .step, .spin .step, .spin .step,
        .spin (.release ()), .spin .step, .spin .step, .spin .step] := by
  refine (interrupts_safe_iff_masked _ ⟨fun _ => rfl, ⟨rfl, rfl⟩, rfl⟩ _).mpr ?_
  simp [Core.EachStep, Core.Masked, Core.exec, Cpu.exec, Cpu.step, SpinAct.WellNested]

/-- With interrupts enabled, one can come right after the test-and-set, and a
handler that takes the same lock spins for ever. -/
theorem handler_spins_on_own_lock : ∃ s s' : Core Unit,
    (Core.mk (fun _ => ⟨false, false⟩) ⟨.idle, [], true⟩ []).run
      [.spin (.acquire ()), .spin .step] = some s ∧
    s.cpu.interruptFlag = true ∧ s.cpu.held = [()] ∧
    s.run [.interrupt, .spin (.acquire ()), .spin .step] = some s' ∧
    s'.exec (.spin .step) = some s' := by
  refine ⟨_, _, rfl, rfl, rfl, rfl, rfl⟩

end ApoptOS
