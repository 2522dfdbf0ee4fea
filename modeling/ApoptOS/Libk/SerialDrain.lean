import ApoptOS.Libk.SerialCalls
import Mathlib.Algebra.Order.BigOperators.Group.Finset

namespace ApoptOS.Serial

open Framework Printf

/-- A command as its locks see it. The format and the sending under `debug_lock` are the one piece
of work of `debug`. -/
def SerialCmd.lockCmds : SerialCmd → List LockCmd
  | .acquire l => [.acquire l]
  | .release l => [.release l]
  | .format .debug _ | .formatLine _ _ | .assertColor _ => []
  | .work | .format _ _ | .sendBuffer _ | .sendCode _ => [.work]
  | .halt => [.halt]

def SerialCall.lockCall : SerialCall → KernelCall
  | .debug _ => .debug
  | .debugSetColor _ => .debugSetColor
  | .logImpl a => .logImpl a.status
  | .smpSection logs => .smpSection (logs.map LogArgs.status)

def Talker.runner (y : Talker) : Runner := ⟨y.cpu, y.code.flatMap SerialCmd.lockCmds⟩

section Refinement

variable {x x' : SerialState} {y y' : Talker} {l : KernelLock}

theorem lockCmds_logImpl {a : LogArgs} (ha : a.Valid) :
    a.code.flatMap SerialCmd.lockCmds = ApoptOS.logImpl a.status := by
  simp [LogArgs.code, logImplCode, debugSetColorCode, SerialCmd.lockCmds, ApoptOS.logImpl,
    ApoptOS.debug, ApoptOS.debugSetColor, ha.1]

theorem lockCmds_call {k : SerialCall} (hk : k.Valid) :
    k.code.flatMap SerialCmd.lockCmds = k.lockCall.code := by
  cases k with
  | debug t => rfl
  | debugSetColor t => rfl
  | logImpl a => exact lockCmds_logImpl hk
  | smpSection logs =>
    have hlogs : (logs.flatMap (fun a => a.code ++ [.work])).flatMap SerialCmd.lockCmds =
        (logs.map LogArgs.status).flatMap (fun status => ApoptOS.logImpl status ++ [.work]) := by
      induction logs with
      | nil => rfl
      | cons a logs ih =>
        simp only [List.flatMap_cons, List.flatMap_append, List.map_cons,
          lockCmds_logImpl (hk a List.mem_cons_self),
          ih (fun b hb => hk b (List.mem_cons_of_mem a hb))]
        rfl
    simp only [SerialCall.code, SerialCall.lockCall, KernelCall.code, ApoptOS.smpSection,
      List.flatMap_append, hlogs]
    rfl

theorem lockCall_noPanic {k : SerialCall} (hk : k.Valid) : k.lockCall.NoPanic := by
  cases k with
  | debug | debugSetColor => trivial
  | logImpl a => exact hk.1
  | smpSection logs =>
    intro hmem
    obtain ⟨a, ha, hpanic⟩ := List.mem_map.mp hmem
    exact (hk a ha).1 hpanic

/-- Seen by the locks a move is one of the logging functions, or none. -/
theorem TalkerMove.runner (h : TalkerMove x y (x', y')) (hy : y.Ok x) :
    (x'.locks = x.locks ∧ y'.runner = y.runner) ∨
      RunnerMove x.locks y.runner (x'.locks, y'.runner) := by
  cases h with
  | spin h => exact .inr (.spin h)
  | @acquire l rest cpu hcode h =>
    have hrest : y.runner.code = .acquire l :: rest.flatMap SerialCmd.lockCmds := by
      simp [Talker.runner, hcode, SerialCmd.lockCmds]
    exact .inr (.acquire hrest h)
  | @release l rest cpu hcode h =>
    have hrest : y.runner.code = .release l :: rest.flatMap SerialCmd.lockCmds := by
      simp [Talker.runner, hcode, SerialCmd.lockCmds]
    rw [released_locks]
    exact .inr (.release hrest h)
  | more hcode hpc h => exact .inl ⟨exec_locks h, rfl⟩
  | @done cmd rest x₁ hcode hpc h =>
    rw [record_locks, exec_locks h]
    have hcmd : cmd.lockCmds = [] ∨ cmd.lockCmds = [.work] := by
      cases cmd with
      | acquire | release | halt => simp [SerialCmd.exec] at h
      | format l => cases l <;> simp [SerialCmd.lockCmds]
      | work | formatLine | sendBuffer | assertColor | sendCode => simp [SerialCmd.lockCmds]
    have hall : y.runner.code = cmd.lockCmds ++ rest.flatMap SerialCmd.lockCmds := by
      simp [Talker.runner, hcode]
    rcases hcmd with hnone | hwork
    · rw [hnone, List.nil_append] at hall
      refine .inl ⟨rfl, ?_⟩
      rw [Talker.runner, ← hall]
      rfl
    · rw [hwork] at hall
      exact .inr (.work hall hpc)
  | fails hcode hpc h => exact absurd (hy.here hcode hpc).1.2.1 h
  | call k hk hcode hpc =>
    right
    have hnil : y.runner.code = [] := by simp [Talker.runner, hcode]
    have hmove := RunnerMove.call (x := x.locks) (y := y.runner) k.lockCall (lockCall_noPanic hk)
      hnil hpc
    rw [← lockCmds_call hk] at hmove
    exact hmove
  | flag hcode h =>
    have hnil : y.runner.code = [] := by simp [Talker.runner, hcode]
    exact .inr (.flag hnil h)

/-- A call that is not done has a step left for its locks. -/
theorem Disciplined.lockCmds_ne_nil {held : List KernelLock} {said : List Text}
    {code : List SerialCmd} (h : Disciplined held said code) (hcode : code ≠ []) :
    code.flatMap SerialCmd.lockCmds ≠ [] := by
  induction code generalizing held said with
  | nil => exact absurd rfl hcode
  | cons cmd rest ih =>
    have hmore : ∀ {k}, k ∈ held → Disciplined held said rest → rest ≠ [] := by
      intro k hk hrest hnil
      rw [hnil] at hrest
      have hnone : held = [] := hrest
      simp [hnone] at hk
    cases cmd with
    | acquire | release | work | sendBuffer | sendCode | halt => simp [SerialCmd.lockCmds]
    | format l t =>
      have hrest := ih h.2.2 (hmore h.1 h.2.2)
      simp only [List.flatMap_cons, ne_eq, List.append_eq_nil_iff, not_and]
      exact fun _ => hrest
    | assertColor t =>
      have hrest := ih h.2.2 (hmore h.1 h.2.2)
      simp only [List.flatMap_cons, ne_eq, List.append_eq_nil_iff, not_and]
      exact fun _ => hrest
    | formatLine head t =>
      have hrest := ih h.2.2.2.2.2 (hmore h.1 h.2.2.2.2.2)
      simp only [List.flatMap_cons, ne_eq, List.append_eq_nil_iff, not_and]
      exact fun _ => hrest

/-- A CPU inside a call. -/
def Talker.Inside (y : Talker) : Prop := y.code ≠ [] ∨ y.cpu.pc ≠ .idle

theorem Talker.Ok.inside_runner (hy : y.Ok x) : y.runner.Inside ↔ y.Inside := by
  constructor
  · rintro (hcode | hpc)
    · refine .inl (fun hnil => hcode ?_)
      simp [Talker.runner, hnil]
    · exact .inr hpc
  · rintro (hcode | hpc)
    · exact .inl (hy.disciplined.lockCmds_ne_nil hcode)
    · exact .inr hpc

end Refinement

/-- The most steps that are left of the rest of a call. -/
def codeLeft (code : List SerialCmd) : Nat := (code.map (fun cmd => 5 + cmd.size)).sum

/-- The most moves that a CPU has left in its call, those that wait for a lock aside. -/
def Talker.left (y : Talker) : Nat := SpinPc.left y.cpu.pc + (codeLeft y.code - y.pos)

section Progress

variable {x x' : SerialState} {y y' : Talker}

theorem codeLeft_cons (cmd : SerialCmd) (rest : List SerialCmd) :
    codeLeft (cmd :: rest) = 5 + cmd.size + codeLeft rest := by
  simp [codeLeft]

/-- A CPU inside a call that does not wait for a lock comes closer to the end of the call. -/
theorem Talker.Ok.progress (hy : y.Ok x) (hin : y.Inside)
    (hclear : ∀ l, y.cpu.pc = .testAndSet l → ¬ (x.locks l).lock = true) :
    ∃ x' y', TalkerMove x y (x', y') ∧ y'.left < y.left := by
  by_cases hpc : y.cpu.pc = .idle
  · cases hcode : y.code with
    | nil =>
      rcases hin with hne | hne
      · exact absurd hcode hne
      · exact absurd hpc hne
    | cons cmd rest =>
      have hle := at_le_size (hy.place cmd rest hcode)
      have hleft : y.left = 5 + cmd.size + codeLeft rest - y.pos := by
        simp [Talker.left, hcode, codeLeft_cons, hpc, SpinPc.left]
      have hplain : cmd.Plain → ∃ x' y', TalkerMove x y (x', y') ∧ y'.left < y.left := by
        intro hplain
        obtain ⟨x₁, r, hexec⟩ := exec_plain hplain x y.pos
        cases r with
        | none =>
          refine ⟨_, _, .done hcode hpc hexec, ?_⟩
          simp only [Talker.left, hpc, SpinPc.left] at hleft ⊢
          omega
        | some pos =>
          have hpos := exec_more_pos hexec
          refine ⟨_, _, .more hcode hpc hexec, ?_⟩
          simp only [Talker.left, hcode, codeLeft_cons, hpc, SpinPc.left]
          omega
      cases cmd with
      | acquire l =>
        refine ⟨_, _, .acquire hcode (by simp only [Cpu.exec, hpc, if_true]; rfl), ?_⟩
        simp only [SerialCmd.size] at hle hleft
        simp only [Talker.left, SpinPc.left] at hleft ⊢
        omega
      | release l =>
        refine ⟨_, _, .release hcode (by simp only [Cpu.exec, hpc, if_true]; rfl), ?_⟩
        simp only [SerialCmd.size] at hle hleft
        simp only [Talker.left, SpinPc.left] at hleft ⊢
        omega
      | work | format | formatLine | sendBuffer | sendCode => exact hplain trivial
      | assertColor => exact hplain (hy.here hcode hpc).1.2.1
      | halt => exact (hy.here hcode hpc).1.elim
  · obtain ⟨⟨locks, cpu⟩, hstep, hlt⟩ := spin_step hpc hclear
    have hlt : SpinPc.left cpu.pc < SpinPc.left y.cpu.pc := hlt
    refine ⟨_, _, .spin hstep, ?_⟩
    simp only [Talker.left]
    omega

end Progress

section Drain

variable {κ : Type} [DecidableEq κ] {s s' : Sys κ SerialState Talker}

/-- The CPUs as their locks see them. -/
def runners (s : Sys κ SerialState Talker) : Sys κ (KernelLock → Spinlock) Runner :=
  ⟨s.shared.locks, fun c => (s.locals c).runner⟩

/-- A move is a move of the logging functions on their locks, or none. -/
theorem SerialInv.runners_move {c : κ} {x : SerialState} {y : Talker} (h : SerialInv s)
    (hact : talkerAct c (s.shared, s.locals c) (x, y)) : runners (s.move c x y) = runners s ∨
      Sys.Step runnerAct (runners s) (runners (s.move c x y)) := by
  have hmove : runners (s.move c x y) = (runners s).move c x.locks y.runner := by
    simp only [runners, Sys.move, Sys.mk.injEq, true_and]
    funext d
    by_cases hdc : d = c
    · subst hdc
      simp
    · simp [Function.update_of_ne hdc]
  rcases TalkerMove.runner hact (h.ok.1 c) with ⟨hlocks, hsame⟩ | hstep
  · left
    have hlocks : x.locks = s.shared.locks := hlocks
    rw [hmove, Sys.move, hlocks, hsame]
    simp only [runners, Function.update_eq_self]
  · exact .inr ⟨c, x.locks, y.runner, hstep, hmove⟩

theorem SerialInv.runnersInv_move {c : κ} {x : SerialState} {y : Talker} (h : SerialInv s)
    (hrunners : RunnersInv (runners s)) (hact : talkerAct c (s.shared, s.locals c) (x, y)) :
    RunnersInv (runners (s.move c x y)) := by
  rcases h.runners_move hact with hsame | ⟨d, locks, z, hmove, hnext⟩
  · rwa [hsame]
  · rw [hnext]
    exact hrunners.move hmove

omit [DecidableEq κ] in
theorem TalkersStart.runners (h : TalkersStart s) : RunnersStart (runners s) := by
  obtain ⟨hlocks, -, -, -, hlocals⟩ := h
  refine ⟨hlocks, fun c => ?_⟩
  obtain ⟨f, hf⟩ := hlocals c
  simp [Serial.runners, Talker.runner, hf]

/-- The runs with every character are runs of the logging functions on their locks. -/
theorem serialInv_reached (hstart : TalkersStart s) (hrun : Sys.Run talkerAct s s') :
    SerialInv s' ∧ RunnersInv (runners s') := by
  induction hrun with
  | refl => exact ⟨hstart.inv, hstart.runners.inv⟩
  | tail _ hlast ih =>
    obtain ⟨c, x, y, hact, rfl⟩ := hlast
    exact ⟨ih.1.move hact, ih.1.runnersInv_move ih.2 hact⟩

omit [DecidableEq κ] in
/-- While a CPU is inside a call, one of them has a move towards the end of its own. -/
theorem SerialInv.progress (h : SerialInv s) (hrunners : RunnersInv (runners s)) {c : κ}
    (hc : (s.locals c).Inside) :
    ∃ d x y, talkerAct d (s.shared, s.locals d) (x, y) ∧ y.left < (s.locals d).left := by
  obtain ⟨d, hd, hspin⟩ := hrunners.progress c ((h.ok.1 c).inside_runner.mpr hc)
  obtain ⟨x, y, hmove, hlt⟩ := (h.ok.1 d).progress ((h.ok.1 d).inside_runner.mp hd)
    (fun l hpc hset => hspin l ⟨hpc, hset⟩)
  exact ⟨d, x, y, hmove, hlt⟩

/-- For any finite number of CPUs: whatever they have done so far, all the calls that they are in
can come to an end, and then the line consists of whole messages and the log of whole lines. -/
theorem serial_drains [Fintype κ] (s₀ s : Sys κ SerialState Talker) (hstart : TalkersStart s₀)
    (hrun : Sys.Run talkerAct s₀ s) : ∃ s', Sys.Run talkerAct s s' ∧
      (∀ c, ¬ (s'.locals c).Inside) ∧
      s'.shared.wire = sentTexts s'.shared.messages ∧
      loggedTexts s'.shared.messages = s'.shared.lines.flatten := by
  obtain ⟨hinv, hrunners⟩ := serialInv_reached hstart hrun
  clear hrun
  induction hn : ∑ c, (s.locals c).left using Nat.strong_induction_on generalizing s with
  | _ n ih =>
    by_cases hin : ∃ c, (s.locals c).Inside
    · obtain ⟨c, hc⟩ := hin
      obtain ⟨d, x, y, hact, hlt⟩ := hinv.progress hrunners hc
      have hstep : Sys.Step talkerAct s (s.move d x y) := ⟨d, x, y, hact, rfl⟩
      have hless : ∑ c, ((s.move d x y).locals c).left < n := by
        rw [← hn]
        refine Finset.sum_lt_sum (fun e _ => ?_) ⟨d, Finset.mem_univ d, ?_⟩
        · by_cases hed : e = d
          · subst hed
            rw [Sys.move_self]
            exact hlt.le
          · rw [Sys.move_other s x y hed]
        · rwa [Sys.move_self]
      obtain ⟨s', hrun, hend⟩ :=
        ih _ hless _ (hinv.move hact) (hinv.runnersInv_move hrunners hact) rfl
      exact ⟨s', .head hstep hrun, hend⟩
    · push Not at hin
      refine ⟨s, .refl, hin, ?_, ?_⟩
      · apply hinv.wire.quiet
        intro c
        have hcode : (s.locals c).code = [] := by
          by_contra hne
          exact hin c (.inl hne)
        exact sending_nil hcode
      · apply hinv.logged.quiet
        intro c
        have hpc : (s.locals c).cpu.pc = .idle := by
          by_contra hne
          exact hin c (.inr hne)
        have hcode : (s.locals c).code = [] := by
          by_contra hne
          exact hin c (.inl hne)
        have hd := (hinv.ok.1 c).disciplined
        rw [hcode] at hd
        have hsoon : heldSoon (s.locals c).cpu = [] := hd
        exact logging_out (fun huse => by simpa [hsoon] using huse.2)

/-- Two CPUs of which the first waits inside `debug_set_color`. -/
theorem serial_drains_two : ∃ s₀ s : Sys (Fin 2) SerialState Talker, TalkersStart s₀ ∧
    Sys.Run talkerAct s₀ s ∧ (s.locals 0).Inside ∧
    ∃ s', Sys.Run talkerAct s s' ∧ ∀ c, ¬ (s'.locals c).Inside := by
  obtain ⟨x, hx⟩ :
      ∃ x : SerialState, x = ⟨fun _ => ⟨false, false⟩, fun _ _ => 0, [], [], []⟩ :=
    ⟨_, rfl⟩
  obtain ⟨s₀, hs₀⟩ : ∃ s₀ : Sys (Fin 2) SerialState Talker,
    s₀ = ⟨x, fun _ => ⟨⟨.idle, [], true⟩, [], 0, []⟩⟩ := ⟨_, rfl⟩
  obtain ⟨s, hs⟩ :
      ∃ s, s = s₀.move 0 x ⟨⟨.idle, [], true⟩, debugSetColorCode [0x1B, 91], 0, []⟩ :=
    ⟨_, rfl⟩
  have hstart : TalkersStart s₀ := by
    rw [hs₀, hx]
    exact ⟨fun _ => rfl, rfl, rfl, rfl, fun _ => ⟨true, rfl⟩⟩
  have hvalid : (SerialCall.debugSetColor [0x1B, 91]).Valid := by
    refine ⟨by decide, ?_⟩
    simp [ZeroFree]
  have hstep : Sys.Step talkerAct s₀ s := by
    refine ⟨0, _, _, ?_, hs⟩
    rw [hs₀]
    exact .call (.debugSetColor [0x1B, 91]) hvalid rfl rfl
  have hinside : (s.locals 0).Inside := by
    rw [hs, Sys.move_self]
    exact .inl (by simp [debugSetColorCode])
  obtain ⟨s', hrun, hend, -⟩ := serial_drains s₀ s hstart (.single hstep)
  exact ⟨s₀, s, hstart, .single hstep, hinside, s', hrun, hend⟩

end Drain

end ApoptOS.Serial
