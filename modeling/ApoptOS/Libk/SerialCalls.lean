import ApoptOS.Libk.SerialRun

namespace ApoptOS.Serial

open Framework Printf

/-- Moves of one CPU while the others do nothing. -/
def AloneRun : SerialState × Talker → SerialState × Talker → Prop :=
  Relation.ReflTransGen (fun a b => TalkerMove a.1 a.2 b)

/-- A CPU that no other one keeps from a lock. -/
structure Talker.Free (x : SerialState) (y : Talker) : Prop where
  ok : y.Ok x
  free : ∀ l, (x.locks l).lock = true → l ∈ y.cpu.held

/-- What a call sends. -/
def SerialCall.text : SerialCall → Text
  | .debug t | .debugSetColor t => t
  | .logImpl a => logText a.status a.file a.line a.text
  | .smpSection logs => logs.flatMap (fun a => logText a.status a.file a.line a.text)

/-- What the rest of a call sends. -/
def codeText (code : List SerialCmd) : Text := code.flatMap (fun cmd => cmd.message.getD [])

section Alone

variable {x x' : SerialState} {y y' : Talker} {cmd : SerialCmd} {rest : List SerialCmd}
  {l : KernelLock}

theorem Talker.Free.move (h : y.Free x) (hmove : TalkerMove x y (x', y')) : y'.Free x' := by
  refine ⟨h.ok.own hmove, fun l hl => ?_⟩
  rcases hmove.cpu_move h.ok with ⟨hlocks, hcpu⟩ | ⟨a, -, hm⟩
  · rw [hcpu]
    exact h.free l (hlocks ▸ hl)
  · rcases hm.lock_set hl with hmine | ⟨hset, hkeep⟩
    · exact hmine
    · exact hkeep (h.free l hset)

theorem Talker.Free.run {a b : SerialState × Talker} (h : a.2.Free a.1) (hrun : AloneRun a b) :
    b.2.Free b.1 := by
  induction hrun with
  | refl => exact h
  | tail _ hmove ih => exact ih.move hmove

/-- The steps that are left inside a spinlock function. -/
def SpinPc.left : SpinPc KernelLock → Nat
  | .idle => 0
  | .cli _ | .clear _ => 1
  | .storeFlag _ _ | .stiOrCli _ _ => 2
  | .readFlag _ | .loadFlag _ => 3
  | .testAndSet _ => 4

/-- A spinlock function comes one step further, unless it waits. -/
theorem spin_step {locks : KernelLock → Spinlock} {cpu : Cpu KernelLock} (hpc : cpu.pc ≠ .idle)
    (hclear : ∀ l, cpu.pc = .testAndSet l → ¬ (locks l).lock = true) :
    ∃ r, cpu.step locks = some r ∧ SpinPc.left r.2.pc < SpinPc.left cpu.pc := by
  cases hy : cpu.pc with
  | idle => exact absurd hy hpc
  | testAndSet l => simp [Cpu.step, hy, hclear l hy, SpinPc.left]
  | readFlag | storeFlag | cli | loadFlag | stiOrCli | clear =>
    simp [Cpu.step, hy, SpinPc.left]

/-- A spinlock function returns. -/
theorem Talker.Free.spin_run (h : y.Free x) : ∃ locks cpu,
    AloneRun (x, y) ({ x with locks := locks }, { y with cpu := cpu }) ∧ cpu.pc = .idle := by
  induction hn : SpinPc.left y.cpu.pc using Nat.strong_induction_on generalizing x y with
  | _ n ih =>
    by_cases hpc : y.cpu.pc = .idle
    · exact ⟨x.locks, y.cpu, .refl, hpc⟩
    · have hclear : ∀ l, y.cpu.pc = .testAndSet l → ¬ (x.locks l).lock = true :=
        fun l hl hset => h.ok.owns.fresh l hl (h.free l hset)
      obtain ⟨⟨locks, cpu⟩, hstep, hlt⟩ := spin_step hpc hclear
      have hmove : TalkerMove x y ({ x with locks := locks }, { y with cpu := cpu }) := .spin hstep
      obtain ⟨locks', cpu', hrun, hidle⟩ := ih _ (hn ▸ hlt) (h.move hmove) rfl
      exact ⟨locks', cpu', .head hmove hrun, hidle⟩

/-- The characters of a command's text. -/
def SerialCmd.size : SerialCmd → Nat
  | .format _ t | .sendBuffer t | .sendCode t => t.length
  | .formatLine head t => (head ++ t).length
  | .acquire _ | .release _ | .work | .assertColor _ | .halt => 0

/-- A command that is none of a lock and comes to its end. -/
def SerialCmd.Plain : SerialCmd → Prop
  | .acquire _ | .release _ | .halt => False
  | .assertColor t => IsColorCode t
  | _ => True

theorem at_le_size {pos : Nat} (h : cmd.At x pos) : pos ≤ cmd.size := by
  cases cmd with
  | acquire | release | work | assertColor | halt =>
    have hpos : pos = 0 := h
    exact hpos.le
  | format | formatLine => exact h.1
  | sendBuffer | sendCode => exact h

theorem exec_plain (h : cmd.Plain) (x : SerialState) (pos : Nat) :
    ∃ x' r, cmd.exec x pos = some (x', r) := by
  cases cmd with
  | acquire | release | halt => exact h.elim
  | work => exact ⟨_, _, rfl⟩
  | assertColor t => exact ⟨_, _, if_pos h⟩
  | format l t =>
    simp only [SerialCmd.exec]
    split <;> exact ⟨_, _, rfl⟩
  | formatLine head t =>
    simp only [SerialCmd.exec]
    split <;> exact ⟨_, _, rfl⟩
  | sendBuffer t =>
    simp only [SerialCmd.exec]
    split <;> exact ⟨_, _, rfl⟩
  | sendCode t =>
    simp only [SerialCmd.exec]
    split <;> exact ⟨_, _, rfl⟩

/-- The character after those done, for the commands that format too. -/
theorem exec_more_pos {pos : Nat} (h : cmd.exec x y.pos = some (x', some pos)) :
    pos = y.pos + 1 := by
  cases cmd with
  | acquire | release | work | halt => simp [SerialCmd.exec] at h
  | assertColor t =>
    simp only [SerialCmd.exec] at h
    split_ifs at h
    simp at h
  | format l t | sendCode t =>
    simp only [SerialCmd.exec] at h
    split at h <;> simp at h
    exact h.2.symm
  | formatLine head t =>
    simp only [SerialCmd.exec] at h
    split at h <;> simp at h
    · exact h.2.symm
    · exact h.2.2.symm
  | sendBuffer t =>
    simp only [SerialCmd.exec] at h
    split_ifs at h <;> simp at h
    exact h.2.symm

/-- A command comes to its end, and what was left of its message has been sent. -/
theorem Talker.Free.plain_run (h : y.Free x) (hcode : y.code = cmd :: rest)
    (hpc : y.cpu.pc = .idle) (hplain : cmd.Plain) : ∃ x' y', AloneRun (x, y) (x', y') ∧
      y'.code = rest ∧ y'.cpu = y.cpu ∧ y'.pos = 0 ∧
      x'.wire = x.wire ++ (cmd.message.getD []).drop y.pos := by
  induction hn : cmd.size - y.pos using Nat.strong_induction_on generalizing x y with
  | _ n ih =>
    obtain ⟨x₁, r, hexec⟩ := exec_plain hplain x y.pos
    cases r with
    | none =>
      refine ⟨_, _, .single (.done hcode hpc hexec), rfl, rfl, rfl, ?_⟩
      rw [(record_wire _ _).1, exec_done_wire hexec]
      cases hm : cmd.message with
      | none => simp
      | some m =>
        rw [((exec_done h.ok hcode hpc hexec).2 m hm).2]
        simp
    | some pos =>
      have hmove : TalkerMove x y (x₁, { y with pos := pos }) := .more hcode hpc hexec
      obtain ⟨hat, hsend⟩ := exec_more h.ok hcode hpc hexec
      have hpos := exec_more_pos hexec
      have hle := at_le_size hat
      obtain ⟨x', y', hrun, hrest, hcpu, hzero, hwire⟩ :=
        ih (cmd.size - pos) (by omega) (y := { y with pos := pos }) (h.move hmove) hcode hpc rfl
      refine ⟨x', y', .head hmove hrun, hrest, hcpu, hzero, ?_⟩
      rw [hwire]
      cases hm : cmd.message with
      | none => simp [exec_more_silent hm hexec]
      | some m =>
        obtain ⟨c, hx₁, hc, -⟩ := hsend m hm
        have hdrop : m.drop y.pos = c :: m.drop pos := by
          rw [hpos, List.drop_eq_getElem?_toList_append, hc]
          rfl
        simp only [Option.getD_some, hdrop, hx₁, SerialState.send, List.append_assoc]
        rfl

/-- What is left of a call is carried out to its end, and its messages are sent. -/
theorem Talker.Free.code_run (h : y.Free x) (hpc : y.cpu.pc = .idle) (hpos : y.pos = 0) :
    ∃ x' y', AloneRun (x, y) (x', y') ∧ y'.code = [] ∧ y'.cpu.pc = .idle ∧
      x'.wire = x.wire ++ codeText y.code := by
  induction hcode : y.code generalizing x y with
  | nil => exact ⟨x, y, .refl, hcode, hpc, by simp [codeText]⟩
  | cons cmd rest ih =>
    have hd := (h.ok.here hcode hpc).1
    have hplain : cmd.Plain → ∃ x₁ y₁, AloneRun (x, y) (x₁, y₁) ∧ y₁.code = rest ∧
        y₁.cpu.pc = .idle ∧ y₁.pos = 0 ∧ x₁.wire = x.wire ++ cmd.message.getD [] := by
      intro hplain
      obtain ⟨x₁, y₁, hrun, hrest, hcpu, hzero, hwire⟩ := h.plain_run hcode hpc hplain
      rw [hpos, List.drop_zero] at hwire
      exact ⟨x₁, y₁, hrun, hrest, by rw [hcpu, hpc], hzero, hwire⟩
    have hstep : ∃ x₁ y₁, AloneRun (x, y) (x₁, y₁) ∧ y₁.code = rest ∧
        y₁.cpu.pc = .idle ∧ y₁.pos = 0 ∧ x₁.wire = x.wire ++ cmd.message.getD [] := by
      cases cmd with
      | acquire l =>
        have hmove : TalkerMove x y
            (x, { y with cpu := { y.cpu with pc := .testAndSet l }, code := rest }) :=
          .acquire hcode (by simp [Cpu.exec, hpc])
        obtain ⟨locks, cpu, hrun, hidle⟩ := (h.move hmove).spin_run
        exact ⟨_, _, .head hmove hrun, rfl, hidle, hpos, by simp [SerialCmd.message]⟩
      | release l =>
        have hmove : TalkerMove x y (x.released l y.said, { y with
            cpu := { y.cpu with pc := .loadFlag l }, code := rest,
            said := if l = .log then [] else y.said }) :=
          .release hcode (by simp [Cpu.exec, hpc])
        obtain ⟨locks, cpu, hrun, hidle⟩ := (h.move hmove).spin_run
        refine ⟨_, _, .head hmove hrun, rfl, hidle, hpos, ?_⟩
        simp [SerialCmd.message, (released_wire l y.said).1]
      | work | format | formatLine | sendBuffer | sendCode => exact hplain trivial
      | assertColor => exact hplain hd.2.1
      | halt => exact hd.elim
    obtain ⟨x₁, y₁, hrun₁, hrest, hidle, hzero, hwire₁⟩ := hstep
    obtain ⟨x', y', hrun, hnil, hend, hwire⟩ := ih (h.run hrun₁) hidle hzero hrest
    refine ⟨x', y', hrun₁.trans hrun, hnil, hend, ?_⟩
    rw [hwire, hwire₁, List.append_assoc, codeText, codeText, List.flatMap_cons]

theorem codeText_append (as bs : List SerialCmd) :
    codeText (as ++ bs) = codeText as ++ codeText bs := List.flatMap_append

theorem codeText_logImpl {a : LogArgs} (ha : a.Valid) :
    codeText a.code = logText a.status a.file a.line a.text := by
  simp [LogArgs.code, logImplCode, debugSetColorCode, codeText, SerialCmd.message, logText, ha.1]

theorem codeText_call {k : SerialCall} (hk : k.Valid) : codeText k.code = k.text := by
  cases k with
  | debug t => simp [SerialCall.code, debugCode, codeText, SerialCmd.message, SerialCall.text]
  | debugSetColor t =>
    simp [SerialCall.code, debugSetColorCode, codeText, SerialCmd.message, SerialCall.text]
  | logImpl a => exact codeText_logImpl hk
  | smpSection logs =>
    have hlogs : codeText (logs.flatMap (fun a => a.code ++ [.work])) =
        logs.flatMap (fun a => logText a.status a.file a.line a.text) := by
      induction logs with
      | nil => rfl
      | cons a logs ih =>
        rw [List.flatMap_cons, codeText_append, codeText_append,
          codeText_logImpl (hk a List.mem_cons_self), List.flatMap_cons,
          ih (fun b hb => hk b (List.mem_cons_of_mem a hb))]
        simp [codeText, SerialCmd.message]
    have hsection : (SerialCall.smpSection logs).code = [.acquire .smp, .work] ++
        (logs.flatMap (fun a => a.code ++ [.work]) ++ [.release .smp]) := by
      simp [SerialCall.code]
    rw [hsection, codeText_append, codeText_append, hlogs]
    simp [codeText, SerialCmd.message, SerialCall.text]

end Alone

section Call

variable {κ : Type} [DecidableEq κ] {s : Sys κ SerialState Talker} {c : κ}

/-- The moves of one CPU are a run. -/
theorem AloneRun.run {x : SerialState} {y : Talker}
    (h : AloneRun (s.shared, s.locals c) (x, y)) : Sys.Run talkerAct s (s.move c x y) := by
  obtain ⟨b, hb⟩ : ∃ b, b = (x, y) := ⟨_, rfl⟩
  rw [← hb] at h
  have hall : Sys.Run talkerAct s (s.move c b.1 b.2) := by
    clear hb
    induction h with
    | refl =>
      rw [Sys.move, Function.update_eq_self]
      exact .refl
    | @tail a b _ hmove ih =>
      refine ih.tail ⟨c, b.1, b.2, ?_, ?_⟩
      · rw [Sys.move_self]
        exact hmove
      · simp only [Sys.move, Function.update_idem]
  rwa [hb] at hall

/-- A CPU that calls one of the functions while no lock is set comes to the end of the call, with
nothing but the text of the call sent. -/
theorem serial_call_sends (s₀ s : Sys κ SerialState Talker) (hstart : TalkersStart s₀)
    (hrun : Sys.Run talkerAct s₀ s) (hfree : ∀ l, (s.shared.locks l).lock = false)
    (c : κ) (hcode : (s.locals c).code = []) (hpc : (s.locals c).cpu.pc = .idle)
    {k : SerialCall} (hk : k.Valid) :
    ∃ s', Sys.Run talkerAct s s' ∧ (s'.locals c).code = [] ∧ (s'.locals c).cpu.pc = .idle ∧
      (∀ d, d ≠ c → s'.locals d = s.locals d) ∧
      s'.shared.wire = s.shared.wire ++ k.text := by
  have hinv : SerialInv s := hrun.induct (fun _ _ _ _ h hact => h.move hact) hstart.inv
  have hok := hinv.ok.1 c
  have hcall : TalkerMove s.shared (s.locals c) (s.shared, { s.locals c with code := k.code }) :=
    .call k hk hcode hpc
  have hbefore : Talker.Free s.shared { s.locals c with code := k.code } := by
    refine ⟨hok.own hcall, fun l hl => ?_⟩
    rw [hfree l] at hl
    simp at hl
  obtain ⟨x, y, halone, hnil, hidle, hwire⟩ := hbefore.code_run hpc (hok.fresh hcode)
  refine ⟨s.move c x y, AloneRun.run (.head hcall halone), ?_, ?_, ?_, ?_⟩
  · rwa [Sys.move_self]
  · rwa [Sys.move_self]
  · exact fun d hd => Sys.move_other s x y hd
  · rw [Sys.move_shared, hwire, codeText_call hk]

/-- The line `ok` from line 7 of the file `f`. -/
theorem serial_call_sends_ok : ∃ s₀ s' : Sys (Fin 2) SerialState Talker, TalkersStart s₀ ∧
    Sys.Run talkerAct s₀ s' ∧
    s'.shared.wire = logText .info (ascii ['f']) 7 (ascii ['o', 'k']) := by
  obtain ⟨s₀, hs₀⟩ : ∃ s₀ : Sys (Fin 2) SerialState Talker,
    s₀ = ⟨⟨fun _ => ⟨false, false⟩, fun _ _ => 0, [], [], []⟩,
      fun _ => ⟨⟨.idle, [], true⟩, [], 0, []⟩⟩ := ⟨_, rfl⟩
  have hstart : TalkersStart s₀ := by
    rw [hs₀]
    exact ⟨fun _ => rfl, rfl, rfl, rfl, fun _ => ⟨true, rfl⟩⟩
  have hvalid : (SerialCall.logImpl ⟨.info, ascii ['f'], 7, ascii ['o', 'k']⟩).Valid := by
    refine ⟨by simp, ?_, ?_, by decide, by decide⟩ <;> unfold ZeroFree <;> decide
  obtain ⟨s', hrun, -, -, -, hwire⟩ :=
    serial_call_sends s₀ s₀ hstart .refl (by simp [hs₀]) 0
    (by rw [hs₀]) (by rw [hs₀]) hvalid
  refine ⟨s₀, s', hstart, hrun, ?_⟩
  rw [hwire, hs₀]
  rfl

end Call

end ApoptOS.Serial
