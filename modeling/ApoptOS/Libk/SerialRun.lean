import ApoptOS.Libk.SerialMessages

namespace ApoptOS.Serial

open Framework Printf

/-- The message that a CPU is about to send. -/
def Talker.message (y : Talker) : Option Text := y.code.head?.bind SerialCmd.message

/-- The characters that a CPU has sent of its message. -/
def Talker.sending (y : Talker) : Option Text :=
  if y.cpu.pc = .idle then y.message.map (·.take y.pos) else none

/-- The messages that a CPU has sent of its line. -/
def Talker.logging (y : Talker) : Option (List Text) :=
  if InUse .log y.cpu then some y.said else none

/-- The messages that were sent under `log_lock`. -/
def loggedTexts (messages : List Message) : List Text :=
  (messages.filter Message.logged).map Message.text

def sentTexts (messages : List Message) : Text := messages.flatMap Message.text

section Effects

variable {x x' : SerialState} {y y' : Talker} {cmd : SerialCmd} {rest : List SerialCmd}

theorem sending_busy (hpc : y.cpu.pc ≠ .idle) : y.sending = none := if_neg hpc

theorem sending_cons (hcode : y.code = cmd :: rest) (hpc : y.cpu.pc = .idle) :
    y.sending = cmd.message.map (·.take y.pos) := by
  simp [Talker.sending, Talker.message, hcode, hpc]

theorem sending_nil (hcode : y.code = []) : y.sending = none := by
  simp [Talker.sending, Talker.message, hcode]

theorem sending_zero (hpos : y.pos = 0) : y.sending = none ∨ y.sending = some [] := by
  unfold Talker.sending
  split
  · cases y.message with
    | none => exact .inl rfl
    | some m => simp [hpos]
  · exact .inl rfl

/-- A CPU sends only while it holds `debug_lock`. -/
theorem Talker.Ok.debug_of_sending (hy : y.Ok x) (h : y.sending ≠ none) :
    .debug ∈ y.cpu.held := by
  cases hcode : y.code with
  | nil => exact absurd (sending_nil hcode) h
  | cons cmd rest =>
    have hpc : y.cpu.pc = .idle := by
      by_contra hpc
      exact h (sending_busy hpc)
    have hd := (hy.here hcode hpc).1
    rw [sending_cons hcode hpc] at h
    cases cmd with
    | sendBuffer => exact hd.1
    | sendCode => exact hd.1
    | acquire | release | work | format | formatLine | assertColor | halt =>
      simp [SerialCmd.message] at h

theorem Talker.Ok.log_of_logging (h : y.logging ≠ none) : .log ∈ y.cpu.held := by
  unfold Talker.logging at h
  split at h
  · rename_i huse
    exact huse.1
  · simp at h

/-- A move that sends nothing and begins at most a message. -/
theorem tapeStep_begin {tape whole : Text} (h : y.sending = none) (hpos : y'.pos = 0) :
    TapeStep tape whole y.sending tape whole y'.sending := by
  rw [h]
  rcases sending_zero hpos with h' | h' <;> rw [h']
  · exact .same none
  · exact .start

theorem exec_more_silent {pos : Nat} (hm : cmd.message = none)
    (h : cmd.exec x y.pos = some (x', some pos)) : x'.wire = x.wire := by
  rcases exec_cases h with ⟨k, c, -, rfl⟩ | ⟨c, hne, -⟩ | ⟨rfl, -⟩
  · rfl
  · exact absurd hm hne
  · rfl

theorem exec_done_wire (h : cmd.exec x y.pos = some (x', none)) :
    x'.wire = x.wire := by
  rcases exec_cases h with ⟨k, c, -, rfl⟩ | ⟨c, -, -, hr⟩ | ⟨rfl, -⟩
  · rfl
  · simp at hr
  · rfl

theorem exec_messages {pos : Nat} {r : Option Nat} (h : cmd.exec x pos = some (x', r)) :
    x'.messages = x.messages ∧ x'.lines = x.lines := by
  rcases exec_cases h with
      ⟨k, c, -, rfl⟩ | ⟨c, -, rfl, -⟩ | ⟨rfl, -⟩ <;> exact ⟨rfl, rfl⟩

theorem released_wire (l : KernelLock) (said : List Text) :
    (x.released l said).wire = x.wire ∧ (x.released l said).messages = x.messages := by
  unfold SerialState.released
  split <;> exact ⟨rfl, rfl⟩

theorem record_wire (b : Bool) (m : Option Text) :
    (x.record b m).wire = x.wire ∧ (x.record b m).lines = x.lines := by
  cases m <;> exact ⟨rfl, rfl⟩

theorem record_messages (b : Bool) (m : Option Text) :
    (x.record b m).messages = x.messages ++ (m.map (Message.mk b)).toList := by
  cases m <;> simp [SerialState.record]

/-- What a move does to the line: it sends the next character of a message, or ends one. -/
theorem TalkerMove.wire_step (h : TalkerMove x y (x', y')) (hy : y.Ok x) :
    TapeStep x.wire (sentTexts x.messages) y.sending x'.wire (sentTexts x'.messages)
      y'.sending := by
  cases h with
  | @spin locks cpu h =>
    have hpc : y.cpu.pc ≠ .idle := by
      intro hpc
      simp [Cpu.step, hpc] at h
    exact tapeStep_begin (sending_busy hpc) (hy.not_idle hpc)
  | @acquire l rest cpu hcode h =>
    have hpos : y.pos = 0 := hy.place _ _ hcode
    cases Cpu.move_of_exec h with
    | acquire hpc => exact tapeStep_begin (sending_cons hcode hpc) hpos
  | @release l rest cpu hcode h =>
    have hpos : y.pos = 0 := hy.place _ _ hcode
    rw [(released_wire l y.said).1, (released_wire l y.said).2]
    cases Cpu.move_of_exec h with
    | release hpc => exact tapeStep_begin (sending_cons hcode hpc) hpos
  | @more cmd rest x' pos hcode hpc h =>
    have hafter : Talker.sending { y with pos := pos } = cmd.message.map (·.take pos) :=
      sending_cons hcode hpc
    rw [sending_cons hcode hpc, hafter, (exec_messages h).1]
    cases hm : cmd.message with
    | none =>
      rw [exec_more_silent hm h]
      exact .same none
    | some m =>
      obtain ⟨c, hx', hc, hpos⟩ := (exec_more hy hcode hpc h).2 m hm
      have htake : m.take pos = m.take y.pos ++ [c] := by
        rw [hpos, List.take_add_one, hc, Option.toList_some]
      have hwire : x'.wire = x.wire ++ [c] := by rw [hx']; rfl
      rw [hwire, Option.map_some, Option.map_some, htake]
      exact .extend _ _
  | @done cmd rest x' hcode hpc h =>
    rw [(record_wire _ _).1, record_messages, exec_done_wire h, (exec_messages h).1,
      sending_cons hcode hpc]
    -- whatever comes next, none of it has been sent yet
    have hnext : ∀ z : Talker, z.pos = 0 → TapeStep x.wire (sentTexts x.messages)
        (cmd.message.map (·.take y.pos)) x.wire
        (sentTexts (x.messages ++ (cmd.message.map (Message.mk y.logged)).toList)) z.sending := by
      intro z hz
      cases hm : cmd.message with
      | none =>
        rcases sending_zero hz with h' | h' <;> rw [h'] <;> simp only [Option.map_none,
          Option.toList_none, List.append_nil]
        · exact .same none
        · exact .start
      | some m =>
        have hall : m.take y.pos = m := by
          rw [((exec_done hy hcode hpc h).2 m hm).2, List.take_length]
        have hsent : sentTexts (x.messages ++ ((some m).map (Message.mk y.logged)).toList) =
            sentTexts x.messages ++ m := by simp [sentTexts]
        rw [hsent, Option.map_some, hall]
        rcases sending_zero hz with h' | h' <;> rw [h']
        · exact .commit m
        · exact .next m
    exact hnext _ rfl
  | fails hcode hpc h => exact absurd (hy.here hcode hpc).1.2.1 h
  | call k hk hcode hpc => exact tapeStep_begin (sending_nil hcode) (hy.fresh hcode)
  | @flag v cpu hcode h => exact tapeStep_begin (sending_nil hcode) (hy.fresh hcode)

theorem logging_in_use (h : InUse .log y.cpu) : y.logging = some y.said := if_pos h

theorem logging_out (h : ¬ InUse .log y.cpu) : y.logging = none := if_neg h

/-- What a CPU has said is the same as long as `log_lock` stays in use. -/
theorem logging_congr (huse : InUse .log y'.cpu ↔ InUse .log y.cpu) (hsaid : y'.said = y.said) :
    y'.logging = y.logging := by
  simp [Talker.logging, huse, hsaid]

/-- What a move does to the lines: it sends the next message of one, or ends one. -/
theorem TalkerMove.line_step (h : TalkerMove x y (x', y')) (hy : y.Ok x) :
    TapeStep (loggedTexts x.messages) x.lines.flatten y.logging (loggedTexts x'.messages)
      x'.lines.flatten y'.logging ∧
      (x'.lines = x.lines ∨ ∃ said, IsLine said ∧ x'.lines = x.lines ++ [said]) := by
  cases h with
  | @spin locks cpu h =>
    refine ⟨?_, .inl rfl⟩
    have hm := Cpu.move_of_step h
    by_cases huse : InUse .log y.cpu
    · have hafter := (inUse_step hy.owns hm).1 huse
      have hsame : Talker.logging { y with cpu := cpu } = y.logging :=
        logging_congr (iff_of_true hafter huse) rfl
      rw [hsame]
      exact .same _
    · rw [logging_out huse]
      by_cases hafter : InUse .log cpu
      · rw [logging_in_use (y := { y with cpu := cpu }) hafter, hy.silent huse]
        exact .start
      · rw [logging_out (y := { y with cpu := cpu }) hafter]
        exact .same none
  | @acquire l rest cpu hcode h =>
    refine ⟨?_, .inl rfl⟩
    cases Cpu.move_of_exec h with
    | acquire hpc =>
      have hsame : InUse .log { y.cpu with pc := .testAndSet l } ↔ InUse .log y.cpu := by
        rw [inUse_idle hpc]
        exact ⟨fun huse => huse.1, fun hl => ⟨hl, List.mem_cons_of_mem l hl⟩⟩
      have hafter : Talker.logging { y with
          cpu := { y.cpu with pc := .testAndSet l }, code := rest } = y.logging :=
        logging_congr hsame rfl
      rw [hafter]
      exact .same _
  | @release l rest cpu hcode h =>
    cases Cpu.move_of_exec h with
    | release hpc =>
      obtain ⟨⟨ls, hls, -, hline, -⟩, -⟩ := hy.here hcode hpc
      have hsoon : heldSoon { y.cpu with pc := .loadFlag l } = ls := by simp [heldSoon, hls]
      rw [(released_wire l y.said).2]
      by_cases hl : l = .log
      · subst hl
        have hnot : ¬ InUse .log { y.cpu with pc := .loadFlag .log } := by
          intro huse
          have hnodup := hy.owns.nodup
          rw [hls] at hnodup
          have hmem := huse.2
          rw [hsoon] at hmem
          exact (List.nodup_cons.mp hnodup).1 hmem
        have huse : InUse .log y.cpu := by simp [inUse_idle hpc, hls]
        have hlines : (x.released .log y.said).lines = x.lines ++ [y.said] := by
          simp [SerialState.released]
        refine ⟨?_, .inr ⟨y.said, hline rfl, hlines⟩⟩
        rw [hlines, List.flatten_append, List.flatten_singleton, logging_in_use huse,
          logging_out hnot]
        exact .commit _
      · have hlines : (x.released l y.said).lines = x.lines := by
          simp [SerialState.released, hl]
        have hsame : InUse .log { y.cpu with pc := .loadFlag l } ↔ InUse .log y.cpu := by
          rw [inUse_idle hpc]
          refine ⟨fun huse => huse.1, fun hmem => ⟨hmem, ?_⟩⟩
          rw [hsoon]
          rw [hls] at hmem
          exact (List.mem_cons.mp hmem).resolve_left (Ne.symm hl)
        refine ⟨?_, .inl hlines⟩
        have hafter : Talker.logging { y with
            cpu := { y.cpu with pc := .loadFlag l }, code := rest,
            said := if l = .log then [] else y.said } = y.logging :=
          logging_congr hsame (if_neg hl)
        rw [hlines, hafter]
        exact .same _
  | @more cmd rest x' pos hcode hpc h =>
    obtain ⟨hmessages, hlines⟩ := exec_messages h
    refine ⟨?_, .inl hlines⟩
    rw [hmessages, hlines]
    exact .same y.logging
  | @done cmd rest x' hcode hpc h =>
    obtain ⟨hmessages, hlines⟩ := exec_messages h
    rw [(record_wire _ _).2, record_messages, hmessages, hlines]
    refine ⟨?_, .inl rfl⟩
    by_cases huse : InUse .log y.cpu
    · have hlogged : y.logged = true := by simp [Talker.logged, (inUse_idle hpc).mp huse]
      have htexts : loggedTexts (x.messages ++ (cmd.message.map (Message.mk y.logged)).toList) =
          loggedTexts x.messages ++ cmd.message.toList := by
        cases cmd.message <;> simp [loggedTexts, hlogged]
      rw [htexts, logging_in_use huse,
        logging_in_use (y := { y with code := rest, pos := 0, said := _ })
        huse]
      simp only [hlogged, if_true]
      exact .extend _ _
    · have hlogged : y.logged = false := by
        simpa [Talker.logged] using fun hl => huse ((inUse_idle hpc).mpr hl)
      have htexts : loggedTexts (x.messages ++ (cmd.message.map (Message.mk y.logged)).toList) =
          loggedTexts x.messages := by
        cases cmd.message <;> simp [loggedTexts, hlogged]
      rw [htexts, logging_out huse, logging_out (y := { y with code := rest, pos := 0, said := _ })
        huse]
      exact .same none
  | fails hcode hpc h => exact absurd (hy.here hcode hpc).1.2.1 h
  | call k hk hcode hpc => exact ⟨.same y.logging, .inl rfl⟩
  | @flag v cpu hcode h =>
    refine ⟨?_, .inl rfl⟩
    cases Cpu.move_of_exec h with
    | flag hpc =>
      have hsame : InUse .log { y.cpu with interruptFlag := v } ↔ InUse .log y.cpu := Iff.rfl
      have hafter : Talker.logging { y with cpu := { y.cpu with interruptFlag := v } } =
          y.logging := logging_congr hsame rfl
      rw [hafter]
      exact .same _

/-- The messages said under `log_lock` begin a line. -/
theorem Disciplined.line_begun {held : List KernelLock} {said : List Text} {code : List SerialCmd}
    (h : Disciplined held said code) (hlog : .log ∈ held) : ∃ more, IsLine (said ++ more) := by
  induction code generalizing held said with
  | nil =>
    have hnone : held = [] := h
    simp [hnone] at hlog
  | cons cmd rest ih =>
    cases cmd with
    | acquire l => exact ih h.2.2 (List.mem_cons_of_mem l hlog)
    | release l =>
      obtain ⟨ls, hls, -, hline, hrest⟩ := h
      by_cases hl : l = .log
      · exact ⟨[], by rw [List.append_nil]; exact hline hl⟩
      · rw [if_neg hl] at hrest
        apply ih hrest
        rw [hls] at hlog
        exact (List.mem_cons.mp hlog).resolve_left (Ne.symm hl)
    | work => exact ih h hlog
    | format | assertColor => exact ih h.2.2 hlog
    | halt => exact h.elim
    | formatLine => exact ih h.2.2.2.2.2 hlog
    | sendBuffer t =>
      have hrest := h.2.2.2
      rw [if_pos hlog] at hrest
      obtain ⟨more, hmore⟩ := ih hrest hlog
      exact ⟨[t] ++ more, by rwa [← List.append_assoc]⟩
    | sendCode t =>
      have hrest := h.2
      rw [if_pos hlog] at hrest
      obtain ⟨more, hmore⟩ := ih hrest hlog
      exact ⟨[t] ++ more, by rwa [← List.append_assoc]⟩

end Effects

section Run

variable {κ : Type} {s s' : Sys κ SerialState Talker}

/-- No lock is set, no CPU is in a call, and nothing has been sent. -/
def TalkersStart (s : Sys κ SerialState Talker) : Prop :=
  (∀ l, (s.shared.locks l).lock = false) ∧ s.shared.wire = [] ∧ s.shared.messages = [] ∧
    s.shared.lines = [] ∧ ∀ c, ∃ f, s.locals c = ⟨⟨.idle, [], f⟩, [], 0, []⟩

/-- The line consists of whole messages and a part of one, those sent under `log_lock` of whole
lines and a part of one. -/
structure SerialInv (s : Sys κ SerialState Talker) : Prop where
  ok : s.Holds (fun _ x y => y.Ok x) (fun y z => y.cpu.Apart z.cpu)
  wire : Recorded s.shared.wire (sentTexts s.shared.messages) (fun c => (s.locals c).sending)
  logged : Recorded (loggedTexts s.shared.messages) s.shared.lines.flatten
    (fun c => (s.locals c).logging)
  lines : ∀ said ∈ s.shared.lines, IsLine said

theorem talkerAct_stable : Sys.Stable (@talkerAct κ) (fun _ x y => y.Ok x)
    (fun y z => y.cpu.Apart z.cpu) where
  symm := fun _ _ hap l hl hly => hap l hly hl
  own := fun _ _ _ _ _ hact hy => hy.own hact
  others := fun _ _ _ _ _ _ _ _ hact hy hz hap => hy.others hz hap hact

theorem TalkersStart.inv (h : TalkersStart s) : SerialInv s := by
  obtain ⟨hlocks, hwire, hmessages, hlines, hlocals⟩ := h
  refine ⟨⟨fun c => ?_, fun c d _ l hl => ?_⟩, ⟨fun c p hp => ?_, fun _ => ?_⟩,
    ⟨fun c p hp => ?_, fun _ => ?_⟩, ?_⟩
  · obtain ⟨f, hf⟩ := hlocals c
    rw [hf]
    refine ⟨⟨by simp, by simp, by simp [SpinPc.owned], by simp⟩, rfl, by simp [relies],
      by simp, by simp, by simp, by simp, by simp⟩
  · obtain ⟨f, hf⟩ := hlocals c
    simp [hf] at hl
  · obtain ⟨f, hf⟩ := hlocals c
    simp [hf, sending_nil] at hp
  · simp [hwire, hmessages, sentTexts]
  · obtain ⟨f, hf⟩ := hlocals c
    simp [hf, Talker.logging, InUse] at hp
  · simp [hlines, hmessages, loggedTexts]
  · simp [hlines]

variable [DecidableEq κ]

/-- Two records of a run, one for each of the buffers, are kept in the same way: the mover's part
changes, and no other CPU has one while it does. -/
theorem recorded_move {α : Type} {tape tape' whole whole' : List α}
    {part : Talker → Option (List α)}
    {l : KernelLock} {c : κ} {x : SerialState} {y : Talker} (h : SerialInv s)
    (hact : talkerAct c (s.shared, s.locals c) (x, y))
    (hpart : ∀ {z : Talker} {w : SerialState}, z.Ok w → part z ≠ none → l ∈ z.cpu.held)
    (hrec : Recorded tape whole (fun d => part (s.locals d)))
    (hstep : TapeStep tape whole (part (s.locals c)) tape' whole' (part y)) :
    Recorded tape' whole' (fun d => part ((s.move c x y).locals d)) := by
  have hown := h.ok.1 c
  have hy : y.Ok x := hown.own hact
  have hothers : part (s.locals c) ≠ none ∨ part y ≠ none →
      ∀ d, d ≠ c → part (s.locals d) = none := by
    intro hbusy d hdc
    have hap := h.ok.2 c d hdc.symm
    by_contra hd
    have hl := hpart (h.ok.1 d) hd
    rcases hbusy with hbusy | hbusy
    · exact hap l (hpart hown hbusy) hl
    · exact (hown.others (h.ok.1 d) hap hact).2 l (hpart hy hbusy) hl
  apply (hrec.step hstep hothers).congr
  intro d
  by_cases hdc : d = c
  · subst hdc
    rw [Sys.move_self, Function.update_self]
  · rw [Sys.move_other s x y hdc, Function.update_of_ne hdc]

theorem SerialInv.move {c : κ} {x : SerialState} {y : Talker} (h : SerialInv s)
    (hact : talkerAct c (s.shared, s.locals c) (x, y)) : SerialInv (s.move c x y) := by
  have hown := h.ok.1 c
  obtain ⟨hline, hlines⟩ := TalkerMove.line_step hact hown
  refine ⟨talkerAct_stable.move h.ok hact, ?_, ?_, ?_⟩
  · exact recorded_move (l := .debug) h hact (fun hz => hz.debug_of_sending) h.wire
      (TalkerMove.wire_step hact hown)
  · exact recorded_move (l := .log) h hact (fun _ => Talker.Ok.log_of_logging) h.logged hline
  · intro said hsaid
    rw [Sys.move_shared] at hsaid
    rcases hlines with hsame | ⟨new, hnew, hadd⟩
    · exact h.lines said (hsame ▸ hsaid)
    · have hsaid : said ∈ s.shared.lines ++ [new] := hadd ▸ hsaid
      rcases List.mem_append.mp hsaid with hold | hlast
      · exact h.lines said hold
      · rw [List.mem_singleton.mp hlast]
        exact hnew

/-- For any number of CPUs and in every state they reach: the line consists of whole messages and
at its end the beginning of the one that the owner of `debug_lock` sends. The messages sent under
`log_lock` are, in the same order, the three of each line in turn and at the end the beginning of
the line of the owner of `log_lock`. -/
theorem serial_line_whole (s₀ s : Sys κ SerialState Talker) (hstart : TalkersStart s₀)
    (hrun : Sys.Run talkerAct s₀ s) :
    (∃ p, s.shared.wire = sentTexts s.shared.messages ++ p ∧
      (p ≠ [] → ∃ c m, .debug ∈ (s.locals c).cpu.held ∧ (s.locals c).message = some m ∧
        p <+: m)) ∧
    (∃ said, loggedTexts s.shared.messages = s.shared.lines.flatten ++ said ∧
      (said ≠ [] → ∃ c, .log ∈ (s.locals c).cpu.held ∧
        ∃ more, IsLine (said ++ more))) ∧
    ∀ said ∈ s.shared.lines, IsLine said := by
  have hinv : SerialInv s := hrun.induct (fun _ _ _ _ h hact => h.move hact) hstart.inv
  refine ⟨?_, ?_, hinv.lines⟩
  · obtain ⟨p, hp, hsend⟩ := hinv.wire.split
    refine ⟨p, hp, fun hne => ?_⟩
    obtain ⟨c, hc⟩ := hsend hne
    have hdebug := (hinv.ok.1 c).debug_of_sending (by simp [hc])
    unfold Talker.sending at hc
    split_ifs at hc
    obtain ⟨m, hm, htake⟩ := Option.map_eq_some_iff.mp hc
    exact ⟨c, m, hdebug, hm, htake ▸ List.take_prefix _ m⟩
  · obtain ⟨said, hsaid, hlog⟩ := hinv.logged.split
    refine ⟨said, hsaid, fun hne => ?_⟩
    obtain ⟨c, hc⟩ := hlog hne
    unfold Talker.logging at hc
    split_ifs at hc with huse
    rw [← Option.some.inj hc]
    exact ⟨c, huse.1, (hinv.ok.1 c).disciplined.line_begun huse.2⟩

/-- The first of two CPUs has sent one of the two characters of its message. -/
theorem serial_line_whole_two : ∃ s₀ s : Sys (Fin 2) SerialState Talker, TalkersStart s₀ ∧
    Sys.Run talkerAct s₀ s ∧ s.shared.wire = [0x1B] ∧ s.shared.messages = [] ∧
    ∃ p, s.shared.wire = sentTexts s.shared.messages ++ p ∧
      (p ≠ [] → ∃ c m, .debug ∈ (s.locals c).cpu.held ∧ (s.locals c).message = some m ∧
        p <+: m) := by
  obtain ⟨x, hx⟩ :
      ∃ x : SerialState, x = ⟨fun _ => ⟨false, false⟩, fun _ _ => 0, [], [], []⟩ :=
    ⟨_, rfl⟩
  obtain ⟨locks, hlocks⟩ :
      ∃ locks, locks = Function.update x.locks .debug ⟨true, false⟩ := ⟨_, rfl⟩
  obtain ⟨locks', hlocks'⟩ :
      ∃ locks', locks' = Function.update locks .debug ⟨true, true⟩ := ⟨_, rfl⟩
  obtain ⟨s₀, hs₀⟩ : ∃ s₀ : Sys (Fin 2) SerialState Talker,
    s₀ = ⟨x, fun _ => ⟨⟨.idle, [], true⟩, [], 0, []⟩⟩ := ⟨_, rfl⟩
  obtain ⟨rest, hrest⟩ : ∃ rest, rest = [SerialCmd.sendCode [0x1B, 91], .release .debug] :=
    ⟨_, rfl⟩
  obtain ⟨code, hcode⟩ : ∃ code, code = SerialCmd.assertColor [0x1B, 91] :: rest :=
    ⟨_, rfl⟩
  obtain ⟨s₁, hs₁⟩ : ∃ s₁, s₁ = s₀.move 0 x
    ⟨⟨.idle, [], true⟩, .acquire .debug :: code, 0, []⟩ := ⟨_, rfl⟩
  obtain ⟨s₂, hs₂⟩ : ∃ s₂, s₂ =
      s₁.move 0 x ⟨⟨.testAndSet .debug, [], true⟩, code, 0, []⟩ := ⟨_, rfl⟩
  obtain ⟨s₃, hs₃⟩ : ∃ s₃, s₃ = s₂.move 0 { x with locks := locks }
    ⟨⟨.readFlag .debug, [.debug], true⟩, code, 0, []⟩ := ⟨_, rfl⟩
  obtain ⟨s₄, hs₄⟩ : ∃ s₄, s₄ = s₃.move 0 { x with locks := locks }
    ⟨⟨.storeFlag .debug true, [.debug], true⟩, code, 0, []⟩ := ⟨_, rfl⟩
  obtain ⟨s₅, hs₅⟩ : ∃ s₅, s₅ = s₄.move 0 { x with locks := locks' }
    ⟨⟨.cli .debug, [.debug], true⟩, code, 0, []⟩ := ⟨_, rfl⟩
  obtain ⟨s₆, hs₆⟩ : ∃ s₆, s₆ = s₅.move 0 { x with locks := locks' }
    ⟨⟨.idle, [.debug], false⟩, code, 0, []⟩ := ⟨_, rfl⟩
  obtain ⟨s₇, hs₇⟩ : ∃ s₇, s₇ = s₆.move 0 { x with locks := locks' }
    ⟨⟨.idle, [.debug], false⟩, rest, 0, []⟩ := ⟨_, rfl⟩
  obtain ⟨s₈, hs₈⟩ : ∃ s₈, s₈ = s₇.move 0 { x with locks := locks', wire := [0x1B] }
    ⟨⟨.idle, [.debug], false⟩, rest, 1, []⟩ := ⟨_, rfl⟩
  have hstart : TalkersStart s₀ := by
    rw [hs₀, hx]
    exact ⟨fun _ => rfl, rfl, rfl, rfl, fun _ => ⟨true, rfl⟩⟩
  have hvalid : (SerialCall.debugSetColor [0x1B, 91]).Valid := by
    refine ⟨by decide, ?_⟩
    simp [ZeroFree]
  have hassert : (SerialCmd.assertColor [0x1B, 91]).exec { x with locks := locks' } 0 =
      some ({ x with locks := locks' }, none) := by
    rw [SerialCmd.exec, if_pos hvalid.1]
  have h₁ : Sys.Step talkerAct s₀ s₁ := by
    refine ⟨0, _, _, ?_, hs₁⟩
    rw [hs₀, hcode, hrest]
    exact .call (.debugSetColor [0x1B, 91]) hvalid rfl rfl
  have h₂ : Sys.Step talkerAct s₁ s₂ := by
    refine ⟨0, _, _, ?_, hs₂⟩
    rw [hs₁, Sys.move_self, Sys.move_shared]
    exact .acquire rfl rfl
  have h₃ : Sys.Step talkerAct s₂ s₃ := by
    refine ⟨0, _, _, ?_, hs₃⟩
    rw [hs₂, Sys.move_self, Sys.move_shared]
    exact .spin (by simp [Cpu.step, hlocks, hx])
  have h₄ : Sys.Step talkerAct s₃ s₄ := by
    refine ⟨0, _, _, ?_, hs₄⟩
    rw [hs₃, Sys.move_self, Sys.move_shared]
    exact .spin rfl
  have h₅ : Sys.Step talkerAct s₄ s₅ := by
    refine ⟨0, _, _, ?_, hs₅⟩
    rw [hs₄, Sys.move_self, Sys.move_shared]
    exact .spin (by simp [Cpu.step, hlocks', hlocks])
  have h₆ : Sys.Step talkerAct s₅ s₆ := by
    refine ⟨0, _, _, ?_, hs₆⟩
    rw [hs₅, Sys.move_self, Sys.move_shared]
    exact .spin rfl
  have h₇ : Sys.Step talkerAct s₆ s₇ := by
    refine ⟨0, _, _, ?_, hs₇⟩
    rw [hs₆, Sys.move_self, Sys.move_shared, hcode]
    exact TalkerMove.done (x := { x with locks := locks' })
      (y := ⟨⟨.idle, [.debug], false⟩, .assertColor [0x1B, 91] :: rest, 0, []⟩) rfl rfl
        hassert
  have h₈ : Sys.Step talkerAct s₇ s₈ := by
    refine ⟨0, _, _, ?_, hs₈⟩
    rw [hs₇, Sys.move_self, Sys.move_shared, hrest]
    exact .more rfl rfl (by simp [SerialCmd.exec, SerialState.send, hx])
  have hrun : Sys.Run talkerAct s₀ s₈ :=
    (((((((Relation.ReflTransGen.single h₁).tail h₂).tail
    h₃).tail h₄).tail h₅).tail h₆).tail h₇).tail h₈
  have hshared : s₈.shared = { x with locks := locks', wire := [0x1B] } := by
    rw [hs₈, Sys.move_shared]
  refine ⟨s₀, s₈, hstart, hrun, by rw [hshared], by rw [hshared, hx], ?_⟩
  exact (serial_line_whole s₀ s₈ hstart hrun).1

end Run

end ApoptOS.Serial
