import ApoptOS.Libk.SerialLine

namespace ApoptOS.Serial

open Framework Printf

section Exec

variable {x x' : SerialState} {y y' : Talker} {cmd : SerialCmd} {rest : List SerialCmd} {pos : Nat}

/-- What a CPU at a command knows about it. -/
theorem Talker.Ok.here (hy : y.Ok x) (hcode : y.code = cmd :: rest) (hpc : y.cpu.pc = .idle) :
    Disciplined y.cpu.held y.said (cmd :: rest) ∧ cmd.At x y.pos := by
  have hd := hy.disciplined
  rw [hcode] at hd
  simp only [heldSoon, hpc] at hd
  exact ⟨hd, hy.place cmd rest hcode⟩

/-- A step within a command takes it one character on, and sends it if the command sends. -/
theorem exec_more (hy : y.Ok x) (hcode : y.code = cmd :: rest) (hpc : y.cpu.pc = .idle)
    (h : cmd.exec x y.pos = some (x', some pos)) : cmd.At x' pos ∧
      ∀ m, cmd.message = some m → ∃ c, x' = x.send c ∧ m[y.pos]? = some c ∧
        pos = y.pos + 1 := by
  obtain ⟨hd, hat⟩ := hy.here hcode hpc
  have hrelies := fun l t => hy.buffers l t
  rw [hcode] at hrelies
  cases cmd with
  | acquire | release | halt => simp [SerialCmd.exec] at h
  | work => simp [SerialCmd.exec] at h
  | assertColor t =>
    simp only [SerialCmd.exec] at h
    split_ifs at h
    simp at h
  | format l t =>
    simp only [SerialCmd.exec] at h
    cases hc : t[y.pos]? with
    | none => simp [hc] at h
    | some c =>
      simp only [hc, Option.some.injEq, Prod.mk.injEq] at h
      obtain ⟨rfl, rfl⟩ := h
      have hlt : y.pos < t.length := (List.getElem?_eq_some_iff.mp hc).1
      refine ⟨⟨hlt, ?_⟩, by simp [SerialCmd.message]⟩
      rw [x.store_same]
      exact stored_more hat.2 hc
  | formatLine head t =>
    have hlog : Holds (x.buffer .log) t := hrelies .log t (by simp [relies])
    have hget : ∃ c, (head ++ t)[y.pos]? = some c ∧ x' = x.store .debug y.pos c ∧
        pos = y.pos + 1 := by
      simp only [SerialCmd.exec] at h
      cases hc : head[y.pos]? with
      | some c =>
        simp only [hc, Option.some.injEq, Prod.mk.injEq] at h
        have hlt : y.pos < head.length := (List.getElem?_eq_some_iff.mp hc).1
        exact ⟨c, by rw [List.getElem?_append_left hlt, hc], h.1.symm, h.2.symm⟩
      | none =>
        have hge : head.length ≤ y.pos := List.getElem?_eq_none_iff.mp hc
        have hle : y.pos - head.length ≤ t.length := by
          have hpos := hat.1
          rw [List.length_append] at hpos
          omega
        simp only [hc, Option.some.injEq, Prod.mk.injEq] at h
        by_cases hne : x.buffer .log (y.pos - head.length) ≠ 0
        · rw [if_pos hne, Option.some.injEq] at h
          have hchar := (hlog.read hd.2.2.1 hle).1 hne
          exact ⟨_, by rw [List.getElem?_append_right hge, hchar], h.1.symm, h.2.symm⟩
        · rw [if_neg hne] at h
          simp at h
    obtain ⟨c, hc, rfl, rfl⟩ := hget
    have hlt : y.pos < (head ++ t).length := (List.getElem?_eq_some_iff.mp hc).1
    refine ⟨⟨hlt, ?_⟩, by simp [SerialCmd.message]⟩
    rw [x.store_same]
    exact stored_more hat.2 hc
  | sendBuffer t =>
    have hdebug : Holds (x.buffer .debug) t := hrelies .debug t (by simp [relies])
    obtain ⟨hread, -⟩ := hdebug.read hd.2.1 hat
    simp only [SerialCmd.exec] at h
    by_cases hne : x.buffer .debug y.pos ≠ 0
    · simp only [if_pos hne, Option.some.injEq, Prod.mk.injEq] at h
      obtain ⟨rfl, rfl⟩ := h
      have hchar := hread hne
      refine ⟨(List.getElem?_eq_some_iff.mp hchar).1, fun m hm => ?_⟩
      obtain rfl := Option.some.inj hm
      exact ⟨_, rfl, hchar, rfl⟩
    · rw [if_neg hne] at h
      simp at h
  | sendCode t =>
    simp only [SerialCmd.exec] at h
    cases hc : t[y.pos]? with
    | none => simp [hc] at h
    | some c =>
      simp only [hc, Option.some.injEq, Prod.mk.injEq] at h
      obtain ⟨rfl, rfl⟩ := h
      refine ⟨(List.getElem?_eq_some_iff.mp hc).1, fun m hm => ?_⟩
      obtain rfl := Option.some.inj hm
      exact ⟨c, rfl, hc, rfl⟩

/-- A command ends when all of its text is in the buffer, or has been sent. -/
theorem exec_done (hy : y.Ok x) (hcode : y.code = cmd :: rest) (hpc : y.cpu.pc = .idle)
    (h : cmd.exec x y.pos = some (x', none)) :
    (∀ l t, relies l rest = some t → Holds (x'.buffer l) t) ∧
      ∀ m, cmd.message = some m → x' = x ∧ y.pos = m.length := by
  obtain ⟨hd, hat⟩ := hy.here hcode hpc
  have hrelies := fun l t => hy.buffers l t
  rw [hcode] at hrelies
  cases cmd with
  | acquire | release | halt => simp [SerialCmd.exec] at h
  | work =>
    simp only [SerialCmd.exec, Option.some.injEq, Prod.mk.injEq, and_true] at h
    exact ⟨fun l t ht => h ▸ hrelies l t ht, by simp [SerialCmd.message]⟩
  | assertColor t =>
    simp only [SerialCmd.exec, if_pos hd.2.1, Option.some.injEq, Prod.mk.injEq, and_true] at h
    exact ⟨fun l t ht => h ▸ hrelies l t ht, by simp [SerialCmd.message]⟩
  | format l t =>
    simp only [SerialCmd.exec] at h
    cases hc : t[y.pos]? with
    | some c => simp [hc] at h
    | none =>
      simp only [hc, Option.some.injEq, Prod.mk.injEq, and_true] at h
      have hend : y.pos = t.length := by
        have hge := List.getElem?_eq_none_iff.mp hc
        exact Nat.le_antisymm hat.1 hge
      refine ⟨fun k u hu => ?_, by simp [SerialCmd.message]⟩
      rw [← h]
      by_cases hkl : k = l
      · subst hkl
        rw [hd.2.1 u hu, x.store_same, hend]
        exact stored_all (hend ▸ hat.2)
      · rw [x.store_other hkl]
        exact hrelies k u (by simpa [relies, hkl] using hu)
  | formatLine head t =>
    have hlog : Holds (x.buffer .log) t := hrelies .log t (by simp [relies])
    obtain ⟨-, -, hfree, hu₁, hu₂, -⟩ := hd
    simp only [SerialCmd.exec] at h
    cases hc : head[y.pos]? with
    | some c => simp [hc] at h
    | none =>
      have hge : head.length ≤ y.pos := List.getElem?_eq_none_iff.mp hc
      have hpos := hat.1
      rw [List.length_append] at hpos
      simp only [hc, Option.some.injEq, Prod.mk.injEq] at h
      by_cases hne : x.buffer .log (y.pos - head.length) ≠ 0
      · rw [if_pos hne] at h
        simp at h
      have hzero := not_not.mp hne
      have hend : y.pos = (head ++ t).length := by
        have hle : y.pos - head.length ≤ t.length := by omega
        have hlast := (hlog.read hfree hle).2 hzero
        rw [List.length_append]
        omega
      refine ⟨fun k u hu => ?_, by simp [SerialCmd.message]⟩
      rw [← h.1, hzero]
      cases k with
      | smp =>
        rw [x.store_other (by simp)]
        exact hrelies .smp u (by simpa [relies] using hu)
      | log =>
        rw [x.store_other (by simp), hu₂ u hu]
        exact hlog
      | debug =>
        rw [hu₁ u hu, x.store_same, hend]
        exact stored_all (hend ▸ hat.2)
  | sendBuffer t =>
    have hdebug : Holds (x.buffer .debug) t := hrelies .debug t (by simp [relies])
    obtain ⟨-, hfree, hu, -⟩ := hd
    simp only [SerialCmd.exec] at h
    by_cases hne : x.buffer .debug y.pos ≠ 0
    · rw [if_pos hne] at h
      simp at h
    simp only [if_neg hne, Option.some.injEq, Prod.mk.injEq, and_true] at h
    subst h
    refine ⟨fun k u ht => ?_, fun m hm => ⟨rfl, ?_⟩⟩
    · by_cases hk : k = .debug
      · subst hk
        rw [hu u ht]
        exact hdebug
      · exact hrelies k u (by simpa [relies, hk] using ht)
    · obtain rfl := Option.some.inj hm
      exact (hdebug.read hfree hat).2 (not_not.mp hne)
  | sendCode t =>
    simp only [SerialCmd.exec] at h
    cases hc : t[y.pos]? with
    | some c => simp [hc] at h
    | none =>
      simp only [hc, Option.some.injEq, Prod.mk.injEq, and_true] at h
      subst h
      refine ⟨fun k u ht => hrelies k u ht, fun m hm => ⟨rfl, ?_⟩⟩
      obtain rfl := Option.some.inj hm
      exact Nat.le_antisymm hat (List.getElem?_eq_none_iff.mp hc)

end Exec

section Moves

variable {x x' : SerialState} {y y' : Talker} {cmd : SerialCmd} {rest : List SerialCmd}
  {held : List KernelLock} {said : List Text} {l : KernelLock} {pos : Nat}

/-- A buffer that a command writes is one that nothing is relied on in yet. -/
theorem relies_writes (h : cmd.Writes l) : relies l (cmd :: rest) = none := by
  cases cmd with
  | format k t =>
    obtain rfl : l = k := h
    simp [relies]
  | formatLine head t =>
    obtain rfl : l = .debug := h
    simp [relies]
  | acquire | release | work | sendBuffer | assertColor | sendCode | halt => exact h.elim

/-- What is said under `log_lock` grows with each message. -/
theorem Disciplined.done {r : SerialState × Option Nat} (h : Disciplined held said (cmd :: rest))
    (hexec : cmd.exec x pos = some r) :
    Disciplined held (if .log ∈ held then said ++ cmd.message.toList else said) rest := by
  cases cmd with
  | acquire | release | halt => simp [SerialCmd.exec] at hexec
  | work =>
    have hrest : Disciplined held said rest := h
    simpa [SerialCmd.message] using hrest
  | assertColor => simpa [SerialCmd.message] using h.2.2
  | format => simpa [SerialCmd.message] using h.2.2
  | formatLine => simpa [SerialCmd.message] using h.2.2.2.2.2
  | sendBuffer => exact h.2.2.2
  | sendCode => exact h.2

theorem inUse_idle (hpc : y.cpu.pc = .idle) : InUse l y.cpu ↔ l ∈ y.cpu.held := by
  simp [InUse, heldSoon, hpc]

theorem Talker.Ok.not_idle (hy : y.Ok x) (hpc : y.cpu.pc ≠ .idle) : y.pos = 0 := by
  by_contra hpos
  exact hpc (hy.idle hpos)

theorem Talker.Ok.spin {locks : KernelLock → Spinlock} {cpu : Cpu KernelLock} (hy : y.Ok x)
    (hm : y.cpu.Move x.locks .step (locks, cpu)) :
    Talker.Ok { x with locks := locks } { y with cpu := cpu } := by
  have hsoon := heldSoon_step hy.owns hm
  have hpos : y.pos = 0 := by
    apply hy.not_idle
    cases hm <;> simp [*]
  refine ⟨hy.owns.move (a := .step) trivial hm, ?_, hy.buffers, ?_, ?_, hy.fresh, ?_, ?_⟩
  · rw [hsoon]
    exact hy.disciplined
  · intro l hpc
    cases hm with
    | spin => exact hy.waiting l hpc
    | take | readFlag | storeFlag | cli | loadFlag | stiOrCli | clear => simp at hpc
  · intro cmd rest _
    rw [hpos]
    exact at_zero _ cmd
  · exact fun hne => absurd hpos hne
  · intro hnot
    exact hy.silent (fun h => hnot ((inUse_step hy.owns hm).1 h))

theorem Talker.Ok.acquire (hy : y.Ok x) (hcode : y.code = .acquire l :: rest)
    (hpc : y.cpu.pc = .idle) :
    Talker.Ok x { y with cpu := { y.cpu with pc := .testAndSet l }, code := rest } := by
  obtain ⟨⟨hl, hnone, hrest⟩, hpos⟩ := hy.here hcode hpc
  have hpos : y.pos = 0 := hpos
  refine ⟨hy.owns.move (a := .acquire l) hl (.acquire hpc), hrest, ?_, ?_, ?_, fun _ => hpos,
    fun hne => absurd hpos hne, ?_⟩
  · intro k t ht
    apply hy.buffers k t
    rwa [hcode, relies]
  · intro k hk
    cases hk
    exact hnone
  · intro cmd rest' _
    rw [hpos]
    exact at_zero x cmd
  · intro hnot
    apply hy.silent
    intro huse
    have hlog := (inUse_idle hpc).mp huse
    exact hnot ⟨hlog, List.mem_cons_of_mem l hlog⟩

theorem Talker.Ok.release (hy : y.Ok x) (hcode : y.code = .release l :: rest)
    (hpc : y.cpu.pc = .idle) :
    Talker.Ok (x.released l y.said)
      { y with
        cpu := { y.cpu with pc := .loadFlag l }
        code := rest
        said := if l = .log then [] else y.said } := by
  obtain ⟨⟨ls, hls, hnone, -, hrest⟩, hpos⟩ := hy.here hcode hpc
  have hpos : y.pos = 0 := hpos
  have hsoon : heldSoon { y.cpu with pc := .loadFlag l } = ls := by simp [heldSoon, hls]
  have hnest : (SpinAct.release l).WellNested y.cpu := by simp [SpinAct.WellNested, hls]
  refine ⟨?_, ?_, ?_, ?_, ?_, fun _ => hpos, fun hne => absurd hpos hne, ?_⟩
  · rw [released_locks]
    exact hy.owns.move hnest (.release hpc)
  · rw [hsoon]
    exact hrest
  · intro k t ht
    rw [released_buffer]
    apply hy.buffers k t
    rwa [hcode, relies]
  · intro k hk
    simp at hk
  · intro cmd rest' _
    rw [hpos]
    exact at_zero _ cmd
  · intro hnot
    by_cases hl : l = .log
    · simp [hl]
    · simp only [if_neg hl]
      apply hy.silent
      intro huse
      have hlog := (inUse_idle hpc).mp huse
      have htail : KernelLock.log ∈ ls := by
        rw [hls] at hlog
        exact (List.mem_cons.mp hlog).resolve_left (Ne.symm hl)
      exact hnot ⟨hlog, by rwa [hsoon]⟩

theorem Talker.Ok.more (hy : y.Ok x) (hcode : y.code = cmd :: rest) (hpc : y.cpu.pc = .idle)
    (h : cmd.exec x y.pos = some (x', some pos)) : Talker.Ok x' { y with pos := pos } := by
  refine ⟨by rw [exec_locks h]; exact hy.owns, hy.disciplined, ?_, hy.waiting, ?_, ?_,
    fun _ => hpc, hy.silent⟩
  · intro l t ht
    have hkeep : x'.buffer l = x.buffer l := by
      rcases exec_cases h with ⟨k, c, hw, rfl⟩ | ⟨c, -, rfl, -⟩ | ⟨rfl, -⟩
      · apply x.store_other
        intro hlk
        rw [hlk, hcode, relies_writes hw] at ht
        simp at ht
      · rfl
      · rfl
    rw [hkeep]
    exact hy.buffers l t ht
  · intro cmd' rest' hcode'
    have hsame : cmd :: rest = cmd' :: rest' := hcode.symm.trans hcode'
    cases hsame
    exact (exec_more hy hcode hpc h).1
  · intro hnil
    have hnil : y.code = [] := hnil
    rw [hcode] at hnil
    simp at hnil

theorem Talker.Ok.done (hy : y.Ok x) (hcode : y.code = cmd :: rest) (hpc : y.cpu.pc = .idle)
    (h : cmd.exec x y.pos = some (x', none)) :
    Talker.Ok (x'.record y.logged cmd.message)
      { y with
        code := rest
        pos := 0
        said := if y.logged then y.said ++ cmd.message.toList else y.said } := by
  have hd := (hy.here hcode hpc).1.done h
  have hsoon : heldSoon y.cpu = y.cpu.held := by simp [heldSoon, hpc]
  refine ⟨?_, ?_, ?_, ?_, fun cmd' _ _ => at_zero _ cmd', fun _ => rfl,
    fun hne => absurd rfl hne, ?_⟩
  · rw [record_locks, exec_locks h]
    exact hy.owns
  · simpa [Talker.logged, hsoon] using hd
  · intro l t ht
    rw [record_buffer]
    exact (exec_done hy hcode hpc h).1 l t ht
  · intro l hl
    rw [hpc] at hl
    simp at hl
  · intro hnot
    have hlog : KernelLock.log ∉ y.cpu.held := fun hl => hnot ((inUse_idle hpc).mpr hl)
    simpa [Talker.logged, hlog] using hy.silent hnot

theorem Talker.Ok.call (hy : y.Ok x) {k : SerialCall} (hk : k.Valid) (hcode : y.code = [])
    (hpc : y.cpu.pc = .idle) : Talker.Ok x { y with code := k.code } := by
  have hd := hy.disciplined
  rw [hcode] at hd
  have hsoon : heldSoon y.cpu = [] := hd
  have hheld : y.cpu.held = [] := by simpa [heldSoon, hpc] using hsoon
  have hsaid : y.said = [] := hy.silent (by simp [inUse_idle hpc, hheld])
  have hcall := disciplined_call hk
  refine ⟨hy.owns, ?_, ?_, ?_, ?_, fun _ => hy.fresh hcode, hy.idle, hy.silent⟩
  · simp only [hsoon, hsaid]
    exact hcall
  · intro l t ht
    simpa using hcall.held_of_relies ht
  · intro l hl
    rw [hpc] at hl
    simp at hl
  · intro cmd rest _
    simp only [hy.fresh hcode]
    exact at_zero x cmd

theorem Talker.Ok.flag (hy : y.Ok x) {v : Bool} (hcode : y.code = []) (hpc : y.cpu.pc = .idle) :
    Talker.Ok x { y with cpu := { y.cpu with interruptFlag := v } } := by
  have hd := hy.disciplined
  rw [hcode] at hd
  have hsoon : heldSoon y.cpu = [] := hd
  have hheld : y.cpu.held = [] := by simpa [heldSoon, hpc] using hsoon
  exact ⟨hy.owns.move (a := .flag v) hheld (.flag hpc), hy.disciplined, hy.buffers, hy.waiting,
    hy.place, hy.fresh, hy.idle, hy.silent⟩

/-- A CPU keeps its own condition. -/
theorem Talker.Ok.own (hy : y.Ok x) (h : TalkerMove x y (x', y')) : y'.Ok x' := by
  cases h with
  | spin h => exact hy.spin (Cpu.move_of_step h)
  | acquire hcode h =>
    cases Cpu.move_of_exec h with
    | acquire hpc => exact hy.acquire hcode hpc
  | release hcode h =>
    cases Cpu.move_of_exec h with
    | release hpc => exact hy.release hcode hpc
  | more hcode hpc h => exact hy.more hcode hpc h
  | done hcode hpc h => exact hy.done hcode hpc h
  | fails hcode hpc h => exact absurd (hy.here hcode hpc).1.2.1 h
  | call k hk hcode hpc => exact hy.call hk hcode hpc
  | flag hcode h =>
    cases Cpu.move_of_exec h with
    | flag hpc => exact hy.flag hcode hpc

end Moves

end ApoptOS.Serial
