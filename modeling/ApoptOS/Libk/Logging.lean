import ApoptOS.Libk.Spinlock

namespace ApoptOS

open Framework

/-- The locks of the logging code and of the start-up of the CPUs. -/
inductive KernelLock where
  | smp
  | log
  | debug
  deriving DecidableEq, Repr

/-- The order the call graph takes them in. -/
def KernelLock.rank : KernelLock → Nat
  | .smp => 0
  | .log => 1
  | .debug => 2

inductive LogStatus where
  | info
  | warning
  | panic
  | success
  | fail
  deriving DecidableEq, Repr

/-- A function as its locks see it; `work` stands for code that takes none, and
`halt` for the endless loop after a panic. -/
inductive LockCmd where
  | acquire (l : KernelLock)
  | release (l : KernelLock)
  | work
  | halt
  deriving DecidableEq, Repr

/-- `vsnprintf` and `com_send_string` under the lock. -/
def debug : List LockCmd := [.acquire .debug, .work, .release .debug]

/-- With a valid colour code the assertion passes. -/
def debugSetColor : List LockCmd := [.acquire .debug, .work, .release .debug]

def logImpl (status : LogStatus) : List LockCmd :=
  [.acquire .log, .work] ++ debugSetColor ++ debug ++
    (if status = .panic then [.halt] else []) ++ debugSetColor ++ [.release .log]

/-- The critical section of a turn of the loop in `smp_init`, or of `ap_init`, that
logs `logs`: one line for the boot CPU and for each other one, and none in the turns
that only set `goto_address`. -/
def smpSection (logs : List LogStatus) : List LockCmd :=
  [.acquire .smp, .work] ++ logs.flatMap (fun status => logImpl status ++ [.work]) ++
    [.release .smp]

inductive KernelCall where
  | debug
  | debugSetColor
  | logImpl (status : LogStatus)
  | smpSection (logs : List LogStatus)

def KernelCall.code : KernelCall → List LockCmd
  | .debug => ApoptOS.debug
  | .debugSetColor => ApoptOS.debugSetColor
  | .logImpl status => ApoptOS.logImpl status
  | .smpSection logs => ApoptOS.smpSection logs

def KernelCall.NoPanic : KernelCall → Prop
  | .debug | .debugSetColor => True
  | .logImpl status => status ≠ .panic
  | .smpSection logs => .panic ∉ logs

/-- A CPU and what is left of the call it is in. -/
structure Runner where
  cpu : Cpu KernelLock
  code : List LockCmd

/-- What a CPU does: a step inside a spinlock function, the next command of its
call, another call when it is done, or anything with its interrupt flag between
calls. -/
inductive RunnerMove (x : KernelLock → Spinlock) (y : Runner) :
    (KernelLock → Spinlock) × Runner → Prop where
  | spin {x' : KernelLock → Spinlock} {cpu : Cpu KernelLock} (h : y.cpu.step x = some (x', cpu)) :
      RunnerMove x y (x', { y with cpu := cpu })
  | acquire {l : KernelLock} {rest : List LockCmd} {cpu : Cpu KernelLock}
      (hcode : y.code = .acquire l :: rest) (h : y.cpu.exec x (.acquire l) = some (x, cpu)) :
      RunnerMove x y (x, ⟨cpu, rest⟩)
  | release {l : KernelLock} {rest : List LockCmd} {cpu : Cpu KernelLock}
      (hcode : y.code = .release l :: rest) (h : y.cpu.exec x (.release l) = some (x, cpu)) :
      RunnerMove x y (x, ⟨cpu, rest⟩)
  | work {rest : List LockCmd} (hcode : y.code = .work :: rest) (hpc : y.cpu.pc = .idle) :
      RunnerMove x y (x, { y with code := rest })
  | call (k : KernelCall) (hk : k.NoPanic) (hcode : y.code = []) (hpc : y.cpu.pc = .idle) :
      RunnerMove x y (x, { y with code := k.code })
  | flag {v : Bool} {cpu : Cpu KernelLock} (hcode : y.code = [])
      (h : y.cpu.exec x (.flag v) = some (x, cpu)) : RunnerMove x y (x, { y with cpu := cpu })

def runnerAct {κ : Type} (_ : κ) (before after : (KernelLock → Spinlock) × Runner) : Prop :=
  RunnerMove before.1 before.2 after

/-- With the locks `held`, the commands take locks in ascending order, release
the last one first and end with none. -/
def InOrder (held : List KernelLock) : List LockCmd → Prop
  | [] => held = []
  | .acquire l :: rest => (∀ k ∈ held, k.rank < l.rank) ∧ InOrder (l :: held) rest
  | .release l :: rest => ∃ ls, held = l :: ls ∧ InOrder ls rest
  | .work :: rest => InOrder held rest
  | .halt :: _ => False

section Order

variable {held : List KernelLock} {rest : List LockCmd}

theorem inOrder_debug (h : ∀ k ∈ held, k.rank < 2) (hrest : InOrder held rest) :
    InOrder held (debug ++ rest) := ⟨h, held, rfl, hrest⟩

theorem inOrder_logImpl {status : LogStatus} (hs : status ≠ .panic)
    (h : ∀ k ∈ held, k.rank < 1) (hrest : InOrder held rest) :
    InOrder held (logImpl status ++ rest) := by
  have hlog : ∀ k ∈ KernelLock.log :: held, k.rank < 2 := by
    intro k hk
    rcases List.mem_cons.mp hk with rfl | hk
    · decide
    · exact Nat.lt_succ_of_lt (h k hk)
  have hend : InOrder (.log :: held) ([.release .log] ++ rest) := ⟨held, rfl, hrest⟩
  simp only [logImpl, if_neg hs, List.append_nil, List.append_assoc]
  exact ⟨h, inOrder_debug hlog (inOrder_debug hlog (inOrder_debug hlog hend))⟩

theorem inOrder_logs {logs : List LogStatus} (hlogs : .panic ∉ logs)
    (hrest : InOrder [.smp] rest) :
    InOrder [.smp] (logs.flatMap (fun status => logImpl status ++ [.work]) ++ rest) := by
  induction logs with
  | nil => exact hrest
  | cons status logs ih =>
    obtain ⟨hne, hlogs⟩ := not_or.mp (fun h => hlogs (List.mem_cons.mpr h))
    simp only [List.flatMap_cons, List.append_assoc]
    refine inOrder_logImpl (fun he => hne he.symm) (by decide) ?_
    exact ih hlogs

/-- Every call keeps to the order. -/
theorem inOrder_code (k : KernelCall) (hk : k.NoPanic) : InOrder [] k.code := by
  have hnone : ∀ n, ∀ k ∈ ([] : List KernelLock), k.rank < n := by simp
  have hend : InOrder [] [] := rfl
  have hdebug := inOrder_debug (hnone 2) hend
  cases k with
  | debug => exact hdebug
  | debugSetColor => exact hdebug
  | logImpl status =>
    have h := inOrder_logImpl hk (hnone 1) hend
    rwa [List.append_nil] at h
  | smpSection logs =>
    refine ⟨by simp, ?_⟩
    exact inOrder_logs hk ⟨[], rfl, rfl⟩

end Order

/-- What is left of the call is in order, from inside a spinlock function too. -/
def Runner.Ordered (y : Runner) : Prop :=
  match y.cpu.pc with
  | .idle | .readFlag _ | .storeFlag _ _ | .cli _ => InOrder y.cpu.held y.code
  | .testAndSet l => (∀ k ∈ y.cpu.held, k.rank < l.rank) ∧ InOrder (l :: y.cpu.held) y.code
  | .loadFlag l | .stiOrCli l _ | .clear l => ∃ ls, y.cpu.held = l :: ls ∧ InOrder ls y.code

section Moves

variable {x x' : KernelLock → Spinlock} {y y' : Runner}

/-- On its own a CPU leaves the locks alone or uses them in a well-nested way. -/
theorem RunnerMove.cpu_move (h : RunnerMove x y (x', y')) (hord : y.Ordered) :
    (x' = x ∧ y'.cpu = y.cpu) ∨
      ∃ a : SpinAct KernelLock, a.WellNested y.cpu ∧ y.cpu.Move x a (x', y'.cpu) := by
  cases h with
  | spin h => exact .inr ⟨.step, trivial, Cpu.move_of_step h⟩
  | @acquire l rest cpu hcode h =>
    have hm := Cpu.move_of_exec h
    refine .inr ⟨.acquire l, ?_, hm⟩
    cases hm with
    | acquire hpc =>
      simp only [Runner.Ordered, hpc, hcode] at hord
      exact fun hl => lt_irrefl _ (hord.1 l hl)
  | @release l rest cpu hcode h =>
    have hm := Cpu.move_of_exec h
    refine .inr ⟨.release l, ?_, hm⟩
    cases hm with
    | release hpc =>
      simp only [Runner.Ordered, hpc, hcode] at hord
      obtain ⟨ls, hls, -⟩ := hord
      simp [SpinAct.WellNested, hls]
  | work | call => exact .inl ⟨rfl, rfl⟩
  | @flag v cpu hcode h =>
    have hm := Cpu.move_of_exec h
    refine .inr ⟨.flag v, ?_, hm⟩
    cases hm with
    | flag hpc =>
      simp only [Runner.Ordered, hpc, hcode] at hord
      exact hord

/-- A step inside a spinlock function takes up the order where the call left it. -/
theorem Runner.Ordered.step {cpu : Cpu KernelLock} (hord : y.Ordered)
    (hm : y.cpu.Move x .step (x', cpu)) : Runner.Ordered { y with cpu := cpu } := by
  unfold Runner.Ordered at hord ⊢
  cases hm with
  | spin hpc _ => exact hord
  | take hpc _ =>
    simp only [hpc] at hord
    exact hord.2
  | readFlag hpc | storeFlag hpc | cli hpc | loadFlag hpc | stiOrCli hpc =>
    simpa only [hpc] using hord
  | @clear l hpc =>
    simp only [hpc] at hord ⊢
    obtain ⟨ls, hls, hrest⟩ := hord
    rwa [hls, List.erase_cons_head]

theorem Runner.Ordered.move (hord : y.Ordered) (h : RunnerMove x y (x', y')) : y'.Ordered := by
  cases h with
  | spin h => exact hord.step (Cpu.move_of_step h)
  | acquire hcode h =>
    cases Cpu.move_of_exec h with
    | acquire hpc =>
      simp only [Runner.Ordered, hpc, hcode] at hord
      exact hord
  | release hcode h =>
    cases Cpu.move_of_exec h with
    | release hpc =>
      simp only [Runner.Ordered, hpc, hcode] at hord
      exact hord
  | work hcode hpc =>
    simp only [Runner.Ordered, hpc, hcode] at hord ⊢
    exact hord
  | call k hk hcode hpc =>
    simp only [Runner.Ordered, hpc, hcode] at hord ⊢
    have hnone : y.cpu.held = [] := hord
    rw [hnone]
    exact inOrder_code k hk
  | flag hcode h =>
    cases Cpu.move_of_exec h with
    | flag hpc =>
      simp only [Runner.Ordered, hpc] at hord ⊢
      exact hord

end Moves

/-- A byte found set is set by a CPU that owns the lock, or was set before. -/
theorem Cpu.Move.lock_set {ι : Type} [DecidableEq ι] {x x' : ι → Spinlock} {y y' : Cpu ι}
    {a : SpinAct ι} {k : ι} (hm : y.Move x a (x', y')) (hk : (x' k).lock = true) :
    k ∈ y'.held ∨ ((x k).lock = true ∧ (k ∈ y.held → k ∈ y'.held)) := by
  cases hm with
  | acquire | release | flag | spin | readFlag | cli | loadFlag | stiOrCli =>
    exact .inr ⟨hk, id⟩
  | @take l hpc _ =>
    by_cases hkl : k = l
    · exact .inl (by simp [hkl])
    · rw [Function.update_of_ne hkl] at hk
      exact .inr ⟨hk, fun h => List.mem_cons_of_mem l h⟩
  | @storeFlag l f hpc =>
    refine .inr ⟨?_, id⟩
    by_cases hkl : k = l
    · rwa [hkl, Function.update_self, ← hkl] at hk
    · rwa [Function.update_of_ne hkl] at hk
  | @clear l hpc =>
    by_cases hkl : k = l
    · simp [hkl] at hk
    · rw [Function.update_of_ne hkl] at hk
      exact .inr ⟨hk, fun h => (List.mem_erase_of_ne hkl).mpr h⟩

section Deadlock

variable {κ : Type} {s s' : Sys κ (KernelLock → Spinlock) Runner}

/-- No lock is set, and no CPU is in a call. -/
def RunnersStart (s : Sys κ (KernelLock → Spinlock) Runner) : Prop :=
  (∀ l, (s.shared l).lock = false) ∧
    ∀ c, (s.locals c).cpu.pc = .idle ∧ (s.locals c).cpu.held = [] ∧ (s.locals c).code = []

/-- The locks are consistent, taken in order, and each byte set has an owner. -/
structure RunnersInv (s : Sys κ (KernelLock → Spinlock) Runner) : Prop where
  ordered : s.Holds (fun _ x y => y.cpu.Owns x ∧ y.Ordered) (fun y z => y.cpu.Apart z.cpu)
  owner : ∀ l, (s.shared l).lock = true → ∃ c, l ∈ (s.locals c).cpu.held

theorem runnerAct_stable : Sys.Stable (@runnerAct κ) (fun _ x y => y.cpu.Owns x ∧ y.Ordered)
    (fun y z => y.cpu.Apart z.cpu) where
  symm := fun _ _ hap l hl hly => hap l hly hl
  own := by
    intro c x y x' y' hact ⟨ho, hord⟩
    refine ⟨?_, hord.move hact⟩
    rcases RunnerMove.cpu_move hact hord with ⟨rfl, hcpu⟩ | ⟨a, ha, hm⟩
    · rwa [hcpu]
    · exact ho.move ha hm
  others := by
    intro c d x y z x' y' _ hact ⟨ho, hord⟩ ⟨hz, hzord⟩ hap
    rcases RunnerMove.cpu_move hact hord with ⟨rfl, hcpu⟩ | ⟨a, -, hm⟩
    · exact ⟨⟨hz, hzord⟩, by rwa [hcpu]⟩
    · obtain ⟨hz', hap'⟩ := ho.others hz hap hm
      exact ⟨⟨hz', hzord⟩, hap'⟩

theorem RunnersStart.inv (h : RunnersStart s) : RunnersInv s := by
  refine ⟨⟨fun c => ?_, fun c d _ l hl => ?_⟩, fun l hl => ?_⟩
  · obtain ⟨hpc, hheld, hcode⟩ := h.2 c
    refine ⟨⟨?_, ?_, ?_, ?_⟩, ?_⟩
    all_goals simp [Runner.Ordered, InOrder, hpc, hheld, hcode, SpinPc.owned]
  · rw [(h.2 c).2.1] at hl
    simp at hl
  · rw [h.1 l] at hl
    simp at hl

variable [DecidableEq κ]

theorem RunnersInv.move {c : κ} {x : KernelLock → Spinlock} {y : Runner} (h : RunnersInv s)
    (hact : runnerAct c (s.shared, s.locals c) (x, y)) : RunnersInv (s.move c x y) := by
  refine ⟨runnerAct_stable.move h.ordered hact, fun l hl => ?_⟩
  rw [Sys.move_shared] at hl
  rcases RunnerMove.cpu_move hact (h.ordered.1 c).2 with ⟨rfl, hcpu⟩ | ⟨a, -, hm⟩
  · obtain ⟨d, hd⟩ := h.owner l hl
    refine ⟨d, ?_⟩
    by_cases hdc : d = c
    · subst hdc
      rwa [Sys.move_self, hcpu]
    · rwa [Sys.move_other s _ y hdc]
  · rcases hm.lock_set hl with hmine | ⟨hold, hkeep⟩
    · exact ⟨c, by rwa [Sys.move_self]⟩
    · obtain ⟨d, hd⟩ := h.owner l hold
      refine ⟨d, ?_⟩
      by_cases hdc : d = c
      · subst hdc
        rw [Sys.move_self]
        exact hkeep hd
      · rwa [Sys.move_other s x y hdc]

/-- A CPU inside one of the calls. -/
def Runner.Inside (y : Runner) : Prop := y.code ≠ [] ∨ y.cpu.pc ≠ .idle

/-- The next `test_and_set` of the CPU finds the byte of `l` set. -/
def Runner.SpinsOn (x : KernelLock → Spinlock) (y : Runner) (l : KernelLock) : Prop :=
  y.cpu.pc = .testAndSet l ∧ (x l).lock = true

/-- CPU `c` spins on a lock that `d` holds. -/
def WaitsFor (s : Sys κ (KernelLock → Spinlock) Runner) (c d : κ) : Prop :=
  ∃ l, (s.locals c).SpinsOn s.shared l ∧ l ∈ (s.locals d).cpu.held

/-- The rank of the lock a CPU is about to take, above all ranks if there is none. -/
def Runner.waitRank (y : Runner) : Nat :=
  match y.cpu.pc with
  | .testAndSet l => l.rank
  | _ => 3

omit [DecidableEq κ] in
/-- The owner of a lock waits only for later ones. -/
theorem RunnersInv.rank_lt (h : RunnersInv s) {d : κ} {l : KernelLock}
    (hd : l ∈ (s.locals d).cpu.held) : l.rank < (s.locals d).waitRank := by
  have hord := (h.ordered.1 d).2
  unfold Runner.waitRank
  split
  · rename_i k hpc
    simp only [Runner.Ordered, hpc] at hord
    exact hord.1 l hd
  · cases l <;> decide

omit [DecidableEq κ] in
theorem RunnersInv.waits_lt (h : RunnersInv s) {c d : κ} (hcd : WaitsFor s c d) :
    (s.locals c).waitRank < (s.locals d).waitRank := by
  obtain ⟨l, ⟨hpc, -⟩, hd⟩ := hcd
  have hc : (s.locals c).waitRank = l.rank := by rw [Runner.waitRank, hpc]
  rw [hc]
  exact h.rank_lt hd

omit [DecidableEq κ] in
theorem RunnersInv.no_cycle (h : RunnersInv s) (c : κ) :
    ¬ Relation.TransGen (WaitsFor s) c c := by
  intro hcc
  have hlt := hcc.lift (fun d => (s.locals d).waitRank) (fun _ _ => h.waits_lt)
  exact lt_irrefl _ (Relation.transGen_eq_self (r := (· < · : Nat → Nat → Prop)) ▸ hlt)

omit [DecidableEq κ] in
theorem RunnersInv.inside_of_held (h : RunnersInv s) {d : κ} {l : KernelLock}
    (hd : l ∈ (s.locals d).cpu.held) : (s.locals d).Inside := by
  by_contra hout
  obtain ⟨hcode, hpc⟩ := not_or.mp hout
  have hord := (h.ordered.1 d).2
  simp only [Runner.Ordered, not_not.mp hpc, not_not.mp hcode] at hord
  have hnone : (s.locals d).cpu.held = [] := hord
  simp [hnone] at hd

omit [DecidableEq κ] in
/-- Following the owners from a CPU inside a call ends at one that does not spin:
the rank grows with each. -/
theorem RunnersInv.progress (h : RunnersInv s) (c : κ) (hc : (s.locals c).Inside) :
    ∃ d, (s.locals d).Inside ∧ ∀ l, ¬ (s.locals d).SpinsOn s.shared l := by
  by_contra hnone
  push Not at hnone
  have hgrow : ∀ n, ∃ d, (s.locals d).Inside ∧ n ≤ (s.locals d).waitRank := by
    intro n
    induction n with
    | zero => exact ⟨c, hc, Nat.zero_le _⟩
    | succ n ih =>
      obtain ⟨d, hd, hn⟩ := ih
      obtain ⟨l, hspin⟩ := hnone d hd
      obtain ⟨e, he⟩ := h.owner l hspin.2
      have hlt := h.waits_lt ⟨l, hspin, he⟩
      exact ⟨e, h.inside_of_held he, by omega⟩
  obtain ⟨d, hd, hrank⟩ := hgrow 3
  obtain ⟨l, hpc, -⟩ := hnone d hd
  rw [Runner.waitRank, hpc] at hrank
  revert hrank
  cases l <;> decide

/-- For any number of CPUs and in every state they reach: while some CPU is inside
a call, one of those inside does not spin; no CPU takes a lock that it holds; and
no CPUs wait for each other in a cycle. -/
theorem logging_cannot_deadlock (s₀ s : Sys κ (KernelLock → Spinlock) Runner)
    (hstart : RunnersStart s₀) (hrun : Sys.Run runnerAct s₀ s) :
    (∀ c, (s.locals c).Inside →
      ∃ d, (s.locals d).Inside ∧ ∀ l, ¬ (s.locals d).SpinsOn s.shared l) ∧
    (∀ c l, (s.locals c).cpu.pc = .testAndSet l → l ∉ (s.locals c).cpu.held) ∧
    ∀ c, ¬ Relation.TransGen (WaitsFor s) c c := by
  have hinv : RunnersInv s := hrun.induct (fun _ _ _ _ h hact => h.move hact) hstart.inv
  exact ⟨hinv.progress, fun c => (hinv.ordered.1 c).1.fresh, hinv.no_cycle⟩

/-- Two CPUs that log: the second waits for the first. -/
theorem logging_cannot_deadlock_two : ∃ s₀ s : Sys (Fin 2) (KernelLock → Spinlock) Runner,
    RunnersStart s₀ ∧ Sys.Run runnerAct s₀ s ∧ WaitsFor s 1 0 ∧
    ¬ Relation.TransGen (WaitsFor s) 1 1 := by
  obtain ⟨x, hx⟩ : ∃ x : KernelLock → Spinlock, x = fun _ => ⟨false, false⟩ :=
    ⟨_, rfl⟩
  obtain ⟨s₀, hs₀⟩ : ∃ s₀ : Sys (Fin 2) (KernelLock → Spinlock) Runner,
    s₀ = ⟨x, fun _ => ⟨⟨.idle, [], true⟩, []⟩⟩ := ⟨_, rfl⟩
  obtain ⟨s₁, hs₁⟩ :
      ∃ s₁, s₁ = s₀.move 0 x ⟨⟨.idle, [], true⟩, logImpl .info⟩ := ⟨_, rfl⟩
  obtain ⟨s₂, hs₂⟩ : ∃ s₂, s₂ = s₁.move 0 x
    ⟨⟨.testAndSet .log, [], true⟩, (logImpl .info).tail⟩ := ⟨_, rfl⟩
  obtain ⟨s₃, hs₃⟩ : ∃ s₃, s₃ = s₂.move 0 (Function.update x .log ⟨true, false⟩)
    ⟨⟨.readFlag .log, [.log], true⟩, (logImpl .info).tail⟩ := ⟨_, rfl⟩
  obtain ⟨s₄, hs₄⟩ : ∃ s₄, s₄ = s₃.move 1 s₃.shared
    ⟨⟨.idle, [], true⟩, logImpl .info⟩ := ⟨_, rfl⟩
  obtain ⟨s₅, hs₅⟩ : ∃ s₅, s₅ = s₄.move 1 s₄.shared
    ⟨⟨.testAndSet .log, [], true⟩, (logImpl .info).tail⟩ := ⟨_, rfl⟩
  have hstart : RunnersStart s₀ := by
    rw [hs₀, hx]
    exact ⟨fun _ => rfl, fun _ => ⟨rfl, rfl, rfl⟩⟩
  have hlog : KernelCall.NoPanic (.logImpl .info) := by simp [KernelCall.NoPanic]
  have h₁ : Sys.Step runnerAct s₀ s₁ := by
    refine ⟨0, _, _, ?_, hs₁⟩
    rw [hs₀]
    exact .call (.logImpl .info) hlog rfl rfl
  have h₂ : Sys.Step runnerAct s₁ s₂ := by
    refine ⟨0, _, _, ?_, hs₂⟩
    rw [hs₁, Sys.move_self, Sys.move_shared]
    exact .acquire rfl rfl
  have h₃ : Sys.Step runnerAct s₂ s₃ := by
    refine ⟨0, _, _, ?_, hs₃⟩
    rw [hs₂, Sys.move_self, Sys.move_shared]
    exact .spin (by simp [Cpu.step, hx])
  have hidle : s₃.locals 1 = ⟨⟨.idle, [], true⟩, []⟩ := by
    simp [hs₃, hs₂, hs₁, hs₀, Sys.move_other]
  have h₄ : Sys.Step runnerAct s₃ s₄ := by
    refine ⟨1, _, _, ?_, hs₄⟩
    rw [hidle]
    exact .call (.logImpl .info) hlog rfl rfl
  have h₅ : Sys.Step runnerAct s₄ s₅ := by
    refine ⟨1, _, _, ?_, hs₅⟩
    rw [hs₄, Sys.move_self, Sys.move_shared]
    exact .acquire rfl rfl
  have hrun : Sys.Run runnerAct s₀ s₅ := ((((Relation.ReflTransGen.single h₁).tail h₂).tail
    h₃).tail h₄).tail h₅
  have hlocals :
      s₅.locals 0 = ⟨⟨.readFlag .log, [.log], true⟩, (logImpl .info).tail⟩ := by
    simp [hs₅, hs₄, hs₃, Sys.move_other]
  have hwait : WaitsFor s₅ 1 0 := by
    refine ⟨.log, ⟨?_, ?_⟩, ?_⟩
    · rw [hs₅, Sys.move_self]
    · rw [hs₅, Sys.move_shared, hs₄, Sys.move_shared, hs₃, Sys.move_shared,
        Function.update_self]
    · rw [hlocals]
      exact List.mem_singleton.mpr rfl
  exact ⟨s₀, s₅, hstart, hrun, hwait, (logging_cannot_deadlock s₀ s₅ hstart hrun).2.2 1⟩

end Deadlock

end ApoptOS
