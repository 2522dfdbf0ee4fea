import ApoptOS.Libk.SerialLine

namespace ApoptOS.Serial

open Framework Printf

/-- A command carried out by itself, from a state with `pos` of its characters done. -/
inductive SerialCmd.Ends (cmd : SerialCmd) : SerialState → Nat → SerialState → Prop where
  | done {x x' : SerialState} {pos : Nat} (h : cmd.exec x pos = some (x', none)) :
      cmd.Ends x pos x'
  | more {x x₁ x' : SerialState} {pos pos₁ : Nat}
      (h : cmd.exec x pos = some (x₁, some pos₁))
      (hrest : cmd.Ends x₁ pos₁ x') : cmd.Ends x pos x'

/-- Commands carried out one after the other, and those that are left. What their locks do is left
to the CPUs. -/
inductive Carried : SerialState → List SerialCmd → SerialState → List SerialCmd → Prop where
  | refl (x : SerialState) (code : List SerialCmd) : Carried x code x code
  | acquire (l : KernelLock) {x x' : SerialState} {rest left : List SerialCmd}
      (h : Carried x rest x' left) : Carried x (.acquire l :: rest) x' left
  | release (l : KernelLock) {x x' : SerialState} {rest left : List SerialCmd}
      (h : Carried x rest x' left) : Carried x (.release l :: rest) x' left
  | cmd {cmd : SerialCmd} {x x₁ x' : SerialState} {rest left : List SerialCmd}
      (hcmd : cmd.Ends x 0 x₁) (h : Carried x₁ rest x' left) : Carried x (cmd :: rest) x' left

/-- The commands see the two buffers and the line as they are. -/
structure Shows (B : SerialData) (m : Mem) (u : Uart) (x : SerialState) : Prop where
  wire : x.wire = u.sent
  debug : ∀ i < bufferSize, x.buffer .debug i = m (B.debugBuffer + i)
  log : ∀ i < bufferSize, x.buffer .log i = m (B.logBuffer + i)

/-- A buffer with a text stored at its beginning. -/
def overlay (b : Nat → BitVec 8) (w : Text) (i : Nat) : BitVec 8 := w[i]?.getD (b i)

section Overlay

variable {b : Nat → BitVec 8} {t w : Text}

theorem overlay_nil (b : Nat → BitVec 8) : overlay b [] = b := rfl

theorem overlay_snoc (b : Nat → BitVec 8) (w : Text) (c : BitVec 8) :
    Function.update (overlay b w) w.length c = overlay b (w ++ [c]) := by
  funext i
  by_cases hi : i = w.length
  · subst hi
    simp [overlay]
  · rw [Function.update_of_ne hi]
    by_cases hlt : i < w.length
    · rw [overlay, overlay, List.getElem?_append_left hlt]
    · have hout : (w ++ [c]).length ≤ i := by
        rw [List.length_append, List.length_singleton]
        omega
      rw [overlay, overlay, List.getElem?_eq_none (by omega), List.getElem?_eq_none hout]

theorem overlay_holds (b : Nat → BitVec 8) (t : Text) : Holds (overlay b (t ++ [0])) t := by
  refine ⟨fun i hi => ?_, ?_⟩
  · rw [overlay, List.getElem?_append_left hi, List.getElem?_eq_getElem hi]
    rfl
  · simp [overlay]

/-- What `vsnprintf` leaves in a buffer that its text fits. -/
theorem stored_overlay {m m' : Mem} {buffer : Nat} (h : Stored m m' buffer (2 ^ 64 - 1) t)
    (ht : t.length < bufferSize) {i : Nat} (hb : b i = m (buffer + i)) :
    overlay b (t ++ [0]) i = m' (buffer + i) := by
  unfold bufferSize at ht
  unfold overlay
  rcases lt_trichotomy i t.length with hlt | rfl | hgt
  · rw [List.getElem?_append_left hlt, List.getElem?_eq_getElem hlt]
    exact (h.text i _ (List.getElem?_eq_getElem hlt) (by omega)).symm
  · have hend := h.terminator (by decide)
    rw [Nat.min_eq_left (by omega)] at hend
    simp [hend]
  · have hout : (t ++ [0]).length ≤ i := by
      rw [List.length_append, List.length_singleton]
      omega
    rw [List.getElem?_eq_none hout, Option.getD_none, hb]
    exact (h.outside _ (by omega)).symm

end Overlay

section Commands

variable {x : SerialState} {b : Nat → BitVec 8} {l : KernelLock} {t head : Text}

def SerialState.withBuffer (x : SerialState) (l : KernelLock) (b : Nat → BitVec 8) :
    SerialState :=
  { x with buffer := Function.update x.buffer l b }

theorem SerialState.withBuffer_same (x : SerialState) (l : KernelLock) (b : Nat → BitVec 8) :
    (x.withBuffer l b).buffer l = b := Function.update_self ..

theorem SerialState.withBuffer_other (x : SerialState) {k : KernelLock} (h : k ≠ l)
    (b : Nat → BitVec 8) :
    (x.withBuffer l b).buffer k = x.buffer k := Function.update_of_ne h ..

theorem withBuffer_store (x : SerialState) (l : KernelLock) (b : Nat → BitVec 8) (w : Text)
    (c : BitVec 8) :
    (x.withBuffer l (overlay b w)).store l w.length c = x.withBuffer l (overlay b (w ++ [c])) := by
  rw [SerialState.store, x.withBuffer_same, overlay_snoc]
  simp only [SerialState.withBuffer, Function.update_idem]

/-- A text goes into its buffer character by character, with a zero at the end. -/
theorem ends_format (x : SerialState) (l : KernelLock) (b : Nat → BitVec 8) (w v : Text) :
    (SerialCmd.format l (w ++ v)).Ends (x.withBuffer l (overlay b w)) w.length
      (x.withBuffer l (overlay b (w ++ v ++ [0]))) := by
  induction v generalizing w with
  | nil =>
    apply SerialCmd.Ends.done
    simp [SerialCmd.exec, withBuffer_store]
  | cons c v ih =>
    have hnext := ih (w ++ [c])
    rw [List.append_assoc, List.singleton_append, List.length_append] at hnext
    refine SerialCmd.Ends.more ?_ hnext
    simp [SerialCmd.exec, withBuffer_store]

/-- The end of a line is read out of `log_buffer` while it goes into `debug_buffer`. -/
theorem ends_formatLine (ht : ZeroFree t) (hlog : Holds (x.buffer .log) t) (b : Nat → BitVec 8)
    (w v : Text) (hwv : w ++ v = head ++ t) :
    (SerialCmd.formatLine head t).Ends (x.withBuffer .debug (overlay b w)) w.length
      (x.withBuffer .debug (overlay b (head ++ t ++ [0]))) := by
  have hsame : ∀ w, (x.withBuffer .debug (overlay b w)).buffer .log = x.buffer .log :=
    fun w => x.withBuffer_other (by simp) _
  induction v generalizing w with
  | nil =>
    rw [List.append_nil] at hwv
    have hlen := congrArg List.length hwv
    rw [List.length_append] at hlen
    have hpos : w.length - head.length = t.length := by omega
    apply SerialCmd.Ends.done
    rw [SerialCmd.exec, List.getElem?_eq_none (show head.length ≤ w.length by omega)]
    rw [← hwv]
    simp only [hsame, hpos, hlog.2, withBuffer_store, ne_eq, not_true_eq_false, if_false]
  | cons c v ih =>
    have hget : (head ++ t)[w.length]? = some c := by
      rw [← hwv]
      simp
    have hnext := ih (w ++ [c]) (by rw [← hwv, List.append_assoc, List.singleton_append])
    rw [List.length_append, List.length_singleton] at hnext
    refine SerialCmd.Ends.more ?_ hnext
    by_cases hlt : w.length < head.length
    · rw [List.getElem?_append_left hlt] at hget
      simp only [SerialCmd.exec, hget, withBuffer_store]
    · have hge : head.length ≤ w.length := by omega
      rw [List.getElem?_append_right hge] at hget
      have hchar := hlog.1 _ (List.getElem?_eq_some_iff.mp hget).1
      rw [hget, Option.some.injEq] at hchar
      have hne : c ≠ 0 := ht c (List.mem_of_getElem? hget)
      simp only [SerialCmd.exec, List.getElem?_eq_none hge, hsame, ← hchar, hne,
        withBuffer_store, ne_eq, not_false_eq_true, if_true]

theorem send_append (x : SerialState) (w : Text) (c : BitVec 8) :
    ({ x with wire := x.wire ++ w } : SerialState).send c =
      { x with wire := x.wire ++ (w ++ [c]) } := by
  rw [SerialState.send, List.append_assoc]

theorem ends_sendBuffer (ht : ZeroFree t) (hdebug : Holds (x.buffer .debug) t) (w v : Text)
    (hwv : w ++ v = t) : (SerialCmd.sendBuffer t).Ends { x with wire := x.wire ++ w } w.length
      { x with wire := x.wire ++ t } := by
  induction v generalizing w with
  | nil =>
    rw [List.append_nil] at hwv
    subst hwv
    apply SerialCmd.Ends.done
    simp [SerialCmd.exec, hdebug.2]
  | cons c v ih =>
    have hget : t[w.length]? = some c := by
      rw [← hwv]
      simp
    have hnext := ih (w ++ [c]) (by rw [← hwv, List.append_assoc, List.singleton_append])
    rw [List.length_append, List.length_singleton] at hnext
    refine SerialCmd.Ends.more ?_ hnext
    have hchar := hdebug.1 _ (List.getElem?_eq_some_iff.mp hget).1
    rw [hget, Option.some.injEq] at hchar
    have hne : c ≠ 0 := ht c (List.mem_of_getElem? hget)
    simp only [SerialCmd.exec, ← hchar, hne, send_append, ne_eq, not_false_eq_true, if_true]

theorem ends_sendCode (x : SerialState) (w v : Text) :
    (SerialCmd.sendCode (w ++ v)).Ends { x with wire := x.wire ++ w } w.length
      { x with wire := x.wire ++ (w ++ v) } := by
  induction v generalizing w with
  | nil =>
    rw [List.append_nil]
    apply SerialCmd.Ends.done
    simp [SerialCmd.exec]
  | cons c v ih =>
    have hnext := ih (w ++ [c])
    rw [List.append_assoc, List.singleton_append, List.length_append] at hnext
    refine SerialCmd.Ends.more ?_ hnext
    simp [SerialCmd.exec, send_append]

end Commands

section Calls

variable {B : SerialData} {m m' : Mem} {u u' : Uart} {x x' x'' : SerialState} {format t : Text}
  {va va' : List Nat} {code rest left : List SerialCmd}

theorem Carried.append (h : Carried x code x' []) (hrest : Carried x' rest x'' left) :
    Carried x (code ++ rest) x'' left := by
  generalize hnil : ([] : List SerialCmd) = none at h
  induction h with
  | refl => rwa [← hnil]
  | acquire l _ ih => exact .acquire l (ih hrest hnil)
  | release l _ ih => exact .release l (ih hrest hnil)
  | cmd hcmd _ ih => exact .cmd hcmd (ih hrest hnil)

theorem carried_color (x : SerialState) (ht : IsColorCode t) :
    Carried x (debugSetColorCode t) { x with wire := x.wire ++ t } [] := by
  have hsend := ends_sendCode x [] t
  rw [List.append_nil] at hsend
  exact .acquire _ (.cmd (.done (if_pos ht)) (.cmd hsend (.release _ (.refl _ _))))

/-- A command that puts a text into `debug_buffer`, and the sending of it. -/
theorem carried_send {cmd : SerialCmd} (ht : ZeroFree t)
    (hcmd : cmd.Ends x 0 (x.withBuffer .debug (overlay (x.buffer .debug) (t ++ [0])))) :
    Carried x [.acquire .debug, cmd, .sendBuffer t, .release .debug]
      { x.withBuffer .debug (overlay (x.buffer .debug) (t ++ [0])) with wire := x.wire ++ t }
        [] := by
  have hholds : Holds ((x.withBuffer .debug (overlay (x.buffer .debug) (t ++ [0]))).buffer .debug)
      t := by
    rw [x.withBuffer_same]
    exact overlay_holds _ t
  have hsend := ends_sendBuffer ht hholds [] t rfl
  rw [List.append_nil] at hsend
  exact .acquire _ (.cmd hcmd (.cmd hsend (.release _ (.refl _ _))))

theorem ends_format_all (x : SerialState) (l : KernelLock) (t : Text) :
    (SerialCmd.format l t).Ends x 0 (x.withBuffer l (overlay (x.buffer l) (t ++ [0]))) := by
  have h := ends_format x l (x.buffer l) [] t
  rw [overlay_nil, SerialState.withBuffer, Function.update_eq_self] at h
  exact h

theorem Shows.stored_debug (h : Shows B m u x) (hB : B.Placed m)
    (hstored : Stored m m' B.debugBuffer (2 ^ 64 - 1) t) (ht : t.length < bufferSize)
    (hwire : x'.wire = u'.sent)
    (hx' : x'.buffer = (x.withBuffer .debug (overlay (x.buffer .debug) (t ++ [0]))).buffer) :
    Shows B m' u' x' := by
  refine ⟨hwire, fun i hi => ?_, fun i hi => ?_⟩
  · rw [hx', x.withBuffer_same]
    exact stored_overlay hstored ht (h.debug i hi)
  · have hapart := hB.log_apart
    rw [hx', x.withBuffer_other (by simp), h.log i hi]
    exact (stored_outside hstored ht (by omega)).symm

theorem Shows.stored_log (h : Shows B m u x) (hB : B.Placed m)
    (hstored : Stored m m' B.logBuffer (2 ^ 64 - 1) t) (ht : t.length < bufferSize) :
    Shows B m' u (x.withBuffer .log (overlay (x.buffer .log) (t ++ [0]))) := by
  refine ⟨h.wire, fun i hi => ?_, fun i hi => ?_⟩
  · have hapart := hB.log_apart
    rw [x.withBuffer_other (by simp), h.debug i hi]
    exact (stored_outside hstored ht (by omega)).symm
  · rw [x.withBuffer_same]
    exact stored_overlay hstored ht (h.log i hi)

/-- The commands of `debug` do what `debug` does to its buffer and to the line. -/
theorem debugCode_refines (hB : B.Placed m) (hdlab : u.dlab = false)
    (h : Prints (cString m) format va va' t) (ht : t.length < bufferSize) (hfree : ZeroFree t)
    (hx : Shows B m u x) : ∃ m' u' x', Gives (fun n => debug B n format va m u) (m', u') ∧
      Carried x (debugCode t) x' [] ∧ Shows B m' u' x' := by
  obtain ⟨m', u', hgives, hstored, hsent, -⟩ := debug_stores hB hdlab h ht
  rw [untilZero_eq hfree, ← hx.wire] at hsent
  exact ⟨m', u', _, hgives, carried_send hfree (ends_format_all x .debug t),
    hx.stored_debug hB hstored ht hsent.symm rfl⟩

/-- The commands of `log_impl` do what it does to the buffers and to the line, up to their end or
to the halt of a `PANIC`. -/
theorem logImplCode_refines (hB : B.Placed m) (hdlab : u.dlab = false) {file : Nat} {f : Text}
    (hfile : HoldsString m file f) (hapart : B.Apart file (f.length + 1)) (status : LogStatus)
    (line : Nat) (h : Prints (cString m) format va va' t) (ht : t.length < bufferSize)
    (hfree : ZeroFree t) (hline : (lineText status f line t).length < bufferSize)
    (hx : Shows B m u x) :
    ∃ m' u' x', Gives (fun n => logImpl B n file line status format va m u)
        (if status = .panic then .halted else .returned, m', u') ∧
      Carried x (logImplCode status f line t) x' (if status = .panic then [.halt] else []) ∧
      Shows B m' u' x' := by
  have huntil := untilZero_eq hfree
  rw [← huntil] at hline
  obtain ⟨m₁, m', u', hstored₁, hstored, hgives, hsent, -⟩ :=
    logImpl_stores hB hdlab hfile hapart status line h ht hline
  rw [huntil] at hline hstored hsent
  have hB₁ : B.Placed m₁ := by
    refine hB.frame (fun a n hap x hx hlt => stored_outside hstored₁ ht ?_)
    have hout := hap.2
    omega
  -- the states after the format, after the colour and after the line
  obtain ⟨x₁, hx₁⟩ :
      ∃ x₁, x₁ = x.withBuffer .log (overlay (x.buffer .log) (t ++ [0])) := ⟨_, rfl⟩
  obtain ⟨x₂, hx₂⟩ :
      ∃ x₂ : SerialState, x₂ = { x₁ with wire := x₁.wire ++ colorCode status } :=
    ⟨_, rfl⟩
  have hshows₁ : Shows B m₁ u x₁ := hx₁ ▸ hx.stored_log hB hstored₁ ht
  have hlog : Holds (x₂.buffer .log) t := by
    have hbuffer : x₂.buffer .log = overlay (x.buffer .log) (t ++ [0]) := by
      rw [hx₂]
      show x₁.buffer .log = _
      rw [hx₁, x.withBuffer_same]
    rw [hbuffer]
    exact overlay_holds _ t
  have hzero : ZeroFree (lineText status f line t) :=
    lineText_ne_zero (HoldsString.ne_zero hfile) hfree
  have hends := ends_formatLine hfree hlog (x₂.buffer .debug) [] (lineText status f line t)
    (lineText_append status f line t)
  rw [overlay_nil, SerialState.withBuffer, Function.update_eq_self, ← lineText_append] at hends
  have hhead : Carried x [.acquire .log, .format .log t] x₁ [] := by
    rw [hx₁]
    exact .acquire _ (.cmd (ends_format_all x .log t) (.refl _ _))
  have hcolor : Carried x₁ (debugSetColorCode (colorCode status)) x₂ [] := by
    rw [hx₂]
    exact carried_color x₁ (isColorCode_color status)
  obtain ⟨x₃, hx₃⟩ :
    ∃ x₃ : SerialState, x₃ = { x₂.withBuffer .debug (overlay (x₂.buffer .debug)
      (lineText status f line t ++ [0])) with wire := x₂.wire ++ lineText status f line t } :=
    ⟨_, rfl⟩
  have hsend := (hhead.append hcolor).append (carried_send hzero hends)
  rw [← hx₃] at hsend
  have hwire : x₂.wire = u.sent ++ colorCode status := by rw [hx₂, hshows₁.wire]
  have hshows₂ : Shows B m₁ { u with sent := u.sent ++ colorCode status } x₂ :=
    ⟨hwire, by rw [hx₂]; exact hshows₁.debug, by rw [hx₂]; exact hshows₁.log⟩
  have hwire₃ : x₃.wire = u.sent ++ colorCode status ++ lineText status f line t := by
    rw [hx₃, ← hwire]
  have hbuffer : x₃.buffer = (x₂.withBuffer .debug (overlay (x₂.buffer .debug)
      (lineText status f line t ++ [0]))).buffer := by rw [hx₃]
  by_cases hpanic : status = .panic
  · refine ⟨m', u', x₃, hgives, ?_, hshows₂.stored_debug hB₁ hstored hline ?_ hbuffer⟩
    · simp only [logImplCode, if_pos hpanic]
      exact hsend.append (.refl x₃ _)
    · rw [hsent, hwire₃, logText, if_pos hpanic, List.append_nil, List.append_assoc]
  · refine ⟨m', u', { x₃ with wire := x₃.wire ++ colorResetCode }, hgives, ?_,
      hshows₂.stored_debug hB₁ hstored hline ?_ hbuffer⟩
    · simp only [logImplCode, if_neg hpanic]
      exact hsend.append ((carried_color x₃ isColorCode_reset).append (.release .log (.refl _ _)))
    · rw [hsent, hwire₃, logText, if_neg hpanic, List.append_assoc, List.append_assoc]

end Calls

end ApoptOS.Serial
