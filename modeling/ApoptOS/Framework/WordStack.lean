import ApoptOS.Framework.Words
import Mathlib.Data.List.Nodup

namespace Framework

/-- A stack of 64-bit words that grows downwards, with the pointer to its topmost word. -/
structure WordStack where
  sp : Nat
  words : Nat → Nat

namespace WordStack

def push (s : WordStack) (v : Nat) : WordStack :=
  ⟨sub64 s.sp 8, Function.update s.words (sub64 s.sp 8) v⟩

def pop (s : WordStack) : Nat × WordStack := (s.words s.sp, ⟨add64 s.sp 8, s.words⟩)

/-- The words `vs` are on the stack, the topmost first; without them it starts at `base`. -/
structure Has (s : WordStack) (base : Nat) (vs : List Nat) : Prop where
  sp : s.sp = sub64 base (8 * vs.length)
  word : ∀ i v, vs[i]? = some v → s.words (sub64 base (8 * (vs.length - i))) = v

variable {s s' : WordStack} {base v : Nat} {vs ws : List Nat}

theorem sub64_sub64 (a b c : Nat) : sub64 (sub64 a b) c = sub64 a (b + c) := by
  unfold sub64
  omega

theorem sub64_inj {a b c : Nat} (hb : b < 2 ^ 64) (hc : c < 2 ^ 64) (h : sub64 a b = sub64 a c) :
    b = c := by
  unfold sub64 at h
  omega

theorem has_nil (hb : base < 2 ^ 64) (words : Nat → Nat) : Has ⟨base, words⟩ base [] :=
  ⟨(sub64_of_le hb (Nat.zero_le _)).symm, by simp⟩

/-- Words are found again where they were pushed as long as the stack does not wrap around. -/
theorem Has.push (h : Has s base vs) (v : Nat) (hlen : 8 * (vs.length + 1) < 2 ^ 64) :
    Has (s.push v) base (v :: vs) := by
  have hsp : sub64 s.sp 8 = sub64 base (8 * (v :: vs).length) := by
    rw [h.sp, sub64_sub64, List.length_cons, Nat.mul_succ]
  refine ⟨hsp, fun i w hw => ?_⟩
  cases i with
  | zero =>
    have hvw : v = w := by simpa using hw
    show Function.update s.words (sub64 s.sp 8) v _ = w
    rw [hsp, Nat.sub_zero, Function.update_self, hvw]
  | succ i =>
    rw [List.getElem?_cons_succ] at hw
    have hi : i < vs.length := (List.getElem?_eq_some_iff.mp hw).1
    rw [List.length_cons] at hsp ⊢
    have hidx : vs.length + 1 - (i + 1) = vs.length - i := by omega
    rw [hidx]
    show Function.update s.words (sub64 s.sp 8) v _ = w
    rw [hsp, Function.update_of_ne, h.word i w hw]
    intro he
    have hpos := sub64_inj (by omega) (by omega) he
    omega

theorem Has.pop (h : Has s base (v :: vs)) :
    s.pop.1 = v ∧ Has s.pop.2 base vs := by
  have hsp := h.sp
  rw [List.length_cons] at hsp
  refine ⟨?_, ?_, fun i w hw => ?_⟩
  · have hword := h.word 0 v rfl
    rw [List.length_cons, Nat.sub_zero] at hword
    show s.words s.sp = v
    rw [hsp, hword]
  · show add64 s.sp 8 = _
    rw [hsp]
    unfold add64 sub64
    omega
  · have hword := h.word (i + 1) w (by simpa using hw)
    have hidx : vs.length + 1 - (i + 1) = vs.length - i := by omega
    rw [List.length_cons, hidx] at hword
    exact hword

/-- Dropping words by moving the pointer. -/
theorem Has.drop (h : Has s base (ws ++ vs)) :
    Has ⟨add64 s.sp (8 * ws.length), s.words⟩ base vs := by
  refine ⟨?_, fun i w hw => ?_⟩
  · show add64 s.sp _ = _
    rw [h.sp, List.length_append]
    unfold add64 sub64
    omega
  · have hi : i < vs.length := (List.getElem?_eq_some_iff.mp hw).1
    have hword := h.word (ws.length + i) w (by
      rw [List.getElem?_append_right (by omega)]
      simpa using hw)
    have hidx : (ws ++ vs).length - (ws.length + i) = vs.length - i := by
      rw [List.length_append]
      omega
    rw [hidx] at hword
    exact hword

theorem Has.add_sp (h : Has s base vs) {i : Nat} (hi : i ≤ vs.length) :
    add64 s.sp (8 * i) = sub64 base (8 * (vs.length - i)) := by
  rw [h.sp]
  unfold add64 sub64
  omega

/-- The words of a stack, counted from its pointer. -/
theorem Has.get (h : Has s base vs) {i : Nat} (hv : vs[i]? = some v) :
    s.words (add64 s.sp (8 * i)) = v := by
  have hi : i < vs.length := (List.getElem?_eq_some_iff.mp hv).1
  rw [h.add_sp (by omega)]
  exact h.word i v hv

theorem Has.congr (h : Has s base vs) (hsp : s'.sp = s.sp)
    (hwords : ∀ i < vs.length, s'.words (add64 s.sp (8 * i)) = s.words (add64 s.sp (8 * i))) :
    Has s' base vs := by
  refine ⟨hsp.trans h.sp, fun i w hw => ?_⟩
  have hi : i < vs.length := (List.getElem?_eq_some_iff.mp hw).1
  have hword := hwords i hi
  rw [h.get hw, h.add_sp (by omega)] at hword
  exact hword

theorem pop_snd_words (s : WordStack) : s.pop.2.words = s.words := by
  unfold pop
  rfl

/-- A word pushed on top leaves those below it. -/
theorem Has.below_push (h : Has s base vs) (v : Nat) (hlen : 8 * (vs.length + 1) < 2 ^ 64) :
    Has ⟨s.sp, (s.push v).words⟩ base vs := by
  obtain ⟨-, hpop⟩ := (h.push v hlen).pop
  refine ⟨h.sp, fun i w hw => ?_⟩
  have hword := hpop.word i w hw
  rw [pop_snd_words] at hword
  exact hword

end WordStack

section Registers

variable {R : Type*}

/-- Push the registers of a list, one after the other. -/
def pushRegisters (regs : R → Nat) (rs : List R) (s : WordStack) : WordStack :=
  rs.foldl (fun s r => s.push (regs r)) s

/-- Pop into the registers of a list, one after the other. -/
def popRegisters [DecidableEq R] : List R → (R → Nat) × WordStack → (R → Nat) × WordStack
  | [], st => st
  | r :: rs, st => popRegisters rs (Function.update st.1 r st.2.pop.1, st.2.pop.2)

variable {s : WordStack} {base : Nat} {vs ws : List Nat}

theorem pushRegisters_has (regs : R → Nat) (rs : List R) (h : s.Has base vs)
    (hlen : 8 * (rs.length + vs.length) < 2 ^ 64) :
    (pushRegisters regs rs s).Has base ((rs.map regs).reverse ++ vs) := by
  induction rs generalizing s vs with
  | nil => simpa [pushRegisters] using h
  | cons r rs ih =>
    rw [List.length_cons] at hlen
    have hpush := h.push (regs r) (by omega)
    have hrest := ih hpush (by rw [List.length_cons]; omega)
    simpa [pushRegisters] using hrest

/-- Registers get the topmost words, each its own one. -/
theorem popRegisters_has [DecidableEq R] (regs : R → Nat) {rs : List R} (hnodup : rs.Nodup)
    (hws : ws.length = rs.length) (h : s.Has base (ws ++ vs)) :
    rs.map (popRegisters rs (regs, s)).1 = ws ∧
      (∀ r ∉ rs, (popRegisters rs (regs, s)).1 r = regs r) ∧
      (popRegisters rs (regs, s)).2.Has base vs := by
  induction rs generalizing regs s ws with
  | nil =>
    obtain rfl := List.length_eq_zero_iff.mp hws
    exact ⟨rfl, fun _ _ => rfl, h⟩
  | cons r rs ih =>
    obtain ⟨w, ws, rfl⟩ := List.exists_cons_of_length_eq_add_one hws
    rw [List.nodup_cons] at hnodup
    have hws' : ws.length = rs.length := by simpa using hws
    obtain ⟨hw, hpop⟩ := h.pop
    obtain ⟨hmap, hother, hrest⟩ := ih (Function.update regs r s.pop.1) hnodup.2 hws' hpop
    refine ⟨?_, fun q hq => ?_, hrest⟩
    · have hr := hother r hnodup.1
      rw [Function.update_self] at hr
      rw [List.map_cons]
      exact congrArg₂ List.cons (hr.trans hw) hmap
    · rw [List.mem_cons, not_or] at hq
      exact (hother q hq.2).trans (Function.update_of_ne hq.1 _ _)

end Registers

end Framework
