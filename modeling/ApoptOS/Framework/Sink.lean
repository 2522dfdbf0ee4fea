import ApoptOS.Framework.ByteMemory
import ApoptOS.Framework.Words

namespace Framework

/-- What becomes of a character at a position. -/
abbrev Writer (σ : Type*) := BitVec 8 → Nat → σ → σ

/-- Where a text goes: the position of the next character, a 64-bit word, and what has been made
of the characters before it. -/
structure Sink (σ : Type*) where
  idx : Nat
  state : σ
  idx_lt : idx < 2 ^ 64

namespace Sink

variable {σ : Type*} {out : Writer σ}

def put (out : Writer σ) (c : BitVec 8) (p : Sink σ) : Sink σ :=
  ⟨add64 p.idx 1, out c p.idx p.state, add64_lt _ _⟩

def putAll (out : Writer σ) : List (BitVec 8) → Sink σ → Sink σ
  | [], p => p
  | c :: t, p => putAll out t (p.put out c)

@[simp] theorem putAll_nil (p : Sink σ) : p.putAll out [] = p := rfl

@[simp] theorem putAll_cons (c : BitVec 8) (t : List (BitVec 8)) (p : Sink σ) :
    p.putAll out (c :: t) = (p.put out c).putAll out t := rfl

theorem putAll_append (t u : List (BitVec 8)) (p : Sink σ) :
    p.putAll out (t ++ u) = (p.putAll out t).putAll out u := by
  induction t generalizing p with
  | nil => rfl
  | cons c t ih => simp [ih]

theorem putAll_idx (t : List (BitVec 8)) (p : Sink σ) :
    (p.putAll out t).idx = add64 p.idx t.length := by
  induction t generalizing p with
  | nil =>
    unfold add64
    simpa using (Nat.mod_eq_of_lt p.idx_lt).symm
  | cons c t ih =>
    rw [putAll_cons, ih]
    simp only [put, List.length_cons]
    unfold add64
    omega

/-- How far a text has moved the position. -/
theorem putAll_moved (t : List (BitVec 8)) (p : Sink σ) :
    sub64 (p.putAll out t).idx p.idx = t.length % 2 ^ 64 := by
  have hp := p.idx_lt
  rw [putAll_idx]
  unfold sub64 add64
  omega

end Sink

/-- Characters are stored from `base` on, those whose position is below `limit`. -/
def boundedWriter (base limit : Nat) : Writer Mem :=
  fun c idx m => if idx < limit then m.set (add64 base idx) c else m

section Bounded

variable {base limit x : Nat} {p : Sink Mem} {t : List (BitVec 8)}

theorem boundedWriter_put_idx (hi : p.idx + 1 < 2 ^ 64) (c : BitVec 8) :
    (p.put (boundedWriter base limit) c).idx = p.idx + 1 := add64_of_lt hi

theorem boundedWriter_put_state (c : BitVec 8) :
    (p.put (boundedWriter base limit) c).state =
      if p.idx < limit then p.state.set (add64 base p.idx) c else p.state := rfl

/-- Nothing is stored outside the part of the text that has room. -/
theorem boundedWriter_outside (base limit : Nat) (hi : p.idx + t.length < 2 ^ 64)
    (hfit : base + min limit (p.idx + t.length) ≤ 2 ^ 64)
    (hx : x < base + p.idx ∨ base + min limit (p.idx + t.length) ≤ x) :
    (p.putAll (boundedWriter base limit) t).state x = p.state x := by
  induction t generalizing p with
  | nil => rfl
  | cons c t ih =>
    rw [List.length_cons] at hi hfit hx
    have hidx : (p.put (boundedWriter base limit) c).idx = p.idx + 1 :=
      boundedWriter_put_idx (by omega) c
    rw [Sink.putAll_cons, ih (by omega) (by omega) (by omega), boundedWriter_put_state]
    by_cases hlimit : p.idx < limit
    · have haddr : add64 base p.idx = base + p.idx := add64_of_lt (by omega)
      rw [if_pos hlimit, haddr, Mem.set_other _ _ (by omega)]
    · rw [if_neg hlimit]

/-- Each character that has room is found at its position. -/
theorem boundedWriter_inside (base limit : Nat) (hi : p.idx + t.length < 2 ^ 64)
    (hfit : base + min limit (p.idx + t.length) ≤ 2 ^ 64) {j : Nat} {c : BitVec 8}
    (hj : t[j]? = some c) (hlimit : p.idx + j < limit) :
    (p.putAll (boundedWriter base limit) t).state (base + p.idx + j) = c := by
  induction t generalizing p j with
  | nil => simp at hj
  | cons d t ih =>
    rw [List.length_cons] at hi hfit
    have hidx : (p.put (boundedWriter base limit) d).idx = p.idx + 1 :=
      boundedWriter_put_idx (by omega) d
    rw [Sink.putAll_cons]
    cases j with
    | zero =>
      have hd : d = c := by simpa using hj
      have haddr : add64 base p.idx = base + p.idx := add64_of_lt (by omega)
      rw [boundedWriter_outside base limit (by omega) (by omega) (by omega),
        boundedWriter_put_state, if_pos (by omega), haddr, Nat.add_zero, Mem.set_same, hd]
    | succ j =>
      have hnext : base + p.idx + (j + 1) =
          base + (p.put (boundedWriter base limit) d).idx + j := by omega
      rw [hnext]
      apply ih (by omega) (by omega) (by simpa using hj)
      omega

end Bounded

end Framework
