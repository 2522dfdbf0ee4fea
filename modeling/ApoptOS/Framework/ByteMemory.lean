import Mathlib.Tactic
import Mathlib.Order.CompletePartialOrder

namespace Framework

/-- A byte-addressed memory. Addresses are natural numbers; a program that
wraps them does so itself. -/
abbrev Mem := Nat → BitVec 8

namespace Mem

def set (m : Mem) (a : Nat) (b : BitVec 8) : Mem := fun x => if x = a then b else m x

/-- The little-endian number stored in the `n` bytes from `a`. -/
def loadLE (m : Mem) : Nat → Nat → Nat
  | _, 0 => 0
  | a, n + 1 => (m a).toNat + 256 * loadLE m (a + 1) n

/-- Store the low `n` bytes of `v` little-endian from `a`. -/
def storeLE (m : Mem) : Nat → Nat → Nat → Mem
  | _, 0, _ => m
  | a, n + 1, v => (storeLE m (a + 1) n (v / 256)).set a (BitVec.ofNat 8 v)

def load64 (m : Mem) (a : Nat) : Nat := m.loadLE a 8
def load16 (m : Mem) (a : Nat) : Nat := m.loadLE a 2
def store64 (m : Mem) (a v : Nat) : Mem := m.storeLE a 8 v
def store16 (m : Mem) (a v : Nat) : Mem := m.storeLE a 2 v

/-- Fill the `n` bytes from `a` with the low byte of `v`. -/
def memset (m : Mem) (a v n : Nat) : Mem :=
  fun x => if a ≤ x ∧ x < a + n then BitVec.ofNat 8 v else m x

@[simp] theorem memset_zero (m : Mem) (a v : Nat) : m.memset a v 0 = m := by
  funext x
  have hx : ¬ (a ≤ x ∧ x < a + 0) := by omega
  simp [memset]

theorem memset_inside (m : Mem) {a v n x : Nat} (h : a ≤ x) (hx : x < a + n) :
    m.memset a v n x = BitVec.ofNat 8 v := by
  simp [memset, h, hx]

theorem memset_outside (m : Mem) {a v n x : Nat} (h : x < a ∨ a + n ≤ x) :
    m.memset a v n x = m x := by
  have hx : ¬ (a ≤ x ∧ x < a + n) := by omega
  simp only [memset, if_neg hx]

theorem set_same (m : Mem) (a : Nat) (b : BitVec 8) : m.set a b a = b := by
  simp [set]

theorem set_other (m : Mem) {a x : Nat} (b : BitVec 8) (h : x ≠ a) : m.set a b x = m x := by
  simp [set, h]

theorem storeLE_outside (m : Mem) (a n v x : Nat) (h : x < a ∨ a + n ≤ x) :
    m.storeLE a n v x = m x := by
  induction n generalizing a v with
  | zero => rfl
  | succ n ih =>
    rw [storeLE, set_other _ _ (by omega)]
    exact ih (a + 1) (v / 256) (by omega)

/-- What the stored bytes are does not depend on the memory. -/
theorem storeLE_inside (m m' : Mem) (a n v x : Nat) (h : a ≤ x) (hx : x < a + n) :
    m'.storeLE a n v x = m.storeLE a n v x := by
  induction n generalizing a v with
  | zero => omega
  | succ n ih =>
    by_cases he : x = a
    · rw [he, storeLE, storeLE, set_same, set_same]
    · rw [storeLE, storeLE, set_other _ _ he, set_other _ _ he]
      exact ih (a + 1) (v / 256) (by omega) (by omega)

theorem storeLE_zero (m : Mem) {a n x : Nat} (h : a ≤ x) (hx : x < a + n) :
    m.storeLE a n 0 x = 0#8 := by
  induction n generalizing a with
  | zero => omega
  | succ n ih =>
    by_cases he : x = a
    · rw [he, storeLE, set_same]
    · rw [storeLE, set_other _ _ he]
      exact ih (a := a + 1) (by omega) (by omega)

theorem loadLE_congr (m m' : Mem) (a n : Nat) (h : ∀ x, a ≤ x → x < a + n → m' x = m x) :
    m'.loadLE a n = m.loadLE a n := by
  induction n generalizing a with
  | zero => rfl
  | succ n ih =>
    have htail := ih (a + 1) (fun x hx hn => h x (by omega) (by omega))
    simp only [loadLE, htail, h a (le_refl a) (by omega)]

theorem loadLE_lt (m : Mem) (a n : Nat) : m.loadLE a n < 256 ^ n := by
  induction n generalizing a with
  | zero => simp [loadLE]
  | succ n ih =>
    have hb := (m a).isLt
    have ht := ih (a + 1)
    rw [loadLE, pow_succ]
    omega

theorem loadLE_storeLE_same (m : Mem) (a n v : Nat) :
    (m.storeLE a n v).loadLE a n = v % 256 ^ n := by
  induction n generalizing a v with
  | zero => simp [loadLE, Nat.mod_one]
  | succ n ih =>
    have htail : (m.storeLE a (n + 1) v).loadLE (a + 1) n = v / 256 % 256 ^ n := by
      rw [← ih (a + 1) (v / 256)]
      apply loadLE_congr
      intro x hx _
      rw [storeLE, set_other _ _ (by omega)]
    have hhead : m.storeLE a (n + 1) v a = BitVec.ofNat 8 v := by rw [storeLE, set_same]
    rw [loadLE, htail, hhead, pow_succ', Nat.mod_mul, BitVec.toNat_ofNat]

theorem loadLE_storeLE_other (m : Mem) (a n v b k : Nat) (h : b + k ≤ a ∨ a + n ≤ b) :
    (m.storeLE a n v).loadLE b k = m.loadLE b k := by
  apply loadLE_congr
  intro x hx hk
  exact storeLE_outside m a n v x (by omega)

theorem loadLE_zero (m : Mem) (a n : Nat) (h : ∀ x, a ≤ x → x < a + n → m x = 0#8) :
    m.loadLE a n = 0 := by
  induction n generalizing a with
  | zero => rfl
  | succ n ih =>
    have htail := ih (a + 1) (fun x hx hn => h x (by omega) (by omega))
    simp [loadLE, htail, h a (le_refl a) (by omega)]

theorem load64_zero (m : Mem) {a : Nat} (h : ∀ x, a ≤ x → x < a + 8 → m x = 0#8) :
    m.load64 a = 0 :=
  m.loadLE_zero a 8 h

theorem load64_lt (m : Mem) (a : Nat) : m.load64 a < 2 ^ 64 := by
  have h := m.loadLE_lt a 8
  norm_num at h ⊢
  exact h

theorem load16_lt (m : Mem) (a : Nat) : m.load16 a < 2 ^ 16 := by
  have h := m.loadLE_lt a 2
  norm_num at h ⊢
  exact h

theorem load64_store64_same (m : Mem) (a v : Nat) : (m.store64 a v).load64 a = v % 2 ^ 64 := by
  have h := m.loadLE_storeLE_same a 8 v
  norm_num at h ⊢
  exact h

theorem load16_store16_same (m : Mem) (a v : Nat) : (m.store16 a v).load16 a = v % 2 ^ 16 := by
  have h := m.loadLE_storeLE_same a 2 v
  norm_num at h ⊢
  exact h

theorem load64_store64_other (m : Mem) {a b : Nat} (v : Nat) (h : b + 8 ≤ a ∨ a + 8 ≤ b) :
    (m.store64 a v).load64 b = m.load64 b :=
  m.loadLE_storeLE_other a 8 v b 8 h

theorem load64_store16_other (m : Mem) {a b : Nat} (v : Nat) (h : b + 8 ≤ a ∨ a + 2 ≤ b) :
    (m.store16 a v).load64 b = m.load64 b :=
  m.loadLE_storeLE_other a 2 v b 8 h

theorem load16_store64_other (m : Mem) {a b : Nat} (v : Nat) (h : b + 2 ≤ a ∨ a + 8 ≤ b) :
    (m.store64 a v).load16 b = m.load16 b :=
  m.loadLE_storeLE_other a 8 v b 2 h

theorem load16_store16_other (m : Mem) {a b : Nat} (v : Nat) (h : b + 2 ≤ a ∨ a + 2 ≤ b) :
    (m.store16 a v).load16 b = m.load16 b :=
  m.loadLE_storeLE_other a 2 v b 2 h

theorem store64_outside (m : Mem) {a x : Nat} (v : Nat) (h : x < a ∨ a + 8 ≤ x) :
    m.store64 a v x = m x :=
  m.storeLE_outside a 8 v x h

theorem store16_outside (m : Mem) {a x : Nat} (v : Nat) (h : x < a ∨ a + 2 ≤ x) :
    m.store16 a v x = m x :=
  m.storeLE_outside a 2 v x h

theorem store64_inside (m m' : Mem) {a x : Nat} (v : Nat) (h : a ≤ x) (hx : x < a + 8) :
    m'.store64 a v x = m.store64 a v x :=
  storeLE_inside m m' a 8 v x h hx

theorem store16_inside (m m' : Mem) {a x : Nat} (v : Nat) (h : a ≤ x) (hx : x < a + 2) :
    m'.store16 a v x = m.store16 a v x :=
  storeLE_inside m m' a 2 v x h hx

theorem load64_congr {m m' : Mem} {a : Nat} (h : ∀ x, a ≤ x → x < a + 8 → m' x = m x) :
    m'.load64 a = m.load64 a :=
  loadLE_congr m m' a 8 h

theorem load16_congr {m m' : Mem} {a : Nat} (h : ∀ x, a ≤ x → x < a + 2 → m' x = m x) :
    m'.load16 a = m.load16 a :=
  loadLE_congr m m' a 2 h

/-- Consecutive 64-bit words. -/
def storeWords (m : Mem) (a : Nat) : List Nat → Mem
  | [] => m
  | v :: vs => (m.store64 a v).storeWords (a + 8) vs

theorem storeWords_outside (m : Mem) (a x : Nat) (vs : List Nat)
    (h : x < a ∨ a + 8 * vs.length ≤ x) : m.storeWords a vs x = m x := by
  induction vs generalizing m a with
  | nil => rfl
  | cons v vs ih =>
    rw [List.length_cons] at h
    rw [storeWords, ih _ _ (by omega), store64_outside _ _ (by omega)]

theorem storeWords_load64 (m : Mem) (a i v : Nat) (vs : List Nat) (hv : vs[i]? = some v) :
    (m.storeWords a vs).load64 (a + 8 * i) = v % 2 ^ 64 := by
  induction vs generalizing m a i with
  | nil => simp at hv
  | cons w vs ih =>
    cases i with
    | zero =>
      have hw : w = v := by simpa using hv
      rw [← load64_store64_same m a v, storeWords, hw]
      exact load64_congr (fun x _ hx => storeWords_outside _ _ _ _ (by omega))
    | succ i =>
      have ha : a + 8 * (i + 1) = a + 8 + 8 * i := by omega
      rw [storeWords, ha]
      exact ih _ _ i (by simpa using hv)

/-- Two memories agree on every address of a set. -/
def SameOn (S : Set Nat) (m m' : Mem) : Prop := ∀ x ∈ S, m' x = m x

theorem SameOn.refl (S : Set Nat) (m : Mem) : SameOn S m m := fun _ _ => rfl

theorem SameOn.trans {S : Set Nat} {m m' m'' : Mem} (h : SameOn S m m') (h' : SameOn S m' m'') :
    SameOn S m m'' := fun x hx => (h' x hx).trans (h x hx)

theorem SameOn.mono {S T : Set Nat} {m m' : Mem} (h : SameOn T m m') (hs : S ⊆ T) :
    SameOn S m m' := fun x hx => h x (hs hx)

theorem SameOn.load64 {S : Set Nat} {m m' : Mem} (h : SameOn S m m') {a : Nat}
    (ha : ∀ x, a ≤ x → x < a + 8 → x ∈ S) : m'.load64 a = m.load64 a :=
  load64_congr (fun x hx hn => h x (ha x hx hn))

theorem SameOn.load16 {S : Set Nat} {m m' : Mem} (h : SameOn S m m') {a : Nat}
    (ha : ∀ x, a ≤ x → x < a + 2 → x ∈ S) : m'.load16 a = m.load16 a :=
  load16_congr (fun x hx hn => h x (ha x hx hn))

-- proofs use the lemmas above, never the byte loops behind the words
attribute [irreducible] load64 store64 load16 store16

end Mem

end Framework
