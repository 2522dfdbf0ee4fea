import ApoptOS.Framework.Words

namespace ApoptOS

open Framework

/-- The clock period in femtoseconds, as a 32-bit variable. -/
def clockPeriod (capabilities : Nat) : Nat := (capabilities >>> 32) % 2 ^ 32

/-- `us * (1000000000 / clock_period)` in 64 bits. -/
def sleepTicks (capabilities us : Nat) : Nat :=
  us * (1000000000 / clockPeriod capabilities) % 2 ^ 64

/-- The loop of `hpet_usleep` before its reading `n` of the counter; the result is the reading
that ends it. -/
def usleepLoop (counterValue : Nat → Nat) (targetValue : Nat) : Nat → Nat → Option Nat
  | 0, _ => none
  | fuel + 1, n =>
    if counterValue n < targetValue then usleepLoop counterValue targetValue fuel (n + 1)
    else some n

/-- `counterValue n` is what the counter register holds when it is read for the `n`th time. -/
def hpetUsleep (fuel capabilities : Nat) (counterValue : Nat → Nat) (us : Nat) : Option Nat :=
  let targetValue := add64 (counterValue 0) (sleepTicks capabilities us)
  usleepLoop counterValue targetValue fuel 1

/-- Readings of a 64-bit counter that stood at `start` at the first one and had advanced by
`ticks n` at the `n`th. -/
structure CounterReadings (start : Nat) (ticks counterValue : Nat → Nat) : Prop where
  first : ticks 0 = 0
  mono : Monotone ticks
  reading : ∀ n, counterValue n = (start + ticks n) % 2 ^ 64

/-- However the counter is read: when `hpet_usleep` returns, `us` microseconds' worth of ticks
have elapsed since its first reading. -/
def NeverEarly (capabilities start us : Nat) : Prop :=
  ∀ ticks counterValue, CounterReadings start ticks counterValue →
    ∀ fuel n, hpetUsleep fuel capabilities counterValue us = some n →
      us * 1000000000 ≤ ticks n * clockPeriod capabilities

section Loop

variable {counterValue : Nat → Nat} {targetValue fuel n i : Nat}

/-- The loop ends at a reading that has reached the target, the first such one. -/
theorem usleepLoop_some (h : usleepLoop counterValue targetValue fuel n = some i) :
    n ≤ i ∧ targetValue ≤ counterValue i ∧ ∀ j, n ≤ j → j < i →
      counterValue j < targetValue := by
  induction fuel generalizing n with
  | zero => simp [usleepLoop] at h
  | succ fuel ih =>
    rw [usleepLoop] at h
    split_ifs at h with hlt
    · obtain ⟨hle, hreached, hbefore⟩ := ih h
      refine ⟨by omega, hreached, fun j hj hji => ?_⟩
      by_cases hjn : j = n
      · rwa [hjn]
      · exact hbefore j (by omega) hji
    · obtain rfl := Option.some.inj h
      exact ⟨le_refl n, by omega, fun j hj hjn => by omega⟩

theorem hpetUsleep_stop {capabilities us : Nat}
    (h : add64 (counterValue 0) (sleepTicks capabilities us) ≤ counterValue 1) :
    hpetUsleep 1 capabilities counterValue us = some 1 := by
  simp only [hpetUsleep, usleepLoop]
  exact if_neg (by omega)

end Loop

section Ticks

variable {capabilities start us : Nat}

/-- The counter stands at its first reading, then at the one that is `t` ticks later. -/
theorem counterReadings_jump (start t : Nat) :
    CounterReadings start (fun n => if n = 0 then 0 else t)
    (fun n => (start + if n = 0 then 0 else t) % 2 ^ 64) := by
  refine ⟨rfl, fun i j hij => ?_, fun _ => rfl⟩
  show (if i = 0 then 0 else t) ≤ (if j = 0 then 0 else t)
  split_ifs <;> omega

/-- Without a wrap `hpet_usleep` waits for `sleepTicks`, and may return right then. -/
theorem NeverEarly.ticks (h : NeverEarly capabilities start us)
    (hwrap : start + sleepTicks capabilities us < 2 ^ 64) :
    us * 1000000000 ≤ sleepTicks capabilities us * clockPeriod capabilities := by
  have hread := counterReadings_jump start (sleepTicks capabilities us)
  have hstart : start % 2 ^ 64 = start := Nat.mod_eq_of_lt (by omega)
  refine h _ _ hread 1 1 ?_
  apply hpetUsleep_stop
  show add64 ((start + 0) % 2 ^ 64) _ ≤ (start + sleepTicks capabilities us) % 2 ^ 64
  rw [Nat.add_zero, hstart, add64_of_lt hwrap, Nat.mod_eq_of_lt hwrap]

/-- With a wrap the target lies behind the counter: it returns at once. -/
theorem NeverEarly.wrap (h : NeverEarly capabilities start us) (hstart : start < 2 ^ 64)
    (hwrap : 2 ^ 64 ≤ start + sleepTicks capabilities us) : us = 0 := by
  have hread := counterReadings_jump start 0
  have hticks : sleepTicks capabilities us < 2 ^ 64 := Nat.mod_lt _ (by positivity)
  have hnow := h _ _ hread 1 1 ?_
  · simp only [one_ne_zero, if_false, Nat.zero_mul, nonpos_iff_eq_zero] at hnow
    omega
  apply hpetUsleep_stop
  show add64 ((start + 0) % 2 ^ 64) _ ≤ (start + 0) % 2 ^ 64
  rw [Nat.add_zero, Nat.mod_eq_of_lt hstart]
  unfold add64
  omega

/-- The ratio is truncated: the ticks are enough only if the period divides the microsecond. -/
theorem sleepTicks_exact (hus : us ≠ 0)
    (h : us * 1000000000 ≤ sleepTicks capabilities us * clockPeriod capabilities) :
    clockPeriod capabilities ∣ 1000000000 ∧
      sleepTicks capabilities us = us * (1000000000 / clockPeriod capabilities) := by
  obtain ⟨period, hperiod⟩ : ∃ period, period = clockPeriod capabilities := ⟨_, rfl⟩
  obtain ⟨ratio, hratio⟩ : ∃ ratio, ratio = 1000000000 / period := ⟨_, rfl⟩
  rw [← hperiod] at h ⊢
  have hle : sleepTicks capabilities us ≤ us * ratio := by
    rw [sleepTicks, ← hperiod, ← hratio]
    exact Nat.mod_le _ _
  have hratio_le : ratio * period ≤ 1000000000 := hratio ▸ Nat.div_mul_le_self _ _
  have hpos : 0 < us := Nat.pos_of_ne_zero hus
  have hchain : us * 1000000000 ≤ us * (ratio * period) :=
    calc us * 1000000000 ≤ sleepTicks capabilities us * period := h
      _ ≤ us * ratio * period := Nat.mul_le_mul_right period hle
      _ = us * (ratio * period) := Nat.mul_assoc us ratio period
  have hexact : ratio * period = 1000000000 :=
    le_antisymm hratio_le (Nat.le_of_mul_le_mul_left hchain hpos)
  refine ⟨⟨ratio, by rw [← hexact, Nat.mul_comm]⟩, ?_⟩
  rw [← hratio]
  refine le_antisymm hle ?_
  have hperiod_pos : 0 < period := by
    rcases Nat.eq_zero_or_pos period with rfl | hp
    · omega
    · exact hp
  apply Nat.le_of_mul_le_mul_right _ hperiod_pos
  rwa [Nat.mul_assoc, hexact]

end Ticks

/-- For every clock period, counter value at entry and `us`: `hpet_usleep` never returns early
exactly if nothing is to be waited for, or the period divides the microsecond and the target
does not wrap around. -/
theorem hpet_usleep_never_early_iff (capabilities start us : Nat) (hstart : start < 2 ^ 64) :
    NeverEarly capabilities start us ↔
      us = 0 ∨ clockPeriod capabilities ∣ 1000000000 ∧
        start + us * (1000000000 / clockPeriod capabilities) < 2 ^ 64 := by
  constructor
  · intro h
    by_cases hus : us = 0
    · exact Or.inl hus
    · by_cases hwrap : start + sleepTicks capabilities us < 2 ^ 64
      · obtain ⟨hdvd, hticks⟩ := sleepTicks_exact hus (h.ticks hwrap)
        exact Or.inr ⟨hdvd, by rwa [← hticks]⟩
      · exact absurd (h.wrap hstart (by omega)) hus
  · rintro (rfl | ⟨hdvd, hfits⟩) ticks counterValue hread fuel n hok
    · simp
    · obtain ⟨-, hreached, -⟩ := usleepLoop_some hok
      have hticks : sleepTicks capabilities us = us * (1000000000 / clockPeriod capabilities) :=
        Nat.mod_eq_of_lt (by omega)
      have hfirst : counterValue 0 = start := by
        rw [hread.reading 0, hread.first, Nat.add_zero, Nat.mod_eq_of_lt hstart]
      rw [hfirst, hticks, add64_of_lt hfits, hread.reading n] at hreached
      have helapsed : us * (1000000000 / clockPeriod capabilities) ≤ ticks n := by
        have hmod := Nat.mod_le (start + ticks n) (2 ^ 64)
        omega
      calc us * 1000000000
          = us * (1000000000 / clockPeriod capabilities) * clockPeriod capabilities := by
            rw [Nat.mul_assoc, Nat.div_mul_cancel hdvd]
        _ ≤ ticks n * clockPeriod capabilities := Nat.mul_le_mul_right _ helapsed

/-- A counter of 100 MHz. -/
theorem hpet_usleep_never_early_10ns : NeverEarly (10000000 <<< 32) 0 1000 :=
  (hpet_usleep_never_early_iff (10000000 <<< 32) 0 1000 (by decide)).mpr
    (Or.inr ⟨by decide, by decide⟩)

/-- The counter of 14.318 MHz, common on PCs: a millisecond ends after 14000 of the 14319 ticks
that it takes. -/
theorem hpet_usleep_returns_early :
    clockPeriod (69841279 <<< 32) = 69841279 ∧
    hpetUsleep 1 (69841279 <<< 32) (fun n => if n = 0 then 0 else 14000) 1000 = some 1 ∧
    14000 * 69841279 < 1000 * 1000000000 ∧ ¬ NeverEarly (69841279 <<< 32) 0 1000 := by
  have hrun : hpetUsleep 1 (69841279 <<< 32) (fun n => if n = 0 then 0 else 14000) 1000 =
      some 1 := by
    decide +kernel
  refine ⟨by decide, hrun, by decide, fun h => ?_⟩
  have hread : CounterReadings 0 (fun n => if n = 0 then 0 else 14000)
      (fun n => if n = 0 then 0 else 14000) := by
    refine ⟨rfl, (counterReadings_jump 0 14000).mono, fun n => ?_⟩
    show (if n = 0 then 0 else 14000) = (0 + if n = 0 then 0 else 14000) % 2 ^ 64
    split_ifs <;> rfl
  have hearly := h _ _ hread 1 1 hrun
  exact absurd hearly (by decide)

end ApoptOS
