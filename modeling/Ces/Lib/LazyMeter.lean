import Mathlib.Algebra.Order.Ring.Nat

/-!
# A meter that is read now and then

A due of `rate` each `period` is taken in whole units, at the times somebody looks. Looking takes what is due since
the stamp, rounded down, and moves the stamp; when that is nothing, the stamp stays. `Observed` is what holds after
every look: nothing is taken twice, and what rounding loses is less than what was taken.
-/

namespace Ces.Lib

/-- The time up to which the due is taken, and what was taken. -/
structure LazyMeter where
  stamp : Nat
  total : Nat

namespace LazyMeter

variable {rate period start t t' : Nat} {m : LazyMeter}

/-- What is due since `stamp`, in whole units. -/
def due (rate period stamp t : Nat) : Nat := rate * (t - stamp) / period

/-- Look at the meter. -/
def observe (rate period : Nat) (m : LazyMeter) (t : Nat) : LazyMeter :=
  if due rate period m.stamp t = 0 then m else ⟨t, m.total + due rate period m.stamp t⟩

/-- The meter after a look at `t`, for a due that runs since `start`. -/
structure Observed (rate period start t : Nat) (m : LazyMeter) : Prop where
  started : start ≤ m.stamp
  seen : m.stamp ≤ t
  upper : m.total * period ≤ rate * (m.stamp - start)
  lower : rate * (m.stamp - start) ≤ 2 * (m.total * period)
  rest : rate * (t - m.stamp) < period

theorem observed_start (hperiod : 0 < period) : Observed rate period start start ⟨start, 0⟩ := by
  refine ⟨le_refl _, le_refl _, ?_, ?_, ?_⟩ <;> simp [hperiod]

/-- The time since the start is the time up to the stamp and the time after it. -/
theorem Observed.split (h : Observed rate period start t m) (ht : t ≤ t') :
    rate * (t' - start) = rate * (m.stamp - start) + rate * (t' - m.stamp) := by
  have hstarted := h.started
  have hseen := h.seen
  rw [← Nat.mul_add]
  congr 1
  omega

theorem Observed.observe (h : Observed rate period start t m) (ht : t ≤ t') :
    Observed rate period start t' (m.observe rate period t') := by
  have hperiod : 0 < period := Nat.zero_lt_of_lt h.rest
  unfold LazyMeter.observe
  by_cases hnone : due rate period m.stamp t' = 0
  · rw [if_pos hnone]
    refine ⟨h.started, h.seen.trans ht, h.upper, h.lower, ?_⟩
    exact (Nat.div_eq_zero_iff_lt hperiod).mp hnone
  · rw [if_neg hnone]
    have hfloor : due rate period m.stamp t' * period ≤ rate * (t' - m.stamp) := Nat.div_mul_le_self _ _
    have hceil : rate * (t' - m.stamp) < (due rate period m.stamp t' + 1) * period := by
      rw [Nat.mul_comm _ period]
      exact Nat.lt_mul_div_succ _ hperiod
    have hsplit := h.split ht
    have hupper := h.upper
    have hlower := h.lower
    have hpos : period ≤ due rate period m.stamp t' * period := Nat.le_mul_of_pos_left period (Nat.pos_of_ne_zero hnone)
    refine ⟨?_, le_refl _, ?_, ?_, ?_⟩
    · exact h.started.trans (h.seen.trans ht)
    · rw [hsplit, Nat.add_mul]
      omega
    · rw [hsplit, Nat.add_mul]
      rw [Nat.add_mul] at hceil
      omega
    · simpa using hperiod

/-- What was taken is at most what is due, and at least half of it. -/
theorem Observed.bounds (h : Observed rate period start t m) :
    m.total ≤ due rate period start t ∧ due rate period start t ≤ 2 * m.total := by
  have hperiod : 0 < period := Nat.zero_lt_of_lt h.rest
  have hsplit := h.split (le_refl t)
  have hupper := h.upper
  have hlower := h.lower
  have hrest := h.rest
  unfold due
  constructor
  · rw [Nat.le_div_iff_mul_le hperiod]
    omega
  · apply Nat.le_of_lt_succ
    rw [Nat.div_lt_iff_lt_mul hperiod, Nat.succ_mul, Nat.mul_assoc]
    omega

end LazyMeter

end Ces.Lib
