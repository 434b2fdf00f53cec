import Mathlib.Algebra.Order.Ring.Int
import Mathlib.Tactic.Linarith
import Mathlib.Tactic.Ring

/-!
# Two's complement words

Signed machine integers are kept as `Int`; `signed m v` is the value a word of modulus `2 * m`
holds after `v` was written to it (`m = 2 ^ 63` for `int64_t`, `m = 2 ^ 47` for a 48-bit field).
Unsigned 64-bit operands are `UInt64`; `asInt64` is the cast to `int64_t` and `asUInt64` the cast
back. The lemmas turn every cast into linear arithmetic over `Int`.
-/

namespace Ces.Lib

/-- The value of a two's complement word of modulus `2 * m` after writing `v`. -/
def signed (m v : Int) : Int := (v + m) % (2 * m) - m

section signed

variable {m : Int} (hm : 0 < m)
include hm

theorem signed_lower (v : Int) : -m ≤ signed m v := by
  have := Int.emod_nonneg (v + m) (b := 2 * m) (by omega)
  unfold signed
  omega

theorem signed_upper (v : Int) : signed m v < m := by
  have := Int.emod_lt_of_pos (v + m) (b := 2 * m) (by omega)
  unfold signed
  omega

end signed

/-- A value in range is stored as it is. -/
theorem signed_of_range {m v : Int} (hlow : -m ≤ v) (hhigh : v < m) : signed m v = v := by
  unfold signed
  rw [Int.emod_eq_of_lt (by omega) (by omega)]
  omega

/-- Writing only sees the value modulo the word. -/
theorem signed_add_mul (m v k : Int) : signed m (v + 2 * m * k) = signed m v := by
  unfold signed
  rw [show v + 2 * m * k + m = v + m + 2 * m * k by ring, Int.add_mul_emod_self_left]

/-- A stored value differs from the written one by a multiple of the modulus. -/
theorem signed_eq_sub (m v : Int) : signed m v = v - 2 * m * ((v + m) / (2 * m)) := by
  unfold signed
  rw [Int.emod_def]
  ring

/-- A value reduced in a wider word first is stored the same in a narrower one. -/
theorem signed_signed {m n : Int} (hdvd : m ∣ n) (v : Int) : signed m (signed n v) = signed m v := by
  obtain ⟨k, rfl⟩ := hdvd
  rw [signed_eq_sub (m * k) v,
    show v - 2 * (m * k) * ((v + m * k) / (2 * (m * k))) =
      v + 2 * m * (-(k * ((v + m * k) / (2 * (m * k))))) by ring]
  exact signed_add_mul m v _

theorem signed_add_signed (m v d : Int) : signed m (signed m v + d) = signed m (v + d) := by
  rw [signed_eq_sub m v,
    show v - 2 * m * ((v + m) / (2 * m)) + d = v + d + 2 * m * (-((v + m) / (2 * m))) by ring]
  exact signed_add_mul m (v + d) _

/-- `int64_t` arithmetic result. -/
def int64 (v : Int) : Int := signed (2 ^ 63) v

theorem int64_of_range {v : Int} (hlow : -2 ^ 63 ≤ v) (hhigh : v < 2 ^ 63) : int64 v = v :=
  signed_of_range hlow hhigh

theorem int64_add_int64 (v d : Int) : int64 (int64 v + d) = int64 (v + d) :=
  signed_add_signed (2 ^ 63) v d

/-- `static_cast<int64_t>` of an unsigned operand. -/
def asInt64 (a : UInt64) : Int := int64 a.toNat

/-- `static_cast<uint64_t>` of a signed value. -/
def asUInt64 (v : Int) : UInt64 := UInt64.ofNat (v % 2 ^ 64).toNat

theorem asInt64_of_lt {a : UInt64} (h : a.toNat < 2 ^ 63) : asInt64 a = a.toNat :=
  int64_of_range (by omega) (by exact_mod_cast h)

/-- At and above `2 ^ 63` the cast is negative. -/
theorem asInt64_of_ge {a : UInt64} (h : 2 ^ 63 ≤ a.toNat) : asInt64 a = a.toNat - 2 ^ 64 := by
  have ha := a.toNat_lt
  unfold asInt64 int64 signed
  omega

theorem asInt64_cases (a : UInt64) :
    (a.toNat < 2 ^ 63 ∧ asInt64 a = a.toNat) ∨ (2 ^ 63 ≤ a.toNat ∧ asInt64 a = a.toNat - 2 ^ 64) := by
  rcases Nat.lt_or_ge a.toNat (2 ^ 63) with h | h
  · exact Or.inl ⟨h, asInt64_of_lt h⟩
  · exact Or.inr ⟨h, asInt64_of_ge h⟩

theorem asUInt64_toNat (v : Int) : ((asUInt64 v).toNat : Int) = v % 2 ^ 64 := by
  have hlow := Int.emod_nonneg v (b := 2 ^ 64) (by norm_num)
  have hhigh := Int.emod_lt_of_pos v (b := 2 ^ 64) (by norm_num)
  unfold asUInt64
  rw [UInt64.toNat_ofNat_of_lt' (by simp only [UInt64.size]; omega)]
  omega

theorem asUInt64_toNat_of_nonneg {v : Int} (hlow : 0 ≤ v) (hhigh : v < 2 ^ 64) :
    ((asUInt64 v).toNat : Int) = v := by
  rw [asUInt64_toNat, Int.emod_eq_of_lt hlow hhigh]

/-- The cast to unsigned sees a value modulo the word. -/
theorem asUInt64_int64 (v : Int) : asUInt64 (int64 v) = asUInt64 v := by
  unfold asUInt64 int64
  rw [signed_eq_sub]
  congr 2
  omega

/-- Casting there and back gives the operand. -/
@[simp] theorem asUInt64_asInt64 (a : UInt64) : asUInt64 (asInt64 a) = a := by
  have ha := a.toNat_lt
  unfold asInt64
  rw [asUInt64_int64]
  apply UInt64.toNat_inj.mp
  have hcast := asUInt64_toNat (a.toNat : Int)
  omega

/-- A signed value survives the cast to unsigned and back. -/
theorem asInt64_asUInt64 {v : Int} (hlow : -2 ^ 63 ≤ v) (hhigh : v < 2 ^ 63) : asInt64 (asUInt64 v) = v := by
  have hcast := asUInt64_toNat v
  rcases asInt64_cases (asUInt64 v) with ⟨hrange, heq⟩ | ⟨hrange, heq⟩
  · rw [heq]
    omega
  · rw [heq]
    omega

theorem toNat_min_uint64 (a b : UInt64) : (min a b).toNat = min a.toNat b.toNat := by
  change (if a ≤ b then a else b).toNat = _
  split_ifs with h <;> rw [UInt64.le_iff_toNat_le] at h <;> omega

end Ces.Lib
