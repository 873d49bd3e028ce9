import TrailingYear.Decimal.Basic
import Mathlib.Algebra.Order.Field.Rat
import Mathlib.Algebra.Ring.Int.Parity
import Mathlib.Tactic.FieldSimp
import Mathlib.Tactic.Linarith
import Mathlib.Tactic.NormNum
import Mathlib.Tactic.Positivity
import Mathlib.Tactic.Ring

/-! # The number of a decimal

Comparisons of decimals are those of the exact numbers they stand for. -/

namespace TrailingYear

theorem cast_tenTo (n : Nat) : (tenTo n : ℚ) = 10 ^ n := by
  have : tenTo n = 10 ^ n := rfl
  rw [this]
  norm_num

namespace Decimal

theorem toRat_eq (d : Decimal) : d.toRat = d.mantissa / 10 ^ d.scale := by
  rw [toRat, Rat.mkRat_eq_div, cast_tenTo]

@[simp] theorem toRat_zero : zero.toRat = 0 := by
  rw [toRat_eq]
  simp [mantissa, zero]

@[simp] theorem toRat_one : one.toRat = 1 := by
  rw [toRat_eq]
  simp [mantissa, one]

theorem mantissa_eq (d : Decimal) : (d.mantissa : ℚ) = d.toRat * 10 ^ d.scale := by
  rw [toRat_eq]
  field_simp

/-- A decimal is an integer when it is counted in units of a place that it does not go beyond. -/
theorem toRat_mul_pow {d : Decimal} {s : Nat} (h : d.scale ≤ s) :
    d.toRat * 10 ^ s = (d.mantissa * 10 ^ (s - d.scale) : Int) := by
  push_cast
  rw [mantissa_eq, mul_assoc, ← pow_add, Nat.add_sub_cancel' h]

theorem cast_widened (a : Decimal) (s : Nat) :
    (a.widened s : ℚ) = a.toRat * 10 ^ (a.scale + s) := by
  rw [widened, Int.cast_mul, mantissa_eq, Int.cast_natCast, cast_tenTo, mul_assoc, pow_add]

theorem le_iff_toRat {a b : Decimal} : a ≤ b ↔ a.toRat ≤ b.toRat := by
  change a.widened b.scale ≤ b.widened a.scale ↔ _
  rw [← Int.cast_le (R := ℚ), cast_widened, cast_widened, Nat.add_comm b.scale]
  exact mul_le_mul_iff_left₀ (by positivity)

theorem lt_iff_toRat {a b : Decimal} : a < b ↔ a.toRat < b.toRat := by
  change a.widened b.scale < b.widened a.scale ↔ _
  rw [← Int.cast_lt (R := ℚ), cast_widened, cast_widened, Nat.add_comm b.scale]
  exact mul_lt_mul_iff_left₀ (by positivity)

theorem same_iff_toRat {a b : Decimal} : a.Same b ↔ a.toRat = b.toRat := by
  unfold Same
  rw [← Int.cast_inj (α := ℚ), cast_widened, cast_widened, Nat.add_comm b.scale]
  exact mul_left_inj' (by positivity)

theorem isZero_iff_toRat {d : Decimal} : d.IsZero ↔ d.toRat = 0 := by
  unfold IsZero
  rw [← Int.cast_eq_zero (α := ℚ), mantissa_eq]
  simp

theorem isPositive_iff_toRat {d : Decimal} : d.IsPositive ↔ 0 < d.toRat := by
  unfold IsPositive
  rw [← Int.cast_pos (R := ℚ), mantissa_eq]
  simp

theorem isNegative_iff_toRat {d : Decimal} : d.IsNegative ↔ d.toRat < 0 := by
  unfold IsNegative
  rw [← Int.cast_lt_zero (R := ℚ), mantissa_eq]
  simp [mul_neg_iff]

theorem negative_iff {d : Decimal} (h : ¬ d.IsZero) : d.negative = true ↔ d.mantissa < 0 := by
  unfold IsZero mantissa at *
  cases hn : d.negative
  · simp
  · simp only [hn, reduceIte] at h ⊢
    simp only [true_iff]
    omega

theorem not_lt_of_le {a b : Decimal} (h : a ≤ b) : ¬ b < a := by
  rw [lt_iff_toRat, not_lt]
  exact le_iff_toRat.mp h

theorem lt_of_not_le {a b : Decimal} (h : ¬ a ≤ b) : b < a := by
  rw [le_iff_toRat, not_le] at h
  exact lt_iff_toRat.mpr h

theorem le_trans {a b c : Decimal} (h : a ≤ b) (k : b ≤ c) : a ≤ c := by
  rw [le_iff_toRat] at *
  exact h.trans k

theorem le_of_lt {a b : Decimal} (h : a < b) : a ≤ b := by
  rw [lt_iff_toRat] at h
  exact le_iff_toRat.mpr h.le

theorem Same.symm {a b : Decimal} (h : a.Same b) : b.Same a :=
  same_iff_toRat.mpr (same_iff_toRat.mp h).symm

/-- Whatever fits has a decimal. -/
theorem ofParts?_fits {m : Int} {s : Nat} (hm : m.natAbs < capacity) (hs : s ≤ maxScale) :
    ∃ d, ofParts? m s = some d ∧ d.mantissa = m ∧ d.scale = s := by
  have h : ofParts? m s = some ⟨decide (m < 0), m.natAbs, s, hm, hs⟩ := dif_pos ⟨hm, hs⟩
  obtain ⟨hd, hds, _⟩ := ofParts?_eq_some.mp h
  exact ⟨_, h, hd, hds⟩

end Decimal

/-! ## Half to even

Rounding takes the nearest integer, and of two that are equally near the even one. What needs no
rounding is kept as it is. -/

/-- No integer is nearer to `x` than `n`, and none that is as near is even unless `n` is. -/
def IsRounded (x : ℚ) (n : ℤ) : Prop := |x - n| ≤ 1 / 2 ∧ (|x - n| = 1 / 2 → Even n)

theorem IsRounded.intCast (n : ℤ) : IsRounded n n := by
  constructor
  · simp
  · intro h
    norm_num at h

theorem IsRounded.unique {x : ℚ} {m n : ℤ} (hm : IsRounded x m) (hn : IsRounded x n) : m = n := by
  obtain ⟨hm, hme⟩ := hm
  obtain ⟨hn, hne⟩ := hn
  by_contra hmn
  have hdist : (1 : ℚ) ≤ |(m : ℚ) - n| := by
    have hz : 1 ≤ |m - n| := Int.one_le_abs (sub_ne_zero.mpr hmn)
    exact_mod_cast hz
  have htri := abs_sub_le (m : ℚ) x n
  rw [abs_sub_comm (m : ℚ) x] at htri
  -- both are half a step away, on the two sides of `x`
  have hem : Even m := hme (by linarith)
  have hen : Even n := hne (by linarith)
  have hone : |(m : ℚ) - n| = 1 := by linarith
  have hint : |m - n| = 1 := by exact_mod_cast hone
  have heven := hem.sub hen
  rw [← even_abs, hint] at heven
  exact absurd heven (by decide)

/-- Half way between two integers the even one is taken. -/
theorem IsRounded.even_of_tie {x : ℚ} {k n : ℤ} (h : IsRounded x k) (hx : x = n + 1 / 2) :
    Even k := by
  obtain ⟨hnear, heven⟩ := h
  apply heven
  refine le_antisymm hnear ?_
  rw [hx]
  rcases Int.lt_or_le n k with hlt | hge
  · have hstep : (n : ℚ) + 1 ≤ k := by exact_mod_cast hlt
    exact le_abs.mpr (Or.inr (by linarith))
  · have hstep : (k : ℚ) ≤ n := by exact_mod_cast hge
    exact le_abs.mpr (Or.inl (by linarith))

theorem isRounded_roundDiv (n : ℤ) {d : ℕ} (hd : 0 < d) : IsRounded (n / d) (roundDiv n d) := by
  have hd' : (0 : ℤ) < d := by omega
  have hdq : (0 : ℚ) < d := by exact_mod_cast hd
  have hn := Int.mul_ediv_add_emod n d
  have hlo := Int.emod_nonneg n hd'.ne'
  have hhi := Int.emod_lt_of_pos n hd'
  have hx : (n : ℚ) / d = (n / (d : ℤ) : ℤ) + (n % (d : ℤ) : ℤ) / d := by
    rw [div_eq_iff hdq.ne', add_mul, div_mul_cancel₀ _ hdq.ne', mul_comm]
    exact_mod_cast hn.symm
  rw [hx]
  unfold roundDiv
  generalize n / (d : ℤ) = q at *
  generalize n % (d : ℤ) = r at *
  have hrq : (0 : ℚ) ≤ r / d := div_nonneg (by exact_mod_cast hlo) hdq.le
  dsimp only
  split
  · have hlt : (r : ℚ) / d < 1 / 2 := by
      rw [div_lt_iff₀ hdq]
      have : (2 * r : ℚ) < d := by exact_mod_cast ‹2 * r < d›
      linarith
    rw [IsRounded, add_sub_cancel_left, abs_of_nonneg hrq]
    exact ⟨hlt.le, fun h => absurd h hlt.ne⟩
  split
  · have heq : (r : ℚ) / d = 1 / 2 := by
      rw [div_eq_iff hdq.ne']
      have : (2 * r : ℚ) = d := by exact_mod_cast ‹2 * r = d›
      linarith
    rw [IsRounded, heq]
    rcases Int.emod_two_eq_zero_or_one q with h | h
    · rw [h, add_zero]
      exact ⟨by norm_num, fun _ => Int.even_iff.mpr h⟩
    · rw [h]
      push_cast
      exact ⟨by norm_num, fun _ => Int.even_iff.mpr (by omega)⟩
  · have hlt : 1 / 2 < (r : ℚ) / d := by
      rw [lt_div_iff₀ hdq]
      have : (d : ℚ) < 2 * r := by exact_mod_cast (by omega : (d : ℤ) < 2 * r)
      linarith
    have hlt' : (r : ℚ) / d < 1 := by
      rw [div_lt_one hdq]
      exact_mod_cast hhi
    have habs : |(q : ℚ) + r / d - (q + 1 : ℤ)| = 1 - r / d := by
      push_cast
      rw [abs_of_nonpos (by linarith)]
      ring
    rw [IsRounded, habs]
    exact ⟨by linarith, fun h => by linarith⟩

theorem roundDiv_mul (m : ℤ) {d : ℕ} (hd : 0 < d) : roundDiv (m * d) d = m := by
  have hdq : (d : ℚ) ≠ 0 := by exact_mod_cast hd.ne'
  have h := isRounded_roundDiv (m * d) hd
  rw [Int.cast_mul, Int.cast_natCast, mul_div_cancel_right₀ _ hdq] at h
  exact h.unique (IsRounded.intCast m)

namespace Decimal

/-- A quotient with at most `s` places is its own nearest decimal. -/
theorem nearest?_exact {n m : ℤ} {d s : ℕ} (hd : 0 < d) (h : n * tenTo s = m * d)
    (hm : m.natAbs < capacity) (hs : s ≤ maxScale) :
    ∃ c, nearest? n d s = some c ∧ c.mantissa = m ∧ c.scale = s := by
  obtain ⟨c, hc, hcm, hcs⟩ := ofParts?_fits hm hs
  refine ⟨c, ?_, hcm, hcs⟩
  cases s with
  | zero =>
    have hn : n = m * d := by simpa [tenTo] using h
    rw [nearest?, hn, roundDiv_mul m hd, hc]
  | succ s => rw [nearest?, h, roundDiv_mul m hd, hc, Option.orElse_some]

def IsRoundedTo (places : ℕ) (x : ℚ) (d : Decimal) : Prop :=
  ∃ n : ℤ, IsRounded (x * 10 ^ places) n ∧ d.toRat = n / 10 ^ places

theorem IsRoundedTo.unique {places : ℕ} {x : ℚ} {c d : Decimal} (hc : IsRoundedTo places x c)
    (hd : IsRoundedTo places x d) : c.toRat = d.toRat := by
  obtain ⟨m, hm, hc⟩ := hc
  obtain ⟨n, hn, hd⟩ := hd
  rw [hc, hd, hm.unique hn]

theorem round_of_scale_le {d : Decimal} {places : ℕ} (h : d.scale ≤ places) : d.round places = d :=
  dif_pos h

theorem scale_round {d : Decimal} {places : ℕ} (h : ¬ d.scale ≤ places) :
    (d.round places).scale = places := by
  simp [round, h]

theorem mantissa_round {d : Decimal} {places : ℕ} (h : ¬ d.scale ≤ places) :
    (d.round places).mantissa = roundDiv d.mantissa (tenTo (d.scale - places)) := by
  have hr : (d.round places).mantissa =
      if (if d.IsZero then d.negative
      else decide (roundDiv d.mantissa (tenTo (d.scale - places)) < 0)) then
        -((roundDiv d.mantissa (tenTo (d.scale - places))).natAbs : ℤ)
      else (roundDiv d.mantissa (tenTo (d.scale - places))).natAbs := by
    rw [round, dif_neg h]
    rfl
  rw [hr]
  by_cases hz : d.IsZero
  · have hm : roundDiv d.mantissa (tenTo (d.scale - places)) = 0 := by
      have hm : d.mantissa = 0 * (tenTo (d.scale - places) : ℤ) := by
        rw [zero_mul]
        exact hz
      rw [hm]
      exact roundDiv_mul 0 (tenTo_pos _)
    simp [hm]
  · rw [if_neg hz]
    generalize roundDiv d.mantissa _ = m
    simp only [decide_eq_true_eq]
    split <;> omega

theorem isRoundedTo_round (d : Decimal) (places : ℕ) :
    IsRoundedTo places d.toRat (d.round places) := by
  by_cases h : d.scale ≤ places
  · have hx := toRat_mul_pow h
    refine ⟨d.mantissa * 10 ^ (places - d.scale), hx ▸ IsRounded.intCast _, ?_⟩
    rw [round_of_scale_le h, ← hx]
    field_simp
  · refine ⟨(d.round places).mantissa, ?_, ?_⟩
    · have hx : d.toRat * 10 ^ places = d.mantissa / tenTo (d.scale - places) := by
        rw [mantissa_eq, cast_tenTo]
        rw [eq_div_iff (by positivity), mul_assoc, ← pow_add]
        congr 2
        omega
      rw [hx, mantissa_round h]
      exact isRounded_roundDiv _ (tenTo_pos _)
    · rw [toRat_eq, scale_round h]

end Decimal

end TrailingYear
