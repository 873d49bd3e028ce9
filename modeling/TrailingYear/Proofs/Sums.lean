import TrailingYear.MonthlySeries
import TrailingYear.Proofs.Decimal.Rounding
import Mathlib.Algebra.BigOperators.Group.List.Basic
import Mathlib.Algebra.Order.BigOperators.Group.List

/-! # Sums of decimals

A sum starts from zero and goes from left to right; it stops at the first overflow. It
is exact where no decimal in it has more than `s` places and the absolute values leave
room for that many. -/

namespace TrailingYear
namespace Decimal

def greatest (places : ℕ) : ℚ := (2 ^ 96 - 1) / 10 ^ places

theorem add?_of_isZero {a : Decimal} (h : a.IsZero) (b : Decimal) : a.add? b = some b := if_pos h

/-- The sum of two decimals has no more places than the wider of the two. -/
theorem exists_sum_mantissa (a b : Decimal) :
    ∃ m : ℤ, (m : ℚ) = (a.toRat + b.toRat) * 10 ^ max a.scale b.scale := by
  refine ⟨a.mantissa * tenTo (max a.scale b.scale - a.scale) +
    b.mantissa * tenTo (max a.scale b.scale - b.scale), ?_⟩
  push_cast
  rw [cast_tenTo, cast_tenTo, mantissa_eq, mantissa_eq, mul_assoc, mul_assoc, ← pow_add, ← pow_add,
    Nat.add_sub_cancel' (le_max_left ..), Nat.add_sub_cancel' (le_max_right ..), add_mul]

/-- With room for the result at the wider of the two scales nothing is rounded. -/
theorem add?_exact {a b : Decimal} {s : ℕ} (ha : a.scale ≤ s) (hb : b.scale ≤ s) (hs : s ≤ maxScale)
    (h : |a.toRat + b.toRat| ≤ greatest s) :
    ∃ c, a.add? b = some c ∧ c.toRat = a.toRat + b.toRat ∧ c.scale ≤ s := by
  by_cases haz : a.IsZero
  · refine ⟨b, add?_of_isZero haz b, ?_, hb⟩
    rw [isZero_iff_toRat.mp haz, zero_add]
  by_cases hbz : b.IsZero
  · refine ⟨a, by rw [add?, if_neg haz, if_pos hbz], ?_, ha⟩
    rw [isZero_iff_toRat.mp hbz, add_zero]
  have hmax : max a.scale b.scale ≤ s := max_le ha hb
  obtain ⟨m, hm⟩ := exists_sum_mantissa a b
  have hfits : m.natAbs < capacity := by
    have hle : |(m : ℚ)| ≤ 2 ^ 96 - 1 := by
      rw [hm, abs_mul, abs_of_pos (by positivity : (0 : ℚ) < 10 ^ max a.scale b.scale)]
      calc |a.toRat + b.toRat| * 10 ^ max a.scale b.scale
          ≤ |a.toRat + b.toRat| * 10 ^ s :=
            mul_le_mul_of_nonneg_left (pow_le_pow_right₀ (by norm_num) hmax) (abs_nonneg _)
        _ ≤ greatest s * 10 ^ s := mul_le_mul_of_nonneg_right h (by positivity)
        _ = 2 ^ 96 - 1 := div_mul_cancel₀ _ (by positivity)
    have hint : |m| ≤ 2 ^ 96 - 1 := by exact_mod_cast hle
    change m.natAbs < 2 ^ 96
    rw [Int.abs_eq_natAbs] at hint
    omega
  have hwide : (a.widened b.scale + b.widened a.scale) * tenTo (max a.scale b.scale) =
      m * tenTo (a.scale + b.scale) := by
    have hq : ((a.widened b.scale + b.widened a.scale) * tenTo (max a.scale b.scale) : ℚ) =
        m * tenTo (a.scale + b.scale) := by
      rw [cast_widened, cast_widened, hm, cast_tenTo, cast_tenTo, Nat.add_comm b.scale]
      ring
    exact_mod_cast hq
  obtain ⟨c, hc, hcm, hcs⟩ := nearest?_exact (tenTo_pos _) hwide hfits (hmax.trans hs)
  refine ⟨c, by rw [add?, if_neg haz, if_neg hbz, hc], ?_, hcs ▸ hmax⟩
  rw [toRat_eq, hcm, hcs, hm]
  field_simp

end Decimal

def exactSum (values : List Decimal) : ℚ := (values.map Decimal.toRat).sum

def absoluteSum (values : List Decimal) : ℚ := (values.map fun v => |v.toRat|).sum

theorem absoluteSum_nonneg (values : List Decimal) : 0 ≤ absoluteSum values := by
  apply List.sum_nonneg
  intro x hx
  obtain ⟨v, _, rfl⟩ := List.mem_map.mp hx
  exact abs_nonneg _

theorem abs_exactSum_le (values : List Decimal) : |exactSum values| ≤ absoluteSum values := by
  induction values with
  | nil => simp [exactSum, absoluteSum]
  | cons v values ih =>
    have htri := abs_add_le v.toRat (exactSum values)
    have hexact : exactSum (v :: values) = v.toRat + exactSum values := by simp [exactSum]
    have habs : absoluteSum (v :: values) = |v.toRat| + absoluteSum values := by simp [absoluteSum]
    rw [hexact, habs]
    linarith

theorem absoluteSum_sublist {xs ys : List Decimal} (h : xs.Sublist ys) :
    absoluteSum xs ≤ absoluteSum ys := by
  apply (h.map _).sum_le_sum
  intro x hx
  obtain ⟨v, _, rfl⟩ := List.mem_map.mp hx
  exact abs_nonneg _

theorem checkedSum_zero (a : Decimal) : checkedSum .zero a = .ok a := by
  rw [checkedSum, Decimal.add?_of_isZero (by decide)]

theorem checkedSum_error {a b : Decimal} {e : Failure} (h : checkedSum a b = .error e) :
    e = .overflow .summing := by
  unfold checkedSum at h
  split at h <;> cases h
  rfl

@[simp] theorem sumAll_nil : sumAll [] = .ok .zero := rfl

theorem sumAll_concat (values : List Decimal) (v : Decimal) :
    sumAll (values ++ [v]) = sumAll values >>= fun total => checkedSum total v := by
  simp [sumAll, List.foldlM_append]

theorem sumAll_error {values : List Decimal} {e : Failure} (h : sumAll values = .error e) :
    e = .overflow .summing := by
  induction values using List.reverseRecOn with
  | nil => cases h
  | append_singleton values v ih =>
    rw [sumAll_concat] at h
    cases hs : sumAll values with
    | error e' =>
      rw [hs] at h
      cases h
      exact ih hs
    | ok total =>
      rw [hs] at h
      exact checkedSum_error h

theorem foldlM_checkedSum_exact {s : ℕ} {values : List Decimal} (start : Decimal)
    (hs : s ≤ Decimal.maxScale) (hstart : start.scale ≤ s) (hscale : ∀ v ∈ values, v.scale ≤ s)
    (hroom : |start.toRat| + absoluteSum values ≤ Decimal.greatest s) :
    ∃ total, values.foldlM checkedSum start = .ok total ∧
      total.toRat = start.toRat + exactSum values ∧ total.scale ≤ s := by
  induction values generalizing start with
  | nil => exact ⟨start, rfl, by simp [exactSum], hstart⟩
  | cons v values ih =>
    have habs : absoluteSum (v :: values) = |v.toRat| + absoluteSum values := by simp [absoluteSum]
    have hexact : exactSum (v :: values) = v.toRat + exactSum values := by simp [exactSum]
    have hrest := absoluteSum_nonneg values
    have htri := abs_add_le start.toRat v.toRat
    obtain ⟨c, hc, hcr, hcs⟩ := Decimal.add?_exact hstart (hscale v (List.mem_cons_self ..)) hs
      (by linarith)
    obtain ⟨total, ht, htr, hts⟩ := ih c hcs (fun w hw => hscale w (List.mem_cons_of_mem _ hw))
      (by rw [hcr]; linarith)
    refine ⟨total, ?_, ?_, hts⟩
    · rw [List.foldlM_cons, checkedSum, hc]
      exact ht
    · rw [htr, hcr, hexact, add_assoc]

/-- No sum on the way needs rounding where the absolute values have room together. -/
theorem sumAll_exact {s : ℕ} (hs : s ≤ Decimal.maxScale) {values : List Decimal}
    (hscale : ∀ v ∈ values, v.scale ≤ s) (hroom : absoluteSum values ≤ Decimal.greatest s) :
    ∃ total, sumAll values = .ok total ∧ total.toRat = exactSum values ∧ total.scale ≤ s := by
  obtain ⟨total, ht, htr, hts⟩ := foldlM_checkedSum_exact .zero hs (Nat.zero_le _) hscale
    (by rw [Decimal.toRat_zero, abs_zero, zero_add]; exact hroom)
  refine ⟨total, ht, ?_, hts⟩
  rw [htr, Decimal.toRat_zero, zero_add]

end TrailingYear
