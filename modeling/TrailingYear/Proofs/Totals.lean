import TrailingYear.Command.Run
import TrailingYear.Proofs.Income
import TrailingYear.Proofs.Sums

/-! # The total of all payments

The values of all payments are added up in their order, and only their sum is rounded, half to
even, to cents. There is no window: the total is the same on every day. -/

namespace TrailingYear

structure IsCents (sum total : Decimal) : Prop where
  places : total.scale ≤ totalPlaces
  near : |total.toRat - sum.toRat| ≤ 1 / 200
  tie : ∀ n : ℤ, sum.toRat * 100 = n + 1 / 2 → total.scale = totalPlaces ∧ Even total.mantissa
  exact : ∀ n : ℤ, sum.toRat * 100 = n → total.toRat = sum.toRat
  kept : sum.scale ≤ totalPlaces → total = sum

theorem exists_cents (sum : Decimal) :
    ∃ k : ℤ, IsRounded (sum.toRat * 100) k ∧ (sum.round totalPlaces).toRat = k / 100 := by
  have hhundred : (10 : ℚ) ^ totalPlaces = 100 := by norm_num
  have hround := Decimal.isRoundedTo_round sum totalPlaces
  rwa [Decimal.IsRoundedTo, hhundred] at hround

/-- A sum that has no more than two places is a whole number of cents. -/
theorem scale_of_tie {sum : Decimal} {n : ℤ} (h : sum.toRat * 100 = n + 1 / 2) :
    ¬ sum.scale ≤ totalPlaces := by
  intro hs
  have hwhole := Decimal.toRat_mul_pow hs
  rw [show (10 : ℚ) ^ totalPlaces = 100 by norm_num, h] at hwhole
  have hdouble : (2 * n + 1 : ℚ) = 2 * (sum.mantissa * 10 ^ (totalPlaces - sum.scale) : ℤ) := by
    rw [← hwhole]
    ring
  have hparity : 2 * n + 1 = 2 * (sum.mantissa * 10 ^ (totalPlaces - sum.scale)) := by
    exact_mod_cast hdouble
  omega

theorem isCents_round (sum : Decimal) : IsCents sum (sum.round totalPlaces) := by
  obtain ⟨k, hk, htotal⟩ := exists_cents sum
  constructor
  case places =>
    by_cases hs : sum.scale ≤ totalPlaces
    · rwa [Decimal.round_of_scale_le hs]
    · exact (Decimal.scale_round hs).le
  case near =>
    have hdistance :
        (sum.round totalPlaces).toRat - sum.toRat = -((sum.toRat * 100 - k) / 100) := by
      rw [htotal]
      ring
    rw [hdistance, abs_neg, abs_div, abs_of_pos (by norm_num : (0 : ℚ) < 100)]
    linarith [hk.1]
  case tie =>
    intro n hn
    have hscale := Decimal.scale_round (scale_of_tie hn)
    have hm : (sum.round totalPlaces).mantissa = k := by
      have hq := Decimal.mantissa_eq (sum.round totalPlaces)
      rw [hscale, htotal] at hq
      norm_num at hq
      exact_mod_cast hq
    exact ⟨hscale, hm ▸ hk.even_of_tie hn⟩
  case exact =>
    intro n hn
    rw [hn] at hk
    rw [htotal, hk.unique (IsRounded.intCast n), ← hn]
    field_simp
  case kept => exact Decimal.round_of_scale_le

inductive TotalFails (table : RateTable) (ps : List Payment) : Failure → Prop where
  | unconverted {before p after e} : ps = before ++ p :: after →
      (∀ q ∈ before, Converts table q) → normalize table p = .error e → TotalFails table ps e
  | overflow {cs e} : List.Forall₂ (IsConversion table) ps cs →
      sumAll (cs.map (·.value)) = .error e → TotalFails table ps (.overflow .summing)

theorem result_convertedTotal_eq_error_iff {table : RateTable} {ps : List Payment} {e : Failure} :
    (convertedTotal table ps).result = .error e ↔ TotalFails table ps e := by
  rw [result_convertedTotal, bind_eq_error_iff, result_convertAll_eq_error_iff]
  simp only [map_eq_error_iff, result_convertAll_eq_ok_iff]
  constructor
  · rintro (⟨before, p, after, hl, hb, hp⟩ | ⟨cs, hcs, hsum⟩)
    · exact .unconverted hl hb hp
    · exact sumAll_error hsum ▸ .overflow hcs hsum
  · rintro (⟨hl, hb, hp⟩ | ⟨hcs, hsum⟩)
    · exact Or.inl ⟨_, _, _, hl, hb, hp⟩
    · exact Or.inr ⟨_, hcs, sumAll_error hsum ▸ hsum⟩

/-- Each payment keeps its place and has its own value. A total fails with the first payment that
has none, or else where the sum from left to right does; what is rounded is that sum, once. It
does not depend on the day on which it is asked for. -/
theorem total_is_rounded_once (table : RateTable) (ps : List Payment) :
    (∀ e, (convertedTotal table ps).result = .error e ↔ TotalFails table ps e) ∧
    (∀ cs total, (convertedTotal table ps).result = .ok (cs, total) →
      List.Forall₂ (IsConversion table) ps cs ∧
        ∃ sum, sumAll (cs.map (·.value)) = .ok sum ∧ IsCents sum total) ∧
    ∀ (env : Environment) (day : Date) config verbose sources listed json,
      ({ env with today := day } : Environment).invoke
        ⟨config, verbose, .total sources listed json⟩ =
        env.invoke ⟨config, verbose, .total sources listed json⟩ := by
  refine ⟨fun e => result_convertedTotal_eq_error_iff, ?_, ?_⟩
  · intro cs total h
    rw [result_convertedTotal, bind_eq_ok_iff] at h
    obtain ⟨cs', hcs, hrounded⟩ := h
    obtain ⟨sum, hsum, hpair⟩ := map_eq_ok_iff.mp hrounded
    obtain ⟨rfl, rfl⟩ := Prod.mk.inj hpair
    exact ⟨result_convertAll_eq_ok_iff.mp hcs, sum, hsum, isCents_round sum⟩
  · intros
    rfl

def nineEighths : List Payment :=
  [⟨.ofParts 125 3, "USD", .ofParts 2024 1 1⟩, ⟨.ofParts 1000 3, "USD", .ofParts 2019 1 1⟩]

theorem total_is_rounded_once_tie :
    ∃ cs total, (convertedTotal (.empty "USD") nineEighths).result = .ok (cs, total) ∧
      List.Forall₂ (IsConversion (.empty "USD")) nineEighths cs ∧ total = .ofParts 112 2 ∧
      Even total.mantissa := by
  obtain ⟨_, hsuccess, _⟩ := total_is_rounded_once (.empty "USD") nineEighths
  have hresult : (convertedTotal (.empty "USD") nineEighths).result =
      .ok (nineEighths.map fun p => ⟨p, p.amount⟩, .ofParts 112 2) := by decide +kernel
  obtain ⟨hcs, sum, hsum, hcents⟩ := hsuccess _ _ hresult
  have hexact : sumAll [.ofParts 125 3, .ofParts 1000 3] = .ok (.ofParts 1125 3) := by
    decide +kernel
  cases hsum.symm.trans hexact
  have htie := hcents.tie 112 (by decide +kernel)
  exact ⟨_, _, hresult, hcs, rfl, htie.2⟩

end TrailingYear
