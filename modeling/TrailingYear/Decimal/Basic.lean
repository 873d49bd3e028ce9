/-! # Decimals

A decimal is a magnitude below 2 ^ 96 with a sign, over a power of ten of at most 28. The scale is
part of the value, so `1.5` and `1.50` differ while they compare as equal, and so is the sign of a
zero, which only some roundings leave there. -/

namespace TrailingYear

def tenTo (n : Nat) : Nat := Nat.pow 10 n

theorem tenTo_pos (n : Nat) : 0 < tenTo n := Nat.pow_pos (by decide)

abbrev Decimal.capacity : Nat := 79228162514264337593543950336
abbrev Decimal.maxScale : Nat := 28

structure Decimal where
  negative : Bool
  magnitude : Nat
  scale : Nat
  magnitude_lt : magnitude < Decimal.capacity
  scale_le : scale ≤ Decimal.maxScale
  deriving DecidableEq, Repr

namespace Decimal

def mantissa (d : Decimal) : Int := if d.negative then -d.magnitude else d.magnitude

/-- The decimal of a mantissa, if it fits. A zero has no sign here. -/
def ofParts? (mantissa : Int) (scale : Nat) : Option Decimal :=
  if h : mantissa.natAbs < capacity ∧ scale ≤ maxScale then
    some ⟨decide (mantissa < 0), mantissa.natAbs, scale, h.1, h.2⟩
  else
    none

def ofNat? (n : Nat) : Option Decimal := ofParts? n 0

def zero : Decimal := ⟨false, 0, 0, by decide, by decide⟩
def one : Decimal := ⟨false, 1, 0, by decide, by decide⟩

def ofParts (mantissa : Int) (scale : Nat) : Decimal := (ofParts? mantissa scale).getD zero

instance : Inhabited Decimal := ⟨zero⟩

def IsZero (d : Decimal) : Prop := d.mantissa = 0
def IsNegative (d : Decimal) : Prop := d.mantissa < 0
def IsPositive (d : Decimal) : Prop := 0 < d.mantissa

instance (d : Decimal) : Decidable d.IsZero := inferInstanceAs (Decidable (_ = _))
instance (d : Decimal) : Decidable d.IsNegative := inferInstanceAs (Decidable (_ < _))
instance (d : Decimal) : Decidable d.IsPositive := inferInstanceAs (Decidable (_ < _))

/-- The negation. That of a zero is a zero without a sign. -/
def neg (d : Decimal) : Decimal := { d with negative := decide (0 < d.mantissa) }

def withSign (negative : Bool) (d : Decimal) : Decimal := { d with negative := negative }

def widened (d : Decimal) (s : Nat) : Int := d.mantissa * tenTo s

def Le (a b : Decimal) : Prop := a.widened b.scale ≤ b.widened a.scale
def Lt (a b : Decimal) : Prop := a.widened b.scale < b.widened a.scale
def Same (a b : Decimal) : Prop := a.widened b.scale = b.widened a.scale

instance : LE Decimal := ⟨Le⟩
instance : LT Decimal := ⟨Lt⟩
instance (a b : Decimal) : Decidable (a ≤ b) :=
  inferInstanceAs (Decidable (a.widened b.scale ≤ b.widened a.scale))
instance (a b : Decimal) : Decidable (a < b) :=
  inferInstanceAs (Decidable (a.widened b.scale < b.widened a.scale))
instance (a b : Decimal) : Decidable (a.Same b) :=
  inferInstanceAs (Decidable (a.widened b.scale = b.widened a.scale))

/-- Of two equal numbers the minimum is the first and the maximum the second. -/
instance : Min Decimal := ⟨fun a b => if a ≤ b then a else b⟩
instance : Max Decimal := ⟨fun a b => if a ≤ b then b else a⟩

def toRat (d : Decimal) : Rat := mkRat d.mantissa (tenTo d.scale)

theorem natAbs_mantissa (d : Decimal) : d.mantissa.natAbs = d.magnitude := by
  unfold mantissa
  split <;> simp

theorem ofParts?_eq_some {m : Int} {s : Nat} {d : Decimal} :
    ofParts? m s = some d ↔ d.mantissa = m ∧ d.scale = s ∧ d.negative = decide (m < 0) := by
  unfold ofParts?
  constructor
  · intro h
    split at h
    · cases h
      refine ⟨?_, rfl, rfl⟩
      unfold mantissa
      dsimp only
      split
      · have hm : m < 0 := of_decide_eq_true ‹_›
        omega
      · have hm : ¬m < 0 := of_decide_eq_false (Bool.eq_false_iff.2 ‹_›)
        omega
    · cases h
  · rintro ⟨rfl, rfl, hs⟩
    rw [dif_pos ⟨d.natAbs_mantissa ▸ d.magnitude_lt, d.scale_le⟩]
    obtain ⟨negative, magnitude, scale, _, _⟩ := d
    simp only [natAbs_mantissa, ← hs]

theorem mantissa_withSign {d : Decimal} {negative : Bool} :
    (d.withSign negative).mantissa = if negative then -(d.magnitude : Int) else d.magnitude := rfl

end Decimal

/-! ## Arithmetic on decimals

Every result is the exact one, rounded half to even at the largest scale whose mantissa fits. There
is no result only when the exact one does not fit even as an integer. -/

/-- The integer nearest to `n / d`, the even one of two that are equally near. -/
def roundDiv (n : Int) (d : Nat) : Int :=
  let q := n / d
  let r := n % d
  if 2 * r < d then q
  else if 2 * r = d then q + q % 2
  else q + 1

theorem natAbs_roundDiv_le (n : Int) {d : Nat} (hd : 0 < d) : (roundDiv n d).natAbs ≤ n.natAbs := by
  have hd' : (0 : Int) < d := by omega
  have hn := Int.mul_ediv_add_emod n d
  have hr := Int.emod_nonneg n (Int.ne_of_gt hd')
  have hlt := Int.emod_lt_of_pos n hd'
  unfold roundDiv
  generalize n / (d : Int) = q at *
  generalize n % (d : Int) = r at *
  by_cases hq : 0 ≤ q
  · have hmul : 0 ≤ ((d : Int) - 1) * q := Int.mul_nonneg (by omega) hq
    rw [Int.sub_mul, Int.one_mul] at hmul
    dsimp only
    split
    · omega
    split <;> omega
  · have hmul : 0 ≤ ((d : Int) - 1) * (-q - 1) := Int.mul_nonneg (by omega) (by omega)
    rw [Int.mul_sub, Int.sub_mul, Int.mul_neg, Int.one_mul, Int.mul_one] at hmul
    dsimp only
    split
    · omega
    split <;> omega

namespace Decimal

/-- The decimal nearest to `n / d` at the largest scale up to `s` at which it fits. -/
def nearest? (n : Int) (d : Nat) : Nat → Option Decimal
  | 0 => ofParts? (roundDiv n d) 0
  | s + 1 => (ofParts? (roundDiv (n * tenTo (s + 1)) d) (s + 1)).orElse fun _ => nearest? n d s

/-- A zero adds nothing, not even its scale. -/
def add? (a b : Decimal) : Option Decimal :=
  if a.IsZero then some b
  else if b.IsZero then some a
  else nearest? (a.widened b.scale + b.widened a.scale) (tenTo (a.scale + b.scale))
    (max a.scale b.scale)

abbrev wordLimit : Nat := 4294967296

/-- Two magnitudes of 32 bits over more than 47 places make a plain zero, as a zero factor does.
Where one of them is larger, a product that is rounded to zero keeps its sign. -/
def mul? (a b : Decimal) : Option Decimal :=
  if a.IsZero ∨ b.IsZero then some zero
  else
    let places := a.scale + b.scale
    let product := nearest? (a.mantissa * b.mantissa) (tenTo places) (min places maxScale)
    if a.magnitude < wordLimit ∧ b.magnitude < wordLimit then
      if 47 < places then some zero else product
    else product.map (withSign (a.negative != b.negative))

def div? (a b : Decimal) : Option Decimal :=
  if b.IsZero then none
  else nearest? (b.mantissa.sign * a.widened b.scale) (b.widened a.scale).natAbs maxScale

/-- Rounded half to even to `places`; a decimal with no more places than that is unchanged. A zero
keeps its sign, but what is rounded to zero loses it. -/
def round (d : Decimal) (places : Nat) : Decimal :=
  if h : d.scale ≤ places then d
  else
    let m := roundDiv d.mantissa (tenTo (d.scale - places))
    ⟨if d.IsZero then d.negative else decide (m < 0), m.natAbs, places,
      Nat.lt_of_le_of_lt (natAbs_roundDiv_le _ (tenTo_pos _)) (d.natAbs_mantissa ▸ d.magnitude_lt),
      Nat.le_trans (by omega) d.scale_le⟩

def toInt (d : Decimal) : Int := roundDiv d.mantissa (tenTo d.scale)

end Decimal

end TrailingYear
