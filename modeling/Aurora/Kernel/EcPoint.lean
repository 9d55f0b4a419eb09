import Mathlib.Algebra.Field.ZMod
import Mathlib.AlgebraicGeometry.EllipticCurve.Affine.Point

/-!
# Points of an elliptic curve (`module_sign.c`)

The point formulas of the signature check, in Jacobian coordinates, with a result object apart
from the operands. The operations on `u256` numbers modulo `p` are those of a field; nothing else
about NIST P-256 matters, so the curve is `y² = x³ - 3x + b` over any field.

## Main definitions

* `ecPointDouble`, `ecPointAddMixed`: the functions.
* `Represents`: the point that Jacobian coordinates stand for.
* `represents_double_add`: both compute the group law.
-/

namespace Aurora.Ec

open WeierstrassCurve.Affine

variable {F : Type*} [Field F]

/-! ## The functions -/

structure EcPoint (F : Type*) where
  x : F
  y : F
  z : F

def ecPointSetInf : EcPoint F := ⟨0, 0, 0⟩

def ecPointIsInf [DecidableEq F] (p : EcPoint F) : Bool := p.z = 0

def ecPointDouble [DecidableEq F] (p : EcPoint F) : EcPoint F :=
  if ecPointIsInf p then ecPointSetInf
  else
    let t1 := p.z * p.z
    let t2 := p.y * p.y
    let t3 := p.x - t1
    let t4 := p.x + t1
    let t5 := t3 * t4
    let t3 := t5 + t5
    let t3 := t3 + t5
    let t4 := t2 + t2
    let t2 := t4 * t4
    let t5 := p.x * t4
    let t5 := t5 + t5
    let x := t3 * t3 - t5 - t5
    let t5 := t5 - x
    let t6 := t3 * t5
    let t2 := t2 + t2
    let y := t6 - t2
    let t3 := p.y * p.z
    ⟨x, y, t3 + t3⟩

def ecPointAddMixed [DecidableEq F] (p : EcPoint F) (qx qy : F) : EcPoint F :=
  if ecPointIsInf p then ⟨qx, qy, 1⟩
  else
    let t1 := p.z * p.z
    let t2 := p.z * t1
    let t1 := t1 * qx
    let t2 := t2 * qy
    let t1 := t1 - p.x
    let t2 := t2 - p.y
    if t1 = 0 then if t2 = 0 then ecPointDouble p else ecPointSetInf
    else
      let t3 := t1 * t1
      let t4 := t1 * t3
      let t3 := p.x * t3
      let t5 := t2 * t2
      let x := t5 - t4 - t3 - t3
      let t3 := t3 - x
      let t3 := t2 * t3
      let t4 := p.y * t4
      ⟨x, t3 - t4, p.z * t1⟩

/-! ## What they compute -/

/-- The curve `y² = x³ - 3x + b`. -/
def curve (b : F) : WeierstrassCurve.Affine F := ⟨0, 0, 0, -3, b⟩

/-- Affine coordinates are `X / Z²` and `Y / Z³`; at infinity `Z` is 0. -/
def Represents {b : F} (p : EcPoint F) : (curve b).Point → Prop
  | .zero => p.z = 0
  | .some x y _ => p.z ≠ 0 ∧ p.x = x * p.z ^ 2 ∧ p.y = y * p.z ^ 3

/-- The equation of the curve in Jacobian coordinates. -/
def OnCurve (b : F) (p : EcPoint F) : Prop :=
  p.y ^ 2 = p.x ^ 3 - 3 * p.x * p.z ^ 4 + b * p.z ^ 6

variable {b x y qx qy : F} {p : EcPoint F} {P : (curve b).Point}

lemma equation_iff : (curve b).Equation x y ↔ y ^ 2 = x ^ 3 - 3 * x + b := by
  rw [WeierstrassCurve.Affine.equation_iff]
  simp only [curve]
  ring_nf

lemma negY_eq : (curve b).negY x y = -y := by
  simp [curve, negY]

lemma addX_eq (ℓ : F) : (curve b).addX x qx ℓ = ℓ ^ 2 - x - qx := by
  simp [curve, addX]

lemma addY_eq (ℓ : F) : (curve b).addY x qx y ℓ = ℓ * (x - (ℓ ^ 2 - x - qx)) - y := by
  rw [addY, negY_eq, negAddY, addX_eq]
  ring

/-- A finite point satisfies the equation. -/
lemma represents_some (h : (curve b).Nonsingular x y) (hz : p.z ≠ 0)
    (hx : p.x = x * p.z ^ 2) (hy : p.y = y * p.z ^ 3) :
    Represents p (.some x y h) ∧ OnCurve b p := by
  have heq := equation_iff.1 h.1
  refine ⟨⟨hz, hx, hy⟩, ?_⟩
  rw [OnCurve, hx, hy]
  linear_combination p.z ^ 6 * heq

lemma represents_inf : Represents (ecPointSetInf : EcPoint F) (0 : (curve b).Point) := rfl

lemma onCurve_inf : OnCurve b ecPointSetInf := by
  simp [OnCurve, ecPointSetInf]

variable [DecidableEq F]

lemma slope_self (h : y + y ≠ 0) : (curve b).slope x x y y = (3 * x ^ 2 - 3) / (2 * y) := by
  rw [slope_of_Y_ne rfl (by rw [negY_eq]; exact fun heq => h (by linear_combination heq)), negY_eq]
  simp only [curve]
  ring_nf

/-- **Doubling.** -/
lemma represents_double (hp : Represents p P) :
    Represents (ecPointDouble p) (P + P) ∧ OnCurve b (ecPointDouble p) := by
  cases P with
  | zero =>
    have hz : p.z = 0 := hp
    rw [ecPointDouble, ecPointIsInf, decide_eq_true hz, if_pos rfl]
    exact ⟨represents_inf, onCurve_inf⟩
  | some x y h =>
    obtain ⟨hz, hx, hy⟩ := hp
    rw [ecPointDouble, ecPointIsInf, decide_eq_false hz, if_neg nofun]
    by_cases h2y : y + y = 0
    · -- a point of order 2 is doubled to infinity
      rw [Point.add_self_of_Y_eq (by rw [negY_eq]; linear_combination h2y)]
      have hyy : p.y + p.y = 0 := by
        rw [hy]
        linear_combination p.z ^ 3 * h2y
      refine ⟨?_, ?_⟩
      · show p.y * p.z + p.y * p.z = 0
        linear_combination p.z * hyy
      · simp only [OnCurve]
        linear_combination (96 * p.x * p.z ^ 4 * p.y ^ 5 - 32 * p.x ^ 3 * p.y ^ 5 -
          32 * b * p.z ^ 6 * p.y ^ 5 + 32 * p.y ^ 7) * hyy
    · have hne : y ≠ (curve b).negY x y := by
        rw [negY_eq]
        exact fun heq => h2y (by linear_combination heq)
      rw [Point.add_self_of_Y_ne hne]
      have hy0 : y ≠ 0 := fun h0 => h2y (by rw [h0, add_zero])
      have h20 : (2 : F) ≠ 0 := fun h0 => h2y (by linear_combination y * h0)
      refine represents_some _ ?_ ?_ ?_
      · show p.y * p.z + p.y * p.z ≠ 0
        rw [← add_mul, hy, ← add_mul]
        exact mul_ne_zero (mul_ne_zero h2y (pow_ne_zero 3 hz)) hz
      · simp only [addX_eq, slope_self h2y, hx, hy]
        field_simp
        ring
      · simp only [addY_eq, slope_self h2y, hx, hy]
        field_simp
        ring

/-- **Adding an affine point.** -/
lemma represents_addMixed (hp : Represents p P) (hq : (curve b).Nonsingular qx qy) :
    Represents (ecPointAddMixed p qx qy) (P + .some qx qy hq) ∧
      OnCurve b (ecPointAddMixed p qx qy) := by
  have hdouble := represents_double hp
  cases P with
  | zero =>
    have hz : p.z = 0 := hp
    rw [ecPointAddMixed, ecPointIsInf, decide_eq_true hz, if_pos rfl]
    rw [← Point.zero_def, zero_add]
    exact represents_some hq one_ne_zero (by simp) (by simp)
  | some x y h =>
    obtain ⟨hz, hx, hy⟩ := hp
    have ht1 : p.z * p.z * qx - p.x = p.z ^ 2 * (qx - x) := by
      rw [hx]
      ring
    have ht2 : p.z * (p.z * p.z) * qy - p.y = p.z ^ 3 * (qy - y) := by
      rw [hy]
      ring
    rw [ecPointAddMixed, ecPointIsInf, decide_eq_false hz, if_neg nofun]
    simp only [ht1, ht2]
    by_cases hxq : qx - x = 0
    · obtain rfl := sub_eq_zero.1 hxq
      rw [if_pos (by rw [hxq, mul_zero])]
      by_cases hyq : qy - y = 0
      · obtain rfl := sub_eq_zero.1 hyq
        rw [if_pos (by rw [hyq, mul_zero])]
        exact hdouble
      · have hne : y ≠ qy := fun heq => hyq (sub_eq_zero.2 heq.symm)
        rw [if_neg (mul_ne_zero (pow_ne_zero 3 hz) hyq)]
        rw [Point.add_of_Y_eq rfl ((Y_eq_of_X_eq h.1 hq.1 rfl).resolve_left hne)]
        exact ⟨represents_inf, onCurve_inf⟩
    · have hne : x ≠ qx := fun heq => hxq (sub_eq_zero.2 heq.symm)
      have hd : x - qx ≠ 0 := sub_ne_zero.2 hne
      rw [if_neg (mul_ne_zero (pow_ne_zero 2 hz) hxq), Point.add_of_X_ne hne]
      refine represents_some _ (mul_ne_zero hz (mul_ne_zero (pow_ne_zero 2 hz) hxq)) ?_ ?_
      · simp only [addX_eq, slope_of_X_ne hne, hx]
        field_simp
        ring
      · simp only [addY_eq, slope_of_X_ne hne, hx, hy]
        field_simp
        ring

/-- **The group law**: for Jacobian coordinates of any point of the curve, infinity included, and
any affine point, the functions give Jacobian coordinates of the double and of the sum. -/
theorem represents_double_add (hp : Represents p P) (hq : (curve b).Nonsingular qx qy) :
    (Represents (ecPointDouble p) (2 • P) ∧ OnCurve b (ecPointDouble p)) ∧
      Represents (ecPointAddMixed p qx qy) (P + .some qx qy hq) ∧
      OnCurve b (ecPointAddMixed p qx qy) := by
  rw [two_nsmul]
  exact ⟨represents_double hp, represents_addMixed hp hq⟩

lemma nonsingular_three_five : (curve (7 : ℚ)).Nonsingular 3 5 := by
  rw [WeierstrassCurve.Affine.nonsingular_iff, equation_iff]
  norm_num [curve]

lemma nonsingular_two_three : (curve (7 : ℚ)).Nonsingular 2 3 := by
  rw [WeierstrassCurve.Affine.nonsingular_iff, equation_iff]
  norm_num [curve]

/-- The coordinates `(12, 40, 2)` of the point `(3, 5)`. -/
theorem represents_double_add_three_five :
    Represents (ecPointDouble ⟨(12 : ℚ), 40, 2⟩) (2 • Point.some 3 5 nonsingular_three_five) ∧
      Represents (ecPointAddMixed ⟨12, 40, 2⟩ 2 3)
        (Point.some 3 5 nonsingular_three_five + .some 2 3 nonsingular_two_three) := by
  have hp : Represents ⟨12, 40, 2⟩ (.some 3 5 nonsingular_three_five) := by
    refine ⟨?_, ?_, ?_⟩ <;> norm_num
  obtain ⟨⟨hdouble, -⟩, hadd, -⟩ := represents_double_add hp nonsingular_two_three
  exact ⟨hdouble, hadd⟩

/-- `SECP256R1_P`. -/
def secp256r1P : ℕ := 0xFFFFFFFF00000001000000000000000000000000FFFFFFFFFFFFFFFFFFFFFFFF

/-- The functions with the numbers of the signature check, those modulo the prime of P-256. -/
lemma represents_secp256r1 [Fact secp256r1P.Prime] {b qx qy : ZMod secp256r1P}
    {p : EcPoint (ZMod secp256r1P)} {P : (curve b).Point} (hp : Represents p P)
    (hq : (curve b).Nonsingular qx qy) :
    Represents (ecPointDouble p) (P + P) ∧
      Represents (ecPointAddMixed p qx qy) (P + .some qx qy hq) :=
  ⟨(represents_double hp).1, (represents_addMixed hp hq).1⟩

end Aurora.Ec
