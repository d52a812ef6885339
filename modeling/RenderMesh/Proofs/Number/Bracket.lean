import Mathlib.Tactic.Linarith
import Mathlib.Tactic.LinearCombination
import Mathlib.Tactic.Positivity
import Mathlib.Tactic.Ring
import Mathlib.Tactic.Zify

/-!
# Pairs close to a ratio

Which pairs of naturals `x`, `y` have `x * a` close to `y * b`? Two pairs on either side of the
ratio, of determinant one, make every other pair with whole coefficients, and where `x * a` and
`y * b` are close the coefficients are small: what the two pairs are off by bounds them. Narrowed as
far as the range of `x` allows, a bracket leaves a few pairs to look at.
-/

namespace RenderMesh

/-- A pair with `x₁ * a` not below `y₁ * b` and one with `x₂ * a` not above `y₂ * b`. -/
structure Bracket (a b : Nat) where
  x₁ : Nat
  y₁ : Nat
  x₂ : Nat
  y₂ : Nat
  excess : Nat
  lack : Nat
  det : x₁ * y₂ = x₂ * y₁ + 1
  above : x₁ * a = y₁ * b + excess
  below : x₂ * a + lack = y₂ * b

namespace Bracket

variable {a b : Nat}

/-- The multiples of `b` around `a`. -/
def start (a b : Nat) (hb : 0 < b) : Bracket a b where
  x₁ := 1
  y₁ := a / b
  x₂ := 1
  y₂ := a / b + 1
  excess := a % b
  lack := b - a % b
  det := by omega
  above := by
    have h := Nat.div_add_mod a b
    rw [Nat.mul_comm] at h
    omega
  below := by
    have h := Nat.div_add_mod a b
    have hlt := Nat.mod_lt a hb
    rw [Nat.mul_comm] at h
    rw [Nat.add_mul]
    omega

/-- The upper pair moved towards the ratio by some of the lower ones. -/
def lower (p : Bracket a b) (n : Nat) (h : n * p.lack ≤ p.excess) : Bracket a b where
  x₁ := p.x₁ + n * p.x₂
  y₁ := p.y₁ + n * p.y₂
  x₂ := p.x₂
  y₂ := p.y₂
  excess := p.excess - n * p.lack
  lack := p.lack
  det := by
    have hdet := p.det
    linear_combination hdet
  above := by
    have habove := p.above
    have hbelow := p.below
    zify [h] at *
    linear_combination habove + n * hbelow
  below := p.below

/-- The lower pair moved towards the ratio by some of the upper ones. -/
def raise (p : Bracket a b) (n : Nat) (h : n * p.excess ≤ p.lack) : Bracket a b where
  x₁ := p.x₁
  y₁ := p.y₁
  x₂ := p.x₂ + n * p.x₁
  y₂ := p.y₂ + n * p.y₁
  excess := p.excess
  lack := p.lack - n * p.excess
  det := by
    have hdet := p.det
    linear_combination hdet
  above := p.above
  below := by
    have habove := p.above
    have hbelow := p.below
    zify [h] at *
    linear_combination hbelow + n * habove

/-- The bracket made as narrow as it gets with `x` up to a limit. -/
def narrow (limit : Nat) : (fuel : Nat) → Bracket a b → Bracket a b
  | 0, p => p
  | fuel + 1, p =>
    if p.lack ≤ p.excess then
      let n := min (p.excess / p.lack) ((limit - p.x₁) / p.x₂)
      if n = 0 then p
      else narrow limit fuel (p.lower n (Nat.le_trans
        (Nat.mul_le_mul_right _ (Nat.min_le_left _ _)) (Nat.div_mul_le_self _ _)))
    else
      let n := min (p.lack / p.excess) ((limit - p.x₂) / p.x₁)
      if n = 0 then p
      else narrow limit fuel (p.raise n (Nat.le_trans
        (Nat.mul_le_mul_right _ (Nat.min_le_left _ _)) (Nat.div_mul_le_self _ _)))

/-- Whether a test holds for every pair whose coefficients are small enough. They are counted from
the least that the upper and the lower pair can have. -/
def all (p : Bracket a b) (limit slack : Nat) (test : Nat → Nat → Bool) : Bool :=
  let least₁ := p.x₂ * slack / b
  let least₂ := p.x₁ * slack / b
  let count₁ := least₁ + (limit * p.lack + p.x₂ * slack) / b + 1
  let count₂ := least₂ + (limit * p.excess + p.x₁ * slack) / b + 1
  (List.range count₁).all fun i => (List.range count₂).all fun j =>
    test (i * p.x₁ + j * p.x₂ - (least₁ * p.x₁ + least₂ * p.x₂))
      (i * p.y₁ + j * p.y₂ - (least₁ * p.y₁ + least₂ * p.y₂))

theorem le_div_of_mul_le {u : Int} {n : Nat} (hb : 0 < b) (h : u * b ≤ n) :
    u ≤ ((n / b : Nat) : Int) := by
  rw [Int.natCast_ediv]
  exact Int.le_ediv_of_mul_le (Int.natCast_pos.mpr hb) h

/-- A whole number that `b` times is close to a small multiple of `x`. -/
theorem coefficient_bounds (hb : 0 < b) {u d : Int} {k x off limit slack : Nat}
    (h : u * b = k * d + x * off) (hx : x ≤ limit) (hlow : -(slack : Int) ≤ d)
    (hhigh : d ≤ slack) : -((k * slack / b : Nat) : Int) ≤ u ∧
      u ≤ ((limit * off + k * slack) / b : Nat) := by
  zify at hx
  have hdown : (k : Int) * -slack ≤ k * d := mul_le_mul_of_nonneg_left hlow (by positivity)
  have hup : (k * d : Int) ≤ k * slack := mul_le_mul_of_nonneg_left hhigh (by positivity)
  have hoff : (0 : Int) ≤ x * off := by positivity
  have hlimit : (x * off : Int) ≤ limit * off := mul_le_mul_of_nonneg_right hx (by positivity)
  constructor
  · have hdiv : -u ≤ ((k * slack / b : Nat) : Int) := by
      apply le_div_of_mul_le hb
      push_cast
      linarith
    exact neg_le.mp hdiv
  · apply le_div_of_mul_le hb
    push_cast
    linarith

/-- A test that holds for the pairs of small coefficients holds for every close pair. -/
theorem of_all {p : Bracket a b} {limit slack : Nat} {test : Nat → Nat → Bool} (hb : 0 < b)
    (h : p.all limit slack test = true) {x y : Nat} (hx : x ≤ limit)
    (hup : x * a ≤ y * b + slack) (hdown : y * b ≤ x * a + slack) : test x y = true := by
  have habove : (p.x₁ : Int) * a = p.y₁ * b + p.excess := by exact_mod_cast p.above
  have hbelow : (p.x₂ : Int) * a + p.lack = p.y₂ * b := by exact_mod_cast p.below
  have hvalue₁ : (x * p.y₂ - y * p.x₂ : Int) * b = p.x₂ * (x * a - y * b) + x * p.lack := by
    linear_combination -x * hbelow
  have hvalue₂ : (y * p.x₁ - x * p.y₁ : Int) * b = p.x₁ * (y * b - x * a) + x * p.excess := by
    linear_combination x * habove
  zify at hup hdown
  obtain ⟨hlow₁, hhigh₁⟩ := coefficient_bounds hb hvalue₁ hx
    (show -(slack : Int) ≤ _ by linarith) (by linarith)
  obtain ⟨hlow₂, hhigh₂⟩ := coefficient_bounds hb hvalue₂ hx
    (show -(slack : Int) ≤ _ by linarith) (by linarith)
  simp only [all, List.all_eq_true, List.mem_range] at h
  generalize p.x₂ * slack / b = least₁ at *
  generalize p.x₁ * slack / b = least₂ at *
  obtain ⟨i, hi⟩ := Int.eq_ofNat_of_zero_le (neg_le_iff_add_nonneg.mp hlow₁)
  obtain ⟨j, hj⟩ := Int.eq_ofNat_of_zero_le (neg_le_iff_add_nonneg.mp hlow₂)
  have htest := h i (by omega) j (by omega)
  have hdet : (p.x₁ : Int) * p.y₂ = p.x₂ * p.y₁ + 1 := by exact_mod_cast p.det
  have hpx : i * p.x₁ + j * p.x₂ = x + (least₁ * p.x₁ + least₂ * p.x₂) := by
    zify
    linear_combination x * hdet - p.x₁ * hi - p.x₂ * hj
  have hpy : i * p.y₁ + j * p.y₂ = y + (least₁ * p.y₁ + least₂ * p.y₂) := by
    zify
    linear_combination y * hdet - p.y₁ * hi - p.y₂ * hj
  rw [hpx, hpy, Nat.add_sub_cancel, Nat.add_sub_cancel] at htest
  exact htest

end Bracket

end RenderMesh
