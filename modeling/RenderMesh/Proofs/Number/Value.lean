import Mathlib.Algebra.Order.Field.Power
import Mathlib.Algebra.Order.Ring.Rat
import Mathlib.Tactic.FieldSimp
import Mathlib.Tactic.Linarith
import Mathlib.Tactic.Positivity
import Mathlib.Tactic.Ring
import RenderMesh.Proofs.Number.Codes

/-!
# Exact values

Codes and decimals stand for rational numbers, and that is where roundings are compared: a ratio
between two half-way points is rounded to the code between them, and a ratio of normal size is moved
by a share of it that the bits of the fraction give.
-/

namespace RenderMesh

-- Powers of naturals are the core operation, whatever else is in scope.
attribute [local instance (high)] instPowNat

/-! ### Shares -/

/-- Whether `x` is off from `v` by at most the share `ε` of it. -/
def Near (ε v x : ℚ) : Prop := v * (1 - ε) ≤ x ∧ x ≤ v * (1 + ε)

namespace Near

variable {ε δ v w x y : ℚ}

theorem mono (h : Near ε v x) (hv : 0 ≤ v) (hle : ε ≤ δ) : Near δ v x := by
  refine ⟨le_trans ?_ h.1, le_trans h.2 ?_⟩
  · exact mul_le_mul_of_nonneg_left (by linarith) hv
  · exact mul_le_mul_of_nonneg_left (by linarith) hv

theorem pos (h : Near ε v x) (hv : 0 < v) (hε : ε < 1) : 0 < x :=
  lt_of_lt_of_le (mul_pos hv (by linarith)) h.1

/-- Shares of factors and the share of their product. -/
theorem mul (h : Near ε v x) (g : Near δ w y) (hv : 0 ≤ v) (hw : 0 ≤ w) (hε : 0 ≤ ε)
    (hε' : ε ≤ 1) (hδ : 0 ≤ δ) (hδ' : δ ≤ 1) : Near (ε + δ + ε * δ) (v * w) (x * y) := by
  have hlow : 0 ≤ v * (1 - ε) := mul_nonneg hv (by linarith)
  have hlow' : 0 ≤ w * (1 - δ) := mul_nonneg hw (by linarith)
  constructor
  · calc v * w * (1 - (ε + δ + ε * δ)) ≤ v * w * ((1 - ε) * (1 - δ)) := by
          apply mul_le_mul_of_nonneg_left _ (mul_nonneg hv hw)
          nlinarith [mul_nonneg hε hδ]
      _ = v * (1 - ε) * (w * (1 - δ)) := by ring
      _ ≤ x * y := mul_le_mul h.1 g.1 hlow' (le_trans hlow h.1)
  · calc x * y ≤ v * (1 + ε) * (w * (1 + δ)) :=
          mul_le_mul h.2 g.2 (le_trans hlow' g.1) (mul_nonneg hv (by linarith))
      _ = v * w * (1 + (ε + δ + ε * δ)) := by ring

/-- A share of a share. -/
theorem trans (h : Near ε v x) (g : Near δ x y) (hv : 0 ≤ v) (hε : 0 ≤ ε) (hε' : ε ≤ 1)
    (hδ : 0 ≤ δ) (hδ' : δ ≤ 1) : Near (ε + δ + ε * δ) v y := by
  have hx : 0 ≤ x := le_trans (mul_nonneg hv (by linarith)) h.1
  constructor
  · calc v * (1 - (ε + δ + ε * δ)) ≤ v * (1 - ε) * (1 - δ) := by
          rw [mul_assoc]
          apply mul_le_mul_of_nonneg_left _ hv
          nlinarith [mul_nonneg hε hδ]
      _ ≤ x * (1 - δ) := mul_le_mul_of_nonneg_right h.1 (by linarith)
      _ ≤ y := g.1
  · calc y ≤ x * (1 + δ) := g.2
      _ ≤ v * (1 + ε) * (1 + δ) := mul_le_mul_of_nonneg_right h.2 (by linarith)
      _ = v * (1 + (ε + δ + ε * δ)) := by ring

/-- The share of an inverse is greater by half where the share is small. -/
theorem inv (h : Near ε v x) (hv : 0 < v) (hε : 0 ≤ ε) (hε' : ε ≤ 1 / 3) :
    Near (3 / 2 * ε) v⁻¹ x⁻¹ := by
  have hx : 0 < x := h.pos hv (by linarith)
  have hdown : 0 < v * (1 - ε) := mul_pos hv (by linarith)
  constructor
  · calc v⁻¹ * (1 - 3 / 2 * ε) ≤ v⁻¹ * (1 + ε)⁻¹ := by
          apply mul_le_mul_of_nonneg_left _ (inv_nonneg.mpr hv.le)
          rw [← one_div, le_div_iff₀ (by linarith)]
          nlinarith
      _ = (v * (1 + ε))⁻¹ := by rw [mul_inv]
      _ ≤ x⁻¹ := inv_anti₀ hx h.2
  · calc x⁻¹ ≤ (v * (1 - ε))⁻¹ := inv_anti₀ hdown h.1
      _ = v⁻¹ * (1 - ε)⁻¹ := by rw [mul_inv]
      _ ≤ v⁻¹ * (1 + 3 / 2 * ε) := by
          apply mul_le_mul_of_nonneg_left _ (inv_nonneg.mpr hv.le)
          rw [← one_div, div_le_iff₀ (by linarith)]
          nlinarith

end Near

namespace FloatFormat

variable (f : FloatFormat)

/-- The number that a finite code stands for. -/
def value (code : Nat) : ℚ := f.units code / 2 ^ f.scale

/-- The point between a code and the next. -/
def halfway (code : Nat) : ℚ := (f.value code + f.value (code + 1)) / 2

/-- Numbers that belong to a code: those between its half-way points, and these too when the code
is even. -/
def Within (code : Nat) (x : ℚ) : Prop :=
  f.halfway (code - 1) ≤ x ∧ x ≤ f.halfway code ∧
    (code % 2 = 0 ∨ f.halfway (code - 1) < x ∧ x < f.halfway code)

variable {f} {code num den : Nat}

theorem value_pos (h : code ≠ 0) : 0 < f.value code :=
  div_pos (Nat.cast_pos.mpr (units_pos h)) (by positivity)

theorem value_nonneg (code : Nat) : 0 ≤ f.value code := by
  unfold value
  positivity

theorem halfway_eq (code : Nat) :
    f.halfway code = ((f.units code + f.units (code + 1) : Nat) : ℚ) / (2 * 2 ^ f.scale) := by
  unfold halfway value
  push_cast
  field_simp

theorem halfway_le_iff (hd : 0 < den) : f.halfway code ≤ num / den ↔
    (f.units code + f.units (code + 1)) * den ≤ 2 * (num * 2 ^ f.scale) := by
  have hd' : (0 : ℚ) < den := Nat.cast_pos.mpr hd
  rw [halfway_eq, div_le_div_iff₀ (by positivity) hd', ← @Nat.cast_le ℚ]
  push_cast
  rw [mul_left_comm (num : ℚ)]

theorem le_halfway_iff (hd : 0 < den) : (num / den : ℚ) ≤ f.halfway code ↔
    2 * (num * 2 ^ f.scale) ≤ (f.units code + f.units (code + 1)) * den := by
  have hd' : (0 : ℚ) < den := Nat.cast_pos.mpr hd
  rw [halfway_eq, div_le_div_iff₀ hd' (by positivity), ← @Nat.cast_le ℚ]
  push_cast
  rw [mul_left_comm (num : ℚ)]

/-- A ratio is rounded to the code that it belongs to. -/
theorem round_eq_of_within (hd : 0 < den) (hbits : 0 < f.fractionBits) (hc : code ≠ 0)
    (hfinite : code < f.infinity) (h : f.Within code (num / den)) : f.round num den = code := by
  have hsucc : code - 1 + 1 = code := Nat.succ_pred_eq_of_ne_zero hc
  obtain ⟨hlow, hhigh, htie⟩ := h
  rw [halfway_le_iff hd, hsucc] at hlow
  rw [le_halfway_iff hd] at hhigh
  rw [← not_le, ← not_le, halfway_le_iff hd, le_halfway_iff hd, hsucc, not_le, not_le] at htie
  exact round_of_between hd hbits hc hfinite hlow hhigh htie

/-- A ratio of normal size is moved by a share that the bits of the fraction give. -/
theorem round_near (hd : 0 < den) (hnormal : (2 ^ f.fractionBits : ℚ) ≤ num / den * 2 ^ f.scale)
    (hfinite : f.round num den < f.infinity) :
    Near (1 / 2 ^ (f.fractionBits + 1)) (num / den) (f.value (f.round num den)) := by
  have hd' : (0 : ℚ) < den := Nat.cast_pos.mpr hd
  have hle : den * 2 ^ f.fractionBits ≤ num * 2 ^ f.scale := by
    rw [div_mul_eq_mul_div, le_div_iff₀ hd', mul_comm] at hnormal
    exact_mod_cast hnormal
  obtain ⟨hup, hdown⟩ := units_round_bounds hd hle hfinite
  have hup' := (Nat.cast_le (α := ℚ)).mpr hup
  have hdown' := (Nat.cast_le (α := ℚ)).mpr hdown
  push_cast at hup' hdown'
  unfold value
  constructor
  · rw [le_div_iff₀ (by positivity)]
    field_simp
    linarith
  · rw [div_le_iff₀ (by positivity)]
    field_simp
    linarith

/-- A number that the format holds is not moved. -/
theorem value_round_exact {m a : Nat} (hd : 0 < den) (hm : m < 2 ^ (f.fractionBits + 1))
    (h : num * 2 ^ f.scale = den * (m * 2 ^ a)) (hfinite : f.round num den < f.infinity) :
    f.value (f.round num den) = num / den := by
  have hd' : (0 : ℚ) < den := Nat.cast_pos.mpr hd
  have hcast := congrArg (Nat.cast (R := ℚ)) h
  push_cast at hcast
  rw [value, units_round_exact hd hm h hfinite, div_eq_div_iff (by positivity) hd'.ne']
  push_cast
  linarith

/-! ### Neighbours -/

/-- Half the way to a neighbour is at least this share of a code. -/
theorem halfway_pred_le (hc : code ≠ 0) :
    f.halfway (code - 1) ≤ f.value code * (1 - 1 / 2 ^ (f.fractionBits + 2)) := by
  have hgap := units_gap (f := f) (code - 1)
  rw [Nat.sub_add_cancel (Nat.one_le_iff_ne_zero.mpr hc)] at hgap
  have hgap' := (Nat.cast_le (α := ℚ)).mpr hgap
  push_cast at hgap'
  rw [halfway, Nat.sub_add_cancel (Nat.one_le_iff_ne_zero.mpr hc), value, value, pow_succ _ (_ + 1)]
  field_simp
  linarith

theorem le_halfway (code : Nat) :
    f.value code * (1 + 1 / 2 ^ (f.fractionBits + 2)) ≤ f.halfway code := by
  have hgap := units_gap (f := f) code
  have hle := (Nat.cast_le (α := ℚ)).mpr (Nat.le_of_lt (units_lt_succ (f := f) code))
  have hgap' := (Nat.cast_le (α := ℚ)).mpr hgap
  push_cast at hgap'
  rw [halfway, value, value, pow_succ _ (_ + 1)]
  field_simp
  linarith

/-- A number that is close enough to a code belongs to it. -/
theorem within_of_near {ε x : ℚ} (hc : code ≠ 0) (hε : ε < 1 / 2 ^ (f.fractionBits + 2))
    (h : Near ε (f.value code) x) : f.Within code x := by
  have hpos := value_pos (f := f) hc
  have hlow : f.halfway (code - 1) < x :=
    lt_of_le_of_lt (halfway_pred_le hc)
      (lt_of_lt_of_le (mul_lt_mul_of_pos_left (by linarith) hpos) h.1)
  have hhigh : x < f.halfway code :=
    lt_of_lt_of_le (lt_of_le_of_lt h.2 (mul_lt_mul_of_pos_left (by linarith) hpos))
      (le_halfway code)
  exact ⟨hlow.le, hhigh.le, Or.inr ⟨hlow, hhigh⟩⟩

/-- What belongs to a code of normal size is off from it by half a step at most. -/
theorem near_of_within {x : ℚ} (h : 2 ^ f.fractionBits < code) (hx : f.Within code x) :
    Near (1 / 2 ^ (f.fractionBits + 1)) (f.value code) x := by
  have hsucc : code - 1 + 1 = code := Nat.sub_add_cancel (Nat.one_le_of_lt h)
  have habove := (Nat.cast_le (α := ℚ)).mpr (units_succ_le (f := f) (Nat.le_of_lt h))
  have hbelow := (Nat.cast_le (α := ℚ)).mpr
    (units_succ_le (f := f) (Nat.le_sub_one_of_lt h))
  have hless := (Nat.cast_le (α := ℚ)).mpr (Nat.le_of_lt (units_lt_succ (f := f) (code - 1)))
  rw [hsucc] at hbelow hless
  push_cast at habove hbelow
  obtain ⟨hlow, hhigh, _⟩ := hx
  rw [halfway_eq, hsucc] at hlow
  rw [halfway_eq] at hhigh
  push_cast at hlow hhigh
  constructor
  · refine le_trans ?_ hlow
    unfold value
    rw [pow_succ]
    field_simp
    linarith
  · refine le_trans hhigh ?_
    unfold value
    rw [pow_succ]
    field_simp
    linarith

end FloatFormat

end RenderMesh
