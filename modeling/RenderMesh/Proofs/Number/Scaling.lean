import RenderMesh.Number.Scaling
import RenderMesh.Proofs.Number.Shortest

/-!
# Bounds of widened and of scaled numbers

A widened number stays far below the greatest number of eight bytes, and so does everything that
comes of scaling its digits. The bounds are powers of two with room to spare.
-/

namespace RenderMesh

-- Powers of naturals are the core operation, whatever else is in scope.
attribute [local instance (high)] instPowNat

theorem FloatFormat.single_infinity : single.infinity = single.leadCode 254 := rfl

theorem FloatFormat.double_infinity : double.infinity = double.leadCode 2046 := rfl

namespace Double

variable {x y : Double} {k : Nat}

theorem isFinite_of_lt (hk : k ≤ 2046) (h : x.magnitude < FloatFormat.double.leadCode k) :
    x.isFinite = true := by
  rw [Binary.isFinite, FloatFormat.double_infinity, decide_eq_true_eq]
  exact Nat.lt_of_lt_of_le h (FloatFormat.leadCode_mono hk)

theorem leadCode_lt (k : Nat) :
    FloatFormat.double.leadCode k < FloatFormat.double.leadCode (k + 1) :=
  Nat.mul_lt_mul_of_pos_right (Nat.lt_succ_self _) (Nat.two_pow_pos _)

theorem nearest_lt (negative : Bool) {num den : Nat} (hd : 0 < den) (hk : 0 < k)
    (h : num * 2 ^ FloatFormat.double.scale < den * 2 ^ (FloatFormat.double.fractionBits + k)) :
    (Binary.nearest negative num den : Double).magnitude < FloatFormat.double.leadCode (k + 1) :=
  Nat.lt_of_le_of_lt (FloatFormat.round_le hd hk h) (leadCode_lt k)

/-! ### Powers of ten -/

theorem ofInt_lt {n : Nat} (h : n < 2 ^ k) :
    (Binary.ofInt n : Double).magnitude < FloatFormat.double.leadCode (k + 1023) := by
  have hvalue : (n : Int).natAbs * 2 ^ FloatFormat.double.scale <
      1 * 2 ^ (FloatFormat.double.fractionBits + (k + 1022)) := by
    have hscale : FloatFormat.double.fractionBits + (k + 1022) = k + FloatFormat.double.scale := by
      have hs : FloatFormat.double.scale = 1074 := rfl
      have hf : FloatFormat.double.fractionBits = 52 := rfl
      omega
    rw [hscale, Int.natAbs_natCast, Nat.one_mul, Nat.pow_add]
    exact Nat.mul_lt_mul_of_pos_right h (Nat.two_pow_pos _)
  exact nearest_lt _ Nat.one_pos (by omega) hvalue

theorem powerOfTen_eq (places : Nat) : powerOfTen places = .ofInt (10 ^ places : Nat) :=
  congrArg Binary.ofInt (Int.natCast_pow 10 places).symm

theorem one_le_units_powerOfTen (places : Nat) :
    2 ^ FloatFormat.double.scale ≤ FloatFormat.double.units (powerOfTen places).magnitude := by
  have hscale : FloatFormat.double.scale = FloatFormat.double.fractionBits + 1022 := rfl
  rw [hscale, powerOfTen_eq]
  apply FloatFormat.le_units
  apply FloatFormat.le_round Nat.one_pos (FloatFormat.leadCode_mono (by decide))
  rw [Nat.one_mul, hscale, Int.natAbs_natCast]
  exact Nat.le_mul_of_pos_left _ (Nat.pow_pos (by decide))

theorem dividedBy_powerOfTen_lt (hk : 0 < k) (h : x.magnitude < FloatFormat.double.leadCode k)
    (places : Nat) :
    (x.dividedBy (powerOfTen places)).magnitude < FloatFormat.double.leadCode (k + 1) := by
  have hone := one_le_units_powerOfTen places
  apply nearest_lt _ (Nat.lt_of_lt_of_le (Nat.two_pow_pos _) hone) hk
  rw [Nat.mul_comm]
  exact Nat.lt_of_lt_of_le
    (Nat.mul_lt_mul_of_pos_left (FloatFormat.units_lt hk h) (Nat.two_pow_pos _))
    (Nat.mul_le_mul_right _ hone)

theorem shrink_lt (hk : 0 < k) (h : x.magnitude < FloatFormat.double.leadCode k) (places : Nat) :
    (x.shrink places).magnitude < FloatFormat.double.leadCode (k + 2) := by
  unfold shrink
  split
  · exact Nat.lt_trans (dividedBy_powerOfTen_lt hk h places) (leadCode_lt _)
  · split
    · exact dividedBy_powerOfTen_lt (Nat.succ_pos k) (dividedBy_powerOfTen_lt hk h _) _
    · exact Nat.mul_pos (Nat.succ_pos _) (Nat.two_pow_pos _)

theorem times_lt {j : Nat} (hj : 0 < j) (hk : 0 < k)
    (hx : x.magnitude < FloatFormat.double.leadCode j)
    (hy : y.magnitude < FloatFormat.double.leadCode k) {b : Nat} (hb : 0 < b)
    (h : j + k + 52 ≤ 1074 + b) :
    (x.times y).magnitude < FloatFormat.double.leadCode (b + 1) := by
  have hs : FloatFormat.double.scale = 1074 := rfl
  have hf : FloatFormat.double.fractionBits = 52 := rfl
  apply nearest_lt _ (Nat.mul_pos (Nat.two_pow_pos _) (Nat.two_pow_pos _)) hb
  have hproduct := Nat.mul_lt_mul'' (FloatFormat.units_lt hj hx) (FloatFormat.units_lt hk hy)
  rw [← Nat.pow_add] at hproduct
  rw [← Nat.pow_add, ← Nat.pow_add]
  refine Nat.lt_of_lt_of_le (Nat.mul_lt_mul_of_pos_right hproduct (Nat.two_pow_pos _)) ?_
  rw [← Nat.pow_add]
  exact Nat.pow_le_pow_right (by decide) (by omega)

/-- Digits of 64 bits scaled by no more than the power of ten of a widened number. -/
theorem isFinite_scaled {n : Nat} (hn : n < UInt64.size) {exponent : Int} (he : exponent ≤ 48) :
    (scaled n exponent).isFinite = true := by
  have hdigits : (Binary.ofInt n : Double).magnitude < FloatFormat.double.leadCode (64 + 1023) :=
    ofInt_lt hn
  unfold scaled
  extract_lets x
  split
  · exact isFinite_of_lt (by decide) (shrink_lt (by decide) hdigits _)
  split
  · rfl
  split
  next hneg _ _ =>
    have hten : 10 ^ exponent.toNat < 2 ^ 160 := by
      have hle : exponent.toNat ≤ 48 := by omega
      exact Nat.lt_of_le_of_lt (Nat.pow_le_pow_right (by decide) hle) (by decide)
    have hpower : (powerOfTen exponent.toNat).magnitude <
        FloatFormat.double.leadCode (160 + 1023) := powerOfTen_eq _ ▸ ofInt_lt hten
    have hproduct : (x.times (powerOfTen exponent.toNat)).magnitude <
        FloatFormat.double.leadCode (1248 + 1) :=
      times_lt (by decide) (by decide) hdigits hpower (by decide) (by decide)
    exact isFinite_of_lt (by decide) hproduct
  next hbig =>
    have hreach : exponent ≤ greatestPower := Int.le_trans he (by decide)
    exact absurd hreach hbig

end Double

/-! ### Widened numbers -/

namespace Single

variable {x : Single}

theorem widen_lt (h : x.isFinite = true) :
    x.widen.magnitude < FloatFormat.double.leadCode 1151 := by
  rw [Binary.isFinite, FloatFormat.single_infinity, decide_eq_true_eq] at h
  have hfinite : x.isFinite = true := decide_eq_true h
  have hnumber := Binary.isNaN_of_isFinite hfinite
  have hunits := FloatFormat.units_lt (by decide) h
  rw [widen, Binary.convert, hnumber, hfinite, if_neg Bool.false_ne_true, if_pos rfl]
  apply Double.nearest_lt _ (Nat.two_pow_pos _) (by decide)
  refine Nat.lt_of_lt_of_le (Nat.mul_lt_mul_of_pos_right hunits (Nat.two_pow_pos _)) ?_
  rw [← Nat.pow_add, ← Nat.pow_add]
  exact Nat.pow_le_pow_right (by decide) (by decide)

theorem isFinite_widen (h : x.isFinite = true) : x.widen.isFinite = true :=
  Double.isFinite_of_lt (by decide) (widen_lt h)

/-- The decimal that is written for a widened number is not zero and at most `10 ^ 40`. -/
theorem shortest_widen (h : x.isFinite = true) (hz : x.widen.magnitude ≠ 0) (tie : Tie) :
    (FloatFormat.double.shortest tie x.widen.magnitude).digits ≠ 0 ∧
      (FloatFormat.double.shortest tie x.widen.magnitude).AtMost (10 ^ (40 : Nat)) := by
  have hten : 2 ^ 130 * 2 ^ FloatFormat.double.scale ≤
      10 ^ (40 : Nat) * 2 ^ FloatFormat.double.scale := Nat.mul_le_mul_right _ (by decide)
  have hunits : ∀ code, code < FloatFormat.double.leadCode 1152 →
      FloatFormat.double.units code ≤ 10 ^ (40 : Nat) * 2 ^ FloatFormat.double.scale := by
    intro code hcode
    refine Nat.le_trans (Nat.le_of_lt (FloatFormat.units_lt (by decide) hcode)) ?_
    refine Nat.le_trans ?_ hten
    rw [← Nat.pow_add]
    exact Nat.pow_le_pow_right (by decide) (by decide)
  have hlt := widen_lt h
  have hnext : x.widen.magnitude + 1 < FloatFormat.double.leadCode 1152 :=
    Nat.lt_of_le_of_lt hlt (Double.leadCode_lt _)
  exact FloatFormat.shortest_bounds (FloatFormat.units_pos hz)
    (hunits _ (Nat.lt_of_succ_lt hnext)) (hunits _ hnext) hz

end Single

end RenderMesh
