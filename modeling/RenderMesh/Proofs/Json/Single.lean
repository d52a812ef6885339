import RenderMesh.Proofs.Json.Halfway

/-!
# Reading back numbers of four bytes

The shortest decimal of a number of four bytes is read, by way of eight bytes, as the number itself.
With nine digits the decimal is too close to the number for scaling to bring it over a half-way
point. With fewer, a half-way point that scaling crosses is close to the decimal, and then it is the
decimal, which scaling does not move, or it is among those that were searched for.
-/

namespace RenderMesh

-- Powers of naturals are the core operation, whatever else is in scope.
attribute [local instance (high)] instPowNat

open FloatFormat (single)

namespace Single

variable {code : Nat}

theorem value_bounds (hc : code ≠ 0) (hfinite : code < single.infinity) :
    1 / 2 ^ 149 ≤ single.value code ∧ single.value code < 2 ^ 128 := by
  have hpos := FloatFormat.units_pos (f := single) hc
  have hunits := FloatFormat.units_lt (f := single) (k := 254) (by decide) hfinite
  have hexponent : single.fractionBits + 254 = 128 + single.scale := rfl
  constructor
  · apply div_le_div_of_nonneg_right _ (by positivity)
    exact_mod_cast hpos
  · rw [hexponent] at hunits
    rw [FloatFormat.value, div_lt_iff₀ (by positivity), ← pow_add]
    exact_mod_cast hunits

theorem lead_bounds (hc : code ≠ 0) (hfinite : code < single.infinity) :
    -45 ≤ single.lead code ∧ single.lead code < 39 := by
  obtain ⟨hlow, hhigh⟩ := value_bounds hc hfinite
  have hten : (10 : ℚ) ^ (-45 : Int) ≤ 1 / 2 ^ 149 := by norm_num
  have hten' : (2 ^ 128 : ℚ) ≤ 10 ^ (39 : Int) := by norm_num
  exact ⟨FloatFormat.le_lead hc (le_trans hten hlow),
    FloatFormat.lead_lt hc (lt_of_lt_of_le hhigh hten')⟩

/-- The half-way point above a code, by its mantissa and its step. -/
theorem halfway_single (code : Nat) : single.halfway code =
    (2 * single.mantissa code + 1 : Nat) * 2 ^ ((single.step code : Int) - 150) := by
  have hscale : (2 : ℚ) * 2 ^ single.scale = 2 ^ (150 : Int) := by
    rw [show single.scale = 149 from rfl]
    norm_num
  rw [FloatFormat.halfway_eq, hscale, FloatFormat.units_succ, FloatFormat.units_eq,
    zpow_sub₀ (by norm_num), zpow_natCast]
  push_cast
  ring

end Single

namespace Json

variable {code : Nat}

/-- The decimal that is written for a code of four bytes. -/
def shownDecimal (code : Nat) : Decimal := writtenDecimal (-6) 12 (single.shortest .even code)

/-- What it is scaled to. -/
def shownValue (code : Nat) : ℚ :=
  FloatFormat.double.value
    (Double.scaled (shownDecimal code).digits (shownDecimal code).exponent).magnitude

theorem value_shownDecimal (code : Nat) :
    (shownDecimal code).value = (single.shortest .even code).value := value_writtenDecimal _ _ _

theorem within_shownDecimal (hc : code ≠ 0) : single.Within code (shownDecimal code).value := by
  rw [value_shownDecimal]
  exact FloatFormat.within_shortest hc (by decide : 8 < 17) (by decide) .even

/-- What is written is scaled without an error in the digits. -/
theorem shownDecimal_bounds (hc : code ≠ 0) (hfinite : code < single.infinity) :
    0 < (shownDecimal code).digits ∧ (shownDecimal code).digits ≤ 10 ^ 14 ∧
      -64 ≤ (shownDecimal code).exponent ∧ (shownDecimal code).exponent ≤ 48 := by
  obtain ⟨hlow, hhigh⟩ := Single.lead_bounds hc hfinite
  obtain ⟨hdigits, hexponent⟩ :=
    FloatFormat.shortest_size (f := single) hc (by decide : 8 < 17) (by decide) .even
  obtain ⟨n, hn, k, hvalue, hk⟩ :=
    FloatFormat.shortest_neighbour (f := single) hc (by decide : 8 < 17) (by decide) .even
  have hwithin := within_shownDecimal hc
  rw [value_shownDecimal] at hwithin
  have hpos : 0 < (single.shortest .even code).value := by
    refine lt_of_lt_of_le ?_ hwithin.1
    rw [Single.halfway_single]
    positivity
  have hmost : (single.shortest .even code).value ≤ 10 ^ (48 : Int) := by
    have hk' : (k : ℚ) ≤ 10 ^ (n + 1) := by exact_mod_cast (FloatFormat.neighbour_bounds hc hk).2
    calc (single.shortest .even code).value = k * 10 ^ (single.lead code - n) := hvalue
      _ ≤ 10 ^ (n + 1) * 10 ^ (single.lead code - n) :=
          mul_le_mul_of_nonneg_right hk' (by positivity)
      _ = 10 ^ (single.lead code + 1) := by
          rw [← zpow_natCast, ← zpow_add₀ (by norm_num)]
          congr 1
          push_cast
          ring
      _ ≤ 10 ^ (48 : Int) := zpow_le_zpow_right₀ (by norm_num) (by omega)
  exact writtenDecimal_bounds (-6) (n := 14) (Nat.le_trans hdigits (by decide)) (by decide) hpos
    hmost (by omega)

theorem shownValue_near (hc : code ≠ 0) (hfinite : code < single.infinity) :
    Near (3 * Double.share) (shownDecimal code).value (shownValue code) := by
  obtain ⟨hpos, hdigits, hlow, hhigh⟩ := shownDecimal_bounds hc hfinite
  exact Double.scaled_near_of_held hpos (Nat.lt_of_le_of_lt hdigits (by decide)) hlow hhigh

theorem rereadCode_of_within (hc : code ≠ 0) (hfinite : code < single.infinity)
    (h : single.Within code (shownValue code)) : rereadCode code = code := by
  apply FloatFormat.round_eq_of_within (Nat.two_pow_pos _) (by decide) hc hfinite
  rw [Nat.cast_pow, Nat.cast_ofNat]
  exact h

/-! ### Nine digits -/

theorem within_of_nine (hc : code ≠ 0) (hfinite : code < single.infinity) {n k : Nat} (hn : 8 ≤ n)
    (hvalue : (shownDecimal code).value = k * 10 ^ (single.lead code - n))
    (hk : k = single.below code (single.lead code - n) ∨
      k = single.below code (single.lead code - n) + 1) :
    single.Within code (shownValue code) := by
  have hpos := FloatFormat.value_pos (f := single) hc
  obtain ⟨hlow, hhigh⟩ := FloatFormat.neighbour_spec hk
  have hgrid : (10 : ℚ) ^ (single.lead code - n) ≤ single.value code * (1 / 10 ^ 8) := by
    rw [zpow_sub₀ (by norm_num), zpow_natCast, mul_one_div]
    exact div_le_div₀ hpos.le (FloatFormat.pow_lead_le hc) (by positivity)
      (pow_le_pow_right₀ (by norm_num) hn)
  have hnear : Near (1 / 10 ^ 8) (single.value code) (shownDecimal code).value := by
    rw [hvalue]
    constructor <;> linarith
  have hscaled := hnear.trans (shownValue_near hc hfinite) hpos.le (by norm_num) (by norm_num)
    (by norm_num [Double.share]) (by norm_num [Double.share])
  refine FloatFormat.within_of_near hc ?_ hscaled
  rw [show single.fractionBits = 23 from rfl]
  norm_num [Double.share]

/-! ### Up to eight digits -/

/-- A half-way point that scaling reaches or crosses. -/
theorem exists_halfway (hc : code ≠ 0) (hfinite : code < single.infinity)
    (h : ¬ single.Within code (shownValue code)) : ∃ a, (a = code ∨ a + 1 = code) ∧
      Near (3 * Double.share) (shownDecimal code).value (single.halfway a) := by
  obtain ⟨hlow, hhigh, _⟩ := within_shownDecimal hc
  obtain ⟨hdown, hup⟩ := shownValue_near hc hfinite
  have hpos : 0 ≤ (shownDecimal code).value := by
    unfold Decimal.value
    positivity
  have hshare : 0 < Double.share := by norm_num [Double.share]
  have hout : shownValue code ≤ single.halfway (code - 1) ∨
      single.halfway code ≤ shownValue code := by
    refine or_iff_not_imp_left.mpr fun hleft => le_of_not_gt fun hright => h ?_
    have hleft' := lt_of_not_ge hleft
    exact ⟨hleft'.le, hright.le, Or.inr ⟨hleft', hright⟩⟩
  rcases hout with hout | hout
  · refine ⟨code - 1, Or.inr (Nat.succ_pred_eq_of_ne_zero hc), le_trans hdown hout, ?_⟩
    nlinarith
  · refine ⟨code, Or.inl rfl, ?_, le_trans hout hup⟩
    nlinarith

/-- What stands on both sides of a ratio has no more fives than the other side. -/
theorem exponent_bounds {e : Int} {t x y : Nat} (h : x * gridSide e t = y * stepSide e t)
    (hx : 0 < x) (hx' : x ≤ 10 ^ 14) (hy : 0 < y) (hy' : y ≤ 2 ^ 25) : -22 ≤ e ∧ e ≤ 22 := by
  have hfive : ∀ n m : Nat, Nat.Coprime (5 ^ n) (2 ^ m) := fun n m =>
    Nat.Coprime.pow n m (by decide)
  have hup : 5 ^ 23 > 10 ^ 14 := by decide
  unfold gridSide stepSide at h
  constructor
  · refine le_of_not_gt fun hlt => ?_
    have hnone : e.toNat = 0 := by omega
    rw [hnone, Nat.pow_zero, Nat.one_mul, Nat.mul_left_comm] at h
    have hdvd : 5 ^ (-e).toNat ∣ x :=
      (hfive _ _).dvd_of_dvd_mul_right (Dvd.intro _ h.symm)
    have hle := Nat.le_of_dvd hx hdvd
    have hpow : 5 ^ 23 ≤ 5 ^ (-e).toNat := Nat.pow_le_pow_right (by decide) (by omega)
    omega
  · refine le_of_not_gt fun hlt => ?_
    have hnone : (-e).toNat = 0 := by omega
    rw [hnone, Nat.pow_zero, Nat.one_mul, Nat.mul_left_comm] at h
    have hdvd : 5 ^ e.toNat ∣ y :=
      (hfive _ _).dvd_of_dvd_mul_right (Dvd.intro _ h)
    have hle := Nat.le_of_dvd hy hdvd
    have hpow : 5 ^ 23 ≤ 5 ^ e.toNat := Nat.pow_le_pow_right (by decide) (by omega)
    omega

/-- A decimal that is a half-way point is not moved by scaling. -/
theorem shownValue_of_halfway (hc : code ≠ 0) (hfinite : code < single.infinity) {a : Nat}
    (h : (shownDecimal code).value = single.halfway a) :
    shownValue code = (shownDecimal code).value := by
  obtain ⟨hpos, hdigits, _, _⟩ := shownDecimal_bounds hc hfinite
  have hmantissa := FloatFormat.mantissa_lt (f := single) a
  rw [Single.halfway_single] at h
  have hsides : (shownDecimal code).digits *
      gridSide (shownDecimal code).exponent (single.step a) =
        (2 * single.mantissa a + 1) * stepSide (shownDecimal code).exponent (single.step a) :=
    (sides_eq_iff _ _ _ _).mpr h
  have hbits : 2 ^ (single.fractionBits + 1) = 2 ^ 24 := rfl
  obtain ⟨hlow, hhigh⟩ := exponent_bounds hsides hpos hdigits (Nat.succ_pos _) (by omega)
  apply Double.scaled_held hpos (Nat.lt_of_le_of_lt hdigits (by decide)) hlow hhigh
  have hscale : FloatFormat.double.scale = 1074 := rfl
  exact ⟨_, _, by omega, by omega, h⟩

theorem step_lt_of_finite {a : Nat} (h : a < single.infinity) : single.step a < 254 := by
  have hinfinity : single.infinity = 255 * 2 ^ 23 := rfl
  have hdiv : a / 2 ^ 23 < 255 := Nat.div_lt_of_lt_mul (by omega)
  have hstep : single.step a = a / 2 ^ 23 - 1 := rfl
  omega

/-- Above a code there is a half-way point of its step. -/
theorem halfway_mantissa (a : Nat) : Halfway (single.step a) (2 * single.mantissa a + 1) := by
  have hmantissa := FloatFormat.mantissa_lt (f := single) a
  have hnormal : single.step a ≠ 0 → 2 ^ single.fractionBits ≤ single.mantissa a :=
    FloatFormat.le_mantissa
  have hbits : single.fractionBits = 23 := rfl
  rw [hbits] at hmantissa hnormal
  exact ⟨by omega, by omega, fun hstep => by have := hnormal hstep; omega⟩

/-- All digits of a decimal up to the eighth, with zeros where it has fewer. -/
theorem eight_digits {n k : Nat} (hn : n ≤ 7) (hlow : 10 ^ n ≤ k) (hhigh : k ≤ 10 ^ (n + 1))
    (lead : Int) : ∃ x : Nat, 10 ^ 7 ≤ x ∧ x ≤ 10 ^ 8 ∧
      (k * 10 ^ (lead - n) : ℚ) = x * 10 ^ (lead - 7) := by
  refine ⟨k * 10 ^ (7 - n), ?_, ?_, ?_⟩
  · calc 10 ^ 7 = 10 ^ n * 10 ^ (7 - n) := by rw [← Nat.pow_add, Nat.add_sub_cancel' hn]
      _ ≤ k * 10 ^ (7 - n) := Nat.mul_le_mul_right _ hlow
  · calc k * 10 ^ (7 - n) ≤ 10 ^ (n + 1) * 10 ^ (7 - n) := Nat.mul_le_mul_right _ hhigh
      _ = 10 ^ 8 := by
          rw [← Nat.pow_add]
          congr 1
          omega
  · have hpow : (10 : ℚ) ^ (lead - n) = 10 ^ (7 - n) * 10 ^ (lead - 7) := by
      rw [← zpow_natCast, ← zpow_add₀ (by norm_num)]
      congr 1
      omega
    rw [hpow]
    push_cast
    ring

theorem rereadCode_of_eight (hc : code ≠ 0) (hfinite : code < single.infinity) {n k : Nat}
    (hn : n ≤ 7) (hvalue : (shownDecimal code).value = k * 10 ^ (single.lead code - n))
    (hk : k = single.below code (single.lead code - n) ∨
      k = single.below code (single.lead code - n) + 1) : rereadCode code = code := by
  by_cases hwithin : single.Within code (shownValue code)
  · exact rereadCode_of_within hc hfinite hwithin
  obtain ⟨a, ha, hnear⟩ := exists_halfway hc hfinite hwithin
  obtain ⟨hlead, hlead'⟩ := Single.lead_bounds hc hfinite
  obtain ⟨hlow, hhigh⟩ := FloatFormat.neighbour_bounds hc hk
  obtain ⟨x, hleast, hmost, hx⟩ := eight_digits hn hlow hhigh (single.lead code)
  rw [hx] at hvalue
  have hclose : Close (single.lead code - 7) (single.step a) x (2 * single.mantissa a + 1) := by
    rw [Close, ← hvalue, ← Single.halfway_single]
    exact hnear
  have hstep : single.step a < 254 := step_lt_of_finite (by omega)
  -- Scaling crosses the half-way point: the decimal is the point, or both codes were tried.
  rcases hclose.cases (by omega) (by omega) hstep hleast hmost (halfway_mantissa a) with
    heq | hread
  · have hexact : (shownDecimal code).value = single.halfway a := by
      rw [hvalue, Single.halfway_single]
      exact (sides_eq_iff _ _ _ _).mp heq
    rw [shownValue_of_halfway hc hfinite hexact] at hwithin
    exact absurd (within_shownDecimal hc) hwithin
  · have hhalf : (2 * single.mantissa a + 1) / 2 = single.mantissa a := by omega
    have hsum : single.step a * 2 ^ 23 + single.mantissa a = a :=
      FloatFormat.step_add_mantissa a
    rw [hhalf, hsum] at hread
    rcases ha with rfl | rfl
    · exact hread.1
    · exact hread.2

/-! ### Every number of four bytes -/

/-- The literal of a code of four bytes is read as the code. -/
theorem rereadCode_eq (hfinite : code < single.infinity) : rereadCode code = code := by
  by_cases hc : code = 0
  · rw [hc]
    decide +kernel
  obtain ⟨n, _, k, hvalue, hk⟩ :=
    FloatFormat.shortest_neighbour (f := single) hc (by decide : 8 < 17) (by decide) .even
  rw [← value_shownDecimal] at hvalue
  rcases Nat.lt_or_ge n 8 with hn | hn
  · exact rereadCode_of_eight hc hfinite (by omega) hvalue hk
  · exact rereadCode_of_within hc hfinite (within_of_nine hc hfinite hn hvalue hk)

end Json

end RenderMesh
