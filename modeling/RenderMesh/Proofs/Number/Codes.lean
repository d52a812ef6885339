import RenderMesh.Number.Shortest
import RenderMesh.Proofs.Number.Rounding

/-!
# Codes by step and mantissa

A code counts in a power of two, its step, and the mantissa says how many of them. With that the
values of a code and of its neighbours are known, and so is what a ratio is rounded to: the code
that holds it between its half-way points.
-/

namespace RenderMesh

-- Powers of naturals are the core operation, whatever else is in scope.
attribute [local instance (high)] instPowNat

namespace FloatFormat

variable (f : FloatFormat)

/-- The power of two that a code counts in. -/
def step (code : Nat) : Nat := code / 2 ^ f.fractionBits - 1

/-- How many of them make the value of a code. -/
def mantissa (code : Nat) : Nat := code - f.step code * 2 ^ f.fractionBits

theorem units_eq (code : Nat) : f.units code = f.mantissa code * 2 ^ f.step code := rfl

variable {f} {code num den m t : Nat}

theorem step_add_mantissa (code : Nat) :
    f.step code * 2 ^ f.fractionBits + f.mantissa code = code := by
  have hstep : f.step code ≤ code / 2 ^ f.fractionBits := Nat.sub_le _ _
  have hle : f.step code * 2 ^ f.fractionBits ≤ code :=
    Nat.le_trans (Nat.mul_le_mul_right _ hstep) (Nat.div_mul_le_self _ _)
  unfold mantissa
  omega

theorem mantissa_lt (code : Nat) : f.mantissa code < 2 ^ (f.fractionBits + 1) := by
  have hsum := step_add_mantissa (f := f) code
  have hcode : code < (f.step code + 2) * 2 ^ f.fractionBits := by
    apply Nat.lt_mul_of_div_lt _ (Nat.two_pow_pos _)
    unfold step
    omega
  rw [Nat.add_mul] at hcode
  rw [Nat.pow_succ]
  omega

theorem le_mantissa (h : f.step code ≠ 0) : 2 ^ f.fractionBits ≤ f.mantissa code := by
  have hsum := step_add_mantissa (f := f) code
  have hcode : (f.step code + 1) * 2 ^ f.fractionBits ≤ code := by
    have hstep : f.step code + 1 = code / 2 ^ f.fractionBits := by
      unfold step at h ⊢
      omega
    rw [hstep]
    exact Nat.div_mul_le_self _ _
  rw [Nat.add_mul] at hcode
  omega

/-- The value of a code that is put together. The mantissa may be one above the greatest: it is
the first of the next step. -/
theorem units_add (hm : m ≤ 2 ^ (f.fractionBits + 1)) (ht : t = 0 ∨ 2 ^ f.fractionBits ≤ m) :
    f.units (t * 2 ^ f.fractionBits + m) = m * 2 ^ t := by
  have hpos : 0 < 2 ^ f.fractionBits := Nat.two_pow_pos _
  rw [Nat.pow_succ] at hm
  have hquotient : (t * 2 ^ f.fractionBits + m) / 2 ^ f.fractionBits =
      t + m / 2 ^ f.fractionBits := by
    rw [Nat.add_comm, Nat.add_mul_div_right _ _ hpos, Nat.add_comm]
  rcases Nat.lt_or_ge m (2 ^ f.fractionBits * 2) with hlt | hge
  · have hdiv : m / 2 ^ f.fractionBits < 2 := (Nat.div_lt_iff_lt_mul hpos).mpr (by omega)
    have hstep : (t * 2 ^ f.fractionBits + m) / 2 ^ f.fractionBits - 1 = t := by
      rcases ht with rfl | hle
      · omega
      · have hone : 1 ≤ m / 2 ^ f.fractionBits := (Nat.one_le_div_iff hpos).mpr hle
        omega
    rw [units, hstep, Nat.add_sub_cancel_left]
  · have hm : m = 2 ^ f.fractionBits * 2 := by omega
    have hdiv : m / 2 ^ f.fractionBits = 2 := by rw [hm, Nat.mul_div_cancel_left _ hpos]
    have hstep : (t * 2 ^ f.fractionBits + m) / 2 ^ f.fractionBits - 1 = t + 1 := by omega
    have hrest : t * 2 ^ f.fractionBits + m - (t + 1) * 2 ^ f.fractionBits =
        2 ^ f.fractionBits := by
      rw [Nat.add_mul]
      omega
    rw [units, hstep, hrest, hm, Nat.pow_succ]
    ac_rfl

theorem units_succ (code : Nat) : f.units (code + 1) = (f.mantissa code + 1) * 2 ^ f.step code := by
  have hsum := step_add_mantissa (f := f) code
  have hlt := mantissa_lt (f := f) code
  have hadd := units_add (f := f) (m := f.mantissa code + 1) (t := f.step code) hlt (by
    by_cases hstep : f.step code = 0
    · exact Or.inl hstep
    · exact Or.inr (Nat.le_succ_of_le (le_mantissa hstep)))
  rw [← hadd, ← Nat.add_assoc, hsum]

/-- Neighbours are no closer than their share of the greater one. -/
theorem units_gap (code : Nat) :
    2 ^ (f.fractionBits + 1) * f.units code + f.units (code + 1) ≤
      2 ^ (f.fractionBits + 1) * f.units (code + 1) := by
  have hlt := mantissa_lt (f := f) code
  rw [units_succ, units_eq]
  generalize f.mantissa code = m at hlt ⊢
  calc 2 ^ (f.fractionBits + 1) * (m * 2 ^ f.step code) + (m + 1) * 2 ^ f.step code
      ≤ 2 ^ (f.fractionBits + 1) * (m * 2 ^ f.step code) +
          2 ^ (f.fractionBits + 1) * 2 ^ f.step code :=
        Nat.add_le_add_left (Nat.mul_le_mul_right _ hlt) _
    _ = 2 ^ (f.fractionBits + 1) * ((m + 1) * 2 ^ f.step code) := by
        rw [Nat.add_mul, Nat.one_mul, Nat.mul_add]

/-- Neighbours of normal size are no further apart than their share of the smaller one. -/
theorem units_succ_le (h : 2 ^ f.fractionBits ≤ code) :
    2 ^ f.fractionBits * f.units (code + 1) ≤
      2 ^ f.fractionBits * f.units code + f.units code := by
  have hm : 2 ^ f.fractionBits ≤ f.mantissa code := by
    by_cases hstep : f.step code = 0
    · have hsum := step_add_mantissa (f := f) code
      rw [hstep, Nat.zero_mul, Nat.zero_add] at hsum
      rwa [hsum]
    · exact le_mantissa hstep
  rw [units_succ, units_eq]
  generalize f.mantissa code = m at hm ⊢
  calc 2 ^ f.fractionBits * ((m + 1) * 2 ^ f.step code)
      = 2 ^ f.fractionBits * (m * 2 ^ f.step code) + 2 ^ f.fractionBits * 2 ^ f.step code := by
        rw [Nat.add_mul, Nat.one_mul, Nat.mul_add]
    _ ≤ 2 ^ f.fractionBits * (m * 2 ^ f.step code) + m * 2 ^ f.step code :=
        Nat.add_le_add_left (Nat.mul_le_mul_right _ hm) _

theorem units_lt_succ (code : Nat) : f.units code < f.units (code + 1) := by
  rw [units_succ, units_eq]
  exact Nat.mul_lt_mul_of_pos_right (Nat.lt_succ_self _) (Nat.two_pow_pos _)

/-! ### Half-way points -/

/-- The code just below: one less of the same step, or the greatest mantissa of the step below. -/
theorem units_pred (h : code ≠ 0) :
    (f.step code = 0 ∨ f.mantissa code ≠ 2 ^ f.fractionBits) ∧
        f.units (code - 1) + 2 ^ f.step code = f.units code ∨
      f.mantissa code = 2 ^ f.fractionBits ∧ ∃ t, f.step code = t + 1 ∧
        f.units (code - 1) + 2 ^ t = f.units code := by
  have hsum := step_add_mantissa (f := f) code
  have hlt := mantissa_lt (f := f) code
  have hpos : 0 < 2 ^ f.fractionBits := Nat.two_pow_pos _
  rw [units_eq f code]
  generalize f.mantissa code = m at hsum hlt ⊢
  have hm : f.step code ≠ 0 → 2 ^ f.fractionBits ≤ m := by
    intro hstep
    have hle := le_mantissa hstep
    have hsum' := step_add_mantissa (f := f) code
    omega
  generalize f.step code = t at hsum hm ⊢
  have hone : 0 < m := by
    by_cases ht : t = 0
    · rw [ht, Nat.zero_mul, Nat.zero_add] at hsum
      omega
    · exact Nat.lt_of_lt_of_le hpos (hm ht)
  by_cases hfirst : t ≠ 0 ∧ m = 2 ^ f.fractionBits
  · obtain ⟨ht, hfirst⟩ := hfirst
    obtain ⟨t, rfl⟩ := Nat.exists_eq_succ_of_ne_zero ht
    refine Or.inr ⟨hfirst, t, rfl, ?_⟩
    have hpred : code - 1 = t * 2 ^ f.fractionBits + (2 ^ (f.fractionBits + 1) - 1) := by
      rw [Nat.succ_mul] at hsum
      rw [Nat.pow_succ]
      omega
    rw [hpred, units_add (Nat.sub_le _ _) (Or.inr (by rw [Nat.pow_succ]; omega)), hfirst,
      Nat.sub_mul, Nat.one_mul, Nat.sub_add_cancel (Nat.le_mul_of_pos_left _ (Nat.two_pow_pos _)),
      Nat.pow_succ, Nat.pow_succ]
    ac_rfl
  · refine Or.inl ⟨by omega, ?_⟩
    have hpred : code - 1 = t * 2 ^ f.fractionBits + (m - 1) := by omega
    rw [hpred, units_add (by omega) (by omega), Nat.sub_mul, Nat.one_mul,
      Nat.sub_add_cancel (Nat.le_mul_of_pos_left _ hone)]

end FloatFormat

/-! ### Rounding to the code that holds a ratio -/

theorem roundHalfEven_eq {num den k : Nat} (hd : 0 < den) (hlow : 2 * (k * den) ≤ 2 * num + den)
    (hhigh : 2 * num ≤ 2 * (k * den) + den)
    (htie : k % 2 = 0 ∨ 2 * (k * den) < 2 * num + den ∧ 2 * num < 2 * (k * den) + den) :
    roundHalfEven num den = k := by
  have hsum : den * (num / den) + num % den = num := Nat.div_add_mod _ _
  have hrest : num % den < den := Nat.mod_lt _ hd
  unfold roundHalfEven
  extract_lets below rest
  change den * below + rest = num at hsum
  change rest < den at hrest
  rw [Nat.mul_comm k] at hlow hhigh htie
  have hle : below ≤ k := by
    refine Nat.le_of_not_lt fun hlt => ?_
    have hmul : den * (k + 1) ≤ den * below := Nat.mul_le_mul_left _ hlt
    rw [Nat.mul_add] at hmul
    omega
  have hge : k ≤ below + 1 := by
    refine Nat.le_of_not_lt fun hlt => ?_
    have hmul : den * (below + 2) ≤ den * k := Nat.mul_le_mul_left _ hlt
    rw [Nat.mul_add] at hmul
    omega
  rcases Nat.lt_or_ge below k with hk | hk
  · have hk : k = below + 1 := by omega
    rw [hk, Nat.mul_add] at hlow hhigh htie
    split
    · omega
    · split <;> omega
  · have hk : k = below := by omega
    rw [hk] at hlow hhigh htie
    split
    · omega
    · split <;> omega

/-- A half is the furthest that rounding goes. -/
theorem roundHalfEven_bounds (num : Nat) {den : Nat} (hd : 0 < den) :
    2 * (roundHalfEven num den * den) ≤ 2 * num + den ∧
      2 * num ≤ 2 * (roundHalfEven num den * den) + den := by
  have hsum : den * (num / den) + num % den = num := Nat.div_add_mod _ _
  have hrest : num % den < den := Nat.mod_lt _ hd
  unfold roundHalfEven
  extract_lets below rest
  change den * below + rest = num at hsum
  change rest < den at hrest
  split
  · rw [Nat.mul_comm below]
    omega
  split
  · rw [Nat.add_mul, Nat.mul_comm below]
    omega
  · have hbit : below % 2 < 2 := Nat.mod_lt _ (by decide)
    have hcases : below % 2 = 0 ∨ below % 2 = 1 := by omega
    rcases hcases with h0 | h1
    · rw [h0, Nat.add_zero, Nat.mul_comm below]
      omega
    · rw [h1, Nat.add_mul, Nat.mul_comm below]
      omega

namespace FloatFormat

variable {f : FloatFormat} {code num den m t : Nat}

/-- A value counts in the step of its leading bit. -/
theorem log2_sub_eq {value : Nat} (hlow : t = 0 ∨ 2 ^ (f.fractionBits + t) ≤ value)
    (hhigh : value < 2 ^ (f.fractionBits + t + 1)) : value.log2 - f.fractionBits = t := by
  have hle : value.log2 - f.fractionBits ≤ t + 1 - 1 := log2_sub_le hhigh
  rcases hlow with rfl | hlow
  · omega
  · have hz : value ≠ 0 := Nat.ne_zero_of_lt (Nat.lt_of_lt_of_le (Nat.two_pow_pos _) hlow)
    have hlog := (Nat.le_log2 hz).mpr hlow
    omega

/-- A ratio counts in a step if it does not go past it and, unless it is the first, reaches it. -/
structure CountsIn (f : FloatFormat) (num den t : Nat) : Prop where
  reaches : t = 0 ∨ 2 ^ f.fractionBits * (den * 2 ^ t) ≤ num * 2 ^ f.scale
  within : num * 2 ^ f.scale < 2 ^ (f.fractionBits + 1) * (den * 2 ^ t)

theorem two_pow_mul_unit (k den t : Nat) : 2 ^ k * (den * 2 ^ t) = 2 ^ (k + t) * den := by
  rw [Nat.pow_add]
  ac_rfl

/-- A ratio is rounded in the step that it counts in. -/
theorem CountsIn.round (h : f.CountsIn num den t) (hd : 0 < den) :
    f.round num den =
      min (t * 2 ^ f.fractionBits + roundHalfEven (num * 2 ^ f.scale) (den * 2 ^ t))
        f.infinity := by
  obtain ⟨hreaches, hwithin⟩ := h
  rw [two_pow_mul_unit] at hreaches hwithin
  rw [Nat.add_right_comm] at hwithin
  have hstep : (num * 2 ^ f.scale / den).log2 - f.fractionBits = t := by
    apply log2_sub_eq
    · exact hreaches.imp_right (Nat.le_div_iff_mul_le hd).mpr
    · exact (Nat.div_lt_iff_lt_mul hd).mpr hwithin
  simp only [FloatFormat.round, hstep]

/-- It is the step of the leading bit. -/
theorem exists_countsIn (num : Nat) (hd : 0 < den) : ∃ t, f.CountsIn num den t := by
  generalize hvalue : num * 2 ^ f.scale / den = value
  refine ⟨value.log2 - f.fractionBits, ?_, ?_⟩
  · by_cases hz : value.log2 ≤ f.fractionBits
    · exact Or.inl (Nat.sub_eq_zero_of_le hz)
    · have hne : value ≠ 0 := by
        rintro rfl
        exact hz (Nat.zero_le _)
      have hle : 2 ^ (f.fractionBits + (value.log2 - f.fractionBits)) ≤ value := by
        rw [Nat.add_sub_cancel' (Nat.le_of_not_le hz)]
        exact Nat.log2_self_le hne
      rw [two_pow_mul_unit]
      exact Or.inr ((Nat.le_div_iff_mul_le hd).mp (Nat.le_trans hle (Nat.le_of_eq hvalue.symm)))
  · have hlt : value < 2 ^ (f.fractionBits + 1 + (value.log2 - f.fractionBits)) :=
      Nat.lt_of_lt_of_le Nat.lt_log2_self (Nat.pow_le_pow_right (by decide) (by omega))
    rw [two_pow_mul_unit]
    exact (Nat.div_lt_iff_lt_mul hd).mp (Nat.lt_of_le_of_lt (Nat.le_of_eq hvalue) hlt)

/-- A number that the format holds is not moved. -/
theorem units_round_exact {m a : Nat} (hd : 0 < den) (hm : m < 2 ^ (f.fractionBits + 1))
    (h : num * 2 ^ f.scale = den * (m * 2 ^ a)) (hfinite : f.round num den < f.infinity) :
    f.units (f.round num den) = m * 2 ^ a := by
  obtain ⟨t, ht⟩ := exists_countsIn (f := f) num hd
  have hround := ht.round hd
  obtain ⟨hreaches, hwithin⟩ := ht
  have hta : t ≤ a := by
    rcases hreaches with rfl | hreaches
    · exact Nat.zero_le _
    · rw [h, two_pow_mul_unit, Nat.mul_comm den] at hreaches
      have hle := Nat.le_of_mul_le_mul_right hreaches hd
      have hlt : m * 2 ^ a < 2 ^ (f.fractionBits + 1 + a) := by
        rw [Nat.pow_add]
        exact Nat.mul_lt_mul_of_pos_right hm (Nat.two_pow_pos _)
      have hpow := (Nat.pow_lt_pow_iff_right (by decide)).mp (Nat.lt_of_le_of_lt hle hlt)
      omega
  obtain ⟨b, rfl⟩ := Nat.exists_eq_add_of_le hta
  have hpos : 0 < den * 2 ^ t := Nat.mul_pos hd (Nat.two_pow_pos _)
  have hvalue : num * 2 ^ f.scale = m * 2 ^ b * (den * 2 ^ t) := by
    rw [h, Nat.pow_add]
    ac_rfl
  have hquotient : roundHalfEven (num * 2 ^ f.scale) (den * 2 ^ t) = m * 2 ^ b := by
    rw [hvalue]
    simp [roundHalfEven, Nat.mul_div_cancel _ hpos, hpos]
  rw [hvalue] at hreaches hwithin
  have hmantissa : m * 2 ^ b < 2 ^ (f.fractionBits + 1) := Nat.lt_of_mul_lt_mul_right hwithin
  have hnormal : t = 0 ∨ 2 ^ f.fractionBits ≤ m * 2 ^ b :=
    hreaches.imp_right fun hle => Nat.le_of_mul_le_mul_right hle hpos
  rw [hquotient] at hround
  have hcode : f.round num den = t * 2 ^ f.fractionBits + m * 2 ^ b := by omega
  rw [hcode, units_add (Nat.le_of_lt hmantissa) hnormal, Nat.pow_add]
  ac_rfl

/-- A ratio of normal size is moved by no more than its last share. -/
theorem units_round_bounds (hd : 0 < den) (hnormal : den * 2 ^ f.fractionBits ≤ num * 2 ^ f.scale)
    (hfinite : f.round num den < f.infinity) :
    2 ^ (f.fractionBits + 1) * (f.units (f.round num den) * den) ≤
        2 ^ (f.fractionBits + 1) * (num * 2 ^ f.scale) + num * 2 ^ f.scale ∧
      2 ^ (f.fractionBits + 1) * (num * 2 ^ f.scale) ≤
        2 ^ (f.fractionBits + 1) * (f.units (f.round num den) * den) + num * 2 ^ f.scale := by
  obtain ⟨t, ht⟩ := exists_countsIn (f := f) num hd
  have hround := ht.round hd
  have hwithin := ht.within
  have hlead : 2 ^ f.fractionBits * (den * 2 ^ t) ≤ num * 2 ^ f.scale := by
    rcases ht.reaches with rfl | hreaches
    · rw [Nat.pow_zero, Nat.mul_one, Nat.mul_comm]
      exact hnormal
    · exact hreaches
  have hpos : 0 < den * 2 ^ t := Nat.mul_pos hd (Nat.two_pow_pos _)
  obtain ⟨hup, hdown⟩ := roundHalfEven_bounds (num * 2 ^ f.scale) hpos
  generalize hm : roundHalfEven (num * 2 ^ f.scale) (den * 2 ^ t) = m at hround hup hdown
  have hmantissa : m ≤ 2 ^ (f.fractionBits + 1) := by
    refine Nat.le_of_not_lt fun hlt => ?_
    have hmul := Nat.mul_le_mul_right (den * 2 ^ t) (Nat.succ_le_of_lt hlt)
    rw [Nat.succ_mul] at hmul
    omega
  have hfirst : 2 ^ f.fractionBits ≤ m := by
    refine Nat.le_of_not_lt fun hlt => ?_
    have hmul := Nat.mul_le_mul_right (den * 2 ^ t) (Nat.succ_le_of_lt hlt)
    rw [Nat.succ_mul] at hmul
    omega
  have hcode : f.round num den = t * 2 ^ f.fractionBits + m := by omega
  have hvalue : f.units (f.round num den) * den = m * (den * 2 ^ t) := by
    rw [hcode, units_add hmantissa (Or.inr hfirst)]
    ac_rfl
  -- Half a step is at most the share of the value that the step belongs to.
  rw [hvalue]
  generalize num * 2 ^ f.scale = value at hlead hup hdown ⊢
  generalize den * 2 ^ t = unit at hlead hup hdown ⊢
  have hup' := Nat.mul_le_mul_left (2 ^ f.fractionBits) hup
  have hdown' := Nat.mul_le_mul_left (2 ^ f.fractionBits) hdown
  rw [Nat.mul_add, Nat.mul_left_comm, Nat.mul_left_comm _ 2] at hup' hdown'
  rw [Nat.pow_succ, Nat.mul_comm _ 2, Nat.mul_assoc, Nat.mul_assoc]
  omega

/-- A ratio between half-way points of its step is rounded to the mantissa between them. -/
theorem CountsIn.round_eq (h : f.CountsIn num den t) (hd : 0 < den)
    (hcode : t * 2 ^ f.fractionBits + m = code) (hfinite : code < f.infinity)
    (hlow : 2 * (m * (den * 2 ^ t)) ≤ 2 * (num * 2 ^ f.scale) + den * 2 ^ t)
    (hhigh : 2 * (num * 2 ^ f.scale) ≤ 2 * (m * (den * 2 ^ t)) + den * 2 ^ t)
    (htie : m % 2 = 0 ∨ 2 * (m * (den * 2 ^ t)) < 2 * (num * 2 ^ f.scale) + den * 2 ^ t ∧
      2 * (num * 2 ^ f.scale) < 2 * (m * (den * 2 ^ t)) + den * 2 ^ t) :
    f.round num den = code := by
  have hpos : 0 < den * 2 ^ t := Nat.mul_pos hd (Nat.two_pow_pos _)
  rw [h.round hd, roundHalfEven_eq hpos hlow hhigh htie, hcode]
  exact Nat.min_eq_left (Nat.le_of_lt hfinite)

/-! ### Rounding between the half-way points of a code -/

theorem mantissa_mod_two (hbits : 0 < f.fractionBits) (code : Nat) :
    f.mantissa code % 2 = code % 2 := by
  have hsum := step_add_mantissa (f := f) code
  obtain ⟨b, hb⟩ := Nat.exists_eq_succ_of_ne_zero (Nat.ne_of_gt hbits)
  rw [hb, Nat.pow_succ, ← Nat.mul_assoc] at hsum
  omega

theorem units_mul (code den : Nat) :
    f.units code * den = f.mantissa code * (den * 2 ^ f.step code) := by
  rw [units_eq]
  ac_rfl

theorem units_succ_mul (code den : Nat) :
    f.units (code + 1) * den =
      f.mantissa code * (den * 2 ^ f.step code) + den * 2 ^ f.step code := by
  rw [units_succ, Nat.add_mul, Nat.add_mul, Nat.one_mul]
  ac_rfl

theorem units_pred_mul (h : f.units (code - 1) + 2 ^ t = f.units code) (den : Nat) :
    f.units (code - 1) * den + den * 2 ^ t = f.mantissa code * (den * 2 ^ f.step code) := by
  rw [Nat.mul_comm den, ← Nat.add_mul, h, units_mul]

/-- A ratio that counts in the step of a code is rounded to the mantissa of the code. -/
theorem round_of_between_in_step (hd : 0 < den) (hbits : 0 < f.fractionBits) (hc : code ≠ 0)
    (hfinite : code < f.infinity)
    (hlead : f.step code = 0 ∨
      2 ^ f.fractionBits * (den * 2 ^ f.step code) ≤ num * 2 ^ f.scale)
    (hlow : (f.units (code - 1) + f.units code) * den ≤ 2 * (num * 2 ^ f.scale))
    (hhigh : 2 * (num * 2 ^ f.scale) ≤ (f.units code + f.units (code + 1)) * den)
    (htie : code % 2 = 0 ∨
      (f.units (code - 1) + f.units code) * den < 2 * (num * 2 ^ f.scale) ∧
        2 * (num * 2 ^ f.scale) < (f.units code + f.units (code + 1)) * den) :
    f.round num den = code := by
  have hpos : 0 < den * 2 ^ f.step code := Nat.mul_pos hd (Nat.two_pow_pos _)
  rw [Nat.add_mul, Nat.add_mul, units_mul code, units_succ_mul, ← mantissa_mod_two hbits] at htie
  rw [Nat.add_mul, units_mul code, units_succ_mul] at hhigh
  rw [Nat.add_mul, units_mul code] at hlow
  have hend : num * 2 ^ f.scale < 2 ^ (f.fractionBits + 1) * (den * 2 ^ f.step code) := by
    have hmul := Nat.mul_le_mul_right (den * 2 ^ f.step code)
      (Nat.succ_le_of_lt (mantissa_lt (f := f) code))
    rw [Nat.succ_mul] at hmul
    omega
  -- The code below is a step less, or it is so close that the ratio is above the first mantissa.
  have hbelow : f.units (code - 1) * den + den * 2 ^ f.step code =
        f.mantissa code * (den * 2 ^ f.step code) ∨
      f.mantissa code * (den * 2 ^ f.step code) ≤ num * 2 ^ f.scale := by
    rcases units_pred hc with ⟨_, hpred⟩ | ⟨hm, t, ht, _⟩
    · exact Or.inl (units_pred_mul hpred den)
    · exact Or.inr (hm ▸ hlead.resolve_left (by omega))
  apply CountsIn.round_eq ⟨hlead, hend⟩ hd (step_add_mantissa code) hfinite
  all_goals omega

/-- A ratio below a step is rounded to the first mantissa of it from the step before. -/
theorem round_of_below_step (hd : 0 < den) (hfinite : code < f.infinity)
    (hm : f.mantissa code = 2 ^ f.fractionBits) (ht : f.step code = t + 1)
    (hpred : f.units (code - 1) + 2 ^ t = f.units code)
    (hless : num * 2 ^ f.scale < 2 ^ f.fractionBits * (den * 2 ^ f.step code))
    (hlow : (f.units (code - 1) + f.units code) * den ≤ 2 * (num * 2 ^ f.scale)) :
    f.round num den = code := by
  have hsum := step_add_mantissa (f := f) code
  have hsub := units_pred_mul hpred den
  have hdouble : den * 2 ^ f.step code = 2 * (den * 2 ^ t) := by
    rw [ht, Nat.pow_succ]
    ac_rfl
  have hcode : t * 2 ^ f.fractionBits + 2 * f.mantissa code = code := by
    rw [ht, Nat.succ_mul] at hsum
    omega
  rw [Nat.add_mul, units_mul code, hdouble, Nat.mul_left_comm] at hlow
  rw [hdouble, Nat.mul_left_comm] at hsub hless
  have hone : 0 < f.mantissa code := hm ▸ Nat.two_pow_pos _
  have hunit := Nat.mul_le_mul_right (den * 2 ^ t) (Nat.succ_le_of_lt hone)
  rw [← hm] at hless
  have hcounts : f.CountsIn num den t := by
    constructor
    · rw [← hm]
      omega
    · rw [Nat.pow_succ, ← hm, Nat.mul_right_comm]
      omega
  apply hcounts.round_eq hd hcode hfinite
  · rw [Nat.mul_assoc]
    omega
  · rw [Nat.mul_assoc]
    omega
  · exact Or.inl (Nat.mul_mod_right _ _)

/-- A ratio is rounded to the code that has it between its half-way points. -/
theorem round_of_between (hd : 0 < den) (hbits : 0 < f.fractionBits) (hc : code ≠ 0)
    (hfinite : code < f.infinity)
    (hlow : (f.units (code - 1) + f.units code) * den ≤ 2 * (num * 2 ^ f.scale))
    (hhigh : 2 * (num * 2 ^ f.scale) ≤ (f.units code + f.units (code + 1)) * den)
    (htie : code % 2 = 0 ∨
      (f.units (code - 1) + f.units code) * den < 2 * (num * 2 ^ f.scale) ∧
        2 * (num * 2 ^ f.scale) < (f.units code + f.units (code + 1)) * den) :
    f.round num den = code := by
  by_cases hlead : f.step code = 0 ∨
      2 ^ f.fractionBits * (den * 2 ^ f.step code) ≤ num * 2 ^ f.scale
  · exact round_of_between_in_step hd hbits hc hfinite hlead hlow hhigh htie
  · obtain ⟨hstep, hless⟩ := not_or.mp hlead
    rcases units_pred hc with ⟨hm, hpred⟩ | ⟨hm, t, ht, hpred⟩
    -- Past the first mantissa of a step, what lies between the half-way points counts in it.
    · have hmul := Nat.mul_le_mul_right (den * 2 ^ f.step code)
        (Nat.succ_le_of_lt (Nat.lt_of_le_of_ne (le_mantissa hstep) (hm.resolve_left hstep).symm))
      have hsub := units_pred_mul hpred den
      rw [Nat.add_mul, units_mul code] at hlow
      rw [Nat.succ_mul] at hmul
      omega
    · exact round_of_below_step hd hfinite hm ht hpred (Nat.lt_of_not_le hless) hlow

end FloatFormat

end RenderMesh
