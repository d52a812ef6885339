import RenderMesh.Number.Rounding

/-!
# Bounds of rounding

Rounding does not leave the powers of two that enclose a value. Codes are compared with the first
code of a power of two, `(k + 1) * 2 ^ fractionBits` for the value `2 ^ (fractionBits + k)` in least
positive numbers, so bounds of values and bounds of codes carry each other.
-/

namespace RenderMesh

-- Powers of naturals are the core operation, whatever else is in scope.
attribute [local instance (high)] instPowNat

theorem le_roundHalfEven (num den : Nat) : num / den ≤ roundHalfEven num den := by
  unfold roundHalfEven
  extract_lets below rest
  split
  · exact Nat.le_refl _
  · split
    · exact Nat.le_succ _
    · exact Nat.le_add_right _ _

theorem roundHalfEven_le (num den : Nat) : roundHalfEven num den ≤ num / den + 1 := by
  unfold roundHalfEven
  extract_lets below rest
  split
  · exact Nat.le_succ _
  · split
    · exact Nat.le_refl _
    · exact Nat.add_le_add_left (Nat.le_of_lt_succ (Nat.mod_lt _ (by decide))) _

namespace FloatFormat

variable (f : FloatFormat)

/-- The first code of the values from `2 ^ (fractionBits + k)` on. -/
def leadCode (k : Nat) : Nat := (k + 1) * 2 ^ f.fractionBits

variable {f} {code num den k : Nat}

theorem leadCode_mono {j : Nat} (h : j ≤ k) : f.leadCode j ≤ f.leadCode k :=
  Nat.mul_le_mul_right _ (Nat.succ_le_succ h)

theorem units_lt (hk : 0 < k) (h : code < f.leadCode k) :
    f.units code < 2 ^ (f.fractionBits + k) := by
  have hpos : 0 < 2 ^ f.fractionBits := Nat.two_pow_pos _
  have hlead : code / 2 ^ f.fractionBits < k + 1 := (Nat.div_lt_iff_lt_mul hpos).mpr h
  have hcode : code < (code / 2 ^ f.fractionBits + 1) * 2 ^ f.fractionBits :=
    Nat.lt_mul_of_div_lt (Nat.lt_succ_self _) hpos
  unfold units
  extract_lets step
  have hstep : step + 1 ≤ k := by omega
  have hmantissa : code - step * 2 ^ f.fractionBits < 2 ^ (f.fractionBits + 1) := by
    have hle : (code / 2 ^ f.fractionBits + 1) * 2 ^ f.fractionBits ≤
        (step + 2) * 2 ^ f.fractionBits := Nat.mul_le_mul_right _ (by omega)
    rw [Nat.add_mul step] at hle
    rw [Nat.pow_succ]
    omega
  calc (code - step * 2 ^ f.fractionBits) * 2 ^ step
      < 2 ^ (f.fractionBits + 1) * 2 ^ step :=
        Nat.mul_lt_mul_of_pos_right hmantissa (Nat.two_pow_pos _)
    _ = 2 ^ (f.fractionBits + 1 + step) := (Nat.pow_add ..).symm
    _ ≤ 2 ^ (f.fractionBits + k) := Nat.pow_le_pow_right (by decide) (by omega)

theorem le_units (h : f.leadCode k ≤ code) : 2 ^ (f.fractionBits + k) ≤ f.units code := by
  have hpos : 0 < 2 ^ f.fractionBits := Nat.two_pow_pos _
  have hlead : k + 1 ≤ code / 2 ^ f.fractionBits := (Nat.le_div_iff_mul_le hpos).mpr h
  have hcode : code / 2 ^ f.fractionBits * 2 ^ f.fractionBits ≤ code := Nat.div_mul_le_self _ _
  unfold units
  extract_lets step
  have hstep : code / 2 ^ f.fractionBits = step + 1 := by omega
  have hmantissa : 2 ^ f.fractionBits ≤ code - step * 2 ^ f.fractionBits := by
    rw [hstep, Nat.add_mul] at hcode
    omega
  calc 2 ^ (f.fractionBits + k)
      ≤ 2 ^ (f.fractionBits + step) := Nat.pow_le_pow_right (by decide) (by omega)
    _ = 2 ^ f.fractionBits * 2 ^ step := Nat.pow_add ..
    _ ≤ (code - step * 2 ^ f.fractionBits) * 2 ^ step := Nat.mul_le_mul_right _ hmantissa

theorem units_pos (h : code ≠ 0) : 0 < f.units code := by
  have hpos : 0 < 2 ^ f.fractionBits := Nat.two_pow_pos _
  have hcode : code / 2 ^ f.fractionBits * 2 ^ f.fractionBits ≤ code := Nat.div_mul_le_self _ _
  refine Nat.mul_pos ?_ (Nat.two_pow_pos _)
  have hstep : (code / 2 ^ f.fractionBits - 1) * 2 ^ f.fractionBits =
      code / 2 ^ f.fractionBits * 2 ^ f.fractionBits - 2 ^ f.fractionBits := Nat.sub_one_mul _ _
  omega

/-- How far the step of a value goes. -/
theorem log2_sub_le {value : Nat} (h : value < 2 ^ (f.fractionBits + k)) :
    value.log2 - f.fractionBits ≤ k - 1 := by
  by_cases hz : value = 0
  · rw [hz, Nat.log2_zero]
    omega
  · have hlog := (Nat.log2_lt hz).mpr h
    omega

theorem round_le (hd : 0 < den) (hk : 0 < k)
    (h : num * 2 ^ f.scale < den * 2 ^ (f.fractionBits + k)) : f.round num den ≤ f.leadCode k := by
  unfold round leadCode
  extract_lets scaled step
  have hvalue : scaled / den < 2 ^ (f.fractionBits + k) :=
    (Nat.div_lt_iff_lt_mul hd).mpr (Nat.mul_comm den _ ▸ h)
  have hstep : step ≤ k - 1 := log2_sub_le hvalue
  have hround := roundHalfEven_le scaled (den * 2 ^ step)
  have hmantissa : scaled / (den * 2 ^ step) < 2 ^ (f.fractionBits + 1) := by
    rw [← Nat.div_div_eq_div_mul]
    apply (Nat.div_lt_iff_lt_mul (Nat.two_pow_pos _)).mpr
    rw [← Nat.pow_add]
    refine Nat.lt_of_lt_of_le Nat.lt_log2_self ?_
    exact Nat.pow_le_pow_right (by decide) (by omega)
  rw [Nat.pow_succ] at hmantissa
  calc min (step * 2 ^ f.fractionBits + roundHalfEven scaled (den * 2 ^ step)) f.infinity
      ≤ step * 2 ^ f.fractionBits + roundHalfEven scaled (den * 2 ^ step) := Nat.min_le_left _ _
    _ ≤ (step + 2) * 2 ^ f.fractionBits := by rw [Nat.add_mul]; omega
    _ ≤ (k + 1) * 2 ^ f.fractionBits := Nat.mul_le_mul_right _ (by omega)

theorem le_round (hd : 0 < den) (room : f.leadCode k ≤ f.infinity)
    (h : den * 2 ^ (f.fractionBits + k) ≤ num * 2 ^ f.scale) : f.leadCode k ≤ f.round num den := by
  unfold round
  extract_lets scaled step
  refine Nat.le_min.mpr ⟨?_, room⟩
  have hvalue : 2 ^ (f.fractionBits + k) ≤ scaled / den :=
    (Nat.le_div_iff_mul_le hd).mpr (Nat.mul_comm den _ ▸ h)
  have hz : scaled / den ≠ 0 := Nat.ne_zero_of_lt (Nat.lt_of_lt_of_le (Nat.two_pow_pos _) hvalue)
  have hlog := (Nat.le_log2 hz).mpr hvalue
  have hround := le_roundHalfEven scaled (den * 2 ^ step)
  have hmantissa : 2 ^ f.fractionBits ≤ scaled / (den * 2 ^ step) := by
    rw [← Nat.div_div_eq_div_mul]
    apply (Nat.le_div_iff_mul_le (Nat.two_pow_pos _)).mpr
    rw [← Nat.pow_add]
    refine Nat.le_trans ?_ (Nat.log2_self_le hz)
    exact Nat.pow_le_pow_right (by decide) (by omega)
  calc (k + 1) * 2 ^ f.fractionBits
      ≤ (step + 1) * 2 ^ f.fractionBits := Nat.mul_le_mul_right _ (by omega)
    _ ≤ step * 2 ^ f.fractionBits + roundHalfEven scaled (den * 2 ^ step) := by
      rw [Nat.add_mul]
      omega

end FloatFormat

/-! ### Distance -/

theorem FloatFormat.round_zero (f : FloatFormat) (den : Nat) : f.round 0 den = 0 := by
  have hnothing : ∀ d : Nat, roundHalfEven 0 d = 0 := fun d => by simp [roundHalfEven]
  simp only [round, Nat.zero_mul, Nat.zero_div, Nat.log2_zero, Nat.zero_sub, hnothing,
    Nat.add_zero, Nat.zero_min]

namespace Binary

variable {f : FloatFormat} {x : Binary f}

theorem isNaN_of_isFinite (h : x.isFinite = true) : x.isNaN = false :=
  decide_eq_false (Nat.not_lt.mpr (Nat.le_of_lt (of_decide_eq_true h)))

theorem distance_self (h : x.isFinite = true) : x.distance x = zero := by
  have hround : f.round (x.units - x.units).natAbs (2 ^ f.scale) = 0 := by
    rw [Int.sub_self]
    exact f.round_zero _
  simp only [distance, isNaN_of_isFinite h, h, Bool.or_self, Bool.and_self, if_true, nearest,
    hround]
  rfl

theorem less_zero_eq_false_iff : x.less zero = false ↔ x.isNaN = true ∨ 0 ≤ x.key := by
  have hzero : (zero : Binary f).isNaN = false := decide_eq_false (Nat.not_lt_zero _)
  have hkey : (zero : Binary f).key = 0 := rfl
  rw [less, hzero, hkey]
  cases x.isNaN <;> simp

end Binary

end RenderMesh
