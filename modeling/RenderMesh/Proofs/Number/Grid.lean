import RenderMesh.Proofs.Number.Shortest
import RenderMesh.Proofs.Number.Value

/-!
# How far shortest decimals are

The decimal that is written for a code belongs to it, and it is a neighbour of the value on a grid
that is fine enough to have one within the half-way points. The power of ten of the first digit says
how fine a grid is in comparison with the value.
-/

namespace RenderMesh

-- Powers of naturals are the core operation, whatever else is in scope.
attribute [local instance (high)] instPowNat

theorem zpow_eq_div (b : ℚ) (e : Int) : b ^ e = b ^ e.toNat / b ^ (-e).toNat := by
  rcases Int.lt_or_le e 0 with he | he
  · have hneg : e = -((-e).toNat : Int) := by omega
    have hzero : e.toNat = 0 := by omega
    conv_lhs => rw [hneg, zpow_neg, zpow_natCast]
    rw [hzero, pow_zero, one_div]
  · have hzero : (-e).toNat = 0 := by omega
    conv_lhs => rw [← Int.toNat_of_nonneg he, zpow_natCast]
    rw [hzero, pow_zero, div_one]

namespace Decimal

variable {d : Decimal} {n : Nat}

/-- The number that a decimal stands for. -/
def value (d : Decimal) : ℚ := d.digits * 10 ^ d.exponent

theorem value_reduce (d : Decimal) (zeros : Nat) : (d.reduce zeros).value = d.value := by
  induction zeros generalizing d with
  | zero => rfl
  | succ zeros ih =>
    rw [reduce]
    split
    next hz =>
      have hdigits : d.digits = d.digits / 10 * 10 :=
        (Nat.div_mul_cancel (Nat.dvd_of_mod_eq_zero hz)).symm
      rw [ih, value, value]
      conv_rhs => rw [hdigits]
      push_cast
      rw [zpow_add_one₀ (by norm_num)]
      ring
    next => rfl

/-- Zeros only move from the digits into the exponent. -/
theorem reduce_le (d : Decimal) (zeros : Nat) :
    (d.reduce zeros).digits ≤ d.digits ∧ d.exponent ≤ (d.reduce zeros).exponent := by
  induction zeros generalizing d with
  | zero => exact ⟨Nat.le_refl _, Int.le_refl _⟩
  | succ zeros ih =>
    rw [reduce]
    split
    · obtain ⟨hdigits, hexponent⟩ := ih (d := ⟨d.digits / 10, d.exponent + 1⟩)
      exact ⟨Nat.le_trans hdigits (Nat.div_le_self _ _), by simp only at hexponent; omega⟩
    · exact ⟨Nat.le_refl _, Int.le_refl _⟩

theorem lt_pow_size (n : Nat) : n < 10 ^ decimalSize n :=
  (Nat.length_toDigits_le_iff (by decide) Nat.length_toDigits_pos).mp (Nat.le_refl _)

end Decimal

namespace FloatFormat

variable {f : FloatFormat} {tie : Tie} {code k num den : Nat} {e : Int}

/-! ### The power of ten of the first digit -/

theorem leadingExponent_spec (hn : 0 < num) (hd : 0 < den) :
    (10 : ℚ) ^ leadingExponent num den ≤ num / den ∧
      (num / den : ℚ) < 10 ^ (leadingExponent num den + 1) := by
  have hn' : (0 : ℚ) < num := Nat.cast_pos.mpr hn
  have hd' : (0 : ℚ) < den := Nat.cast_pos.mpr hd
  unfold leadingExponent
  split
  next hle =>
    have hquotient : num / den ≠ 0 := Nat.ne_of_gt (Nat.div_pos hle hd)
    have hlow := Decimal.pow_size_le hquotient
    have hhigh := Decimal.lt_pow_size (num / den)
    have hsize : 0 < decimalSize (num / den) := Nat.length_toDigits_pos
    generalize decimalSize (num / den) = size at hlow hhigh hsize
    rw [Nat.le_div_iff_mul_le hd, ← @Nat.cast_le ℚ] at hlow
    rw [Nat.div_lt_iff_lt_mul hd, ← @Nat.cast_lt ℚ] at hhigh
    push_cast at hlow hhigh
    have hpred : ((size : Int) - 1) = ((size - 1 : Nat) : Int) := by omega
    rw [sub_add_cancel, hpred, zpow_natCast, zpow_natCast]
    exact ⟨(le_div_iff₀ hd').mpr hlow, (div_lt_iff₀ hd').mpr hhigh⟩
  next hlt =>
    have hquotient : (den - 1) / num ≠ 0 := Nat.ne_of_gt (Nat.div_pos (by omega) hn)
    have hlow := Decimal.pow_size_le hquotient
    have hhigh := Decimal.lt_pow_size ((den - 1) / num)
    have hsize : 0 < decimalSize ((den - 1) / num) := Nat.length_toDigits_pos
    generalize decimalSize ((den - 1) / num) = size at hlow hhigh hsize
    rw [Nat.le_div_iff_mul_le hn] at hlow
    rw [Nat.div_lt_iff_lt_mul hn] at hhigh
    have hlow' : 10 ^ (size - 1) * num < den := by omega
    have hhigh' : den ≤ 10 ^ size * num := by omega
    rw [← @Nat.cast_lt ℚ] at hlow'
    rw [← @Nat.cast_le ℚ] at hhigh'
    push_cast at hlow' hhigh'
    have hsucc : -(size : Int) + 1 = -((size - 1 : Nat) : Int) := by omega
    rw [hsucc, zpow_neg, zpow_neg, zpow_natCast, zpow_natCast]
    constructor
    · rw [le_div_iff₀ hd', inv_mul_le_iff₀ (by positivity)]
      exact hhigh'
    · rw [div_lt_iff₀ hd', lt_inv_mul_iff₀ (by positivity)]
      exact hlow'

/-- The power of ten of the first digit of a code. -/
def lead (f : FloatFormat) (code : Nat) : Int := leadingExponent (f.units code) (2 ^ f.scale)

theorem pow_lead_le (hc : code ≠ 0) : (10 : ℚ) ^ f.lead code ≤ f.value code := by
  have hspec := (leadingExponent_spec (units_pos (f := f) hc) (Nat.two_pow_pos f.scale)).1
  push_cast at hspec
  exact hspec

theorem lt_pow_lead (hc : code ≠ 0) : f.value code < 10 ^ (f.lead code + 1) := by
  have hspec := (leadingExponent_spec (units_pos (f := f) hc) (Nat.two_pow_pos f.scale)).2
  push_cast at hspec
  exact hspec

theorem le_lead {a : Int} (hc : code ≠ 0) (h : 10 ^ a ≤ f.value code) : a ≤ f.lead code := by
  have hpow := (zpow_lt_zpow_iff_right₀ (by norm_num)).mp (lt_of_le_of_lt h (lt_pow_lead hc))
  omega

theorem lead_lt {a : Int} (hc : code ≠ 0) (h : f.value code < 10 ^ a) : f.lead code < a :=
  (zpow_lt_zpow_iff_right₀ (by norm_num)).mp (lt_of_le_of_lt (pow_lead_le hc) h)

/-! ### Neighbours on a grid -/

theorem mul_span_eq (k : Nat) (e : Int) :
    ((k * (2 * 2 ^ f.scale * 10 ^ e.toNat) : Nat) : ℚ) =
      k * 10 ^ e * (2 * 2 ^ f.scale * 10 ^ (-e).toNat) := by
  rw [zpow_eq_div]
  push_cast
  field_simp

theorem mul_grow_eq (x : Nat) (e : Int) :
    ((x * 10 ^ (-e).toNat : Nat) : ℚ) =
      x / (2 * 2 ^ f.scale) * (2 * 2 ^ f.scale * 10 ^ (-e).toNat) := by
  push_cast
  field_simp

/-- Both sides are a multiple of what stands on the grid. -/
theorem grow_le_span_iff (x k : Nat) (e : Int) :
    x * 10 ^ (-e).toNat ≤ k * (2 * 2 ^ f.scale * 10 ^ e.toNat) ↔
      (x / (2 * 2 ^ f.scale) : ℚ) ≤ k * 10 ^ e := by
  rw [← @Nat.cast_le ℚ, mul_span_eq, mul_grow_eq (f := f)]
  exact mul_le_mul_iff_left₀ (by positivity)

theorem span_le_grow_iff (x k : Nat) (e : Int) :
    k * (2 * 2 ^ f.scale * 10 ^ e.toNat) ≤ x * 10 ^ (-e).toNat ↔
      (k * 10 ^ e : ℚ) ≤ x / (2 * 2 ^ f.scale) := by
  rw [← @Nat.cast_le ℚ, mul_span_eq, mul_grow_eq (f := f)]
  exact mul_le_mul_iff_left₀ (by positivity)

/-- What is found to read back to a code belongs to it. -/
theorem holds_iff_within (hc : code ≠ 0) :
    holds code ((f.units (code - 1) + f.units code) * 10 ^ (-e).toNat)
      ((f.units code + f.units (code + 1)) * 10 ^ (-e).toNat)
      (k * (2 * 2 ^ f.scale * 10 ^ e.toNat)) = true ↔ f.Within code (k * 10 ^ e) := by
  have hsucc : code - 1 + 1 = code := Nat.succ_pred_eq_of_ne_zero hc
  have hlow := grow_le_span_iff (f := f) (f.units (code - 1) + f.units code) k e
  have hhigh := span_le_grow_iff (f := f) (f.units code + f.units (code + 1)) k e
  have hlow' := (span_le_grow_iff (f := f) (f.units (code - 1) + f.units code) k e).not
  have hhigh' := (grow_le_span_iff (f := f) (f.units code + f.units (code + 1)) k e).not
  rw [Nat.not_le, not_le] at hlow' hhigh'
  rw [Within, halfway_eq, halfway_eq, hsucc, ← hlow, ← hhigh, ← hlow', ← hhigh',
    holds_iff_between]

/-- The value of a code lies between two neighbours on every grid. -/
theorem below_spec (code : Nat) (e : Int) :
    f.below code e * (10 : ℚ) ^ e ≤ f.value code ∧
      f.value code < (f.below code e + 1) * (10 : ℚ) ^ e := by
  have hpos : 0 < 2 * 2 ^ f.scale * 10 ^ e.toNat :=
    Nat.mul_pos (Nat.mul_pos (by decide) (Nat.two_pow_pos _)) (Nat.pow_pos (by decide))
  have hvalue : f.value code = ((2 * f.units code : Nat) : ℚ) / (2 * 2 ^ f.scale) := by
    unfold value
    push_cast
    field_simp
  have hlow := (span_le_grow_iff (f := f) (2 * f.units code) _ e).mp (Nat.div_mul_le_self _ _)
  have hnext : 2 * f.units code * 10 ^ (-e).toNat <
      (f.below code e + 1) * (2 * 2 ^ f.scale * 10 ^ e.toNat) :=
    Nat.lt_mul_of_div_lt (Nat.lt_succ_self _) hpos
  have hhigh := (span_le_grow_iff (f := f) _ _ e).not.mp (Nat.not_le.mpr hnext)
  rw [not_le] at hhigh
  push_cast at hlow hhigh hvalue
  rw [hvalue]
  exact ⟨hlow, hhigh⟩

/-- A neighbour on a grid is no further from the value than the grid is wide. -/
theorem neighbour_spec (hk : k = f.below code e ∨ k = f.below code e + 1) :
    f.value code - 10 ^ e ≤ k * 10 ^ e ∧ (k * 10 ^ e : ℚ) ≤ f.value code + 10 ^ e := by
  obtain ⟨hlow, hhigh⟩ := below_spec (f := f) code e
  rcases hk with rfl | rfl
  · constructor
    · linarith
    · linarith [zpow_pos (show (0 : ℚ) < 10 by norm_num) e]
  · push_cast
    constructor
    · linarith [zpow_pos (show (0 : ℚ) < 10 by norm_num) e]
    · linarith

/-- A grid that is finer than the way between the half-way points has a neighbour within them. -/
theorem pointOnGrid_of_fine (tie : Tie) (hc : code ≠ 0)
    (h : 10 ^ e * 2 ^ (f.fractionBits + 1) < f.value code) :
    ∃ k, f.pointOnGrid tie code e = some k := by
  cases hpoint : f.pointOnGrid tie code e with
  | some k => exact ⟨k, rfl⟩
  | none =>
    have hpos := value_pos (f := f) hc
    have hshare : 0 < f.value code * (1 / 2 ^ (f.fractionBits + 2)) := by positivity
    have hlow := halfway_pred_le (f := f) hc
    have hhigh := le_halfway (f := f) code
    obtain ⟨hbelow, habove⟩ := below_spec (f := f) code e
    have hout : ∀ k, k = f.below code e ∨ k = f.below code e + 1 →
        ¬ f.Within code (k * 10 ^ e) := by
      intro k hk
      rw [← holds_iff_within hc, pointOnGrid_none hpoint k hk]
      exact Bool.false_ne_true
    have hleft : (f.below code e : ℚ) * 10 ^ e ≤ f.halfway (code - 1) := by
      refine le_of_not_gt fun hlt => hout _ (Or.inl rfl) ?_
      have hup : (f.below code e : ℚ) * 10 ^ e < f.halfway code := by linarith
      exact ⟨hlt.le, hup.le, Or.inr ⟨hlt, hup⟩⟩
    have hright : f.halfway code ≤ ((f.below code e + 1 : Nat) : ℚ) * 10 ^ e := by
      refine le_of_not_gt fun hlt => hout _ (Or.inr rfl) ?_
      have hdown : f.halfway (code - 1) < ((f.below code e + 1 : Nat) : ℚ) * 10 ^ e := by
        push_cast
        linarith
      exact ⟨hdown.le, hlt.le, Or.inr ⟨hdown, hlt⟩⟩
    have hwidth : f.value code ≤ 10 ^ e * 2 ^ (f.fractionBits + 1) := by
      have htwice : f.value code * (1 / 2 ^ (f.fractionBits + 1)) ≤ 10 ^ e := by
        have hdouble : f.value code * (1 / 2 ^ (f.fractionBits + 1)) =
            2 * (f.value code * (1 / 2 ^ (f.fractionBits + 2))) := by
          rw [pow_succ _ (f.fractionBits + 1)]
          field_simp
        push_cast at hright
        linarith
      rwa [mul_one_div, div_le_iff₀ (by positivity)] at htwice
    exact absurd h (not_lt.mpr hwidth)

/-! ### The shortest decimal -/

/-- The first hit of a search through the naturals is not after any hit. -/
theorem findSome?_range {α : Type} {g : Nat → Option α} {limit places : Nat}
    (hplaces : places < limit) (h : (g places).isSome = true) :
    ∃ n ≤ places, ∃ a, (List.range limit).findSome? g = some a ∧ g n = some a := by
  cases hfound : (List.range limit).findSome? g with
  | none =>
    have hnone := List.findSome?_eq_none_iff.mp hfound places (List.mem_range.mpr hplaces)
    rw [hnone] at h
    cases h
  | some a =>
    obtain ⟨before, n, after, hrange, hn, hbefore⟩ := List.findSome?_eq_some_iff.mp hfound
    refine ⟨n, Nat.le_of_not_lt fun hlt => ?_, a, rfl, hn⟩
    have hsorted : (before ++ n :: after).Pairwise (· < ·) := hrange ▸ List.pairwise_lt_range
    have hmem : places ∈ before ++ n :: after := hrange ▸ List.mem_range.mpr hplaces
    rcases List.mem_append.mp hmem with hmem | hmem
    · rw [hbefore places hmem] at h
      cases h
    · rcases List.mem_cons.mp hmem with rfl | hmem
      · exact Nat.lt_irrefl _ hlt
      · have hafter := (List.pairwise_cons.mp (List.pairwise_append.mp hsorted).2.1).1 _ hmem
        omega

/-- The decimal that is written for a code: a neighbour of the value, on a grid that is no finer
than the bits of the fraction need. -/
theorem shortest_spec {places : Nat} (hc : code ≠ 0) (hplaces : places < 17)
    (hfine : 2 ^ (f.fractionBits + 1) < 10 ^ places) (tie : Tie) :
    ∃ n ≤ places, ∃ k, f.shortest tie code = Decimal.reduce 17 ⟨k, f.lead code - n⟩ ∧
      f.Within code (k * 10 ^ (f.lead code - n)) ∧
      (k = f.below code (f.lead code - n) ∨ k = f.below code (f.lead code - n) + 1) := by
  have hten : (10 : ℚ) ^ (f.lead code - places) * 2 ^ (f.fractionBits + 1) < f.value code := by
    have hfine' : (2 ^ (f.fractionBits + 1) : ℚ) < 10 ^ places := by exact_mod_cast hfine
    calc (10 : ℚ) ^ (f.lead code - places) * 2 ^ (f.fractionBits + 1)
        < 10 ^ (f.lead code - places) * 10 ^ places :=
          mul_lt_mul_of_pos_left hfine' (by positivity)
      _ = 10 ^ f.lead code := by
          rw [← zpow_natCast, ← zpow_add₀ (by norm_num), sub_add_cancel]
      _ ≤ f.value code := pow_lead_le hc
  obtain ⟨k, hk⟩ := pointOnGrid_of_fine tie hc hten
  obtain ⟨n, hn, d, hfound, hd⟩ := findSome?_range
    (g := fun n : Nat => (f.pointOnGrid tie code (f.lead code - n)).map
      fun k => Decimal.mk k (f.lead code - n)) hplaces (by simp [hk])
  obtain ⟨j, hj, rfl⟩ := Option.map_eq_some_iff.mp hd
  refine ⟨n, hn, j, ?_, ?_, ?_⟩
  · rw [shortest, if_neg hc]
    exact congrArg (fun found => (found.map (Decimal.reduce 17)).getD (f.exact code)) hfound
  · exact (holds_iff_within hc).mp (pointOnGrid_cases hj).2
  · exact (pointOnGrid_cases hj).1

theorem neighbour_bounds (hc : code ≠ 0) {n : Nat}
    (hk : k = f.below code (f.lead code - n) ∨ k = f.below code (f.lead code - n) + 1) :
    10 ^ n ≤ k ∧ k ≤ 10 ^ (n + 1) := by
  obtain ⟨hlow, hhigh⟩ := below_spec (f := f) code (f.lead code - n)
  have hgrid : (0 : ℚ) < 10 ^ (f.lead code - n) := by positivity
  have hfirst : (10 ^ n : ℚ) * 10 ^ (f.lead code - n) ≤ f.value code := by
    rw [← zpow_natCast, ← zpow_add₀ (by norm_num), add_sub_cancel]
    exact pow_lead_le hc
  have hend : f.value code < (10 ^ (n + 1) : ℚ) * 10 ^ (f.lead code - n) := by
    have hexponent : ((n + 1 : Nat) : Int) + (f.lead code - n) = f.lead code + 1 := by omega
    rw [← zpow_natCast, ← zpow_add₀ (by norm_num), hexponent]
    exact lt_pow_lead hc
  have hleft := lt_of_mul_lt_mul_right (lt_of_le_of_lt hfirst hhigh) hgrid.le
  have hright := lt_of_mul_lt_mul_right (lt_of_le_of_lt hlow hend) hgrid.le
  have hleft' : 10 ^ n < f.below code (f.lead code - n) + 1 := by exact_mod_cast hleft
  have hright' : f.below code (f.lead code - n) < 10 ^ (n + 1) := by exact_mod_cast hright
  omega

section

variable {places : Nat} (hc : code ≠ 0) (hplaces : places < 17)
  (hfine : 2 ^ (f.fractionBits + 1) < 10 ^ places) (tie : Tie)

include hc hplaces hfine

/-- The decimal that is written for a code belongs to it. -/
theorem within_shortest : f.Within code (f.shortest tie code).value := by
  obtain ⟨n, _, k, hd, hwithin, _⟩ := shortest_spec hc hplaces hfine tie
  rw [hd, Decimal.value_reduce]
  exact hwithin

theorem shortest_neighbour : ∃ n ≤ places, ∃ k : Nat,
    (f.shortest tie code).value = k * 10 ^ (f.lead code - n) ∧
      (k = f.below code (f.lead code - n) ∨ k = f.below code (f.lead code - n) + 1) := by
  obtain ⟨n, hn, k, hd, _, hk⟩ := shortest_spec hc hplaces hfine tie
  refine ⟨n, hn, k, ?_, hk⟩
  rw [hd, Decimal.value_reduce]
  rfl

/-- How many digits are written for a code, and down to which place. -/
theorem shortest_size : (f.shortest tie code).digits ≤ 10 ^ (places + 1) ∧
    f.lead code - places ≤ (f.shortest tie code).exponent := by
  obtain ⟨n, hn, k, hd, _, hk⟩ := shortest_spec hc hplaces hfine tie
  obtain ⟨hdigits, hexponent⟩ := Decimal.reduce_le ⟨k, f.lead code - n⟩ 17
  rw [← hd] at hdigits hexponent
  simp only at hdigits hexponent
  refine ⟨?_, by omega⟩
  calc (f.shortest tie code).digits ≤ k := hdigits
    _ ≤ 10 ^ (n + 1) := (neighbour_bounds hc hk).2
    _ ≤ 10 ^ (places + 1) := Nat.pow_le_pow_right (by decide) (by omega)

end

end FloatFormat

end RenderMesh
