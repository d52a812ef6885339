import RenderMesh.Number.Shortest
import RenderMesh.Number.Style
import RenderMesh.Proofs.Number.Rounding

/-!
# Bounds of shortest decimals

Whatever decimal is written for a code, it is not zero unless the code is, and it is not beyond the
code that comes next. So the power of ten of its first digit is bounded by the value.
-/

namespace RenderMesh

-- Powers of naturals are the core operation, whatever else is in scope.
attribute [local instance (high)] instPowNat

namespace Decimal

/-- A decimal of at most `n`. -/
def AtMost (d : Decimal) (n : Nat) : Prop :=
  d.digits * 10 ^ d.exponent.toNat ≤ n * 10 ^ (-d.exponent).toNat

variable {d : Decimal} {n : Nat}

/-- A trailing zero in the digits or in the exponent is the same. -/
theorem atMost_shift (hz : d.digits % 10 = 0) (h : d.AtMost n) :
    AtMost ⟨d.digits / 10, d.exponent + 1⟩ n := by
  have hdigits : d.digits = d.digits / 10 * 10 :=
    (Nat.div_mul_cancel (Nat.dvd_of_mod_eq_zero hz)).symm
  unfold AtMost at h ⊢
  rw [hdigits] at h
  simp only
  rcases Int.lt_or_le d.exponent 0 with he | he
  · have hup : d.exponent.toNat = 0 := by omega
    have hup' : (d.exponent + 1).toNat = 0 := by omega
    have hdown : (-d.exponent).toNat = (-(d.exponent + 1)).toNat + 1 := by omega
    rw [hup, hdown, Nat.pow_zero, Nat.mul_one, Nat.pow_succ, ← Nat.mul_assoc] at h
    rw [hup', Nat.pow_zero, Nat.mul_one]
    exact Nat.le_of_mul_le_mul_right h (by decide)
  · have hup : (d.exponent + 1).toNat = d.exponent.toNat + 1 := by omega
    have hdown : (-(d.exponent + 1)).toNat = (-d.exponent).toNat := by omega
    rw [hup, hdown, Nat.pow_succ, Nat.mul_comm _ 10, ← Nat.mul_assoc]
    exact h

theorem reduce_bounds (hd : d.digits ≠ 0) (h : d.AtMost n) (zeros : Nat) :
    (d.reduce zeros).digits ≠ 0 ∧ (d.reduce zeros).AtMost n := by
  induction zeros generalizing d with
  | zero => exact ⟨hd, h⟩
  | succ zeros ih =>
    rw [reduce]
    split
    next hz =>
      apply ih
      · simp only
        omega
      · exact atMost_shift hz h
    next => exact ⟨hd, h⟩

theorem pow_size_le (hd : n ≠ 0) : 10 ^ (decimalSize n - 1) ≤ n := by
  refine Nat.le_of_not_lt fun hlt => ?_
  rcases Nat.eq_zero_or_pos (decimalSize n - 1) with hz | hp
  · rw [hz, Nat.pow_zero] at hlt
    omega
  · have hsize := (Nat.length_toDigits_le_iff (by decide) hp).mpr hlt
    unfold decimalSize at hsize hp
    omega

theorem lead_le (hd : d.digits ≠ 0) {k : Nat} (h : d.AtMost (10 ^ k)) :
    (decimalSize d.digits : Int) - 1 + d.exponent ≤ k := by
  have hsize : 0 < decimalSize d.digits := Nat.length_toDigits_pos
  have hpow : 10 ^ (decimalSize d.digits - 1 + d.exponent.toNat) ≤
      10 ^ (k + (-d.exponent).toNat) := by
    rw [Nat.pow_add, Nat.pow_add]
    exact Nat.le_trans (Nat.mul_le_mul_right _ (pow_size_le hd)) h
  have hle := (Nat.pow_le_pow_iff_right (by decide)).mp hpow
  omega

end Decimal

namespace FloatFormat

variable {f : FloatFormat} {tie : Tie} {code k n : Nat} {exponent : Int}

theorem holds_iff_between {low high place : Nat} : holds code low high place = true ↔
    low ≤ place ∧ place ≤ high ∧ (code % 2 = 0 ∨ low < place ∧ place < high) := by
  unfold holds
  split
  all_goals
    simp only [Bool.and_eq_true, decide_eq_true_eq]
    omega

/-- The neighbour below the value of a code on the grid of a power of ten. -/
def below (f : FloatFormat) (code : Nat) (exponent : Int) : Nat :=
  2 * f.units code * 10 ^ (-exponent).toNat / (2 * 2 ^ f.scale * 10 ^ exponent.toNat)

/-- Whichever neighbour of the value is taken, it was found to read back to the code. -/
theorem pointOnGrid_cases (h : f.pointOnGrid tie code exponent = some k) :
    (k = f.below code exponent ∨ k = f.below code exponent + 1) ∧
    holds code ((f.units (code - 1) + f.units code) * 10 ^ (-exponent).toNat)
      ((f.units code + f.units (code + 1)) * 10 ^ (-exponent).toNat)
      (k * (2 * 2 ^ f.scale * 10 ^ exponent.toNat)) = true := by
  unfold pointOnGrid at h
  extract_lets grow span low value high place at h
  suffices hk : (k = place ∨ k = place + 1) ∧ holds code low high (k * span) = true from hk
  split at h
  next => exact absurd h.symm (Option.some_ne_none k)
  next hbelow _ =>
    rw [← Option.some.inj h]
    exact ⟨Or.inl rfl, hbelow⟩
  next _ habove =>
    rw [← Option.some.inj h]
    exact ⟨Or.inr rfl, habove⟩
  next hbelow habove =>
    split at h
    · rw [← Option.some.inj h]
      exact ⟨Or.inl rfl, hbelow⟩
    split at h
    · rw [← Option.some.inj h]
      exact ⟨Or.inr rfl, habove⟩
    cases tie with
    | even =>
      rcases Nat.mod_two_eq_zero_or_one place with he | he
      · rw [← Option.some.inj h, he]
        exact ⟨Or.inl rfl, hbelow⟩
      · rw [← Option.some.inj h, he]
        exact ⟨Or.inr rfl, habove⟩
    | up =>
      rw [← Option.some.inj h]
      exact ⟨Or.inr rfl, habove⟩

/-- Where nothing is found, neither neighbour reads back to the code. -/
theorem pointOnGrid_none (h : f.pointOnGrid tie code exponent = none) :
    ∀ k, k = f.below code exponent ∨ k = f.below code exponent + 1 →
      holds code ((f.units (code - 1) + f.units code) * 10 ^ (-exponent).toNat)
        ((f.units code + f.units (code + 1)) * 10 ^ (-exponent).toNat)
        (k * (2 * 2 ^ f.scale * 10 ^ exponent.toNat)) = false := by
  unfold pointOnGrid at h
  extract_lets grow span low value high place at h
  split at h
  next hbelow habove =>
    rintro k (rfl | rfl)
    · exact hbelow
    · exact habove
  next => cases h
  next => cases h
  next =>
    split at h
    · cases h
    split at h
    · cases h
    cases tie <;> cases h

theorem of_pointOnGrid (h : f.pointOnGrid tie code exponent = some k) :
    (f.units (code - 1) + f.units code) * 10 ^ (-exponent).toNat ≤
        k * (2 * 2 ^ f.scale * 10 ^ exponent.toNat) ∧
    k * (2 * 2 ^ f.scale * 10 ^ exponent.toNat) ≤
      (f.units code + f.units (code + 1)) * 10 ^ (-exponent).toNat :=
  (holds_iff_between.mp (pointOnGrid_cases h).2).imp_right And.left

/-- A positive code has a decimal that is not zero and not beyond the next code. -/
theorem shortest_bounds (hpos : 0 < f.units code) (hcode : f.units code ≤ n * 2 ^ f.scale)
    (hnext : f.units (code + 1) ≤ n * 2 ^ f.scale) (hz : code ≠ 0) :
    (f.shortest tie code).digits ≠ 0 ∧ (f.shortest tie code).AtMost n := by
  rw [shortest, if_neg hz]
  extract_lets first found
  cases hf : found with
  | none =>
    refine ⟨?_, ?_⟩
    · exact Nat.mul_ne_zero (Nat.ne_zero_of_lt hpos) (Nat.ne_zero_of_lt (Nat.pow_pos (by decide)))
    · have hscale : (-(f.scale : Int)).toNat = 0 := by omega
      have hten : (10 : Nat) ^ f.scale = 2 ^ f.scale * 5 ^ f.scale := Nat.mul_pow 2 5 _
      simp only [Option.map_none, Option.getD_none, exact, Decimal.AtMost, hscale, Int.neg_neg,
        Int.toNat_natCast, Nat.pow_zero, Nat.mul_one]
      rw [hten, ← Nat.mul_assoc]
      exact Nat.mul_le_mul_right _ hcode
  | some d =>
    obtain ⟨places, _, hd⟩ := List.exists_of_findSome?_eq_some hf
    obtain ⟨k, hk, rfl⟩ := Option.map_eq_some_iff.mp hd
    obtain ⟨hlow, hhigh⟩ := of_pointOnGrid hk
    apply Decimal.reduce_bounds
    · intro hk0
      have hsum : 0 < f.units (code - 1) + f.units code := Nat.add_pos_right _ hpos
      rw [show k = 0 from hk0, Nat.zero_mul] at hlow
      exact Nat.not_le.mpr (Nat.mul_pos hsum (Nat.pow_pos (by decide))) hlow
    · have hvalue : k * 10 ^ (first - places).toNat * (2 * 2 ^ f.scale) ≤
          n * 10 ^ (-(first - places)).toNat * (2 * 2 ^ f.scale) := by
        calc k * 10 ^ (first - places).toNat * (2 * 2 ^ f.scale)
            = k * (2 * 2 ^ f.scale * 10 ^ (first - places).toNat) := by
              ac_rfl
          _ ≤ (f.units code + f.units (code + 1)) * 10 ^ (-(first - places)).toNat := hhigh
          _ ≤ 2 * (n * 2 ^ f.scale) * 10 ^ (-(first - places)).toNat :=
              Nat.mul_le_mul_right _ (by omega)
          _ = n * 10 ^ (-(first - places)).toNat * (2 * 2 ^ f.scale) := by
              ac_rfl
      exact Nat.le_of_mul_le_mul_right hvalue (Nat.mul_pos (by decide) (Nat.two_pow_pos _))

end FloatFormat

end RenderMesh
