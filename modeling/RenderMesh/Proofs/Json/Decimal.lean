import RenderMesh.Proofs.Json.Number
import RenderMesh.Proofs.Number.Grid

/-!
# Decimals of written literals

The literal that is written for a decimal has the digits and the power of ten of the decimal, and
only the zeros of a whole number and of its point come to the digits. So it is read as the decimal
is scaled.
-/

namespace RenderMesh.Json

-- Powers of naturals are the core operation, whatever else is in scope.
attribute [local instance (high)] instPowNat

variable {least greatest : Int} {d : Decimal}

/-- The decimal of the literal that is written for a decimal. -/
def writtenDecimal (least greatest : Int) (d : Decimal) : Decimal :=
  if least ≤ leadOf d ∧ leadOf d ≤ greatest ∧ 0 ≤ d.exponent then
    ⟨d.digits * 10 ^ (d.exponent.toNat + 1), -1⟩
  else d

theorem value_writtenDecimal (least greatest : Int) (d : Decimal) :
    (writtenDecimal least greatest d).value = d.value := by
  unfold writtenDecimal
  split
  next h =>
    obtain ⟨n, hn⟩ := Int.eq_ofNat_of_zero_le h.2.2
    rw [Decimal.value, Decimal.value, hn, Int.toNat_natCast]
    push_cast
    rw [pow_succ, zpow_natCast, zpow_neg_one]
    field_simp
  next => rfl

/-- A whole number has no more digits than its power of ten lets it, and its point brings one. -/
theorem digits_writtenDecimal (least : Int) {n : Nat} (hd : d.digits ≤ 10 ^ n)
    (hgreatest : greatest + 2 ≤ n) :
    (writtenDecimal least greatest d).digits ≤ 10 ^ n := by
  unfold writtenDecimal
  split
  next h =>
    have hsize := Decimal.lt_pow_size d.digits
    have hlead : (decimalSize d.digits : Int) - 1 + d.exponent ≤ greatest := h.2.1
    have hlength : 0 < decimalSize d.digits := Nat.length_toDigits_pos
    calc d.digits * 10 ^ (d.exponent.toNat + 1)
        ≤ 10 ^ decimalSize d.digits * 10 ^ (d.exponent.toNat + 1) :=
          Nat.mul_le_mul_right _ (Nat.le_of_lt hsize)
      _ = 10 ^ (decimalSize d.digits + (d.exponent.toNat + 1)) := (Nat.pow_add ..).symm
      _ ≤ 10 ^ n := Nat.pow_le_pow_right (by decide) (by omega)
  next => exact hd

/-- What is written stays in the range of scaling. -/
theorem writtenDecimal_bounds (least : Int) {n : Nat} (hdigits : d.digits ≤ 10 ^ n)
    (hgreatest : greatest + 2 ≤ n) (hpos : 0 < d.value) (hvalue : d.value ≤ 10 ^ (48 : Int))
    (hexponent : -64 ≤ d.exponent) :
    0 < (writtenDecimal least greatest d).digits ∧
      (writtenDecimal least greatest d).digits ≤ 10 ^ n ∧
      -64 ≤ (writtenDecimal least greatest d).exponent ∧
      (writtenDecimal least greatest d).exponent ≤ 48 := by
  have hwritten := value_writtenDecimal least greatest d
  have hsmall := digits_writtenDecimal least hdigits hgreatest
  have hlow : -64 ≤ (writtenDecimal least greatest d).exponent := by
    unfold writtenDecimal
    split
    · exact (by decide : (-64 : Int) ≤ -1)
    · exact hexponent
  rw [← hwritten] at hpos hvalue
  generalize writtenDecimal least greatest d = w at hpos hvalue hsmall hlow ⊢
  have hne : 0 < w.digits := by
    refine Nat.pos_of_ne_zero fun hz => ?_
    rw [Decimal.value, hz, Nat.cast_zero, zero_mul] at hpos
    exact lt_irrefl _ hpos
  have hone : (10 : ℚ) ^ w.exponent ≤ w.value :=
    le_mul_of_one_le_left (by positivity) (Nat.one_le_cast.mpr hne)
  exact ⟨hne, hsmall, hlow, (zpow_le_zpow_iff_right₀ (by norm_num)).mp (le_trans hone hvalue)⟩

namespace Literal

/-- Digits that 64 bits hold are read one after the other, whether a point is among them or not. -/
theorem decimal_of_lt {l : Literal}
    (h : Nat.ofDigitChars 10 (l.whole ++ l.fraction) 0 < UInt64.size) :
    l.decimal = ⟨Nat.ofDigitChars 10 (l.whole ++ l.fraction) 0,
      l.exponent.getD 0 - l.fraction.length⟩ := by
  rw [Nat.ofDigitChars_append] at h ⊢
  have hwhole : Nat.ofDigitChars 10 l.whole 0 < UInt64.size :=
    Nat.lt_of_le_of_lt (le_ofDigitChars _ _) h
  simp [decimal, wordDigits_of_lt hwhole, wordDigits_of_lt h]

end Literal

theorem digits_writtenLiteral (least greatest : Int) (negative : Bool) (d : Decimal) :
    let l := writtenLiteral least greatest negative d
    Nat.ofDigitChars 10 (l.whole ++ l.fraction) 0 = (writtenDecimal least greatest d).digits ∧
      l.exponent.getD 0 - l.fraction.length = (writtenDecimal least greatest d).exponent := by
  have hdigits : Nat.ofDigitChars 10 (naturalText d.digits) 0 = d.digits :=
    Nat.ofDigitChars_ten_toDigits
  have hlength : 0 < (naturalText d.digits).length := Nat.length_toDigits_pos
  have hlead : leadOf d = (naturalText d.digits).length - 1 + d.exponent := rfl
  rcases writtenLiteral_cases least greatest negative d with
    ⟨he, hleast, hmost, hl⟩ | ⟨zeros, he, hzeros, hl⟩ | ⟨whole, hw, _, he, hlong, hl⟩ | ⟨hout, hl⟩
  all_goals simp only [hl, writtenDecimal]
  · rw [if_pos ⟨hleast, hmost, he⟩, List.append_assoc, Nat.ofDigitChars_append, hdigits,
      Nat.ofDigitChars_append, Nat.ofDigitChars_replicate_zero, Nat.ofDigitChars_cons,
      Nat.ofDigitChars_nil, Nat.pow_succ]
    refine ⟨?_, rfl⟩
    simp
    ac_rfl
  · rw [if_neg (by omega), List.singleton_append, Nat.ofDigitChars_cons, Nat.ofDigitChars_append,
      Nat.ofDigitChars_replicate_zero]
    refine ⟨by simp [hdigits], ?_⟩
    simp only [List.length_append, List.length_replicate, Option.getD_none]
    omega
  · rw [if_neg (by omega), List.take_append_drop]
    refine ⟨hdigits, ?_⟩
    simp only [List.length_drop, Option.getD_none]
    omega
  · rw [if_neg (fun h => hout ⟨h.1, h.2.1⟩), List.take_append_drop]
    refine ⟨hdigits, ?_⟩
    simp only [List.length_drop, Option.getD_some]
    omega

/-- A written literal is read as its decimal is scaled. -/
theorem number_writtenLiteral (negative : Bool)
    (hdigits : (writtenDecimal least greatest d).digits < UInt64.size)
    (hexponent : (writtenDecimal least greatest d).exponent ≤ 48) :
    (writtenLiteral least greatest negative d).number =
      .ok (.double { Double.scaled (writtenDecimal least greatest d).digits
        (writtenDecimal least greatest d).exponent with negative := negative }) := by
  obtain ⟨hvalue, hpower⟩ := digits_writtenLiteral least greatest negative d
  have hdecimal := Literal.decimal_of_lt (hvalue ▸ hdigits)
  rw [hvalue, hpower] at hdecimal
  have hfinite := Double.isFinite_scaled hdigits hexponent
  have hnegative : (writtenLiteral least greatest negative d).negative = negative := by
    simp only [writtenLiteral]
    split
    · split
      · rfl
      · split <;> rfl
    · rfl
  simp [Literal.number, isInteger_writtenLiteral, Literal.double, hdecimal, hfinite, hnegative,
    Except.map]

/-- The text of a finite number is a literal that is read as its decimal is scaled. -/
theorem write_literal (least greatest : Int) {f : FloatFormat} {x : Binary f}
    (hx : x.isFinite = true) {tie : Tie} (hd : f.shortest tie x.magnitude = d)
    (hvalid : d.digits ≠ 0 ∨ d.exponent = 0)
    (hdigits : (writtenDecimal least greatest d).digits < UInt64.size)
    (hexponent : (writtenDecimal least greatest d).exponent ≤ 48) :
    ∃ l : Literal, l.Valid ∧ x.write ⟨tie, some (least, greatest), true⟩ = l.text ∧
      l.number = .ok (.double { Double.scaled (writtenDecimal least greatest d).digits
        (writtenDecimal least greatest d).exponent with negative := x.negative }) := by
  refine ⟨_, valid_writtenLiteral x.negative hvalid, ?_,
    number_writtenLiteral x.negative hdigits hexponent⟩
  rw [text_writtenLiteral tie, Binary.write, Binary.isNaN_of_isFinite hx, hx, ← hd,
    if_neg Bool.false_ne_true, if_pos rfl]

end RenderMesh.Json
