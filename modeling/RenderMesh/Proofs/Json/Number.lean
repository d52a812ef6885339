import RenderMesh.Proofs.Json.Literal

/-!
# Reading written numbers

Naturals of 64 bits are read as they are. A widened number is read as a number of eight bytes, close
to it; that it is read at all is a matter of its bounds, since no step of scaling overflows.
-/

namespace RenderMesh.Json

/-! ### Digits of 64 bits -/

theorem le_ofDigitChars (cs : List Char) (n : Nat) : n ≤ Nat.ofDigitChars 10 cs n := by
  rw [Nat.ofDigitChars_eq_ofDigitChars_zero]
  exact Nat.le_trans (Nat.le_mul_of_pos_left _ (Nat.pow_pos (by decide))) (Nat.le_add_right _ _)

namespace Literal

theorem wordDigits_of_lt {cs : List Char} {n : Nat} (h : Nat.ofDigitChars 10 cs n < UInt64.size) :
    wordDigits n cs = (Nat.ofDigitChars 10 cs n, []) := by
  induction cs generalizing n with
  | nil => rfl
  | cons c cs ih =>
    rw [Nat.ofDigitChars_cons] at h ⊢
    rw [wordDigits, if_pos (Nat.lt_of_le_of_lt (le_ofDigitChars cs _) h)]
    exact ih h

theorem wordDigits_bounds (cs : List Char) {n : Nat} (h : n < UInt64.size) :
    (wordDigits n cs).1 < UInt64.size ∧ (wordDigits n cs).2.length ≤ cs.length := by
  induction cs generalizing n with
  | nil => exact ⟨h, Nat.le_refl _⟩
  | cons c cs ih =>
    rw [wordDigits]
    split
    next hnext => exact ⟨(ih hnext).1, Nat.le_succ_of_le (ih hnext).2⟩
    next => exact ⟨h, Nat.le_refl _⟩

theorem decimal_bounds (l : Literal) :
    l.decimal.digits < UInt64.size ∧
      l.decimal.exponent ≤ l.exponent.getD 0 + l.whole.length := by
  have hwhole := wordDigits_bounds l.whole (n := 0) (by decide)
  have hfraction := wordDigits_bounds l.fraction hwhole.1
  refine ⟨hfraction.1, ?_⟩
  simp only [decimal]
  omega

/-- A literal with a point or an exponent is a number of eight bytes, if it is not too great. -/
theorem number_of_not_isInteger {l : Literal} (h : l.isInteger = false)
    (he : l.exponent.getD 0 + l.whole.length ≤ 48) : ∃ y, l.number = .ok (.double y) := by
  have hbounds := l.decimal_bounds
  have hfinite := Double.isFinite_scaled hbounds.1 (Int.le_trans hbounds.2 he)
  refine ⟨{ Double.scaled l.decimal.digits l.decimal.exponent with negative := l.negative }, ?_⟩
  simp [number, h, double, hfinite, Except.map]

end Literal

/-! ### Naturals -/

theorem head?_naturalText {n : Nat} (h : 0 < n) : (naturalText n).head? ≠ some '0' := by
  unfold naturalText
  induction n using Nat.strongRecOn with
  | ind n ih =>
    rw [Nat.toDigits_eq_if (by decide)]
    split
    next =>
      have hz : n ≠ 0 := Nat.ne_of_gt h
      simpa using hz
    next =>
      have hrest := ih (n / 10) (Nat.div_lt_self h (by decide)) (by omega)
      obtain ⟨c, cs, hcs⟩ := List.exists_cons_of_ne_nil (naturalText_ne_nil (n / 10))
      rw [naturalText] at hcs
      rw [hcs] at hrest ⊢
      exact hrest

theorem leading_naturalText {n : Nat} (h : 1 < (naturalText n).length) :
    (naturalText n).head? ≠ some '0' := by
  rcases Nat.eq_zero_or_pos n with rfl | hpos
  · exact absurd h (by decide)
  · exact head?_naturalText hpos

theorem Number.reads_natural {n : Nat} (h : n < UInt64.size) :
    (Number.integer n).Reads (.integer n) := by
  have hvalue : Nat.ofDigitChars 10 (naturalText n) 0 = n := Nat.ofDigitChars_ten_toDigits
  have hword : Literal.wordDigits 0 (naturalText n) = (n, []) := by
    rw [Literal.wordDigits_of_lt (hvalue.symm ▸ h), hvalue]
  refine ⟨⟨false, naturalText n, [], none⟩, ?_, ?_, ?_⟩
  · exact ⟨naturalText_ne_nil n, isDigit_naturalText, leading_naturalText, fun c hc => nomatch hc⟩
  · simp [Number.text, integerText, Literal.text, Literal.fractionText, Literal.exponentText]
  · simp [Literal.number, Literal.decimal, hword, Literal.isInteger, Literal.wordDigits]

/-! ### Numbers of eight bytes -/

/-- The literal that is written for a decimal where the powers of ten of the first digit from
`least` to `greatest` stand without an exponent. -/
def writtenLiteral (least greatest : Int) (negative : Bool) (d : Decimal) : Literal :=
  let digits := naturalText d.digits
  let lead := (digits.length : Int) - 1 + d.exponent
  let places := (-d.exponent).toNat
  if least ≤ lead && lead ≤ greatest then
    if 0 ≤ d.exponent then ⟨negative, digits ++ List.replicate d.exponent.toNat '0', ['0'], none⟩
    else if digits.length ≤ places then
      ⟨negative, ['0'], List.replicate (places - digits.length) '0' ++ digits, none⟩
    else
      ⟨negative, digits.take (digits.length - places), digits.drop (digits.length - places), none⟩
  else ⟨negative, digits.take 1, digits.drop 1, some lead⟩

/-- The power of ten of the first digit of a decimal. -/
def leadOf (d : Decimal) : Int := ((naturalText d.digits).length : Int) - 1 + d.exponent

variable {least greatest : Int}

/-- A written literal is a whole number with its point, a fraction below one, digits with a point
among them, or digits with an exponent. -/
theorem writtenLiteral_cases (least greatest : Int) (negative : Bool) (d : Decimal) :
    (0 ≤ d.exponent ∧ least ≤ leadOf d ∧ leadOf d ≤ greatest ∧
      writtenLiteral least greatest negative d =
        ⟨negative, naturalText d.digits ++ List.replicate d.exponent.toNat '0', ['0'], none⟩) ∨
    (∃ zeros : Nat, d.exponent < 0 ∧ zeros + (naturalText d.digits).length = -d.exponent ∧
      writtenLiteral least greatest negative d =
        ⟨negative, ['0'], List.replicate zeros '0' ++ naturalText d.digits, none⟩) ∨
    (∃ whole : Nat, 0 < whole ∧ whole ≤ greatest + 1 ∧ d.exponent < 0 ∧
      whole - (naturalText d.digits).length = d.exponent ∧
      writtenLiteral least greatest negative d =
        ⟨negative, (naturalText d.digits).take whole, (naturalText d.digits).drop whole, none⟩) ∨
    (¬ (least ≤ leadOf d ∧ leadOf d ≤ greatest) ∧ writtenLiteral least greatest negative d =
      ⟨negative, (naturalText d.digits).take 1, (naturalText d.digits).drop 1,
        some (leadOf d)⟩) := by
  unfold writtenLiteral
  extract_lets digits lead places
  split
  next hplain =>
    have hlead : least ≤ lead ∧ lead ≤ greatest := by simpa using hplain
    split
    next he => exact Or.inl ⟨he, hlead.1, hlead.2, rfl⟩
    next he =>
      have hneg : d.exponent < 0 := Int.not_le.mp he
      split
      next hshort =>
        refine Or.inr (Or.inl ⟨places - digits.length, hneg, ?_, rfl⟩)
        change ((places - digits.length : Nat) : Int) + digits.length = -d.exponent
        omega
      next hlong =>
        have hlength : 0 < digits.length := Nat.length_toDigits_pos
        refine Or.inr (Or.inr (Or.inl ⟨digits.length - places, ?_, ?_, hneg, ?_, rfl⟩))
        · omega
        · omega
        · change ((digits.length - places : Nat) : Int) - digits.length = d.exponent
          omega
  next hplain =>
    have hlead : ¬ (least ≤ lead ∧ lead ≤ greatest) := by simpa using hplain
    exact Or.inr (Or.inr (Or.inr ⟨hlead, rfl⟩))

variable {d : Decimal}

theorem text_writtenLiteral (tie : Tie) (negative : Bool) (d : Decimal) :
    (writtenLiteral least greatest negative d).text =
      (if negative then ['-'] else []) ++
        NumberStyle.write ⟨tie, some (least, greatest), true⟩ d := by
  simp only [writtenLiteral, NumberStyle.write]
  split
  · split
    next he =>
      simp [Literal.text, Literal.fractionText, Literal.exponentText, NumberStyle.writePlain, he]
    next he =>
      split
      next hshort =>
        have hne := List.append_ne_nil_of_right_ne_nil
          (List.replicate ((-d.exponent).toNat - (naturalText d.digits).length) '0')
          (naturalText_ne_nil d.digits)
        simp [Literal.text, Literal.fractionText_of_ne_nil hne, Literal.exponentText,
          NumberStyle.writePlain, he, hshort]
      next hlong =>
        have hlength : 0 < (naturalText d.digits).length := Nat.length_toDigits_pos
        have hne : (naturalText d.digits).drop
            ((naturalText d.digits).length - (-d.exponent).toNat) ≠ [] := by
          rw [ne_eq, List.drop_eq_nil_iff]
          omega
        simp [Literal.text, Literal.fractionText_of_ne_nil hne, Literal.exponentText,
          NumberStyle.writePlain, he, hlong]
  · by_cases hone : (naturalText d.digits).length ≤ 1
    · have hnil : (naturalText d.digits).drop 1 = [] := List.drop_eq_nil_iff.mpr hone
      simp [Literal.text, hnil, Literal.fractionText, Literal.exponentText,
        NumberStyle.writeScientific, hone, -List.drop_one]
    · have hne : (naturalText d.digits).drop 1 ≠ [] := mt List.drop_eq_nil_iff.mp hone
      simp [Literal.text, Literal.fractionText_of_ne_nil hne, Literal.exponentText,
        NumberStyle.writeScientific, hone, -List.drop_one]

theorem valid_writtenLiteral (negative : Bool) (h : d.digits ≠ 0 ∨ d.exponent = 0) :
    (writtenLiteral least greatest negative d).Valid := by
  have hdigits : ∀ c ∈ naturalText d.digits, c.isDigit = true := isDigit_naturalText
  have hzeros : ∀ n, ∀ c ∈ List.replicate n '0', c.isDigit = true := by
    intro n c hc
    rw [List.eq_of_mem_replicate hc]
    rfl
  obtain ⟨first, more, hfirst⟩ := List.exists_cons_of_ne_nil (naturalText_ne_nil d.digits)
  have hlead : d.digits ≠ 0 → first ≠ '0' := by
    intro hd hz
    have hhead := head?_naturalText (Nat.pos_of_ne_zero hd)
    rw [hfirst, hz] at hhead
    exact hhead rfl
  rcases writtenLiteral_cases least greatest negative d with
    ⟨_, _, _, hl⟩ | ⟨zeros, _, _, hl⟩ | ⟨whole, hw, _, _, hlength, hl⟩ | ⟨_, hl⟩
  all_goals rw [hl]
  · refine ⟨by simp [naturalText_ne_nil], ?_, ?_, fun c hc => ?_⟩
    · intro c hc
      exact (List.mem_append.mp hc).elim (hdigits c) (hzeros _ c)
    · intro hlong
      rw [hfirst, List.cons_append, List.head?_cons, ne_eq, Option.some.injEq]
      rcases h with hd | he
      · exact hlead hd
      · simp only [he, Int.toNat_zero, List.replicate_zero, List.append_nil] at hlong
        have hhead := leading_naturalText hlong
        rw [hfirst] at hhead
        simpa using hhead
    · rw [List.mem_singleton.mp hc]
      rfl
  · refine ⟨List.cons_ne_nil _ _, fun c hc => ?_, fun hlong => absurd hlong (by simp), ?_⟩
    · rw [List.mem_singleton.mp hc]
      rfl
    · intro c hc
      exact (List.mem_append.mp hc).elim (hzeros _ c) (hdigits c)
  · refine ⟨?_, fun c hc => hdigits c (List.mem_of_mem_take hc), ?_,
      fun c hc => hdigits c (List.mem_of_mem_drop hc)⟩
    · rw [ne_eq, List.take_eq_nil_iff]
      simp [naturalText_ne_nil, Nat.ne_of_gt hw]
    · intro _
      have hlong : 1 < (naturalText d.digits).length := by omega
      have hhead := leading_naturalText hlong
      rw [List.head?_take, if_neg (Nat.ne_of_gt hw)]
      exact hhead
  · refine ⟨?_, fun c hc => hdigits c (List.mem_of_mem_take hc), fun hlong => ?_,
      fun c hc => hdigits c (List.mem_of_mem_drop hc)⟩
    · rw [ne_eq, List.take_eq_nil_iff]
      simp [naturalText_ne_nil]
    · simp only [List.length_take] at hlong
      omega

theorem isInteger_writtenLiteral (least greatest : Int) (negative : Bool) (d : Decimal) :
    (writtenLiteral least greatest negative d).isInteger = false := by
  rcases writtenLiteral_cases least greatest negative d with
    ⟨_, _, _, hl⟩ | ⟨zeros, _, _, hl⟩ | ⟨whole, _, _, _, hlength, hl⟩ | ⟨_, hl⟩
  all_goals rw [hl]
  · rfl
  · simp [Literal.isInteger, naturalText_ne_nil]
  · simp [Literal.isInteger]
    omega
  · simp [Literal.isInteger]

/-- The power of ten of the first digit bounds what is read. -/
theorem exponent_writtenLiteral (negative : Bool) (hgreatest : greatest ≤ 15)
    (h : leadOf d ≤ 40) :
    (writtenLiteral least greatest negative d).exponent.getD 0 +
      (writtenLiteral least greatest negative d).whole.length ≤ (48 : Int) := by
  rcases writtenLiteral_cases least greatest negative d with
    ⟨he, _, hlead, hl⟩ | ⟨zeros, _, _, hl⟩ | ⟨whole, _, _, _, _, hl⟩ | ⟨_, hl⟩
  all_goals rw [hl]
  · simp only [leadOf] at hlead
    simp only [Option.getD_none, List.length_append, List.length_replicate]
    omega
  · simp
  · simp only [Option.getD_none, List.length_take]
    omega
  · simp only [Option.getD_some, List.length_take]
    omega

/-- The decimal of a widened number is written as a literal that does not overflow. -/
theorem shortest_widen_literal {x : Single} (h : x.isFinite = true) :
    ((FloatFormat.double.shortest .even x.widen.magnitude).digits ≠ 0 ∨
      (FloatFormat.double.shortest .even x.widen.magnitude).exponent = 0) ∧
    leadOf (FloatFormat.double.shortest .even x.widen.magnitude) ≤ 40 := by
  by_cases hz : x.widen.magnitude = 0
  · rw [hz]
    exact ⟨Or.inr rfl, by decide⟩
  · obtain ⟨hdigits, hmost⟩ := Single.shortest_widen h hz .even
    exact ⟨Or.inl hdigits, Decimal.lead_le hdigits hmost⟩

/-- A widened number is read as a number of eight bytes. -/
theorem Number.reads_widen {x : Single} (h : x.isFinite = true) :
    ∃ y, (Number.double x.widen).Reads (.double y) := by
  have hfinite := Single.isFinite_widen h
  have hnumber := Binary.isNaN_of_isFinite hfinite
  obtain ⟨hvalid, hlead⟩ := shortest_widen_literal h
  obtain ⟨y, hy⟩ := Literal.number_of_not_isInteger
    (isInteger_writtenLiteral (-5) 15 x.widen.negative _)
    (exponent_writtenLiteral _ (by decide) hlead)
  refine ⟨y, _, valid_writtenLiteral x.widen.negative hvalid, ?_, hy⟩
  rw [text_writtenLiteral .even, Number.text, Binary.write, hnumber, hfinite,
    if_neg Bool.false_ne_true, if_pos rfl]
  rfl

end RenderMesh.Json
