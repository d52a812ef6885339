import RenderMesh.Proofs.Json.Single

/-!
# Numbers of four bytes by way of eight

A literal is read into four bytes by way of eight bytes. Shortest decimals of four bytes come back
like that, and so do the decimals of widened numbers, which are read close to the number: close
enough to be narrowed to it, also when they are written and read once more.
-/

namespace RenderMesh

-- Powers of naturals are the core operation, whatever else is in scope.
attribute [local instance (high)] instPowNat

open FloatFormat (single double)

variable {x : Single} {y z : Double} {ε : ℚ}

/-! ### Close numbers of eight bytes -/

/-- A number of eight bytes that is off from one of four bytes by at most a share of it. -/
structure Double.About (ε : ℚ) (x : Single) (y : Double) : Prop where
  negative : y.negative = x.negative
  zero : x.magnitude = 0 → y.magnitude = 0
  near : x.magnitude ≠ 0 → Near ε (single.value x.magnitude) (double.value y.magnitude)

theorem Single.magnitude_lt (hx : x.isFinite = true) : x.magnitude < single.infinity :=
  of_decide_eq_true hx

theorem Double.isFinite_of_value (h : double.value y.magnitude ≤ 2 ^ 130) : y.isFinite = true := by
  refine isFinite_of_lt (k := 1250) (by decide) (Nat.lt_of_not_le fun hle => ?_)
  have hunits := FloatFormat.le_units hle
  have hexponent : double.fractionBits + 1250 = 228 + double.scale := rfl
  rw [hexponent, Nat.pow_add, ← @Nat.cast_le ℚ] at hunits
  push_cast at hunits
  rw [FloatFormat.value, div_le_iff₀ (by positivity)] at h
  have hpow := le_of_mul_le_mul_right (le_trans hunits h) (by positivity)
  norm_num at hpow

theorem Double.narrow_of_round (hfinite : y.isFinite = true) (hnegative : y.negative = x.negative)
    (hround : single.round (double.units y.magnitude) (2 ^ double.scale) = x.magnitude) :
    y.narrow = x := by
  obtain ⟨negative, magnitude, hlt⟩ := x
  simp only [narrow, Binary.convert, Binary.isNaN_of_isFinite hfinite, hfinite, if_true,
    Binary.nearest, hround, hnegative, Bool.false_eq_true, if_false]

namespace Double.About

theorem value_bounds (h : About ε x y) (hε : ε ≤ 1 / 4) (hx : x.isFinite = true)
    (hz : x.magnitude ≠ 0) : 1 / 2 ^ 150 ≤ double.value y.magnitude ∧
      double.value y.magnitude ≤ 2 ^ 130 := by
  obtain ⟨hlow, hhigh⟩ := Single.value_bounds hz (Single.magnitude_lt hx)
  obtain ⟨hdown, hup⟩ := h.near hz
  constructor
  · nlinarith
  · nlinarith

theorem isFinite (h : About ε x y) (hε : ε ≤ 1 / 4) (hx : x.isFinite = true) :
    y.isFinite = true := by
  apply isFinite_of_value
  by_cases hz : x.magnitude = 0
  · rw [h.zero hz, FloatFormat.value, show double.units 0 = 0 by decide, Nat.cast_zero, zero_div]
    positivity
  · exact (h.value_bounds hε hx hz).2

/-- A number that is close enough is narrowed to the number it is close to. -/
theorem narrow (h : About ε x y) (hε : ε < 1 / 2 ^ 25) (hx : x.isFinite = true) :
    y.narrow = x := by
  apply narrow_of_round (h.isFinite (le_trans hε.le (by norm_num)) hx) h.negative
  by_cases hz : x.magnitude = 0
  · rw [h.zero hz, hz, show double.units 0 = 0 by decide]
    exact FloatFormat.round_zero _ _
  · have hwithin : single.Within x.magnitude (double.value y.magnitude) :=
      FloatFormat.within_of_near hz hε (h.near hz)
    apply FloatFormat.round_eq_of_within (Nat.two_pow_pos _) (by decide) hz (Single.magnitude_lt hx)
    rw [Nat.cast_pow, Nat.cast_ofNat]
    exact hwithin

end Double.About

/-- Eight bytes hold every number of four bytes. -/
theorem Single.about_widen (hx : x.isFinite = true) : Double.About 0 x x.widen := by
  have hnumber := Binary.isNaN_of_isFinite hx
  have hmagnitude : x.widen.magnitude =
      double.round (single.units x.magnitude) (2 ^ single.scale) := by
    rw [widen, Binary.convert, hnumber, hx, if_neg Bool.false_ne_true, if_pos rfl]
    rfl
  have hnegative : x.widen.negative = x.negative := by
    rw [widen, Binary.convert, hnumber, hx, if_neg Bool.false_ne_true, if_pos rfl]
    rfl
  refine ⟨hnegative, fun hz => ?_, fun hz => ?_⟩
  · rw [hmagnitude, hz, show single.units 0 = 0 by decide]
    exact FloatFormat.round_zero _ _
  · have hvalue : (single.units x.magnitude / (2 ^ single.scale : Nat) : ℚ) =
        single.value x.magnitude := by
      rw [Nat.cast_pow, Nat.cast_ofNat]
      rfl
    have hheld : Double.Held (single.units x.magnitude / (2 ^ single.scale : Nat)) := by
      have hmantissa := FloatFormat.mantissa_lt (f := single) x.magnitude
      have hbits : 2 ^ (single.fractionBits + 1) = 2 ^ 24 := rfl
      have hscale : double.scale = 1074 := rfl
      have hscale' : single.scale = 149 := rfl
      refine ⟨single.mantissa x.magnitude, (single.step x.magnitude : Int) - single.scale, by omega,
        by omega, ?_⟩
      rw [FloatFormat.units_eq, zpow_sub₀ (by norm_num), zpow_natCast, zpow_natCast]
      push_cast
      ring
    have hmost : (single.units x.magnitude / (2 ^ single.scale : Nat) : ℚ) ≤ 2 ^ 256 := by
      rw [hvalue]
      exact le_trans (Single.value_bounds hz (magnitude_lt hx)).2.le
        (pow_le_pow_right₀ (by norm_num) (by decide))
    rw [hmagnitude, Double.round_held (Nat.two_pow_pos _) hheld hmost, hvalue]
    constructor <;> linarith

/-! ### Written once more -/

theorem Double.normal_of_value (hlow : 1 / 2 ^ 150 ≤ double.value y.magnitude) :
    2 ^ double.fractionBits < y.magnitude := by
  have hlead : double.leadCode 1 ≤ y.magnitude := by
    refine Nat.le_of_not_lt fun hlt => ?_
    have hunits := FloatFormat.units_lt (by decide) hlt
    have hvalue : double.value y.magnitude < 2 ^ 53 / 2 ^ double.scale := by
      apply div_lt_div_of_pos_right _ (by positivity)
      exact_mod_cast hunits
    have hleast : (2 ^ 53 / 2 ^ double.scale : ℚ) ≤ 1 / 2 ^ 150 := by
      rw [div_le_div_iff₀ (by positivity) (by positivity), ← pow_add, one_mul]
      exact pow_le_pow_right₀ (by norm_num) (by decide)
    linarith
  exact Nat.lt_of_lt_of_le (by decide) hlead

/-- The decimal of a number of eight bytes is off by half a step. -/
theorem Double.shortest_near (hlow : 1 / 2 ^ 150 ≤ double.value y.magnitude) :
    Near share (double.value y.magnitude) (double.shortest .even y.magnitude).value := by
  have hnormal := normal_of_value hlow
  have hwithin := FloatFormat.within_shortest (f := double) (Nat.ne_zero_of_lt hnormal)
    (by decide : 16 < 17) (by decide) .even
  have hshare : (1 / 2 ^ (double.fractionBits + 1) : ℚ) = share := by
    rw [show double.fractionBits + 1 = 53 from rfl, share]
  exact hshare ▸ FloatFormat.near_of_within hnormal hwithin

/-- It is written in the range of scaling. -/
theorem Double.shortest_written (hlow : 1 / 2 ^ 150 ≤ double.value y.magnitude)
    (hhigh : double.value y.magnitude ≤ 2 ^ 130) {d : Decimal}
    (hd : double.shortest .even y.magnitude = d) :
    0 < d.value ∧ 0 < (Json.writtenDecimal (-5) 15 d).digits ∧
      (Json.writtenDecimal (-5) 15 d).digits < UInt64.size ∧
      -64 ≤ (Json.writtenDecimal (-5) 15 d).exponent ∧
      (Json.writtenDecimal (-5) 15 d).exponent ≤ 48 := by
  have hpos : 0 < double.value y.magnitude := lt_of_lt_of_le (by positivity) hlow
  have hc : y.magnitude ≠ 0 := Nat.ne_zero_of_lt (normal_of_value hlow)
  have hnear := shortest_near hlow
  obtain ⟨hdigits, hexponent⟩ :=
    FloatFormat.shortest_size (f := double) hc (by decide : 16 < 17) (by decide) .even
  rw [hd] at hnear hdigits hexponent
  have hlead : -46 ≤ double.lead y.magnitude := by
    have hten : (10 : ℚ) ^ (-46 : Int) ≤ 1 / 2 ^ 150 := by norm_num
    exact FloatFormat.le_lead hc (le_trans hten hlow)
  have hvalue : 0 < d.value := hnear.pos hpos (by norm_num [share])
  have hmost : d.value ≤ 10 ^ (48 : Int) := by
    obtain ⟨_, hup⟩ := hnear.mono hpos.le (show share ≤ 1 by norm_num [share])
    have hten : (2 ^ 131 : ℚ) ≤ 10 ^ (48 : Int) := by norm_num
    linarith
  obtain ⟨hpos', hdigits', hlow', hhigh'⟩ := Json.writtenDecimal_bounds (-5) hdigits
    (by decide : (15 : Int) + 2 ≤ _) hvalue hmost (by omega)
  exact ⟨hvalue, hpos', Nat.lt_of_le_of_lt hdigits' (by decide), hlow', hhigh'⟩

/-- The decimal is off by half a step, and scaling it by four more. -/
theorem Double.reads_near (hlow : 1 / 2 ^ 150 ≤ double.value y.magnitude)
    (hhigh : double.value y.magnitude ≤ 2 ^ 130) : ∃ z, (Json.Number.double y).Reads (.double z) ∧
      z.negative = y.negative ∧
      Near (6 * share) (double.value y.magnitude) (double.value z.magnitude) := by
  have hpos : 0 < double.value y.magnitude := lt_of_lt_of_le (by positivity) hlow
  have hnear := shortest_near hlow
  generalize hd : double.shortest .even y.magnitude = d at hnear
  obtain ⟨hvalue, hdigits, hword, hleast, hmost⟩ := shortest_written hlow hhigh hd
  have hne : d.digits ≠ 0 := by
    intro hz
    rw [Decimal.value, hz, Nat.cast_zero, zero_mul] at hvalue
    exact lt_irrefl _ hvalue
  obtain ⟨l, hvalid, htext, hnumber⟩ :=
    Json.write_literal (-5) 15 (isFinite_of_value hhigh) hd (Or.inl hne) hword hmost
  have hscaled := scaled_near hdigits hword hleast hmost
  have hsame : ((Json.writtenDecimal (-5) 15 d).digits : ℚ) *
      10 ^ (Json.writtenDecimal (-5) 15 d).exponent = d.value := Json.value_writtenDecimal _ _ _
  rw [hsame] at hscaled
  refine ⟨_, ⟨l, hvalid, htext, hnumber⟩, rfl, ?_⟩
  refine (hnear.trans hscaled hpos.le ?_ ?_ ?_ ?_).mono hpos.le ?_
  all_goals norm_num [share]

namespace Double.About

/-- The decimal of a number of eight bytes is read close to it. -/
theorem reads (h : About ε x y) (hε : 0 ≤ ε) (hε' : ε ≤ 1 / 4) (hx : x.isFinite = true) :
    ∃ z, (Json.Number.double y).Reads (.double z) ∧ About (ε + 8 * share) x z := by
  have hfinite := h.isFinite hε' hx
  by_cases hz : x.magnitude = 0
  · have hshortest : double.shortest .even y.magnitude = ⟨0, 0⟩ := by rw [h.zero hz]; rfl
    have hzero : (scaled (Json.writtenDecimal (-5) 15 ⟨0, 0⟩).digits
        (Json.writtenDecimal (-5) 15 ⟨0, 0⟩).exponent).magnitude = 0 := by decide +kernel
    obtain ⟨l, hvalid, htext, hnumber⟩ :=
      Json.write_literal (-5) 15 hfinite hshortest (Or.inr rfl) (by decide) (by decide)
    exact ⟨_, ⟨l, hvalid, htext, hnumber⟩, h.negative, fun _ => hzero, fun hne => absurd hz hne⟩
  · obtain ⟨hlow, hhigh⟩ := h.value_bounds hε' hx hz
    obtain ⟨z, hreads, hnegative, hnear⟩ := Double.reads_near hlow hhigh
    have hpos := FloatFormat.value_nonneg (f := single) x.magnitude
    refine ⟨z, hreads, hnegative.trans h.negative, fun hzero => absurd hzero hz, fun _ => ?_⟩
    refine ((h.near hz).trans hnear hpos hε ?_ ?_ ?_).mono hpos ?_
    · linarith
    · norm_num [share]
    · norm_num [share]
    · have hproduct : ε * (6 * share) ≤ 1 / 4 * (6 * share) :=
        mul_le_mul_of_nonneg_right hε' (by norm_num [share])
      have hshare : 0 < share := by norm_num [share]
      linarith

end Double.About

/-! ### Text of four bytes -/

/-- A text of a number that is narrowed to one of four bytes. -/
def Json.SpellsSingle (text : List Char) (x : Single) : Prop :=
  ∃ z : Double, Spells text (.double z) ∧ z.narrow = x

theorem Double.About.spells (h : About ε x y) (hε : 0 ≤ ε) (hε' : ε ≤ 1 / 2 ^ 26)
    (hx : x.isFinite = true) : Json.SpellsSingle (Json.Number.double y).text x := by
  obtain ⟨z, hreads, habout⟩ := h.reads hε (le_trans hε' (by norm_num)) hx
  refine ⟨z, hreads, habout.narrow ?_ hx⟩
  have hshare : 8 * share < 1 / 2 ^ 26 := by norm_num [share]
  linarith

/-- The shortest decimal of four bytes is read, by way of eight, as the number. -/
theorem Single.spells (hx : x.isFinite = true) :
    Json.SpellsSingle (x.write .compactSingle) x := by
  have hlt := magnitude_lt hx
  have hbounds : ((single.shortest .even x.magnitude).digits ≠ 0 ∨
      (single.shortest .even x.magnitude).exponent = 0) ∧
      (Json.shownDecimal x.magnitude).digits < UInt64.size ∧
      (Json.shownDecimal x.magnitude).exponent ≤ 48 := by
    by_cases hz : x.magnitude = 0
    · rw [hz]
      exact ⟨Or.inr rfl, by decide +kernel, by decide +kernel⟩
    · obtain ⟨hpos, hdigits, _, hexponent⟩ := Json.shownDecimal_bounds hz hlt
      refine ⟨Or.inl fun hnone => ?_, Nat.lt_of_le_of_lt hdigits (by decide), hexponent⟩
      have hvalue := Json.value_shownDecimal x.magnitude
      rw [Decimal.value, Decimal.value, hnone, Nat.cast_zero, zero_mul] at hvalue
      have hvalue' : 0 < ((Json.shownDecimal x.magnitude).digits : ℚ) *
          10 ^ (Json.shownDecimal x.magnitude).exponent := by positivity
      exact lt_irrefl _ (hvalue ▸ hvalue')
  obtain ⟨hvalid, hdigits, hexponent⟩ := hbounds
  obtain ⟨l, hl, htext, hnumber⟩ := Json.write_literal (-6) 12 hx
    (Eq.refl (single.shortest .even x.magnitude)) hvalid hdigits hexponent
  refine ⟨_, ⟨l, hl, htext, hnumber⟩, Double.narrow_of_round ?_ rfl (Json.rereadCode_eq hlt)⟩
  exact Double.isFinite_scaled hdigits hexponent

end RenderMesh
