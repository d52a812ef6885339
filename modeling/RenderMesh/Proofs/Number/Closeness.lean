import RenderMesh.Proofs.Number.Scaling
import RenderMesh.Proofs.Number.Value

/-!
# How close scaled numbers are

Far from the ends of the format every rounding to eight bytes moves a number by at most a share of
`2 ^ (-53)`. Scaling rounds three times, so it is off by no more than four shares; where the
natural, the power and the result are held by the format it is exact.
-/

namespace RenderMesh

-- Powers of naturals are the core operation, whatever else is in scope.
attribute [local instance (high)] instPowNat

namespace Double

/-- The share that one rounding may move a number by. -/
def share : ℚ := 1 / 2 ^ 53

/-- Numbers far from the least and from the greatest of the format. -/
def InRange (v : ℚ) : Prop := 1 / 2 ^ 256 ≤ v ∧ v ≤ 2 ^ 256

/-- Numbers that the format holds. -/
def Held (v : ℚ) : Prop :=
  ∃ (m : Nat) (s : Int), m < 2 ^ 53 ∧ -(FloatFormat.double.scale : Int) ≤ s ∧ v = m * 2 ^ s

variable {num den n k : Nat} {v w ε : ℚ}

/-! ### One rounding -/

theorem round_lt_infinity (hd : 0 < den) (h : (num / den : ℚ) ≤ 2 ^ 256) :
    FloatFormat.double.round num den < FloatFormat.double.infinity := by
  have hd' : (0 : ℚ) < den := Nat.cast_pos.mpr hd
  have hnum : num ≤ 2 ^ 256 * den := by
    rw [div_le_iff₀ hd'] at h
    exact_mod_cast h
  have hlt : num * 2 ^ FloatFormat.double.scale <
      den * 2 ^ (FloatFormat.double.fractionBits + 1279) := by
    have hpow : FloatFormat.double.fractionBits + 1279 = 256 + FloatFormat.double.scale + 1 := rfl
    have hpos : 0 < den * 2 ^ (256 + FloatFormat.double.scale) :=
      Nat.mul_pos hd (Nat.two_pow_pos _)
    calc num * 2 ^ FloatFormat.double.scale
        ≤ 2 ^ 256 * den * 2 ^ FloatFormat.double.scale := Nat.mul_le_mul_right _ hnum
      _ = den * 2 ^ (256 + FloatFormat.double.scale) := by
          rw [Nat.pow_add, Nat.mul_comm _ den, Nat.mul_assoc]
      _ < den * 2 ^ (FloatFormat.double.fractionBits + 1279) := by
          rw [hpow, Nat.pow_succ, ← Nat.mul_assoc]
          omega
  have hround := FloatFormat.round_le hd (by decide) hlt
  rw [FloatFormat.double_infinity]
  exact Nat.lt_of_le_of_lt hround
    (Nat.lt_of_lt_of_le (leadCode_lt _) (FloatFormat.leadCode_mono (by decide)))

theorem round_near (hd : 0 < den) (h : InRange (num / den)) :
    Near share (num / den) (FloatFormat.double.value (FloatFormat.double.round num den)) := by
  apply FloatFormat.round_near hd _ (round_lt_infinity hd h.2)
  have hpow : FloatFormat.double.scale = 256 + 818 := rfl
  calc (2 ^ FloatFormat.double.fractionBits : ℚ)
      ≤ 1 / 2 ^ 256 * (2 ^ 256 * 2 ^ 818) := by
        rw [← mul_assoc, one_div, inv_mul_cancel₀ (by positivity), one_mul]
        exact pow_le_pow_right₀ (by norm_num) (by decide)
    _ ≤ num / den * 2 ^ FloatFormat.double.scale := by
        rw [hpow, pow_add]
        exact mul_le_mul_of_nonneg_right h.1 (by positivity)

theorem round_held (hd : 0 < den) (h : Held (num / den)) (hv : (num / den : ℚ) ≤ 2 ^ 256) :
    FloatFormat.double.value (FloatFormat.double.round num den) = num / den := by
  obtain ⟨m, s, hm, hs, hv'⟩ := h
  have hd' : (0 : ℚ) < den := Nat.cast_pos.mpr hd
  obtain ⟨a, ha⟩ := Int.eq_ofNat_of_zero_le (show 0 ≤ s + FloatFormat.double.scale by omega)
  apply FloatFormat.value_round_exact (m := m) (a := a) hd hm _ (round_lt_infinity hd hv)
  have hs : s = a - FloatFormat.double.scale := by omega
  rw [div_eq_iff hd'.ne', hs, zpow_sub₀ (by norm_num), zpow_natCast, zpow_natCast] at hv'
  rw [← @Nat.cast_inj ℚ]
  push_cast
  rw [hv']
  field_simp

/-! ### Operations -/

theorem value_times (x y : Double) :
    (((FloatFormat.double.units x.magnitude * FloatFormat.double.units y.magnitude : Nat) : ℚ) /
      ((2 ^ FloatFormat.double.scale * 2 ^ FloatFormat.double.scale : Nat) : ℚ)) =
    FloatFormat.double.value x.magnitude * FloatFormat.double.value y.magnitude := by
  rw [FloatFormat.value, FloatFormat.value, div_mul_div_comm]
  push_cast
  rfl

theorem value_dividedBy (x y : Double) :
    ((FloatFormat.double.units x.magnitude : ℚ) / FloatFormat.double.units y.magnitude) =
      FloatFormat.double.value x.magnitude / FloatFormat.double.value y.magnitude := by
  rw [FloatFormat.value, FloatFormat.value, div_div_div_cancel_right₀ (by positivity)]

theorem times_near {x y : Double}
    (h : InRange (FloatFormat.double.value x.magnitude * FloatFormat.double.value y.magnitude)) :
    Near share (FloatFormat.double.value x.magnitude * FloatFormat.double.value y.magnitude)
      (FloatFormat.double.value (x.times y).magnitude) := by
  rw [← value_times] at h ⊢
  exact round_near (Nat.mul_pos (Nat.two_pow_pos _) (Nat.two_pow_pos _)) h

theorem dividedBy_near {x y : Double} (hy : y.magnitude ≠ 0)
    (h : InRange (FloatFormat.double.value x.magnitude / FloatFormat.double.value y.magnitude)) :
    Near share (FloatFormat.double.value x.magnitude / FloatFormat.double.value y.magnitude)
      (FloatFormat.double.value (x.dividedBy y).magnitude) := by
  rw [← value_dividedBy] at h ⊢
  exact round_near (FloatFormat.units_pos hy) h

/-! ### Naturals and powers of ten -/

theorem ofInt_near (hn : 0 < n) (h : n ≤ 2 ^ 256) :
    Near share n (FloatFormat.double.value (Binary.ofInt n : Double).magnitude) := by
  have hn' : (1 : ℚ) ≤ n := Nat.one_le_cast.mpr hn
  have hle : (n : ℚ) ≤ 2 ^ 256 := by exact_mod_cast h
  have hrange : InRange (n / (1 : Nat)) := by
    rw [Nat.cast_one, div_one]
    exact ⟨le_trans (by norm_num) hn', hle⟩
  have hnear := round_near Nat.one_pos hrange
  rw [Nat.cast_one, div_one] at hnear
  exact hnear

theorem ofInt_held (h : Held n) (hn : n ≤ 2 ^ 256) :
    FloatFormat.double.value (Binary.ofInt n : Double).magnitude = n := by
  have hle : (n : ℚ) ≤ 2 ^ 256 := by exact_mod_cast hn
  have hone : (n / (1 : Nat) : ℚ) = n := by rw [Nat.cast_one, div_one]
  rw [← hone] at h hle
  rw [← hone]
  exact round_held Nat.one_pos h hle

theorem powerOfTen_near (hk : k ≤ 64) :
    Near share (10 ^ k) (FloatFormat.double.value (powerOfTen k).magnitude) := by
  have hle : 10 ^ k ≤ 2 ^ 256 :=
    Nat.le_trans (Nat.pow_le_pow_right (by decide) hk) (by decide)
  have hnear := ofInt_near (Nat.pow_pos (by decide)) hle
  rw [← powerOfTen_eq] at hnear
  push_cast at hnear
  exact hnear

theorem powerOfTen_held (hk : k ≤ 22) :
    FloatFormat.double.value (powerOfTen k).magnitude = 10 ^ k := by
  have hle : 10 ^ k ≤ 2 ^ 256 := by
    exact Nat.le_trans (Nat.pow_le_pow_right (by decide) (Nat.le_trans hk (by decide : 22 ≤ 64)))
      (by decide)
  have hfive : 5 ^ k < 2 ^ 53 :=
    Nat.lt_of_le_of_lt (Nat.pow_le_pow_right (by decide) hk) (by decide)
  have hheld : Held ((10 ^ k : Nat) : ℚ) := by
    refine ⟨5 ^ k, k, hfive, by omega, ?_⟩
    rw [zpow_natCast]
    push_cast
    rw [← mul_pow]
    norm_num
  have hround := ofInt_held hheld hle
  rw [← powerOfTen_eq] at hround
  push_cast at hround
  exact hround

/-! ### Scaling -/

theorem InRange.of_near (h : Near ε v w) (hε : ε ≤ 1 / 2) (hlow : 1 / 2 ^ 255 ≤ v)
    (hhigh : v ≤ 2 ^ 255) : InRange w := by
  obtain ⟨hdown, hup⟩ := h
  constructor
  · nlinarith
  · nlinarith

theorem zpow_neg_toNat {e : Int} (he : e < 0) : (10 : ℚ) ^ e = (10 ^ (-e).toNat)⁻¹ := by
  have hneg : e = -((-e).toNat : Int) := by omega
  conv_lhs => rw [hneg, zpow_neg, zpow_natCast]

theorem zpow_toNat {e : Int} (he : 0 ≤ e) : (10 : ℚ) ^ e = 10 ^ e.toNat := by
  conv_lhs => rw [← Int.toNat_of_nonneg he, zpow_natCast]

theorem scaled_of_neg {e : Int} (hlow : -64 ≤ e) (he : e < 0) :
    scaled n e = (Binary.ofInt n : Double).dividedBy (powerOfTen (-e).toNat) := by
  have hplaces : (-e).toNat ≤ greatestPower := by
    unfold greatestPower
    omega
  rw [scaled, if_pos he, shrink, if_pos hplaces]

theorem scaled_of_nonneg (hn : 0 < n) {e : Int} (he : 0 ≤ e) (hhigh : e ≤ 48) :
    scaled n e = (Binary.ofInt n : Double).times (powerOfTen e.toNat) := by
  have hreach : e ≤ greatestPower := Int.le_trans hhigh (by decide)
  rw [scaled, if_neg (Int.not_lt.mpr he), if_neg (Nat.ne_of_gt hn), if_pos hreach]

theorem powerOfTen_ne_zero (k : Nat) : (powerOfTen k).magnitude ≠ 0 := by
  intro hz
  have hone := one_le_units_powerOfTen k
  rw [hz] at hone
  exact Nat.not_le.mpr (Nat.two_pow_pos _) hone

/-- The power and the result are rounded, and the inverse of a power is off by half as much
again. -/
theorem scaled_near_of {δ : ℚ} (hn : 0 < n) (hword : n < UInt64.size)
    (hdigits : Near δ n (FloatFormat.double.value (Binary.ofInt n : Double).magnitude))
    (hδ : 0 ≤ δ) (hδ' : δ ≤ share) {e : Int} (hlow : -64 ≤ e) (hhigh : e ≤ 48) :
    Near (δ + 3 * share) (n * 10 ^ e) (FloatFormat.double.value (scaled n e).magnitude) := by
  have hn' : (1 : ℚ) ≤ n := Nat.one_le_cast.mpr hn
  have hword' : (n : ℚ) ≤ 2 ^ 64 := by exact_mod_cast Nat.le_of_lt hword
  have hsmall : δ ≤ 1 / 2 ^ 53 := hδ'
  -- The value lies between the least power and the greatest natural times the greatest power.
  have hvalue : 1 / 2 ^ 255 ≤ n * (10 : ℚ) ^ e ∧ n * (10 : ℚ) ^ e ≤ 2 ^ 255 := by
    have hten : (10 : ℚ) ^ (-64 : Int) ≤ 10 ^ e := zpow_le_zpow_right₀ (by norm_num) hlow
    have hten' : (10 : ℚ) ^ e ≤ 10 ^ (48 : Int) := zpow_le_zpow_right₀ (by norm_num) hhigh
    have hpos : (0 : ℚ) < 10 ^ e := by positivity
    constructor
    · calc (1 / 2 ^ 255 : ℚ) ≤ 1 * 10 ^ (-64 : Int) := by norm_num
        _ ≤ n * 10 ^ e := mul_le_mul hn' hten (by positivity) (by positivity)
    · calc (n : ℚ) * 10 ^ e ≤ 2 ^ 64 * 10 ^ (48 : Int) :=
            mul_le_mul hword' hten' hpos.le (by positivity)
        _ ≤ 2 ^ 255 := by norm_num
  have hpos : 0 ≤ n * (10 : ℚ) ^ e := by positivity
  rcases Int.lt_or_le e 0 with he | he
  · have hpower := (powerOfTen_near (k := (-e).toNat) (by omega)).inv (by positivity)
      (by norm_num [share]) (by norm_num [share])
    have hexact := hdigits.mul hpower (by positivity) (by positivity) hδ (by linarith)
      (by norm_num [share]) (by norm_num [share])
    rw [← zpow_neg_toNat he, ← div_eq_mul_inv] at hexact
    have hrange := InRange.of_near hexact (by norm_num [share]; linarith) hvalue.1 hvalue.2
    have hround := dividedBy_near (powerOfTen_ne_zero _) hrange
    rw [scaled_of_neg hlow he]
    refine (hexact.trans hround hpos ?_ ?_ ?_ ?_).mono hpos ?_
    all_goals norm_num [share]
    all_goals linarith
  · have hpower := powerOfTen_near (k := e.toNat) (by omega)
    have hexact := hdigits.mul hpower (by positivity) (by positivity) hδ (by linarith)
      (by norm_num [share]) (by norm_num [share])
    rw [← zpow_toNat he] at hexact
    have hround := times_near
      (InRange.of_near hexact (by norm_num [share]; linarith) hvalue.1 hvalue.2)
    rw [scaled_of_nonneg hn he hhigh]
    refine (hexact.trans hround hpos ?_ ?_ ?_ ?_).mono hpos ?_
    all_goals norm_num [share]
    all_goals linarith

/-- Digits of 64 bits times a power of ten, rounded three times. -/
theorem scaled_near (hn : 0 < n) (hword : n < UInt64.size) {e : Int} (hlow : -64 ≤ e)
    (hhigh : e ≤ 48) :
    Near (4 * share) (n * 10 ^ e) (FloatFormat.double.value (scaled n e).magnitude) := by
  have hdigits := ofInt_near hn (Nat.le_trans (Nat.le_of_lt hword) (by decide))
  have hnear := scaled_near_of hn hword hdigits (by norm_num [share]) le_rfl hlow hhigh
  rwa [show share + 3 * share = 4 * share by ring] at hnear

theorem held_natCast (h : n < 2 ^ 53) : Held n :=
  ⟨n, 0, h, by omega, by rw [zpow_zero, mul_one]⟩

/-- Digits that are held are not rounded. -/
theorem scaled_near_of_held (hn : 0 < n) (hdigits : n < 2 ^ 53) {e : Int} (hlow : -64 ≤ e)
    (hhigh : e ≤ 48) :
    Near (3 * share) (n * 10 ^ e) (FloatFormat.double.value (scaled n e).magnitude) := by
  have hexact := ofInt_held (held_natCast hdigits) (Nat.le_trans (Nat.le_of_lt hdigits) (by decide))
  have hnear : Near 0 n (FloatFormat.double.value (Binary.ofInt n : Double).magnitude) := by
    rw [hexact]
    constructor <;> linarith
  have hscaled := scaled_near_of hn (Nat.lt_trans hdigits (by decide)) hnear le_rfl
    (by norm_num [share]) hlow hhigh
  rwa [zero_add] at hscaled

/-- Scaling is exact where the digits, the power and the result are held. -/
theorem scaled_held (hn : 0 < n) (hdigits : n < 2 ^ 53) {e : Int} (hlow : -22 ≤ e)
    (hhigh : e ≤ 22) (h : Held (n * 10 ^ e)) :
    FloatFormat.double.value (scaled n e).magnitude = n * 10 ^ e := by
  have hn' : (1 : ℚ) ≤ n := Nat.one_le_cast.mpr hn
  have hdigits' : (n : ℚ) ≤ 2 ^ 53 := by exact_mod_cast Nat.le_of_lt hdigits
  have hexact := ofInt_held (held_natCast hdigits) (Nat.le_trans (Nat.le_of_lt hdigits) (by decide))
  have hvalue : n * (10 : ℚ) ^ e ≤ 2 ^ 256 := by
    have hten : (10 : ℚ) ^ e ≤ 10 ^ (22 : Int) := zpow_le_zpow_right₀ (by norm_num) hhigh
    calc (n : ℚ) * 10 ^ e ≤ 2 ^ 53 * 10 ^ (22 : Int) :=
          mul_le_mul hdigits' hten (by positivity) (by positivity)
      _ ≤ 2 ^ 256 := by norm_num
  rcases Int.lt_or_le e 0 with he | he
  · have hpower := powerOfTen_held (k := (-e).toNat) (by omega)
    have hratio := value_dividedBy (.ofInt n) (powerOfTen (-e).toNat)
    rw [hexact, hpower, div_eq_mul_inv (n : ℚ), ← zpow_neg_toNat he] at hratio
    rw [scaled_of_neg (by omega) he]
    rw [← hratio] at h hvalue ⊢
    exact round_held (FloatFormat.units_pos (powerOfTen_ne_zero _)) h hvalue
  · have hpower := powerOfTen_held (k := e.toNat) (by omega)
    have hratio := value_times (.ofInt n) (powerOfTen e.toNat)
    rw [hexact, hpower, ← zpow_toNat he] at hratio
    rw [scaled_of_nonneg hn he (by omega)]
    rw [← hratio] at h hvalue ⊢
    exact round_held (Nat.mul_pos (Nat.two_pow_pos _) (Nat.two_pow_pos _)) h hvalue

end Double

end RenderMesh
