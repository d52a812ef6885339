import RenderMesh.Proofs.Json.Decimal
import RenderMesh.Proofs.Number.Bracket
import RenderMesh.Proofs.Number.Closeness

/-!
# Decimals next to half-way points

A decimal of eight digits that is as close to a half-way point of four bytes as scaling is off may
come to lie on its other side. On the grids around one a decimal that close is the half-way point
itself, since both are whole numbers of something. On the other grids there are a few such decimals;
they are searched for, and the codes on both sides of each half-way point are read back.
-/

namespace RenderMesh.Json

-- Powers of naturals are the core operation, whatever else is in scope.
attribute [local instance (high)] instPowNat

/-- The code that the literal written for a code of four bytes is read as. -/
def rereadCode (code : Nat) : Nat :=
  let d := writtenDecimal (-6) 12 (FloatFormat.single.shortest .even code)
  FloatFormat.single.round
    (FloatFormat.double.units (Double.scaled d.digits d.exponent).magnitude)
    (2 ^ FloatFormat.double.scale)

/-! ### Decimals and half-way points as naturals -/

/-- The power of ten of a grid, as a multiple of what it has in common with half a step. -/
def gridSide (e : Int) (t : Nat) : Nat := 5 ^ e.toNat * 2 ^ (150 + e - t).toNat

/-- Half a step, as a multiple of what it has in common with the power of ten of a grid. -/
def stepSide (e : Int) (t : Nat) : Nat := 5 ^ (-e).toNat * 2 ^ (t - 150 - e).toNat

variable {e : Int} {t x y n : Nat}

theorem stepSide_pos (e : Int) (t : Nat) : 0 < stepSide e t :=
  Nat.mul_pos (Nat.pow_pos (by decide)) (Nat.two_pow_pos _)

theorem sides_spec (e : Int) (t : Nat) : ∃ unit : ℚ, 0 < unit ∧
    gridSide e t = 10 ^ e * unit ∧ stepSide e t = 2 ^ ((t : Int) - 150) * unit := by
  have hstep : (0 : ℚ) < stepSide e t := Nat.cast_pos.mpr (stepSide_pos e t)
  refine ⟨stepSide e t * 2 ^ (150 - (t : Int)), by positivity, ?_, ?_⟩
  · have hten : (10 : ℚ) ^ e = 5 ^ e * 2 ^ e := by
      rw [← mul_zpow]
      norm_num
    have htwo : (2 : ℚ) ^ e * 2 ^ (150 - (t : Int)) = 2 ^ (150 + e - t) := by
      rw [← zpow_add₀ (by norm_num)]
      congr 1
      omega
    have hneg : -(150 + e - (t : Int)) = t - 150 - e := by omega
    calc (gridSide e t : ℚ)
        = 5 ^ e.toNat / 5 ^ (-e).toNat *
            (2 ^ (150 + e - t).toNat / 2 ^ (t - 150 - e).toNat) * stepSide e t := by
          unfold gridSide stepSide
          push_cast
          field_simp
      _ = 5 ^ e * 2 ^ (150 + e - t) * stepSide e t := by
          rw [zpow_eq_div 5 e, zpow_eq_div 2 (150 + e - t), hneg]
      _ = 10 ^ e * (stepSide e t * 2 ^ (150 - (t : Int))) := by
          rw [hten, ← htwo]
          ring
  · rw [mul_left_comm, ← zpow_add₀ (by norm_num), sub_add_sub_cancel', sub_self, zpow_zero, mul_one]

theorem sides_eq_iff (e : Int) (t x y : Nat) : x * gridSide e t = y * stepSide e t ↔
    (x * 10 ^ e : ℚ) = y * 2 ^ ((t : Int) - 150) := by
  obtain ⟨unit, hunit, hgrid, hstep⟩ := sides_spec e t
  rw [← @Nat.cast_inj ℚ, Nat.cast_mul, Nat.cast_mul, hgrid, hstep, ← mul_assoc, ← mul_assoc,
    mul_left_inj' hunit.ne']

/-- Whether a decimal and a half-way point are as close as scaling may be off. -/
def Close (e : Int) (t x y : Nat) : Prop :=
  Near (3 * Double.share) (x * 10 ^ e) (y * 2 ^ ((t : Int) - 150))

theorem Close.nat (h : Close e t x y) :
    2 ^ 53 * (x * gridSide e t) ≤ 2 ^ 53 * (y * stepSide e t) + 3 * (x * gridSide e t) ∧
      2 ^ 53 * (y * stepSide e t) ≤ 2 ^ 53 * (x * gridSide e t) + 3 * (x * gridSide e t) := by
  obtain ⟨unit, hunit, hgrid, hstep⟩ := sides_spec e t
  obtain ⟨hlow, hhigh⟩ := h
  have hlow' := mul_le_mul_of_nonneg_right hlow hunit.le
  have hhigh' := mul_le_mul_of_nonneg_right hhigh hunit.le
  rw [← @Nat.cast_le ℚ, ← @Nat.cast_le ℚ]
  push_cast
  rw [hgrid, hstep]
  unfold Double.share at hlow' hhigh'
  constructor <;> linarith

/-- On a grid around one, close is equal. -/
theorem Close.eq (h : Close e t x y) (hlow : -11 ≤ e) (hhigh : e ≤ 10) (hx : x ≤ 10 ^ 8)
    (hy : y ≤ 2 ^ 25) : x * gridSide e t = y * stepSide e t := by
  obtain ⟨hup, hdown⟩ := h.nat
  -- One of the two sides has no power of two, which bounds both products.
  have hbound : x * gridSide e t ≤ 10 ^ 8 * 5 ^ 10 ∨ y * stepSide e t ≤ 2 ^ 25 * 5 ^ 11 := by
    rcases Int.le_total (t - 150 - e) 0 with hs | hs
    · have hnone : (t - 150 - e).toNat = 0 := by omega
      refine Or.inr (Nat.mul_le_mul hy ?_)
      rw [stepSide, hnone, Nat.pow_zero, Nat.mul_one]
      exact Nat.pow_le_pow_right (by decide) (by omega)
    · have hnone : (150 + e - t).toNat = 0 := by omega
      refine Or.inl (Nat.mul_le_mul hx ?_)
      rw [gridSide, hnone, Nat.pow_zero, Nat.mul_one]
      exact Nat.pow_le_pow_right (by decide) (by omega)
  omega

/-! ### The search -/

/-- Whether the half-way points up to a step are below the decimals of eight digits on a grid. -/
def before (e : Int) (t : Nat) : Bool :=
  2 ^ 25 * stepSide e t * 2 ^ 53 < 10 ^ 7 * gridSide e t * (2 ^ 53 - 3)

/-- Whether the half-way points from a step on are above them. -/
def after (e : Int) (t : Nat) : Bool :=
  10 ^ 8 * gridSide e t * (2 ^ 53 + 3) < 2 ^ 24 * stepSide e t * 2 ^ 53

/-- Whether a decimal and a half-way point, if they are close, are between codes that are read
back. -/
def readsBack (e : Int) (t x y : Nat) : Bool :=
  if x < 10 ^ 7 ∨ y % 2 = 0 ∨ 2 ^ 25 < y ∨ t ≠ 0 ∧ y < 2 ^ 24 then true
  else if 2 ^ 53 * (y * stepSide e t) + 3 * (x * gridSide e t) < 2 ^ 53 * (x * gridSide e t) then
    true
  else if 2 ^ 53 * (x * gridSide e t) + 3 * (x * gridSide e t) < 2 ^ 53 * (y * stepSide e t) then
    true
  else
    let code := t * 2 ^ 23 + y / 2
    rereadCode code == code && rereadCode (code + 1) == code + 1

/-- Whether all half-way points of a step are between codes that are read back, as far as a decimal
of a grid is close to them. -/
def settled (e : Int) (t : Nat) : Bool :=
  254 ≤ t || before e t || (t != 0 && after e t) ||
    ((Bracket.start (gridSide e t) (stepSide e t) (stepSide_pos e t)).narrow (10 ^ 8) 80).all
      (10 ^ 8) (3 * 10 ^ 8 * gridSide e t / 2 ^ 53) (readsBack e t)

/-- The first step whose half-way points are among the decimals of eight digits on a grid. -/
def firstStep (e : Int) : Nat := ((7 + e) * 3322 / 1000 + 126).toNat

/-- Whether a grid is settled: five steps are among its decimals. -/
def gridSettled (e : Int) : Bool :=
  let first := firstStep e
  (first == 0 || before e (first - 1)) && (249 ≤ first || after e (first + 5)) &&
    (List.range 5).all fun i => settled e (first + i)

theorem gridSettled_fine : ((List.range 42).all fun i => gridSettled (-12 - i)) = true := by
  decide +kernel

theorem gridSettled_coarse : ((List.range 21).all fun i => gridSettled (11 + i)) = true := by
  decide +kernel

/-! ### What the search says -/

theorem not_close_of_before (h : before e t = true) {s : Nat} (hs : s ≤ t) (hx : 10 ^ 7 ≤ x)
    (hy : y ≤ 2 ^ 25) : ¬ Close e s x y := by
  intro hclose
  obtain ⟨unit, hunit, hgrid, hstep⟩ := sides_spec e t
  have hbefore : 2 ^ 25 * stepSide e t * 2 ^ 53 < 10 ^ 7 * gridSide e t * (2 ^ 53 - 3) :=
    of_decide_eq_true h
  rw [← @Nat.cast_lt ℚ] at hbefore
  push_cast at hbefore
  rw [hgrid, hstep] at hbefore
  have hx' : (10 ^ 7 : ℚ) ≤ x := by exact_mod_cast hx
  have hy' : (y : ℚ) ≤ 2 ^ 25 := by exact_mod_cast hy
  have hgrids : (10 ^ 7 : ℚ) * 10 ^ e ≤ x * 10 ^ e := mul_le_mul_of_nonneg_right hx' (by positivity)
  have hsteps : (y * 2 ^ ((s : Int) - 150) : ℚ) ≤ 2 ^ 25 * 2 ^ ((t : Int) - 150) :=
    mul_le_mul hy' (zpow_le_zpow_right₀ (by norm_num) (by omega)) (by positivity) (by positivity)
  have hlow := hclose.1
  unfold Double.share at hlow
  have hless : (2 ^ 25 * 2 ^ ((t : Int) - 150) * 2 ^ 53 : ℚ) < 10 ^ 7 * 10 ^ e * (2 ^ 53 - 3) := by
    refine lt_of_mul_lt_mul_right ?_ hunit.le
    linarith
  linarith

theorem not_close_of_after (h : after e t = true) {s : Nat} (hs : t ≤ s) (hx : x ≤ 10 ^ 8)
    (hy : 2 ^ 24 ≤ y) : ¬ Close e s x y := by
  intro hclose
  obtain ⟨unit, hunit, hgrid, hstep⟩ := sides_spec e t
  have hafter : 10 ^ 8 * gridSide e t * (2 ^ 53 + 3) < 2 ^ 24 * stepSide e t * 2 ^ 53 :=
    of_decide_eq_true h
  rw [← @Nat.cast_lt ℚ] at hafter
  push_cast at hafter
  rw [hgrid, hstep] at hafter
  have hx' : (x : ℚ) ≤ 10 ^ 8 := by exact_mod_cast hx
  have hy' : (2 ^ 24 : ℚ) ≤ y := by exact_mod_cast hy
  have hgrids : (x * 10 ^ e : ℚ) ≤ 10 ^ 8 * 10 ^ e := mul_le_mul_of_nonneg_right hx' (by positivity)
  have hsteps : (2 ^ 24 * 2 ^ ((t : Int) - 150) : ℚ) ≤ y * 2 ^ ((s : Int) - 150) :=
    mul_le_mul hy' (zpow_le_zpow_right₀ (by norm_num) (by omega)) (by positivity) (by positivity)
  have hhigh := hclose.2
  unfold Double.share at hhigh
  have hless : (10 ^ 8 * 10 ^ e * (2 ^ 53 + 3) : ℚ) < 2 ^ 24 * 2 ^ ((t : Int) - 150) * 2 ^ 53 := by
    refine lt_of_mul_lt_mul_right ?_ hunit.le
    linarith
  linarith

/-- What a half-way point can be: odd, and of a step that its code can have. -/
structure Halfway (t y : Nat) : Prop where
  odd : y % 2 = 1
  le : y ≤ 2 ^ 25
  normal : t ≠ 0 → 2 ^ 24 ≤ y

theorem Close.of_settled (h : settled e t = true) (ht : t < 254) (hclose : Close e t x y)
    (hx : 10 ^ 7 ≤ x) (hx' : x ≤ 10 ^ 8) (hy : Halfway t y) :
    rereadCode (t * 2 ^ 23 + y / 2) = t * 2 ^ 23 + y / 2 ∧
      rereadCode (t * 2 ^ 23 + y / 2 + 1) = t * 2 ^ 23 + y / 2 + 1 := by
  simp only [settled, Bool.or_eq_true, Bool.and_eq_true, decide_eq_true_eq, bne_iff_ne] at h
  rcases h with ((h | h) | ⟨ht0, h⟩) | h
  · exact absurd h (Nat.not_le.mpr ht)
  · exact absurd hclose (not_close_of_before h (Nat.le_refl t) hx hy.le)
  · exact absurd hclose (not_close_of_after h (Nat.le_refl t) hx' (hy.normal ht0))
  · obtain ⟨hup, hdown⟩ := hclose.nat
    have hslack : 3 * (x * gridSide e t) ≤ 3 * 10 ^ 8 * gridSide e t := by
      rw [Nat.mul_assoc]
      exact Nat.mul_le_mul_left _ (Nat.mul_le_mul_right _ hx')
    have hup' : x * gridSide e t ≤
        y * stepSide e t + 3 * 10 ^ 8 * gridSide e t / 2 ^ 53 := by omega
    have hdown' : y * stepSide e t ≤
        x * gridSide e t + 3 * 10 ^ 8 * gridSide e t / 2 ^ 53 := by omega
    have htest := Bracket.of_all (stepSide_pos e t) h hx' hup' hdown'
    have hin : ¬ (x < 10 ^ 7 ∨ y % 2 = 0 ∨ 2 ^ 25 < y ∨ t ≠ 0 ∧ y < 2 ^ 24) := by
      have hodd := hy.odd
      have hle := hy.le
      have hnormal := hy.normal
      omega
    rw [readsBack, if_neg hin, if_neg (Nat.not_lt.mpr hup), if_neg (Nat.not_lt.mpr hdown)] at htest
    simpa using htest

/-- A decimal of eight digits close to a half-way point is between codes that are read back. -/
theorem Close.of_gridSettled (h : gridSettled e = true) (ht : t < 254) (hclose : Close e t x y)
    (hx : 10 ^ 7 ≤ x) (hx' : x ≤ 10 ^ 8) (hy : Halfway t y) :
    rereadCode (t * 2 ^ 23 + y / 2) = t * 2 ^ 23 + y / 2 ∧
      rereadCode (t * 2 ^ 23 + y / 2 + 1) = t * 2 ^ 23 + y / 2 + 1 := by
  simp only [gridSettled, Bool.and_eq_true, Bool.or_eq_true, decide_eq_true_eq, beq_iff_eq,
    List.all_eq_true, List.mem_range] at h
  obtain ⟨⟨hfirst, hlast⟩, hsteps⟩ := h
  generalize firstStep e = first at hfirst hlast hsteps
  rcases Nat.lt_or_ge t first with hlt | hge
  · have hbefore := hfirst.resolve_left (by omega)
    exact absurd hclose (not_close_of_before hbefore (by omega) hx hy.le)
  · rcases Nat.lt_or_ge t (first + 5) with hlt | hge'
    · have hsettled := hsteps (t - first) (by omega)
      rw [Nat.add_sub_cancel' hge] at hsettled
      exact hclose.of_settled hsettled ht hx hx' hy
    · have hafter := hlast.resolve_left (by omega)
      exact absurd hclose (not_close_of_after hafter hge' hx' (hy.normal (by omega)))

/-- A decimal of eight digits close to a half-way point is the half-way point, or the codes on both
sides are read back. -/
theorem Close.cases (h : Close e t x y) (hlow : -53 ≤ e) (hhigh : e ≤ 31) (ht : t < 254)
    (hx : 10 ^ 7 ≤ x) (hx' : x ≤ 10 ^ 8) (hy : Halfway t y) :
    x * gridSide e t = y * stepSide e t ∨
      rereadCode (t * 2 ^ 23 + y / 2) = t * 2 ^ 23 + y / 2 ∧
        rereadCode (t * 2 ^ 23 + y / 2 + 1) = t * 2 ^ 23 + y / 2 + 1 := by
  have hfine := List.all_eq_true.mp gridSettled_fine
  have hcoarse := List.all_eq_true.mp gridSettled_coarse
  by_cases hsmall : e < -11
  · have hsettled := hfine (-12 - e).toNat (List.mem_range.mpr (by omega))
    rw [show -12 - ((-12 - e).toNat : Int) = e by omega] at hsettled
    exact Or.inr (h.of_gridSettled hsettled ht hx hx' hy)
  by_cases hgreat : 10 < e
  · have hsettled := hcoarse (e - 11).toNat (List.mem_range.mpr (by omega))
    rw [show 11 + ((e - 11).toNat : Int) = e by omega] at hsettled
    exact Or.inr (h.of_gridSettled hsettled ht hx hx' hy)
  · exact Or.inl (h.eq (by omega) (by omega) hx' hy.le)

end RenderMesh.Json
