import RenderMesh.Number.Binary

/-!
# Numerical order

Numbers of a format are ordered as their keys are. NaN has no place in the order, and zeros of both
signs have the same.
-/

namespace RenderMesh

namespace Binary

variable {f : FloatFormat} {x y z : Binary f}

/-- Numerical order; zeros of both signs are equal, and NaN is at most nothing. -/
def AtMost (x y : Binary f) : Prop := x.less y = true ∨ x.equal y = true

theorem AtMost.less_of_less (h : x.AtMost y) (hless : y.less z = true) : x.less z = true := by
  simp only [AtMost, less, equal, Bool.and_eq_true, Bool.not_eq_true', decide_eq_true_eq,
    beq_iff_eq] at h hless ⊢
  obtain ⟨⟨_, hz⟩, hyz⟩ := hless
  rcases h with ⟨⟨hx, _⟩, hxy⟩ | ⟨⟨hx, _⟩, hxy⟩
  · exact ⟨⟨hx, hz⟩, Int.lt_trans hxy hyz⟩
  · exact ⟨⟨hx, hz⟩, hxy ▸ hyz⟩

theorem atMost_iff_key (hx : x.isNaN = false) (hy : y.isNaN = false) :
    x.AtMost y ↔ x.key ≤ y.key := by
  simp only [AtMost, less, equal, hx, hy, Bool.not_false, Bool.and_true, Bool.true_and,
    decide_eq_true_eq, beq_iff_eq]
  exact Int.le_iff_lt_or_eq.symm

theorem equal_iff_key (hx : x.isNaN = false) (hy : y.isNaN = false) :
    x.equal y = true ↔ x.key = y.key := by
  simp [equal, hx, hy]

end Binary

end RenderMesh
