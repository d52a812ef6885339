import RenderMesh.Json.Skip
import RenderMesh.Proofs.Outcome

/-!
# How much a scanner leaves

A scanner leaves no more than it was given, and less where it has to take a character.
-/

namespace RenderMesh.Json

variable {cs rest : List Char}

theorem length_skipBlanks_le (cs : List Char) : (skipBlanks cs).length ≤ cs.length :=
  (List.dropWhile_suffix _).length_le

theorem length_of_skipBlanks {c : Char} (h : skipBlanks cs = c :: rest) :
    rest.length < cs.length := by
  have hlength := length_skipBlanks_le cs
  rw [h] at hlength
  exact hlength

theorem length_word {letters : List Char} (h : word letters cs = .ok ((), rest)) :
    rest.length ≤ cs.length := by
  induction letters generalizing cs with
  | nil =>
    cases h
    exact Nat.le_refl _
  | cons letter letters ih =>
    cases cs with
    | nil => cases h
    | cons c cs =>
      rw [word] at h
      split at h
      next => exact Nat.le_succ_of_le (ih h)
      next => cases h

theorem length_hexWord {n : Nat} (h : hexWord cs = .ok (n, rest)) : rest.length ≤ cs.length := by
  unfold hexWord at h
  split at h
  next =>
    split at h
    next =>
      cases h
      simp only [List.length_cons]
      omega
    next => cases h
  next =>
    split at h
    all_goals cases h

theorem length_escape {unicode : Scanner Char}
    (hu : ∀ {cs c rest}, unicode cs = .ok (c, rest) → rest.length ≤ cs.length) {c : Char}
    (h : escape unicode cs = .ok (c, rest)) : rest.length ≤ cs.length := by
  unfold escape at h
  split at h
  next => cases h
  next => exact Nat.le_succ_of_le (hu h)
  next =>
    split at h
    next =>
      cases h
      exact Nat.le_succ _
    next => cases h

theorem length_charsWithin {unicode : Scanner Char}
    (hu : ∀ {cs c rest}, unicode cs = .ok (c, rest) → rest.length ≤ cs.length)
    {bound done chars : List Char} (h : charsWithin unicode bound done cs = .ok (chars, rest)) :
    rest.length < cs.length := by
  induction bound generalizing done cs with
  | nil => simp [charsWithin] at h
  | cons b bound ih =>
    cases cs with
    | nil => simp [charsWithin] at h
    | cons c cs =>
      rw [charsWithin] at h
      rw [List.length_cons]
      split at h
      next =>
        cases h
        exact Nat.lt_succ_self _
      split at h
      next =>
        split at h
        next hescape =>
          have hlength := length_escape hu hescape
          have hrest := ih h
          omega
        next => cases h
      split at h
      next => cases h
      next => exact Nat.lt_succ_of_lt (ih h)

theorem length_skipString (h : skipString cs = .ok ((), rest)) : rest.length < cs.length := by
  obtain ⟨⟨chars, left⟩, hchars, h⟩ := bind_eq_ok.mp h
  cases h
  refine length_charsWithin (fun hu => ?_) hchars
  obtain ⟨⟨n, left⟩, hword, hpair⟩ := map_eq_ok.mp hu
  cases hpair
  exact length_hexWord hword

theorem length_digits {ended : Fault} {found : List Char}
    (h : digits ended cs = .ok (found, rest)) : rest.length < cs.length := by
  cases cs with
  | nil => cases h
  | cons c cs =>
    rw [digits] at h
    split at h
    next =>
      cases h
      exact Nat.lt_succ_of_le (List.dropWhile_suffix _).length_le
    next => cases h

theorem length_wholeDigits {ended : Fault} {found : List Char}
    (h : wholeDigits ended cs = .ok (found, rest)) : rest.length < cs.length := by
  obtain ⟨⟨whole, left⟩, hdigits, h⟩ := bind_eq_ok.mp h
  dsimp only at h
  split at h
  next => cases h
  next =>
    cases h
    exact length_digits hdigits

theorem length_fractionDigits {ended : Fault} {found : List Char}
    (h : fractionDigits ended cs = .ok (found, rest)) : rest.length ≤ cs.length := by
  unfold fractionDigits at h
  split at h
  next => exact Nat.le_succ_of_le (Nat.le_of_lt (length_digits h))
  next =>
    cases h
    exact Nat.le_refl _

theorem length_exponentSign (cs : List Char) : (exponentSign cs).2.length ≤ cs.length := by
  unfold exponentSign
  split
  all_goals simp

theorem length_exponentPart {ended : Fault} {found : Option Int}
    (h : exponentPart ended cs = .ok (found, rest)) : rest.length ≤ cs.length := by
  cases cs with
  | nil =>
    cases h
    exact Nat.le_refl _
  | cons c cs =>
    rw [exponentPart] at h
    split at h
    next =>
      obtain ⟨⟨found, left⟩, hdigits, h⟩ := bind_eq_ok.mp h
      cases h
      have hsign := length_exponentSign cs
      have hlength : rest.length < (exponentSign cs).2.length := length_digits hdigits
      rw [List.length_cons]
      omega
    next =>
      cases h
      exact Nat.le_refl _

theorem length_literalRest {ended : Fault} {negative : Bool} {l : Literal}
    (h : literalRest ended negative cs = .ok (l, rest)) : rest.length < cs.length := by
  obtain ⟨⟨whole, afterWhole⟩, hwhole, h⟩ := bind_eq_ok.mp h
  obtain ⟨⟨fraction, afterFraction⟩, hfraction, h⟩ := bind_eq_ok.mp h
  obtain ⟨⟨exponent, left⟩, hexponent, h⟩ := bind_eq_ok.mp h
  cases h
  exact Nat.lt_of_le_of_lt
    (Nat.le_trans (length_exponentPart hexponent) (length_fractionDigits hfraction))
    (length_wholeDigits hwhole)

theorem length_literal {ended : Fault} {l : Literal}
    (h : literal ended cs = .ok (l, rest)) : rest.length < cs.length := by
  unfold literal at h
  split at h
  · exact Nat.lt_succ_of_lt (length_literalRest h)
  · exact length_literalRest h

theorem length_colon (h : colon cs = .ok ((), rest)) : rest.length < cs.length := by
  have hlength := length_skipBlanks_le cs
  unfold colon at h
  split at h
  next => cases h
  next hskip =>
    cases h
    rw [hskip] at hlength
    exact hlength
  next => cases h

end RenderMesh.Json
