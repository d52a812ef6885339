import RenderMesh.Json.Text
import RenderMesh.Json.Tree

/-!
# Strings and their text

Every character is read back from what stands for it in a string, be it an escape or not, so a
string is read back from its text.
-/

namespace RenderMesh.Json

theorem hexDigit?_digitChar : ∀ d, d < 16 → hexDigit? (Nat.digitChar d) = some d := by decide

theorem escapedChar_ne_nil (c : Char) : escapedChar c ≠ [] := by
  unfold escapedChar
  repeat' split
  all_goals exact List.cons_ne_nil _ _

/-- Four digits of a control character. -/
theorem unicodeEscape_control {c : Char} (h : c < ' ') (more : List Char) :
    unicodeEscape
        ('0' :: '0' :: Nat.digitChar (c.toNat / 16) :: Nat.digitChar (c.toNat % 16) :: more) =
      .ok (c, more) := by
  have hlt : c.toNat < 32 := h
  have hhigh := hexDigit?_digitChar (c.toNat / 16) (by omega)
  have hlow := hexDigit?_digitChar (c.toNat % 16) (by omega)
  have hzero : hexDigit? '0' = some 0 := rfl
  have hvalue : ((0 * 16 + 0) * 16 + c.toNat / 16) * 16 + c.toNat % 16 = c.toNat := by omega
  have hword : hexWord
      ('0' :: '0' :: Nat.digitChar (c.toNat / 16) :: Nat.digitChar (c.toNat % 16) :: more) =
        .ok (c.toNat, more) := by
    simp only [hexWord, hzero, hhigh, hlow, hvalue]
  have hnotLow : isLowSurrogate c.toNat = false := by
    simp only [isLowSurrogate, Bool.and_eq_false_iff, decide_eq_false_iff_not]
    omega
  have hnotHigh : isHighSurrogate c.toNat = false := by
    simp only [isHighSurrogate, Bool.and_eq_false_iff, decide_eq_false_iff_not]
    omega
  simp only [unicodeEscape, hword, bind, Except.bind, hnotLow, hnotHigh]
  simp [pure, Except.pure]

theorem charsWithin_escaped (b c : Char) (bound done more : List Char) :
    charsWithin unicodeEscape (b :: bound) done (escapedChar c ++ more) =
      charsWithin unicodeEscape bound (c :: done) more := by
  unfold escapedChar
  split
  next h =>
    rcases (by simpa using h : c = '"' ∨ c = '\\') with rfl | rfl
    all_goals rfl
  split
  next h => subst h; rfl
  split
  next h => subst h; rfl
  split
  next h => subst h; rfl
  split
  next h => subst h; rfl
  split
  next h => subst h; rfl
  split
  next h =>
    have hu := unicodeEscape_control h more
    simp only [List.cons_append, List.nil_append]
    simp [charsWithin, escape, hu]
  next hplain _ _ _ _ _ hcontrol =>
    have hne : c ≠ '"' ∧ c ≠ '\\' := by simpa using hplain
    simp only [List.cons_append, List.nil_append]
    rw [charsWithin, if_neg hne.1, if_neg hne.2, if_neg hcontrol]

theorem charsWithin_text (chars bound done rest : List Char) (h : chars.length < bound.length) :
    charsWithin unicodeEscape bound done (chars.flatMap escapedChar ++ '"' :: rest) =
      .ok (done.reverse ++ chars, rest) := by
  induction chars generalizing bound done with
  | nil =>
    cases bound with
    | nil => exact absurd h (Nat.lt_irrefl 0)
    | cons b bound => simp [charsWithin]
  | cons c chars ih =>
    cases bound with
    | nil => exact absurd h (Nat.not_lt_zero _)
    | cons b bound =>
      rw [List.flatMap_cons, List.append_assoc, charsWithin_escaped,
        ih bound (c :: done) (Nat.lt_of_succ_lt_succ h), List.reverse_cons, List.append_assoc]
      rfl

theorem length_le_flatMap_escapedChar (chars : List Char) :
    chars.length ≤ (chars.flatMap escapedChar).length := by
  induction chars with
  | nil => exact Nat.le_refl _
  | cons c chars ih =>
    have hc := List.length_pos_iff.mpr (escapedChar_ne_nil c)
    rw [List.flatMap_cons, List.length_append, List.length_cons]
    omega

/-- A string is read back from its text, after the opening quote. -/
theorem stringRest_text (text : String) (rest : List Char) :
    stringRest (text.toList.flatMap escapedChar ++ '"' :: rest) = .ok (text, rest) := by
  have hbound : text.toList.length < (text.toList.flatMap escapedChar ++ '"' :: rest).length := by
    have hlength := length_le_flatMap_escapedChar text.toList
    rw [List.length_append, List.length_cons]
    omega
  simp only [stringRest, charsWithin_text _ _ [] rest hbound, bind, Except.bind]
  simp [pure, Except.pure]

theorem stringText_append (text : String) (rest : List Char) :
    stringText text ++ rest = '"' :: (text.toList.flatMap escapedChar ++ '"' :: rest) := by
  simp [stringText]

end RenderMesh.Json
