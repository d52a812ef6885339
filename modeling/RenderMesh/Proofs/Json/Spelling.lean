import RenderMesh.Json.Text
import RenderMesh.Proofs.Outcome

/-!
# What strings spell

The characters that stand for others between the quotes of a string, said without a reader. Four
hexadecimal digits name a character or half a pair of surrogates, and a half alone spells nothing.
-/

namespace RenderMesh.Json

variable {cs body chars rest : List Char}

/-- An escape after its backslash and the character that it stands for. -/
inductive Escaped : List Char → Char → Prop where
  | letter {c d : Char} (known : escapedLetter? c = some d) : Escaped [c] d
  | unit {word : List Char} {n : Nat} (hex : hexWord word = .ok (n, []))
      (low : isLowSurrogate n = false) (high : isHighSurrogate n = false) :
      Escaped ('u' :: word) (Char.ofNat n)
  | pair {word other : List Char} {n m : Nat} (hex : hexWord word = .ok (n, []))
      (more : hexWord other = .ok (m, [])) (high : isHighSurrogate n = true)
      (low : isLowSurrogate m = true) : Escaped ('u' :: (word ++ '\\' :: 'u' :: other))
        (Char.ofNat ((n - 0xD800) * 0x400 + (m - 0xDC00) + 0x10000))

/-- What stands between the quotes of a string and the characters that it spells. -/
inductive Denotes : (body chars : List Char) → Prop where
  | nil : Denotes [] []
  | plain {c : Char} {body chars : List Char} (quote : c ≠ '"') (slash : c ≠ '\\')
      (control : ¬c < ' ') (more : Denotes body chars) : Denotes (c :: body) (c :: chars)
  | escaped {escape body chars : List Char} {c : Char} (one : Escaped escape c)
      (more : Denotes body chars) : Denotes ('\\' :: (escape ++ body)) (c :: chars)

/-! ### Escapes -/

theorem hexWord_iff {n : Nat} : hexWord cs = .ok (n, rest) ↔
    ∃ word, cs = word ++ rest ∧ hexWord word = .ok (n, []) := by
  constructor
  · intro h
    unfold hexWord at h
    split at h
    next a b c d more =>
      split at h
      next ha hb hc hd =>
        cases h
        exact ⟨[a, b, c, d], rfl, by simp only [hexWord, ha, hb, hc, hd]⟩
      next => cases h
    next =>
      split at h
      all_goals cases h
  · rintro ⟨word, rfl, h⟩
    unfold hexWord at h
    split at h
    next a b c d more =>
      split at h
      next ha hb hc hd =>
        cases h
        simp only [List.cons_append, List.nil_append, hexWord, ha, hb, hc, hd]
      next => cases h
    next =>
      split at h
      all_goals cases h

theorem unicodeEscape_unit {n : Nat} (hex : hexWord cs = .ok (n, rest))
    (low : isLowSurrogate n = false) (high : isHighSurrogate n = false) :
    unicodeEscape cs = .ok (Char.ofNat n, rest) := by
  refine bind_eq_ok.mpr ⟨_, hex, ?_⟩
  dsimp only
  rw [low, high]
  rfl

theorem unicodeEscape_pair {n m : Nat} (hex : hexWord cs = .ok (n, '\\' :: 'u' :: body))
    (more : hexWord body = .ok (m, rest)) (high : isHighSurrogate n = true)
    (low : isLowSurrogate m = true) : unicodeEscape cs =
      .ok (Char.ofNat ((n - 0xD800) * 0x400 + (m - 0xDC00) + 0x10000), rest) := by
  have hlow : isLowSurrogate n = false := by
    simp only [isHighSurrogate, isLowSurrogate, Bool.and_eq_true, Bool.and_eq_false_iff,
      decide_eq_true_eq, decide_eq_false_iff_not] at high ⊢
    omega
  have hpair : lowSurrogate ('\\' :: 'u' :: body) = .ok (m, rest) := by
    refine bind_eq_ok.mpr ⟨_, more, ?_⟩
    dsimp only
    rw [low]
    rfl
  refine bind_eq_ok.mpr ⟨_, hex, ?_⟩
  dsimp only
  rw [hlow, high]
  exact bind_eq_ok.mpr ⟨_, hpair, rfl⟩

theorem Escaped.read {text : List Char} {c : Char} (h : Escaped text c) (rest : List Char) :
    escape unicodeEscape (text ++ rest) = .ok (c, rest) := by
  cases h with
  | @letter letter _ known =>
    have hne : letter ≠ 'u' := by
      rintro rfl
      cases known
    simp [escape, known]
  | unit hex low high => exact unicodeEscape_unit (hexWord_iff.mpr ⟨_, rfl, hex⟩) low high
  | @pair word other n m hex more high low =>
    have hword : hexWord ((word ++ '\\' :: 'u' :: other) ++ rest) =
        .ok (n, '\\' :: 'u' :: (other ++ rest)) := hexWord_iff.mpr ⟨word, by simp, hex⟩
    exact unicodeEscape_pair hword (hexWord_iff.mpr ⟨other, rfl, more⟩) high low

theorem exists_pair {m : Nat} (h : lowSurrogate cs = .ok (m, rest)) :
    ∃ other, cs = '\\' :: 'u' :: (other ++ rest) ∧ hexWord other = .ok (m, []) ∧
      isLowSurrogate m = true := by
  unfold lowSurrogate at h
  split at h
  next more =>
    obtain ⟨⟨low, left⟩, hword, h⟩ := bind_eq_ok.mp h
    dsimp only at h
    split at h
    next hlow =>
      cases h
      obtain ⟨other, rfl, hother⟩ := hexWord_iff.mp hword
      exact ⟨other, rfl, hother, hlow⟩
    next => cases h
  all_goals cases h

theorem exists_escaped_of_unicode {c : Char} (h : unicodeEscape cs = .ok (c, rest)) :
    ∃ text, cs = text ++ rest ∧ Escaped ('u' :: text) c := by
  obtain ⟨⟨n, left⟩, hscan, hunit⟩ := bind_eq_ok.mp h
  obtain ⟨word, rfl, hword⟩ := hexWord_iff.mp hscan
  dsimp only at hunit
  split at hunit
  next => cases hunit
  next hlow =>
    split at hunit
    next hhigh =>
      obtain ⟨⟨m, more⟩, hsecond, hpair⟩ := bind_eq_ok.mp hunit
      obtain ⟨rfl, rfl⟩ := Prod.mk.inj (Except.ok.inj hpair)
      obtain ⟨other, rfl, hother, hm⟩ := exists_pair hsecond
      exact ⟨word ++ '\\' :: 'u' :: other, by simp, .pair hword hother hhigh hm⟩
    next hhigh =>
      cases hunit
      exact ⟨word, rfl, .unit hword (by simpa using hlow) (by simpa using hhigh)⟩

theorem exists_escaped {c : Char} (h : escape unicodeEscape cs = .ok (c, rest)) :
    ∃ text, cs = text ++ rest ∧ Escaped text c := by
  unfold escape at h
  split at h
  next => cases h
  next =>
    obtain ⟨text, rfl, htext⟩ := exists_escaped_of_unicode h
    exact ⟨'u' :: text, rfl, htext⟩
  next letter _ _ =>
    split at h
    next hletter =>
      cases h
      exact ⟨[letter], rfl, .letter hletter⟩
    next => cases h

/-! ### Strings -/

theorem Denotes.charsWithin (h : Denotes body chars) (bound : List Char)
    (hb : body.length < bound.length) (done rest : List Char) :
    charsWithin unicodeEscape bound done (body ++ '"' :: rest) =
      .ok (done.reverse ++ chars, rest) := by
  induction h generalizing bound done with
  | nil =>
    obtain ⟨b, bound, rfl⟩ := List.exists_cons_of_length_pos hb
    rw [List.append_nil]
    rfl
  | @plain c body chars quote slash control _ ih =>
    obtain ⟨b, bound, rfl⟩ := List.exists_cons_of_length_pos (Nat.zero_lt_of_lt hb)
    have hmore := ih bound (Nat.lt_of_succ_lt_succ hb) (c :: done)
    rw [List.reverse_cons, List.append_assoc] at hmore
    rw [List.cons_append, Json.charsWithin, if_neg quote, if_neg slash, if_neg control]
    exact hmore
  | @escaped text body chars c one _ ih =>
    obtain ⟨b, bound, rfl⟩ := List.exists_cons_of_length_pos (Nat.zero_lt_of_lt hb)
    have hbound : body.length < bound.length := by
      simp only [List.length_cons, List.length_append] at hb
      omega
    have hmore := ih bound hbound (c :: done)
    rw [List.reverse_cons, List.append_assoc] at hmore
    rw [List.cons_append, List.append_assoc, Json.charsWithin, if_neg (by decide), if_pos rfl,
      one.read]
    exact hmore

theorem exists_denoted {bound done found : List Char}
    (h : charsWithin unicodeEscape bound done cs = .ok (found, rest)) :
    ∃ body chars,
      cs = body ++ '"' :: rest ∧ found = done.reverse ++ chars ∧ Denotes body chars := by
  -- The bound is what the reader recurses on; every character moves one to what is done.
  induction bound generalizing cs done with
  | nil => cases h
  | cons b bound ih =>
    cases cs with
    | nil => cases h
    | cons c cs =>
      rw [charsWithin] at h
      split at h
      next hquote =>
        cases h
        exact ⟨[], [], by rw [hquote]; rfl, (List.append_nil _).symm, .nil⟩
      next hquote =>
        split at h
        next hslash =>
          split at h
          next d left hescape =>
            obtain ⟨text, rfl, hone⟩ := exists_escaped hescape
            obtain ⟨body, chars, rfl, rfl, hmore⟩ := ih h
            exact ⟨'\\' :: (text ++ body), d :: chars, by simp [hslash], by simp,
              .escaped hone hmore⟩
          next => cases h
        next hslash =>
          split at h
          next => cases h
          next hcontrol =>
            obtain ⟨body, chars, rfl, rfl, hmore⟩ := ih h
            exact ⟨c :: body, c :: chars, rfl, by simp, .plain hquote hslash hcontrol hmore⟩

/-- A string is read as what it spells, and what spells nothing is not read. -/
theorem stringRest_iff {name : String} : stringRest cs = .ok (name, rest) ↔
    ∃ body, cs = body ++ '"' :: rest ∧ Denotes body name.toList := by
  constructor
  · intro h
    obtain ⟨⟨chars, left⟩, hchars, h⟩ := bind_eq_ok.mp h
    cases h
    obtain ⟨body, chars, rfl, rfl, hbody⟩ := exists_denoted hchars
    exact ⟨body, rfl, by simpa using hbody⟩
  · rintro ⟨body, rfl, hbody⟩
    have hchars := hbody.charsWithin (body ++ '"' :: rest) (by simp) [] rest
    refine bind_eq_ok.mpr ⟨_, hchars, ?_⟩
    simp [pure, Except.pure]

end RenderMesh.Json
