import RenderMesh.Json.Skip
import RenderMesh.Proofs.Json.Sequence
import RenderMesh.Proofs.Json.Spelling
import RenderMesh.Proofs.Outcome

/-!
# Reading on

Where a text goes on, a reader that has found its value finds the same and leaves what it left and
the text after it. Only a number can swallow what follows, so that has to end one.
-/

namespace RenderMesh.Json

variable {α β : Type} {scan : Scanner α} {cs rest tail : List Char} {a : α}

/-- A scanner that finds the same where the text goes on. -/
def Steady (scan : Scanner α) : Prop :=
  ∀ ⦃tail⦄, Ends tail → ∀ ⦃cs a rest⦄, scan cs = .ok (a, rest) →
    scan (cs ++ tail) = .ok (a, rest ++ tail)

theorem steady_ok (a : α) : Steady fun cs => .ok (a, cs) := by
  intro tail _ cs b rest h
  cases h
  rfl

theorem steady_error (fault : Fault) :
    Steady fun _ : List Char => (.error fault : Except _ (α × _)) :=
  fun _ _ _ _ _ h => nomatch h

theorem Steady.bind (h : Steady scan) {next : α → Scanner β} (hnext : ∀ a, Steady (next a)) :
    Steady fun cs => scan cs >>= fun p => next p.1 p.2 := by
  intro tail ht cs b rest hb
  obtain ⟨p, hp, hb⟩ := bind_eq_ok.mp hb
  exact bind_eq_ok.mpr ⟨_, h ht hp, hnext p.1 ht hb⟩

theorem Steady.map (h : Steady scan) (f : α → β) :
    Steady fun cs => (scan cs).map fun p => (f p.1, p.2) := by
  intro tail ht cs b rest hb
  obtain ⟨p, hp, hpair⟩ := map_eq_ok.mp hb
  cases hpair
  exact map_eq_ok.mpr ⟨_, h ht hp, rfl⟩

theorem Steady.ite {other : Scanner α} (c : Prop) [Decidable c] (h : Steady scan)
    (hother : Steady other) : Steady fun cs => if c then scan cs else other cs := by
  split
  · exact h
  · exact hother

/-! ### Blanks and words -/

/-- Blanks end at the same character. -/
theorem skipBlanks_append_of_cons {c : Char} (h : skipBlanks cs = c :: rest) (tail : List Char) :
    skipBlanks (cs ++ tail) = c :: (rest ++ tail) := by
  rw [skipBlanks] at h
  rw [skipBlanks, List.dropWhile_append, h]
  rfl

theorem steady_word (letters : List Char) : Steady (word letters) := by
  induction letters with
  | nil => exact steady_ok ()
  | cons letter letters ih =>
    intro tail ht cs a rest h
    cases cs with
    | nil => cases h
    | cons c cs => exact (ih.ite (c = letter) (steady_error .expectedWord)) ht h

/-! ### Strings -/

theorem steady_hexWord : Steady hexWord := by
  intro tail _ cs n rest h
  obtain ⟨word, rfl, hword⟩ := hexWord_iff.mp h
  exact hexWord_iff.mpr ⟨word, List.append_assoc _ _ _, hword⟩

theorem steady_escape {unicode : Scanner Char} (h : Steady unicode) : Steady (escape unicode) := by
  intro tail ht cs c rest hc
  unfold escape at hc
  split at hc
  next => cases hc
  next => exact h ht hc
  next hne =>
    split at hc
    next hletter =>
      cases hc
      simp only [List.cons_append, escape, hletter]
    next => cases hc

/-- A string is read the same with a greater bound too. -/
theorem charsWithin_append {unicode : Scanner Char} (h : Steady unicode) (ht : Ends tail)
    {bound done cs chars : List Char} (hc : charsWithin unicode bound done cs = .ok (chars, rest))
    (more : List Char) :
    charsWithin unicode (bound ++ more) done (cs ++ tail) = .ok (chars, rest ++ tail) := by
  induction bound generalizing done cs with
  | nil => simp [charsWithin] at hc
  | cons b bound ih =>
    cases cs with
    | nil => simp [charsWithin] at hc
    | cons c cs =>
      rw [charsWithin] at hc
      rw [List.cons_append, List.cons_append, charsWithin]
      split at hc
      next hquote =>
        cases hc
        rw [if_pos hquote]
      split at hc
      next hquote hslash =>
        rw [if_neg hquote, if_pos hslash]
        split at hc
        next hescape =>
          rw [steady_escape h ht hescape]
          exact ih hc
        next => cases hc
      split at hc
      next => cases hc
      next hquote hslash hcontrol =>
        rw [if_neg hquote, if_neg hslash, if_neg hcontrol]
        exact ih hc

theorem steady_stringRest : Steady stringRest := by
  intro tail _ cs text rest h
  obtain ⟨body, rfl, hbody⟩ := stringRest_iff.mp h
  exact stringRest_iff.mpr ⟨body, List.append_assoc _ _ _, hbody⟩

theorem steady_skipString : Steady skipString := by
  have hunit : Steady fun cs => (hexWord cs).map fun p => (' ', p.2) :=
    steady_hexWord.map fun _ => ' '
  intro tail ht cs text rest h
  obtain ⟨p, hp, h⟩ := bind_eq_ok.mp h
  cases h
  exact bind_eq_ok.mpr ⟨_, charsWithin_append hunit ht hp tail, rfl⟩

/-! ### Numbers -/

theorem digits_go_on (cs : List Char) (ht : Ends tail) :
    (cs ++ tail).takeWhile Char.isDigit = cs.takeWhile Char.isDigit ∧
      (cs ++ tail).dropWhile Char.isDigit = cs.dropWhile Char.isDigit ++ tail := by
  induction cs with
  | nil =>
    cases tail with
    | nil => exact ⟨rfl, rfl⟩
    | cons c tail => simp [(ht c rfl).1]
  | cons c cs ih => cases hc : c.isDigit <;> simp [hc, ih]

theorem steady_digits (ended : Fault) : Steady (digits ended) := by
  intro tail ht cs found rest h
  cases cs with
  | nil => cases h
  | cons c cs =>
    rw [digits] at h
    split at h
    next hc =>
      cases h
      rw [List.cons_append, digits, if_pos hc, (digits_go_on cs ht).1, (digits_go_on cs ht).2]
    next => cases h

theorem steady_wholeDigits (ended : Fault) : Steady (wholeDigits ended) := by
  have hlead : ∀ found : List Char, Steady fun cs =>
      if 1 < found.length && found.head? = some '0' then .error Fault.invalidNumber
      else .ok (found, cs) :=
    fun found => (steady_error _).ite _ (steady_ok found)
  exact (steady_digits ended).bind hlead

theorem steady_fractionDigits (ended : Fault) : Steady (fractionDigits ended) := by
  intro tail ht cs found rest h
  unfold fractionDigits at h
  split at h
  next => exact steady_digits ended ht h
  next hpoint =>
    cases h
    unfold fractionDigits
    split
    next more heq =>
      -- The point would have to be the first of the text that follows.
      cases cs with
      | nil => exact absurd rfl (ht '.' (by rw [← List.nil_append tail, heq]; rfl)).2.1
      | cons c cs => exact absurd (List.cons.inj heq).1 fun hc => hpoint cs (hc ▸ rfl)
    next => rfl

theorem exponentSign_go_on (c : Char) (cs tail : List Char) :
    exponentSign (c :: cs ++ tail) =
      ((exponentSign (c :: cs)).1, (exponentSign (c :: cs)).2 ++ tail) := by
  by_cases hplus : c = '+'
  · subst hplus
    rfl
  by_cases hminus : c = '-'
  · subst hminus
    rfl
  simp [exponentSign, hplus, hminus]

theorem steady_exponentPart (ended : Fault) : Steady (exponentPart ended) := by
  intro tail ht cs found rest h
  cases cs with
  | nil =>
    cases h
    cases tail with
    | nil => rfl
    | cons c tail => simp [exponentPart, (ht c rfl).2.2]
  | cons c cs =>
    rw [exponentPart] at h
    rw [List.cons_append, exponentPart]
    split at h
    next he =>
      rw [if_pos he]
      obtain ⟨⟨found, left⟩, hdigits, h⟩ := bind_eq_ok.mp h
      cases h
      cases cs with
      | nil => cases hdigits
      | cons sign cs =>
        rw [exponentSign_go_on]
        exact bind_eq_ok.mpr ⟨_, steady_digits ended ht hdigits, rfl⟩
    next he =>
      cases h
      rw [if_neg he]
      rfl

theorem steady_literalRest (ended : Fault) (negative : Bool) :
    Steady (literalRest ended negative) := by
  intro tail ht cs l rest h
  obtain ⟨⟨whole, afterWhole⟩, hwhole, h⟩ := bind_eq_ok.mp h
  obtain ⟨⟨fraction, afterFraction⟩, hfraction, h⟩ := bind_eq_ok.mp h
  obtain ⟨⟨exponent, left⟩, hexponent, h⟩ := bind_eq_ok.mp h
  cases h
  exact bind_eq_ok.mpr ⟨_, steady_wholeDigits ended ht hwhole, bind_eq_ok.mpr
    ⟨_, steady_fractionDigits ended ht hfraction, bind_eq_ok.mpr
      ⟨_, steady_exponentPart ended ht hexponent, rfl⟩⟩⟩

theorem steady_literal (ended : Fault) : Steady (literal ended) := by
  intro tail ht cs l rest h
  cases cs with
  | nil => cases h
  | cons c cs =>
    by_cases hc : c = '-'
    · subst hc
      exact steady_literalRest ended true ht h
    · have hplain : ∀ cs, literal ended (c :: cs) = literalRest ended false (c :: cs) := by
        intro cs
        simp [literal, hc]
      rw [hplain] at h
      rw [List.cons_append, hplain]
      exact steady_literalRest ended false ht h

theorem steady_number : Steady number := by
  intro tail ht cs n rest h
  obtain ⟨⟨l, left⟩, hl, h⟩ := bind_eq_ok.mp h
  obtain ⟨m, hm, h⟩ := bind_eq_ok.mp h
  cases h
  exact bind_eq_ok.mpr ⟨_, steady_literal _ ht hl, bind_eq_ok.mpr ⟨_, hm, rfl⟩⟩

/-! ### Between the parts of lists and objects -/

theorem steady_anotherEntry (first : Bool) : Steady (anotherEntry first) := by
  intro tail ht cs more rest h
  unfold anotherEntry at h ⊢
  split at h
  next => cases h
  next after hskip =>
    cases h
    rw [skipBlanks_append_of_cons hskip]
    rfl
  next c after hclose hskip =>
    rw [skipBlanks_append_of_cons hskip]
    split
    next heq => cases heq
    next heq => exact absurd (List.cons.inj heq).1 hclose
    next heq =>
      cases heq
      split at h
      next hfirst =>
        cases h
        rw [if_pos hfirst]
        rfl
      split at h
      next hfirst hcomma =>
        rw [if_neg hfirst, if_pos hcomma]
        split at h
        next => cases h
        next => cases h
        next hnil hnext =>
          obtain ⟨d, later, hd⟩ := List.exists_cons_of_ne_nil hnil
          cases h
          rw [skipBlanks_append_of_cons hd, hd]
          split
          next heq => cases heq
          next heq => exact absurd (hd.trans (by rw [(List.cons.inj heq).1])) (hnext later)
          next => rfl
      next => cases h

theorem steady_closeList : Steady closeList := by
  intro tail ht cs a rest h
  unfold closeList at h
  split at h
  next => cases h
  next hskip =>
    cases h
    rw [closeList, skipBlanks_append_of_cons hskip]
    rfl
  next =>
    split at h
    all_goals cases h
  next => cases h

theorem steady_closeObject : Steady closeObject := by
  intro tail ht cs a rest h
  unfold closeObject at h
  split at h
  next => cases h
  next hskip =>
    cases h
    rw [closeObject, skipBlanks_append_of_cons hskip]
    rfl
  all_goals cases h

theorem steady_colon : Steady colon := by
  intro tail ht cs a rest h
  unfold colon at h
  split at h
  next => cases h
  next hskip =>
    cases h
    rw [colon, skipBlanks_append_of_cons hskip]
    rfl
  next => cases h

theorem steady_nextName (first : Bool) : Steady (nextName first) := by
  have hname : Steady fun cs => (stringRest cs).map fun p => (some p.1, p.2) :=
    steady_stringRest.map some
  intro tail ht cs name? rest h
  unfold nextName at h ⊢
  split at h
  next => cases h
  next after hskip =>
    cases h
    rw [skipBlanks_append_of_cons hskip]
    rfl
  next c after hclose hskip =>
    rw [skipBlanks_append_of_cons hskip]
    split
    next heq => cases heq
    next heq => exact absurd (List.cons.inj heq).1 hclose
    next heq =>
      cases heq
      split at h
      next hfirst =>
        rw [if_pos hfirst]
        split at h
        next hquote =>
          rw [if_pos hquote]
          exact hname ht h
        next => cases h
      split at h
      next hfirst hcomma =>
        rw [if_neg hfirst, if_pos hcomma]
        split at h
        next => cases h
        next hskip =>
          rw [skipBlanks_append_of_cons hskip]
          exact hname ht h
        all_goals cases h
      next => cases h

/-! ### Lists -/

theorem entriesWithin_append {entry : Scanner α} (h : Steady entry) (ht : Ends tail) {first : Bool}
    {bound : List Char} {done found : List α}
    (hf : entriesWithin entry bound first done cs = .ok (found, rest)) (more : List Char) :
    entriesWithin entry (bound ++ more) first done (cs ++ tail) = .ok (found, rest ++ tail) := by
  induction bound generalizing first done cs with
  | nil => cases hf
  | cons b bound ih =>
    obtain ⟨⟨another, afterGap⟩, hgap, hf⟩ := bind_eq_ok.mp hf
    refine bind_eq_ok.mpr ⟨_, steady_anotherEntry first ht hgap, ?_⟩
    cases another with
    | true =>
      obtain ⟨⟨a, afterEntry⟩, hentry, hf⟩ := bind_eq_ok.mp hf
      exact bind_eq_ok.mpr ⟨_, h ht hentry, ih hf⟩
    | false =>
      obtain ⟨⟨_, left⟩, hclose, hf⟩ := bind_eq_ok.mp hf
      cases hf
      exact bind_eq_ok.mpr ⟨_, steady_closeList ht hclose, rfl⟩

theorem Steady.entries {entry : Scanner α} (h : Steady entry) : Steady (entries entry) :=
  fun tail ht _ _ _ hf => entriesWithin_append h ht hf tail

end RenderMesh.Json
