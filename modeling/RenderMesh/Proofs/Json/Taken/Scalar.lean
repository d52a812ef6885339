import RenderMesh.Json.Codec
import RenderMesh.Proofs.Json.Grammar

/-!
# What codecs take of a text

A codec that reads a value takes just the text that skipping passes, and finds the same value
wherever the text goes on. So a value that is read alone is read in its place, and what comes after
it does not depend on whether it was asked for.
-/

namespace RenderMesh.Json

open Relation (ReflTransGen)

variable {α β σ : Type} {cs rest : List Char}

/-- A reader of values: blanks before a value do not matter to it, and neither does what follows. -/
structure Takes (scan : Scanner α) : Prop where
  blanks : ∀ cs, scan (skipBlanks cs) = scan cs
  steady : Steady scan
  skips : ∀ {cs a rest}, scan cs = .ok (a, rest) → Skips cs rest

/-! ### Strings -/

theorem skipString_of_stringRest {text : String} (h : stringRest cs = .ok (text, rest)) :
    skipString cs = .ok ((), rest) := by
  obtain ⟨body, rfl, hbody⟩ := stringRest_iff.mp h
  exact hbody.stringBody.skipString rest

/-- A name that is read is passed with the colon after it. -/
theorem skipEntryStart_of_stringRest {name : String} {mid : List Char}
    (h : stringRest cs = .ok (name, mid)) (hcolon : colon mid = .ok ((), rest)) :
    skipEntryStart .object ('"' :: cs) = .ok ((), rest) :=
  bind_eq_ok.mpr ⟨_, skipString_of_stringRest h, hcolon⟩

theorem skips_scalar {c : Char} {after : List Char} (hskip : skipBlanks cs = c :: after)
    (hplain : openingBracket (c :: after) = none) (h : skipScalar (c :: after) = .ok ((), rest)) :
    Skips cs rest := .single (.scalar (hskip ▸ hplain) (hskip ▸ h))

namespace Codec

theorem takes_string : Takes string.read := by
  refine ⟨fun cs => by simp only [string, skipBlanks_skipBlanks], ?_, ?_⟩
  · intro tail ht cs text rest h
    unfold string at h ⊢
    dsimp only at h ⊢
    split at h
    next hskip =>
      rw [skipBlanks_append_of_cons hskip]
      exact steady_stringRest ht h
    next => cases h
  · intro cs text rest h
    unfold string at h
    dsimp only at h
    split at h
    next hskip => exact skips_scalar hskip rfl (skipString_of_stringRest h)
    next => cases h

theorem takes_bool : Takes bool.read := by
  have hword : ∀ letters (value : Bool), Steady fun cs => (Json.word letters cs).map fun p =>
      (value, p.2) := fun letters value => (steady_word letters).map fun _ => value
  refine ⟨fun cs => by simp only [bool, skipBlanks_skipBlanks], ?_, ?_⟩
  · intro tail ht cs value rest h
    unfold bool at h ⊢
    dsimp only at h ⊢
    split at h
    next hskip =>
      rw [skipBlanks_append_of_cons hskip]
      exact hword _ true ht h
    next hskip =>
      rw [skipBlanks_append_of_cons hskip]
      exact hword _ false ht h
    next => cases h
  · intro cs value rest h
    unfold bool at h
    dsimp only at h
    split at h
    next hskip =>
      obtain ⟨⟨_, left⟩, hword, hpair⟩ := map_eq_ok.mp h
      cases hpair
      exact skips_scalar hskip rfl hword
    next hskip =>
      obtain ⟨⟨_, left⟩, hword, hpair⟩ := map_eq_ok.mp h
      cases hpair
      exact skips_scalar hskip rfl hword
    next => cases h

end Codec

/-! ### Numbers -/

/-- A value that is looked at after it was read. -/
theorem Takes.check {scan : Scanner α} (h : Takes scan) {other : Scanner β} (f : α → Except Fault β)
    (hother : ∀ cs, other cs = scan cs >>= fun p => (f p.1).map fun b => (b, p.2)) :
    Takes other := by
  refine ⟨fun cs => by rw [hother, hother, h.blanks], ?_, ?_⟩
  · intro tail ht cs b rest hb
    obtain ⟨p, hp, hb⟩ := bind_eq_ok.mp ((hother cs).symm.trans hb)
    obtain ⟨c, hc, hpair⟩ := map_eq_ok.mp hb
    cases hpair
    exact (hother _).trans (bind_eq_ok.mpr ⟨_, h.steady ht hp, map_eq_ok.mpr ⟨_, hc, rfl⟩⟩)
  · intro cs b rest hb
    obtain ⟨p, hp, hb⟩ := bind_eq_ok.mp ((hother cs).symm.trans hb)
    obtain ⟨c, hc, hpair⟩ := map_eq_ok.mp hb
    cases hpair
    exact h.skips hp

theorem Takes.map {scan : Scanner α} (h : Takes scan) (f : α → β) :
    Takes fun cs => (scan cs).map fun p => (f p.1, p.2) :=
  h.check (fun a => .ok (f a)) fun cs => by cases scan cs <;> rfl

section

variable (ended other : Fault)

theorem toOption_digits (cs : List Char) :
    (digits ended cs).toOption = (digits other cs).toOption := by cases cs <;> rfl

theorem toOption_wholeDigits (cs : List Char) :
    (wholeDigits ended cs).toOption = (wholeDigits other cs).toOption := by
  rw [wholeDigits, wholeDigits, toOption_bind, toOption_bind, toOption_digits ended other]

theorem toOption_fractionDigits (cs : List Char) :
    (fractionDigits ended cs).toOption = (fractionDigits other cs).toOption := by
  unfold fractionDigits
  split
  · exact toOption_digits ended other _
  · rfl

theorem toOption_exponentPart (cs : List Char) :
    (exponentPart ended cs).toOption = (exponentPart other cs).toOption := by
  cases cs with
  | nil => rfl
  | cons c cs =>
    rw [exponentPart, exponentPart]
    split
    · rw [toOption_bind, toOption_bind, toOption_digits ended other]
    · rfl

theorem toOption_literalRest (negative : Bool) (cs : List Char) :
    (literalRest ended negative cs).toOption = (literalRest other negative cs).toOption := by
  simp only [literalRest, toOption_bind, toOption_wholeDigits ended other,
    toOption_fractionDigits ended other, toOption_exponentPart ended other]

/-- Which fault stands for an early end does not matter to a literal that is read. -/
theorem toOption_literal (cs : List Char) :
    (literal ended cs).toOption = (literal other cs).toOption := by
  unfold literal
  split
  all_goals exact toOption_literalRest ended other _ _

end

theorem takes_readNumber (wanted : String) : Takes (Codec.readNumber wanted) := by
  refine ⟨fun cs => by simp only [Codec.readNumber, skipBlanks_skipBlanks], ?_, ?_⟩
  · intro tail ht cs n rest h
    unfold Codec.readNumber at h ⊢
    split at h
    next => cases h
    next c after hskip =>
      rw [skipBlanks_append_of_cons hskip]
      split at h
      next hc =>
        dsimp only
        rw [if_pos hc]
        exact steady_number ht h
      next => cases h
  · intro cs n rest h
    unfold Codec.readNumber at h
    split at h
    next => cases h
    next c after hskip =>
      split at h
      next hc =>
        obtain ⟨⟨l, left⟩, hl, h⟩ := bind_eq_ok.mp h
        obtain ⟨m, _, h⟩ := bind_eq_ok.mp h
        cases h
        have hliteral := toOption_eq_some.mp
          ((toOption_literal .invalidNumber (.unfinished .value) _).trans (congrArg _ hl))
        have hne : ∀ d : Char, startsLiteral d = false → c ≠ d :=
          fun d => Value.ne_of_startsLiteral hc
        refine skips_scalar hskip (by simp [openingBracket, hne '[' rfl, hne '{' rfl]) ?_
        rw [skipScalar_literal hc]
        exact map_eq_ok.mpr ⟨_, hliteral, rfl⟩
      next => cases h

namespace Codec

theorem takes_natural (limit : Nat) (wanted : String) : Takes (natural limit wanted).read := by
  refine (takes_readNumber wanted).check (fun
    | .double x => .error (.wrongType (.double x) wanted)
    | .integer i =>
      if 0 ≤ i ∧ i ≤ limit then .ok i.toNat else .error (.outOfRange i wanted)) fun cs => ?_
  refine bind_congr fun p => ?_
  obtain ⟨value, rest⟩ := p
  cases value with
  | integer i =>
    dsimp only
    split <;> rfl
  | double x => rfl

theorem takes_single : Takes single.read := by
  refine (takes_readNumber "f32").check (fun
    | .double x => .ok x.narrow
    | .integer i => .ok (.ofInt i)) fun cs => ?_
  refine bind_congr fun p => ?_
  obtain ⟨value, rest⟩ := p
  cases value <;> rfl

theorem takes_byte : Takes byte.read := (takes_natural _ _).map _

theorem takes_word : Takes word.read := (takes_natural _ _).map _

end Codec

end RenderMesh.Json
