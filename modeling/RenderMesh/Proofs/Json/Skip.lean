import Mathlib.Data.List.DropRight
import Mathlib.Logic.Relation
import RenderMesh.Proofs.Json.Progress
import RenderMesh.Proofs.Json.Steady
import RenderMesh.Proofs.Json.Value

/-!
# Skipping as steps

Skipping a value is a run of steps, each of which passes a scalar, a bracket or what stands before
an entry. A run inside a value is a run inside whatever is around it, and it stays the same where
the text goes on. Every step takes a character, so a value is skipped just where there is a run
over it.
-/

namespace RenderMesh.Json

open Relation (ReflTransGen)
open Value (ne_of_startsLiteral)

variable {cs rest tail : List Char}

/-! ### Steps -/

/-- Where in a text skipping is: a value comes next, or something was passed, an opening bracket if
`first`, else a value. -/
inductive Place where
  | due
  | past (first : Bool)

/-- A text that is being skipped, with the brackets that are open around its start. -/
structure Skipping where
  place : Place
  brackets : List Bracket
  text : List Char

/-- Whether an entry follows, and where its value starts. -/
inductive Enters : (first : Bool) → Bracket → (cs rest : List Char) → Prop where
  | first {bracket : Bracket} {c : Char} {cs after rest : List Char}
      (skip : skipBlanks cs = c :: after) (inside : c ≠ bracket.closing)
      (start : skipEntryStart bracket (c :: after) = .ok ((), rest)) : Enters true bracket cs rest
  | later {bracket : Bracket} {cs after rest : List Char} (skip : skipBlanks cs = ',' :: after)
      (start : skipEntryStart bracket after = .ok ((), rest)) : Enters false bracket cs rest

/-- One step of skipping. -/
inductive Step : Skipping → Skipping → Prop where
  | scalar {outer : List Bracket} {cs rest : List Char}
      (plain : openingBracket (skipBlanks cs) = none)
      (scan : skipScalar (skipBlanks cs) = .ok ((), rest)) :
      Step ⟨.due, outer, cs⟩ ⟨.past false, outer, rest⟩
  | opened {bracket : Bracket} {outer : List Bracket} {cs rest : List Char}
      (opens : openingBracket (skipBlanks cs) = some (bracket, rest)) :
      Step ⟨.due, outer, cs⟩ ⟨.past true, bracket :: outer, rest⟩
  | entered {first : Bool} {bracket : Bracket} {outer : List Bracket} {cs rest : List Char}
      (enters : Enters first bracket cs rest) :
      Step ⟨.past first, bracket :: outer, cs⟩ ⟨.due, bracket :: outer, rest⟩
  | closed {first : Bool} {bracket : Bracket} {outer : List Bracket} {cs rest : List Char}
      (closes : skipBlanks cs = bracket.closing :: rest) :
      Step ⟨.past first, bracket :: outer, cs⟩ ⟨.past false, outer, rest⟩

/-- A text from which skipping passes a value, and what is left of it then. -/
def Skips (cs rest : List Char) : Prop := ReflTransGen Step ⟨.due, [], cs⟩ ⟨.past false, [], rest⟩

/-! ### Parts of the steps -/

theorem openingBracket_append (c : Char) (cs tail : List Char) :
    openingBracket (c :: cs ++ tail) =
      (openingBracket (c :: cs)).map fun p => (p.1, p.2 ++ tail) := by
  by_cases hlist : c = '['
  · subst hlist
    rfl
  by_cases hobject : c = '{'
  · subst hobject
    rfl
  simp [openingBracket, hlist, hobject]

theorem steady_skipEntryStart (bracket : Bracket) : Steady (skipEntryStart bracket) := by
  cases bracket with
  | list => exact steady_ok ()
  | object =>
    intro tail ht cs a rest h
    unfold skipEntryStart at h ⊢
    dsimp only at h ⊢
    split at h
    next => cases h
    next hskip =>
      rw [skipBlanks_append_of_cons hskip]
      exact (steady_skipString.bind fun _ => steady_colon) ht h
    next => cases h

theorem skipScalar_literal {c : Char} (h : startsLiteral c = true) (cs : List Char) :
    skipScalar (c :: cs) = (literal .invalidNumber (c :: cs)).map fun p => ((), p.2) := by
  have hne : ∀ d : Char, startsLiteral d = false → c ≠ d := fun d => ne_of_startsLiteral h
  unfold skipScalar
  split
  next heq => cases heq
  next heq => exact absurd (List.cons.inj heq).1 (hne _ rfl)
  next heq => exact absurd (List.cons.inj heq).1 (hne _ rfl)
  next heq => exact absurd (List.cons.inj heq).1 (hne _ rfl)
  next heq => exact absurd (List.cons.inj heq).1 (hne _ rfl)
  next heq =>
    cases heq
    rw [if_pos h]

/-- A scalar is a word, a string or a literal. -/
theorem skipScalar_cases {c : Char} {cs rest : List Char}
    (h : skipScalar (c :: cs) = .ok ((), rest)) :
    (∃ letters, (∀ more, skipScalar (c :: more) = word letters more)) ∨
      (∀ more, skipScalar (c :: more) = skipString more) ∨ startsLiteral c = true := by
  unfold skipScalar at h
  split at h
  next => cases h
  next heq =>
    cases heq
    exact Or.inl ⟨_, fun _ => rfl⟩
  next heq =>
    cases heq
    exact Or.inl ⟨_, fun _ => rfl⟩
  next heq =>
    cases heq
    exact Or.inl ⟨_, fun _ => rfl⟩
  next heq =>
    cases heq
    exact Or.inr (Or.inl fun _ => rfl)
  next heq =>
    cases heq
    split at h
    next hc => exact Or.inr (Or.inr hc)
    next => cases h

theorem steady_skipScalar : Steady skipScalar := by
  intro tail ht cs a rest h
  cases cs with
  | nil => cases h
  | cons c cs =>
    rw [List.cons_append]
    rcases skipScalar_cases h with ⟨letters, hword⟩ | hstring | hc
    · rw [hword] at h ⊢
      exact steady_word letters ht h
    · rw [hstring] at h ⊢
      exact steady_skipString ht h
    · rw [skipScalar_literal hc] at h ⊢
      exact ((steady_literal _).map fun _ => ()) ht h

theorem Enters.append {first : Bool} {bracket : Bracket} (h : Enters first bracket cs rest)
    (ht : Ends tail) : Enters first bracket (cs ++ tail) (rest ++ tail) := by
  cases h with
  | first skip inside start =>
    exact .first (skipBlanks_append_of_cons skip tail) inside
      (steady_skipEntryStart bracket ht start)
  | later skip start =>
    exact .later (skipBlanks_append_of_cons skip tail) (steady_skipEntryStart bracket ht start)

/-! ### Runs with more around them and more to come -/

namespace Skipping

/-- The same inside more brackets and with more text. -/
def inside (s : Skipping) (outer : List Bracket) (tail : List Char) : Skipping :=
  ⟨s.place, s.brackets ++ outer, s.text ++ tail⟩

end Skipping

theorem Step.inside {s t : Skipping} (h : Step s t) (outer : List Bracket) (ht : Ends tail) :
    Step (s.inside outer tail) (t.inside outer tail) := by
  cases h with
  | @scalar _ cs _ plain scan =>
    obtain ⟨c, more, hc⟩ : ∃ c more, skipBlanks cs = c :: more := by
      refine List.exists_cons_of_ne_nil fun hnil => ?_
      rw [hnil] at scan
      cases scan
    have hskip := skipBlanks_append_of_cons hc tail
    rw [hc] at plain scan
    refine .scalar ?_ ?_
    · rw [hskip, ← List.cons_append, openingBracket_append, plain]
      rfl
    · rw [hskip, ← List.cons_append]
      exact steady_skipScalar ht scan
  | @opened _ _ cs _ opens =>
    obtain ⟨c, more, hc⟩ : ∃ c more, skipBlanks cs = c :: more := by
      refine List.exists_cons_of_ne_nil fun hnil => ?_
      rw [hnil] at opens
      cases opens
    rw [hc] at opens
    refine .opened ?_
    rw [skipBlanks_append_of_cons hc tail, ← List.cons_append, openingBracket_append, opens]
    rfl
  | entered enters => exact .entered (enters.append ht)
  | closed closes => exact .closed (skipBlanks_append_of_cons closes tail)

theorem run_inside {s t : Skipping} (h : ReflTransGen Step s t) (outer : List Bracket)
    (ht : Ends tail) : ReflTransGen Step (s.inside outer tail) (t.inside outer tail) :=
  h.lift _ fun _ _ hstep => hstep.inside outer ht

/-- A value is passed inside whatever brackets are open. -/
theorem Skips.run (h : Skips cs rest) (outer : List Bracket) :
    ReflTransGen Step ⟨.due, outer, cs⟩ ⟨.past false, outer, rest⟩ := by
  have hrun := run_inside h outer ends_nil
  simpa [Skipping.inside] using hrun

theorem Skips.append (h : Skips cs rest) (ht : Ends tail) : Skips (cs ++ tail) (rest ++ tail) :=
  run_inside h [] ht

/-! ### Blanks before a value -/

theorem skipBlanks_skipBlanks (cs : List Char) : skipBlanks (skipBlanks cs) = skipBlanks cs :=
  List.dropWhile_idempotent isBlank cs

theorem Step.blanks {place : Place} {brackets : List Bracket} {t : Skipping} {other : List Char}
    (h : Step ⟨place, brackets, cs⟩ t) (hcs : skipBlanks other = skipBlanks cs) :
    Step ⟨place, brackets, other⟩ t := by
  cases h with
  | scalar plain scan => exact .scalar (hcs ▸ plain) (hcs ▸ scan)
  | opened opens => exact .opened (hcs ▸ opens)
  | entered enters =>
    cases enters with
    | first skip inside start => exact .entered (.first (hcs ▸ skip) inside start)
    | later skip start => exact .entered (.later (hcs ▸ skip) start)
  | closed closes => exact .closed (hcs ▸ closes)

theorem Skips.blanks {other : List Char} (h : Skips cs rest)
    (hcs : skipBlanks other = skipBlanks cs) : Skips other rest := by
  obtain heq | ⟨t, hstep, hrun⟩ := h.cases_head
  · cases heq
  · exact .head (hstep.blanks hcs) hrun

/-- A value does not start with a bracket that closes. -/
theorem Skips.starts (h : Skips cs rest) :
    ∃ c after, skipBlanks cs = c :: after ∧ ∀ bracket : Bracket, c ≠ bracket.closing := by
  obtain heq | ⟨t, hstep, _⟩ := h.cases_head
  · cases heq
  have hne : skipBlanks cs ≠ [] := by
    intro hnil
    cases hstep with
    | scalar plain scan =>
      rw [hnil] at scan
      cases scan
    | opened opens =>
      rw [hnil] at opens
      cases opens
  obtain ⟨c, after, hc⟩ := List.exists_cons_of_ne_nil hne
  refine ⟨c, after, hc, ?_⟩
  rintro bracket rfl
  cases hstep with
  | scalar plain scan =>
    rw [hc] at scan
    cases bracket <;> cases scan
  | opened opens =>
    rw [hc] at opens
    cases bracket <;> cases opens

/-! ### Every step takes a character -/

theorem length_skipEntryStart {bracket : Bracket}
    (h : skipEntryStart bracket cs = .ok ((), rest)) : rest.length ≤ cs.length := by
  cases bracket with
  | list =>
    cases h
    exact Nat.le_refl _
  | object =>
    have hlength := length_skipBlanks_le cs
    unfold skipEntryStart at h
    dsimp only at h
    split at h
    next => cases h
    next hskip =>
      obtain ⟨⟨_, left⟩, hstring, h⟩ := bind_eq_ok.mp h
      have hname := length_skipString hstring
      have hcolon : rest.length < left.length := length_colon h
      rw [hskip, List.length_cons] at hlength
      omega
    next => cases h

theorem length_skipScalar (h : skipScalar cs = .ok ((), rest)) : rest.length < cs.length := by
  cases cs with
  | nil => cases h
  | cons c cs =>
    rcases skipScalar_cases h with ⟨letters, hword⟩ | hstring | hc
    · rw [hword] at h
      exact Nat.lt_succ_of_le (length_word h)
    · rw [hstring] at h
      exact Nat.lt_succ_of_lt (length_skipString h)
    · rw [skipScalar_literal hc] at h
      obtain ⟨⟨l, left⟩, hl, hpair⟩ := map_eq_ok.mp h
      cases hpair
      exact length_literal hl

/-! ### The machine -/

/-- Whatever is skipped is skipped in steps. -/
theorem run_of_skipWithin {bound : List Char} {due : Bool} {outer : List Bracket}
    (h : skipWithin bound due outer cs = .ok ((), rest)) :
    ReflTransGen Step ⟨if due then .due else .past false, outer, cs⟩ ⟨.past false, [], rest⟩ := by
  induction bound generalizing due outer cs with
  | nil =>
    cases due with
    | true => cases h
    | false =>
      cases outer with
      | nil =>
        cases h
        exact .refl
      | cons bracket outer => cases h
  | cons b bound ih =>
    cases due with
    | true =>
      rw [skipWithin] at h
      split at h
      next hplain =>
        obtain ⟨⟨_, left⟩, hscan, h⟩ := bind_eq_ok.mp h
        exact .head (.scalar hplain hscan) (ih h)
      next bracket after hopens =>
        split at h
        next => cases h
        next c later hskip =>
          split at h
          next hc =>
            exact .head (.opened hopens) (.head (.closed (hc ▸ hskip)) (ih h))
          next hc =>
            obtain ⟨⟨_, left⟩, hstart, h⟩ := bind_eq_ok.mp h
            exact .head (.opened hopens) (.head (.entered (.first hskip hc hstart)) (ih h))
    | false =>
      cases outer with
      | nil =>
        cases h
        exact .refl
      | cons bracket outer =>
        rw [skipWithin] at h
        split at h
        next => cases h
        next c later hskip =>
          split at h
          next hc =>
            obtain ⟨⟨_, left⟩, hstart, h⟩ := bind_eq_ok.mp h
            exact .head (.entered (.later (hc ▸ hskip) hstart)) (ih h)
          split at h
          next hc => exact .head (.closed (hc ▸ hskip)) (ih h)
          next => cases h

/-- What is left to do in a skipped text. -/
def remaining (bound : List Char) : Skipping → Except Fault (Unit × List Char)
  | ⟨.due, outer, cs⟩ => skipWithin bound true outer cs
  | ⟨.past false, outer, cs⟩ => skipWithin bound false outer cs
  | ⟨.past true, [], _⟩ => .error .expectedValue
  | ⟨.past true, bracket :: outer, cs⟩ =>
    match skipBlanks cs with
    | [] => .error bracket.unfinished
    | c :: rest =>
      if c = bracket.closing then skipWithin bound false outer rest
      else do
        let (_, rest) ← skipEntryStart bracket (c :: rest)
        skipWithin bound true (bracket :: outer) rest

theorem skipWithin_done (bound : List Char) (cs : List Char) :
    skipWithin bound false [] cs = .ok ((), cs) := by
  cases bound <;> rfl

theorem length_openingBracket {bracket : Bracket} (h : openingBracket cs = some (bracket, rest)) :
    rest.length < cs.length := by
  unfold openingBracket at h
  split at h
  next =>
    cases h
    exact Nat.lt_succ_self _
  next =>
    cases h
    exact Nat.lt_succ_self _
  next => cases h

/-- A bound that covers a text covers a shorter one after a character is taken from it. -/
theorem exists_shorter {bound : List Char} (h : rest.length < cs.length)
    (hb : cs.length ≤ bound.length) : ∃ b left, bound = b :: left ∧ rest.length ≤ left.length := by
  obtain ⟨b, left, rfl⟩ := List.exists_cons_of_length_pos (show 0 < bound.length by omega)
  exact ⟨b, left, rfl, by rw [List.length_cons] at hb; omega⟩

/-- After a step there is as much left to do as the step did not do. -/
theorem remaining_of_step {s t : Skipping} (h : Step s t) {bound : List Char}
    (hb : s.text.length ≤ bound.length) : ∃ left, t.text.length ≤ left.length ∧
      ∀ {result}, remaining left t = .ok result → remaining bound s = .ok result := by
  cases h with
  | @scalar outer cs rest plain scan =>
    have hlength := Nat.lt_of_lt_of_le (length_skipScalar scan) (length_skipBlanks_le cs)
    obtain ⟨b, left, rfl, hleft⟩ := exists_shorter hlength hb
    refine ⟨left, hleft, fun hrest => ?_⟩
    rw [remaining, skipWithin, plain]
    exact bind_eq_ok.mpr ⟨_, scan, hrest⟩
  | @opened bracket outer cs rest opens =>
    have hlength := Nat.lt_of_lt_of_le (length_openingBracket opens) (length_skipBlanks_le cs)
    obtain ⟨b, left, rfl, hleft⟩ := exists_shorter hlength hb
    refine ⟨left, hleft, fun hrest => ?_⟩
    rw [remaining, skipWithin, opens]
    exact hrest
  | entered enters =>
    cases enters with
    | first skip inside start =>
      -- The list before its first entry is the one place that takes nothing from the bound.
      have hlength := length_of_skipBlanks skip
      have hstart := length_skipEntryStart start
      refine ⟨bound, by simp only [List.length_cons] at hb hstart ⊢; omega, fun hrest => ?_⟩
      rw [remaining, skip]
      dsimp only
      rw [if_neg inside]
      exact bind_eq_ok.mpr ⟨_, start, hrest⟩
    | later skip start =>
      have hlength := Nat.lt_of_le_of_lt (length_skipEntryStart start) (length_of_skipBlanks skip)
      obtain ⟨b, left, rfl, hleft⟩ := exists_shorter hlength hb
      refine ⟨left, hleft, fun hrest => ?_⟩
      rw [remaining, skipWithin, skip]
      exact bind_eq_ok.mpr ⟨_, start, hrest⟩
  | @closed first bracket outer cs rest closes =>
    have hlength := length_of_skipBlanks closes
    cases first with
    | true =>
      refine ⟨bound, Nat.le_trans (Nat.le_of_lt hlength) hb, fun hrest => ?_⟩
      rw [remaining, closes]
      dsimp only
      rw [if_pos rfl]
      exact hrest
    | false =>
      have hcomma : bracket.closing ≠ ',' := by cases bracket <;> decide
      obtain ⟨b, left, rfl, hleft⟩ := exists_shorter hlength hb
      refine ⟨left, hleft, fun hrest => ?_⟩
      rw [remaining, skipWithin, closes]
      dsimp only
      rw [if_neg hcomma, if_pos rfl]
      exact hrest

theorem remaining_of_run {s : Skipping} (h : ReflTransGen Step s ⟨.past false, [], rest⟩)
    {bound : List Char} (hb : s.text.length ≤ bound.length) :
    remaining bound s = .ok ((), rest) := by
  induction h using ReflTransGen.head_induction_on generalizing bound with
  | refl => exact skipWithin_done bound rest
  | head hstep _ ih =>
    obtain ⟨left, hleft, hremaining⟩ := remaining_of_step hstep hb
    exact hremaining (ih hleft)

/-- A value is skipped just where there is a run over it. -/
theorem skipValue_iff : skipValue cs = .ok ((), rest) ↔ Skips cs rest :=
  ⟨run_of_skipWithin, fun h => remaining_of_run h (Nat.le_refl cs.length)⟩

theorem steady_skipValue : Steady skipValue :=
  fun _ ht _ _ _ h => skipValue_iff.mpr ((skipValue_iff.mp h).append ht)

/-- Skipping leaves one text. -/
theorem Skips.unique {other : List Char} (h : Skips cs rest) (h' : Skips cs other) :
    rest = other := by
  have heq := (skipValue_iff.mpr h).symm.trans (skipValue_iff.mpr h')
  cases heq
  rfl

end RenderMesh.Json
