import RenderMesh.Proofs.Json.Taken.Scalar

/-!
# What records take of a text

Lists, records and named members are read part by part, and each part passes what skipping passes.
A member that nobody asks for and one that is read are the same to what comes after them.
-/

namespace RenderMesh.Json

open Relation (ReflTransGen)

variable {α σ : Type} {cs rest : List Char}

/-! ### Between parts -/

theorem enters_of_anotherEntry {first : Bool} (h : anotherEntry first cs = .ok (true, rest)) :
    ∃ inner, Enters first .list cs inner ∧ skipBlanks rest = skipBlanks inner := by
  unfold anotherEntry at h
  split at h
  next => cases h
  next => cases h
  next c after hclose hskip =>
    split at h
    next hfirst =>
      cases h
      subst hfirst
      exact ⟨_, .first hskip hclose rfl, rfl⟩
    split at h
    next hfirst hcomma =>
      rw [Bool.not_eq_true] at hfirst
      subst hfirst hcomma
      split at h
      next => cases h
      next => cases h
      next =>
        cases h
        exact ⟨_, .later hskip rfl, skipBlanks_skipBlanks _⟩
    next => cases h

theorem closing_of_anotherEntry {first : Bool} {mid : List Char}
    (h : anotherEntry first cs = .ok (false, mid)) (hclose : closeList mid = .ok ((), rest)) :
    skipBlanks cs = ']' :: rest := by
  unfold anotherEntry at h
  split at h
  next => cases h
  next after hskip =>
    cases h
    have hrest : closeList (']' :: after) = .ok ((), after) := rfl
    rw [hrest] at hclose
    cases hclose
    exact hskip
  next =>
    split at h
    next => cases h
    split at h
    next =>
      split at h
      all_goals cases h
    next => cases h

theorem enters_of_nextName {first : Bool} {name : String} {mid : List Char}
    (h : nextName first cs = .ok (some name, mid)) (hcolon : colon mid = .ok ((), rest)) :
    Enters first .object cs rest := by
  have hname : ∀ {after : List Char} {name? : Option String},
      (stringRest after).map (fun p => (some p.1, p.2)) = .ok (name?, mid) →
        skipEntryStart .object ('"' :: after) = .ok ((), rest) := by
    intro after name? hmap
    obtain ⟨⟨name, left⟩, hstring, hpair⟩ := map_eq_ok.mp hmap
    cases hpair
    exact skipEntryStart_of_stringRest hstring hcolon
  unfold nextName at h
  split at h
  next => cases h
  next => cases h
  next c after hclose hskip =>
    split at h
    next hfirst =>
      subst hfirst
      split at h
      next hquote =>
        subst hquote
        exact .first hskip hclose (hname h)
      next => cases h
    split at h
    next hfirst hcomma =>
      rw [Bool.not_eq_true] at hfirst
      subst hfirst hcomma
      split at h
      next => cases h
      next later hlater =>
        refine .later hskip ?_
        have hsame : skipEntryStart .object after = skipEntryStart .object ('"' :: later) := by
          rw [skipEntryStart, hlater]
          rfl
        rw [hsame]
        exact hname h
      next => cases h
      next => cases h
    next => cases h

theorem closing_of_nextName {first : Bool} {mid : List Char}
    (h : nextName first cs = .ok (none, mid)) (hclose : closeObject mid = .ok ((), rest)) :
    skipBlanks cs = '}' :: rest := by
  have hname : ∀ {after : List Char}, (stringRest after).map (fun p => (some p.1, p.2)) ≠
      .ok (none, mid) := by
    intro after hstring
    obtain ⟨p, _, hpair⟩ := map_eq_ok.mp hstring
    cases hpair
  unfold nextName at h
  split at h
  next => cases h
  next after hskip =>
    cases h
    have hrest : closeObject ('}' :: after) = .ok ((), after) := rfl
    rw [hrest] at hclose
    cases hclose
    exact hskip
  next =>
    split at h
    next =>
      split at h
      next => exact absurd h hname
      next => cases h
    split at h
    next =>
      split at h
      next => cases h
      next => exact absurd h hname
      all_goals cases h
    next => cases h

theorem closing_of_closeList (h : closeList cs = .ok ((), rest)) : skipBlanks cs = ']' :: rest := by
  unfold closeList at h
  split at h
  next => cases h
  next hskip =>
    cases h
    exact hskip
  next =>
    split at h
    all_goals cases h
  next => cases h

/-! ### Lists -/

theorem run_of_entriesWithin {entry : Scanner α} (h : Takes entry) {first : Bool}
    {bound : List Char} {done found : List α}
    (hf : entriesWithin entry bound first done cs = .ok (found, rest)) :
    ReflTransGen Step ⟨.past first, [.list], cs⟩ ⟨.past false, [], rest⟩ := by
  induction bound generalizing first done cs with
  | nil => cases hf
  | cons b bound ih =>
    obtain ⟨⟨another, afterGap⟩, hgap, hf⟩ := bind_eq_ok.mp hf
    cases another with
    | true =>
      obtain ⟨⟨a, afterEntry⟩, hentry, hf⟩ := bind_eq_ok.mp hf
      obtain ⟨inner, henters, hblanks⟩ := enters_of_anotherEntry hgap
      have hvalue := ((h.skips hentry).blanks hblanks.symm).run [.list]
      exact .head (.entered henters) (hvalue.trans (ih hf))
    | false =>
      obtain ⟨⟨_, left⟩, hclose, hf⟩ := bind_eq_ok.mp hf
      cases hf
      exact .single (.closed (closing_of_anotherEntry hgap hclose))

theorem skips_opened (bracket : Bracket) {after : List Char}
    (hskip : skipBlanks cs = bracket.opening :: after)
    (h : ReflTransGen Step ⟨.past true, [bracket], after⟩ ⟨.past false, [], rest⟩) :
    Skips cs rest := by
  refine .head (.opened ?_) h
  rw [hskip]
  cases bracket <;> rfl

theorem Codec.takes_array {codec : Codec α} (h : Takes codec.read) : Takes (array codec).read := by
  refine ⟨fun cs => by simp only [array, skipBlanks_skipBlanks], ?_, ?_⟩
  · intro tail ht cs found rest hf
    unfold array at hf ⊢
    dsimp only at hf ⊢
    split at hf
    next hskip =>
      rw [skipBlanks_append_of_cons hskip]
      exact (h.steady.entries.map List.toArray) ht hf
    next => cases hf
  · intro cs found rest hf
    unfold array at hf
    dsimp only at hf
    split at hf
    next hskip =>
      obtain ⟨p, hentries, hpair⟩ := map_eq_ok.mp hf
      cases hpair
      exact skips_opened .list hskip (run_of_entriesWithin h hentries)
    next => cases hf

/-! ### Fields in order -/

/-- Fields that are read as values. -/
abbrev FieldsTake (fields : List (RecordField σ)) : Prop := ∀ field ∈ fields, Takes field.read

theorem RecordField.takes_of {name : String} {codec : Codec α} {get : σ → α} {set : σ → α → σ}
    (h : Takes codec.read) : Takes (of name codec get set).read := h.map fun a s => set s a

theorem steady_entriesInto {fields : List (RecordField σ)} (h : FieldsTake fields)
    (whole : Option String) (read : Nat) (s : σ) : Steady (entriesInto whole read fields s) := by
  induction fields generalizing read s with
  | nil =>
    intro tail ht cs found rest hf
    obtain ⟨⟨_, left⟩, hclose, hf⟩ := bind_eq_ok.mp hf
    cases hf
    exact bind_eq_ok.mpr ⟨_, steady_closeList ht hclose, rfl⟩
  | cons field fields ih =>
    intro tail ht cs found rest hf
    obtain ⟨⟨another, afterGap⟩, hgap, hf⟩ := bind_eq_ok.mp hf
    refine bind_eq_ok.mpr ⟨_, steady_anotherEntry _ ht hgap, ?_⟩
    cases another with
    | true =>
      obtain ⟨⟨set, afterField⟩, hfield, hf⟩ := bind_eq_ok.mp hf
      have hsteady := (h field List.mem_cons_self).steady
      have hrest := ih (fun f hf => h f (List.mem_cons_of_mem _ hf)) (read + 1) (set s) ht hf
      exact bind_eq_ok.mpr ⟨_, hsteady ht hfield, hrest⟩
    | false =>
      cases whole with
      | some wanted => cases hf
      | none =>
        obtain ⟨⟨_, left⟩, hclose, hf⟩ := bind_eq_ok.mp hf
        cases hf
        exact bind_eq_ok.mpr ⟨_, steady_closeList ht hclose, rfl⟩

theorem run_of_entriesInto {fields : List (RecordField σ)} (h : FieldsTake fields)
    {whole : Option String} {read : Nat} {s found : σ}
    (hf : entriesInto whole read fields s cs = .ok (found, rest)) :
    ReflTransGen Step ⟨.past (read == 0), [.list], cs⟩ ⟨.past false, [], rest⟩ := by
  induction fields generalizing read s cs with
  | nil =>
    obtain ⟨⟨_, left⟩, hclose, hf⟩ := bind_eq_ok.mp hf
    cases hf
    exact .single (.closed (closing_of_closeList hclose))
  | cons field fields ih =>
    obtain ⟨⟨another, afterGap⟩, hgap, hf⟩ := bind_eq_ok.mp hf
    cases another with
    | true =>
      obtain ⟨⟨set, afterField⟩, hfield, hf⟩ := bind_eq_ok.mp hf
      obtain ⟨inner, henters, hblanks⟩ := enters_of_anotherEntry hgap
      have hskips := (h field List.mem_cons_self).skips hfield
      have hrest := ih (fun f hf => h f (List.mem_cons_of_mem _ hf)) hf
      exact .head (.entered henters) (((hskips.blanks hblanks.symm).run [.list]).trans hrest)
    | false =>
      cases whole with
      | some wanted => cases hf
      | none =>
        obtain ⟨⟨_, left⟩, hclose, hf⟩ := bind_eq_ok.mp hf
        cases hf
        exact .single (.closed (closing_of_anotherEntry hgap hclose))

theorem Codec.takes_tuple {wanted : String} {fields : List (RecordField σ)} {initial : σ}
    (h : FieldsTake fields) : Takes (tuple wanted fields initial).read := by
  refine ⟨fun cs => by simp only [tuple, skipBlanks_skipBlanks], ?_, ?_⟩
  · intro tail ht cs found rest hf
    unfold tuple at hf ⊢
    dsimp only at hf ⊢
    split at hf
    next hskip =>
      rw [skipBlanks_append_of_cons hskip]
      exact steady_entriesInto h _ 0 initial ht hf
    next => cases hf
  · intro cs found rest hf
    unfold tuple at hf
    dsimp only at hf
    split at hf
    next hskip => exact skips_opened .list hskip (run_of_entriesInto h hf)
    next => cases hf

/-! ### Records -/

namespace Record

variable {record : Record σ}

/-- What reading does with the value of a member: one of another name is skipped, and one of a
field that was not given before is read. -/
inductive ValueStep (record : Record σ) (name : String) : (seen : List String) → (s : σ) →
    (cs : List Char) → (seen' : List String) → (s' : σ) → (rest : List Char) → Prop where
  | other {seen : List String} {s : σ} {cs rest : List Char}
      (unknown : (record.fields.find? fun field => field.name == name) = none)
      (skip : skipValue cs = .ok ((), rest)) : ValueStep record name seen s cs seen s rest
  | field {seen : List String} {s : σ} {cs rest : List Char} {field : RecordField σ} {set : σ → σ}
      (known : (record.fields.find? fun field => field.name == name) = some field)
      (unseen : seen.contains name = false) (read : field.read cs = .ok (set, rest)) :
      ValueStep record name seen s cs (name :: seen) (set s) rest

theorem ValueStep.append (h : FieldsTake record.fields) {name : String} {seen seen' : List String}
    {s s' : σ} (hstep : record.ValueStep name seen s cs seen' s' rest) {tail : List Char}
    (ht : Ends tail) : record.ValueStep name seen s (cs ++ tail) seen' s' (rest ++ tail) := by
  cases hstep with
  | other unknown skip => exact .other unknown (steady_skipValue ht skip)
  | field known unseen read =>
    exact .field known unseen ((h _ (List.mem_of_find?_eq_some known)).steady ht read)

/-- A member passes the same text whether its value is skipped or read. -/
theorem ValueStep.skips (h : FieldsTake record.fields) {name : String} {seen seen' : List String}
    {s s' : σ} (hstep : record.ValueStep name seen s cs seen' s' rest) : Skips cs rest := by
  cases hstep with
  | other _ skip => exact skipValue_iff.mp skip
  | field known _ read => exact (h _ (List.mem_of_find?_eq_some known)).skips read

/-- Members that are read: the object ends, or a member is read and then the rest. -/
theorem membersInto_eq_ok_iff {b : Char} {bound : List Char} {first : Bool} {seen : List String}
    {s found : σ} : record.membersInto (b :: bound) first seen s cs = .ok (found, rest) ↔
    (∃ mid, nextName first cs = .ok (none, mid) ∧ record.missing? seen = none ∧
      closeObject mid = .ok ((), rest) ∧ found = s) ∨
    ∃ name afterName afterColon afterValue seen' s',
      nextName first cs = .ok (some name, afterName) ∧ colon afterName = .ok ((), afterColon) ∧
      record.ValueStep name seen s afterColon seen' s' afterValue ∧
      record.membersInto bound false seen' s' afterValue = .ok (found, rest) := by
  constructor
  · intro hf
    obtain ⟨⟨name?, afterName⟩, hname, hf⟩ := bind_eq_ok.mp hf
    cases name? with
    | none =>
      dsimp only at hf
      split at hf
      next => cases hf
      next hmissing =>
        obtain ⟨⟨_, left⟩, hclose, hf⟩ := bind_eq_ok.mp hf
        cases hf
        exact Or.inl ⟨afterName, hname, hmissing, hclose, rfl⟩
    | some name =>
      refine Or.inr ⟨name, afterName, ?_⟩
      dsimp only at hf
      split at hf
      next hfind =>
        obtain ⟨⟨_, afterColon⟩, hcolon, hf⟩ := bind_eq_ok.mp hf
        obtain ⟨⟨_, afterValue⟩, hvalue, hf⟩ := bind_eq_ok.mp hf
        exact ⟨afterColon, afterValue, seen, s, hname, hcolon, .other hfind hvalue, hf⟩
      next field hfind =>
        split at hf
        next => cases hf
        next hseen =>
          obtain ⟨⟨_, afterColon⟩, hcolon, hf⟩ := bind_eq_ok.mp hf
          obtain ⟨⟨set, afterValue⟩, hvalue, hf⟩ := bind_eq_ok.mp hf
          exact ⟨afterColon, afterValue, name :: seen, set s, hname, hcolon,
            .field hfind (by simpa using hseen) hvalue, hf⟩
  · rintro (⟨mid, hname, hmissing, hclose, rfl⟩ |
      ⟨name, afterName, afterColon, afterValue, seen', s', hname, hcolon, hstep, hf⟩)
    · refine bind_eq_ok.mpr ⟨_, hname, ?_⟩
      dsimp only
      rw [hmissing]
      exact bind_eq_ok.mpr ⟨_, hclose, rfl⟩
    · refine bind_eq_ok.mpr ⟨_, hname, ?_⟩
      dsimp only
      cases hstep with
      | other unknown skip =>
        rw [unknown]
        exact bind_eq_ok.mpr ⟨_, hcolon, bind_eq_ok.mpr ⟨_, skip, hf⟩⟩
      | field known unseen read =>
        rw [known]
        dsimp only
        rw [unseen]
        exact bind_eq_ok.mpr ⟨_, hcolon, bind_eq_ok.mpr ⟨_, read, hf⟩⟩

theorem membersInto_append (h : FieldsTake record.fields) {tail : List Char} (ht : Ends tail)
    {first : Bool} {bound : List Char} {seen : List String} {s found : σ}
    (hf : record.membersInto bound first seen s cs = .ok (found, rest)) (more : List Char) :
    record.membersInto (bound ++ more) first seen s (cs ++ tail) = .ok (found, rest ++ tail) := by
  induction bound generalizing first seen s cs with
  | nil => cases hf
  | cons b bound ih =>
    refine membersInto_eq_ok_iff.mpr ?_
    obtain ⟨mid, hname, hmissing, hclose, rfl⟩ |
      ⟨name, afterName, afterColon, afterValue, seen', s', hname, hcolon, hstep, hf⟩ :=
        membersInto_eq_ok_iff.mp hf
    · exact Or.inl ⟨_, steady_nextName first ht hname, hmissing, steady_closeObject ht hclose, rfl⟩
    · exact Or.inr ⟨_, _, _, _, _, _, steady_nextName first ht hname, steady_colon ht hcolon,
        hstep.append h ht, ih hf⟩

theorem run_of_membersInto (h : FieldsTake record.fields) {first : Bool} {bound : List Char}
    {seen : List String} {s found : σ}
    (hf : record.membersInto bound first seen s cs = .ok (found, rest)) :
    ReflTransGen Step ⟨.past first, [.object], cs⟩ ⟨.past false, [], rest⟩ := by
  induction bound generalizing first seen s cs with
  | nil => cases hf
  | cons b bound ih =>
    obtain ⟨mid, hname, _, hclose, rfl⟩ |
      ⟨name, afterName, afterColon, afterValue, seen', s', hname, hcolon, hstep, hf⟩ :=
        membersInto_eq_ok_iff.mp hf
    · exact .single (.closed (closing_of_nextName hname hclose))
    · exact .head (.entered (enters_of_nextName hname hcolon))
        (((hstep.skips h).run _).trans (ih hf))

theorem takes (h : FieldsTake record.fields) : Takes record.codec.read := by
  refine ⟨fun cs => by simp only [codec, skipBlanks_skipBlanks], ?_, ?_⟩
  · intro tail ht cs found rest hf
    unfold codec at hf ⊢
    dsimp only at hf ⊢
    split at hf
    next hskip =>
      rw [skipBlanks_append_of_cons hskip]
      exact steady_entriesInto h _ 0 record.initial ht hf
    next hskip =>
      rw [skipBlanks_append_of_cons hskip]
      exact membersInto_append h ht hf tail
    next => cases hf
  · intro cs found rest hf
    unfold codec at hf
    dsimp only at hf
    split at hf
    next hskip => exact skips_opened .list hskip (run_of_entriesInto h hf)
    next hskip => exact skips_opened .object hskip (run_of_membersInto h hf)
    next => cases hf

end Record

/-! ### Named members -/

namespace Codec

theorem steady_readName : Steady readName := by
  intro tail ht cs name rest h
  unfold readName at h ⊢
  split at h
  next => cases h
  next hskip =>
    rw [skipBlanks_append_of_cons hskip]
    exact steady_stringRest ht h
  all_goals cases h

theorem enters_of_readName {name : String} {mid : List Char} (h : readName cs = .ok (name, mid))
    (hcolon : colon mid = .ok ((), rest)) : Enters true .object cs rest := by
  unfold readName at h
  split at h
  next => cases h
  next hskip => exact .first hskip (by decide) (skipEntryStart_of_stringRest h hcolon)
  all_goals cases h

theorem takes_readNull : Takes readNull := by
  refine ⟨fun cs => by simp only [readNull, skipBlanks_skipBlanks], ?_, ?_⟩
  · intro tail ht cs a rest h
    unfold readNull at h ⊢
    split at h
    next hskip =>
      rw [skipBlanks_append_of_cons hskip]
      exact steady_word _ ht h
    next => cases h
  · intro cs a rest h
    unfold readNull at h
    split at h
    next hskip => exact skips_scalar hskip rfl h
    next => cases h

theorem steady_named [Named α] : Steady (named : Codec α).read := by
  intro tail ht cs a rest h
  unfold named at h ⊢
  dsimp only at h ⊢
  split at h
  next => cases h
  next hskip =>
    rw [skipBlanks_append_of_cons hskip]
    obtain ⟨⟨name, left⟩, hname, h⟩ := bind_eq_ok.mp h
    obtain ⟨a, ha, h⟩ := bind_eq_ok.mp h
    cases h
    exact bind_eq_ok.mpr ⟨_, steady_stringRest ht hname, bind_eq_ok.mpr ⟨_, ha, rfl⟩⟩
  next hskip =>
    rw [skipBlanks_append_of_cons hskip]
    obtain ⟨⟨name, afterName⟩, hname, h⟩ := bind_eq_ok.mp h
    obtain ⟨a, ha, h⟩ := bind_eq_ok.mp h
    obtain ⟨⟨_, afterColon⟩, hcolon, h⟩ := bind_eq_ok.mp h
    obtain ⟨⟨_, afterNull⟩, hnull, h⟩ := bind_eq_ok.mp h
    refine bind_eq_ok.mpr ⟨_, steady_readName ht hname, bind_eq_ok.mpr ⟨_, ha, bind_eq_ok.mpr
      ⟨_, steady_colon ht hcolon, bind_eq_ok.mpr ⟨_, takes_readNull.steady ht hnull, ?_⟩⟩⟩⟩
    dsimp only at h ⊢
    split at h
    next => cases h
    next hskip =>
      rw [skipBlanks_append_of_cons hskip]
      cases h
      rfl
    next => cases h
  next => cases h

theorem skips_named [Named α] {a : α} (h : (named : Codec α).read cs = .ok (a, rest)) :
    Skips cs rest := by
  unfold named at h
  dsimp only at h
  split at h
  next => cases h
  next hskip =>
    obtain ⟨⟨name, left⟩, hname, h⟩ := bind_eq_ok.mp h
    obtain ⟨a, ha, h⟩ := bind_eq_ok.mp h
    cases h
    exact skips_scalar hskip rfl (skipString_of_stringRest hname)
  next after hskip =>
    obtain ⟨⟨name, afterName⟩, hname, h⟩ := bind_eq_ok.mp h
    obtain ⟨a, ha, h⟩ := bind_eq_ok.mp h
    obtain ⟨⟨_, afterColon⟩, hcolon, h⟩ := bind_eq_ok.mp h
    obtain ⟨⟨_, afterNull⟩, hnull, h⟩ := bind_eq_ok.mp h
    dsimp only at h
    split at h
    next => cases h
    next hclose =>
      cases h
      have hentered : Step ⟨.past true, [.object], after⟩ ⟨.due, [.object], afterColon⟩ :=
        .entered (enters_of_readName hname hcolon)
      exact skips_opened .object hskip (.head hentered
        (((takes_readNull.skips hnull).run _).trans (.single (.closed hclose))))
    next => cases h
  next => cases h

theorem takes_named [Named α] : Takes (named : Codec α).read :=
  ⟨fun cs => by simp only [named, skipBlanks_skipBlanks], steady_named, skips_named⟩

end Codec

end RenderMesh.Json
