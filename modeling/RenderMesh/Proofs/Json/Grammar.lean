import RenderMesh.Proofs.Json.Skip

/-!
# The grammar of JSON

Which texts are JSON, said without a reader: values with blanks around them, numbers of any size and
strings with any escapes. Each of them is skipped to its end, whatever is open around it.
-/

namespace RenderMesh.Json

open Relation (ReflTransGen)

/-! ### Scalars -/

def escapeLetters : List Char := ['"', '\\', '/', 'b', 'f', 'n', 'r', 't']

def hexDigits : List Char :=
  ['0', '1', '2', '3', '4', '5', '6', '7', '8', '9', 'a', 'b', 'c', 'd', 'e', 'f', 'A', 'B', 'C',
    'D', 'E', 'F']

/-- What may stand between the quotes of a string. Any four hexadecimal digits may follow a `u`. -/
inductive StringBody : List Char → Prop where
  | nil : StringBody []
  | plain {c : Char} {cs : List Char} (quote : c ≠ '"') (slash : c ≠ '\\') (control : ¬c < ' ')
      (more : StringBody cs) : StringBody (c :: cs)
  | letter {c : Char} {cs : List Char} (known : c ∈ escapeLetters) (more : StringBody cs) :
      StringBody ('\\' :: c :: cs)
  | unit {a b c d : Char} {cs : List Char} (hex : ∀ digit ∈ [a, b, c, d], digit ∈ hexDigits)
      (more : StringBody cs) : StringBody ('\\' :: 'u' :: a :: b :: c :: d :: cs)

/-- Some digits, at least one. -/
structure Digits (cs : List Char) : Prop where
  nonempty : cs ≠ []
  digit : ∀ c ∈ cs, c.isDigit = true

inductive FractionText : List Char → Prop where
  | absent : FractionText []
  | present {cs : List Char} (digits : Digits cs) : FractionText ('.' :: cs)

inductive ExponentText : List Char → Prop where
  | absent : ExponentText []
  | present {e : Char} {sign cs : List Char} (letter : e = 'e' ∨ e = 'E')
      (signed : sign = [] ∨ sign = ['+'] ∨ sign = ['-']) (digits : Digits cs) :
      ExponentText (e :: (sign ++ cs))

/-- A number: a minus or none, digits that a zero leads only alone, and what else there is. -/
inductive NumberText : List Char → Prop where
  | parts {sign whole fraction exponent : List Char} (signed : sign = [] ∨ sign = ['-'])
      (digits : Digits whole) (leading : 1 < whole.length → whole.head? ≠ some '0')
      (point : FractionText fraction) (power : ExponentText exponent) :
      NumberText (sign ++ (whole ++ (fraction ++ exponent)))

/-! ### Lists and objects -/

def Bracket.opening : Bracket → Char
  | .list => '['
  | .object => '{'

/-- Parts with commas between them, and before the first if it is not the `first` of all. -/
def partsText : (first : Bool) → List (List Char) → List Char
  | _, [] => []
  | first, part :: parts => comma first ++ (part ++ partsText false parts)

/-- Parts between brackets. -/
def enclosed (bracket : Bracket) (space : List Char) (parts : List (List Char)) : List Char :=
  bracket.opening :: (space ++ (partsText true parts ++ [bracket.closing]))

/-- A member as it stands in a text: its key without the quotes, the blanks before the key and
before the colon, and its value with the blanks around it. -/
structure Member where
  before : List Char := []
  key : List Char
  gap : List Char := []
  value : List Char

namespace Member

/-- A member up to its value. -/
def start (m : Member) : List Char := m.before ++ '"' :: (m.key ++ '"' :: (m.gap ++ [':']))

def text (m : Member) : List Char := m.start ++ m.value

/-- A member that is grammatical up to its value. -/
structure Framed (m : Member) : Prop where
  before : Blank m.before
  key : StringBody m.key
  gap : Blank m.gap

end Member

/-- Texts that are JSON, with blanks around them or not. -/
inductive JsonText : List Char → Prop where
  | spaced {before text after : List Char} (left : Blank before) (value : JsonText text)
      (right : Blank after) : JsonText (before ++ (text ++ after))
  | null : JsonText ['n', 'u', 'l', 'l']
  | true : JsonText ['t', 'r', 'u', 'e']
  | false : JsonText ['f', 'a', 'l', 's', 'e']
  | number {text : List Char} (grammatical : NumberText text) : JsonText text
  | string {body : List Char} (grammatical : StringBody body) : JsonText ('"' :: (body ++ ['"']))
  | list {space : List Char} {parts : List (List Char)} (blank : Blank space)
      (values : ∀ part ∈ parts, JsonText part) : JsonText (enclosed .list space parts)
  | object {space : List Char} {members : List Member} (blank : Blank space)
      (framed : ∀ m ∈ members, m.Framed) (values : ∀ m ∈ members, JsonText m.value) :
      JsonText (enclosed .object space (members.map Member.text))

/-! ### Scalars are skipped -/

variable {body text tail : List Char}

theorem hexWord_hexDigits {a b c d : Char} (h : ∀ digit ∈ [a, b, c, d], digit ∈ hexDigits)
    (rest : List Char) : ∃ n, hexWord (a :: b :: c :: d :: rest) = .ok (n, rest) := by
  have hsome := List.all_eq_true.mp (show hexDigits.all (fun c => (hexDigit? c).isSome) by decide)
  obtain ⟨p, hp⟩ := Option.isSome_iff_exists.mp (hsome a (h a (by simp)))
  obtain ⟨q, hq⟩ := Option.isSome_iff_exists.mp (hsome b (h b (by simp)))
  obtain ⟨r, hr⟩ := Option.isSome_iff_exists.mp (hsome c (h c (by simp)))
  obtain ⟨s, hs⟩ := Option.isSome_iff_exists.mp (hsome d (h d (by simp)))
  exact ⟨_, by simp only [hexWord, hp, hq, hr, hs]; rfl⟩

theorem escape_letter {unicode : Scanner Char} {c : Char} (h : c ∈ escapeLetters)
    (rest : List Char) : ∃ d, escape unicode (c :: rest) = .ok (d, rest) := by
  simp only [escapeLetters, List.mem_cons, List.not_mem_nil, or_false] at h
  rcases h with rfl | rfl | rfl | rfl | rfl | rfl | rfl | rfl
  all_goals exact ⟨_, rfl⟩

/-- A reader of escapes that lets any four digits through reads strings to their end. -/
theorem StringBody.charsWithin (unicode : Scanner Char)
    (hu : ∀ {cs n rest}, hexWord cs = .ok (n, rest) → ∃ c, unicode cs = .ok (c, rest))
    (h : StringBody body) (bound : List Char) (hb : body.length < bound.length)
    (done rest : List Char) :
    ∃ chars, charsWithin unicode bound done (body ++ '"' :: rest) = .ok (chars, rest) := by
  induction h generalizing bound done with
  | nil =>
    obtain ⟨b, bound, rfl⟩ := List.exists_cons_of_length_pos hb
    exact ⟨_, rfl⟩
  | plain quote slash control _ ih =>
    obtain ⟨b, bound, rfl⟩ := List.exists_cons_of_length_pos (Nat.zero_lt_of_lt hb)
    simp only [List.cons_append, Json.charsWithin, if_neg quote, if_neg slash, if_neg control]
    exact ih bound (Nat.lt_of_succ_lt_succ hb) _
  | @letter c cs known _ ih =>
    obtain ⟨b, bound, rfl⟩ := List.exists_cons_of_length_pos (Nat.zero_lt_of_lt hb)
    obtain ⟨d, hd⟩ := escape_letter known (cs ++ '"' :: rest)
    rw [List.cons_append, List.cons_append, Json.charsWithin, if_neg (by decide), if_pos rfl, hd]
    exact ih bound (by simp only [List.length_cons] at hb; omega) _
  | @unit a b c d cs hex _ ih =>
    obtain ⟨x, bound, rfl⟩ := List.exists_cons_of_length_pos (Nat.zero_lt_of_lt hb)
    obtain ⟨n, hn⟩ := hexWord_hexDigits hex (cs ++ '"' :: rest)
    obtain ⟨e, he⟩ := hu hn
    have hescape : escape unicode ('u' :: a :: b :: c :: d :: (cs ++ '"' :: rest)) =
        .ok (e, cs ++ '"' :: rest) := he
    simp only [List.cons_append]
    rw [Json.charsWithin, if_neg (by decide), if_pos rfl, hescape]
    exact ih bound (by simp only [List.length_cons] at hb; omega) _

theorem StringBody.skipString (h : StringBody body) (rest : List Char) :
    skipString (body ++ '"' :: rest) = .ok ((), rest) := by
  obtain ⟨chars, hchars⟩ := h.charsWithin (fun cs => (hexWord cs).map fun p => (' ', p.2))
    (fun hword => ⟨' ', map_eq_ok.mpr ⟨_, hword, rfl⟩⟩) (body ++ '"' :: rest) (by simp) [] rest
  exact bind_eq_ok.mpr ⟨_, hchars, rfl⟩

theorem mem_hexDigits {c : Char} (h : (hexDigit? c).isSome = true) : c ∈ hexDigits := by
  have hall : ∀ n < 128, (hexDigit? (Char.ofNat n)).isSome = true → Char.ofNat n ∈ hexDigits := by
    decide
  have hc : c.toNat < 128 := by
    by_contra hlarge
    have hnine : ¬c ≤ '9' := fun hle => hlarge (Nat.lt_of_le_of_lt hle (by decide))
    have hf : ¬c ≤ 'f' := fun hle => hlarge (Nat.lt_of_le_of_lt hle (by decide))
    have hF : ¬c ≤ 'F' := fun hle => hlarge (Nat.lt_of_le_of_lt hle (by decide))
    simp [hexDigit?, hnine, hf, hF] at h
  have hmem := hall c.toNat hc
  rw [Char.ofNat_toNat] at hmem
  exact hmem h

theorem hexDigits_of_hexWord {word : List Char} {n : Nat} (h : hexWord word = .ok (n, [])) :
    ∃ a b c d, word = [a, b, c, d] ∧ ∀ digit ∈ [a, b, c, d], digit ∈ hexDigits := by
  unfold hexWord at h
  split at h
  next a b c d more =>
    split at h
    next ha hb hc hd =>
      cases h
      refine ⟨a, b, c, d, rfl, ?_⟩
      simp only [List.forall_mem_cons, List.not_mem_nil, false_imp_iff, implies_true, and_true]
      exact ⟨mem_hexDigits (by rw [ha]; rfl), mem_hexDigits (by rw [hb]; rfl),
        mem_hexDigits (by rw [hc]; rfl), mem_hexDigits (by rw [hd]; rfl)⟩
    next => cases h
  next =>
    split at h
    all_goals cases h

theorem mem_escapeLetters {c d : Char} (h : escapedLetter? c = some d) : c ∈ escapeLetters := by
  unfold escapedLetter? at h
  split at h
  all_goals first | decide | cases h

/-- An escape is a part of a string that goes on. -/
theorem Escaped.stringBody {escape : List Char} {c : Char} (h : Escaped escape c)
    (hbody : StringBody body) : StringBody ('\\' :: (escape ++ body)) := by
  have hword : ∀ {word n cs}, hexWord word = .ok (n, []) → StringBody cs →
      StringBody ('\\' :: 'u' :: (word ++ cs)) := by
    intro word n cs hex hcs
    obtain ⟨a, b, c, d, rfl, hdigits⟩ := hexDigits_of_hexWord hex
    exact .unit hdigits hcs
  cases h with
  | letter known => exact .letter (mem_escapeLetters known) hbody
  | unit hex _ _ => exact hword hex hbody
  | pair hex more _ _ =>
    rw [List.cons_append, List.append_assoc]
    exact hword hex (hword more hbody)

/-- What spells something is grammatical. -/
theorem Denotes.stringBody {chars : List Char} (h : Denotes body chars) : StringBody body := by
  induction h with
  | nil => exact .nil
  | plain quote slash control _ ih => exact .plain quote slash control ih
  | escaped one _ ih => exact one.stringBody ih

theorem ends_exponentText {exponent : List Char} (h : ExponentText exponent) (ht : Ends tail) :
    ∀ c ∈ (exponent ++ tail).head?, c.isDigit = false ∧ c ≠ '.' := by
  intro c hc
  cases h with
  | absent => exact ⟨(ht c hc).1, (ht c hc).2.1⟩
  | present letter _ _ =>
    cases hc
    rcases letter with rfl | rfl
    all_goals decide

theorem FractionText.fractionDigits {fraction rest : List Char} (h : FractionText fraction)
    (ended : Fault) (hrest : ∀ c ∈ rest.head?, c.isDigit = false ∧ c ≠ '.') :
    ∃ found, fractionDigits ended (fraction ++ rest) = .ok (found, rest) := by
  cases h with
  | absent =>
    have hnone : Json.fractionDigits ended (Literal.fractionText [] ++ rest) = .ok ([], rest) :=
      fractionDigits_append ended (List.forall_mem_nil _) hrest
    exact ⟨[], hnone⟩
  | present digits =>
    exact ⟨_, digits_append ended digits.nonempty digits.digit fun c hc => (hrest c hc).1⟩

theorem exponentSign_signed {sign cs : List Char} (h : sign = [] ∨ sign = ['+'] ∨ sign = ['-'])
    (hcs : Digits cs) (rest : List Char) :
    (exponentSign (sign ++ (cs ++ rest))).2 = cs ++ rest := by
  obtain ⟨first, more, rfl⟩ := List.exists_cons_of_ne_nil hcs.nonempty
  have hfirst := hcs.digit first List.mem_cons_self
  rcases h with rfl | rfl | rfl
  · have hplus : first ≠ '+' := fun h => absurd (h ▸ hfirst) (by decide)
    have hminus : first ≠ '-' := fun h => absurd (h ▸ hfirst) (by decide)
    simp [exponentSign, hplus, hminus]
  · rfl
  · rfl

theorem ExponentText.exponentPart {exponent : List Char} (h : ExponentText exponent)
    (ended : Fault) (ht : Ends tail) :
    ∃ found, exponentPart ended (exponent ++ tail) = .ok (found, tail) := by
  cases h with
  | absent => exact ⟨none, exponentPart_append ended none ht⟩
  | @present e sign cs letter signed digits =>
    have hletter : (e = 'e' || e = 'E') = true := by simpa using letter
    have hdigits := digits_append ended digits.nonempty digits.digit fun c hc => (ht c hc).1
    rw [List.cons_append, List.append_assoc, Json.exponentPart, if_pos hletter]
    refine ⟨_, bind_eq_ok.mpr ⟨(cs, tail), ?_, rfl⟩⟩
    show Json.digits ended (exponentSign (sign ++ (cs ++ tail))).2 = _
    rw [exponentSign_signed signed digits]
    exact hdigits

theorem NumberText.literal (h : NumberText text) (ended : Fault) (ht : Ends tail) :
    ∃ l, literal ended (text ++ tail) = .ok (l, tail) := by
  obtain @⟨sign, whole, fraction, exponent, signed, digits, leading, point, power⟩ := h
  have hafter := ends_exponentText power ht
  obtain ⟨found, hfraction⟩ := point.fractionDigits ended hafter
  obtain ⟨scale, hexponent⟩ := power.exponentPart ended ht
  have hstop : ∀ c ∈ (fraction ++ (exponent ++ tail)).head?, c.isDigit = false := by
    intro c hc
    cases point with
    | absent => exact (hafter c hc).1
    | present _ =>
      cases hc
      rfl
  have hwhole := wholeDigits_append ended digits.nonempty digits.digit leading hstop
  have hrest : ∀ negative, literalRest ended negative (whole ++ (fraction ++ (exponent ++ tail))) =
      .ok (⟨negative, whole, found, scale⟩, tail) := fun negative =>
    bind_eq_ok.mpr ⟨_, hwhole, bind_eq_ok.mpr ⟨_, hfraction, bind_eq_ok.mpr ⟨_, hexponent, rfl⟩⟩⟩
  rw [List.append_assoc, List.append_assoc, List.append_assoc]
  rcases signed with rfl | rfl
  · obtain ⟨first, more, rfl⟩ := List.exists_cons_of_ne_nil digits.nonempty
    have hfirst := digits.digit first List.mem_cons_self
    have hminus : first ≠ '-' := fun h => absurd (h ▸ hfirst) (by decide)
    refine ⟨_, Eq.trans ?_ (hrest false)⟩
    simp [Json.literal, hminus]
  · exact ⟨_, hrest true⟩

theorem NumberText.head (h : NumberText text) :
    ∃ c cs, text = c :: cs ∧ startsLiteral c = true := by
  obtain @⟨sign, whole, fraction, exponent, signed, digits, leading, point, power⟩ := h
  obtain ⟨first, more, rfl⟩ := List.exists_cons_of_ne_nil digits.nonempty
  have hfirst := digits.digit first List.mem_cons_self
  rcases signed with rfl | rfl
  · exact ⟨first, _, rfl, by simp [startsLiteral, hfirst]⟩
  · exact ⟨'-', _, rfl, rfl⟩

/-! ### Texts are skipped -/

/-- A text that skipping passes down to its last blanks, whatever follows. -/
def Passed (text : List Char) : Prop :=
  ∀ ⦃tail⦄, Ends tail → ∃ left, Blank left ∧ Skips (text ++ tail) (left ++ tail)

theorem passed_of_scalar {c : Char} {cs : List Char} (hblank : isBlank c = false)
    (hplain : openingBracket (c :: cs) = none)
    (h : ∀ ⦃tail⦄, Ends tail → skipScalar (c :: cs ++ tail) = .ok ((), tail)) :
    Passed (c :: cs) := by
  intro tail ht
  refine ⟨[], blank_nil, .single (.scalar ?_ ?_)⟩
  · rw [List.cons_append, skipBlanks_cons hblank, ← List.cons_append, openingBracket_append, hplain]
    rfl
  · rw [List.cons_append, skipBlanks_cons hblank]
    exact h ht

theorem passed_number (h : NumberText text) : Passed text := by
  obtain ⟨c, cs, rfl, hc⟩ := h.head
  have hne : ∀ d : Char, startsLiteral d = false → c ≠ d := fun d => Value.ne_of_startsLiteral hc
  refine passed_of_scalar (Value.isBlank_of_startsLiteral hc) ?_ fun tail ht => ?_
  · simp [openingBracket, hne '[' rfl, hne '{' rfl]
  · obtain ⟨l, hl⟩ := h.literal .invalidNumber ht
    rw [List.cons_append, skipScalar_literal hc, ← List.cons_append, hl]
    rfl

theorem passed_string (h : StringBody body) : Passed ('"' :: (body ++ ['"'])) := by
  refine passed_of_scalar rfl rfl fun tail _ => ?_
  rw [List.cons_append, List.append_assoc]
  exact h.skipString tail

/-- A part between brackets that skipping passes, after any blanks and whatever follows. -/
def PartPassed (bracket : Bracket) (part : List Char) : Prop :=
  ∀ (first : Bool) ⦃blanks tail⦄, Blank blanks → Ends tail → ∃ left, Blank left ∧ ∀ outer,
    ReflTransGen Step ⟨.past first, bracket :: outer, blanks ++ (comma first ++ (part ++ tail))⟩
      ⟨.past false, bracket :: outer, left ++ tail⟩

theorem Passed.entry (h : Passed text) : PartPassed .list text := by
  intro first blanks tail hb ht
  obtain ⟨left, hleft, hskips⟩ := h ht
  refine ⟨left, hleft, fun outer => ?_⟩
  cases first with
  | true =>
    obtain ⟨c, after, hc, hclose⟩ := hskips.starts
    have hskip : skipBlanks (blanks ++ (text ++ tail)) = c :: after := by
      rw [skipBlanks_append hb, hc]
    have hsame : skipBlanks (c :: after) = skipBlanks (text ++ tail) := by
      rw [← hc, skipBlanks_skipBlanks]
    exact .head (.entered (.first hskip (hclose .list) rfl)) ((hskips.blanks hsame).run _)
  | false =>
    have hskip : skipBlanks (blanks ++ ',' :: (text ++ tail)) = ',' :: (text ++ tail) := by
      rw [skipBlanks_append hb, skipBlanks_cons (by decide)]
    exact .head (.entered (.later hskip rfl)) (hskips.run _)

namespace Member

variable {m : Member}

theorem start_append (m : Member) (rest : List Char) :
    m.start ++ rest = m.before ++ '"' :: (m.key ++ '"' :: (m.gap ++ ':' :: rest)) := by
  simp [start]

theorem Framed.colon (h : m.Framed) (rest : List Char) :
    colon (m.gap ++ ':' :: rest) = .ok ((), rest) := by
  rw [Json.colon, skipBlanks_append h.gap, skipBlanks_cons (by decide)]
  rfl

theorem Framed.skipBlanks (h : m.Framed) {blanks : List Char} (hb : Blank blanks)
    (rest : List Char) : skipBlanks (blanks ++ (m.start ++ rest)) =
      '"' :: (m.key ++ '"' :: (m.gap ++ ':' :: rest)) := by
  rw [skipBlanks_append hb, start_append, skipBlanks_append h.before, skipBlanks_cons (by decide)]

theorem Framed.skipEntryStart (h : m.Framed) {cs rest : List Char}
    (hcs : Json.skipBlanks cs = '"' :: (m.key ++ '"' :: (m.gap ++ ':' :: rest))) :
    skipEntryStart .object cs = .ok ((), rest) := by
  rw [Json.skipEntryStart, hcs]
  exact bind_eq_ok.mpr ⟨_, h.key.skipString _, h.colon rest⟩

theorem Framed.passed (h : m.Framed) (hvalue : Passed m.value) : PartPassed .object m.text := by
  intro first blanks tail hb ht
  obtain ⟨left, hleft, hskips⟩ := hvalue ht
  refine ⟨left, hleft, fun outer => ?_⟩
  rw [text, List.append_assoc]
  cases first with
  | true =>
    have hskip := h.skipBlanks hb (m.value ++ tail)
    have hstart : Json.skipEntryStart .object
        ('"' :: (m.key ++ '"' :: (m.gap ++ ':' :: (m.value ++ tail)))) =
          .ok ((), m.value ++ tail) :=
      h.skipEntryStart (skipBlanks_cons (by decide) _)
    exact .head (.entered (.first hskip (by decide) hstart)) (hskips.run _)
  | false =>
    have hskip : Json.skipBlanks (blanks ++ ',' :: (m.start ++ (m.value ++ tail))) =
        ',' :: (m.start ++ (m.value ++ tail)) := by
      rw [skipBlanks_append hb, skipBlanks_cons (by decide)]
    have hstart := h.skipEntryStart (h.skipBlanks blank_nil (m.value ++ tail))
    exact .head (.entered (.later hskip hstart)) (hskips.run _)

end Member

theorem ends_closing (bracket : Bracket) (tail : List Char) : Ends (bracket.closing :: tail) := by
  cases bracket
  all_goals exact ends_cons (by decide) (by decide) (by decide) (by decide)

theorem ends_partsText (bracket : Bracket) (parts : List (List Char)) (tail : List Char) :
    Ends (partsText false parts ++ bracket.closing :: tail) := by
  cases parts with
  | nil => exact ends_closing bracket tail
  | cons part parts => exact ends_cons (by decide) (by decide) (by decide) (by decide)

theorem run_parts {bracket : Bracket} {parts : List (List Char)}
    (h : ∀ part ∈ parts, PartPassed bracket part) (first : Bool) (outer : List Bracket)
    {blanks : List Char} (hb : Blank blanks) (tail : List Char) :
    ReflTransGen Step
      ⟨.past first, bracket :: outer, blanks ++ (partsText first parts ++ bracket.closing :: tail)⟩
      ⟨.past false, outer, tail⟩ := by
  induction parts generalizing first blanks with
  | nil =>
    have hskip : skipBlanks (blanks ++ bracket.closing :: tail) = bracket.closing :: tail := by
      rw [skipBlanks_append hb, skipBlanks_cons (by cases bracket <;> decide)]
    exact .single (.closed hskip)
  | cons part parts ih =>
    obtain ⟨left, hleft, hrun⟩ := h part List.mem_cons_self first hb
      (ends_partsText bracket parts tail)
    have hparts := ih (fun p hp => h p (List.mem_cons_of_mem _ hp)) false hleft
    rw [partsText, List.append_assoc, List.append_assoc]
    exact (hrun outer).trans hparts

theorem enclosed_append (bracket : Bracket) (space : List Char) (parts : List (List Char))
    (tail : List Char) : enclosed bracket space parts ++ tail =
      bracket.opening :: (space ++ (partsText true parts ++ bracket.closing :: tail)) := by
  simp [enclosed]

theorem passed_enclosed {bracket : Bracket} {space : List Char} {parts : List (List Char)}
    (hspace : Blank space) (h : ∀ part ∈ parts, PartPassed bracket part) :
    Passed (enclosed bracket space parts) := by
  intro tail ht
  have hopen : ∀ rest, openingBracket (skipBlanks (bracket.opening :: rest)) =
      some (bracket, rest) := by cases bracket <;> exact fun _ => rfl
  rw [enclosed_append]
  exact ⟨[], blank_nil, .head (.opened (hopen _)) (run_parts h true [] hspace tail)⟩

/-- Every text that is JSON is skipped down to its last blanks. -/
theorem JsonText.passed (h : JsonText text) : Passed text := by
  induction h with
  | @spaced before text after left _ right ih =>
    intro tail ht
    obtain ⟨blanks, hblanks, hskips⟩ := ih (ends_blank right ht)
    refine ⟨blanks ++ after, blank_append hblanks right, ?_⟩
    rw [List.append_assoc, List.append_assoc, List.append_assoc]
    exact hskips.blanks (skipBlanks_append left _)
  | null => exact passed_of_scalar rfl rfl fun _ _ => rfl
  | true => exact passed_of_scalar rfl rfl fun _ _ => rfl
  | false => exact passed_of_scalar rfl rfl fun _ _ => rfl
  | number grammatical => exact passed_number grammatical
  | string grammatical => exact passed_string grammatical
  | list blank _ ih => exact passed_enclosed blank fun part hp => (ih part hp).entry
  | object blank framed _ ih =>
    refine passed_enclosed blank fun part hp => ?_
    obtain ⟨m, hm, rfl⟩ := List.mem_map.mp hp
    exact (framed m hm).passed (ih m hm)

end RenderMesh.Json
