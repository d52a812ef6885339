import RenderMesh.Json.Number
import RenderMesh.Proofs.Number.Scaling

/-!
# Literals and their text

A literal is read back from its text, whatever follows that cannot go on with it. The numbers that
are written have such texts: naturals are whole literals, numbers of eight bytes have a point or an
exponent and so are no integers.
-/

namespace RenderMesh.Json

/-- A text that no literal goes on in. -/
def Ends (rest : List Char) : Prop :=
  ∀ c ∈ rest.head?, c.isDigit = false ∧ c ≠ '.' ∧ c ≠ 'e' ∧ c ≠ 'E'

theorem ends_nil : Ends [] := by
  intro c hc
  cases hc

theorem ends_cons {c : Char} {rest : List Char} (h : c.isDigit = false) (hp : c ≠ '.')
    (he : c ≠ 'e') (hE : c ≠ 'E') : Ends (c :: rest) := by
  intro d hd
  cases hd
  exact ⟨h, hp, he, hE⟩

namespace Literal

def exponentText : Option Int → List Char
  | none => []
  | some e => 'e' :: (if e < 0 then '-' else '+') :: naturalText e.natAbs

def fractionText (fraction : List Char) : List Char :=
  if fraction.isEmpty then [] else '.' :: fraction

theorem fractionText_of_ne_nil {fraction : List Char} (h : fraction ≠ []) :
    fractionText fraction = '.' :: fraction := by
  obtain ⟨first, more, rfl⟩ := List.exists_cons_of_ne_nil h
  rfl

/-- The text of a literal, with a sign in every exponent. -/
def text (l : Literal) : List Char :=
  (if l.negative then ['-'] else []) ++
    (l.whole ++ (fractionText l.fraction ++ exponentText l.exponent))

/-- A literal of digits that starts with a zero only where nothing else stands before the point. -/
structure Valid (l : Literal) : Prop where
  nonempty : l.whole ≠ []
  whole : ∀ c ∈ l.whole, c.isDigit = true
  leading : 1 < l.whole.length → l.whole.head? ≠ some '0'
  fraction : ∀ c ∈ l.fraction, c.isDigit = true

end Literal

/-! ### Reading the text of a literal -/

theorem digits_append (ended : Fault) {cs rest : List Char} (hne : cs ≠ [])
    (hcs : ∀ c ∈ cs, c.isDigit = true) (hrest : ∀ c ∈ rest.head?, c.isDigit = false) :
    digits ended (cs ++ rest) = .ok (cs, rest) := by
  obtain ⟨first, more, rfl⟩ := List.exists_cons_of_ne_nil hne
  have hfirst : first.isDigit = true := hcs first List.mem_cons_self
  have hmore : ∀ c ∈ more, c.isDigit = true := fun c hc => hcs c (List.mem_cons_of_mem _ hc)
  have hstop : rest.takeWhile Char.isDigit = [] ∧ rest.dropWhile Char.isDigit = rest := by
    cases rest with
    | nil => exact ⟨rfl, rfl⟩
    | cons c rest => simp [hrest c rfl]
  rw [List.cons_append, digits, if_pos hfirst, List.takeWhile_append_of_pos hmore,
    List.dropWhile_append_of_pos hmore, hstop.1, hstop.2, List.append_nil]

theorem wholeDigits_append (ended : Fault) {cs rest : List Char} (hne : cs ≠ [])
    (hcs : ∀ c ∈ cs, c.isDigit = true) (hzero : 1 < cs.length → cs.head? ≠ some '0')
    (hrest : ∀ c ∈ rest.head?, c.isDigit = false) :
    wholeDigits ended (cs ++ rest) = .ok (cs, rest) := by
  have hlead : (1 < cs.length && cs.head? = some '0') = false := by
    by_cases hl : 1 < cs.length
    · simp [hl, hzero hl]
    · simp [hl]
  simp only [wholeDigits, digits_append ended hne hcs hrest, bind, Except.bind, hlead]
  rfl

theorem fractionDigits_append (ended : Fault) {fraction rest : List Char}
    (hcs : ∀ c ∈ fraction, c.isDigit = true)
    (hrest : ∀ c ∈ rest.head?, c.isDigit = false ∧ c ≠ '.') :
    fractionDigits ended (Literal.fractionText fraction ++ rest) = .ok (fraction, rest) := by
  cases fraction with
  | nil =>
    cases rest with
    | nil => rfl
    | cons c rest =>
      have hpoint := (hrest c rfl).2
      show fractionDigits ended (c :: rest) = .ok ([], c :: rest)
      unfold fractionDigits
      split
      next heq => exact absurd (List.cons.inj heq).1 hpoint
      next => rfl
  | cons first more =>
    exact digits_append ended (List.cons_ne_nil _ _) hcs fun c hc => (hrest c hc).1

theorem isDigit_naturalText {n : Nat} : ∀ c ∈ naturalText n, c.isDigit = true :=
  fun _ hc => Nat.isDigit_of_mem_toDigits (by decide) (by decide) hc

theorem naturalText_ne_nil (n : Nat) : naturalText n ≠ [] := Nat.toDigits_ne_nil

theorem exponentPart_append (ended : Fault) (exponent : Option Int) {rest : List Char}
    (h : Ends rest) :
    exponentPart ended (Literal.exponentText exponent ++ rest) = .ok (exponent, rest) := by
  cases exponent with
  | none =>
    cases rest with
    | nil => rfl
    | cons c rest =>
      obtain ⟨_, _, he, hE⟩ := h c rfl
      show exponentPart ended (c :: rest) = .ok (none, c :: rest)
      simp [exponentPart, he, hE]
  | some e =>
    have hdigits : digits ended (naturalText e.natAbs ++ rest) = .ok (naturalText e.natAbs, rest) :=
      digits_append ended (naturalText_ne_nil _) isDigit_naturalText fun c hc => (h c hc).1
    have hvalue : Nat.ofDigitChars 10 (naturalText e.natAbs) 0 = e.natAbs :=
      Nat.ofDigitChars_ten_toDigits
    have hpart : ∀ sign negative, exponentSign (sign :: (naturalText e.natAbs ++ rest)) =
        (negative, naturalText e.natAbs ++ rest) →
        exponentPart ended ('e' :: sign :: (naturalText e.natAbs ++ rest)) =
          .ok (some (if negative then -(e.natAbs : Int) else e.natAbs), rest) := by
      intro sign negative hsign
      rw [exponentPart, if_pos (by decide), hsign]
      simp only [hdigits, bind, Except.bind]
      rw [hvalue]
      rfl
    rw [Literal.exponentText, List.cons_append, List.cons_append]
    by_cases he : e < 0
    · have hsize : -(e.natAbs : Int) = e := by omega
      rw [if_pos he, hpart '-' true rfl, if_pos rfl, hsize]
    · have hsize : (e.natAbs : Int) = e := by omega
      rw [if_neg he, hpart '+' false rfl, if_neg Bool.false_ne_true, hsize]

namespace Literal

variable {l : Literal} {rest : List Char}

/-- What follows the digits after the point is neither a digit nor a point. -/
theorem after_fraction (exponent : Option Int) (h : Ends rest) :
    ∀ c ∈ (exponentText exponent ++ rest).head?, c.isDigit = false ∧ c ≠ '.' := by
  intro c hc
  cases exponent with
  | none => exact ⟨(h c hc).1, (h c hc).2.1⟩
  | some e =>
    cases hc
    decide

/-- What follows the digits before the point is no digit. -/
theorem after_whole (fraction : List Char) (exponent : Option Int) (h : Ends rest) :
    ∀ c ∈ (fractionText fraction ++ (exponentText exponent ++ rest)).head?, c.isDigit = false := by
  intro c hc
  cases fraction with
  | nil => exact (after_fraction exponent h c hc).1
  | cons first more =>
    cases hc
    rfl

theorem Valid.literalRest (hv : l.Valid) (ended : Fault) (h : Ends rest) :
    literalRest ended l.negative
        (l.whole ++ (fractionText l.fraction ++ (exponentText l.exponent ++ rest))) =
      .ok (l, rest) := by
  have hwhole := wholeDigits_append ended hv.nonempty hv.whole hv.leading
    (after_whole l.fraction l.exponent h)
  have hfraction := fractionDigits_append ended hv.fraction (after_fraction l.exponent h)
  have hexponent := exponentPart_append ended l.exponent h
  simp only [Json.literalRest, hwhole, hfraction, hexponent, bind, Except.bind]
  rfl

theorem Valid.literal (hv : l.Valid) (ended : Fault) (h : Ends rest) :
    literal ended (l.text ++ rest) = .ok (l, rest) := by
  have hrest := hv.literalRest ended h
  rw [text, List.append_assoc, List.append_assoc, List.append_assoc]
  cases hn : l.negative with
  | true =>
    rw [hn] at hrest
    exact hrest
  | false =>
    obtain ⟨first, more, hfirst⟩ := List.exists_cons_of_ne_nil hv.nonempty
    have hdigit : first.isDigit = true := hv.whole first (hfirst ▸ List.mem_cons_self)
    have hminus : first ≠ '-' := by
      rintro rfl
      exact absurd hdigit (by decide)
    rw [hn, hfirst] at hrest
    rw [if_neg Bool.false_ne_true, List.nil_append, hfirst]
    show Json.literal ended (first :: _) = _
    unfold Json.literal
    split
    next heq => exact absurd (List.cons.inj heq).1 hminus
    next => exact hrest

theorem Valid.head (hv : l.Valid) : ∃ c cs, l.text = c :: cs ∧ startsLiteral c = true := by
  obtain ⟨first, more, hfirst⟩ := List.exists_cons_of_ne_nil hv.nonempty
  have hdigit : first.isDigit = true := hv.whole first (hfirst ▸ List.mem_cons_self)
  rw [text, hfirst]
  cases l.negative with
  | true => exact ⟨'-', _, rfl, rfl⟩
  | false => exact ⟨first, _, rfl, by simp [startsLiteral, hdigit]⟩

end Literal

/-! ### Reading a written number -/

/-- A text that is a literal of a number. -/
def Spells (text : List Char) (found : Number) : Prop :=
  ∃ l : Literal, l.Valid ∧ text = l.text ∧ l.number = .ok found

section

variable {text rest : List Char} {found : Number}

theorem Spells.scan (h : Spells text found) (hr : Ends rest) :
    number (text ++ rest) = .ok (found, rest) := by
  obtain ⟨l, hv, ht, hn⟩ := h
  rw [ht]
  simp only [number, hv.literal _ hr, hn, bind, Except.bind]
  rfl

theorem Spells.head (h : Spells text found) :
    ∃ c cs, text = c :: cs ∧ startsLiteral c = true := by
  obtain ⟨l, hv, ht, _⟩ := h
  rw [ht]
  exact hv.head

end

namespace Number

/-- A number whose text is a literal of another number. -/
def Reads (written found : Number) : Prop := Spells written.text found

variable {written found : Number}

/-- What the text of a number is read as. -/
def reread (n : Number) : Except Fault Number := (number n.text).map Prod.fst

theorem Reads.reread (h : written.Reads found) : written.reread = .ok found := by
  have hs := Spells.scan h ends_nil
  rw [List.append_nil] at hs
  rw [Number.reread, hs]
  rfl

end Number

end RenderMesh.Json
