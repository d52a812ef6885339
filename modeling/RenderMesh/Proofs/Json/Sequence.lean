import RenderMesh.Json.Sequence
import RenderMesh.Proofs.Json.Literal
import RenderMesh.Proofs.Json.Text
import RenderMesh.Proofs.Outcome

/-!
# Lists and objects and their text

What a reader finds in the text of every entry decides what it finds in the list, in any layout that
puts nothing but blanks between the parts; with objects it is the same. A reader that reads back
every entry reads back the list.
-/

namespace RenderMesh.Json

/-! ### Blanks -/

/-- A text of blanks. -/
def Blank (cs : List Char) : Prop := ∀ c ∈ cs, isBlank c = true

instance (cs : List Char) : Decidable (Blank cs) := List.decidableBAll (isBlank · = true) cs

theorem blank_nil : Blank [] := fun _ hc => nomatch hc

theorem blank_append {left right : List Char} (hl : Blank left) (hr : Blank right) :
    Blank (left ++ right) := fun c hc => (List.mem_append.mp hc).elim (hl c) (hr c)

theorem skipBlanks_append {blanks : List Char} (h : Blank blanks) (cs : List Char) :
    skipBlanks (blanks ++ cs) = skipBlanks cs := List.dropWhile_append_of_pos h

theorem skipBlanks_cons {c : Char} (h : isBlank c = false) (cs : List Char) :
    skipBlanks (c :: cs) = c :: cs := List.dropWhile_cons_of_neg (by simp [h])

/-- A layout of blanks. -/
structure Layout.Blank (layout : Layout) : Prop where
  line : ∀ level, Json.Blank (layout.line level)
  gap : Json.Blank layout.gap

/-- What stands before a closing bracket; nothing does where the brackets hold nothing. -/
theorem Layout.Blank.closing {layout : Layout} (hl : layout.Blank) (first : Bool) (level : Nat) :
    Json.Blank (if first then [] else layout.line level) := by
  split
  · exact blank_nil
  · exact hl.line level

theorem Layout.blank_compact : Layout.compact.Blank := ⟨fun _ => blank_nil, blank_nil⟩

theorem Layout.blank_pretty : Layout.pretty.Blank := by
  constructor
  · intro level c hc
    rcases List.mem_cons.mp hc with rfl | hc
    · rfl
    · rw [List.eq_of_mem_replicate hc]
      rfl
  · intro c hc
    rw [List.mem_singleton.mp hc]
    rfl

theorem ends_blank {blanks : List Char} (h : Blank blanks) {rest : List Char} (hr : Ends rest) :
    Ends (blanks ++ rest) := by
  cases blanks with
  | nil => exact hr
  | cons c blanks =>
    have hc := h c List.mem_cons_self
    simp only [isBlank, Bool.or_eq_true, decide_eq_true_eq] at hc
    rcases hc with ((rfl | rfl) | rfl) | rfl
    all_goals exact ends_cons (by decide) (by decide) (by decide) (by decide)

/-! ### Texts that a scanner reads -/

/-- Whether a value starts with this character; a separator or a closing bracket does not start
one, and neither does a blank. -/
def startsValue (c : Char) : Bool := !isBlank c && c != ',' && c != ']' && c != '}'

/-- A text that starts as a value does. -/
abbrev Starts (text : List Char) : Prop := ∃ c cs, text = c :: cs ∧ startsValue c = true

/-- A text that a scanner reads, after any blanks and whatever follows, as what is `found`; it is at
fault where nothing is. -/
structure Decodes {α : Type} (scan : Scanner α) (text : List Char) (found : Option α) : Prop where
  starts : Starts text
  scan : ∀ blanks rest, Blank blanks → Ends rest →
    (scan (blanks ++ (text ++ rest))).toOption = found.map fun a => (a, rest)

/-- A text that a scanner reads as a value. -/
abbrev Scans {α : Type} (scan : Scanner α) (text : List Char) (a : α) : Prop :=
  Decodes scan text (some a)

section

variable {ε α β : Type}

theorem toOption_bind (x : Except ε α) (next : α → Except ε β) :
    (x >>= next).toOption = x.toOption.bind fun a => (next a).toOption := by
  cases x <;> rfl

end

variable {α β ν : Type} {scan : Scanner α} {text rest : List Char} {a : α} {found : Option α}

theorem Decodes.scan_here (h : Decodes scan text found) (hr : Ends rest) :
    (scan (text ++ rest)).toOption = found.map fun a => (a, rest) := h.scan [] rest blank_nil hr

theorem Scans.scan_here (h : Scans scan text a) (hr : Ends rest) :
    scan (text ++ rest) = .ok (a, rest) := toOption_eq_some.mp (Decodes.scan_here h hr)

/-- Blanks before the text are skipped down to it. -/
theorem skipBlanks_starts (h : Starts text) {blanks : List Char} (hb : Blank blanks)
    (rest : List Char) : ∃ c cs, skipBlanks (blanks ++ (text ++ rest)) = c :: cs ∧
      c :: cs = text ++ rest ∧ startsValue c = true := by
  obtain ⟨c, cs, ht, hc⟩ := h
  have hblank : isBlank c = false := by
    simp only [startsValue, Bool.and_eq_true, Bool.not_eq_true'] at hc
    exact hc.1.1.1
  refine ⟨c, cs ++ rest, ?_, ?_, hc⟩
  · rw [skipBlanks_append hb, ht]
    exact skipBlanks_cons hblank _
  · rw [ht]
    rfl

theorem startsValue_ne {c d : Char} (h : startsValue c = true) (hd : startsValue d = false) :
    c ≠ d := by
  rintro rfl
  rw [h] at hd
  cases hd

/-- The comma before a part that is not the first. -/
def comma (first : Bool) : List Char := if first then [] else [',']

/-! ### Lists -/

theorem anotherEntry_starts (h : Starts text) (first : Bool) {blanks : List Char}
    (hb : Blank blanks) (rest : List Char) :
    anotherEntry first (comma first ++ (blanks ++ (text ++ rest))) = .ok (true, text ++ rest) := by
  obtain ⟨c, cs, hskip, htext, hc⟩ := skipBlanks_starts h hb rest
  have hclose : c ≠ ']' := startsValue_ne hc (by decide)
  cases first with
  | true =>
    show anotherEntry true (blanks ++ (text ++ rest)) = _
    unfold anotherEntry
    rw [hskip]
    split
    next heq => cases heq
    next heq => exact absurd (List.cons.inj heq).1 hclose
    next heq => rw [if_pos rfl, ← heq, htext]
  | false =>
    show anotherEntry false (',' :: (blanks ++ (text ++ rest))) = _
    unfold anotherEntry
    rw [skipBlanks_cons (by decide)]
    split
    next heq => cases heq
    next heq => exact absurd (List.cons.inj heq).1 (by decide)
    next heq =>
      obtain ⟨rfl, rfl⟩ := List.cons.inj heq
      rw [if_neg Bool.false_ne_true, if_pos rfl, hskip]
      split
      next heq => cases heq
      next heq => exact absurd (List.cons.inj heq).1 hclose
      next => rw [htext]

theorem anotherEntry_close (first : Bool) {blanks : List Char} (hb : Blank blanks)
    (rest : List Char) : anotherEntry first (blanks ++ ']' :: rest) = .ok (false, ']' :: rest) := by
  unfold anotherEntry
  rw [skipBlanks_append hb]
  rfl

theorem closeList_close {blanks : List Char} (hb : Blank blanks) (rest : List Char) :
    closeList (blanks ++ ']' :: rest) = .ok ((), rest) := by
  unfold closeList
  rw [skipBlanks_append hb]
  rfl

theorem entriesWithin_step {entry : Scanner α} (h : Decodes entry text found) (first : Bool)
    {blanks : List Char} (hb : Blank blanks) (hr : Ends rest) (c : Char) (bound : List Char)
    (done : List α) :
    (entriesWithin entry (c :: bound) first done
        (comma first ++ (blanks ++ (text ++ rest)))).toOption =
      found.bind fun a => (entriesWithin entry bound false (a :: done) rest).toOption := by
  rw [entriesWithin, anotherEntry_starts h.starts first hb]
  show (entry (text ++ rest) >>= fun p =>
    entriesWithin entry bound false (p.1 :: done) p.2).toOption = _
  rw [toOption_bind, h.scan_here hr]
  cases found <;> rfl

variable {number : ν → List Char} {layout : Layout}

/-- The text of entries, of which the first is or is not the first of the list, and of the bracket
that closes them. -/
def entriesText (number : ν → List Char) (layout : Layout) (level : Nat) (first : Bool) :
    List (Tree ν) → List Char
  | [] => (if first then [] else layout.line level) ++ [']']
  | entry :: rest =>
    comma first ++ (layout.line (level + 1) ++ (entry.text number layout (level + 1) ++
      entriesText number layout level false rest))

theorem laterEntries_eq (level : Nat) (entries : List (Tree ν)) :
    laterEntries number layout level entries = entriesText number layout level false entries := by
  induction entries with
  | nil => rfl
  | cons entry rest ih =>
    rw [laterEntries, entriesText, ih]
    simp [comma]

theorem text_array (level : Nat) (entries : List (Tree ν)) :
    (Tree.array entries).text number layout level =
      '[' :: entriesText number layout level true entries := by
  cases entries with
  | nil => rfl
  | cons entry rest =>
    rw [Tree.text, laterEntries_eq, entriesText]
    simp [comma]

theorem ends_entriesText (number : ν → List Char) (hl : layout.Blank) (level : Nat)
    (entries : List (Tree ν)) (rest : List Char) :
    Ends (entriesText number layout level false entries ++ rest) := by
  cases entries with
  | nil =>
    rw [entriesText, List.append_assoc]
    exact ends_blank (hl.line level) (ends_cons (by decide) (by decide) (by decide) (by decide))
  | cons entry more => exact ends_cons (by decide) (by decide) (by decide) (by decide)

theorem length_lt_entriesText (level : Nat) (first : Bool) (entries : List (Tree ν))
    (h : ∀ e ∈ entries, Starts (e.text number layout (level + 1))) :
    entries.length < (entriesText number layout level first entries).length := by
  induction entries generalizing first with
  | nil => simp [entriesText]
  | cons e entries ih =>
    have hrest := ih false fun e he => h e (List.mem_cons_of_mem _ he)
    obtain ⟨c, cs, hc, _⟩ := h e List.mem_cons_self
    simp only [entriesText, hc, List.length_append, List.length_cons]
    omega

/-- The entries of a list are read as what each of them is found to be. -/
theorem entriesWithin_text (hl : layout.Blank) (level : Nat) {entry : Scanner α}
    {tree : β → Tree ν} {value : β → Option α} {shown : List β}
    (h : ∀ b ∈ shown, Decodes entry ((tree b).text number layout (level + 1)) (value b))
    (first : Bool) (bound : List Char) (done : List α) (rest : List Char)
    (hb : shown.length < bound.length) :
    (entriesWithin entry bound first done
        (entriesText number layout level first (shown.map tree) ++ rest)).toOption =
      (shown.mapM value).map fun as => (done.reverse ++ as, rest) := by
  -- The bound has a character for every entry that is left and one for the closing bracket.
  induction shown generalizing first bound done with
  | nil =>
    obtain ⟨c, bound, rfl⟩ := List.exists_cons_of_length_pos hb
    rw [List.map_nil, entriesText, List.append_assoc, entriesWithin, List.singleton_append,
      anotherEntry_close first (hl.closing first level)]
    have hclose : closeList (']' :: rest) = .ok ((), rest) := closeList_close blank_nil rest
    simp [hclose, bind, Except.bind, pure, Except.pure, Except.toOption]
  | cons b shown ih =>
    obtain ⟨c, bound, rfl⟩ := List.exists_cons_of_length_pos (Nat.zero_lt_of_lt hb)
    have hstep := entriesWithin_step (h b List.mem_cons_self) first (hl.line (level + 1))
      (ends_entriesText number hl level (shown.map tree) rest) c bound done
    have hrest := fun a => ih (fun b hb => h b (List.mem_cons_of_mem _ hb)) false bound (a :: done)
      (Nat.lt_of_succ_lt_succ hb)
    rw [List.map_cons, entriesText, List.append_assoc, List.append_assoc, List.append_assoc, hstep,
      List.mapM_cons]
    cases hv : value b with
    | none => rfl
    | some a =>
      rw [Option.bind_some, hrest a]
      cases shown.mapM value <;> simp

/-- The text of a list after its opening bracket. -/
theorem entries_text (hl : layout.Blank) (level : Nat) {entry : Scanner α} {tree : β → Tree ν}
    {value : β → Option α} {shown : List β}
    (h : ∀ b ∈ shown, Decodes entry ((tree b).text number layout (level + 1)) (value b))
    (rest : List Char) :
    (entries entry (entriesText number layout level true (shown.map tree) ++ rest)).toOption =
      (shown.mapM value).map fun as => (as, rest) := by
  have hstarts : ∀ e ∈ shown.map tree, Starts (e.text number layout (level + 1)) := by
    intro e he
    obtain ⟨b, hb, rfl⟩ := List.mem_map.mp he
    exact (h b hb).starts
  have hlength := length_lt_entriesText level true (shown.map tree) hstarts
  rw [List.length_map] at hlength
  rw [entries, entriesWithin_text hl level h true _ [] rest]
  · rfl
  · rw [List.length_append]
    omega

/-! ### Objects -/

theorem nextName_starts (first : Bool) {blanks : List Char} (hb : Blank blanks) (name : String)
    (rest : List Char) :
    nextName first (comma first ++ (blanks ++ (stringText name ++ rest))) =
      .ok (some name, rest) := by
  cases first with
  | true =>
    show nextName true (blanks ++ (stringText name ++ rest)) = _
    unfold nextName
    rw [skipBlanks_append hb, stringText_append, skipBlanks_cons (by decide)]
    simp [stringRest_text, Except.map]
  | false =>
    show nextName false (',' :: (blanks ++ (stringText name ++ rest))) = _
    unfold nextName
    rw [skipBlanks_cons (by decide)]
    split
    next heq => cases heq
    next heq => exact absurd (List.cons.inj heq).1 (by decide)
    next heq =>
      obtain ⟨rfl, rfl⟩ := List.cons.inj heq
      rw [if_neg Bool.false_ne_true, if_pos rfl, skipBlanks_append hb, stringText_append,
        skipBlanks_cons (by decide)]
      simp [stringRest_text, Except.map]

theorem nextName_close (first : Bool) {blanks : List Char} (hb : Blank blanks) (rest : List Char) :
    nextName first (blanks ++ '}' :: rest) = .ok (none, '}' :: rest) := by
  unfold nextName
  rw [skipBlanks_append hb]
  rfl

theorem closeObject_close (rest : List Char) : closeObject ('}' :: rest) = .ok ((), rest) := rfl

theorem membersWithin_step {value : Scanner α} (h : Decodes value text found) (first : Bool)
    (name : String) {blanks gap : List Char} (hb : Blank blanks) (hg : Blank gap) (hr : Ends rest)
    (c : Char) (bound : List Char) (done : List (String × α)) :
    (membersWithin value (c :: bound) first done
        (comma first ++ (blanks ++ (stringText name ++ ':' :: (gap ++ (text ++ rest)))))).toOption =
      found.bind fun a =>
        (membersWithin value bound false ((name, a) :: done) rest).toOption := by
  rw [membersWithin, nextName_starts first hb]
  show (value (gap ++ (text ++ rest)) >>= fun p =>
    membersWithin value bound false ((name, p.1) :: done) p.2).toOption = _
  rw [toOption_bind, h.scan gap rest hg hr]
  cases found <;> rfl

/-- The text of members, of which the first is or is not the first of the object, and of the brace
that closes them. -/
def membersText (number : ν → List Char) (layout : Layout) (level : Nat) (first : Bool) :
    List (String × Tree ν) → List Char
  | [] => (if first then [] else layout.line level) ++ ['}']
  | (name, value) :: rest =>
    comma first ++ (layout.line (level + 1) ++ (stringText name ++ ':' :: (layout.gap ++
      (value.text number layout (level + 1) ++ membersText number layout level false rest))))

theorem laterMembers_eq (level : Nat) (members : List (String × Tree ν)) :
    laterMembers number layout level members = membersText number layout level false members := by
  induction members with
  | nil => rfl
  | cons member rest ih =>
    rw [laterMembers, membersText, ih]
    simp [comma]

theorem text_object (level : Nat) (members : List (String × Tree ν)) :
    (Tree.object members).text number layout level =
      '{' :: membersText number layout level true members := by
  cases members with
  | nil => rfl
  | cons member rest =>
    rw [Tree.text, laterMembers_eq, membersText]
    simp [comma]

theorem ends_membersText (number : ν → List Char) (hl : layout.Blank) (level : Nat)
    (members : List (String × Tree ν)) (rest : List Char) :
    Ends (membersText number layout level false members ++ rest) := by
  cases members with
  | nil =>
    rw [membersText, List.append_assoc]
    exact ends_blank (hl.line level) (ends_cons (by decide) (by decide) (by decide) (by decide))
  | cons member more => exact ends_cons (by decide) (by decide) (by decide) (by decide)

theorem length_lt_membersText (number : ν → List Char) (layout : Layout) (level : Nat)
    (first : Bool) (members : List (String × Tree ν)) :
    members.length < (membersText number layout level first members).length := by
  induction members generalizing first with
  | nil => simp [membersText]
  | cons m members ih =>
    have hrest := ih false
    simp only [membersText, List.length_append, List.length_cons]
    omega

/-- The members of an object are read as what each of them is found to be. -/
theorem membersWithin_text (hl : layout.Blank) (level : Nat) {value : Scanner α} {g : Tree ν → α}
    {members : List (String × Tree ν)}
    (h : ∀ m ∈ members, Scans value (m.2.text number layout (level + 1)) (g m.2)) (first : Bool)
    (bound : List Char) (done : List (String × α)) (rest : List Char)
    (hb : members.length < bound.length) :
    (membersWithin value bound first done
        (membersText number layout level first members ++ rest)).toOption =
      some (done.reverse ++ members.map fun m => (m.1, g m.2), rest) := by
  induction members generalizing first bound done with
  | nil =>
    obtain ⟨c, bound, rfl⟩ := List.exists_cons_of_length_pos hb
    rw [membersText, List.append_assoc, membersWithin, List.singleton_append,
      nextName_close first (hl.closing first level)]
    simp [closeObject_close, bind, Except.bind, pure, Except.pure, Except.toOption]
  | cons m members ih =>
    obtain ⟨c, bound, rfl⟩ := List.exists_cons_of_length_pos (Nat.zero_lt_of_lt hb)
    have hstep := membersWithin_step (h m List.mem_cons_self) first m.1 (hl.line (level + 1)) hl.gap
      (ends_membersText number hl level members rest) c bound done
    have hrest := ih (fun m hm => h m (List.mem_cons_of_mem _ hm)) false bound
      ((m.1, g m.2) :: done) (Nat.lt_of_succ_lt_succ hb)
    have htext : membersText number layout level first (m :: members) ++ rest =
        comma first ++ (layout.line (level + 1) ++ (stringText m.1 ++ ':' :: (layout.gap ++
          (m.2.text number layout (level + 1) ++
            (membersText number layout level false members ++ rest))))) := by
      simp [membersText]
    rw [htext, hstep, Option.bind_some, hrest]
    simp

end RenderMesh.Json
