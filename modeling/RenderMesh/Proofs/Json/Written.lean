import RenderMesh.Proofs.Json.Taken.Record

/-!
# Lists and objects as they are written

A list or an object in a text, with all its blanks and in the order in which its parts stand. What
decodes alone is read in its place, and reading passes each part from its start to its last blanks,
whether it asks for it or not.
-/

namespace RenderMesh.Json

variable {α σ : Type} {part rest tail : List Char} {a : α}

/-! ### Values in their place -/

theorem Takes.read_congr {scan : Scanner α} (h : Takes scan) {cs other : List Char}
    (hcs : skipBlanks cs = skipBlanks other) : scan cs = scan other := by
  rw [← h.blanks cs, hcs, h.blanks]

/-- A value that decodes alone is read wherever its text stands. -/
theorem Takes.read_append {scan : Scanner α} (h : Takes scan)
    (hw : readWhole scan (String.ofList part) = .ok a) :
    ∃ left, Blank left ∧ ∀ tail, Ends tail → scan (part ++ tail) = .ok (a, left ++ tail) := by
  obtain ⟨⟨b, left⟩, hb, hleft⟩ := bind_eq_ok.mp hw
  rw [String.toList_ofList] at hb
  dsimp only at hleft
  split at hleft
  next hempty =>
    cases hleft
    refine ⟨left, ?_, fun tail ht => h.steady ht hb⟩
    exact List.dropWhile_eq_nil_iff.mp (List.isEmpty_iff.mp hempty)
  next => cases hleft

/-- A reader of a JSON text leaves its last blanks and what follows. -/
theorem Takes.left_of_read {scan : Scanner α} (h : Takes scan) (hjson : JsonText part)
    (ht : Ends tail) (hr : scan (part ++ tail) = .ok (a, rest)) :
    ∃ left, Blank left ∧ rest = left ++ tail := by
  obtain ⟨left, hleft, hskips⟩ := hjson.passed ht
  exact ⟨left, hleft, (h.skips hr).unique hskips⟩

theorem readWhole_of_read {scan : Scanner α} {left : List Char} (hleft : Blank left)
    (h : scan part = .ok (a, left)) : readWhole scan (String.ofList part) = .ok a := by
  have hempty : skipBlanks left = [] := List.dropWhile_eq_nil_iff.mpr hleft
  refine bind_eq_ok.mpr ⟨(a, left), by rw [String.toList_ofList]; exact h, ?_⟩
  dsimp only
  rw [hempty]
  rfl

/-- A text that a reader finds a value in, where something or other follows. -/
def FoundIn (scan : Scanner α) (part : List Char) (a : α) : Prop :=
  ∃ tail, Ends tail ∧ ∃ rest, scan (part ++ tail) = .ok (a, rest)

theorem FoundIn.of_readWhole {scan : Scanner α} (h : readWhole scan (String.ofList part) = .ok a) :
    FoundIn scan part a := by
  obtain ⟨⟨b, left⟩, hscan, hrest⟩ := bind_eq_ok.mp h
  rw [String.toList_ofList] at hscan
  dsimp only at hrest
  split at hrest
  next =>
    cases hrest
    exact ⟨[], ends_nil, left, by rw [List.append_nil]; exact hscan⟩
  next => cases hrest

/-- What is found nowhere is at fault. -/
theorem error_of_not_found {scan : Scanner α} (h : ∀ a, ¬FoundIn scan part a) :
    ∃ fault, readWhole scan (String.ofList part) = .error fault := by
  cases hread : readWhole scan (String.ofList part) with
  | error fault => exact ⟨fault, rfl⟩
  | ok a => exact absurd (.of_readWhole hread) (h a)

/-- A value that decodes alone is the one that is found. -/
theorem FoundIn.eq_of_readWhole {scan : Scanner α} (h : Takes scan) {b : α}
    (hfound : FoundIn scan part b) (hw : readWhole scan (String.ofList part) = .ok a) : b = a := by
  obtain ⟨tail, ht, rest, hr⟩ := hfound
  obtain ⟨left, _, hin⟩ := h.read_append hw
  have heq := hr.symm.trans (hin tail ht)
  cases heq
  rfl

/-! ### Lists -/

/-- A list as it stands in a text, the blanks around it included. -/
structure ListText where
  before : List Char := []
  space : List Char := []
  entries : List (List Char)
  after : List Char := []

namespace ListText

def text (list : ListText) : List Char :=
  list.before ++ (enclosed .list list.space list.entries ++ list.after)

structure Grammatical (list : ListText) : Prop where
  before : Blank list.before
  space : Blank list.space
  after : Blank list.after
  entries : ∀ entry ∈ list.entries, JsonText entry

theorem Grammatical.json {list : ListText} (h : list.Grammatical) : JsonText list.text :=
  .spaced h.before (.list h.space h.entries) h.after

end ListText

theorem length_partsText (first : Bool) {parts : List (List Char)} (h : ∀ part ∈ parts, part ≠ []) :
    parts.length ≤ (partsText first parts).length := by
  induction parts generalizing first with
  | nil => exact Nat.le_refl _
  | cons part parts ih =>
    have hpart := List.length_pos_iff.mpr (h part List.mem_cons_self)
    have hparts := ih false fun p hp => h p (List.mem_cons_of_mem _ hp)
    simp only [partsText, List.length_append, List.length_cons]
    omega

theorem JsonText.ne_nil (h : JsonText part) : part ≠ [] := by
  rintro rfl
  obtain ⟨left, _, hskips⟩ := h.passed ends_nil
  obtain ⟨c, after, hc, _⟩ := hskips.starts
  cases hc

theorem anotherEntry_part (first : Bool) {blanks : List Char} (hb : Blank blanks)
    (h : JsonText part) (ht : Ends tail) : ∃ next,
      anotherEntry first (blanks ++ (comma first ++ (part ++ tail))) = .ok (true, next) ∧
        skipBlanks next = skipBlanks (part ++ tail) := by
  obtain ⟨left, _, hskips⟩ := h.passed ht
  obtain ⟨c, after, hc, hclose⟩ := hskips.starts
  have hne : c ≠ ']' := hclose .list
  cases first with
  | true =>
    refine ⟨c :: after, ?_, by rw [← hc, skipBlanks_skipBlanks]⟩
    show anotherEntry true (blanks ++ (part ++ tail)) = _
    rw [anotherEntry, skipBlanks_append hb, hc]
    simp
  | false =>
    refine ⟨c :: after, ?_, by rw [← hc, skipBlanks_skipBlanks]⟩
    show anotherEntry false (blanks ++ ',' :: (part ++ tail)) = _
    rw [anotherEntry, skipBlanks_append hb, skipBlanks_cons (by decide)]
    simp [hc, hne]

section

variable {entry : Scanner α} {parts : List (List Char)}

/-- Entries that decode alone are read one after another. -/
theorem entriesWithin_parts (h : Takes entry) {as : List α}
    (hread : List.Forall₂ (fun part a => readWhole entry (String.ofList part) = .ok a) parts as)
    (hjson : ∀ part ∈ parts, JsonText part) (first : Bool) {blanks : List Char}
    (hb : Blank blanks) (bound : List Char) (hbound : parts.length < bound.length) (done : List α)
    (tail : List Char) :
    entriesWithin entry bound first done (blanks ++ (partsText first parts ++ ']' :: tail)) =
      .ok (done.reverse ++ as, tail) := by
  induction hread generalizing first blanks bound done with
  | nil =>
    obtain ⟨b, bound, rfl⟩ := List.exists_cons_of_length_pos hbound
    refine bind_eq_ok.mpr ⟨_, anotherEntry_close first hb tail, ?_⟩
    exact bind_eq_ok.mpr ⟨_, closeList_close blank_nil tail, by rw [List.append_nil]; rfl⟩
  | @cons part a parts as hpart _ ih =>
    obtain ⟨b, bound, rfl⟩ := List.exists_cons_of_length_pos (Nat.zero_lt_of_lt hbound)
    have htail := ends_partsText .list parts tail
    obtain ⟨next, hnext, hsame⟩ := anotherEntry_part first hb (hjson part List.mem_cons_self) htail
    obtain ⟨left, hleft, hin⟩ := h.read_append hpart
    have hvalue := (h.read_congr hsame).trans (hin _ htail)
    have hrest := ih (fun p hp => hjson p (List.mem_cons_of_mem _ hp)) false hleft bound
      (Nat.lt_of_succ_lt_succ hbound) (a :: done)
    rw [partsText, List.append_assoc, List.append_assoc]
    refine bind_eq_ok.mpr ⟨_, hnext, bind_eq_ok.mpr ⟨_, hvalue, hrest.trans ?_⟩⟩
    rw [List.reverse_cons, List.append_assoc]
    rfl

/-- In a list that is read, every entry is found in its place. -/
theorem found_of_entriesWithin (h : Takes entry) (hjson : ∀ part ∈ parts, JsonText part)
    {first : Bool} {blanks : List Char} (hb : Blank blanks) {bound : List Char}
    {done found : List α} (hf : entriesWithin entry bound first done
      (blanks ++ (partsText first parts ++ ']' :: tail)) = .ok (found, rest)) :
    ∃ as, found = done.reverse ++ as ∧ List.Forall₂ (FoundIn entry) parts as := by
  induction parts generalizing first blanks bound done with
  | nil =>
    cases bound with
    | nil => cases hf
    | cons b bound =>
      obtain ⟨⟨more, afterGap⟩, hgap, hf⟩ := bind_eq_ok.mp hf
      cases (anotherEntry_close first hb tail).symm.trans hgap
      obtain ⟨_, _, hf⟩ := bind_eq_ok.mp hf
      cases hf
      exact ⟨[], (List.append_nil _).symm, .nil⟩
  | cons part parts ih =>
    cases bound with
    | nil => cases hf
    | cons b bound =>
      have htail := ends_partsText .list parts tail
      have hpart := hjson part List.mem_cons_self
      obtain ⟨next, hnext, hsame⟩ := anotherEntry_part first hb hpart htail
      obtain ⟨⟨more, afterGap⟩, hgap, hf⟩ := bind_eq_ok.mp hf
      rw [partsText, List.append_assoc, List.append_assoc] at hgap
      cases hnext.symm.trans hgap
      obtain ⟨⟨a, afterEntry⟩, hentry, hf⟩ := bind_eq_ok.mp hf
      have hread := (h.read_congr hsame).symm.trans hentry
      obtain ⟨left, hleft, rfl⟩ := h.left_of_read hpart htail hread
      obtain ⟨as, rfl, hfound⟩ := ih (fun p hp => hjson p (List.mem_cons_of_mem _ hp)) hleft hf
      refine ⟨a :: as, ?_, .cons ⟨_, htail, _, hread⟩ hfound⟩
      rw [List.reverse_cons, List.append_assoc]
      rfl

end

namespace ListText

variable {list : ListText} {codec : Codec α}

theorem read_array (h : list.Grammatical) (tail : List Char) :
    (Codec.array codec).read (list.text ++ tail) =
      (Json.entries codec.read (list.space ++ (partsText true list.entries ++
        ']' :: (list.after ++ tail)))).map fun p => (p.1.toArray, p.2) := by
  have htext : list.text ++ tail = list.before ++ ('[' :: (list.space ++
      (partsText true list.entries ++ ']' :: (list.after ++ tail)))) := by
    simp [text, enclosed, Bracket.opening, Bracket.closing]
  have hskip : skipBlanks (list.text ++ tail) = '[' :: (list.space ++
      (partsText true list.entries ++ ']' :: (list.after ++ tail))) := by
    rw [htext, skipBlanks_append h.before, skipBlanks_cons (by decide)]
  simp only [Codec.array, hskip]

/-- Entries that decode make up a list that decodes. -/
theorem parse_array (hc : Takes codec.read) (h : list.Grammatical) {as : List α}
    (hread : list.entries.Forall₂ (fun part a => codec.parse (String.ofList part) = .ok a) as) :
    (Codec.array codec).parse (String.ofList list.text) = .ok as.toArray := by
  have hlength := length_partsText true fun part hp => (h.entries part hp).ne_nil
  have hfound := entriesWithin_parts hc hread h.entries true h.space
    (list.space ++ (partsText true list.entries ++ ']' :: list.after))
    (by simp only [List.length_append, List.length_cons]; omega) [] list.after
  have htext : (Codec.array codec).read (list.text ++ []) = _ := read_array h []
  rw [List.append_nil, List.append_nil] at htext
  exact readWhole_of_read h.after (htext.trans (map_eq_ok.mpr ⟨_, hfound, rfl⟩))

/-- In a list that decodes, every entry is found in its place. -/
theorem found_of_array (hc : Takes codec.read) (h : list.Grammatical) {as : Array α}
    (hfound : FoundIn (Codec.array codec).read list.text as) :
    List.Forall₂ (FoundIn codec.read) list.entries as.toList := by
  obtain ⟨tail, _, rest, hf⟩ := hfound
  rw [read_array h] at hf
  obtain ⟨⟨found, left⟩, hentries, hpair⟩ := map_eq_ok.mp hf
  cases hpair
  obtain ⟨as, rfl, hfound⟩ := found_of_entriesWithin hc h.entries h.space hentries
  exact hfound

end ListText

/-! ### Objects -/

/-- An object as it stands in a text, the blanks around it included. -/
structure ObjectText where
  before : List Char := []
  space : List Char := []
  members : List Member
  after : List Char := []

namespace ObjectText

def text (object : ObjectText) : List Char :=
  object.before ++ (enclosed .object object.space (object.members.map Member.text) ++ object.after)

structure Grammatical (object : ObjectText) : Prop where
  before : Blank object.before
  space : Blank object.space
  after : Blank object.after
  framed : ∀ m ∈ object.members, m.Framed
  values : ∀ m ∈ object.members, JsonText m.value

theorem Grammatical.json {object : ObjectText} (h : object.Grammatical) : JsonText object.text :=
  .spaced h.before (.object h.space h.framed h.values) h.after

end ObjectText

/-- Every JSON text that starts with a brace, after blanks or not, is an object. -/
theorem JsonText.object_of_brace {text : List Char} (h : JsonText text) {inner : List Char}
    (hbrace : skipBlanks text = '{' :: inner) :
    ∃ object : ObjectText, object.Grammatical ∧ object.text = text := by
  induction h generalizing inner with
  | @spaced before text after left value right ih =>
    obtain ⟨last, _, hskips⟩ := value.passed ends_nil
    obtain ⟨c, more, hc, _⟩ := hskips.starts
    rw [List.append_nil] at hc
    rw [skipBlanks_append left, skipBlanks_append_of_cons hc] at hbrace
    cases hbrace
    obtain ⟨object, h, rfl⟩ := ih hc
    refine ⟨⟨before ++ object.before, object.space, object.members, object.after ++ after⟩,
      ⟨blank_append left h.before, h.space, blank_append h.after right, h.framed, h.values⟩, ?_⟩
    simp [ObjectText.text]
  | number grammatical =>
    obtain ⟨c, cs, rfl, hc⟩ := grammatical.head
    rw [skipBlanks_cons (Value.isBlank_of_startsLiteral hc)] at hbrace
    cases hbrace
    cases hc
  | @object space members blank framed values =>
    exact ⟨⟨[], space, members, []⟩, ⟨blank_nil, blank, blank_nil, framed, values⟩, by
      simp [ObjectText.text]⟩
  | _ => cases hbrace

/-! ### Names -/

/-- Characters that stand for themselves between quotes. -/
def Plain (body : List Char) : Prop := ∀ c ∈ body, c ≠ '"' ∧ c ≠ '\\' ∧ ¬c < ' '

instance (body : List Char) : Decidable (Plain body) := List.decidableBAll _ body

theorem Plain.denotes {body : List Char} (h : Plain body) : Denotes body body := by
  induction body with
  | nil => exact .nil
  | cons c body ih =>
    obtain ⟨⟨quote, slash, control⟩, more⟩ := List.forall_mem_cons.mp h
    exact .plain quote slash control (ih more)

theorem Plain.stringBody {body : List Char} (h : Plain body) : StringBody body :=
  h.denotes.stringBody

namespace Member

variable {m : Member} {name : String}

/-- A key that spells a name. One with half a pair of surrogates spells none. -/
def Named (m : Member) : Prop := ∃ chars, Denotes m.key chars

/-- The name that a key spells, if it spells one. -/
def name? (m : Member) : Option String := (stringRest (m.key ++ ['"'])).toOption.map Prod.fst

theorem Framed.denotes_of_stringRest (h : m.Framed) {left : List Char}
    (hr : stringRest (m.key ++ '"' :: rest) = .ok (name, left)) :
    left = rest ∧ Denotes m.key name.toList := by
  have hskip := skipString_of_stringRest hr
  rw [h.key.skipString rest] at hskip
  cases hskip
  obtain ⟨body, hbody, hdenotes⟩ := stringRest_iff.mp hr
  exact ⟨rfl, List.append_cancel_right hbody ▸ hdenotes⟩

theorem Framed.name?_eq_some_iff (h : m.Framed) :
    m.name? = some name ↔ Denotes m.key name.toList := by
  constructor
  · intro hname
    obtain ⟨p, hp, rfl⟩ := Option.map_eq_some_iff.mp hname
    exact (h.denotes_of_stringRest (toOption_eq_some.mp hp)).2
  · intro hdenotes
    have hread : Json.stringRest (m.key ++ ['"']) = .ok (name, []) :=
      stringRest_iff.mpr ⟨_, rfl, hdenotes⟩
    rw [name?, hread]
    rfl

theorem Framed.isSome_name? (h : m.Framed) (hnamed : m.Named) : m.name?.isSome = true := by
  obtain ⟨chars, hdenotes⟩ := hnamed
  rw [← String.toList_ofList (l := chars)] at hdenotes
  exact Option.isSome_iff_exists.mpr ⟨_, h.name?_eq_some_iff.mpr hdenotes⟩

theorem Framed.stringRest (h : m.Framed) (hname : m.name? = some name) (rest : List Char) :
    stringRest (m.key ++ '"' :: (m.gap ++ ':' :: rest)) = .ok (name, m.gap ++ ':' :: rest) :=
  stringRest_iff.mpr ⟨_, rfl, h.name?_eq_some_iff.mp hname⟩

theorem Framed.nextName (h : m.Framed) (first : Bool) {blanks : List Char} (hb : Blank blanks)
    (rest : List Char) : nextName first (blanks ++ (comma first ++ (m.start ++ rest))) =
      (Json.stringRest (m.key ++ '"' :: (m.gap ++ ':' :: rest))).map fun p => (some p.1, p.2) := by
  cases first with
  | true =>
    show Json.nextName true (blanks ++ (m.start ++ rest)) = _
    rw [Json.nextName, h.skipBlanks hb]
    rfl
  | false =>
    have hcomma : Json.skipBlanks (blanks ++ ',' :: (m.start ++ rest)) =
        ',' :: (m.start ++ rest) := by
      rw [skipBlanks_append hb, skipBlanks_cons (by decide)]
    have hstart := h.skipBlanks blank_nil rest
    rw [List.nil_append] at hstart
    show Json.nextName false (blanks ++ ',' :: (m.start ++ rest)) = _
    simp [Json.nextName, hcomma, hstart]

end Member

/-- Members with plain keys make up an object, and their keys spell names. -/
theorem ObjectText.grammatical_of_plain {object : ObjectText}
    (houter : Blank object.before ∧ Blank object.space ∧ Blank object.after)
    (hplain : ∀ m ∈ object.members, Blank m.before ∧ Plain m.key ∧ Blank m.gap)
    (hvalues : ∀ m ∈ object.members, JsonText m.value) :
    object.Grammatical ∧ ∀ m ∈ object.members, m.Named := by
  obtain ⟨hbefore, hspace, hafter⟩ := houter
  refine ⟨⟨hbefore, hspace, hafter, fun m hm => ?_, hvalues⟩, fun m hm => ?_⟩
  · obtain ⟨hblank, hkey, hgap⟩ := hplain m hm
    exact ⟨hblank, hkey.stringBody, hgap⟩
  · exact ⟨_, (hplain m hm).2.1.denotes⟩

/-- The values of members by the names that their keys spell. -/
def namedValues (members : List Member) : List (String × List Char) :=
  members.filterMap fun m => m.name?.map fun name => (name, m.value)

end RenderMesh.Json
