import RenderMesh.Proofs.Json.Record
import RenderMesh.Proofs.Json.Written

/-!
# Objects that leave members out

An object names some of the fields of a record, in any order and each at most once, and says what it
likes under other names. It is read as the record whose named fields are what was given for them and
whose other fields are as they were at first. A field that is named twice is a fault.
-/

namespace RenderMesh.Json

variable {σ : Type} {rest tail : List Char}

/-! ### Members of a record -/

namespace Record

variable {record : Record σ}

/-- The field that a name stands for. -/
def field? (record : Record σ) (name : String) : Option (RecordField σ) :=
  record.fields.find? fun field => field.name == name

/-- The values that members give for fields. -/
def known (record : Record σ) (members : List Member) : List (String × List Char) :=
  (namedValues members).filter fun p => (record.field? p.1).isSome

theorem known_cons_of_field {m : Member} {members : List Member} {name : String}
    {field : RecordField σ} (hname : m.name? = some name)
    (hfield : record.field? name = some field) :
    record.known (m :: members) = (name, m.value) :: record.known members := by
  simp [known, namedValues, hname, hfield]

theorem known_cons_of_other {m : Member} {members : List Member}
    (h : ∀ name, m.name? = some name → record.field? name = none) :
    record.known (m :: members) = record.known members := by
  cases hname : m.name? with
  | none => simp [known, namedValues, hname]
  | some name => simp [known, namedValues, hname, h name hname]

section

variable {m : Member} {name : String} {blanks : List Char}

theorem nextName_text (h : m.Framed) (hname : m.name? = some name) (first : Bool)
    (hb : Blank blanks) (tail : List Char) :
    nextName first (blanks ++ (comma first ++ (m.text ++ tail))) =
      .ok (some name, m.gap ++ ':' :: (m.value ++ tail)) := by
  rw [Member.text, List.append_assoc, h.nextName first hb, h.stringRest hname]
  rfl

/-- A member whose value is skipped or read, and the members after it. -/
theorem membersInto_member (h : m.Framed) (hname : m.name? = some name) {first : Bool}
    (hb : Blank blanks) {b : Char} {bound left : List Char} {seen seen' : List String}
    {s s' found : σ} (hstep : record.ValueStep name seen s (m.value ++ tail) seen' s' left)
    (hf : record.membersInto bound false seen' s' left = .ok (found, rest)) :
    record.membersInto (b :: bound) first seen s (blanks ++ (comma first ++ (m.text ++ tail))) =
      .ok (found, rest) :=
  membersInto_eq_ok_iff.mpr (Or.inr ⟨name, _, _, left, seen', s',
    nextName_text h hname first hb tail, h.colon _, hstep, hf⟩)

end

/-- The field that a value is for and what it does to a record, if it decodes. -/
def effect? (record : Record σ) (p : String × List Char) : Option (RecordField σ × (σ → σ)) :=
  (record.field? p.1).bind fun field =>
    (readWhole field.read (String.ofList p.2)).toOption.map fun set => (field, set)

/-- A record after values were read into it. -/
def after (record : Record σ) (s : σ) (values : List (String × List Char)) : σ :=
  (values.filterMap record.effect?).foldl (fun s e => e.2 s) s

theorem after_cons {p : String × List Char} {field : RecordField σ} {set : σ → σ}
    (h : record.effect? p = some (field, set)) (s : σ) (values : List (String × List Char)) :
    record.after s (p :: values) = record.after (set s) values := by
  simp [after, h]

theorem exists_of_effect? {name : String} {value : List Char} {field : RecordField σ}
    (hfield : record.field? name = some field)
    (h : (record.effect? (name, value)).isSome = true) :
    ∃ set, readWhole field.read (String.ofList value) = .ok set ∧
      record.effect? (name, value) = some (field, set) := by
  cases hread : readWhole field.read (String.ofList value) with
  | error fault =>
    rw [effect?, hfield, Option.bind_some, hread] at h
    cases h
  | ok set =>
    refine ⟨set, rfl, ?_⟩
    rw [effect?, hfield, Option.bind_some, hread]
    rfl

/-- What members have to be for a record to be read from them, after the fields of some names. -/
structure Readable (record : Record σ) (seen : List String) (members : List Member) : Prop where
  framed : ∀ m ∈ members, m.Framed
  values : ∀ m ∈ members, JsonText m.value
  names : ∀ m ∈ members, m.name?.isSome = true
  once : ((record.known members).map Prod.fst).Nodup
  unseen : ∀ p ∈ record.known members, p.1 ∉ seen
  decodes : ∀ p ∈ record.known members, (record.effect? p).isSome = true

theorem Readable.of_other {seen : List String} {m : Member} {members : List Member}
    (h : record.Readable seen (m :: members))
    (hknown : record.known (m :: members) = record.known members) :
    record.Readable seen members :=
  ⟨(List.forall_mem_cons.mp h.framed).2, (List.forall_mem_cons.mp h.values).2,
    (List.forall_mem_cons.mp h.names).2, hknown ▸ h.once, hknown ▸ h.unseen, hknown ▸ h.decodes⟩

theorem Readable.next {seen : List String} {m : Member} {members : List Member} {name : String}
    (h : record.Readable seen (m :: members))
    (hknown : record.known (m :: members) = (name, m.value) :: record.known members) :
    name ∉ seen ∧ (record.effect? (name, m.value)).isSome = true ∧
      record.Readable (name :: seen) members := by
  have honce := h.once
  have hunseen := h.unseen
  have hdecodes := h.decodes
  rw [hknown] at honce hunseen hdecodes
  obtain ⟨hnew, honce⟩ := List.nodup_cons.mp honce
  obtain ⟨hseen, hunseen⟩ := List.forall_mem_cons.mp hunseen
  obtain ⟨heffect, hdecodes⟩ := List.forall_mem_cons.mp hdecodes
  refine ⟨hseen, heffect, (List.forall_mem_cons.mp h.framed).2,
    (List.forall_mem_cons.mp h.values).2, (List.forall_mem_cons.mp h.names).2, honce,
    fun p hp hmem => ?_, hdecodes⟩
  rcases List.mem_cons.mp hmem with heq | hold
  · exact hnew (List.mem_map.mpr ⟨p, hp, heq⟩)
  · exact hunseen p hp hold

/-- Members that can be read are, one after another. -/
theorem membersInto_members (hfields : FieldsTake record.fields)
    (hpartial : record.complete = false) {members : List Member} {seen : List String}
    (h : record.Readable seen members) (first : Bool) {blanks : List Char} (hb : Blank blanks)
    (bound : List Char) (hbound : members.length < bound.length) (s : σ) (tail : List Char) :
    record.membersInto bound first seen s
        (blanks ++ (partsText first (members.map Member.text) ++ '}' :: tail)) =
      .ok (record.after s (record.known members), tail) := by
  -- Every member takes a character from the bound, and a known one its name from those to come.
  induction members generalizing first blanks bound seen s with
  | nil =>
    obtain ⟨b, bound, rfl⟩ := List.exists_cons_of_length_pos hbound
    have hmissing : record.missing? seen = none := by simp [missing?, hpartial]
    have hclose : closeObject ('}' :: tail) = .ok ((), tail) := rfl
    exact membersInto_eq_ok_iff.mpr
      (Or.inl ⟨_, nextName_close first hb tail, hmissing, hclose, rfl⟩)
  | cons m members ih =>
    obtain ⟨b, bound, rfl⟩ := List.exists_cons_of_length_pos (Nat.zero_lt_of_lt hbound)
    have hlater := Nat.lt_of_succ_lt_succ hbound
    have hframed := h.framed m List.mem_cons_self
    obtain ⟨name, hname⟩ := Option.isSome_iff_exists.mp (h.names m List.mem_cons_self)
    have htail := ends_partsText .object (members.map Member.text) tail
    rw [List.map_cons, partsText, List.append_assoc, List.append_assoc]
    cases hfield : record.field? name with
    | none =>
      have hknown : record.known (m :: members) = record.known members :=
        known_cons_of_other fun other hother => Option.some.inj (hname.symm.trans hother) ▸ hfield
      obtain ⟨left, hleft, hskips⟩ := (h.values m List.mem_cons_self).passed htail
      rw [hknown]
      exact membersInto_member hframed hname hb (.other hfield (skipValue_iff.mpr hskips))
        (ih (h.of_other hknown) false hleft bound hlater s)
    | some field =>
      have hknown : record.known (m :: members) = (name, m.value) :: record.known members :=
        known_cons_of_field hname hfield
      obtain ⟨hseen, hdecodes, hnext⟩ := h.next hknown
      obtain ⟨set, hread, heffect⟩ := exists_of_effect? hfield hdecodes
      have htakes := hfields field (List.mem_of_find?_eq_some hfield)
      obtain ⟨left, hleft, hin⟩ := htakes.read_append hread
      rw [hknown, after_cons heffect]
      exact membersInto_member hframed hname hb
        (.field hfield (by simpa using hseen) (hin _ htail))
        (ih hnext false hleft bound hlater (set s))

/-- What a record that is read says of the members it was read from, after the fields of some
names. -/
structure Told (record : Record σ) (seen : List String) (members : List Member) : Prop where
  once : ((record.known members).map Prod.fst).Nodup
  unseen : ∀ p ∈ record.known members, p.1 ∉ seen
  found : ∀ p ∈ record.known members, ∀ field, record.field? p.1 = some field →
    ∃ set, FoundIn field.read p.2 set

theorem Told.of_known {m : Member} {members : List Member} {seen : List String}
    (h : record.Told seen members) (hknown : record.known (m :: members) = record.known members) :
    record.Told seen (m :: members) := ⟨hknown ▸ h.once, hknown ▸ h.unseen, hknown ▸ h.found⟩

theorem Told.of_seen {members : List Member} {seen : List String} {name : String}
    (h : record.Told (name :: seen) members) : record.Told seen members :=
  ⟨h.once, fun p hp hmem => h.unseen p hp (List.mem_cons_of_mem _ hmem), h.found⟩

theorem Told.cons {m : Member} {members : List Member} {seen : List String} {name : String}
    {field : RecordField σ} {set : σ → σ} (h : record.Told (name :: seen) members)
    (hknown : record.known (m :: members) = (name, m.value) :: record.known members)
    (hseen : name ∉ seen) (hfield : record.field? name = some field)
    (hfound : FoundIn field.read m.value set) : record.Told seen (m :: members) := by
  have hnew : name ∉ (record.known members).map Prod.fst := by
    intro hmem
    obtain ⟨p, hp, rfl⟩ := List.mem_map.mp hmem
    exact h.unseen p hp List.mem_cons_self
  refine ⟨?_, ?_, ?_⟩
  · rw [hknown]
    exact List.nodup_cons.mpr ⟨hnew, h.once⟩
  · rw [hknown]
    exact List.forall_mem_cons.mpr ⟨hseen, h.of_seen.unseen⟩
  · rw [hknown]
    refine List.forall_mem_cons.mpr ⟨fun other hother => ?_, h.found⟩
    cases hfield.symm.trans hother
    exact ⟨set, hfound⟩

/-- Reading past a member: its value was skipped, or it was found for a field that had none. -/
theorem membersInto_cases (hfields : FieldsTake record.fields) {m : Member} (h : m.Framed)
    (hjson : JsonText m.value) (ht : Ends tail) {first : Bool} {blanks : List Char}
    (hb : Blank blanks) {b : Char} {bound : List Char} {seen : List String} {s found : σ}
    (hf : record.membersInto (b :: bound) first seen s
      (blanks ++ (comma first ++ (m.text ++ tail))) = .ok (found, rest)) :
    ∃ name left, Blank left ∧ m.name? = some name ∧
      ((record.field? name = none ∧
          record.membersInto bound false seen s (left ++ tail) = .ok (found, rest)) ∨
        ∃ field set, record.field? name = some field ∧ name ∉ seen ∧
          FoundIn field.read m.value set ∧
          record.membersInto bound false (name :: seen) (set s) (left ++ tail) =
            .ok (found, rest)) := by
  rw [Member.text, List.append_assoc] at hf
  obtain ⟨_, hnone, _⟩ | ⟨_, _, _, _, seen', s', hname, hcolon, hstep, hf⟩ :=
    membersInto_eq_ok_iff.mp hf
  · obtain ⟨p, _, hpair⟩ := map_eq_ok.mp ((h.nextName first hb _).symm.trans hnone)
    cases hpair
  obtain ⟨⟨name, afterKey⟩, hstring, hpair⟩ :=
    map_eq_ok.mp ((h.nextName first hb _).symm.trans hname)
  cases hpair
  obtain ⟨rfl, hdenotes⟩ := h.denotes_of_stringRest hstring
  have hnamed := h.name?_eq_some_iff.mpr hdenotes
  cases (h.colon _).symm.trans hcolon
  obtain ⟨left, hleft, hskips⟩ := hjson.passed ht
  cases (hstep.skips hfields).unique hskips
  refine ⟨name, left, hleft, hnamed, ?_⟩
  cases hstep with
  | other unknown _ => exact Or.inl ⟨unknown, hf⟩
  | field known unseen read =>
    exact Or.inr ⟨_, _, known, by simpa using unseen, ⟨tail, ht, _, read⟩, hf⟩

/-- A record is read from members only if each field is given once and found where it is given. -/
theorem told_of_membersInto (hfields : FieldsTake record.fields) {members : List Member}
    (hframed : ∀ m ∈ members, m.Framed) (hjson : ∀ m ∈ members, JsonText m.value)
    {first : Bool} {blanks : List Char} (hb : Blank blanks) {bound : List Char}
    {seen : List String} {s found : σ}
    (hf : record.membersInto bound first seen s
      (blanks ++ (partsText first (members.map Member.text) ++ '}' :: tail)) = .ok (found, rest)) :
    record.Told seen members := by
  induction members generalizing first blanks bound seen s with
  | nil =>
    exact ⟨List.nodup_nil, List.forall_mem_nil _, List.forall_mem_nil _⟩
  | cons m members ih =>
    cases bound with
    | nil => cases hf
    | cons b bound =>
      have htail := ends_partsText .object (members.map Member.text) tail
      have hlater := fun left hleft seen s => @ih (fun m h => hframed m (List.mem_cons_of_mem _ h))
        (fun m h => hjson m (List.mem_cons_of_mem _ h)) false left hleft bound seen s
      rw [List.map_cons, partsText, List.append_assoc, List.append_assoc] at hf
      obtain ⟨name, left, hleft, hnamed, ⟨hfield, hf⟩ | ⟨field, set, hfield, hseen, hfound, hf⟩⟩ :=
        membersInto_cases hfields (hframed m List.mem_cons_self) (hjson m List.mem_cons_self) htail
          hb hf
      · refine (hlater left hleft _ _ hf).of_known (known_cons_of_other fun other hother => ?_)
        cases hnamed.symm.trans hother
        exact hfield
      · have htold := hlater left hleft _ _ hf
        exact htold.cons (known_cons_of_field hnamed hfield) hseen hfield hfound

/-! ### The order of members -/

theorem field?_eq_some (hnames : (record.fields.map RecordField.name).Nodup)
    {field : RecordField σ} (h : field ∈ record.fields) :
    record.field? field.name = some field := find?_name hnames h

theorem of_field? {name : String} {field : RecordField σ} (h : record.field? name = some field) :
    field ∈ record.fields ∧ field.name = name :=
  ⟨List.mem_of_find?_eq_some h, by simpa using List.find?_some h⟩

theorem of_effect? {p : String × List Char} {e : RecordField σ × (σ → σ)}
    (h : record.effect? p = some e) : record.field? p.1 = some e.1 ∧
      readWhole e.1.read (String.ofList p.2) = .ok e.2 := by
  obtain ⟨field, hfield, heffect⟩ := Option.bind_eq_some_iff.mp h
  obtain ⟨set, hset, rfl⟩ := Option.map_eq_some_iff.mp heffect
  exact ⟨hfield, toOption_eq_some.mp hset⟩

instance : Std.Symm (@RecordField.Commutes σ) := ⟨fun _ _ h _ _ _ _ _ _ hc hd s => (h hd hc s).symm⟩

/-- Values for different fields can be read in any order. -/
theorem after_perm (hrecord : record.Independent) {values others : List (String × List Char)}
    (hnames : (values.map Prod.fst).Nodup) (hperm : others.Perm values) (s : σ) :
    record.after s others = record.after s values := by
  refine ((hperm.symm.filterMap record.effect?).foldl_eq' (fun x hx y hy z => ?_) s).symm
  obtain ⟨p, hp, hpx⟩ := List.mem_filterMap.mp hx
  obtain ⟨q, hq, hqy⟩ := List.mem_filterMap.mp hy
  by_cases hpq : p.1 = q.1
  · have heq : p = q := List.inj_on_of_nodup_map hnames hp hq hpq
    subst heq
    cases hpx.symm.trans hqy
    rfl
  · obtain ⟨hfield, hread⟩ := of_effect? hpx
    obtain ⟨hother, hreadOther⟩ := of_effect? hqy
    obtain ⟨hmem, hname⟩ := of_field? hfield
    obtain ⟨hmemOther, hnameOther⟩ := of_field? hother
    have hne : x.1 ≠ y.1 := fun h => hpq (by rw [← hname, ← hnameOther, h])
    have hcommutes : x.1.Commutes y.1 := hrecord.commutes.forall hmem hmemOther hne
    obtain ⟨⟨_, left⟩, hscan, hleft⟩ := bind_eq_ok.mp hread
    obtain ⟨⟨_, leftOther⟩, hscanOther, hleftOther⟩ := bind_eq_ok.mp hreadOther
    dsimp only at hleft hleftOther
    split at hleft
    · split at hleftOther
      · cases hleft
        cases hleftOther
        exact (hcommutes hscan hscanOther z).symm
      · cases hleftOther
    · cases hleft

theorem mem_of_lookup {values : List (String × List Char)} {name : String} {value : List Char}
    (h : values.lookup name = some value) : (name, value) ∈ values := by
  induction values with
  | nil => cases h
  | cons p values ih =>
    obtain ⟨other, old⟩ := p
    rw [lookup_cons_eq] at h
    split at h
    next heq =>
      cases h
      rw [heq]
      exact List.mem_cons_self
    next => exact List.mem_cons_of_mem _ (ih h)

theorem lookup_of_mem {values : List (String × List Char)}
    (hnames : (values.map Prod.fst).Nodup) {name : String} {value : List Char}
    (h : (name, value) ∈ values) : values.lookup name = some value := by
  induction values with
  | nil => cases h
  | cons p values ih =>
    obtain ⟨other, old⟩ := p
    obtain ⟨hnew, hrest⟩ := List.nodup_cons.mp hnames
    rw [lookup_cons_eq]
    rcases List.mem_cons.mp h with heq | hmem
    · cases heq
      rw [if_pos rfl]
    · have hne : name ≠ other := by
        rintro rfl
        exact hnew (List.mem_map.mpr ⟨_, hmem, rfl⟩)
      rw [if_neg hne]
      exact ih hrest hmem

theorem lookup_known {members : List Member} {name : String}
    (h : (record.field? name).isSome = true) :
    (record.known members).lookup name = (namedValues members).lookup name := by
  rw [known]
  induction namedValues members with
  | nil => rfl
  | cons p values ih =>
    obtain ⟨other, value⟩ := p
    rw [List.filter_cons, lookup_cons_eq]
    by_cases heq : name = other
    · subst heq
      rw [if_pos h, lookup_cons_eq, if_pos rfl, if_pos rfl]
    · rw [if_neg heq, ← ih]
      split
      · rw [lookup_cons_eq, if_neg heq]
      · rfl

/-- The values for fields in the order of the fields. -/
theorem known_perm (hnames : (record.fields.map RecordField.name).Nodup) {members : List Member}
    (honce : ((record.known members).map Prod.fst).Nodup) :
    ((record.fields.map RecordField.name).filterMap fun name =>
      ((namedValues members).lookup name).map (Prod.mk name)).Perm (record.known members) := by
  have hordered : ((record.fields.map RecordField.name).filterMap fun name =>
      ((namedValues members).lookup name).map (Prod.mk name)).Nodup := by
    refine List.Nodup.filterMap (fun a b p ha hb => ?_) hnames
    obtain ⟨_, _, rfl⟩ := Option.map_eq_some_iff.mp ha
    obtain ⟨_, _, heq⟩ := Option.map_eq_some_iff.mp hb
    cases heq
    rfl
  refine (List.perm_ext_iff_of_nodup hordered (List.Nodup.of_map _ honce)).mpr fun p => ?_
  obtain ⟨name, value⟩ := p
  constructor
  · intro h
    obtain ⟨other, hother, hlookup⟩ := List.mem_filterMap.mp h
    obtain ⟨field, hfield, rfl⟩ := List.mem_map.mp hother
    obtain ⟨found, hfound, heq⟩ := Option.map_eq_some_iff.mp hlookup
    cases heq
    have hknown := Option.isSome_iff_exists.mpr ⟨_, field?_eq_some hnames hfield⟩
    rw [← lookup_known hknown] at hfound
    exact mem_of_lookup hfound
  · intro h
    have hknown : (record.field? name).isSome = true := by simpa using (List.mem_filter.mp h).2
    obtain ⟨field, hfield⟩ := Option.isSome_iff_exists.mp hknown
    obtain ⟨hmem, rfl⟩ := of_field? hfield
    refine List.mem_filterMap.mpr ⟨field.name, List.mem_map_of_mem hmem, ?_⟩
    rw [← lookup_known hknown, lookup_of_mem honce h]
    rfl

end Record

/-! ### Fields one by one -/

/-- What values say of a type under a name; what it is by `default` where they say nothing. -/
def valueOr {α : Type} (values : List (String × List Char)) (codec : Codec α) (name : String)
    (default : α) : α :=
  ((values.lookup name).bind fun value => (codec.parse (String.ofList value)).toOption).getD default

/-- A record after the value for a field was read into it, if there is one. -/
def RecordField.given (field : RecordField σ) (values : List (String × List Char)) (s : σ) : σ :=
  ((values.lookup field.name).bind fun value =>
    (readWhole field.read (String.ofList value)).toOption).elim s fun set => set s

namespace RecordField

variable {α : Type} {name : String} {codec : Codec α} {get : σ → α} {set : σ → α → σ}

theorem readWhole_of (text : String) : readWhole (of name codec get set).read text =
    (codec.parse text).map fun a s => set s a := by
  rw [readWhole, Codec.parse, readWhole, read_of]
  cases codec.read text.toList with
  | error fault => rfl
  | ok p =>
    show (if _ then _ else _) = Except.map _ (if _ then _ else _)
    split <;> rfl

/-- A field whose own value can be put back is set in any case. -/
theorem given_of (hkeep : ∀ s, set s (get s) = s) (values : List (String × List Char)) (s : σ) :
    (of name codec get set).given values s = set s (valueOr values codec name (get s)) := by
  have hname : (of name codec get set).name = name := rfl
  rw [given, valueOr, hname]
  cases values.lookup name with
  | none => exact (hkeep s).symm
  | some value =>
    rw [Option.bind_some, Option.bind_some, readWhole_of]
    cases codec.parse (String.ofList value) with
    | error fault => exact (hkeep s).symm
    | ok a => rfl

end RecordField

namespace Record

variable {record : Record σ}

/-- What is read from members is read field by field. -/
theorem after_known (hrecord : record.Independent) {members : List Member}
    (honce : ((record.known members).map Prod.fst).Nodup) (s : σ) :
    record.after s (record.known members) =
      record.fields.foldl (fun s field => field.given (namedValues members) s) s := by
  rw [← after_perm hrecord honce (known_perm hrecord.names honce), after, List.filterMap_map,
    List.filterMap_filterMap, List.foldl_filterMap]
  refine List.foldl_ext _ _ _ fun t field hfield => ?_
  rw [RecordField.given, Function.comp_apply]
  cases (namedValues members).lookup field.name with
  | none => rfl
  | some value =>
    rw [Option.map_some, Option.bind_some, Option.bind_some, effect?,
      field?_eq_some hrecord.names hfield, Option.bind_some]
    cases (readWhole field.read (String.ofList value)).toOption <;> rfl

end Record

/-! ### Objects -/

/-- An object that gives some fields of a record, each once and with a value that decodes, and says
what it likes under other names. -/
structure ObjectText.Partial (record : Record σ) (object : ObjectText) : Prop where
  grammatical : object.Grammatical
  names : ∀ m ∈ object.members, m.Named
  once : ((record.known object.members).map Prod.fst).Nodup
  decodes : ∀ p ∈ record.known object.members, ∀ field, record.field? p.1 = some field →
    ∃ set, readWhole field.read (String.ofList p.2) = .ok set

theorem ObjectText.decodes_of_effect? {record : Record σ} {object : ObjectText}
    (h : ∀ p ∈ record.known object.members, (record.effect? p).isSome = true) :
    ∀ p ∈ record.known object.members, ∀ field, record.field? p.1 = some field →
      ∃ set, readWhole field.read (String.ofList p.2) = .ok set := by
  intro p hp field hfield
  obtain ⟨set, hset, _⟩ := Record.exists_of_effect? hfield (h p hp)
  exact ⟨set, hset⟩

namespace Record

variable {record : Record σ} {object other : ObjectText}

theorem read_object (h : object.Grammatical) (tail : List Char) :
    record.codec.read (object.text ++ tail) =
      record.membersInto (object.space ++ (partsText true (object.members.map Member.text) ++
          '}' :: (object.after ++ tail))) true [] record.initial
        (object.space ++ (partsText true (object.members.map Member.text) ++
          '}' :: (object.after ++ tail))) := by
  have htext : object.text ++ tail = object.before ++ ('{' :: (object.space ++
      (partsText true (object.members.map Member.text) ++ '}' :: (object.after ++ tail)))) := by
    simp [ObjectText.text, enclosed, Bracket.opening, Bracket.closing]
  have hskip : skipBlanks (object.text ++ tail) = '{' :: (object.space ++
      (partsText true (object.members.map Member.text) ++ '}' :: (object.after ++ tail))) := by
    rw [htext, skipBlanks_append h.before, skipBlanks_cons (by decide)]
  simp only [codec, hskip]

theorem readable_of_partial (h : object.Partial record) : record.Readable [] object.members := by
  refine ⟨h.grammatical.framed, h.grammatical.values,
    fun m hm => (h.grammatical.framed m hm).isSome_name? (h.names m hm), h.once,
    fun _ _ => List.not_mem_nil, fun p hp => ?_⟩
  have hknown : (record.field? p.1).isSome = true := (List.mem_filter.mp hp).2
  obtain ⟨field, hfield⟩ := Option.isSome_iff_exists.mp hknown
  obtain ⟨set, hset⟩ := h.decodes p hp field hfield
  rw [effect?, hfield, Option.bind_some, hset]
  rfl

/-- An object that gives some fields is read as the record with those fields. -/
theorem parse_partial (hfields : FieldsTake record.fields) (hpartial : record.complete = false)
    (h : object.Partial record) : record.codec.parse (String.ofList object.text) =
      .ok (record.after record.initial (record.known object.members)) := by
  have hlength : (object.members.map Member.text).length ≤
      (partsText true (object.members.map Member.text)).length := by
    refine length_partsText true fun part hp => ?_
    obtain ⟨m, _, rfl⟩ := List.mem_map.mp hp
    simp [Member.text, Member.start]
  rw [List.length_map] at hlength
  have hread := membersInto_members hfields hpartial (readable_of_partial h) true
    h.grammatical.space (object.space ++ (partsText true (object.members.map Member.text) ++
      '}' :: object.after)) (by simp only [List.length_append, List.length_cons]; omega)
    record.initial object.after
  have htext : record.codec.read (object.text ++ []) = _ := read_object h.grammatical []
  rw [List.append_nil, List.append_nil, hread] at htext
  exact readWhole_of_read h.grammatical.after htext

/-- The order of members does not matter, and neither do members of other names. -/
theorem parse_perm (hrecord : record.Independent) (hfields : FieldsTake record.fields)
    (hpartial : record.complete = false) (h : object.Partial record) (ho : other.Grammatical)
    (hnames : ∀ m ∈ other.members, m.Named)
    (hperm : (record.known other.members).Perm (record.known object.members)) :
    record.codec.parse (String.ofList other.text) =
      record.codec.parse (String.ofList object.text) := by
  have hother : other.Partial record :=
    ⟨ho, hnames, (hperm.map Prod.fst).nodup_iff.mpr h.once,
      fun p hp => h.decodes p (hperm.mem_iff.mp hp)⟩
  rw [parse_partial hfields hpartial h, parse_partial hfields hpartial hother,
    after_perm hrecord h.once hperm]

/-- An object from which a record is found gives each field once, with a value that is found. -/
theorem told_of_found (hfields : FieldsTake record.fields) (h : object.Grammatical) {s : σ}
    (hfound : FoundIn record.codec.read object.text s) : record.Told [] object.members := by
  obtain ⟨tail, _, rest, hread⟩ := hfound
  rw [read_object h] at hread
  exact told_of_membersInto hfields h.framed h.values h.space hread

end Record

/-- What an object says of a type under a name; what it is by `default` where it says nothing. -/
def ObjectText.valueOr {α : Type} (object : ObjectText) (codec : Codec α) (name : String)
    (default : α) : α := Json.valueOr (namedValues object.members) codec name default

/-- What is found of a field is found of its codec. -/
theorem FoundIn.of_field {α : Type} {name : String} {codec : Codec α} {get : σ → α}
    {set : σ → α → σ} {part : List Char} {c : σ → σ}
    (h : FoundIn (RecordField.of name codec get set).read part c) :
    ∃ a, FoundIn codec.read part a := by
  obtain ⟨tail, ht, rest, hread⟩ := h
  obtain ⟨⟨a, left⟩, hcodec, _⟩ := map_eq_ok.mp hread
  exact ⟨a, tail, ht, left, hcodec⟩

/-- What a type says of objects that stand for it: they need not give every field, a field that is
given is what its value decodes to, the order of members does not matter, and neither do members of
other names. An object that gives a field twice is at fault. -/
structure ReadsPartly (record : Record σ) (ofObject : ObjectText → σ) : Prop where
  read : ∀ {object : ObjectText}, object.Partial record →
    record.codec.parse (String.ofList object.text) = .ok (ofObject object)
  reorder : ∀ {object other : ObjectText}, object.Partial record → other.Grammatical →
    (∀ m ∈ other.members, m.Named) →
    (record.known other.members).Perm (record.known object.members) →
    record.codec.parse (String.ofList other.text) = .ok (ofObject object)
  twice : ∀ {object : ObjectText}, object.Grammatical →
    ¬((record.known object.members).map Prod.fst).Nodup →
    ∃ fault, record.codec.parse (String.ofList object.text) = .error fault

theorem Record.readsPartly {record : Record σ} (hrecord : record.Independent)
    (hfields : FieldsTake record.fields) (hpartial : record.complete = false)
    {ofObject : ObjectText → σ} (hof : ∀ object, ofObject object = record.fields.foldl
      (fun s field => field.given (namedValues object.members) s) record.initial) :
    ReadsPartly record ofObject := by
  have hread : ∀ {object : ObjectText}, object.Partial record →
      record.codec.parse (String.ofList object.text) = .ok (ofObject object) := by
    intro object h
    rw [parse_partial hfields hpartial h, after_known hrecord h.once, hof]
  refine ⟨hread, fun h ho hnames hperm => ?_, fun h htwice => error_of_not_found fun s hs => ?_⟩
  · rw [parse_perm hrecord hfields hpartial h ho hnames hperm, hread h]
  · exact htwice (told_of_found hfields h hs).once

end RenderMesh.Json
