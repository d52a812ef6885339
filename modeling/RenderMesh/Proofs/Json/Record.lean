import Mathlib.Data.List.Nodup
import Mathlib.Data.List.Perm.Basic
import RenderMesh.Proofs.Json.Restoring

/-!
# Records that are read back

A field that is read sets its part of a record and leaves the others, so the order in which fields
are read does not matter. A record is restored when every field is and the parts make up the whole.
-/

namespace RenderMesh.Json

variable {σ α β : Type} {text rest blanks gap : List Char}

/-! ### Fields -/

/-- What reading a field back does to a record, and whether the field is read at all. -/
structure Copy (σ : Type) where
  set : σ → σ
  whole : Bool

namespace Copy

/-- What is found of a field. -/
def found (c : Copy σ) : Option (σ → σ) := if c.whole then some c.set else none

/-- A record after fields were read into it. -/
def into (s : σ) (copies : List (Copy σ)) : σ := copies.foldl (fun s c => c.set s) s

end Copy

namespace RecordField

/-- Whether a field comes back from the text of its document. -/
structure Restores (field : RecordField σ) (a : σ) (c : Copy σ) : Prop where
  decodes {ν : Type} (r : Rendering ν) {layout : Layout} (blank : layout.Blank) (level : Nat) :
    Decodes field.read (r.text layout level (field.document a)) c.found

section

variable (name : String) (codec : Codec α) (get : σ → α) (set : σ → α → σ)

theorem read_of (cs : List Char) : (of name codec get set).read cs =
    codec.read cs >>= fun p => .ok (fun s => set s p.1, p.2) := by
  show (codec.read cs).map _ = _
  cases codec.read cs <;> rfl

theorem set_of_read {cs : List Char} {c : σ → σ}
    (h : (of name codec get set).read cs = .ok (c, rest)) : ∃ a, c = fun s => set s a := by
  rw [read_of] at h
  cases hr : codec.read cs with
  | error fault =>
    rw [hr] at h
    exact nomatch h
  | ok p =>
    rw [hr] at h
    cases h
    exact ⟨p.1, rfl⟩

end

theorem restores_of {name : String} {codec : Codec α} {get : σ → α} {set : σ → α → σ} {a : σ}
    {whole : Bool} (h : codec.Restores (get a) whole) :
    (of name codec get set).Restores a ⟨fun s => set s (get a), whole⟩ := by
  refine ⟨fun r layout hl level => ?_⟩
  have hdecodes := h.decodes r hl level
  refine ⟨hdecodes.starts, fun blanks rest hb hr => ?_⟩
  have hscan := hdecodes.scan blanks rest hb hr
  rw [read_of, toOption_bind]
  show Option.bind (codec.read (blanks ++
    (r.text layout level (codec.document (get a)) ++ rest))).toOption _ = _
  rw [hscan]
  cases whole <;> rfl

/-- Fields whose readings can change places. -/
def Commutes (f g : RecordField σ) : Prop :=
  ∀ {cs cs' rest rest' : List Char} {c d : σ → σ}, f.read cs = .ok (c, rest) →
    g.read cs' = .ok (d, rest') → ∀ s, c (d s) = d (c s)

theorem commutes_of {name name' : String} {codec : Codec α} {codec' : Codec β}
    {get : σ → α} {get' : σ → β} {set : σ → α → σ} {set' : σ → β → σ}
    (h : ∀ s a b, set (set' s b) a = set' (set s a) b) :
    (of name codec get set).Commutes (of name' codec' get' set') := by
  intro cs cs' rest rest' c d hc hd s
  obtain ⟨a, rfl⟩ := set_of_read name codec get set hc
  obtain ⟨b, rfl⟩ := set_of_read name' codec' get' set' hd
  exact h s a b

theorem Restores.read {field : RecordField σ} {a : σ} {c : Copy σ} (h : field.Restores a c)
    (hw : c.whole = true) : ∃ cs rest, field.read cs = .ok (c.set, rest) := by
  have hscan := (h.decodes Rendering.plain Layout.blank_compact 0).scan_here ends_nil
  rw [Copy.found, if_pos hw] at hscan
  exact ⟨_, _, toOption_eq_some.mp hscan⟩

end RecordField

/-! ### Lists of all fields -/

/-- A field with what reading it back does. -/
abbrev Part (σ : Type) := RecordField σ × Copy σ

theorem entriesInto_step {field : RecordField σ} {found : Option (σ → σ)}
    (h : Decodes field.read text found) (wanted : Option String) (read : Nat) (hb : Blank blanks)
    (hr : Ends rest) (fields : List (RecordField σ)) (s : σ) :
    (entriesInto wanted read (field :: fields) s
        (comma (read == 0) ++ (blanks ++ (text ++ rest)))).toOption =
      found.bind fun set => (entriesInto wanted (read + 1) fields (set s) rest).toOption := by
  rw [entriesInto, anotherEntry_starts h.starts (read == 0) hb]
  show (field.read (text ++ rest) >>= fun p =>
    entriesInto wanted (read + 1) fields (p.1 s) p.2).toOption = _
  rw [toOption_bind, h.scan_here hr]
  cases found <;> rfl

section

variable {ν : Type} (r : Rendering ν) {layout : Layout} {a : σ} {parts : List (Part σ)}

theorem entriesInto_text (hl : layout.Blank) (level : Nat) (wanted : Option String)
    (h : ∀ p ∈ parts, p.1.Restores a p.2) (read : Nat) (s : σ) (rest : List Char) :
    (entriesInto wanted read (parts.map Prod.fst) s (entriesText r.number layout level (read == 0)
        (parts.map fun p => r.tree (p.1.document a)) ++ rest)).toOption =
      if parts.all fun p => p.2.whole then some (Copy.into s (parts.map Prod.snd), rest)
        else none := by
  induction parts generalizing read s with
  | nil =>
    have hclose := closeList_close (hl.closing (read == 0) level) rest
    rw [List.map_nil, List.map_nil, entriesText, List.append_assoc, entriesInto,
      List.singleton_append, hclose]
    rfl
  | cons p parts ih =>
    have hp := (h p List.mem_cons_self).decodes r hl (level + 1)
    have hstep := entriesInto_step hp wanted read (hl.line (level + 1))
      (ends_entriesText r.number hl level (parts.map fun p => r.tree (p.1.document a)) rest)
      (parts.map Prod.fst) s
    have hrest := fun set : σ → σ => ih (fun p hp => h p (List.mem_cons_of_mem _ hp)) (read + 1)
      (set s)
    rw [List.map_cons, List.map_cons, entriesText, List.append_assoc, List.append_assoc,
      List.append_assoc]
    refine hstep.trans ?_
    rw [Copy.found, List.all_cons]
    cases p.2.whole with
    | false => rfl
    | true => exact hrest p.2.set

end

/-- Fields in order, with what reading each of them back does. -/
abbrev FieldsRestore (fields : List (RecordField σ)) (a : σ) (copies : List (Copy σ)) : Prop :=
  List.Forall₂ (fun field c => field.Restores a c) fields copies

theorem FieldsRestore.exists_parts {fields : List (RecordField σ)} {a : σ}
    {copies : List (Copy σ)} (h : FieldsRestore fields a copies) :
    ∃ parts : List (Part σ), parts.map Prod.fst = fields ∧ parts.map Prod.snd = copies ∧
      ∀ p ∈ parts, p.1.Restores a p.2 := by
  induction h with
  | nil => exact ⟨[], rfl, rfl, fun _ hp => nomatch hp⟩
  | @cons field c _ _ hfield _ ih =>
    obtain ⟨parts, hfields, hcopies, hparts⟩ := ih
    refine ⟨(field, c) :: parts, by rw [List.map_cons, hfields], by rw [List.map_cons, hcopies], ?_⟩
    exact List.forall_mem_cons.mpr ⟨hfield, hparts⟩

/-- A type that stands as the list of its fields is restored when they make up the whole. -/
theorem Codec.restores_tuple {wanted : String} {fields : List (RecordField σ)} {initial a : σ}
    {copies : List (Copy σ)} (h : FieldsRestore fields a copies)
    (hinto : Copy.into initial copies = a) :
    (tuple wanted fields initial).Restores a (copies.all Copy.whole) := by
  obtain ⟨parts, rfl, rfl, hparts⟩ := FieldsRestore.exists_parts h
  refine ⟨fun r layout hl level => ?_⟩
  have hdocument : (tuple wanted (parts.map Prod.fst) initial).document a =
      .array (parts.map fun p => p.1.document a) := by
    show Tree.array ((parts.map Prod.fst).map _) = _
    rw [List.map_map]
    rfl
  rw [hdocument, r.text_array, List.map_map]
  refine ⟨⟨'[', _, rfl, by decide⟩, fun blanks rest hb _ => ?_⟩
  have hread : ∀ cs, (tuple wanted (parts.map Prod.fst) initial).read ('[' :: cs) =
      entriesInto (some wanted) 0 (parts.map Prod.fst) initial cs := fun _ => rfl
  have hblanks : ∀ cs, (tuple wanted (parts.map Prod.fst) initial).read (blanks ++ cs) =
      (tuple wanted (parts.map Prod.fst) initial).read cs := by
    intro cs
    simp only [tuple, skipBlanks_append hb]
  rw [hblanks, List.cons_append, hread]
  refine (entriesInto_text r hl level (some wanted) hparts 0 initial rest).trans ?_
  rw [hinto, List.all_map]
  show (if parts.all (Copy.whole ∘ Prod.snd) then _ else _) = _
  cases parts.all (Copy.whole ∘ Prod.snd) <;> rfl

/-! ### Objects -/

namespace Record

variable {record : Record σ}

theorem find?_name {fields : List (RecordField σ)} (hnames : (fields.map RecordField.name).Nodup)
    {field : RecordField σ} (h : field ∈ fields) :
    (fields.find? fun other => other.name == field.name) = some field := by
  induction fields with
  | nil => exact nomatch h
  | cons first fields ih =>
    obtain ⟨hfirst, hrest⟩ := List.nodup_cons.mp hnames
    rcases List.mem_cons.mp h with rfl | hmem
    · exact List.find?_cons_of_pos (beq_self_eq_true _)
    · have hne : first.name ≠ field.name := by
        intro heq
        exact hfirst (heq ▸ List.mem_map_of_mem hmem)
      rw [List.find?_cons_of_neg (by simpa using hne)]
      exact ih hrest hmem

theorem missing?_of_subset {seen : List String}
    (h : ∀ name ∈ record.fields.map RecordField.name, name ∈ seen) :
    record.missing? seen = none := by
  rw [missing?]
  split
  · refine List.find?_eq_none.mpr fun name hname => ?_
    simpa using h name hname
  · rfl

/-- The value of a field is read and the members after it are. -/
theorem membersInto_step (hnames : (record.fields.map RecordField.name).Nodup)
    {field : RecordField σ} (hfield : field ∈ record.fields) {seen : List String}
    (hseen : field.name ∉ seen) {found : Option (σ → σ)} (h : Decodes field.read text found)
    (first : Bool) (hb : Blank blanks) (hg : Blank gap) (hr : Ends rest) (c : Char)
    (bound : List Char) (s : σ) :
    (record.membersInto (c :: bound) first seen s (comma first ++ (blanks ++
        (stringText field.name ++ ':' :: (gap ++ (text ++ rest)))))).toOption =
      found.bind fun set =>
        (record.membersInto bound false (field.name :: seen) (set s) rest).toOption := by
  have hunseen : seen.contains field.name = false := by simpa using hseen
  rw [membersInto, nextName_starts first hb]
  simp only [bind, Except.bind, find?_name hnames hfield, hunseen, if_neg Bool.false_ne_true]
  show (field.read (gap ++ (text ++ rest)) >>= fun p =>
    record.membersInto bound false (field.name :: seen) (p.1 s) p.2).toOption = _
  rw [toOption_bind, h.scan gap rest hg hr]
  cases found <;> rfl

/-- Parts of a record that are still to come where the fields of some names were read: none of them
comes twice or was read, and nothing else is missing. -/
structure Outstanding (record : Record σ) (a : σ) (parts : List (Part σ)) (seen : List String) :
    Prop where
  restores : ∀ p ∈ parts, p.1 ∈ record.fields ∧ p.1.Restores a p.2
  distinct : (parts.map fun p => p.1.name).Nodup
  unseen : ∀ p ∈ parts, p.1.name ∉ seen
  complete : ∀ name ∈ record.fields.map RecordField.name,
    name ∈ seen ∨ name ∈ parts.map fun p => p.1.name

theorem Outstanding.next {a : σ} {p : Part σ} {parts : List (Part σ)} {seen : List String}
    (h : record.Outstanding a (p :: parts) seen) :
    record.Outstanding a parts (p.1.name :: seen) := by
  obtain ⟨hnew, hdistinct⟩ := List.nodup_cons.mp h.distinct
  refine ⟨fun q hq => h.restores q (List.mem_cons_of_mem _ hq), hdistinct, ?_, ?_⟩
  · intro q hq hmem
    rcases List.mem_cons.mp hmem with heq | hold
    · exact hnew (List.mem_map.mpr ⟨q, hq, heq⟩)
    · exact h.unseen q (List.mem_cons_of_mem _ hq) hold
  · intro name hname
    rcases h.complete name hname with hold | hmem
    · exact Or.inl (List.mem_cons_of_mem _ hold)
    · rcases List.mem_cons.mp hmem with rfl | hin
      · exact Or.inl List.mem_cons_self
      · exact Or.inr hin

theorem Outstanding.missing? {a : σ} {seen : List String} (h : record.Outstanding a [] seen) :
    record.missing? seen = none :=
  missing?_of_subset fun name hname => (h.complete name hname).resolve_right List.not_mem_nil

/-- Parts of all fields, in any order, are all outstanding at first. -/
theorem Outstanding.of_perm {a : σ} {parts : List (Part σ)}
    (hnames : (record.fields.map RecordField.name).Nodup) (h : ∀ p ∈ parts, p.1.Restores a p.2)
    (hfields : (parts.map Prod.fst).Perm record.fields) : record.Outstanding a parts [] := by
  have hparts := hfields.map RecordField.name
  rw [List.map_map] at hparts
  exact ⟨fun p hp => ⟨hfields.mem_iff.mp (List.mem_map_of_mem hp), h p hp⟩,
    hparts.nodup_iff.mpr hnames, fun _ _ => List.not_mem_nil,
    fun _ hname => Or.inr (hparts.mem_iff.mpr hname)⟩

section

variable {ν : Type} (r : Rendering ν) {layout : Layout} {a : σ} {parts : List (Part σ)}

/-- Members for all fields, in any order, are read into the record one after another. -/
theorem membersInto_text (hl : layout.Blank) (level : Nat)
    (hnames : (record.fields.map RecordField.name).Nodup) {seen : List String}
    (h : record.Outstanding a parts seen) (first : Bool) (bound : List Char) (s : σ)
    (rest : List Char) (hb : parts.length < bound.length) :
    (record.membersInto bound first seen s (membersText r.number layout level first
        (parts.map fun p => (p.1.name, r.tree (p.1.document a))) ++ rest)).toOption =
      if parts.all fun p => p.2.whole then some (Copy.into s (parts.map Prod.snd), rest)
        else none := by
  -- Every member takes its field from what is outstanding, and a character from the bound.
  induction parts generalizing first bound s seen with
  | nil =>
    obtain ⟨c, bound, rfl⟩ := List.exists_cons_of_length_pos hb
    rw [List.map_nil, membersText, List.append_assoc, membersInto, List.singleton_append,
      nextName_close first (hl.closing first level)]
    simp [h.missing?, closeObject_close, bind, Except.bind, pure, Except.pure, Except.toOption,
      Copy.into]
  | cons p parts ih =>
    obtain ⟨c, bound, rfl⟩ := List.exists_cons_of_length_pos (Nat.zero_lt_of_lt hb)
    obtain ⟨hfield, hp⟩ := h.restores p List.mem_cons_self
    have hstep := membersInto_step hnames hfield (h.unseen p List.mem_cons_self)
      (hp.decodes r hl (level + 1)) first (hl.line (level + 1)) hl.gap
      (ends_membersText r.number hl level
        (parts.map fun p => (p.1.name, r.tree (p.1.document a))) rest) c bound s
    have hlater := fun set : σ → σ => ih h.next false bound (set s) (Nat.lt_of_succ_lt_succ hb)
    have htext : membersText r.number layout level first
          ((p :: parts).map fun p => (p.1.name, r.tree (p.1.document a))) ++ rest =
        comma first ++ (layout.line (level + 1) ++ (stringText p.1.name ++ ':' :: (layout.gap ++
          (r.text layout (level + 1) (p.1.document a) ++ (membersText r.number layout level false
            (parts.map fun p => (p.1.name, r.tree (p.1.document a))) ++ rest))))) := by
      simp [membersText, Rendering.text]
    rw [htext, hstep, Copy.found, List.all_cons]
    cases p.2.whole with
    | false => rfl
    | true => exact hlater p.2.set

/-- An object with members for all fields, in any order, is read as the record they make up. -/
theorem codec_text (hl : layout.Blank) (level : Nat)
    (hnames : (record.fields.map RecordField.name).Nodup)
    (h : ∀ p ∈ parts, p.1.Restores a p.2)
    (hfields : (parts.map Prod.fst).Perm record.fields) :
    Decodes record.codec.read ('{' :: membersText r.number layout level true
        (parts.map fun p => (p.1.name, r.tree (p.1.document a))))
      (if parts.all fun p => p.2.whole then
        some (Copy.into record.initial (parts.map Prod.snd)) else none) := by
  refine ⟨⟨'{', _, rfl, by decide⟩, fun blanks rest hb _ => ?_⟩
  have hread : ∀ cs, record.codec.read ('{' :: cs) =
      record.membersInto cs true [] record.initial cs := fun _ => rfl
  have hblanks : ∀ cs, record.codec.read (blanks ++ cs) = record.codec.read cs := by
    intro cs
    simp only [codec, skipBlanks_append hb]
  have hlength := length_lt_membersText r.number layout level true
    (parts.map fun p => (p.1.name, r.tree (p.1.document a)))
  rw [List.length_map] at hlength
  have hscan := membersInto_text r hl level hnames (.of_perm hnames h hfields) true
    (membersText r.number layout level true
      (parts.map fun p => (p.1.name, r.tree (p.1.document a))) ++ rest)
    record.initial rest (by rw [List.length_append]; omega)
  rw [hblanks, List.cons_append, hread, hscan]
  split <;> rfl

end

/-- A record whose fields have different names and can be read in any order. -/
structure Independent (record : Record σ) : Prop where
  names : (record.fields.map RecordField.name).Nodup
  commutes : record.fields.Pairwise RecordField.Commutes

/-- In whatever order whole fields are read, they make up the same record. -/
theorem into_perm {a : σ} {parts others : List (Part σ)}
    (hcommutes : (parts.map Prod.fst).Pairwise RecordField.Commutes)
    (h : ∀ p ∈ parts, p.1.Restores a p.2) (hwhole : ∀ p ∈ parts, p.2.whole = true)
    (hperm : others.Perm parts) (s : σ) :
    Copy.into s (others.map Prod.snd) = Copy.into s (parts.map Prod.snd) := by
  have hpairs : parts.Pairwise fun p q => ∀ s, p.2.set (q.2.set s) = q.2.set (p.2.set s) := by
    refine (List.pairwise_map.mp hcommutes).imp_of_mem fun {p q} hp hq hpq => ?_
    obtain ⟨_, _, hreadp⟩ := (h p hp).read (hwhole p hp)
    obtain ⟨_, _, hreadq⟩ := (h q hq).read (hwhole q hq)
    exact hpq hreadp hreadq
  have hall := hpairs.forall_of_forall_of_flip (fun _ _ _ => rfl)
    (hpairs.imp fun hpq s => (hpq s).symm)
  rw [Copy.into, Copy.into, List.foldl_map, List.foldl_map]
  refine hperm.foldl_eq' (fun p hp q hq z => ?_) s
  exact hall (hperm.mem_iff.mp hq) (hperm.mem_iff.mp hp) z

/-- A record is restored when its fields make up the whole, in whatever order they are shown. -/
theorem restores (hrecord : record.Independent) {a : σ} {copies : List (Copy σ)}
    (h : FieldsRestore record.fields a copies) (hinto : Copy.into record.initial copies = a) :
    record.codec.Restores a (copies.all Copy.whole) := by
  obtain ⟨parts, hfields, rfl, hparts⟩ := FieldsRestore.exists_parts h
  refine ⟨fun r layout hl level => ?_⟩
  have hdocument : record.codec.document a =
      .object (parts.map fun p => (p.1.name, p.1.document a)) := by
    show Tree.object (record.fields.map _) = _
    rw [← hfields, List.map_map]
    rfl
  have hnames : ((parts.map fun p => (p.1.name, p.1.document a)).map Prod.fst).Nodup := by
    have hrecordNames := hrecord.names
    rw [← hfields, List.map_map] at hrecordNames
    rw [List.map_map]
    exact hrecordNames
  obtain ⟨shown, htext, hperm⟩ := r.text_object layout level hnames
  -- The members are those of the parts in another order.
  rw [List.map_map] at hperm
  have hcomp := List.eq_map_comp_perm fun p : Part σ => (p.1.name, r.tree (p.1.document a))
  obtain ⟨others, rfl, hothers⟩ := (congrFun (congrFun hcomp shown) parts).mpr hperm
  have hdecodes := codec_text r hl level hrecord.names
    (fun p hp => hparts p (hothers.mem_iff.mp hp)) (hfields ▸ hothers.map Prod.fst)
  rw [hdocument, htext, List.all_map]
  rw [hothers.all_eq] at hdecodes
  change Decodes _ _ (if parts.all (Copy.whole ∘ Prod.snd) then _ else _) at hdecodes
  cases hw : parts.all (Copy.whole ∘ Prod.snd) with
  | false =>
    rw [hw] at hdecodes
    exact hdecodes
  | true =>
    have hcommutes : (parts.map Prod.fst).Pairwise RecordField.Commutes :=
      hfields ▸ hrecord.commutes
    have hsame := into_perm hcommutes hparts (List.all_eq_true.mp hw) hothers record.initial
    rw [hw, hsame, hinto] at hdecodes
    exact hdecodes

end Record

end RenderMesh.Json
