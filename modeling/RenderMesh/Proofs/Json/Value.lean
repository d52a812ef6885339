import RenderMesh.Proofs.Json.Members
import RenderMesh.Proofs.Json.Sequence

/-!
# Values and their text

A value is read back from its text, in any layout of blanks: all but its numbers as they are, and
each number as what its own text is read as. The value has to be one that reading can give, with
members in order and not nested too deep.
-/

namespace RenderMesh.Json

variable {ν μ : Type}

mutual

/-- A tree with every number replaced. -/
def Tree.map (g : ν → μ) : Tree ν → Tree μ
  | .null => .null
  | .bool value => .bool value
  | .number value => .number (g value)
  | .string value => .string value
  | .array entries => .array (mapEntries g entries)
  | .object members => .object (mapMembers g members)

def mapEntries (g : ν → μ) : List (Tree ν) → List (Tree μ)
  | [] => []
  | entry :: rest => entry.map g :: mapEntries g rest

def mapMembers (g : ν → μ) : List (String × Tree ν) → List (String × Tree μ)
  | [] => []
  | (name, value) :: rest => (name, value.map g) :: mapMembers g rest

end

theorem mapEntries_eq (g : ν → μ) (entries : List (Tree ν)) :
    mapEntries g entries = entries.map (Tree.map g) := by
  induction entries with
  | nil => rfl
  | cons entry rest ih => rw [mapEntries, ih, List.map_cons]

theorem mapMembers_eq (g : ν → μ) (members : List (String × Tree ν)) :
    mapMembers g members = members.map fun member => (member.1, member.2.map g) := by
  induction members with
  | nil => rfl
  | cons member rest ih =>
    obtain ⟨name, value⟩ := member
    rw [mapMembers, ih, List.map_cons]

theorem lookup_mapMembers (g : ν → μ) (members : List (String × Tree ν)) (key : String) :
    (mapMembers g members).lookup key = (members.lookup key).map (Tree.map g) := by
  induction members with
  | nil => rfl
  | cons member rest ih =>
    obtain ⟨name, value⟩ := member
    rw [mapMembers, lookup_cons_eq, lookup_cons_eq, ih]
    split <;> rfl

theorem Tree.get_map (g : ν → μ) (tree : Tree ν) (key : String) :
    (tree.map g).get key = (tree.get key).map g := by
  cases tree with
  | object members =>
    rw [Tree.map, Tree.get, Tree.get, lookup_mapMembers]
    cases members.lookup key <;> rfl
  | _ => rfl

/-- The names of the members of an object. -/
def Tree.names : Tree ν → List String
  | .object members => members.map Prod.fst
  | _ => []

theorem Tree.names_map (g : ν → μ) (tree : Tree ν) : (tree.map g).names = tree.names := by
  cases tree with
  | object members =>
    rw [Tree.map, names, names, mapMembers_eq, List.map_map]
    rfl
  | _ => rfl

/-- What the text of a number is read as; a number whose text is not read stays. -/
def Number.readBack (n : Number) : Number :=
  match n.reread with
  | .ok found => found
  | .error _ => n

theorem Number.Reads.readBack {n found : Number} (h : n.Reads found) : n.readBack = found := by
  rw [Number.readBack, h.reread]

namespace Value

/-- A value of members in order, of at most `depth` nested lists and objects and with numbers of one
kind. -/
inductive Shaped (kind : Number → Prop) : Nat → Value → Prop
  | null {depth : Nat} : Shaped kind depth .null
  | bool {depth : Nat} (value : Bool) : Shaped kind depth (.bool value)
  | number {depth : Nat} {n : Number} (is : kind n) : Shaped kind depth (.number n)
  | string {depth : Nat} (value : String) : Shaped kind depth (.string value)
  | array {depth : Nat} {entries : List Value} (inner : ∀ e ∈ entries, Shaped kind depth e) :
      Shaped kind (depth + 1) (.array entries)
  | object {depth : Nat} {members : List (String × Value)} (ascending : Ascending members)
      (inner : ∀ m ∈ members, Shaped kind depth m.2) : Shaped kind (depth + 1) (.object members)

/-- A value that reading can give, whose numbers have texts that are read. -/
abbrev Readable : Nat → Value → Prop := Shaped fun n => ∃ found, n.Reads found

variable {kind : Number → Prop}

theorem Shaped.mono {depth : Nat} {value : Value} (h : Shaped kind depth value) {more : Nat}
    (hle : depth ≤ more) : Shaped kind more value := by
  induction h generalizing more with
  | null => exact .null
  | bool value => exact .bool value
  | number is => exact .number is
  | string value => exact .string value
  | array _ ih =>
    obtain ⟨more, rfl⟩ := Nat.exists_eq_add_of_lt hle
    exact .array fun e he => ih e he (by omega)
  | object ascending _ ih =>
    obtain ⟨more, rfl⟩ := Nat.exists_eq_add_of_lt hle
    exact .object ascending fun m hm => ih m hm (by omega)

/-- A value whose numbers stay as they are stays as it is. -/
theorem Shaped.map_eq {g : Number → Number} {depth : Nat} {value : Value}
    (h : Shaped (fun n => g n = n) depth value) : value.map g = value := by
  induction h with
  | null => rfl
  | bool value => rfl
  | number is => rw [Tree.map, is]
  | string value => rfl
  | array _ ih => rw [Tree.map, mapEntries_eq, List.map_congr_left ih, List.map_id']
  | @object _ members _ _ ih =>
    have hsame : ∀ m ∈ members, (m.1, m.2.map g) = m := fun m hm => by rw [ih m hm]
    rw [Tree.map, mapMembers_eq, List.map_congr_left hsame, List.map_id']

variable {inner : Option (Scanner Value)}

theorem scanWith_blanks {blanks : List Char} (hb : Blank blanks) (cs : List Char) :
    scanWith inner (blanks ++ cs) = scanWith inner cs := by
  rw [scanWith, scanWith, skipBlanks_append hb]

theorem ne_of_startsLiteral {c d : Char} (h : startsLiteral c = true)
    (hd : startsLiteral d = false) : c ≠ d := by
  rintro rfl
  rw [h] at hd
  cases hd

theorem startsValue_of_startsLiteral {c : Char} (h : startsLiteral c = true) :
    startsValue c = true := by
  have hne := @ne_of_startsLiteral c
  simp [startsValue, isBlank, hne h (d := ' ') rfl, hne h (d := '\t') rfl, hne h (d := '\n') rfl,
    hne h (d := '\r') rfl, hne h (d := ',') rfl, hne h (d := ']') rfl, hne h (d := '}') rfl]

theorem isBlank_of_startsLiteral {c : Char} (h : startsLiteral c = true) : isBlank c = false := by
  have hc := startsValue_of_startsLiteral h
  simp only [startsValue, Bool.and_eq_true, Bool.not_eq_true'] at hc
  exact hc.1.1.1

theorem scanWith_literal {c : Char} (h : startsLiteral c = true) (cs : List Char) :
    scanWith inner (c :: cs) =
      (Json.number (c :: cs)).map (Prod.map Tree.number id) := by
  have hne : ∀ d : Char, startsLiteral d = false → c ≠ d := fun d => ne_of_startsLiteral h
  unfold scanWith
  rw [skipBlanks_cons (isBlank_of_startsLiteral h)]
  split
  next heq => cases heq
  next heq => exact absurd (List.cons.inj heq).1 (hne _ rfl)
  next heq => exact absurd (List.cons.inj heq).1 (hne _ rfl)
  next heq => exact absurd (List.cons.inj heq).1 (hne _ rfl)
  next heq => exact absurd (List.cons.inj heq).1 (hne _ rfl)
  next heq => exact absurd (List.cons.inj heq).1 (hne _ rfl)
  next heq => exact absurd (List.cons.inj heq).1 (hne _ rfl)
  next heq =>
    obtain ⟨rfl, rfl⟩ := List.cons.inj heq
    rw [if_pos h]
    rfl

theorem scanWithin_eq (depth : Nat) : ∃ inner, scanWithin depth = scanWith inner := by
  cases depth with
  | zero => exact ⟨none, rfl⟩
  | succ depth => exact ⟨_, rfl⟩

variable {depth : Nat}

/-- A text that is read at every depth, whatever follows. -/
theorem scans_of_scanWith {c : Char} {cs : List Char} {value : Value} (hc : startsValue c = true)
    (h : ∀ inner rest, scanWith inner (c :: (cs ++ rest)) = .ok (value, rest)) :
    Scans (scanWithin depth) (c :: cs) value := by
  obtain ⟨inner, hinner⟩ := scanWithin_eq depth
  refine ⟨⟨c, cs, rfl, hc⟩, fun blanks rest hb _ => ?_⟩
  rw [hinner, scanWith_blanks hb, List.cons_append, h inner rest]
  rfl

theorem scans_number {n found : Number} (reads : n.Reads found) :
    Scans (scanWithin depth) n.text (.number found) := by
  obtain ⟨inner, hinner⟩ := scanWithin_eq depth
  obtain ⟨c, cs, htext, hc⟩ := Spells.head reads
  refine ⟨⟨c, cs, htext, startsValue_of_startsLiteral hc⟩, fun blanks rest hb hr => ?_⟩
  have hscan := Spells.scan reads hr
  rw [htext, List.cons_append] at hscan
  rw [hinner, scanWith_blanks hb, htext, List.cons_append, scanWith_literal hc, hscan]
  rfl

theorem scans_string (value : String) :
    Scans (scanWithin depth) (stringText value) (.string value) := by
  refine scans_of_scanWith (by decide) fun inner rest => ?_
  have hread : ∀ cs, scanWith inner ('"' :: cs) =
      (stringRest cs).map (Prod.map Tree.string id) := fun _ => rfl
  show scanWith inner (stringText value ++ rest) = _
  rw [stringText_append, hread, stringRest_text]
  rfl

section

variable {layout : Layout} (hl : layout.Blank) (level : Nat) {number : ν → List Char}
  {g : Tree ν → Value}

include hl

theorem scans_array {entries : List (Tree ν)}
    (h : ∀ e ∈ entries, Scans (scanWithin depth) (e.text number layout (level + 1)) (g e)) :
    Scans (scanWithin (depth + 1)) ((Tree.array entries).text number layout level)
      (.array (entries.map g)) := by
  rw [text_array]
  refine ⟨⟨'[', _, rfl, by decide⟩, fun blanks rest hb _ => ?_⟩
  have hshown : ∀ e ∈ entries, Decodes (scanWithin depth)
      ((id e : Tree ν).text number layout (level + 1)) (pure (g e)) := h
  have hentries := entries_text hl level hshown rest
  rw [List.map_id, List.mapM_pure] at hentries
  have hread : ∀ cs, scanWithin (depth + 1) ('[' :: cs) =
      (Json.entries (scanWithin depth) cs).map (Prod.map Tree.array id) := fun _ => rfl
  have hblanks : ∀ cs, scanWithin (depth + 1) (blanks ++ cs) = scanWithin (depth + 1) cs :=
    scanWith_blanks hb
  rw [hblanks, List.cons_append, hread, toOption_eq_some.mp hentries]
  rfl

theorem scans_object {members : List (String × Tree ν)}
    (h : ∀ m ∈ members,
      Scans (scanWithin depth) (m.2.text number layout (level + 1)) (g m.2)) :
    Scans (scanWithin (depth + 1)) ((Tree.object members).text number layout level)
      (.object (sortedMembers (members.map fun m => (m.1, g m.2)))) := by
  rw [text_object]
  refine ⟨⟨'{', _, rfl, by decide⟩, fun blanks rest hb _ => ?_⟩
  have hread : ∀ cs, scanWithin (depth + 1) ('{' :: cs) =
      (membersWithin (scanWithin depth) cs true [] cs).map
        (Prod.map (fun found => Tree.object (sortedMembers found)) id) := fun _ => rfl
  have hblanks : ∀ cs, scanWithin (depth + 1) (blanks ++ cs) = scanWithin (depth + 1) cs :=
    scanWith_blanks hb
  have hlength := length_lt_membersText number layout level true members
  have hmembers := membersWithin_text hl level h true
    (membersText number layout level true members ++ rest) [] rest (by
      rw [List.length_append]
      omega)
  rw [hblanks, List.cons_append, hread, toOption_eq_some.mp hmembers]
  rfl

end

/-- A value is scanned back from its text. -/
theorem Readable.scans {value : Value} (h : Readable depth value) {layout : Layout}
    (hl : layout.Blank) (level : Nat) :
    Scans (scanWithin depth) (value.text Number.text layout level)
      (value.map Number.readBack) := by
  -- By the shape of the value: a bracket is read at one depth and its entries one below.
  induction h generalizing level with
  | null => exact scans_of_scanWith (by decide) fun _ _ => rfl
  | bool value =>
    cases value with
    | true => exact scans_of_scanWith (by decide) fun _ _ => rfl
    | false => exact scans_of_scanWith (by decide) fun _ _ => rfl
  | number is =>
    obtain ⟨_, reads⟩ := is
    rw [Tree.map, reads.readBack]
    exact scans_number reads
  | string value => exact scans_string value
  | array _ ih =>
    rw [Tree.map, mapEntries_eq]
    exact scans_array hl level fun e he => ih e he (level + 1)
  | @object _ members ascending _ ih =>
    have hsorted : Ascending (members.map fun m => (m.1, m.2.map Number.readBack)) :=
      List.pairwise_map.mpr ascending
    rw [Tree.map, mapMembers_eq, ← sortedMembers_of_ascending hsorted]
    exact scans_object hl level fun m hm => ih m hm (level + 1)

/-- A value that is not nested too deep is read back from its text. -/
theorem Readable.read_text {value : Value} (h : Readable depthLimit value) {layout : Layout}
    (hl : layout.Blank) :
    Value.read (String.ofList (value.text Number.text layout 0)) =
      .ok (value.map Number.readBack) := by
  have hscan := (h.scans hl 0).scan_here ends_nil
  rw [List.append_nil] at hscan
  simp only [Value.read, readWhole, String.toList_ofList, hscan, bind, Except.bind]
  rfl

theorem Readable.read_pretty {value : Value} (h : Readable depthLimit value) :
    Value.read value.pretty = .ok (value.map Number.readBack) := h.read_text Layout.blank_pretty

end Value

end RenderMesh.Json
