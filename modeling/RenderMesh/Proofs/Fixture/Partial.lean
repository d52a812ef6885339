import RenderMesh.Proofs.Fixture
import RenderMesh.Proofs.Json.Partial

/-!
# Fixtures that leave parts out

A fixture says what it is about and leaves the rest out, and so do the materials and the attributes
in it. What they say can stand in any order and among members of other names. Nothing is said twice.
-/

namespace RenderMesh

open Json (Codec Digits FieldsTake FoundIn JsonText ListText ObjectText Plain ReadsPartly Record
  StringBody Takes blank_nil enclosed error_of_not_found namedValues valueOr)
open Json.Codec (takes_array takes_bool takes_byte takes_named takes_single takes_string takes_tuple
  takes_word)
open Json.RecordField (given_of takes_of)

/-! ### Records of a mesh -/

theorem Vec2.takes : Takes codec.read :=
  takes_tuple (by simp only [List.forall_mem_cons]; exact
    ⟨takes_of takes_single, takes_of takes_single, List.forall_mem_nil _⟩)

theorem Vec3.takes : Takes codec.read :=
  takes_tuple (by simp only [List.forall_mem_cons]; exact
    ⟨takes_of takes_single, takes_of takes_single, takes_of takes_single, List.forall_mem_nil _⟩)

theorem Color.takes : Takes codec.read := by
  refine Record.takes ?_
  simp only [record, FieldsTake, List.forall_mem_cons]
  exact ⟨takes_of takes_byte, takes_of takes_byte, takes_of takes_byte, takes_of takes_byte,
    List.forall_mem_nil _⟩

namespace Material

theorem fieldsTake : FieldsTake record.fields := by
  simp only [record, FieldsTake, List.forall_mem_cons]
  exact ⟨takes_of takes_string, takes_of takes_named, takes_of Color.takes, takes_of takes_single,
    takes_of takes_string, takes_of Vec2.takes, takes_of takes_single, takes_of takes_named,
    takes_of Vec2.takes, takes_of takes_string, takes_of takes_single, takes_of takes_bool,
    takes_of takes_bool, takes_of takes_single, takes_of takes_named, takes_of takes_named,
    takes_of takes_single, takes_of takes_single, takes_of takes_bool, takes_of Vec2.takes,
    List.forall_mem_nil _⟩

/-- The material that an object says, with the values of a plain material where it says nothing. -/
def ofObject (object : ObjectText) : Material where
  name := object.valueOr .string "name" ""
  group := object.valueOr .named "group" .undefined
  color := object.valueOr Color.codec "color" .white
  smoothAngle := object.valueOr .single "smooth_angle" (.ofInt 60)
  texture := object.valueOr .string "texture" ""
  textureScale := object.valueOr Vec2.codec "texture_scale" ⟨.ofInt 1, .ofInt 1⟩
  textureAnimFps := object.valueOr .single "texture_anim_fps" .zero
  textureAnimMapMode := object.valueOr .named "texture_anim_map_mode" .none
  textureAnimMapDir := object.valueOr Vec2.codec "texture_anim_map_dir" ⟨.zero, .zero⟩
  detailObject := object.valueOr .string "detail_object" ""
  detailObjectScale := object.valueOr .single "detail_object_scale" (.ofInt 1)
  occluder := object.valueOr .bool "occluder" false
  environmentMapping := object.valueOr .bool "environment_mapping" false
  environmentMappingStrength := object.valueOr .single "environment_mapping_strength" (.ofInt 1)
  waveMode := object.valueOr .named "wave_mode" .none
  waveSpeed := object.valueOr .named "wave_speed" .none
  waveMaxAmplitude := object.valueOr .single "wave_max_amplitude" (.ofInt 30)
  waveGridSize := object.valueOr .single "wave_grid_size" (.ofInt 100)
  ignoreSun := object.valueOr .bool "ignore_sun" false
  defaultMapping := object.valueOr Vec2.codec "default_mapping" ⟨.zero, .zero⟩

theorem readsPartly : ReadsPartly record ofObject := by
  refine Record.readsPartly independent fieldsTake rfl fun object => ?_
  simp only [record, List.foldl_cons, List.foldl_nil, given_of, implies_true]
  rfl

end Material

namespace VertexAttribute

theorem fieldsTake : FieldsTake record.fields := by
  simp only [record, FieldsTake, List.forall_mem_cons]
  exact ⟨takes_of Vec3.takes, takes_of Vec2.takes, takes_of takes_word, List.forall_mem_nil _⟩

/-- The attribute that an object says, with zeros where it says nothing. -/
def ofObject (object : ObjectText) : VertexAttribute where
  normal := object.valueOr Vec3.codec "normal" ⟨.zero, .zero, .zero⟩
  uv := object.valueOr Vec2.codec "uv" ⟨.zero, .zero⟩
  light := object.valueOr .word "light" 0

theorem readsPartly : ReadsPartly record ofObject := by
  refine Record.readsPartly independent fieldsTake rfl fun object => ?_
  simp only [record, List.foldl_cons, List.foldl_nil, given_of, implies_true]
  rfl

end VertexAttribute

/-! ### Fixtures -/

namespace Fixture

theorem fieldsTake : FieldsTake record.fields := by
  simp only [record, meshField, FieldsTake, List.forall_mem_cons]
  exact ⟨takes_of takes_string, takes_of (takes_array Vec3.takes),
    takes_of (takes_array (Record.takes VertexAttribute.fieldsTake)),
    takes_of (takes_array takes_word), takes_of (takes_array takes_word),
    takes_of (takes_array takes_word), takes_of (takes_array (Record.takes Material.fieldsTake)),
    List.forall_mem_nil _⟩

/-- The fixture that an object says, empty where it says nothing. -/
def ofObject (object : ObjectText) : Fixture where
  name := object.valueOr .string "name" ""
  mesh :=
    { positions := object.valueOr (.array Vec3.codec) "positions" #[]
      attributes := object.valueOr (.array VertexAttribute.codec) "attributes" #[]
      cornerPositions := object.valueOr (.array .word) "corner_position_indices" #[]
      cornerAttributes := object.valueOr (.array .word) "corner_attribute_indices" #[]
      triangleMaterials := object.valueOr (.array .word) "triangle_material_indices" #[]
      materials := object.valueOr (.array Material.codec) "materials" #[] }

theorem readsPartly : ReadsPartly record ofObject := by
  refine Record.readsPartly independent fieldsTake rfl fun object => ?_
  simp only [record, meshField, List.foldl_cons, List.foldl_nil, given_of, implies_true]
  rfl

/-- What a member with a list of records says of a fixture: objects for the records need not give
every field, each is read as what it says, and one that gives a field twice is a fault of the whole
fixture. -/
structure ListsPartly {σ : Type} (name : String) (record : Record σ) (ofObject : ObjectText → σ)
    (get : Mesh → Array σ) : Prop where
  partly : ReadsPartly record ofObject
  decodes : ∀ {list : ListText} {parts : List ObjectText}, list.Grammatical →
    list.entries = parts.map ObjectText.text → (∀ part ∈ parts, part.Partial record) →
    (Codec.array record.codec).parse (String.ofList list.text) = .ok (parts.map ofObject).toArray
  entry : ∀ {object : ObjectText} {list : ListText} {part : ObjectText} {i : Nat},
    object.Partial Fixture.record → (name, list.text) ∈ namedValues object.members →
    list.Grammatical → list.entries[i]? = some part.text → part.Partial record →
    ∃ fixture, parse (String.ofList object.text) = .ok fixture ∧
      (get fixture.mesh)[i]? = some (ofObject part)
  twice : ∀ {object : ObjectText} {list : ListText} {part : ObjectText}, object.Grammatical →
    (name, list.text) ∈ namedValues object.members → list.Grammatical → part.text ∈ list.entries →
    part.Grammatical → ¬((record.known part.members).map Prod.fst).Nodup →
    ∃ fault, parse (String.ofList object.text) = .error fault

section

variable {σ : Type} {name : String} {listed : Record σ} {ofPart : ObjectText → σ}
  {get : Mesh → Array σ} {set : Mesh → Array σ → Mesh}

theorem parse_list (hpartly : ReadsPartly listed ofPart) (hfields : FieldsTake listed.fields)
    {list : ListText} {parts : List ObjectText} (h : list.Grammatical)
    (hentries : list.entries = parts.map ObjectText.text)
    (hparts : ∀ part ∈ parts, part.Partial listed) :
    (Codec.array listed.codec).parse (String.ofList list.text) =
      .ok (parts.map ofPart).toArray := by
  refine ListText.parse_array (Record.takes hfields) h ?_
  rw [hentries, List.forall₂_map_left_iff, List.forall₂_map_right_iff, List.forall₂_same]
  exact fun part hp => hpartly.read (hparts part hp)

theorem mem_known {object : ObjectText} {value : List Char} {field : Json.RecordField Fixture}
    (hfield : record.field? name = some field) (h : (name, value) ∈ namedValues object.members) :
    (name, value) ∈ record.known object.members :=
  List.mem_filter.mpr ⟨h, Option.isSome_iff_exists.mpr ⟨field, hfield⟩⟩

/-- The value for a field of a fixture decodes, and nothing else is given for the field. -/
theorem value_of_partial {α : Type} {codec : Codec α} {get : Mesh → α} {set : Mesh → α → Mesh}
    (hfield : record.field? name = some (meshField name codec get set)) {object : ObjectText}
    (h : object.Partial record) {value : List Char}
    (hvalue : (name, value) ∈ namedValues object.members) (default : α) :
    ∃ a, codec.parse (String.ofList value) = .ok a ∧ object.valueOr codec name default = a := by
  have hknown := mem_known hfield hvalue
  have hlookup : (namedValues object.members).lookup name = some value := by
    rw [← Record.lookup_known (Option.isSome_iff_exists.mpr ⟨_, hfield⟩)]
    exact Record.lookup_of_mem h.once hknown
  obtain ⟨c, hc⟩ := h.decodes _ hknown _ hfield
  rw [meshField, Json.RecordField.readWhole_of] at hc
  obtain ⟨a, ha, _⟩ := map_eq_ok.mp hc
  refine ⟨a, ha, ?_⟩
  rw [ObjectText.valueOr, valueOr, hlookup, Option.bind_some, ha]
  rfl

/-- An object for a record is read as what it says wherever it stands in a list. -/
theorem entry_eq (hpartly : ReadsPartly listed ofPart) (hfields : FieldsTake listed.fields)
    {list : ListText} (h : list.Grammatical) {found : Array σ}
    (hfound : (Codec.array listed.codec).parse (String.ofList list.text) = .ok found)
    {part : ObjectText} (hpart : part.Partial listed) {i : Nat}
    (hi : list.entries[i]? = some part.text) : found[i]? = some (ofPart part) := by
  have htakes := Record.takes hfields
  have hentries := ListText.found_of_array htakes h (.of_readWhole hfound)
  obtain ⟨hlength, hat⟩ := List.forall₂_iff_get.mp hentries
  obtain ⟨hlist, hpartAt⟩ := List.getElem?_eq_some_iff.mp hi
  have hin : i < found.toList.length := hlength ▸ hlist
  have hfoundAt := hat i hlist hin
  rw [List.get_eq_getElem, List.get_eq_getElem, hpartAt] at hfoundAt
  have heq := hfoundAt.eq_of_readWhole htakes (hpartly.read hpart)
  rw [← Array.getElem?_toList, List.getElem?_eq_getElem hin, heq]

theorem listsPartly (hpartly : ReadsPartly listed ofPart) (hfields : FieldsTake listed.fields)
    (hfield : record.field? name = some (meshField name (.array listed.codec) get set))
    (hget : ∀ object, get (ofObject object).mesh = object.valueOr (.array listed.codec) name #[]) :
    ListsPartly name listed ofPart get := by
  refine ⟨hpartly, parse_list hpartly hfields,
    fun {object list part i} h hlist hgram hi hpart => ?_,
    fun {object list part} h hlist hgram hmem hpart htwice => error_of_not_found fun s hs => ?_⟩
  · obtain ⟨found, hfound, hvalue⟩ := value_of_partial hfield h hlist #[]
    refine ⟨ofObject object, readsPartly.read h, ?_⟩
    rw [hget, hvalue]
    exact entry_eq hpartly hfields hgram hfound hpart hi
  · have htold := Record.told_of_found fieldsTake h hs
    obtain ⟨c, hc⟩ := htold.found _ (mem_known hfield hlist) _ hfield
    obtain ⟨found, hfound⟩ := hc.of_field
    have hentries := ListText.found_of_array (Record.takes hfields) hgram hfound
    obtain ⟨i, hi, hat⟩ := List.getElem_of_mem hmem
    obtain ⟨hlength, hfoundAt⟩ := List.forall₂_iff_get.mp hentries
    have ha := hfoundAt i hi (hlength ▸ hi)
    rw [List.get_eq_getElem, hat] at ha
    exact htwice (Record.told_of_found hfields hpart ha).once

end

/-- Fixtures mean what their texts say, down to the objects in their lists of materials and of
attributes. A name is any key without half a pair of surrogates; values may hold such halves. -/
theorem partial_objects :
    ReadsPartly record ofObject ∧
      ListsPartly "materials" Material.record Material.ofObject Mesh.materials ∧
      ListsPartly "attributes" VertexAttribute.record VertexAttribute.ofObject Mesh.attributes :=
  ⟨readsPartly, listsPartly Material.readsPartly Material.fieldsTake rfl fun _ => rfl,
    listsPartly VertexAttribute.readsPartly VertexAttribute.fieldsTake rfl fun _ => rfl⟩

/-- A floor of stone, with a member that no material has. -/
def floorObject : ObjectText where
  members := [⟨[], "texture".toList, [], "\"FLOOR.TGA\"".toList⟩,
    ⟨[' '], "cost".toList, [], enclosed .list [] ["null".toList]⟩,
    ⟨[' '], "group".toList, [' '], "\"stone\"".toList⟩]

def floorList : ListText where
  entries := [floorObject.text]

/-- A fixture of one material, with a member that no fixture has and without a name. -/
def floorFixture : ObjectText where
  members := [⟨[], "author".toList, [], "\"\\ud83d\"".toList⟩,
    ⟨[' '], "materials".toList, [], floorList.text⟩]

/-- The fixture with its members the other way round. -/
def turnedFixture : ObjectText where
  members := floorFixture.members.reverse

/-- A fixture with two names, though they are the same. -/
def twiceNamed : ObjectText where
  members := [⟨[], "name".toList, [], "\"\"".toList⟩, ⟨[], "name".toList, [], "\"\"".toList⟩]

theorem floorObject_partial : floorObject.Partial Material.record := by
  have hvalues : ∀ m ∈ floorObject.members, JsonText m.value := by
    have htexture : Plain "FLOOR.TGA".toList := by decide
    have hgroup : Plain "stone".toList := by decide
    simp only [floorObject, List.forall_mem_cons]
    exact ⟨.string htexture.stringBody, .list blank_nil (by simpa using .null),
      .string hgroup.stringBody, List.forall_mem_nil _⟩
  obtain ⟨hgrammatical, hnamed⟩ :=
    ObjectText.grammatical_of_plain (by decide) (by decide) hvalues
  exact ⟨hgrammatical, hnamed, by decide +kernel,
    ObjectText.decodes_of_effect? (by decide +kernel)⟩

theorem floorList_grammatical : floorList.Grammatical :=
  ⟨blank_nil, blank_nil, blank_nil, by simpa [floorList] using floorObject_partial.grammatical.json⟩

theorem half_grammatical : StringBody "\\ud83d".toList := by
  refine .unit ?_ .nil
  simp only [List.forall_mem_cons]
  exact ⟨by decide, by decide, by decide, by decide, List.forall_mem_nil _⟩

theorem floorFixture_partial : floorFixture.Partial record := by
  have hvalues : ∀ m ∈ floorFixture.members, JsonText m.value := by
    simp only [floorFixture, List.forall_mem_cons]
    exact ⟨.string half_grammatical, floorList_grammatical.json, List.forall_mem_nil _⟩
  obtain ⟨hgrammatical, hnamed⟩ :=
    ObjectText.grammatical_of_plain (by decide) (by decide) hvalues
  exact ⟨hgrammatical, hnamed, by decide +kernel,
    ObjectText.decodes_of_effect? (by decide +kernel)⟩

theorem turnedFixture_grammatical :
    turnedFixture.Grammatical ∧ ∀ m ∈ turnedFixture.members, m.Named :=
  ObjectText.grammatical_of_plain (by decide) (by decide) fun m hm =>
    floorFixture_partial.grammatical.values m (List.mem_reverse.mp hm)

theorem twiceNamed_grammatical : twiceNamed.Grammatical := by
  have hvalues : ∀ m ∈ twiceNamed.members, JsonText m.value := by
    simp only [twiceNamed, List.forall_mem_cons]
    exact ⟨.string .nil, .string .nil, List.forall_mem_nil _⟩
  exact (ObjectText.grammatical_of_plain (by decide) (by decide) hvalues).1

/-- The floor keeps its defaults and its place, and only two names are a fault. -/
theorem partial_objects_floor :
    floorFixture.Partial record ∧ floorObject.Partial Material.record ∧
      parse (String.ofList floorFixture.text) = .ok (ofObject floorFixture) ∧
      parse (String.ofList turnedFixture.text) = .ok (ofObject floorFixture) ∧
      (∃ fixture, parse (String.ofList floorFixture.text) = .ok fixture ∧
        fixture.mesh.materials[0]? = some (Material.ofObject floorObject)) ∧
      Material.ofObject floorObject = { texture := "FLOOR.TGA", group := .stone } ∧
      ∃ fault, parse (String.ofList twiceNamed.text) = .error fault := by
  obtain ⟨hfixture, hmaterials, _⟩ := partial_objects
  obtain ⟨hturned, hnames⟩ := turnedFixture_grammatical
  have hlist : ("materials", floorList.text) ∈ namedValues floorFixture.members := by
    decide +kernel
  exact ⟨floorFixture_partial, floorObject_partial, hfixture.read floorFixture_partial,
    hfixture.reorder floorFixture_partial hturned hnames (by decide +kernel),
    hmaterials.entry floorFixture_partial hlist floorList_grammatical rfl floorObject_partial,
    by decide +kernel, hfixture.twice twiceNamed_grammatical (by decide +kernel)⟩

/-- A fixture with nothing but a member whose key is half a pair of surrogates. -/
def halfNamed : ObjectText where
  members := [⟨[], "\\ud83d".toList, [], ['1']⟩]

/-- The text is JSON and gives no field, and it is a fault nevertheless. -/
theorem fault_of_half_key :
    JsonText halfNamed.text ∧ record.known halfNamed.members = [] ∧
      parse (String.ofList halfNamed.text) = .error .unfinishedHexEscape := by
  have hdigits : Digits ['1'] := ⟨List.cons_ne_nil _ _, List.forall_mem_singleton.mpr rfl⟩
  have hvalue : JsonText ['1'] := .number (.parts (Or.inl rfl) hdigits (by decide) .absent .absent)
  have hgrammatical : halfNamed.Grammatical := by
    refine ⟨blank_nil, blank_nil, blank_nil, ?_, ?_⟩
    all_goals simp only [halfNamed, List.forall_mem_cons]
    · exact ⟨⟨blank_nil, half_grammatical, blank_nil⟩, List.forall_mem_nil _⟩
    · exact ⟨hvalue, List.forall_mem_nil _⟩
  exact ⟨hgrammatical.json, by decide +kernel, by decide +kernel⟩

end Fixture

end RenderMesh
