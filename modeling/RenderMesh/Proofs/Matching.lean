import RenderMesh.Proofs.Compare

/-!
# Matching summaries

Comparing accepts exactly the pairs that match, and it looks at nothing but the counts, the numbers,
the integers and the textures: values that look alike there are told apart by no comparison, whether
it accepts or reports a mismatch.
-/

namespace RenderMesh

open Json (Value)

namespace Json.Value

theorem integer?_eq_some {value : Value} {i : Int} :
    integer? value = some i ↔
      value = .number (.integer i) ∧ Int64.minValue.toInt ≤ i ∧ i ≤ Int64.maxValue.toInt := by
  unfold integer?
  split
  next held =>
    rw [Option.ite_none_right_eq_some, Option.some.injEq, Tree.number.injEq, Number.integer.injEq]
    constructor
    · rintro ⟨hrange, rfl⟩
      exact ⟨rfl, hrange⟩
    · rintro ⟨rfl, hrange⟩
      exact ⟨hrange, rfl⟩
  next hother => exact iff_of_false (fun h => nomatch h) fun h => hother i h.1

theorem entries?_eq_some {value : Value} {entries : List Value} :
    value.entries? = some entries ↔ value = .array entries := by
  cases value <;> simp [Tree.entries?]

end Json.Value

namespace Compare

/-! ### Pairs that match -/

/-- The same integer of a signed word on both sides. -/
def SameInteger (actual expected : Value) : Prop :=
  ∃ i, (Int64.minValue.toInt ≤ i ∧ i ≤ Int64.maxValue.toInt) ∧
    actual = .number (.integer i) ∧ expected = .number (.integer i)

/-- Numbers on both sides, of which the tolerance is not below the distance. -/
def Near (tolerance : Double) (actual expected : Value) : Prop :=
  ∃ x y, actual.double? = some x ∧ expected.double? = some y ∧
    tolerance.less (x.distance y) = false

/-- The texture that a material shows: the string under that name. What is no object, has nothing
under the name or something else than a string there shows an empty one. -/
def shownTexture : Value → String
  | .object members =>
    match members.lookup "texture" with
    | some (.string text) => text
    | _ => ""
  | _ => ""

/-- Materials that show one texture. -/
def SameTexture (actual expected : Value) : Prop := shownTexture actual = shownTexture expected

/-- Lists of one length in both meshes, whose entries are related in pairs. -/
def Listed (which : Part) (related : Value → Value → Prop) (actual expected : Value) : Prop :=
  ∃ as es, (actual.get "mesh").get which.name = .array as ∧
    (expected.get "mesh").get which.name = .array es ∧ List.Forall₂ related as es

/-- Summaries with the same counts, indices and material numbers, vertex numbers near each other and
materials of the same textures. -/
structure Matches (tolerance : Double) (actual expected : Value) : Prop where
  counts : ∀ which : Count, SameInteger (actual.get which.name) (expected.get which.name)
  vertices : Listed .vertices (Near tolerance) actual expected
  indices : Listed .indices SameInteger actual expected
  materialIds : Listed .materialIds SameInteger actual expected
  textures : Listed .materials SameTexture actual expected

variable {actual expected : Value} {tolerance : Double}

theorem isOk_integers_iff_same (missing : Side → Difference) :
    (integers missing actual expected).isOk = true ↔ SameInteger actual expected := by
  simp only [isOk_integers, Value.integer?_eq_some, SameInteger]
  constructor
  · rintro ⟨i, ⟨ha, hrange⟩, he, _⟩
    exact ⟨i, hrange, ha, he⟩
  · rintro ⟨i, hrange, ha, he⟩
    exact ⟨i, ⟨ha, hrange⟩, he, hrange⟩

theorem texture_eq_shownTexture (material : Value) : texture material = shownTexture material := by
  cases material with
  | object members =>
    simp only [texture, Json.Tree.get, shownTexture]
    cases members.lookup "texture" with
    | none => rfl
    | some held => cases held <;> rfl
  | null | bool _ | number _ | string _ | array _ => rfl

theorem isOk_textures_iff_same : (textures actual expected).isOk = true ↔
    SameTexture actual expected := by
  rw [isOk_textures, texture_eq_shownTexture, texture_eq_shownTexture, SameTexture]

theorem isOk_part_iff_listed {which : Part} {entry : Value → Value → Except Difference Unit}
    {related : Value → Value → Prop} (h : ∀ a e, (entry a e).isOk = true ↔ related a e) :
    (part which entry (actual.get "mesh") (expected.get "mesh")).isOk = true ↔
      Listed which related actual expected := by
  have hentry : (fun a e => (entry a e).isOk = true) = related :=
    funext fun a => funext fun e => propext (h a e)
  rw [isOk_part, hentry]
  simp only [Value.entries?_eq_some, Listed]

theorem isOk_run_iff_matches :
    (run actual expected tolerance).isOk = true ↔ Matches tolerance actual expected := by
  have hwords : ∀ which, (part which (fun a e => (integers .invalid a e).map fun _ => ())
      (actual.get "mesh") (expected.get "mesh")).isOk = true ↔
        Listed which SameInteger actual expected :=
    fun which => isOk_part_iff_listed fun a e => by rw [isOk_map, isOk_integers_iff_same]
  have hcounts : ∀ which, (count which actual expected).isOk = true ↔
      SameInteger (actual.get which.name) (expected.get which.name) :=
    fun which => by rw [count, isOk_mapError, isOk_integers_iff_same]
  rw [isOk_run, isOk_part_iff_listed fun _ _ => isOk_numbers,
    isOk_part_iff_listed fun _ _ => isOk_textures_iff_same]
  simp only [hwords, hcounts, List.forall_mem_cons]
  constructor
  · rintro ⟨counts, vertices, ⟨indices, materialIds, _⟩, textures⟩
    exact ⟨counts, vertices, indices, materialIds, textures⟩
  · rintro ⟨counts, vertices, indices, materialIds, textures⟩
    exact ⟨counts, vertices, ⟨indices, materialIds, fun _ h => absurd h List.not_mem_nil⟩, textures⟩

/-! ### What is looked at -/

/-- All that comparing sees of a summary. -/
structure View where
  counts : Count → Option Int
  vertices : Option (List (Option Double))
  indices : Option (List (Option Int))
  materialIds : Option (List (Option Int))
  textures : Option (List String)

/-- What is seen of the entries of a list, if the list is there. -/
def seen {α : Type} (see : Value → α) (which : Part) (mesh : Value) : Option (List α) :=
  (mesh.get which.name).entries?.map (List.map see)

def view (summary : Value) : View where
  counts which := Value.integer? (summary.get which.name)
  vertices := seen Value.double? .vertices (summary.get "mesh")
  indices := seen Value.integer? .indices (summary.get "mesh")
  materialIds := seen Value.integer? .materialIds (summary.get "mesh")
  textures := seen shownTexture .materials (summary.get "mesh")

section

variable {α : Type} {see : Value → α} {which : Part}
  {entry : Value → Value → Except Difference Unit} {actual' expected' : Value}

/-- A comparison of entries that looks at them through `see` only. -/
def Through (see : Value → α) (entry : Value → Value → Except Difference Unit) : Prop :=
  ∀ a a' e e', see a = see a' → see e = see e' → entry a e = entry a' e'

theorem through_numbers (tolerance : Double) : Through Value.double? (numbers tolerance) := by
  intro a a' e e' ha he
  rw [numbers, numbers, ha, he]

theorem through_integers (missing : Side → Difference) :
    Through Value.integer? fun a e => (integers missing a e).map fun _ => () := by
  intro a a' e e' ha he
  simp only [integers, ha, he]

theorem through_textures : Through shownTexture textures := by
  intro a a' e e' ha he
  simp only [textures, texture_eq_shownTexture, ha, he]

theorem Through.entriesFrom (h : Through see entry) {as as' es es' : List Value}
    (ha : as.map see = as'.map see) (he : es.map see = es'.map see) (number : Nat) :
    entriesFrom which entry number as es = entriesFrom which entry number as' es' := by
  induction as generalizing as' es es' number with
  | nil =>
    obtain rfl := List.map_eq_nil_iff.mp ha.symm
    rfl
  | cons a as ih =>
    obtain ⟨a', as', rfl, hhead, htail⟩ := List.map_eq_cons_iff.mp ha.symm
    cases es with
    | nil =>
      obtain rfl := List.map_eq_nil_iff.mp he.symm
      rfl
    | cons e es =>
      obtain ⟨e', es', rfl, hhead', htail'⟩ := List.map_eq_cons_iff.mp he.symm
      rw [Compare.entriesFrom, Compare.entriesFrom, h a a' e e' hhead.symm hhead'.symm,
        ih htail.symm htail'.symm]

theorem Through.part (h : Through see entry) (ha : seen see which actual = seen see which actual')
    (he : seen see which expected = seen see which expected') :
    part which entry actual expected = part which entry actual' expected' := by
  have hsame : ∀ {found found' : Option (List Value)},
      found.map (List.map see) = found'.map (List.map see) →
        (found = none ∧ found' = none) ∨ ∃ list list', found = some list ∧ found' = some list' ∧
          list.map see = list'.map see := by
    intro found found' hmap
    cases found <;> cases found' <;> simp_all
  unfold Compare.part
  rcases hsame ha with ⟨hn, hn'⟩ | ⟨as, as', hs, hs', has⟩
  · rw [hn, hn']
    rfl
  · rcases hsame he with ⟨hn, hn'⟩ | ⟨es, es', ht, ht', hes⟩
    · rw [hs, hs', hn, hn']
      rfl
    · have hlength := congrArg List.length has
      have hlength' := congrArg List.length hes
      rw [List.length_map, List.length_map] at hlength hlength'
      rw [hs, hs', ht, ht']
      simp only [need, Except.mapError, bind, Except.bind, hlength, hlength',
        h.entriesFrom has hes]

/-- Every check is the same for summaries that look alike. -/
theorem checks_of_view (ha : view actual = view actual') (he : view expected = view expected')
    (tolerance : Double) :
    checks actual expected tolerance = checks actual' expected' tolerance := by
  have hcount : ∀ which, count which actual expected = count which actual' expected' := by
    intro which
    have hactual : Value.integer? (actual.get which.name) =
        Value.integer? (actual'.get which.name) := congrFun (congrArg View.counts ha) which
    have hexpected : Value.integer? (expected.get which.name) =
        Value.integer? (expected'.get which.name) := congrFun (congrArg View.counts he) which
    rw [count, count, integers, integers, hactual, hexpected]
  have hvertices := (through_numbers tolerance).part (congrArg View.vertices ha)
    (congrArg View.vertices he)
  have hindices := (through_integers .invalid).part (congrArg View.indices ha)
    (congrArg View.indices he)
  have hmaterialIds := (through_integers .invalid).part (congrArg View.materialIds ha)
    (congrArg View.materialIds he)
  have htextures := through_textures.part (congrArg View.textures ha) (congrArg View.textures he)
  simp only [checks, List.map_cons, List.map_nil, hcount, hvertices, hindices, hmaterialIds,
    htextures]

end

/-- Comparing accepts exactly the pairs that match. Summaries that look alike come to the same end,
with the same mismatch if there is one and the same agreements before it. -/
theorem accepts_matching_by_view (actual expected : Value) (tolerance : Double) :
    (run actual expected tolerance = .ok () ↔ Matches tolerance actual expected) ∧
      ∀ actual' expected', view actual' = view actual → view expected' = view expected →
        run actual' expected' tolerance = run actual expected tolerance ∧
          events actual' expected' tolerance = events actual expected tolerance := by
  refine ⟨isOk_iff.symm.trans isOk_run_iff_matches, fun actual' expected' ha he => ?_⟩
  have hchecks := checks_of_view ha he tolerance
  rw [run, run, events, events, hchecks]
  exact ⟨rfl, rfl⟩

/-- A summary of one number and one material, with something beside them. -/
def dotSummary (number : Json.Number) (material beside : List (String × Value)) : Value :=
  .object
    ([("vertex_count", .number (.integer 0)), ("index_count", .number (.integer 1)),
      ("triangle_count", .number (.integer 1)), ("material_count", .number (.integer 1)),
      ("mesh", .object
        [("vertices", .array [.number number]), ("indices", .array [.number (.integer 0)]),
         ("material_ids", .array [.number (.integer 0)]),
         ("materials", .array [.object material])])]
      ++ beside)

/-- A report, a name, a texture that is no string and a number that is written as an integer do not
show; the number does. A material without a texture matches one with an empty texture and no
other. -/
theorem accepts_matching_by_view_dot :
    view (dotSummary (.integer 1) [("name", .string "a")] [("report", .null)]) =
      view (dotSummary (.double (.ofInt 1)) [("texture", .bool true)] []) ∧
    run (dotSummary (.integer 1) [("name", .string "a")] [("report", .null)])
      (dotSummary (.integer 3) [] []) (.ofInt 1) =
      .error ⟨.entry .vertices 0, .numbers (.ofInt 1) (.ofInt 3) (.ofInt 2)⟩ ∧
    Matches .zero (dotSummary (.integer 1) [("name", .string "a")] [])
      (dotSummary (.integer 1) [("texture", .string "")] []) ∧
    ¬Matches .zero (dotSummary (.integer 1) [("name", .string "a")] [])
      (dotSummary (.integer 1) [("texture", .string "A.TGA")] []) := by
  have hview : view (dotSummary (.integer 1) [("name", .string "a")] [("report", .null)]) =
      view (dotSummary (.double (.ofInt 1)) [("texture", .bool true)] []) := by
    rw [view, view, View.mk.injEq]
    refine ⟨funext fun which => ?_, rfl, rfl, rfl, rfl⟩
    cases which <;> rfl
  have hpainted : run (dotSummary (.integer 1) [("name", .string "a")] [])
      (dotSummary (.integer 1) [("texture", .string "A.TGA")] []) .zero =
      .error ⟨.entry .materials 0, .textures "" "A.TGA"⟩ := by decide +kernel
  refine ⟨hview, ?_, ?_, ?_⟩
  · rw [((accepts_matching_by_view (dotSummary (.double (.ofInt 1)) [("texture", .bool true)] [])
      (dotSummary (.integer 3) [] []) (.ofInt 1)).2 _ _ hview rfl).1]
    decide +kernel
  · exact (accepts_matching_by_view _ _ _).1.mp (by decide +kernel)
  · intro hmatches
    cases hpainted.symm.trans ((accepts_matching_by_view _ _ _).1.mpr hmatches)

end Compare

end RenderMesh
