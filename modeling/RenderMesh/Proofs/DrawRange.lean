import Mathlib.Data.List.Chain
import Mathlib.Data.List.Induction
import RenderMesh.Welder

/-!
# Draw ranges as runs

The owners of a list of indices are the materials of the triangles they belong to. Entering indices
one by one or several at a time gives the same ranges, and these are the runs of equal owners: they
follow each other without gaps, none is empty, and neighbours have different materials.
-/

namespace RenderMesh.DrawRange

/-- The place after the last index of a range. -/
def stop (range : DrawRange) : Nat := range.firstIndex + range.indexCount

/-- The material of a range, once for each of its indices. -/
def owners (range : DrawRange) : List UInt32 := List.replicate range.indexCount range.material

/-- Ranges that cut `count` indices into runs. -/
structure Partition (ranges : List DrawRange) (count : Nat) : Prop where
  starts : ∀ range ∈ ranges.head?, range.firstIndex = 0
  consecutive : ranges.IsChain fun a b => b.firstIndex = a.stop
  ends : (ranges.getLast?.map stop).getD 0 = count
  nonempty : ∀ range ∈ ranges, 0 < range.indexCount
  alternating : ranges.IsChain fun a b => a.material ≠ b.material

/-- Ranges that are the runs of a list of owners. -/
structure Runs (owners : List UInt32) (ranges : List DrawRange) : Prop
    extends Partition ranges owners.length where
  owners_eq : ranges.flatMap DrawRange.owners = owners

/-- The ranges of a list of owners, entered one by one. -/
def ofOwners (owners : List UInt32) : Array DrawRange :=
  owners.zipIdx.foldl (fun ranges entry => extend ranges entry.1 entry.2 (entry.2 + 1)) #[]

theorem ofOwners_concat (owners : List UInt32) (material : UInt32) :
    ofOwners (owners ++ [material]) =
      extend (ofOwners owners) material owners.length (owners.length + 1) := by
  rw [ofOwners, List.zipIdx_append, List.foldl_append]
  simp [ofOwners]

theorem back?_cases (ranges : Array DrawRange) (material : UInt32) :
    (∀ last ∈ ranges.back?, last.material ≠ material) ∨
      ∃ last, ranges.back? = some last ∧ last.material = material := by
  cases ranges.back? with
  | none => simp
  | some last =>
    by_cases hm : last.material = material
    · exact Or.inr ⟨last, rfl, hm⟩
    · simp [hm]

theorem extend_self (ranges : Array DrawRange) (material : UInt32) (first : Nat) :
    extend ranges material first first = ranges := if_pos rfl

theorem extend_of_back {ranges : Array DrawRange} {last : DrawRange} {first stop : Nat}
    (hb : ranges.back? = some last) (hn : stop ≠ first) :
    extend ranges last.material first stop =
      ranges.pop.push { last with indexCount := last.indexCount + (stop - first) } := by
  rw [extend, if_neg hn, hb]
  exact if_pos rfl

theorem extend_of_new {ranges : Array DrawRange} {material : UInt32} {first stop : Nat}
    (hb : ∀ last ∈ ranges.back?, last.material ≠ material) (hn : stop ≠ first) :
    extend ranges material first stop = ranges.push ⟨material, first, stop - first⟩ := by
  rw [extend, if_neg hn]
  cases h : ranges.back? with
  | none => rfl
  | some last => exact if_neg (hb last h)

theorem extend_extend (ranges : Array DrawRange) (material : UInt32) {a b c : Nat} (hab : a ≤ b)
    (hbc : b ≤ c) :
    extend (extend ranges material a b) material b c = extend ranges material a c := by
  by_cases ha : b = a
  · rw [ha, extend_self]
  by_cases hb : c = b
  · rw [hb, extend_self]
  have hc : c ≠ a := by omega
  rcases back?_cases ranges material with hm | ⟨last, hlast, hm⟩
  · -- The first step opens a range, the second one lengthens it.
    have hback : (extend ranges material a b).back? = some ⟨material, a, b - a⟩ := by
      rw [extend_of_new hm ha, Array.back?_push]
    have hgrow := extend_of_back hback hb
    rw [hgrow, extend_of_new hm ha, extend_of_new hm hc, Array.pop_push]
    have hcount : b - a + (c - b) = c - a := by omega
    simp only [hcount]
  · -- Both steps lengthen the last range.
    subst hm
    have hback : (extend ranges last.material a b).back? =
        some { last with indexCount := last.indexCount + (b - a) } := by
      rw [extend_of_back hlast ha, Array.back?_push]
    have hgrow := extend_of_back hback hb
    rw [hgrow, extend_of_back hlast ha, extend_of_back hlast hc, Array.pop_push]
    have hcount : last.indexCount + (b - a) + (c - b) = last.indexCount + (c - a) := by omega
    simp only [hcount]

theorem ofOwners_append_replicate (owners : List UInt32) (material : UInt32) (k : Nat) :
    ofOwners (owners ++ List.replicate k material) =
      extend (ofOwners owners) material owners.length (owners.length + k) := by
  induction k with
  | zero =>
    rw [List.replicate_zero, List.append_nil]
    exact (extend_self _ _ _).symm
  | succ k ih =>
    rw [List.replicate_succ', ← List.append_assoc, ofOwners_concat, ih, List.length_append,
      List.length_replicate]
    exact extend_extend _ _ (by omega) (by omega)

theorem isChain_concat {R : DrawRange → DrawRange → Prop} {ranges : List DrawRange}
    {range : DrawRange} : (ranges ++ [range]).IsChain R ↔
      ranges.IsChain R ∧ ∀ last ∈ ranges.getLast?, R last range := by
  rw [List.isChain_append]
  constructor
  · intro h
    exact ⟨h.1, fun last hl => h.2.2 last hl range rfl⟩
  · intro h
    refine ⟨h.1, .singleton _, ?_⟩
    intro last hl next hn
    rw [List.head?_singleton, Option.mem_some] at hn
    rw [← hn]
    exact h.2 last hl

theorem runs_nil : Runs [] [] where
  starts := by simp
  consecutive := .nil
  ends := rfl
  nonempty := by simp
  alternating := .nil
  owners_eq := rfl

/-- The next index has the owner of the last range. -/
theorem Runs.grow {owners : List UInt32} {init : List DrawRange} {last : DrawRange}
    (h : Runs owners (init ++ [last])) :
    Runs (owners ++ [last.material])
      (init ++ [{ last with indexCount := last.indexCount + 1 }]) := by
  have hc := isChain_concat.mp h.consecutive
  have ha := isChain_concat.mp h.alternating
  have hn := List.forall_mem_append.mp h.nonempty
  have he := h.ends
  refine ⟨⟨?_, ?_, ?_, ?_, ?_⟩, ?_⟩
  · cases init with
    | nil => simpa using h.starts
    | cons first rest => simpa using h.starts
  · exact isChain_concat.mpr ⟨hc.1, hc.2⟩
  · rw [List.getLast?_concat] at he ⊢
    simp only [Option.map_some, Option.getD_some, stop] at he ⊢
    rw [List.length_append, List.length_singleton]
    omega
  · refine List.forall_mem_append.mpr ⟨hn.1, ?_⟩
    intro range hr
    rw [List.mem_singleton.mp hr]
    exact Nat.succ_pos _
  · exact isChain_concat.mpr ⟨ha.1, ha.2⟩
  · rw [← h.owners_eq, List.flatMap_append, List.flatMap_append, List.flatMap_singleton,
      List.flatMap_singleton, List.append_assoc]
    simp only [DrawRange.owners, List.replicate_succ']

/-- The next index has another owner. -/
theorem Runs.push {owners : List UInt32} {ranges : List DrawRange} (h : Runs owners ranges)
    {material : UInt32} (hm : ∀ last ∈ ranges.getLast?, last.material ≠ material) :
    Runs (owners ++ [material]) (ranges ++ [⟨material, owners.length, 1⟩]) := by
  have he := h.ends
  refine ⟨⟨?_, ?_, ?_, ?_, ?_⟩, ?_⟩
  · cases ranges with
    | nil => simpa using he.symm
    | cons first rest => simpa using h.starts
  · refine isChain_concat.mpr ⟨h.consecutive, ?_⟩
    intro last hl
    rw [Option.mem_def.mp hl] at he
    exact he.symm
  · rw [List.getLast?_concat, List.length_append]
    rfl
  · refine List.forall_mem_append.mpr ⟨h.nonempty, ?_⟩
    intro range hr
    rw [List.mem_singleton.mp hr]
    exact Nat.one_pos
  · exact isChain_concat.mpr ⟨h.alternating, hm⟩
  · rw [List.flatMap_append, h.owners_eq]
    rfl

theorem runs_ofOwners (owners : List UInt32) : Runs owners (ofOwners owners).toList := by
  induction owners using List.reverseRecOn with
  | nil => exact runs_nil
  | append_singleton owners material ih =>
    have hn : owners.length + 1 ≠ owners.length := by omega
    rw [ofOwners_concat]
    -- A new run starts, or the last one grows.
    rcases back?_cases (ofOwners owners) material with hm | ⟨last, hlast, hm⟩
    · rw [extend_of_new hm hn, Array.toList_push, Nat.add_sub_cancel_left]
      refine ih.push ?_
      intro last hl
      exact hm last (by rw [← Array.getLast?_toList]; exact hl)
    · obtain ⟨init, hi⟩ := Array.back?_eq_some_iff.mp hlast
      subst hm
      rw [hi, Array.toList_push] at ih
      rw [extend_of_back hlast hn, hi, Array.pop_push, Array.toList_push,
        Nat.add_sub_cancel_left]
      exact ih.grow

theorem length_owners (range : DrawRange) : range.owners.length = range.indexCount :=
  List.length_replicate

/-- A range starts after the indices of the ranges before it. -/
theorem Runs.firstIndex_eq {owners : List UInt32} {before after : List DrawRange}
    {range : DrawRange} (h : Runs owners (before ++ range :: after)) :
    range.firstIndex = (before.flatMap DrawRange.owners).length := by
  induction before using List.reverseRecOn generalizing range after with
  | nil => exact h.starts range rfl
  | append_singleton before last ih =>
    rw [List.append_assoc, List.singleton_append] at h
    have hfirst := ih h
    have hc := List.isChain_append.mp h.consecutive
    have hnext := List.IsChain.rel hc.2.1
    rw [hnext, stop, hfirst, List.flatMap_append, List.flatMap_singleton, List.length_append,
      length_owners]

theorem Runs.owners_split {owners : List UInt32} {before after : List DrawRange}
    {range : DrawRange} (h : Runs owners (before ++ range :: after)) :
    owners = before.flatMap DrawRange.owners ++
      (range.owners ++ after.flatMap DrawRange.owners) := by
  rw [← h.owners_eq, List.flatMap_append, List.flatMap_cons]

theorem Runs.owner_at {owners : List UInt32} {ranges : List DrawRange} (h : Runs owners ranges)
    {range : DrawRange} (hr : range ∈ ranges) {place : Nat} (hfirst : range.firstIndex ≤ place)
    (hstop : place < range.stop) : owners[place]? = some range.material := by
  obtain ⟨before, after, rfl⟩ := List.append_of_mem hr
  have hf := h.firstIndex_eq
  have hlt : place - (before.flatMap DrawRange.owners).length < range.owners.length := by
    rw [length_owners]
    unfold stop at hstop
    omega
  rw [h.owners_split, List.getElem?_append_right (by omega), List.getElem?_append_left hlt,
    List.getElem?_eq_getElem hlt]
  simp only [DrawRange.owners, List.getElem_replicate]

theorem Runs.stop_le {owners : List UInt32} {ranges : List DrawRange} (h : Runs owners ranges)
    {range : DrawRange} (hr : range ∈ ranges) : range.stop ≤ owners.length := by
  obtain ⟨before, after, rfl⟩ := List.append_of_mem hr
  have hfirst := h.firstIndex_eq
  have hlength := congrArg List.length h.owners_split
  simp only [List.length_append, length_owners] at hlength
  unfold stop
  omega

theorem material_mem_owners {range : DrawRange} (h : 0 < range.indexCount) :
    range.material ∈ range.owners :=
  List.mem_replicate.mpr ⟨by omega, rfl⟩

theorem Runs.mem_owners_iff {owners : List UInt32} {ranges : List DrawRange}
    (h : Runs owners ranges) {material : UInt32} :
    material ∈ owners ↔ ∃ range ∈ ranges, range.material = material := by
  rw [← h.owners_eq, List.mem_flatMap]
  constructor
  · rintro ⟨range, hr, hm⟩
    exact ⟨range, hr, (List.eq_of_mem_replicate hm).symm⟩
  · rintro ⟨range, hr, rfl⟩
    exact ⟨range, hr, material_mem_owners (h.nonempty range hr)⟩

theorem pairwise_lt_of_alternating {ranges : List DrawRange}
    (hle : ranges.Pairwise fun a b => a.material ≤ b.material)
    (hne : ranges.IsChain fun a b => a.material ≠ b.material) :
    ranges.Pairwise fun a b => a.material < b.material := by
  induction ranges with
  | nil => exact .nil
  | cons a rest ih =>
    obtain ⟨hfirst, hlater⟩ := List.pairwise_cons.mp hle
    have hrest := ih hlater (List.IsChain.tail hne)
    refine List.pairwise_cons.mpr ⟨?_, hrest⟩
    cases rest with
    | nil => simp
    | cons b rest =>
      have hab : a.material < b.material :=
        UInt32.lt_of_le_of_ne (hfirst b List.mem_cons_self) (List.isChain_cons_cons.mp hne).1
      intro c hc
      rcases List.mem_cons.mp hc with rfl | hc
      · exact hab
      · exact UInt32.lt_trans hab ((List.pairwise_cons.mp hrest).1 c hc)

/-- Owners in order make ranges in strict order: neighbours differ. -/
theorem Runs.pairwise_lt {owners : List UInt32} {ranges : List DrawRange} (h : Runs owners ranges)
    (hs : owners.Pairwise (· ≤ ·)) : ranges.Pairwise fun a b => a.material < b.material := by
  rw [← h.owners_eq, List.pairwise_flatMap] at hs
  refine pairwise_lt_of_alternating ?_ h.alternating
  refine hs.2.imp_of_mem ?_
  intro a b ha hb hab
  exact hab _ (material_mem_owners (h.nonempty a ha)) _ (material_mem_owners (h.nonempty b hb))

theorem eq_of_material_eq {ranges : List DrawRange}
    (h : ranges.Pairwise fun a b => a.material < b.material) {a b : DrawRange} (ha : a ∈ ranges)
    (hb : b ∈ ranges) (hm : a.material = b.material) : a = b := by
  have hup : ranges.Pairwise fun a b => a.material = b.material → a = b :=
    h.imp fun hlt he => absurd he (UInt32.ne_of_lt hlt)
  have hdown : ranges.Pairwise (flip fun a b : DrawRange => a.material = b.material → a = b) :=
    h.imp fun hlt he => absurd he.symm (UInt32.ne_of_lt hlt)
  exact List.Pairwise.forall_of_forall_of_flip (fun _ _ _ => rfl) hup hdown ha hb hm

/-- Owners in order before a range are smaller than its material, those after it are greater. -/
theorem Runs.owners_around {owners : List UInt32} {before after : List DrawRange}
    {range : DrawRange} (h : Runs owners (before ++ range :: after))
    (hs : owners.Pairwise (· ≤ ·)) :
    (∀ m ∈ before.flatMap DrawRange.owners, m < range.material) ∧
    (∀ m ∈ after.flatMap DrawRange.owners, range.material < m) := by
  have hlt := h.pairwise_lt hs
  rw [List.pairwise_append, List.pairwise_cons] at hlt
  constructor
  · intro m hm
    obtain ⟨other, ho, hmo⟩ := List.mem_flatMap.mp hm
    rw [List.eq_of_mem_replicate hmo]
    exact hlt.2.2 other ho range List.mem_cons_self
  · intro m hm
    obtain ⟨other, ho, hmo⟩ := List.mem_flatMap.mp hm
    rw [List.eq_of_mem_replicate hmo]
    exact hlt.2.1.1 other ho

/-- Of owners in order, a range holds all of its material, after all smaller ones. -/
theorem Runs.counts {owners : List UInt32} {ranges : List DrawRange} (h : Runs owners ranges)
    (hs : owners.Pairwise (· ≤ ·)) {range : DrawRange} (hr : range ∈ ranges) :
    range.firstIndex = owners.countP (· < range.material) ∧
    range.indexCount = owners.countP (· = range.material) := by
  obtain ⟨before, after, rfl⟩ := List.append_of_mem hr
  obtain ⟨hbefore, hafter⟩ := h.owners_around hs
  have hself : ∀ m ∈ range.owners, m = range.material := fun m hm => List.eq_of_mem_replicate hm
  have hfirst := h.firstIndex_eq
  have hlength := range.length_owners
  -- Each of the three parts of the owners counts in full or not at all.
  rw [h.owners_split]
  simp only [List.countP_append]
  constructor
  · have hb : (before.flatMap DrawRange.owners).countP (· < range.material) =
        (before.flatMap DrawRange.owners).length := by
      rw [List.countP_eq_length]
      intro m hm
      exact decide_eq_true (hbefore m hm)
    have hm : range.owners.countP (· < range.material) = 0 := by
      rw [List.countP_eq_zero]
      intro m hm
      simp [hself m hm]
    have ha : (after.flatMap DrawRange.owners).countP (· < range.material) = 0 := by
      rw [List.countP_eq_zero]
      intro m hm
      simp [UInt32.lt_asymm (hafter m hm)]
    omega
  · have hb : (before.flatMap DrawRange.owners).countP (· = range.material) = 0 := by
      rw [List.countP_eq_zero]
      intro m hm
      simp [UInt32.ne_of_lt (hbefore m hm)]
    have hm : range.owners.countP (· = range.material) = range.owners.length := by
      rw [List.countP_eq_length]
      intro m hm
      exact decide_eq_true (hself m hm)
    have ha : (after.flatMap DrawRange.owners).countP (· = range.material) = 0 := by
      rw [List.countP_eq_zero]
      intro m hm
      simp [(UInt32.ne_of_lt (hafter m hm)).symm]
    omega

end RenderMesh.DrawRange
