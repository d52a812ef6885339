import RenderMesh.Proofs.Json.Rendering

/-!
# Codecs that read back what they write

A codec restores a value if it reads it back from every text that shows its document. A number that
is not finite has no such text: with it, neither the number nor what holds it is read.
-/

namespace RenderMesh.Json

variable {α β : Type} {blanks text rest : List Char}

/-- Whether a value comes back from the text of its document: what is `whole` does, and anything
else is not read. -/
structure Codec.Restores (codec : Codec α) (a : α) (whole : Bool) : Prop where
  decodes {ν : Type} (r : Rendering ν) {layout : Layout} (blank : layout.Blank) (level : Nat) :
    Decodes codec.read (r.text layout level (codec.document a)) (if whole then some a else none)

theorem Codec.Restores.congr {codec : Codec α} {a : α} {whole known : Bool}
    (h : codec.Restores a whole) (hwhole : whole = known) : codec.Restores a known := hwhole ▸ h

theorem starts_of_spells {n : Number} (h : Spells text n) : Starts text := by
  obtain ⟨c, cs, htext, hc⟩ := h.head
  exact ⟨c, cs, htext, Value.startsValue_of_startsLiteral hc⟩

namespace Codec

/-! ### Simple types -/

theorem restores_string (value : String) : string.Restores value true := by
  refine ⟨fun r layout _ level => ?_⟩
  rw [show string.document value = .string value from rfl, r.text_string]
  refine ⟨⟨'"', _, rfl, by decide⟩, fun blanks rest hb _ => ?_⟩
  have hread : ∀ cs, string.read ('"' :: cs) = stringRest cs := fun _ => rfl
  have hblanks : ∀ cs, string.read (blanks ++ cs) = string.read cs := by
    intro cs
    simp only [string, skipBlanks_append hb]
  rw [hblanks, stringText_append, hread, stringRest_text]
  rfl

theorem restores_bool (value : Bool) : bool.Restores value true := by
  refine ⟨fun r layout _ level => ?_⟩
  have hblanks : ∀ blanks, Blank blanks → ∀ cs, bool.read (blanks ++ cs) = bool.read cs := by
    intro blanks hb cs
    simp only [bool, skipBlanks_append hb]
  rw [show bool.document value = .bool value from rfl, r.text_bool]
  cases value with
  | true =>
    refine ⟨⟨'t', _, rfl, by decide⟩, fun blanks rest hb _ => ?_⟩
    rw [hblanks blanks hb]
    rfl
  | false =>
    refine ⟨⟨'f', _, rfl, by decide⟩, fun blanks rest hb _ => ?_⟩
    rw [hblanks blanks hb]
    rfl

theorem readNumber_blanks (wanted : String) (hb : Blank blanks) (cs : List Char) :
    readNumber wanted (blanks ++ cs) = readNumber wanted cs := by
  simp only [readNumber, skipBlanks_append hb]

theorem readNumber_spells (wanted : String) {n : Number} (h : Spells text n) (hb : Blank blanks)
    (hr : Ends rest) : readNumber wanted (blanks ++ (text ++ rest)) = .ok (n, rest) := by
  obtain ⟨c, cs, htext, hc⟩ := h.head
  have hscan := h.scan hr
  have hskip : skipBlanks (c :: (cs ++ rest)) = c :: (cs ++ rest) :=
    skipBlanks_cons (Value.isBlank_of_startsLiteral hc) _
  rw [htext, List.cons_append] at hscan ⊢
  rw [readNumber_blanks wanted hb, readNumber, hskip]
  simp only [hc, if_true, hscan]

theorem readNumber_null (wanted : String) (hb : Blank blanks) (rest : List Char) :
    (readNumber wanted (blanks ++ ('n' :: rest))).toOption = none := by
  rw [readNumber_blanks wanted hb]
  rfl

theorem restores_natural {limit n : Nat} (wanted : String) (h : n ≤ limit)
    (hlimit : limit < UInt64.size) : (natural limit wanted).Restores n true := by
  refine ⟨fun r layout _ level => ?_⟩
  have hspells := r.spells_natural layout level (Nat.lt_of_le_of_lt h hlimit)
  refine ⟨starts_of_spells hspells, fun blanks rest hb hr => ?_⟩
  have hfits : (0 : Int) ≤ n ∧ (n : Int) ≤ limit := by omega
  simp only [natural, readNumber_spells wanted hspells hb hr, bind, Except.bind, pure, Except.pure,
    hfits, and_self, if_true]
  rfl

theorem restores_single (x : Single) : single.Restores x x.isFinite := by
  refine ⟨fun r layout _ level => ?_⟩
  have hdocument : single.document x = if x.isFinite then .number (.single x) else .null := rfl
  cases hx : x.isFinite with
  | true =>
    obtain ⟨z, hspells, hnarrow⟩ := r.spells_single layout level hx
    rw [hdocument, if_pos hx]
    refine ⟨starts_of_spells hspells, fun blanks rest hb hr => ?_⟩
    simp only [single, readNumber_spells "f32" hspells hb hr, bind, Except.bind, hnarrow]
    rfl
  | false =>
    rw [hdocument, if_neg (hx ▸ Bool.false_ne_true), r.text_null]
    refine ⟨⟨'n', _, rfl, by decide⟩, fun blanks rest hb hr => ?_⟩
    rw [single, toOption_bind, List.cons_append, readNumber_null "f32" hb]
    rfl

theorem Restores.map {codec : Codec α} {there : α → β} {back : β → α} {b : β} {whole : Bool}
    (h : codec.Restores (back b) whole) (hback : there (back b) = b) :
    (codec.map there back).Restores b whole := by
  refine ⟨fun r layout hl level => ?_⟩
  have hdecodes := h.decodes r hl level
  refine ⟨hdecodes.starts, fun blanks rest hb hr => ?_⟩
  have hread : ∀ cs, (codec.map there back).read cs = codec.read cs >>= fun p =>
      .ok (there p.1, p.2) := by
    intro cs
    show (codec.read cs).map _ = _
    cases codec.read cs <;> rfl
  rw [hread, toOption_bind]
  have hscan := hdecodes.scan blanks rest hb hr
  rw [show (codec.map there back).document b = codec.document (back b) from rfl, hscan]
  cases whole with
  | true => simp [hback, Except.toOption]
  | false => rfl

theorem restores_byte (n : UInt8) : byte.Restores n true :=
  (restores_natural "u8" (Nat.le_pred_of_lt n.toNat_lt) (by decide)).map (by simp)

theorem restores_word (n : UInt32) : word.Restores n true :=
  (restores_natural "u32" (Nat.le_pred_of_lt n.toNat_lt) (by decide)).map (by simp)

theorem restores_count {n : Nat} (h : n < UInt64.size) : count.Restores n true :=
  restores_natural "usize" (Nat.le_pred_of_lt h) (by decide)

theorem restores_named [Named α] {a : α} (h : Named.ofName? (Named.name a) = some a) :
    named.Restores a true := by
  refine ⟨fun r layout _ level => ?_⟩
  have hmember : memberOf (Named.name a) = .ok a := by rw [memberOf, h]
  rw [show named.document a = .string (Named.name a) from rfl, r.text_string]
  refine ⟨⟨'"', _, rfl, by decide⟩, fun blanks rest hb _ => ?_⟩
  have hread : ∀ cs, (named : Codec α).read ('"' :: cs) = stringRest cs >>= fun p =>
      memberOf p.1 >>= fun a => .ok (a, p.2) := fun _ => rfl
  have hblanks : ∀ cs, (named : Codec α).read (blanks ++ cs) = named.read cs := by
    intro cs
    simp only [named, skipBlanks_append hb]
  rw [hblanks, stringText_append, hread, stringRest_text]
  show (memberOf (Named.name a) >>= fun a => Except.ok (a, rest)).toOption = _
  rw [hmember]
  rfl

/-! ### Lists -/

theorem mapM_whole (found : List α) (whole : α → Bool) :
    (found.mapM fun a => if whole a then some a else none) =
      if found.all whole then some found else none := by
  induction found with
  | nil => rfl
  | cons a found ih =>
    rw [List.mapM_cons, ih, List.all_cons]
    cases whole a <;> cases found.all whole <;> rfl

theorem restores_array {codec : Codec α} {whole : α → Bool} {found : Array α}
    (h : ∀ a ∈ found, codec.Restores a (whole a)) :
    (array codec).Restores found (found.all whole) := by
  refine ⟨fun r layout hl level => ?_⟩
  have hdocument : (array codec).document found = .array (found.toList.map codec.document) := rfl
  rw [hdocument, r.text_array, List.map_map]
  refine ⟨⟨'[', _, rfl, by decide⟩, fun blanks rest hb _ => ?_⟩
  have hentry : ∀ a ∈ found.toList, Decodes codec.read
      (((r.tree ∘ codec.document) a).text r.number layout (level + 1))
      (if whole a then some a else none) := fun a ha =>
    (h a (Array.mem_toList_iff.mp ha)).decodes r hl (level + 1)
  have hentries := entries_text hl level hentry rest
  have hread : ∀ cs, (array codec).read ('[' :: cs) = entries codec.read cs >>= fun p =>
      .ok (p.1.toArray, p.2) := by
    intro cs
    show (entries codec.read cs).map _ = _
    cases entries codec.read cs <;> rfl
  have hblanks : ∀ cs, (array codec).read (blanks ++ cs) = (array codec).read cs := by
    intro cs
    simp only [array, skipBlanks_append hb]
  rw [mapM_whole, Array.all_toList] at hentries
  rw [hblanks, List.cons_append, hread, toOption_bind, hentries]
  cases found.all whole <;> rfl

/-! ### Whole texts -/

/-- A whole text of a document is read as its value, or not at all. -/
theorem Restores.parse_iff {codec : Codec α} {a : α} {whole : Bool} (h : codec.Restores a whole)
    {ν : Type} (r : Rendering ν) {layout : Layout} (hl : layout.Blank) (level : Nat) (b : α) :
    codec.parse (String.ofList (r.text layout level (codec.document a))) = .ok b ↔
      whole = true ∧ b = a := by
  have hscan := (h.decodes r hl level).scan_here ends_nil
  rw [List.append_nil] at hscan
  have hparse : ∀ text, codec.parse (String.ofList text) = codec.read text >>= fun p =>
      if (skipBlanks p.2).isEmpty then .ok p.1 else .error .trailingCharacters := by
    intro text
    rw [Codec.parse, readWhole, String.toList_ofList]
    rfl
  have hfound : (codec.parse (String.ofList (r.text layout level (codec.document a)))).toOption =
      if whole then some a else none := by
    rw [hparse, toOption_bind, hscan]
    cases whole <;> rfl
  constructor
  · intro hb
    rw [hb] at hfound
    cases whole with
    | false => cases hfound
    | true => exact ⟨rfl, Option.some.inj hfound⟩
  · rintro ⟨rfl, rfl⟩
    exact toOption_eq_some.mp hfound

end Codec

end RenderMesh.Json
