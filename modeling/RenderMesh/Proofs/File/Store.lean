import RenderMesh.File.Job
import RenderMesh.Proofs.Outcome

/-!
# Files that were written

A path that was written is read back as what was written. The file was no directory before, so every
directory on the way to it is found as it was. That and the rest being kept is all that is asked of
a store of files.
-/

namespace RenderMesh

namespace FileStore

variable {store : FileStore} {names : List String}

theorem lookup_filter_ne {α β : Type} [BEq α] [LawfulBEq α] {a b : α} (h : b ≠ a)
    (entries : List (α × β)) :
    (entries.filter fun entry => entry.1 != a).lookup b = entries.lookup b := by
  induction entries with
  | nil => rfl
  | cons entry rest ih =>
    obtain ⟨key, value⟩ := entry
    rw [List.filter_cons]
    by_cases hk : key = a
    · have hb : (b == key) = false := beq_eq_false_iff_ne.mpr (hk ▸ h)
      rw [if_neg (by simp [hk]), ih, List.lookup_cons, hb]
    · rw [if_pos (by simp [hk]), List.lookup_cons, List.lookup_cons, ih]

theorem node?_put (store : FileStore) (hn : names ≠ []) (node : FileNode) (place : List String) :
    (store.put names node).node? place =
      if place = names then some node else store.node? place := by
  cases place with
  | nil => exact (if_neg hn.symm).symm
  | cons name rest =>
    show ((names, node) :: store.nodes.filter fun entry => entry.1 != names).lookup
      (name :: rest) = _
    rw [List.lookup_cons]
    by_cases h : name :: rest = names
    · rw [if_pos h, beq_iff_eq.mpr h]
    · rw [if_neg h, beq_eq_false_iff_ne.mpr h, lookup_filter_ne h]
      rfl

/-! ### The way to a file -/

theorem ne_nil_of_not_directory (h : store.node? names ≠ some .directory) : names ≠ [] := by
  rintro rfl
  exact h rfl

theorem isDirectory_put (h : store.node? names ≠ some .directory) (text : String) (spot : Spot) :
    (store.put names (.text text)).isDirectory spot = store.isDirectory spot := by
  cases spot with
  | outside => rfl
  | inside place =>
    rw [isDirectory, isDirectory, node?_put store (ne_nil_of_not_directory h)]
    split
    next hp => simp [hp, h]
    next => rfl

/-- What a step to a spot says: a move between directories, or a name of which there is a node. -/
theorem step_eq_ok {spot next : Spot} {name : String} :
    store.step spot name = .ok next ↔ store.isDirectory spot = true ∧
      (isStep name = true ∧ descend spot name = next ∨
        isStep name = false ∧ name.utf8ByteSize ≤ longestName ∧
          ∃ place, descend spot name = .inside place ∧ (store.node? place).isSome = true ∧
            .inside place = next) := by
  unfold step
  cases store.isDirectory spot with
  | false => simp
  | true =>
    cases isStep name with
    | true => simp
    | false =>
      by_cases hlong : longestName < name.utf8ByteSize
      · simp [hlong, Nat.not_le.mpr hlong]
      · cases descend spot name with
        | outside => simp [hlong]
        | inside place =>
          cases hnode : (store.node? place).isSome <;>
            simp [hlong, Nat.not_lt.mp hlong, hnode]

theorem step_put (h : store.node? names ≠ some .directory) (text : String) {spot next : Spot}
    {name : String} (hs : store.step spot name = .ok next) :
    (store.put names (.text text)).step spot name = .ok next := by
  obtain ⟨hd, hmove⟩ := step_eq_ok.mp hs
  refine step_eq_ok.mpr ⟨(isDirectory_put h text spot).trans hd, hmove.imp id ?_⟩
  rintro ⟨hname, hlong, place, hplace, hnode, hnext⟩
  refine ⟨hname, hlong, place, hplace, ?_, hnext⟩
  rw [node?_put store (ne_nil_of_not_directory h)]
  split
  · rfl
  · exact hnode

theorem walk_append (spot : Spot) (before : List String) (last : String) :
    store.walk spot (before ++ [last]) =
      store.walk spot before >>= fun stop => store.step stop last := by
  induction before generalizing spot with
  | nil =>
    show (store.step spot last >>= fun next => .ok next) = store.step spot last
    cases store.step spot last <;> rfl
  | cons name before ih =>
    show (store.step spot name >>= fun next => store.walk next (before ++ [last])) =
      (store.step spot name >>= fun next => store.walk next before) >>= _
    cases store.step spot name with
    | ok next => exact ih next
    | error fault => rfl

theorem walk_put (h : store.node? names ≠ some .directory) (text : String) {spot stop : Spot}
    {way : List String} (hw : store.walk spot way = .ok stop) :
    (store.put names (.text text)).walk spot way = .ok stop := by
  induction way generalizing spot with
  | nil => exact hw
  | cons name way ih =>
    rw [walk] at hw ⊢
    cases hs : store.step spot name with
    | error fault =>
      rw [hs] at hw
      exact nomatch hw
    | ok next =>
      rw [hs] at hw
      rw [step_put h text hs]
      exact ih hw

/-! ### Reading what was written -/

theorem guard_eq_ok {ε α : Type} {refused : Prop} [Decidable refused] {fault : ε}
    {found : Except ε α} {a : α} :
    (if refused then throw fault else found) = .ok a ↔ ¬refused ∧ found = .ok a := by
  split
  next h => exact iff_of_false (fun heq => nomatch heq) fun hand => hand.1 h
  next h => exact (and_iff_right h).symm

/-- A path that leads to a file by its directory, which is there, and its last name. -/
structure Leads (store : FileStore) (path : String) (before : List String) (last : String)
    (spot : Spot) (names : List String) : Prop where
  followed : pathFault? path = none
  parts : namesOf path = before ++ [last]
  way : store.walk (start path) before = .ok spot
  directory : store.isDirectory spot = true
  name : isStep last = false
  short : last.utf8ByteSize ≤ longestName
  place : descend spot last = .inside names
  file : store.node? names ≠ some .directory

theorem leads_of_target {path : String} (h : store.target path = .ok names) :
    ∃ before last spot, Leads store path before last spot names := by
  unfold target at h
  cases hpath : pathFault? path with
  | some fault =>
    rw [hpath] at h
    exact nomatch h
  | none =>
    have hparts : (namesOf path).reverse.takeWhile String.isEmpty ++
        (namesOf path).reverse.dropWhile String.isEmpty = (namesOf path).reverse :=
      List.takeWhile_append_dropWhile
    rw [hpath] at h
    dsimp only at h
    split at h
    · exact nomatch h
    next last before hrest =>
      rw [hrest] at hparts
      cases hwalk : store.walk (start path) before.reverse with
      | error fault =>
        rw [hwalk] at h
        exact nomatch h
      | ok spot =>
        rw [hwalk] at h
        obtain ⟨hd, h⟩ := guard_eq_ok.mp h
        obtain ⟨hlast, h⟩ := guard_eq_ok.mp h
        obtain ⟨hlong, h⟩ := guard_eq_ok.mp h
        cases hplace : descend spot last with
        | outside =>
          rw [hplace] at h
          exact nomatch h
        | inside place =>
          rw [hplace] at h
          obtain ⟨hfile, h⟩ := guard_eq_ok.mp h
          cases h
          simp only [Bool.or_eq_true, Bool.not_eq_true', not_or, Bool.not_eq_true,
            Bool.not_eq_false, List.isEmpty_iff] at hd hlast
          -- Without slashes at the end the last name is the last part of the path.
          rw [hlast.2, List.nil_append] at hparts
          have hnames : namesOf path = before.reverse ++ [last] := by
            rw [← List.reverse_cons, hparts, List.reverse_reverse]
          exact ⟨before.reverse, last, spot, hpath, hnames, hwalk, hd, hlast.1,
            Nat.not_lt.mp hlong, hplace, hfile⟩

section

variable {path last : String} {before : List String} {spot : Spot}

theorem target_of_leads (h : Leads store path before last spot names) :
    store.target path = .ok names := by
  have hempty : last.isEmpty = false := by
    rw [Bool.eq_false_iff, ne_eq, String.isEmpty_iff]
    rintro rfl
    exact nomatch h.name
  have hparts : (namesOf path).reverse = last :: before.reverse := by
    rw [h.parts, List.reverse_append, List.reverse_singleton, List.singleton_append]
  simp [target, h.followed, hparts, hempty, h.way, h.directory, h.name, Nat.not_lt.mpr h.short,
    h.place, h.file, bind, Except.bind, pure, Except.pure]

theorem Leads.walk (h : Leads store path before last spot names) :
    store.walk (start path) (namesOf path) = store.step spot last := by
  rw [h.parts, walk_append, h.way]
  rfl

theorem node?_put_self (h : store.node? names ≠ some .directory) (text : String) :
    (store.put names (.text text)).node? names = some (.text text) := by
  rw [node?_put store (ne_nil_of_not_directory h), if_pos rfl]

/-- A path leads to its file as before when that was written. -/
theorem Leads.put (h : Leads store path before last spot names) (text : String) :
    Leads (store.put names (.text text)) path before last spot names :=
  { h with
    way := walk_put h.file text h.way
    directory := (isDirectory_put h.file text spot).trans h.directory
    file := by
      rw [node?_put_self h.file]
      exact fun heq => nomatch heq }

end

theorem write_eq_ok_iff {changed : FileStore} {path text : String} :
    store.write path text = .ok changed ↔
      ∃ names, store.target path = .ok names ∧ store.put names (.text text) = changed :=
  map_eq_ok

theorem write_of_target {path : String} (h : store.target path = .ok names) (text : String) :
    Files.write store path text = .ok (store.put names (.text text)) :=
  write_eq_ok_iff.mpr ⟨names, h, rfl⟩

/-- A path that was written can be written again. -/
theorem target_put {path : String} (h : store.target path = .ok names) (text : String) :
    (store.put names (.text text)).target path = .ok names := by
  obtain ⟨before, last, spot, hl⟩ := leads_of_target h
  exact target_of_leads (hl.put text)

theorem read_of_node {path text : String} (h : store.target path = .ok names)
    (hnode : store.node? names = some (.text text)) : store.read path = .ok text := by
  obtain ⟨before, last, spot, hl⟩ := leads_of_target h
  have hstep : store.step spot last = .ok (.inside names) := by
    refine step_eq_ok.mpr ⟨hl.directory, Or.inr ?_⟩
    exact ⟨hl.name, hl.short, names, hl.place, by rw [hnode]; rfl, rfl⟩
  have hway := hl.walk.trans hstep
  simp only [read, hl.followed, hway, bind, Except.bind, hnode]
  rfl

theorem not_directory_of_target {path : String} (h : store.target path = .ok names) :
    store.node? names ≠ some .directory := by
  obtain ⟨_, _, _, hl⟩ := leads_of_target h
  exact hl.file

theorem node?_put_target {path : String} (h : store.target path = .ok names) (text : String) :
    (store.put names (.text text)).node? names = some (.text text) :=
  node?_put_self (not_directory_of_target h) text

/-- What is written to a path is what the path reads afterwards. -/
theorem read_put {path : String} (h : store.target path = .ok names) (text : String) :
    (store.put names (.text text)).read path = .ok text :=
  read_of_node (target_put h text) (node?_put_target h text)

/-- A file that could be written and is not there is not found. -/
theorem read_of_absent {path : String} (h : store.target path = .ok names)
    (habsent : store.node? names = none) : store.read path = .error .notFound := by
  obtain ⟨before, last, spot, hl⟩ := leads_of_target h
  have hstep : store.step spot last = .error .notFound := by
    simp [step, hl.directory, hl.name, Nat.not_lt.mpr hl.short, hl.place, habsent]
  have hway := hl.walk.trans hstep
  simp only [read, hl.followed, hway, bind, Except.bind]

end FileStore

/-! ### Places of files -/

/-- Stores whose paths lead to places. What a path reads is the text at its place, and what is
written to it is stored there as a whole and changes no other place. -/
class LawfulFiles (σ : Type) [Files σ] where
  Place : Type
  node? : σ → Place → Option FileNode
  place? : σ → (path : String) → Option Place
  read_of_node : ∀ {store : σ} {path text : String} {place : Place},
    place? store path = some place → node? store place = some (.text text) →
      Files.read store path = .ok text
  written : ∀ {before after : σ} {path text : String}, Files.write before path text = .ok after →
    ∃ place, place? before path = some place ∧ place? after path = some place ∧
      node? after place = some (.text text) ∧
      ∀ other, other ≠ place → node? after other = node? before other

namespace Files

variable {σ : Type} [Files σ] [LawfulFiles σ]

/-- What a store is after a text was written to a path: the path reads as the text, and every place
but the one of the path has what it had. -/
structure Wrote (before : σ) (path text : String) (after : σ) : Prop where
  held : read after path = .ok text
  kept : ∃ place, LawfulFiles.place? before path = some place ∧
    ∀ other, other ≠ place → LawfulFiles.node? after other = LawfulFiles.node? before other

theorem wrote_of_write {before after : σ} {path text : String}
    (h : write before path text = .ok after) : Wrote before path text after := by
  obtain ⟨place, hbefore, hafter, hnode, hkept⟩ := LawfulFiles.written h
  exact ⟨LawfulFiles.read_of_node hafter hnode, place, hbefore, hkept⟩

end Files

instance : LawfulFiles FileStore where
  Place := List String
  node? := FileStore.node?
  place? store path := (store.target path).toOption
  read_of_node h := FileStore.read_of_node (toOption_eq_some.mp h)
  written {before after path text} h := by
    obtain ⟨names, htarget, rfl⟩ := FileStore.write_eq_ok_iff.mp h
    have hfile := FileStore.not_directory_of_target htarget
    refine ⟨names, toOption_eq_some.mpr htarget,
      toOption_eq_some.mpr (FileStore.target_put htarget text),
      FileStore.node?_put_target htarget text, fun other hother => ?_⟩
    rw [FileStore.node?_put before (FileStore.ne_nil_of_not_directory hfile), if_neg hother]

end RenderMesh
