import RenderMesh.CommandLine
import RenderMesh.Proofs.Outcome

/-!
# Command lines that are accepted

What an accepted command line gives is what its interface has: as many operands as it asks for, and
options of its own with values that they accept.
-/

namespace RenderMesh

namespace Interface

variable {interface : Interface}

/-! ### Arguments -/

/-- An argument that is no option, or one of the interface. -/
def Knows (interface : Interface) : Argument → Prop
  | .option option _ => option ∈ interface.options
  | _ => True

theorem knows_argument {option : CommandOption} (h : option ∈ interface.options) (value : String) :
    interface.Knows (argument option value) := by
  unfold argument
  split
  · trivial
  · exact h

theorem knows_letters (cs : List Char) :
    (∀ argument ∈ (interface.letters cs).1, interface.Knows argument) ∧
      ∀ option ∈ (interface.letters cs).2, option ∈ interface.options := by
  fun_induction letters interface cs with
  | case1 => simp
  | case2 c rest hnone => simp [Knows]
  | case3 c option hfind hvalued => simp [List.mem_of_find?_eq_some hfind]
  | case4 c option hfind hvalued value => simp [Knows, List.mem_of_find?_eq_some hfind]
  | case5 c option hfind hvalued value => simp [Knows, List.mem_of_find?_eq_some hfind]
  | case6 c rest option hfind hswitch others pending hrest ih =>
    rw [hrest] at ih
    refine ⟨?_, ih.2⟩
    rw [List.forall_mem_cons]
    exact ⟨knows_argument (List.mem_of_find?_eq_some hfind) "", ih.1⟩

theorem knows_long (name : String) (joined : Option String) :
    (∀ argument, interface.long name joined = .inl argument → interface.Knows argument) ∧
      ∀ option, interface.long name joined = .inr option → option ∈ interface.options := by
  unfold long
  cases hfind : interface.options.find? fun option => option.name == name with
  | none => simp [Knows]
  | some option =>
    have hmem := List.mem_of_find?_eq_some hfind
    cases joined with
    | some value => by_cases hvalued : option.usage = .valued <;> simp [hvalued, Knows, hmem]
    | none =>
      by_cases hvalued : option.usage = .valued
      · simp [hvalued, hmem]
      · simp [hvalued, knows_argument hmem]

/-- All options of a command line are of the interface. -/
theorem knows_arguments {pending : Option CommandOption}
    (hpending : ∀ option ∈ pending, option ∈ interface.options) (words : List String) :
    ∀ argument ∈ interface.arguments pending words, interface.Knows argument := by
  fun_induction arguments interface pending words with
  | case1 => simp
  | case2 option => simp [Knows]
  | case3 option word rest hword => simp [Knows]
  | case4 option word rest hword ih =>
    rw [List.forall_mem_cons]
    exact ⟨hpending option rfl, ih fun _ h => nomatch h⟩
  | case5 rest => simp [Knows]
  | case6 word rest hword cs hcs name joined hsplit argument hlong ih =>
    rw [List.forall_mem_cons]
    exact ⟨(knows_long name joined).1 argument hlong, ih fun _ h => nomatch h⟩
  | case7 word rest hword cs hcs name joined hsplit option hlong ih =>
    refine ih fun pending hp => ?_
    cases hp
    exact (knows_long name joined).2 option hlong
  | case8 word rest hword c cs hdash hcs found pending hletters ih =>
    have hknows := @knows_letters interface (c :: cs)
    rw [hletters] at hknows
    rw [List.forall_mem_append]
    exact ⟨hknows.1, ih hknows.2⟩
  | case9 word rest hword hlong hletters ih =>
    rw [List.forall_mem_cons]
    exact ⟨trivial, ih fun _ h => nomatch h⟩

/-! ### What is given -/

/-- Options that the interface has, with values that they accept. -/
def Allows (interface : Interface) (given : Given) : Prop :=
  ∀ entry ∈ given.options, ∃ option ∈ interface.options,
    option.name = entry.1 ∧ (option.usage = .valued → option.accepts entry.2 = true)

theorem Allows.accept {given next : Given} {argument : Argument} (h : interface.Allows given)
    (knows : interface.Knows argument) (hok : interface.accept given argument = .ok next) :
    interface.Allows next := by
  cases argument with
  | refused refusal => exact nomatch hok
  | operand text =>
    simp only [Interface.accept] at hok
    split at hok
    · exact nomatch hok
    · cases hok
      exact h
  | option option value =>
    simp only [Interface.accept] at hok
    split at hok
    · exact nomatch hok
    · split at hok
      · exact nomatch hok
      next haccepts =>
        cases hok
        refine List.forall_mem_append.mpr ⟨h, List.forall_mem_singleton.mpr ?_⟩
        refine ⟨option, knows, rfl, fun hvalued => ?_⟩
        simpa [hvalued] using haccepts

theorem Allows.foldlM_accept {arguments : List Argument} {given next : Given}
    (h : interface.Allows given) (knows : ∀ argument ∈ arguments, interface.Knows argument)
    (hok : arguments.foldlM interface.accept given = .ok next) : interface.Allows next := by
  induction arguments generalizing given with
  | nil =>
    cases hok
    exact h
  | cons argument rest ih =>
    rw [List.foldlM_cons, bind_eq_ok] at hok
    obtain ⟨mid, hmid, hrest⟩ := hok
    rw [List.forall_mem_cons] at knows
    exact ih (h.accept knows.1 hmid) knows.2 hrest

theorem allows_of_read {words : List String} {given : Given}
    (h : interface.read words = .ok given) :
    interface.Allows given ∧ given.operands.length = interface.operands := by
  obtain ⟨found, hfound, hcount⟩ := bind_eq_ok.mp h
  split at hcount
  next hlength =>
    cases hcount
    have hstart : interface.Allows {} := List.forall_mem_nil _
    have hpending : ∀ option ∈ (none : Option CommandOption), option ∈ interface.options :=
      fun _ hnone => nomatch hnone
    exact ⟨hstart.foldlM_accept (knows_arguments hpending words) hfound, hlength⟩
  next => exact nomatch hcount

end Interface

end RenderMesh
