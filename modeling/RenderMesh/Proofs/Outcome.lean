/-!
# Outcomes

Steps that give a result give it one after another.
-/

namespace RenderMesh

variable {ε ε' α β : Type}

theorem bind_eq_ok {found : Except ε α} {next : α → Except ε β} {b : β} :
    found >>= next = .ok b ↔ ∃ a, found = .ok a ∧ next a = .ok b := by
  cases found with
  | ok a => exact ⟨fun h => ⟨a, rfl, h⟩, fun ⟨_, heq, h⟩ => Except.ok.inj heq ▸ h⟩
  | error fault => exact iff_of_false (fun h => nomatch h) fun ⟨_, heq, _⟩ => nomatch heq

theorem map_eq_ok {found : Except ε α} {f : α → β} {b : β} :
    found.map f = .ok b ↔ ∃ a, found = .ok a ∧ f a = b := by
  cases found <;> simp [Except.map]

theorem toOption_eq_some {found : Except ε α} {a : α} :
    found.toOption = some a ↔ found = .ok a := by
  cases found with
  | ok held =>
    exact ⟨fun h => congrArg _ (Option.some.inj h), fun h => congrArg _ (Except.ok.inj h)⟩
  | error fault => exact iff_of_false (fun h => nomatch h) fun h => nomatch h

theorem mapError_eq_ok (f : ε → ε') {found : Except ε α} {a : α} :
    found.mapError f = .ok a ↔ found = .ok a := by
  cases found with
  | ok held =>
    exact ⟨fun h => congrArg Except.ok (Except.ok.inj h), fun h => congrArg _ (Except.ok.inj h)⟩
  | error fault => exact iff_of_false (fun h => nomatch h) fun h => nomatch h

end RenderMesh
