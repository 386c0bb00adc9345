import Shorthand.Error

/-! # Results that may be errors -/
namespace Except

variable {ε ε' α β : Type}

theorem bind_eq_ok_iff {result : Except ε α} {next : α → Except ε β} {value : β} :
    (result >>= next) = .ok value ↔ ∃ middle, result = .ok middle ∧ next middle = .ok value := by
  cases result <;> simp [bind, Except.bind]

theorem bind_eq_error_iff {result : Except ε α} {next : α → Except ε β} {error : ε} :
    (result >>= next) = .error error ↔
      result = .error error ∨ ∃ middle, result = .ok middle ∧ next middle = .error error := by
  cases result <;> simp [bind, Except.bind]

theorem map_eq_ok_iff {result : Except ε α} {f : α → β} {value : β} :
    result.map f = .ok value ↔ ∃ inner, result = .ok inner ∧ f inner = value := by
  cases result <;> simp [Except.map]

theorem map_eq_error_iff {result : Except ε α} {f : α → β} {error : ε} :
    result.map f = .error error ↔ result = .error error := by
  cases result <;> simp [Except.map]

theorem mapError_eq_ok_iff {result : Except ε α} {f : ε → ε'} {value : α} :
    result.mapError f = .ok value ↔ result = .ok value := by
  cases result with
  | error => exact iff_of_false nofun nofun
  | ok =>
    constructor <;> intro same
    · rw [Except.ok.inj same]
    · cases same
      rfl

theorem mapError_eq_error_iff {result : Except ε α} {f : ε → ε'} {error : ε'} :
    result.mapError f = .error error ↔ ∃ inner, result = .error inner ∧ f inner = error := by
  cases result with
  | error inner =>
    constructor
    · intro same
      exact ⟨inner, rfl, Except.error.inj same⟩
    · rintro ⟨_, same, rfl⟩
      cases same
      rfl
  | ok => exact ⟨nofun, fun ⟨_, failed, _⟩ => nomatch failed⟩

/-- A result of which something can be said is no error. -/
theorem exists_of_toOption_map {result : Except ε α} {f : α → β} {value : β}
    (h : result.toOption.map f = some value) : ∃ inner, result = .ok inner ∧ f inner = value := by
  cases result with
  | error => cases h
  | ok inner => exact ⟨inner, rfl, Option.some.inj h⟩

end Except

namespace Shorthand

variable {α : Type}

theorem locate_ok (source : String) (value : α) : locate source (.ok value) = .ok value := rfl

theorem locate_error (source : String) (fault : Fault) :
    locate source (.error fault : Except Fault α) =
      .error (.located fault (offsetAt source fault.span.start)) := rfl

/-- Placing the fault of a result in a source does not change what it is otherwise. -/
theorem locate_eq_ok_iff {source : String} {result : Except Fault α} {value : α} :
    locate source result = .ok value ↔ result = .ok value := by
  cases result <;> simp [locate_ok, locate_error]

theorem locate_eq_error_iff {source : String} {result : Except Fault α} {error : Error} :
    locate source result = .error error ↔
      ∃ fault, result = .error fault ∧
        error = .located fault (offsetAt source fault.span.start) := by
  cases result <;> simp [locate_ok, locate_error, eq_comm]

end Shorthand
