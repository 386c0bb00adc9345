import Shorthand.CommandLine.Arguments
import Mathlib.Data.List.Basic

/-! # Accepted flags

Whichever way an argument gives a flag its value, the value stands at the end of the argument and is
one that the flag accepts.  An invocation has no other values.
-/
namespace Shorthand.CommandLine

def EndsWith (arguments : List String) (text : String) : Prop :=
  ∃ argument ∈ arguments, text.toList <:+ argument.toList

/-- A value that is there was read at the end of an argument. -/
def Accepts {α : Type} (arguments : List String) (read : String → Option α) (place : Option α) :
    Prop :=
  ∀ value ∈ place, ∃ text, EndsWith arguments text ∧ read text = some value

def path? (text : String) : Option String := if text.isEmpty then none else some text

/-- Every value of a level was read at the end of an argument. -/
structure Level.Accepted (arguments : List String) (level : Level) : Prop where
  path : Accepts arguments path? level.path
  indent : Accepts arguments (fun text => (readIndent text).toOption) level.indent
  defaultTag : Accepts arguments (fun text => (readTagName text).toOption) level.defaultTag
  maxNodes : Accepts arguments Text.word? level.maxNodes
  maxDepth : Accepts arguments Text.word? level.maxDepth

structure Invocation.Accepted (arguments : List String) (invocation : Invocation) : Prop where
  path : Accepts arguments path? invocation.path
  indent : Accepts arguments (fun text => (readIndent text).toOption) invocation.indent
  defaultTag : Accepts arguments (fun text => (readTagName text).toOption) invocation.defaultTag
  maxNodes : Accepts arguments Text.word? invocation.maxNodes
  maxDepth : Accepts arguments Text.word? invocation.maxDepth

section Values

variable {α : Type} {arguments : List String} {read : String → Option α}

theorem EndsWith.mono {chars value : List Char} (ends : EndsWith arguments (String.ofList chars))
    (suffix : value <:+ chars) : EndsWith arguments (String.ofList value) := by
  obtain ⟨argument, mem, last⟩ := ends
  rw [String.toList_ofList] at last
  exact ⟨argument, mem, by rw [String.toList_ofList]; exact suffix.trans last⟩

theorem accepts_none : Accepts arguments read none := fun _ h => nomatch h

theorem Accepts.or {inner outer : Option α} (h : Accepts arguments read inner)
    (h' : Accepts arguments read outer) : Accepts arguments read (inner.or outer) := by
  cases inner with
  | none => exact h'
  | some => exact h

theorem accepts_of_fill {place filled : Option α} {text : String}
    (ends : EndsWith arguments text) (fills : Level.fill place (read text) = some filled) :
    Accepts arguments read filled := by
  unfold Level.fill at fills
  split at fills
  next => cases fills
  next =>
    obtain ⟨value, here, rfl⟩ := Option.map_eq_some_iff.1 fills
    intro _ same
    cases same
    exact ⟨text, ends, here⟩

end Values

theorem isValid_of_readTagName {text tag : String}
    (read : (readTagName text).toOption = some tag) : TagName.isValid tag = true := by
  unfold readTagName at read
  split at read <;> cases read
  assumption

section Levels

variable {arguments : List String} {level after : Level} {text : String} {scope : Scope}

theorem Level.accepted_empty : ({} : Level).Accepted arguments :=
  ⟨accepts_none, accepts_none, accepts_none, accepts_none, accepts_none⟩

theorem Level.Accepted.setValue (accepted : level.Accepted arguments)
    (ends : EndsWith arguments text) {flag : ValueFlag}
    (set : level.setValue text flag = some after) : after.Accepted arguments := by
  cases flag <;> obtain ⟨filled, fills, rfl⟩ := Option.map_eq_some_iff.1 set
  case path =>
    have fills : Level.fill level.path (path? text) = some filled := fills
    exact { accepted with path := accepts_of_fill ends fills }
  case indent => exact { accepted with indent := accepts_of_fill ends fills }
  case defaultTag => exact { accepted with defaultTag := accepts_of_fill ends fills }
  case maxNodes => exact { accepted with maxNodes := accepts_of_fill ends fills }
  case maxDepth => exact { accepted with maxDepth := accepts_of_fill ends fills }
  case format => exact { accepted with }

theorem Level.Accepted.setSwitch (accepted : level.Accepted arguments) {flag : Switch}
    (set : level.setSwitch flag = some after) : after.Accepted arguments := by
  cases flag <;> simp only [Level.setSwitch, Option.ite_none_left_eq_some, Option.some.injEq] at set
  all_goals
    obtain ⟨-, rfl⟩ := set
    exact { accepted with }

theorem Level.Accepted.addPlain (accepted : level.Accepted arguments) (plain : List String) :
    (level.addPlain plain).Accepted arguments :=
  { accepted with }

def Effect.Accepted (arguments : List String) : Effect → Prop
  | changed level => level.Accepted arguments
  | awaiting level _ => level.Accepted arguments
  | version | help | mistake => True

/-- The level at a stop, if there is one, has accepted values; what is left are arguments. -/
def Stop.Accepted (arguments : List String) : Stop → Prop
  | finished level => level.Accepted arguments
  | command level _ rest => level.Accepted arguments ∧ rest ⊆ arguments
  | version | help | mistake => True

theorem Effect.accepted_ofLevel? {result : Option Level}
    (accepted : ∀ level ∈ result, level.Accepted arguments) :
    (Effect.ofLevel? result).Accepted arguments := by
  cases result with
  | none => trivial
  | some level => exact accepted level rfl

/-- What a long flag has behind its equals sign is the end of the argument. -/
theorem Level.Accepted.readLong (accepted : level.Accepted arguments) {chars : List Char}
    (ends : EndsWith arguments (String.ofList chars)) :
    (readLong scope level chars).Accepted arguments := by
  unfold CommandLine.readLong
  have value_ends {sign : Char} {value : List Char}
      (behind : chars.dropWhile (· != '=') = sign :: value) :
      EndsWith arguments (String.ofList value) := by
    have tail : value <:+ chars.dropWhile (· != '=') := behind ▸ List.suffix_cons sign value
    exact ends.mono (tail.trans (List.dropWhile_suffix _))
  dsimp only
  split
  next flag value named found =>
    split at found
    next behind =>
      cases found
      exact Effect.accepted_ofLevel? fun _ set => accepted.setValue (value_ends behind) set
    next => cases found
  next => exact accepted
  next => exact Effect.accepted_ofLevel? fun _ set => accepted.setSwitch set
  next => trivial
  next => trivial
  next => trivial

theorem Level.Accepted.readLetters (accepted : level.Accepted arguments) {chars : List Char}
    (ends : EndsWith arguments (String.ofList chars)) :
    (readLetters scope level chars).Accepted arguments := by
  induction chars generalizing level with
  | nil => exact accepted
  | cons c rest ih =>
    have rest_ends : EndsWith arguments (String.ofList rest) := ends.mono (List.suffix_cons c rest)
    unfold CommandLine.readLetters
    split
    next flag named =>
      split
      next => exact accepted
      next value =>
        exact Effect.accepted_ofLevel? fun _ set =>
          accepted.setValue (rest_ends.mono (List.suffix_cons _ _)) set
      next =>
        exact Effect.accepted_ofLevel? fun _ set => accepted.setValue rest_ends set
    next flag named =>
      split
      next next set => exact ih (accepted.setSwitch set) rest_ends
      next => trivial
    next => trivial
    next => trivial
    next => trivial

/-- Reading on keeps the values accepted, whatever flag is waiting for the next argument. -/
theorem Level.Accepted.readLevel (accepted : level.Accepted arguments)
    {awaited : Option ValueFlag} {rest : List String} (mem : rest ⊆ arguments) :
    (readLevel scope level awaited rest).Accepted arguments := by
  induction rest generalizing level awaited with
  | nil =>
    unfold CommandLine.readLevel
    split
    next => trivial
    next => exact accepted
  | cons argument rest ih =>
    obtain ⟨here, there⟩ := List.cons_subset.1 mem
    have ends : EndsWith arguments argument := ⟨argument, here, List.suffix_rfl⟩
    unfold CommandLine.readLevel
    split
    next => trivial
    next flag _ =>
      split
      next next set => exact ih (accepted.setValue ends set) there
      next => trivial
    next =>
      split
      next =>
        split
        next => exact accepted
        next => trivial
      next => exact accepted.addPlain rest
    next c chars _ spelled =>
      rw [← String.ofList_toList (s := argument), spelled] at ends
      have behind := ends.mono (List.suffix_cons _ _)
      have effect :
          (if c = '-' then CommandLine.readLong scope level chars
            else CommandLine.readLetters scope level (c :: chars)).Accepted arguments := by
        split
        next => exact accepted.readLong (behind.mono (List.suffix_cons _ _))
        next => exact accepted.readLetters behind
      split
      next changed =>
        rw [changed] at effect
        exact ih effect there
      next awaiting =>
        rw [awaiting] at effect
        exact ih effect there
      next => trivial
      next => trivial
      next => trivial
    next =>
      split
      next => exact ⟨accepted, there⟩
      next => exact ih (accepted.addPlain [argument]) there

theorem Invocation.accepted_ofLevels {outer inner : Level} (h : outer.Accepted arguments)
    (h' : inner.Accepted arguments) (command : Option Command) :
    (Invocation.ofLevels command outer inner).Accepted arguments where
  path := h'.path.or h.path
  indent := h'.indent.or h.indent
  defaultTag := h'.defaultTag.or h.defaultTag
  maxNodes := h'.maxNodes.or h.maxNodes
  maxDepth := h'.maxDepth.or h.maxDepth

end Levels

theorem readHelp_ne_invoke (names : List String) (invocation : Invocation) :
    readHelp names ≠ .invoke invocation := by
  unfold readHelp
  split
  next => nofun
  next => split <;> nofun
  next => nofun

/-- An invocation has no values but those that its flags accept. -/
theorem Invocation.accepted_of_readArguments {arguments : List String} {invocation : Invocation}
    (read : readArguments arguments = .invoke invocation) : invocation.Accepted arguments := by
  have start : (readLevel .top {} none arguments).Accepted arguments :=
    Level.accepted_empty.readLevel (List.Subset.refl _)
  unfold readArguments at read
  split at read
  next outer finished =>
    cases read
    rw [finished] at start
    exact Invocation.accepted_ofLevels start Level.accepted_empty none
  next outer name rest found =>
    rw [found] at start
    obtain ⟨accepted, mem⟩ := start
    split at read
    next scope named =>
      unfold readCommand at read
      split at read
      next inner finished =>
        have behind : (readLevel scope {} none rest).Accepted arguments :=
          Level.accepted_empty.readLevel mem
        rw [finished] at behind
        split at read
        next command meant =>
          cases read
          exact Invocation.accepted_ofLevels accepted behind (some command)
        next => cases read
      next => cases read
      next => cases read
    next =>
      split at read
      next => exact absurd read (readHelp_ne_invoke rest invocation)
      next => cases read
  next => cases read
  next => cases read
  next => cases read

end Shorthand.CommandLine
