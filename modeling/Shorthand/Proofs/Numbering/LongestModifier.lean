import Shorthand.Numbering.Modifier

/-! # Modifiers as they are written

A modifier is an `@`, then perhaps a minus sign, then digits, then perhaps a colon with digits behind
it.  Behind an `@`, as many characters are read as a modifier can take, and they are read as what they
say: a direction, a start and a step.
-/
namespace Shorthand.Numbering

open Shorthand.Text

inductive IsSign : List Char → Prop where
  | none : IsSign []
  | minus : IsSign ['-']

/-- A colon counts only with digits behind it. -/
inductive IsStep : List Char → Prop where
  | none : IsStep []
  | colon {digits : List Char} (nonempty : digits ≠ []) (inside : ∀ c ∈ digits, c.isDigit = true) :
      IsStep (':' :: digits)

inductive IsModifier : List Char → Prop where
  | intro {sign start step : List Char} (isSign : IsSign sign)
      (inside : ∀ c ∈ start, c.isDigit = true) (isStep : IsStep step) :
      IsModifier ('@' :: (sign ++ (start ++ step)))

/-- The number that digits of a modifier say, up to the largest word; without digits it is 1. -/
def countOf (digits : List Char) : Nat :=
  if digits = [] then 1 else min (numeralValue digits) maxWord

inductive Denotes : List Char → Numbering → Prop where
  | intro {sign start step : List Char} {numbering : Numbering} (isSign : IsSign sign)
      (inside : ∀ c ∈ start, c.isDigit = true) (isStep : IsStep step)
      (reversed : numbering.reversed = true ↔ sign = ['-'])
      (start_eq : numbering.start.toNat = countOf start)
      (step_eq : numbering.step.toNat = countOf step.tail) :
      Denotes ('@' :: (sign ++ (start ++ step))) numbering

/-- Of all modifiers that a text starts with, the one that takes most of it. -/
structure IsLongestModifier (modifier text : List Char) : Prop where
  is_modifier : IsModifier modifier
  starts : modifier <+: text
  longest : ∀ other, IsModifier other → other <+: text → other.length ≤ modifier.length

theorem IsModifier.exists_cons {modifier : List Char} (h : IsModifier modifier) :
    ∃ rest, modifier = '@' :: rest := by
  cases h with
  | intro => exact ⟨_, rfl⟩

theorem toNat_cappedWord (digits : List Char) :
    (cappedWord digits).toNat = min (numeralValue digits) maxWord :=
  UInt64.toNat_ofNat_of_lt' (by
    rw [UInt64.size, maxWord]
    omega)

theorem exists_sign (text : List Char) :
    ∃ sign, IsSign sign ∧ text = sign ++ (readSign text).2 ∧
      ((readSign text).1 = true ↔ sign = ['-']) := by
  unfold readSign
  split
  next => exact ⟨['-'], .minus, rfl, by simp⟩
  next => exact ⟨[], .none, rfl, by simp⟩

theorem exists_start (text : List Char) :
    ∃ start : List Char, (∀ c ∈ start, c.isDigit = true) ∧ text = start ++ (readStart text).2 ∧
      (readStart text).1.toNat = countOf start := by
  refine ⟨text.takeWhile Char.isDigit, List.all_eq_true.1 List.all_takeWhile,
    List.takeWhile_append_dropWhile.symm, ?_⟩
  simp only [readStart, countOf, List.isEmpty_iff]
  split
  next => rfl
  next => exact toNat_cappedWord _

theorem exists_step (text : List Char) :
    ∃ step, IsStep step ∧ text = step ++ (readStep text).2 ∧
      (readStep text).1.toNat = countOf step.tail := by
  unfold readStep
  split
  next rest =>
    dsimp only
    split
    next => exact ⟨[], .none, rfl, rfl⟩
    next nonempty =>
      rw [List.isEmpty_iff] at nonempty
      refine ⟨':' :: rest.takeWhile Char.isDigit, .colon nonempty ?_, ?_, ?_⟩
      · exact List.all_eq_true.1 List.all_takeWhile
      · rw [List.cons_append, List.takeWhile_append_dropWhile]
      · rw [List.tail_cons, countOf, if_neg nonempty, toNat_cappedWord]
  next => exact ⟨[], .none, rfl, rfl⟩

theorem suffix_readStep_append {step : List Char} (isStep : IsStep step) (tail : List Char) :
    (readStep (step ++ tail)).2 <:+ tail := by
  cases isStep with
  | none => exact suffix_readStep tail
  | @colon digits nonempty inside =>
    have found : ((digits ++ tail).takeWhile Char.isDigit).isEmpty = false := by
      rw [List.takeWhile_append_of_pos inside]
      simp [nonempty]
    rw [List.cons_append, readStep, if_neg (by simp [found]), List.dropWhile_append_of_pos inside]
    exact List.dropWhile_suffix _

theorem suffix_readStep_readStart_append {start step : List Char}
    (inside : ∀ c ∈ start, c.isDigit = true) (isStep : IsStep step) (tail : List Char) :
    (readStep (readStart (start ++ (step ++ tail))).2).2 <:+ tail := by
  have behind : (readStart (start ++ (step ++ tail))).2 = (step ++ tail).dropWhile Char.isDigit :=
    List.dropWhile_append_of_pos inside
  rw [behind]
  cases isStep with
  | none => exact (suffix_readStep _).trans (List.dropWhile_suffix _)
  | colon nonempty inside =>
    rw [List.cons_append, List.dropWhile_cons_of_neg (by decide), ← List.cons_append]
    exact suffix_readStep_append (.colon nonempty inside) tail

/-- Neither digits nor a colon start with a sign. -/
theorem head?_unsigned_ne {start step : List Char} (inside : ∀ c ∈ start, c.isDigit = true)
    (isStep : IsStep step) : (start ++ step).head? ≠ some '-' := by
  cases start with
  | nil => cases isStep <;> simp
  | cons c rest =>
    intro minus
    obtain rfl : c = '-' := Option.some.inj minus
    exact absurd (inside '-' List.mem_cons_self) (by decide)

/-- No modifier takes more of a text than what is read. -/
theorem suffix_readModifier_append {sign start step : List Char} (isSign : IsSign sign)
    (inside : ∀ c ∈ start, c.isDigit = true) (isStep : IsStep step) (tail : List Char) :
    (readModifier (sign ++ (start ++ (step ++ tail)))).2 <:+ tail := by
  have unsigned := suffix_readStep_readStart_append inside isStep tail
  cases isSign with
  | minus => exact unsigned
  | none =>
    rw [List.nil_append]
    by_cases minus : (start ++ (step ++ tail)).head? = some '-'
    · -- the sign belongs to the tail
      have nothing : start ++ step = [] := Decidable.byContradiction fun some => by
        obtain ⟨c, rest, whole⟩ := List.exists_cons_of_ne_nil some
        rw [← List.append_assoc, whole] at minus
        exact head?_unsigned_ne inside isStep (whole ▸ minus)
      obtain ⟨rfl, rfl⟩ := List.append_eq_nil_iff.1 nothing
      exact suffix_readModifier tail
    · have plain : readSign (start ++ (step ++ tail)) = (false, start ++ (step ++ tail)) := by
        unfold readSign
        split
        next rest same => exact absurd (by rw [same]; rfl) minus
        next => rfl
      rw [readModifier, plain]
      exact unsigned

/-- What is read behind an `@` is the longest modifier, and what it says. -/
theorem exists_denoted (text : List Char) :
    ∃ modifier, '@' :: text = modifier ++ (readModifier text).2 ∧
      IsLongestModifier modifier ('@' :: text) ∧ Denotes modifier (readModifier text).1 := by
  obtain ⟨sign, isSign, text_eq, reversed⟩ := exists_sign text
  obtain ⟨start, inside, unsigned_eq, start_eq⟩ := exists_start (readSign text).2
  obtain ⟨step, isStep, behind_eq, step_eq⟩ := exists_step (readStart (readSign text).2).2
  have whole : '@' :: text = '@' :: (sign ++ (start ++ step)) ++ (readModifier text).2 := by
    calc '@' :: text
        = '@' :: (sign ++ (readSign text).2) := by rw [← text_eq]
      _ = '@' :: (sign ++ (start ++ (readStart (readSign text).2).2)) := by rw [← unsigned_eq]
      _ = '@' :: (sign ++ (start ++ (step ++ (readModifier text).2))) := by
        rw [readModifier, ← behind_eq]
      _ = _ := by simp
  refine ⟨_, whole, ⟨.intro isSign inside isStep, ⟨_, whole.symm⟩, fun other isModifier starts => ?_⟩,
    .intro isSign inside isStep reversed start_eq step_eq⟩
  obtain ⟨tail, split⟩ := starts
  cases isModifier with
  | @intro sign' start' step' isSign' inside' isStep' =>
    have text_eq : text = sign' ++ (start' ++ (step' ++ tail)) := by
      simpa using (List.cons.inj split).2.symm
    have shorter : (readModifier text).2.length ≤ tail.length :=
      text_eq ▸ (suffix_readModifier_append isSign' inside' isStep' tail).length_le
    have lengths := congrArg List.length (split.trans whole)
    rw [List.length_append, List.length_append] at lengths
    omega

theorem exists_modifier (text : List Char) :
    ∃ modifier, '@' :: text = modifier ++ (readModifier text).2 ∧
      IsLongestModifier modifier ('@' :: text) := by
  obtain ⟨modifier, whole, longest, -⟩ := exists_denoted text
  exact ⟨modifier, whole, longest⟩

theorem IsLongestModifier.eq_of_append_eq {a b front back : List Char}
    (ha : IsLongestModifier a (a ++ front)) (hb : IsLongestModifier b (b ++ back))
    (same : a ++ front = b ++ back) : a = b ∧ front = back := by
  have le : a.length ≤ b.length := hb.longest a ha.is_modifier (same ▸ ha.starts)
  have ge : b.length ≤ a.length := ha.longest b hb.is_modifier (same ▸ hb.starts)
  exact List.append_inj same (Nat.le_antisymm le ge)

theorem IsLongestModifier.readModifier_eq {rest behind : List Char}
    (h : IsLongestModifier ('@' :: rest) ('@' :: rest ++ behind)) :
    (readModifier (rest ++ behind)).2 = behind := by
  obtain ⟨modifier, whole, longest⟩ := exists_modifier (rest ++ behind)
  rw [whole] at longest
  exact (longest.eq_of_append_eq h whole.symm).2

theorem IsLongestModifier.denotes {rest behind : List Char}
    (h : IsLongestModifier ('@' :: rest) ('@' :: rest ++ behind)) :
    Denotes ('@' :: rest) (readModifier (rest ++ behind)).1 := by
  obtain ⟨modifier, whole, longest, denotes⟩ := exists_denoted (rest ++ behind)
  rw [whole] at longest
  rwa [(longest.eq_of_append_eq h whole.symm).1] at denotes

theorem takeWhile_unsigned {start step : List Char} (inside : ∀ c ∈ start, c.isDigit = true)
    (isStep : IsStep step) : (start ++ step).takeWhile Char.isDigit = start := by
  have ends : step.takeWhile Char.isDigit = [] := by
    cases isStep with
    | none => rfl
    | colon => exact List.takeWhile_cons_of_neg (by decide)
  rw [List.takeWhile_append_of_pos inside, ends, List.append_nil]

theorem sign_inj {sign sign' unsigned unsigned' : List Char} (isSign : IsSign sign)
    (isSign' : IsSign sign') (plain : unsigned.head? ≠ some '-')
    (plain' : unsigned'.head? ≠ some '-') (same : sign ++ unsigned = sign' ++ unsigned') :
    sign = sign' ∧ unsigned = unsigned' := by
  cases isSign <;> cases isSign'
  · exact ⟨rfl, same⟩
  · exact absurd (by rw [show unsigned = _ from same]; rfl) plain
  · exact absurd (by rw [← show _ = unsigned' from same]; rfl) plain'
  · exact ⟨rfl, (List.cons.inj same).2⟩

theorem Denotes.eq {modifier : List Char} {one other : Numbering} (h : Denotes modifier one)
    (h' : Denotes modifier other) : one = other := by
  generalize copy : modifier = modifier' at h'
  cases h with
  | @intro sign start step _ isSign inside isStep reversed start_eq step_eq =>
    cases h' with
    | @intro sign' start' step' _ isSign' inside' isStep' reversed' start_eq' step_eq' =>
      obtain ⟨rfl, unsigned⟩ := sign_inj isSign isSign' (head?_unsigned_ne inside isStep)
        (head?_unsigned_ne inside' isStep') (List.cons.inj copy).2
      have starts : start = start' := by
        rw [← takeWhile_unsigned inside isStep, unsigned, takeWhile_unsigned inside' isStep']
      subst starts
      obtain rfl : step = step' := List.append_cancel_left unsigned
      have same_start : one.start = other.start :=
        UInt64.toNat_inj.1 (start_eq.trans start_eq'.symm)
      have same_step : one.step = other.step := UInt64.toNat_inj.1 (step_eq.trans step_eq'.symm)
      have same_sign : one.reversed = other.reversed :=
        Bool.eq_iff_iff.2 (reversed.trans reversed'.symm)
      cases one
      cases other
      simp_all

end Shorthand.Numbering
