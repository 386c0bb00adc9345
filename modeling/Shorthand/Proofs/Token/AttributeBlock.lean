import Mathlib.Data.List.Chain
import Shorthand.Token.AttributeBlock
import Shorthand.Token.Basic

/-! # Reading attribute blocks

The entries of a block come one after the other, whatever blanks stand between them.  What a block is
read as is told by how it is written, and every block that is read is written in this way.  A block
that is displayed with its values between double quotes is one of these.
-/
namespace Shorthand

open Shorthand.Text

section Span

variable {p : Char → Bool} {front back : List Char}

theorem takeWhile_append_of_stop (inside : ∀ c ∈ front, p c = true)
    (stop : ∀ c ∈ back.head?, p c = false) : (front ++ back).takeWhile p = front := by
  rw [List.takeWhile_append_of_pos inside]
  cases back with
  | nil => simp
  | cons c back => simp [stop c rfl]

theorem dropWhile_append_of_stop (inside : ∀ c ∈ front, p c = true)
    (stop : ∀ c ∈ back.head?, p c = false) : (front ++ back).dropWhile p = back := by
  rw [List.dropWhile_append_of_pos inside]
  cases back with
  | nil => rfl
  | cons c back => simp [stop c rfl]

/-- A run that ends in front of a text, or with it, does not depend on the text. -/
theorem takeWhile_append_of_ends
    (ends : front.dropWhile p = [] → ∀ c ∈ back.head?, p c = false) :
    (front ++ back).takeWhile p = front.takeWhile p := by
  induction front with
  | nil => exact takeWhile_append_of_stop (by simp) (ends rfl)
  | cons c front ih =>
    cases inside : p c with
    | true =>
      rw [List.dropWhile_cons_of_pos inside] at ends
      rw [List.cons_append, List.takeWhile_cons_of_pos inside, List.takeWhile_cons_of_pos inside,
        ih ends]
    | false => simp [inside]

theorem dropWhile_append_of_ends
    (ends : front.dropWhile p = [] → ∀ c ∈ back.head?, p c = false) :
    (front ++ back).dropWhile p = front.dropWhile p ++ back := by
  induction front with
  | nil => exact dropWhile_append_of_stop (by simp) (ends rfl)
  | cons c front ih =>
    cases inside : p c with
    | true =>
      rw [List.dropWhile_cons_of_pos inside] at ends
      rw [List.cons_append, List.dropWhile_cons_of_pos inside, List.dropWhile_cons_of_pos inside,
        ih ends]
    | false => simp [inside]

theorem stop_dropWhile (p : Char → Bool) (text : List Char) :
    ∀ c ∈ (text.dropWhile p).head?, p c = false := by
  intro c mem
  have stops := List.head?_dropWhile_not p text
  rwa [Option.mem_def.1 mem] at stops

end Span

structure Attribute.Legible (entry : Attribute) : Prop where
  nonempty : entry.name.toList ≠ []
  named : ∀ c ∈ entry.name.toList, AttributeBlock.isNameChar c = true
  unquoted : ∀ value ∈ entry.value, '"' ∉ value.toList

instance (entry : Attribute) : Decidable entry.Legible :=
  decidable_of_iff (entry.name.toList ≠ [] ∧
      entry.name.toList.all AttributeBlock.isNameChar = true ∧
        ∀ value ∈ entry.value, '"' ∉ value.toList)
    ⟨fun h => ⟨h.1, List.all_eq_true.1 h.2.1, h.2.2⟩,
      fun h => ⟨h.nonempty, List.all_eq_true.2 h.named, h.unquoted⟩⟩

theorem Attribute.put_of_new {new : Attribute} {entries : List Attribute}
    (h : new.name ∉ entries.map (·.name)) : new.put entries = entries ++ [new] := by
  induction entries with
  | nil => rfl
  | cons old rest ih =>
    rw [List.map_cons, List.mem_cons, not_or] at h
    rw [put, if_neg (Ne.symm h.1), ih h.2, List.cons_append]

def Attribute.putAll (entries found : List Attribute) : List Attribute :=
  entries.foldl (fun old new => new.put old) found

theorem Attribute.putAll_cons (entry : Attribute) (entries found : List Attribute) :
    putAll (entry :: entries) found = putAll entries (entry.put found) := rfl

theorem Attribute.putAll_of_new {found entries : List Attribute}
    (distinct : ((found ++ entries).map (·.name)).Nodup) :
    putAll entries found = found ++ entries := by
  induction entries generalizing found with
  | nil => rw [List.append_nil]; rfl
  | cons entry entries ih =>
    have new : entry.name ∉ found.map (·.name) := by
      rw [List.map_append, List.nodup_append] at distinct
      exact fun old => distinct.2.2 _ old entry.name (by simp) rfl
    rw [List.append_cons] at distinct ⊢
    rw [putAll_cons, put_of_new new, ih distinct]

namespace AttributeBlock

theorem readQuoted_append {quote : Char} {value : List Char} (unquoted : quote ∉ value)
    (rest : List Char) : readQuoted quote (value ++ quote :: rest) = some (value, rest) := by
  have inside : ∀ c ∈ value, (c != quote) = true := by
    intro c mem
    rw [bne_iff_ne]
    rintro rfl
    exact unquoted mem
  have stop : ∀ c ∈ (quote :: rest).head?, (c != quote) = false := by simp
  rw [readQuoted, dropWhile_append_of_stop inside stop, takeWhile_append_of_stop inside stop]

theorem not_isNameChar_of_isBlank {c : Char} (blank : isBlank c = true) : isNameChar c = false := by
  simp [isNameChar, blank]

theorem not_isQuote_of_isBlank {c : Char} (blank : isBlank c = true) : isQuote c = false := by
  rw [Bool.eq_false_iff]
  intro quote
  rw [isQuote, Bool.or_eq_true, beq_iff_eq, beq_iff_eq] at quote
  rcases quote with rfl | rfl <;> exact absurd blank (by decide)

/-! ## Entries as they are written -/

/-- How the value of an entry is written: not at all, bare behind `=`, or between two quotes. -/
inductive ValueSpelling where
  | absent
  | bare (value : List Char)
  | quoted (quote : Char) (value : List Char)
deriving DecidableEq

namespace ValueSpelling

def text : ValueSpelling → List Char
  | absent => []
  | bare value => '=' :: value
  | quoted quote value => '=' :: quote :: (value ++ [quote])

def value? : ValueSpelling → Option String
  | absent => none
  | bare value => some (String.ofList value)
  | quoted _ value => some (String.ofList value)

def closed : ValueSpelling → Bool
  | quoted _ _ => true
  | _ => false

def WellFormed : ValueSpelling → Prop
  | absent => True
  | bare value => (∀ c ∈ value, isBareChar c = true) ∧ ∀ c ∈ value.head?, isQuote c = false
  | quoted quote value => isQuote quote = true ∧ quote ∉ value

instance : DecidablePred WellFormed
  | absent => .isTrue trivial
  | bare value =>
    decidable_of_iff (value.all isBareChar = true ∧ value.head?.any isQuote = false)
      (by cases value <;> simp [WellFormed])
  | quoted quote value => inferInstanceAs (Decidable (isQuote quote = true ∧ quote ∉ value))

end ValueSpelling

structure EntrySpelling where
  blanks : List Char
  name : List Char
  value : ValueSpelling
deriving DecidableEq

namespace EntrySpelling

def text (entry : EntrySpelling) : List Char := entry.blanks ++ (entry.name ++ entry.value.text)

def meaning (entry : EntrySpelling) : Attribute := ⟨String.ofList entry.name, entry.value.value?⟩

structure WellFormed (entry : EntrySpelling) : Prop where
  blanks : ∀ c ∈ entry.blanks, isBlank c = true
  nonempty : entry.name ≠ []
  named : ∀ c ∈ entry.name, isNameChar c = true
  value : entry.value.WellFormed

instance (entry : EntrySpelling) : Decidable entry.WellFormed :=
  decidable_of_iff (entry.blanks.all isBlank = true ∧ entry.name ≠ [] ∧
      entry.name.all isNameChar = true ∧ entry.value.WellFormed)
    ⟨fun h => ⟨List.all_eq_true.1 h.1, h.2.1, List.all_eq_true.1 h.2.2.1, h.2.2.2⟩,
      fun h => ⟨List.all_eq_true.2 h.blanks, h.nonempty, List.all_eq_true.2 h.named, h.value⟩⟩

/-- An entry can be told from the next: its value is closed by a quote, or a blank follows. -/
def Apart (entry next : EntrySpelling) : Prop := entry.value.closed = true ∨ next.blanks ≠ []

instance : DecidableRel Apart := fun _ _ => inferInstanceAs (Decidable (_ ∨ _))

end EntrySpelling

/-- The inside of a block as it is written: its entries, and the blanks behind the last. -/
structure Inside where
  entries : List EntrySpelling
  blanks : List Char

namespace Inside

def text (inside : Inside) : List Char :=
  inside.entries.flatMap EntrySpelling.text ++ inside.blanks

def meanings (inside : Inside) : List Attribute := inside.entries.map EntrySpelling.meaning

/-- Entries are told apart by blanks, which only a quoted value does not need behind it. -/
structure WellFormed (inside : Inside) : Prop where
  entries : ∀ entry ∈ inside.entries, entry.WellFormed
  apart : inside.entries.IsChain EntrySpelling.Apart
  blanks : ∀ c ∈ inside.blanks, isBlank c = true

instance (inside : Inside) : Decidable inside.WellFormed :=
  decidable_of_iff (inside.entries.all (fun entry => decide entry.WellFormed) = true ∧
      inside.entries.IsChain EntrySpelling.Apart ∧ inside.blanks.all isBlank = true)
    ⟨fun h => ⟨by simpa using h.1, h.2.1, List.all_eq_true.1 h.2.2⟩,
      fun h => ⟨by simpa using h.entries, h.apart, List.all_eq_true.2 h.blanks⟩⟩

end Inside

/-- A text at whose start an entry ends: at a blank, or at the closing bracket. -/
def EndsEntry (text : List Char) : Prop := ∀ c ∈ text.head?, isBlank c = true ∨ c = ']'

section EndsEntry

variable {tail : List Char}

theorem EndsEntry.not_isNameChar (ends : EndsEntry tail) :
    ∀ c ∈ tail.head?, isNameChar c = false := by
  intro c mem
  rcases ends c mem with blank | rfl
  · exact not_isNameChar_of_isBlank blank
  · decide

theorem EndsEntry.not_isBareChar (ends : EndsEntry tail) :
    ∀ c ∈ tail.head?, isBareChar c = false := by
  intro c mem
  rcases ends c mem with blank | rfl
  · simp [isBareChar, blank]
  · decide

theorem EndsEntry.not_isQuote (ends : EndsEntry tail) : ∀ c ∈ tail.head?, isQuote c = false := by
  intro c mem
  rcases ends c mem with blank | rfl
  · exact not_isQuote_of_isBlank blank
  · decide

theorem EndsEntry.ne_equals (ends : EndsEntry tail) : ∀ c ∈ tail.head?, c ≠ '=' := by
  rintro c mem rfl
  have equals := ends _ mem
  revert equals
  decide

/-- Blanks in front of a text that ends an entry end it before. -/
theorem endsEntry_blanks {blanks : List Char} (blank : ∀ c ∈ blanks, isBlank c = true)
    (ends : EndsEntry tail) : EndsEntry (blanks ++ tail) := by
  cases blanks with
  | nil => exact ends
  | cons c blanks =>
    intro d mem
    rw [List.cons_append, List.head?_cons, Option.mem_some] at mem
    exact .inl (mem ▸ blank c List.mem_cons_self)

end EndsEntry

/-- An entry is told apart from those behind it if it ends in front of their text. -/
theorem Inside.WellFormed.apart_iff {inside : Inside} (h : inside.WellFormed)
    (entry : EntrySpelling) (rest : List Char) :
    (∀ next ∈ inside.entries.head?, entry.Apart next) ↔
      entry.value.closed = true ∨ EndsEntry (inside.text ++ ']' :: rest) := by
  obtain ⟨entries, blanks⟩ := inside
  cases entries with
  | nil =>
    have bracket : EndsEntry (']' :: rest) := by simp [EndsEntry]
    have ends : EndsEntry (Inside.text ⟨[], blanks⟩ ++ ']' :: rest) :=
      endsEntry_blanks h.blanks bracket
    simp [ends]
  | cons next entries =>
    have first : next.WellFormed := h.entries next List.mem_cons_self
    have ends_iff : EndsEntry (Inside.text ⟨next :: entries, blanks⟩ ++ ']' :: rest) ↔
        next.blanks ≠ [] := by
      cases gap : next.blanks with
      | nil =>
        obtain ⟨c, name, front⟩ := List.exists_cons_of_ne_nil first.nonempty
        have named : isNameChar c = true := first.named c (by simp [front])
        refine iff_of_false (fun ends => ?_) (not_not_intro rfl)
        have stops := ends.not_isNameChar c (by simp [Inside.text, EntrySpelling.text, gap, front])
        rw [named] at stops
        cases stops
      | cons c more =>
        have blank : isBlank c = true := first.blanks c (by simp [gap])
        simp [EndsEntry, Inside.text, EntrySpelling.text, gap, blank]
    simp [ends_iff, EntrySpelling.Apart]

theorem readValue_bare {value tail : List Char} (inside : ∀ c ∈ value, isBareChar c = true)
    (unquoted : ∀ c ∈ value.head?, isQuote c = false) (ends : EndsEntry tail) :
    readValue (value ++ tail) = some (value, tail) := by
  have taken := takeWhile_append_of_stop inside ends.not_isBareChar
  have left := dropWhile_append_of_stop inside ends.not_isBareChar
  have noQuote : ∀ c ∈ (value ++ tail).head?, isQuote c = false := by
    cases value with
    | nil => exact ends.not_isQuote
    | cons c value => simpa using unquoted
  cases whole : value ++ tail with
  | nil =>
    rw [List.append_eq_nil_iff] at whole
    rw [whole.1, whole.2, readValue]
  | cons c behind =>
    have plain : isQuote c = false := noQuote c (by rw [whole]; rfl)
    rw [readValue, if_neg (by simp [plain]), ← whole, taken, left]

theorem readValue_quoted {quote : Char} {value : List Char} (quotes : isQuote quote = true)
    (unquoted : quote ∉ value) (tail : List Char) :
    readValue (quote :: (value ++ [quote] ++ tail)) = some (value, tail) := by
  rw [readValue, if_pos quotes, List.append_assoc, List.singleton_append,
    readQuoted_append unquoted]

theorem readEntry_name {name tail : List Char} (named : ∀ c ∈ name, isNameChar c = true)
    (ends : EndsEntry tail) :
    readEntry (name ++ tail) = .read ⟨String.ofList name, none⟩ tail := by
  have stops := ends.not_isNameChar
  simp only [readEntry, takeWhile_append_of_stop named stops, dropWhile_append_of_stop named stops]
  cases tail with
  | nil => rfl
  | cons c tail =>
    have plain : isQuote c = false := ends.not_isQuote c rfl
    have other : c ≠ '=' := ends.ne_equals c rfl
    split
    next same => exact absurd (List.cons.inj same).1 other
    next empty => cases empty
    next same =>
      cases same
      rw [if_neg (by simp [plain])]

theorem readEntry_value {name behind value tail : List Char}
    (named : ∀ c ∈ name, isNameChar c = true) (read : readValue behind = some (value, tail)) :
    readEntry (name ++ '=' :: behind) =
      .read ⟨String.ofList name, some (String.ofList value)⟩ tail := by
  have stops : ∀ c ∈ ('=' :: behind).head?, isNameChar c = false := by simp [isNameChar]
  simp only [readEntry, takeWhile_append_of_stop named stops, dropWhile_append_of_stop named stops,
    read]

theorem readEntry_text {entry : EntrySpelling} (wellFormed : entry.WellFormed) {tail : List Char}
    (ends : entry.value.closed = true ∨ EndsEntry tail) :
    readEntry (entry.name ++ (entry.value.text ++ tail)) = .read entry.meaning tail := by
  obtain ⟨blanks, name, value⟩ := entry
  have named : ∀ c ∈ name, isNameChar c = true := wellFormed.named
  have spelled := wellFormed.value
  cases value with
  | absent =>
    have ends : EndsEntry tail := by simpa [ValueSpelling.closed] using ends
    exact readEntry_name named ends
  | bare value =>
    have ends : EndsEntry tail := by simpa [ValueSpelling.closed] using ends
    exact readEntry_value named (readValue_bare spelled.1 spelled.2 ends)
  | quoted quote value => exact readEntry_value named (readValue_quoted spelled.1 spelled.2 tail)

/-! ## All entries -/

/-- What comes next in a block depends on the text behind the blanks only. -/
theorem readEntries_eq (found : List Attribute) (text : List Char) :
    readEntries found text =
      match text.dropWhile isBlank with
      | [] => .error .unterminated
      | c :: behind =>
        if c == ']' then .ok (found, behind)
        else if isNameChar c then
          match readEntry (c :: behind) with
          | .read new rest => readEntries (new.put found) rest
          | .quoted rest => .error (.entry .quoteInName rest)
          | .endless => .error .unterminated
        else .error (.entry .namelessAttribute behind) := by
  rw [readEntries]
  split
  next start => rw [start]
  next c behind start =>
    simp only [start]
    split
    next => rfl
    next =>
      split
      next named =>
        split
        next new rest entry => rw [entry]
        next rest entry => rw [entry]
        next entry => rw [entry]
      next => rfl

theorem readEntries_close (found : List Attribute) (rest : List Char) :
    readEntries found (']' :: rest) = .ok (found, rest) := by
  rw [readEntries_eq]
  rfl

theorem readEntries_blanks (found : List Attribute) {blanks : List Char}
    (blank : ∀ c ∈ blanks, isBlank c = true) (text : List Char) :
    readEntries found (blanks ++ text) = readEntries found text := by
  rw [readEntries_eq, readEntries_eq, List.dropWhile_append_of_pos blank]

theorem readEntries_text (found : List Attribute) {entry : EntrySpelling}
    (wellFormed : entry.WellFormed) {tail : List Char}
    (ends : entry.value.closed = true ∨ EndsEntry tail) :
    readEntries found (entry.text ++ tail) = readEntries (entry.meaning.put found) tail := by
  have read := readEntry_text wellFormed ends
  obtain ⟨c, name, named⟩ := List.exists_cons_of_ne_nil wellFormed.nonempty
  have inside : isNameChar c = true := wellFormed.named c (by simp [named])
  have noBracket : (c == ']') = false := by
    rw [beq_eq_false_iff_ne]
    rintro rfl
    exact absurd inside (by decide)
  have noBlank : isBlank c = false := by
    rw [Bool.eq_false_iff]
    intro blank
    rw [not_isNameChar_of_isBlank blank] at inside
    cases inside
  rw [named, List.cons_append] at read
  rw [EntrySpelling.text, List.append_assoc, readEntries_blanks found wellFormed.blanks, named,
    List.append_assoc, List.cons_append, readEntries_eq,
    List.dropWhile_cons_of_neg (by simp [noBlank])]
  simp only [noBracket, inside, read, if_true, Bool.false_eq_true, if_false]

/-- The entries of a block are put one after the other to those before it. -/
theorem readEntries_inside (found : List Attribute) {inside : Inside}
    (wellFormed : inside.WellFormed) (rest : List Char) :
    readEntries found (inside.text ++ ']' :: rest) =
      .ok (Attribute.putAll inside.meanings found, rest) := by
  obtain ⟨entries, blanks⟩ := inside
  induction entries generalizing found with
  | nil => exact (readEntries_blanks found wellFormed.blanks _).trans (readEntries_close found rest)
  | cons entry entries ih =>
    obtain ⟨each, apart, blank⟩ := wellFormed
    rw [List.forall_mem_cons] at each
    rw [List.isChain_cons] at apart
    have others : Inside.WellFormed ⟨entries, blanks⟩ := ⟨each.2, apart.2, blank⟩
    have ends := (others.apart_iff entry rest).1 apart.1
    have whole : Inside.text ⟨entry :: entries, blanks⟩ ++ ']' :: rest =
        entry.text ++ (Inside.text ⟨entries, blanks⟩ ++ ']' :: rest) := by
      simp only [Inside.text, List.flatMap_cons, List.append_assoc]
    rw [whole, readEntries_text found each.1 ends, ih _ others]
    rfl

/-! ## Every block that is read -/

theorem split_of_readQuoted {quote : Char} {text value rest : List Char}
    (read : readQuoted quote text = some (value, rest)) :
    text = value ++ quote :: rest ∧ quote ∉ value := by
  unfold readQuoted at read
  split at read
  next => cases read
  next c behind closing =>
    cases read
    obtain rfl : c = quote := by simpa [closing] using stop_dropWhile (· != quote) text
    refine ⟨by rw [← closing, List.takeWhile_append_dropWhile], fun mem => ?_⟩
    simpa using List.all_eq_true.1 List.all_takeWhile _ mem

theorem endsEntry_dropWhile_isBareChar (text : List Char) :
    EndsEntry (text.dropWhile isBareChar) := by
  intro c mem
  have stop := stop_dropWhile isBareChar text c mem
  rw [isBareChar, Bool.and_eq_false_iff, Bool.not_eq_false', bne_eq_false_iff_eq] at stop
  exact stop

theorem exists_of_readValue {text value rest : List Char}
    (read : readValue text = some (value, rest)) :
    ∃ spelling : ValueSpelling, spelling.WellFormed ∧ '=' :: text = spelling.text ++ rest ∧
      spelling.value? = some (String.ofList value) ∧
        (spelling.closed = true ∨ EndsEntry rest) := by
  unfold readValue at read
  split at read
  next =>
    cases read
    exact ⟨.bare [], ⟨by simp, by simp⟩, rfl, rfl, .inr (by simp [EndsEntry])⟩
  next c behind =>
    split at read
    next quotes =>
      obtain ⟨rfl, unquoted⟩ := split_of_readQuoted read
      exact ⟨.quoted c value, ⟨quotes, unquoted⟩, by simp [ValueSpelling.text], rfl, .inl rfl⟩
    next plain =>
      cases read
      refine ⟨.bare ((c :: behind).takeWhile isBareChar), ⟨fun d mem => ?_, fun d mem => ?_⟩, ?_,
        rfl, .inr (endsEntry_dropWhile_isBareChar _)⟩
      · exact List.all_eq_true.1 List.all_takeWhile d mem
      · rw [List.head?_takeWhile] at mem
        obtain rfl : c = d := (by simpa using mem : _ ∧ _).1
        simpa using plain
      · rw [ValueSpelling.text, List.cons_append, List.takeWhile_append_dropWhile]

theorem exists_of_readEntry {text rest : List Char} {entry : Attribute}
    (read : readEntry text = .read entry rest) :
    ∃ value : ValueSpelling, value.WellFormed ∧
      text.dropWhile isNameChar = value.text ++ rest ∧
        entry = ⟨String.ofList (text.takeWhile isNameChar), value.value?⟩ ∧
          (value.closed = true ∨ EndsEntry rest) := by
  unfold readEntry at read
  dsimp only at read
  split at read
  next behind start =>
    split at read
    next value after valued =>
      cases read
      obtain ⟨spelling, wellFormed, split, meant, ends⟩ := exists_of_readValue valued
      exact ⟨spelling, wellFormed, start.trans split, by rw [meant], ends⟩
    next => cases read
  next start =>
    cases read
    exact ⟨.absent, trivial, start, rfl, .inr (by simp [EndsEntry])⟩
  next c behind other start =>
    split at read
    next => cases read
    next plain =>
      cases read
      refine ⟨.absent, trivial, start, rfl, .inr fun d mem => ?_⟩
      obtain rfl : c = d := by simpa using mem
      have stop := stop_dropWhile isNameChar text c (by rw [start]; rfl)
      have noEquals : c ≠ '=' := other
      rw [or_iff_not_imp_left]
      simpa [isNameChar, plain, noEquals] using stop

/-- Every block that is read is written as entries with blanks around them. -/
theorem exists_inside_of_readEntries {found entries : List Attribute} {text rest : List Char}
    (read : readEntries found text = .ok (entries, rest)) :
    ∃ inside : Inside, inside.WellFormed ∧ text = inside.text ++ ']' :: rest ∧
      entries = Attribute.putAll inside.meanings found := by
  fun_induction readEntries found text with
  | case1 => cases read
  | case2 found text c behind start closes =>
    cases read
    obtain rfl : c = ']' := by simpa using closes
    refine ⟨⟨[], text.takeWhile isBlank⟩, ⟨by simp, .nil, fun c mem => ?_⟩, ?_, rfl⟩
    · exact List.all_eq_true.1 List.all_takeWhile c mem
    · rw [Inside.text, List.flatMap_nil, List.nil_append, ← start,
        List.takeWhile_append_dropWhile]
  | case3 found text c behind start _ named new after entry _ ih =>
    obtain ⟨value, spelled, split, rfl, ends⟩ := exists_of_readEntry entry
    obtain ⟨later, wellFormed, rfl, rfl⟩ := ih read
    let first : EntrySpelling :=
      ⟨text.takeWhile isBlank, (c :: behind).takeWhile isNameChar, value⟩
    have first_wellFormed : first.WellFormed := by
      refine ⟨fun d mem => ?_, ?_, fun d mem => ?_, spelled⟩
      · exact List.all_eq_true.1 List.all_takeWhile d mem
      · simp [first, List.takeWhile_cons_of_pos named]
      · exact List.all_eq_true.1 List.all_takeWhile d mem
    refine ⟨⟨first :: later.entries, later.blanks⟩, ⟨?_, ?_, wellFormed.blanks⟩, ?_, rfl⟩
    · exact List.forall_mem_cons.2 ⟨first_wellFormed, wellFormed.entries⟩
    · exact List.isChain_cons.2 ⟨(wellFormed.apart_iff first rest).2 ends, wellFormed.apart⟩
    · have named : c :: behind = (c :: behind).takeWhile isNameChar ++
          (value.text ++ (later.text ++ ']' :: rest)) := by
        rw [← split, List.takeWhile_append_dropWhile]
      calc text
        _ = text.takeWhile isBlank ++ (c :: behind) := by
          rw [← start, List.takeWhile_append_dropWhile]
        _ = first.text ++ (later.text ++ ']' :: rest) := by
          rw [named, EntrySpelling.text, List.append_assoc, List.append_assoc]
        _ = Inside.text ⟨first :: later.entries, later.blanks⟩ ++ ']' :: rest := by
          simp only [Inside.text, List.flatMap_cons, List.append_assoc]
  | case4 => cases read
  | case5 => cases read
  | case6 => cases read

/-! ## Displayed blocks -/

def displayed (blanks : List Char) (entry : Attribute) : EntrySpelling :=
  ⟨blanks, entry.name.toList, (entry.value.map (.quoted '"' ·.toList)).getD .absent⟩

theorem text_displayed (blanks : List Char) (entry : Attribute) :
    (displayed blanks entry).text = blanks ++ (Token.showAttribute entry).toList := by
  obtain ⟨name, value⟩ := entry
  cases value <;> simp [displayed, EntrySpelling.text, ValueSpelling.text, Token.showAttribute]

theorem meaning_displayed (blanks : List Char) (entry : Attribute) :
    (displayed blanks entry).meaning = entry := by
  obtain ⟨name, value⟩ := entry
  cases value <;> simp [displayed, EntrySpelling.meaning, ValueSpelling.value?]

theorem wellFormed_displayed {blanks : List Char} (blank : ∀ c ∈ blanks, isBlank c = true)
    {entry : Attribute} (legible : entry.Legible) : (displayed blanks entry).WellFormed where
  blanks := blank
  nonempty := legible.nonempty
  named := legible.named
  value := by
    obtain ⟨name, value⟩ := entry
    cases value with
    | none => exact trivial
    | some value => exact ⟨rfl, legible.unquoted value rfl⟩

theorem toList_intercalate_show (first : Attribute) (others : List Attribute) :
    (" ".intercalate ((first :: others).map Token.showAttribute)).toList =
      (Token.showAttribute first).toList ++
        others.flatMap fun entry => ' ' :: (Token.showAttribute entry).toList := by
  induction others generalizing first with
  | nil => simp
  | cons second others ih =>
    rw [List.map_cons, List.map_cons, String.intercalate_cons_cons, String.toList_append,
      ← List.map_cons, ih, String.toList_append, List.flatMap_cons, List.append_assoc]
    rfl

theorem isBlank_space : ∀ c ∈ [' '], isBlank c = true := List.forall_mem_singleton.2 rfl

def displayedAll (entries : List Attribute) : Inside := ⟨entries.map (displayed [' ']), []⟩

theorem text_displayedAll (entries : List Attribute) :
    (displayedAll entries).text =
      entries.flatMap fun entry => ' ' :: (Token.showAttribute entry).toList := by
  simp only [Inside.text, displayedAll, List.flatMap_map, text_displayed, List.singleton_append,
    List.append_nil]

theorem meanings_displayedAll (entries : List Attribute) :
    (displayedAll entries).meanings = entries := by
  simp only [Inside.meanings, displayedAll, List.map_map, Function.comp_def, meaning_displayed,
    List.map_id']

theorem wellFormed_displayedAll {entries : List Attribute}
    (legible : ∀ entry ∈ entries, entry.Legible) : (displayedAll entries).WellFormed where
  entries := by
    rw [displayedAll, List.forall_mem_map]
    exact fun entry mem => wellFormed_displayed isBlank_space (legible entry mem)
  apart := by
    rw [displayedAll, List.isChain_map]
    exact (List.pairwise_of_forall fun _ _ => .inr (List.cons_ne_nil _ _)).isChain
  blanks := by simp [displayedAll]

theorem read_display {entries : List Attribute} (rest : List Char)
    (legible : ∀ entry ∈ entries, entry.Legible) (distinct : (entries.map (·.name)).Nodup) :
    read ((" ".intercalate (entries.map Token.showAttribute)).toList ++ ']' :: rest) =
      .ok (entries, rest) := by
  have whole := readEntries_inside [] (wellFormed_displayedAll legible) rest
  rw [text_displayedAll, meanings_displayedAll, Attribute.putAll_of_new (by simpa using distinct),
    List.nil_append] at whole
  cases entries with
  | nil => exact whole
  | cons first others =>
    -- The first entry has no blank in front of it, which makes no difference.
    rw [List.flatMap_cons, ← List.singleton_append, List.append_assoc, List.append_assoc,
      readEntries_blanks [] isBlank_space] at whole
    rw [read, toList_intercalate_show, List.append_assoc]
    exact whole

end AttributeBlock

end Shorthand
