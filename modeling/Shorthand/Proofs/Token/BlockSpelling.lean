import Mathlib.Data.List.Induction
import Shorthand.Proofs.Token.Reading

/-! # What an attribute block says

A block is written as entries with blanks in front of them and behind the last.  However it is
written, reading it goes up to its bracket and gives each name once, in the order in which names
come first, with the value that comes last.
-/
namespace Shorthand

namespace Attribute

theorem map_name_put (new : Attribute) (entries : List Attribute) :
    (new.put entries).map (·.name) =
      if new.name ∈ entries.map (·.name) then entries.map (·.name)
      else entries.map (·.name) ++ [new.name] := by
  induction entries with
  | nil => rfl
  | cons old rest ih =>
    by_cases same : old.name = new.name
    · simp [put, same]
    · rw [put, if_neg same, List.map_cons, ih, List.map_cons]
      by_cases mem : new.name ∈ rest.map (·.name)
      · rw [if_pos mem, if_pos (List.mem_cons_of_mem _ mem)]
      · rw [if_neg mem, if_neg (by simp [Ne.symm same, mem]), List.cons_append]

theorem find?_put (name : String) (new : Attribute) (entries : List Attribute) :
    find? name (new.put entries) = if new.name = name then some new else find? name entries := by
  induction entries with
  | nil => by_cases named : new.name = name <;> simp [put, find?, named]
  | cons old rest ih =>
    rw [find?] at ih
    by_cases same : old.name = new.name
    · by_cases named : new.name = name <;> simp [put, find?, same, named]
    · by_cases named : old.name = name
      · have other : new.name ≠ name := fun h => same (named.trans h.symm)
        rw [put, if_neg same, if_neg other]
        simp [find?, named]
      · simp [put, find?, same, named, ih]

theorem find?_of_mem {entry : Attribute} {entries : List Attribute}
    (distinct : (entries.map (·.name)).Nodup) (mem : entry ∈ entries) :
    find? entry.name entries = some entry := by
  induction entries with
  | nil => cases mem
  | cons first rest ih =>
    rw [List.map_cons, List.nodup_cons] at distinct
    rcases List.mem_cons.1 mem with rfl | mem
    · simp [find?]
    · have other : first.name ≠ entry.name := fun same =>
        distinct.1 (same ▸ List.mem_map_of_mem mem)
      rw [find?, List.find?_cons_of_neg (by simpa using other)]
      exact ih distinct.2 mem

/-- The attributes that are left when each is put to those before it. -/
def merged (entries : List Attribute) : List Attribute := putAll entries []

theorem merged_append_singleton (entries : List Attribute) (new : Attribute) :
    merged (entries ++ [new]) = new.put (merged entries) := List.foldl_concat ..

theorem nodup_merged (entries : List Attribute) : ((merged entries).map (·.name)).Nodup := by
  induction entries using List.reverseRecOn with
  | nil => exact List.nodup_nil
  | append_singleton entries new ih =>
    rw [merged_append_singleton]
    exact nodup_put new ih

theorem eraseDups_append_singleton (names : List String) (name : String) :
    (names ++ [name]).eraseDups =
      if name ∈ names then names.eraseDups else names.eraseDups ++ [name] := by
  rw [List.eraseDups_append]
  by_cases mem : name ∈ names <;> simp [List.removeAll, mem, List.eraseDups_cons]

/-- The names that are left are all names, in the order in which they come first. -/
theorem map_name_merged (entries : List Attribute) :
    (merged entries).map (·.name) = (entries.map (·.name)).eraseDups := by
  induction entries using List.reverseRecOn with
  | nil => rfl
  | append_singleton entries new ih =>
    rw [merged_append_singleton, map_name_put, List.map_append, List.map_singleton,
      eraseDups_append_singleton, ih]
    simp only [List.mem_eraseDups]

theorem find?_merged (name : String) (entries : List Attribute) :
    find? name (merged entries) = find? name entries.reverse := by
  induction entries using List.reverseRecOn with
  | nil => rfl
  | append_singleton entries new ih =>
    rw [merged_append_singleton, find?_put, ih, List.reverse_append, List.reverse_singleton,
      List.singleton_append]
    by_cases named : new.name = name <;> simp [find?, named]

end Attribute

namespace AttributeBlock

theorem read_text {inside : Inside} (wellFormed : inside.WellFormed) (rest : List Char) :
    read (inside.text ++ ']' :: rest) = .ok (Attribute.merged inside.meanings, rest) :=
  readEntries_inside [] wellFormed rest

/-- A well-formed block is read up to its bracket, whatever follows.  Each name is left once, in the
order in which names come first, with the value, or the lack of one, that comes last. -/
theorem read_merges_names {inside : Inside} (wellFormed : inside.WellFormed) (rest : List Char) :
    ∃ found, read (inside.text ++ ']' :: rest) = .ok (found, rest) ∧
      found.map (·.name) = (inside.meanings.map (·.name)).eraseDups ∧
        ∀ entry ∈ found, Attribute.find? entry.name inside.meanings.reverse = some entry := by
  refine ⟨_, read_text wellFormed rest, Attribute.map_name_merged _, fun entry mem => ?_⟩
  rw [← Attribute.find?_merged]
  exact Attribute.find?_of_mem (Attribute.nodup_merged _) mem

/-- All kinds of entries, with a wide space between two, a bracket between quotes and names that
come twice. -/
theorem read_merges_names_repeated :
    ∃ found, read " a k=v='\u2003d=\"x] y\"\ta='é\"' k\n]>p]".toList = .ok (found, ">p]".toList) ∧
      found.map (·.name) = ["a", "k", "d"] ∧
        ∀ entry ∈ found, Attribute.find? entry.name
          [⟨"k", none⟩, ⟨"a", some "é\""⟩, ⟨"d", some "x] y"⟩, ⟨"k", some "v='"⟩, ⟨"a", none⟩] =
            some entry := by
  let inside : Inside :=
    ⟨[⟨[' '], ['a'], .absent⟩, ⟨[' '], ['k'], .bare ['v', '=', '\'']⟩,
      ⟨['\u2003'], ['d'], .quoted '"' ['x', ']', ' ', 'y']⟩,
      ⟨['\t'], ['a'], .quoted '\'' ['é', '"']⟩, ⟨[' '], ['k'], .absent⟩], ['\n']⟩
  have wellFormed : inside.WellFormed := by decide
  have written : inside.text ++ ']' :: ">p]".toList =
      " a k=v='\u2003d=\"x] y\"\ta='é\"' k\n]>p]".toList := by decide +kernel
  have names : (inside.meanings.map (·.name)).eraseDups = ["a", "k", "d"] := by decide +kernel
  have meanings : inside.meanings.reverse =
      [⟨"k", none⟩, ⟨"a", some "é\""⟩, ⟨"d", some "x] y"⟩, ⟨"k", some "v='"⟩, ⟨"a", none⟩] := by
    decide +kernel
  have read := read_merges_names wellFormed ">p]".toList
  rw [written, names, meanings] at read
  exact read

end AttributeBlock

end Shorthand
