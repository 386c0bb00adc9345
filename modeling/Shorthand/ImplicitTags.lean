/-! # Implicit tags

A table from the tag of a parent to the tag that its children get when they name none.  The entries
are kept in the order of the parents, each parent once, so that two tables with the same answers are
equal.
-/
namespace Shorthand

namespace ImplicitTags

/-- Adds an entry to a list in increasing order, or replaces the one for that parent. -/
def insertEntry (parent child : String) : List (String × String) → List (String × String)
  | [] => [(parent, child)]
  | (other, tag) :: rest =>
    if parent < other then (parent, child) :: (other, tag) :: rest
    else if parent = other then (parent, child) :: rest
    else (other, tag) :: insertEntry parent child rest

theorem mem_insertEntry {parent child : String} {entries : List (String × String)}
    {entry : String × String} (h : entry ∈ insertEntry parent child entries) :
    entry = (parent, child) ∨ entry ∈ entries := by
  induction entries with
  | nil => simpa [insertEntry] using h
  | cons first rest ih =>
    simp only [insertEntry] at h
    split at h
    · simpa using h
    · split at h
      · rcases List.mem_cons.1 h with h | h
        · exact .inl h
        · exact .inr (List.mem_cons_of_mem _ h)
      · rcases List.mem_cons.1 h with h | h
        · exact .inr (h ▸ List.mem_cons_self)
        · exact (ih h).imp_right (List.mem_cons_of_mem _)

theorem lt_of_not_lt {a b : String} (h : ¬a < b) (hne : a ≠ b) : b < a := by
  rcases Decidable.em (b < a) with hb | hb
  · exact hb
  · exact absurd (String.le_antisymm hb h) hne

theorem sorted_insertEntry (parent child : String) {entries : List (String × String)}
    (h : entries.Pairwise (·.1 < ·.1)) :
    (insertEntry parent child entries).Pairwise (·.1 < ·.1) := by
  induction entries with
  | nil => simp [insertEntry]
  | cons first rest ih =>
    obtain ⟨above, tail⟩ := List.pairwise_cons.1 h
    simp only [insertEntry]
    split
    next before =>
      refine List.pairwise_cons.2 ⟨fun entry mem => ?_, h⟩
      rcases List.mem_cons.1 mem with rfl | mem
      · exact before
      · exact String.lt_trans before (above entry mem)
    next notBefore =>
      split
      next same => exact List.pairwise_cons.2 ⟨fun entry mem => same ▸ above entry mem, tail⟩
      next different =>
        refine List.pairwise_cons.2 ⟨fun entry mem => ?_, ih tail⟩
        rcases mem_insertEntry mem with rfl | mem
        · exact lt_of_not_lt notBefore different
        · exact above entry mem

end ImplicitTags

structure ImplicitTags where
  entries : List (String × String)
  sorted : entries.Pairwise (·.1 < ·.1)

namespace ImplicitTags

def empty : ImplicitTags := ⟨[], List.Pairwise.nil⟩

instance : Inhabited ImplicitTags := ⟨empty⟩

/-- The tag for the children of `parent`. -/
def childOf (table : ImplicitTags) (parent : String) : Option String :=
  table.entries.lookup parent

def insert (table : ImplicitTags) (parent child : String) : ImplicitTags where
  entries := insertEntry parent child table.entries
  sorted := sorted_insertEntry parent child table.sorted

theorem lookup_cons (asked parent child : String) (entries : List (String × String)) :
    ((parent, child) :: entries).lookup asked =
      if asked = parent then some child else entries.lookup asked := by
  by_cases h : asked = parent
  · simp [h]
  · simp [List.lookup_cons, beq_eq_false_iff_ne.2 h, h]

theorem lookup_insertEntry (parent child asked : String) (entries : List (String × String)) :
    (insertEntry parent child entries).lookup asked =
      if asked = parent then some child else entries.lookup asked := by
  induction entries with
  | nil => simp only [insertEntry, lookup_cons]
  | cons first rest ih =>
    obtain ⟨other, tag⟩ := first
    by_cases before : parent < other
    · simp only [insertEntry, before, if_true, lookup_cons]
    · by_cases same : parent = other
      · subst same
        simp only [insertEntry, before, if_false, if_true, lookup_cons]
        split <;> rfl
      · by_cases h : asked = other
        · subst h
          simp [insertEntry, before, same, Ne.symm same]
        · simp [insertEntry, before, same, lookup_cons, h, ih]

theorem childOf_insert (table : ImplicitTags) (parent child asked : String) :
    (table.insert parent child).childOf asked =
      if asked = parent then some child else table.childOf asked :=
  lookup_insertEntry parent child asked table.entries

def insertAll (table : ImplicitTags) (entries : List (String × String)) : ImplicitTags :=
  entries.foldl (fun table entry => table.insert entry.1 entry.2) table

def ofList (entries : List (String × String)) : ImplicitTags := insertAll empty entries

def size (table : ImplicitTags) : Nat := table.entries.length

def isEmpty (table : ImplicitTags) : Bool := table.entries.isEmpty

def standard : ImplicitTags := ofList [
  ("ul", "li"), ("ol", "li"),
  ("table", "tr"), ("tbody", "tr"), ("thead", "tr"), ("tfoot", "tr"), ("tr", "td"),
  ("select", "option"), ("optgroup", "option"), ("datalist", "option"),
  ("colgroup", "col"), ("map", "area"), ("audio", "source"), ("video", "source"),
  ("object", "param"),
  ("em", "span"), ("strong", "span"), ("span", "span"), ("a", "span"), ("b", "span"),
  ("i", "span"), ("label", "span")]

end ImplicitTags

end Shorthand
