import Shorthand.ImplicitTags

/-! # Tables of implicit tags

A table is determined by its answers, and adding all entries of another table overrides the answers
that the other one gives.
-/
namespace Shorthand.ImplicitTags

section Entries

variable {parent child : String} {entries : List (String × String)}

theorem lookup_eq_none_of_lt (above : ∀ entry ∈ entries, parent < entry.1) :
    entries.lookup parent = none := by
  rw [List.lookup_eq_none_iff]
  intro entry mem
  rw [bne_iff_ne]
  rintro rfl
  exact String.lt_irrefl _ (above entry mem)

theorem mem_iff_lookup (sorted : entries.Pairwise (·.1 < ·.1)) :
    (parent, child) ∈ entries ↔ entries.lookup parent = some child := by
  induction entries with
  | nil => simp
  | cons first rest ih =>
    obtain ⟨other, tag⟩ := first
    obtain ⟨above, tail⟩ := List.pairwise_cons.1 sorted
    rw [List.mem_cons, lookup_cons, ih tail]
    split
    next same =>
      subst same
      simp [lookup_eq_none_of_lt above, eq_comm]
    next different => simp [different]

theorem nodup_of_sorted (sorted : entries.Pairwise (·.1 < ·.1)) : entries.Nodup := by
  refine sorted.imp fun {a b} lt same => ?_
  subst same
  exact String.lt_irrefl _ lt

theorem childOf_insertAll_of_sorted (sorted : entries.Pairwise (·.1 < ·.1)) (table : ImplicitTags)
    (asked : String) :
    (table.insertAll entries).childOf asked = (entries.lookup asked).or (table.childOf asked) := by
  rw [insertAll]
  induction entries generalizing table with
  | nil => rfl
  | cons first rest ih =>
    obtain ⟨above, tail⟩ := List.pairwise_cons.1 sorted
    rw [List.foldl_cons, ih tail, childOf_insert, lookup_cons]
    split
    next same =>
      subst same
      rw [lookup_eq_none_of_lt above]
      rfl
    next => rfl

end Entries

theorem mem_entries_iff {table : ImplicitTags} {parent child : String} :
    (parent, child) ∈ table.entries ↔ table.childOf parent = some child :=
  mem_iff_lookup table.sorted

theorem ext_childOf {a b : ImplicitTags} (same : ∀ parent, a.childOf parent = b.childOf parent) :
    a = b := by
  have perm : a.entries.Perm b.entries := by
    rw [List.perm_ext_iff_of_nodup (nodup_of_sorted a.sorted) (nodup_of_sorted b.sorted)]
    rintro ⟨parent, child⟩
    rw [mem_entries_iff, mem_entries_iff, same]
  have entries : a.entries = b.entries :=
    perm.eq_of_pairwise (fun _ _ _ _ lt gt => absurd (String.lt_trans lt gt) (String.lt_irrefl _))
      a.sorted b.sorted
  cases a
  cases b
  cases entries
  rfl

/-- Where the other table has an answer, it is the answer of both. -/
theorem childOf_insertAll (table other : ImplicitTags) (asked : String) :
    (table.insertAll other.entries).childOf asked =
      (other.childOf asked).or (table.childOf asked) :=
  childOf_insertAll_of_sorted other.sorted table asked

end Shorthand.ImplicitTags
