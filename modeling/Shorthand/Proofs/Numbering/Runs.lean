import Mathlib.Data.List.SplitBy
import Shorthand.Proofs.Numbering.Name
import Shorthand.Proofs.Numbering.Placeholder

/-! # Templates run by run

A text is cut into maximal runs of `$` and maximal runs of other characters, in one way.  Replacing
the placeholders of a template shows its runs one by one: a number in place of each run of `$`, and
every other run as it is.  This fails if one of the runs of `$` is too long, and only then.  Two
templates are replaced apart unless a run of `$` goes on from one to the other.
-/
namespace Shorthand.Numbering

def runs (text : List Char) : List (List Char) :=
  text.splitBy fun one other => (one == '$') == (other == '$')

/-- In place of a run of `$`, the decimal numeral of a number, with zeros in front of it if the run is
longer; another run stands for itself. -/
def runShown (number : Nat) (run : List Char) : List Char :=
  if '$' ∈ run then (Nat.toDigits 10 number).leftpad run.length '0' else run

def Alike (run : List Char) : Prop := (∀ c ∈ run, c = '$') ∨ '$' ∉ run

/-- Runs of `$` and runs of other characters that take turns, so that none can be longer. -/
structure AreRuns (text : List Char) (runs : List (List Char)) : Prop where
  whole : runs.flatten = text
  nonempty : [] ∉ runs
  alike : ∀ run ∈ runs, Alike run
  alternate : runs.IsChain fun one other => '$' ∈ one ↔ '$' ∉ other

variable {text : List Char} {cut : List (List Char)}

/-! ## One way to cut a text -/

theorem Alike.beq_eq {run : List Char} (alike : Alike run) {c : Char} (mem : c ∈ run) :
    (c == '$') = decide ('$' ∈ run) := by
  rcases alike with dollars | none
  · obtain rfl : c = '$' := dollars c mem
    simp [mem]
  · have other : c ≠ '$' := ne_of_mem_of_not_mem mem none
    simp [other, none]

theorem isChain_iff_alike {run : List Char} :
    (run.IsChain fun one other => ((one == '$') == (other == '$')) = true) ↔ Alike run := by
  constructor
  · intro chain
    have same : (run.map (· == '$')).IsChain (· = ·) :=
      (List.isChain_map _).2 (chain.imp fun _ _ => eq_of_beq)
    rw [List.isChain_eq_iff_eq_replicate] at same
    cases run with
    | nil => exact .inr List.not_mem_nil
    | cons c rest =>
      have all : ∀ d ∈ c :: rest, (d == '$') = (c == '$') := fun d mem =>
        List.eq_of_mem_replicate (same _ rfl ▸ List.mem_map_of_mem mem)
      by_cases dollar : c = '$'
      · exact .inl fun d mem => by simpa [dollar] using all d mem
      · exact .inr fun mem => dollar (by simpa using (all '$' mem).symm)
  · intro alike
    rw [List.isChain_iff_forall_rel_of_append_cons_cons]
    rintro one other front back rfl
    rw [alike.beq_eq (by simp), alike.beq_eq (by simp), beq_self_eq_true]

theorem areRuns_iff : AreRuns text cut ↔ cut = runs text := by
  rw [eq_comm, runs, List.splitBy_eq_iff]
  simp only [isChain_iff_alike]
  -- what the last character of a run is and the first one of the next, all characters in them are
  have boundary (nonempty : [] ∉ cut) (alike : ∀ run ∈ cut, Alike run) :
      (cut.IsChain fun one other => ∃ ha hb,
        ((one.getLast ha == '$') == (other.head hb == '$')) = false) ↔
        cut.IsChain fun one other => '$' ∈ one ↔ '$' ∉ other := by
    apply List.IsChain.iff_of_mem_imp
    intro one other mem mem'
    have first : one ≠ [] := ne_of_mem_of_not_mem mem nonempty
    have second : other ≠ [] := ne_of_mem_of_not_mem mem' nonempty
    simp only [exists_prop_of_true first, exists_prop_of_true second,
      (alike one mem).beq_eq (List.getLast_mem first),
      (alike other mem').beq_eq (List.head_mem second)]
    by_cases here : '$' ∈ one <;> by_cases there : '$' ∈ other <;> simp [here, there]
  constructor
  · intro h
    exact ⟨h.whole.symm, h.nonempty, h.alike, (boundary h.nonempty h.alike).2 h.alternate⟩
  · rintro ⟨whole, nonempty, alike, apart⟩
    exact ⟨whole.symm, nonempty, alike, (boundary nonempty alike).1 apart⟩

example : runs "$a-$$".toList = [['$'], ['a', '-'], ['$', '$']] := by decide

namespace AreRuns

variable {run : List Char} {rest : List (List Char)}

theorem tail (h : AreRuns text (run :: rest)) : AreRuns rest.flatten rest where
  whole := rfl
  nonempty mem := h.nonempty (List.mem_cons_of_mem run mem)
  alike _ mem := h.alike _ (List.mem_cons_of_mem run mem)
  alternate := h.alternate.tail

/-- No run of `$` goes on into what stands behind it. -/
theorem apart (h : AreRuns text (run :: rest)) :
    run.getLast? ≠ some '$' ∨ rest.flatten.head? ≠ some '$' := by
  rcases h.alike run List.mem_cons_self with dollars | none
  · have nonempty : run ≠ [] := ne_of_mem_of_not_mem List.mem_cons_self h.nonempty
    have dollar : '$' ∈ run := dollars _ (List.head_mem nonempty) ▸ List.head_mem nonempty
    cases rest with
    | nil => exact .inr (by simp)
    | cons next rest =>
      have none : '$' ∉ next := (List.isChain_cons_cons.1 h.alternate).1.1 dollar
      cases next with
      | nil => exact absurd (by simp) h.nonempty
      | cons c next =>
        refine .inr fun first => none ?_
        obtain rfl : c = '$' := Option.some.inj first
        exact List.mem_cons_self
  · exact .inl fun last => none (List.mem_of_getLast? last)

end AreRuns

/-! ## Runs that are too long -/

theorem Alike.fits_iff {run : List Char} (alike : Alike run) :
    Fits run ↔ ('$' ∈ run → run.length ≤ maxWidth) := by
  rcases alike with dollars | none
  · have all : run = List.replicate run.length '$' := List.eq_replicate_of_mem dollars
    have short : Fits run ↔ run.length ≤ maxWidth := by
      rw [all, fits_replicate_iff, List.length_replicate]
    rw [short]
    cases run with
    | nil => simp
    | cons c rest =>
      have dollar : '$' ∈ c :: rest := dollars c List.mem_cons_self ▸ List.mem_cons_self
      exact ⟨fun short _ => short, fun short => short dollar⟩
  · exact iff_of_true (fits_of_plain none) fun dollar => absurd dollar none

theorem AreRuns.fits_iff (h : AreRuns text cut) :
    Fits text ↔ ∀ run ∈ cut, '$' ∈ run → run.length ≤ maxWidth := by
  induction cut generalizing text with
  | nil =>
    rw [← h.whole]
    simp [fits_of_plain]
  | cons run rest ih =>
    rw [← h.whole, List.flatten_cons, fits_append_iff h.apart, List.forall_mem_cons, ih h.tail,
      (h.alike run List.mem_cons_self).fits_iff]

/-! ## Filling in a number -/

theorem Alike.fill_eq {run : List Char} (alike : Alike run) (number : Nat) :
    fill number 0 run = runShown number run := by
  unfold runShown
  split
  next dollar =>
    have dollars : ∀ c ∈ run, c = '$' := alike.resolve_right fun none => none dollar
    have all : run = List.replicate run.length '$' ++ [] := by
      rw [List.append_nil, ← List.eq_replicate_of_mem dollars]
    calc fill number 0 run
        = fill number 0 (List.replicate run.length '$' ++ []) := by rw [← all]
      _ = fill number (0 + run.length) [] := fill_replicate ..
      _ = (Nat.toDigits 10 number).leftpad run.length '0' := by
        rw [fill, Nat.zero_add, shown_of_pos (List.length_pos_of_mem dollar)]
        rfl
  next none => exact fill_of_plain none number

/-- Two texts are filled in apart if no run of `$` goes on from one to the other; `width` counts the
`$` in front of the first. -/
theorem fill_append {front back : List Char} {number width : Nat}
    (apart : (List.replicate width '$' ++ front).getLast? ≠ some '$' ∨ back.head? ≠ some '$') :
    fill number width (front ++ back) = fill number width front ++ fill number 0 back := by
  induction front generalizing width with
  | nil =>
    rcases apart with stops | ends
    · obtain rfl : width = 0 := by
        cases width with
        | zero => rfl
        | succ width => simp [List.replicate_succ'] at stops
      rfl
    · exact fill_of_head?_ne ends number width
  | cons c rest ih =>
    rw [List.cons_append, fill, fill]
    split
    next dollar =>
      apply ih
      rwa [dollar, List.append_cons, ← List.replicate_succ'] at apart
    next other =>
      have later : fill number 0 (rest ++ back) = fill number 0 rest ++ fill number 0 back := by
        apply ih
        refine apart.imp_left fun stops last => stops ?_
        rw [List.replicate_zero, List.nil_append] at last
        simp [List.getLast?_append, List.getLast?_cons, last]
      rw [later, List.append_assoc, List.cons_append]

/-- Filling in a number shows the runs one by one. -/
theorem AreRuns.fill_eq (h : AreRuns text cut) (number : Nat) :
    fill number 0 text = cut.flatMap (runShown number) := by
  induction cut generalizing text with
  | nil =>
    rw [← h.whole]
    rfl
  | cons run rest ih =>
    have apart : (List.replicate 0 '$' ++ run).getLast? ≠ some '$' ∨
        rest.flatten.head? ≠ some '$' := h.apart
    rw [← h.whole, List.flatten_cons, fill_append apart, ih h.tail, List.flatMap_cons,
      (h.alike run List.mem_cons_self).fill_eq]

/-! ## Replacing placeholders -/

section Replace

variable {front back : String} {number : UInt64}

theorem substitute_append
    (apart : front.toList.getLast? ≠ some '$' ∨ back.toList.head? ≠ some '$') :
    substitute (front ++ back) number = substitute front number ++ substitute back number := by
  have apart' : (List.replicate 0 '$' ++ front.toList).getLast? ≠ some '$' ∨
      back.toList.head? ≠ some '$' := apart
  rw [substitute, String.toList_append, fill_append apart', String.ofList_append]
  rfl

/-- Neither of two templates that are replaced apart makes a run of the other too long. -/
theorem substitute?_append
    (apart : front.toList.getLast? ≠ some '$' ∨ back.toList.head? ≠ some '$') :
    substitute? (front ++ back) number = do
      let one ← substitute? front number
      let other ← substitute? back number
      return one ++ other := by
  simp only [substitute?_eq, String.toList_append, fits_append_iff apart, substitute_append apart]
  by_cases fits : Fits front.toList <;> by_cases fits' : Fits back.toList <;> simp [fits, fits']

end Replace

/-- If no run of `$` is too long, replacing the placeholders of a template shows its runs one by one,
which there is one way to cut it into, and leaves no `$`.  Otherwise the program crashes.  Templates
are replaced apart unless a run of `$` goes on from one to the other. -/
theorem substitute_eq_runs (number : UInt64) :
    (∀ template : String,
      (∀ cut, AreRuns template.toList cut ↔ cut = runs template.toList) ∧
        (substitute? template number =
            some (String.ofList ((runs template.toList).flatMap (runShown number.toNat))) ↔
          ∀ run ∈ runs template.toList, '$' ∈ run → run.length ≤ maxWidth) ∧
        (substitute? template number = none ↔
          ∃ run ∈ runs template.toList, '$' ∈ run ∧ maxWidth < run.length) ∧
        ∀ text, substitute? template number = some text → '$' ∉ text.toList) ∧
    ∀ front back : String, front.toList.getLast? ≠ some '$' ∨ back.toList.head? ≠ some '$' →
      substitute? (front ++ back) number = do
        let one ← substitute? front number
        let other ← substitute? back number
        return one ++ other := by
  refine ⟨fun template => ?_, fun front back => substitute?_append⟩
  have cut : AreRuns template.toList (runs template.toList) := areRuns_iff.2 rfl
  have replaced := substitute?_eq template number
  rw [substitute, cut.fill_eq] at replaced
  refine ⟨fun cut => areRuns_iff, ?_, ?_, fun text shown => ?_⟩
  · rw [← cut.fits_iff, replaced]
    exact ite_eq_left_iff.trans (by simp)
  · rw [substitute?_eq_none_iff, cut.fits_iff]
    simp only [not_forall, exists_prop, Nat.not_le]
  · rw [substitute?_eq] at shown
    split at shown
    next =>
      cases shown
      exact dollar_not_mem_substitute template number
    next => cases shown

/-- A run that ends the first template, with another character behind it. -/
theorem substitute_eq_runs_between :
    ("a$$".toList.getLast? ≠ some '$' ∨ "b$".toList.head? ≠ some '$') ∧
      substitute? ("a$$" ++ "b$") 7 = (do
        let one ← substitute? "a$$" 7
        let other ← substitute? "b$" 7
        return one ++ other) ∧
      substitute? "a$$" 7 = some "a07" ∧ substitute? "b$" 7 = some "b7" :=
  have apart : "a$$".toList.getLast? ≠ some '$' ∨ "b$".toList.head? ≠ some '$' := .inr (by decide)
  ⟨apart, (substitute_eq_runs 7).2 "a$$" "b$" apart, by decide +kernel, by decide +kernel⟩

/-- The shortest run that is too long stands for a numeral with zeros in front, but has no
replacement. -/
theorem substitute_longRun_crashes :
    substitute? longRun 7 = none ∧ runs longRun.toList = [List.replicate (maxWidth + 1) '$'] ∧
      [List.replicate (maxWidth + 1) '$'].flatMap (runShown 7) =
        List.replicate maxWidth '0' ++ ['7'] := by
  refine ⟨substitute?_eq_none_iff.2 not_fits_longRun, ?_, ?_⟩
  · symm
    rw [← areRuns_iff, longRun, String.toList_ofList]
    refine ⟨List.flatten_singleton, by simp, ?_, .singleton _⟩
    rw [List.forall_mem_singleton]
    exact .inl fun c => List.eq_of_mem_replicate
  · have digits : Nat.toDigits 10 7 = ['7'] := by decide
    have dollar : '$' ∈ List.replicate (maxWidth + 1) '$' := by simp
    rw [List.flatMap_singleton, runShown, if_pos dollar, List.length_replicate, digits,
      List.leftpad, List.length_singleton, Nat.add_sub_cancel]

end Shorthand.Numbering
