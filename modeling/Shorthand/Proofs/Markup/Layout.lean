import Shorthand.Markup.Layout

/-! # Lines of markup

The lines of a forest are those of its trees one after the other, and no tree is without lines.  What
an element looks like does not depend on how deep it stands: a level more puts one unit more in front of
each of its lines, but for the empty ones.
-/
namespace Shorthand

theorem Text.repeated_add (text : String) (count more : Nat) :
    repeated text (count + more) = repeated text count ++ repeated text more := by
  induction more with
  | zero => simp [repeated]
  | succ more ih => rw [← Nat.add_assoc, repeated, ih, repeated, String.append_assoc]

namespace Layout

variable {style : Style} {depth : Nat}

theorem forestLines_append (front back : Markup) :
    forestLines style depth (front ++ back) =
      forestLines style depth front ++ forestLines style depth back := by
  induction front with
  | nil => rfl
  | cons first front ih => rw [List.cons_append, forestLines, forestLines, ih, List.append_assoc]

theorem forestLines_eq_flatMap (forest : Markup) :
    forestLines style depth forest = forest.flatMap (treeLines style depth) := by
  induction forest with
  | nil => rfl
  | cons first rest ih => rw [forestLines, ih, List.flatMap_cons]

/-! ## One element -/

section Element

variable {element : Element}

theorem treeLines_void (void : TagName.isVoid element.tag = true) (children : Markup) :
    treeLines style depth (.node element children) =
      [line style depth (opening element ++ style.closing.ending)] := by
  rw [treeLines.eq_def]
  exact if_pos void

theorem treeLines_leaf (filled : TagName.isVoid element.tag = false) :
    treeLines style depth (.node element []) = leafLines style depth element := by
  rw [treeLines.eq_def]
  exact if_neg (Bool.not_eq_true _ ▸ filled)

theorem treeLines_inner (filled : TagName.isVoid element.tag = false) {children : Markup}
    (inner : children ≠ []) :
    treeLines style depth (.node element children) =
      line style depth (opening element ++ ">") ::
        (textLines style (depth + 1) (element.text.getD "") ++
          forestLines style (depth + 1) children) ++
        [line style depth (closing element)] := by
  obtain ⟨first, rest, rfl⟩ := List.exists_cons_of_ne_nil inner
  rw [treeLines.eq_def]
  exact if_neg (Bool.not_eq_true _ ▸ filled)

end Element

theorem treeLines_ne_nil (tree : Tree Element) : treeLines style depth tree ≠ [] := by
  obtain ⟨element, children⟩ := tree
  cases filled : TagName.isVoid element.tag with
  | true =>
    rw [treeLines_void filled]
    exact List.cons_ne_nil _ _
  | false =>
    by_cases leaf : children = []
    · rw [leaf, treeLines_leaf filled, leafLines]
      split <;> exact List.cons_ne_nil _ _
    · rw [treeLines_inner filled leaf]
      exact List.cons_ne_nil _ _

theorem forestLines_ne_nil {forest : Markup} (nonempty : forest ≠ []) :
    forestLines style depth forest ≠ [] := by
  cases forest with
  | nil => exact absurd rfl nonempty
  | cons first rest => exact List.append_ne_nil_of_left_ne_nil (treeLines_ne_nil first) _

/-! ## More levels -/

theorem line_zero (style : Style) (content : String) : line style 0 content = content := by
  by_cases empty : content = "" <;> simp [line, empty, Text.repeated]

/-- Some levels above a line go in front of those it has already. -/
theorem line_line (style : Style) (more depth : Nat) (content : String) :
    line style more (line style depth content) = line style (more + depth) content := by
  by_cases empty : content = ""
  · simp [line, empty]
  · have filled : content.isEmpty = false := by simpa using empty
    have indented : (Text.repeated style.indentUnit depth ++ content).isEmpty = false := by
      simp [empty]
    simp only [line, filled, indented, Bool.false_eq_true, if_false, Text.repeated_add,
      String.append_assoc]

theorem map_line_textLines (style : Style) (more depth : Nat) (text : String) :
    (textLines style depth text).map (line style more) = textLines style (more + depth) text := by
  rw [textLines, textLines, List.map_map]
  exact List.map_congr_left fun content _ => line_line style more depth content

theorem map_line_leafLines (style : Style) (more depth : Nat) (element : Element) :
    (leafLines style depth element).map (line style more) =
      leafLines style (more + depth) element := by
  unfold leafLines
  dsimp only
  split
  · rw [List.map_append, List.map_cons, List.map_singleton, map_line_textLines, line_line, line_line,
      Nat.add_assoc]
  · rw [List.map_singleton, line_line]

mutual

theorem map_line_treeLines (style : Style) (more depth : Nat) :
    (tree : Tree Element) →
      (treeLines style depth tree).map (line style more) = treeLines style (more + depth) tree
  | .node element children => by
    cases filled : TagName.isVoid element.tag with
    | true => rw [treeLines_void filled, treeLines_void filled, List.map_singleton, line_line]
    | false =>
      by_cases leaf : children = []
      · rw [leaf, treeLines_leaf filled, treeLines_leaf filled, map_line_leafLines]
      · rw [treeLines_inner filled leaf, treeLines_inner filled leaf, List.map_append, List.map_cons,
          List.map_append, List.map_singleton, map_line_textLines, line_line, line_line,
          map_line_forestLines style more (depth + 1) children, Nat.add_assoc]

/-- Whatever stands on some levels stands on more of them with each of its lines indented. -/
theorem map_line_forestLines (style : Style) (more depth : Nat) :
    (forest : List (Tree Element)) →
      (forestLines style depth forest).map (line style more) =
        forestLines style (more + depth) forest
  | [] => rfl
  | first :: rest => by
    rw [forestLines, forestLines, List.map_append, map_line_treeLines style more depth first,
      map_line_forestLines style more depth rest]

end

end Layout

/-- Markup behind other markup starts on a line of its own. -/
theorem render_append {style : Style} {front back : Markup} (some : front ≠ []) (more : back ≠ []) :
    render style (front ++ back) = render style front ++ "\n" ++ render style back := by
  rw [render, Layout.forestLines_append, String.intercalate_append_of_ne_nil
    (Layout.forestLines_ne_nil some) (Layout.forestLines_ne_nil more), ← render, ← render]

open Layout in
/-- Markup is laid out from the inside to the outside.  On any level an element has the lines that it has
on the outermost one, each indented by the level; an element with children has the lines of its text and
of its children between its tags, each indented by one level; and a forest is written behind another on
lines of its own. -/
theorem render_compositional (style : Style) :
    (∀ depth tree, treeLines style depth tree = (treeLines style 0 tree).map (line style depth)) ∧
      (∀ element children, TagName.isVoid element.tag = false → children ≠ [] →
        treeLines style 0 (.node element children) =
          (opening element ++ ">") ::
            (Text.lines (element.text.getD "") ++ children.flatMap (treeLines style 0)).map
              (line style 1) ++ [closing element]) ∧
        ∀ front back, front ≠ [] → back ≠ [] →
          render style (front ++ back) = render style front ++ "\n" ++ render style back := by
  refine ⟨fun depth tree => ?_, fun element children filled inner => ?_,
    fun front back => render_append⟩
  · exact (map_line_treeLines style depth 0 tree).symm
  · rw [treeLines_inner filled inner, line_zero, line_zero, List.map_append,
      ← forestLines_eq_flatMap, map_line_forestLines style 1 0 children]
    rfl

open Layout in
/-- An empty line in a text, below an element and beside another. -/
theorem render_compositional_empty :
    let item : Tree Element := .node { tag := "li", text := some "a\n\nb" } []
    let void : Tree Element := .node { tag := "br" } []
    treeLines {} 1 item = (treeLines {} 0 item).map (line {} 1) ∧
      treeLines {} 0 item = ["<li>", "  a", "", "  b", "</li>"] ∧
        treeLines {} 0 (.node { tag := "ul", text := some "x" } [item, void]) =
          "<ul>" :: (["x"] ++ ["<li>", "  a", "", "  b", "</li>", "<br>"]).map (line {} 1) ++
            ["</ul>"] ∧
          render {} ([item] ++ [void]) = render {} [item] ++ "\n" ++ render {} [void] := by
  intro item void
  obtain ⟨deeper, inner, joined⟩ := render_compositional {}
  have shown : treeLines {} 0 item = ["<li>", "  a", "", "  b", "</li>"] := by decide +kernel
  have between := inner { tag := "ul", text := some "x" } [item, void] (by decide +kernel) (by simp)
  have opens : opening { tag := "ul", text := some "x" } ++ ">" = "<ul>" := by decide +kernel
  have closes : closing { tag := "ul", text := some "x" } = "</ul>" := by decide +kernel
  have below : Text.lines "x" ++ [item, void].flatMap (treeLines {} 0) =
      ["x"] ++ ["<li>", "  a", "", "  b", "</li>", "<br>"] := by decide +kernel
  refine ⟨deeper 1 item, shown, ?_, joined [item] [void] (by simp) (by simp)⟩
  rw [between, opens, closes, Option.getD_some, below]

end Shorthand
