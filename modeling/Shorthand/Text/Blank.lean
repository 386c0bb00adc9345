/-! # Blanks, words and lines

A blank is a character with the White_Space property.  Words are the maximal runs of other
characters; lines end at a line feed, together with one carriage return in front of it.
-/
namespace Shorthand.Text

def isBlank (c : Char) : Bool :=
  let n := c.toNat
  (0x09 ≤ n && n ≤ 0x0d) || n == 0x20 || n == 0x85 || n == 0xa0 || n == 0x1680 ||
    (0x2000 ≤ n && n ≤ 0x200a) || n == 0x2028 || n == 0x2029 || n == 0x202f || n == 0x205f ||
    n == 0x3000

theorem isBlank_of_isWhitespace {c : Char} (h : c.isWhitespace = true) : isBlank c = true := by
  simp only [Char.isWhitespace, Bool.or_eq_true, decide_eq_true_eq] at h
  rcases h with ((rfl | rfl) | rfl) | rfl <;> decide

def words (text : String) : List String :=
  ((text.toList.splitOnP isBlank).filter (!·.isEmpty)).map String.ofList

def trim (text : String) : String :=
  String.ofList ((text.toList.dropWhile isBlank).reverse.dropWhile isBlank).reverse

/-- Drops one carriage return at the end. -/
def chomp : List Char → List Char
  | [] => []
  | ['\r'] => []
  | c :: rest => c :: chomp rest

/-- Every piece but the last was ended by a line feed; an empty last piece is no line. -/
def ofPieces : List (List Char) → List (List Char)
  | [] => []
  | [last] => if last.isEmpty then [] else [last]
  | piece :: rest => chomp piece :: ofPieces rest

def lines (text : String) : List String :=
  (ofPieces (text.toList.splitOnP (· == '\n'))).map String.ofList

end Shorthand.Text
