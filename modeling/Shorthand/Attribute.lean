/-! # Attributes

An attribute is a name with a value, or a bare name.  Lists of attributes keep the order in which
names were first written.
-/
namespace Shorthand

structure Attribute where
  name : String
  /-- Absent for a bare name such as `disabled`. -/
  value : Option String
deriving DecidableEq, Repr, Inhabited

namespace Attribute

/-- Puts an attribute into a list: a name that is there already keeps its place and takes the new
value, a new name goes to the end. -/
def put (new : Attribute) : List Attribute → List Attribute
  | [] => [new]
  | old :: rest => if old.name = new.name then new :: rest else old :: put new rest

def find? (name : String) (entries : List Attribute) : Option Attribute :=
  entries.find? (·.name = name)

end Attribute

end Shorthand
