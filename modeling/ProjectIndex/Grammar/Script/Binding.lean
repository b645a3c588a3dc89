import ProjectIndex.Grammar.Script.Type

/-! What declarations, parameters and assignments bind: names, and objects and arrays taken apart. -/
namespace ProjectIndex.Script

open Reader

namespace Readers

def withDefault (kind : String) (bound : Reader Shape) (r : Readers) : Reader Shape := do
  let b ← bound
  let default ← maybe r.initializer
  return if default.isEmpty then b else .spanning kind (b :: default)

def restPattern (r : Readers) : Reader Shape :=
  node "rest_pattern" do return [← mark "...", ← r.target]

def objectBindingMember (r : Readers) : Reader Shape :=
  r.restPattern
  <|> (node "pair_pattern" do
    return [← r.propertyName, ← mark ":",
      ← r.restPattern <|> withDefault "assignment_pattern" r.target r])
  <|> withDefault "object_assignment_pattern" (nameAs "shorthand_property_identifier_pattern") r

def arrayBindingElement (r : Readers) : Reader Shape :=
  r.restPattern <|> withDefault "assignment_pattern" r.target r

def destructured (r : Readers) : Reader Shape :=
  bracketed "object_pattern" "\x7b" r.objectBindingMember "\x7d"
  <|> bracketed "array_pattern" "[" r.arrayBindingElement "]"

def binding (r : Readers) : Reader Shape := identifier <|> r.destructured

end Readers
end ProjectIndex.Script
