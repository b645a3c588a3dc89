import ProjectIndex.Domain.Components.Record

/-! Records written as indented JSON. -/
namespace ProjectIndex.CommandLine

inductive JsonValue where
  | null
  | bool (b : Bool)
  | number (n : Nat)
  | string (s : String)
  | array (items : List JsonValue)
  | object (members : List (String × JsonValue))
deriving Inhabited, Repr

namespace JsonValue

def hexDigit (n : Nat) : Char := if n < 10 then Char.ofNat (48 + n) else Char.ofNat (87 + n)

def escaped (c : Char) : List Char :=
  match c with
  | '"' => ['\\', '"']
  | '\\' => ['\\', '\\']
  | '\n' => ['\\', 'n']
  | '\r' => ['\\', 'r']
  | '\t' => ['\\', 't']
  | '\x08' => ['\\', 'b']
  | '\x0c' => ['\\', 'f']
  | c =>
    if c.toNat < 32 then ['\\', 'u', '0', '0', hexDigit (c.toNat / 16), hexDigit (c.toNat % 16)]
    else [c]

def quoted (s : String) : List Char := '"' :: s.toList.flatMap escaped ++ ['"']

def newline (depth : Nat) : List Char := '\n' :: List.replicate (2 * depth) ' '

mutual

def pretty (depth : Nat) : JsonValue → List Char
  | .null => "null".toList
  | .bool b => (if b then "true" else "false").toList
  | .number n => Nat.toDigits 10 n
  | .string s => quoted s
  | .array [] => ['[', ']']
  | .array (v :: vs) =>
    '[' :: newline (depth + 1) ++ pretty (depth + 1) v ++ prettyItems (depth + 1) vs ++
      newline depth ++ [']']
  | .object [] => ['\x7b', '\x7d']
  | .object ((k, v) :: ms) =>
    '\x7b' :: newline (depth + 1) ++ quoted k ++ [':', ' '] ++ pretty (depth + 1) v ++
      prettyMembers (depth + 1) ms ++ newline depth ++ ['\x7d']

def prettyItems (depth : Nat) : List JsonValue → List Char
  | [] => []
  | v :: vs => ',' :: newline depth ++ pretty depth v ++ prettyItems depth vs

def prettyMembers (depth : Nat) : List (String × JsonValue) → List Char
  | [] => []
  | (k, v) :: ms =>
    ',' :: newline depth ++ quoted k ++ [':', ' '] ++ pretty depth v ++ prettyMembers depth ms

end

def ofOption : Option String → JsonValue
  | some s => .string s
  | none => .null

def ofStrings (ss : List String) : JsonValue := .array (ss.map .string)

def ofPlace (p : NamedPlace) : JsonValue := .object [("name", .string p.name), ("line", .number p.line)]

def ofProp (p : ComponentProp) : JsonValue :=
  .object [("name", .string p.name), ("type", ofOption p.propType), ("required", .bool p.required),
    ("default", ofOption p.default), ("line", .number p.line)]

def ofComponent (c : Component) : JsonValue :=
  .object [("name", .string c.name), ("extends_component", ofOption c.parentName),
    ("import_path", ofOption c.importPath), ("file_path", .string c.filePath),
    ("definition_path", ofOption c.definitionPath), ("line", .number c.line),
    ("props", .array (c.props.map ofProp)), ("emits", ofStrings c.emits),
    ("methods", ofStrings c.methods), ("computed", ofStrings c.computed),
    ("slots", .array (c.slots.map ofPlace)), ("blocks", .array (c.blocks.map ofPlace)),
    ("template_path", ofOption c.templatePath)]

end JsonValue
end ProjectIndex.CommandLine
