import ProjectIndex.Path.Basic

/-!
The arguments of the command line. Options may stand before or behind the words they belong to, short
ones may share a dash, and everything behind `--` is a word. An option may be given once; the project
may be named once before the command and once behind it, and the latter counts.
-/
namespace ProjectIndex.CommandLine

inductive KeyStore where
  | services
  | components
  | templates
  | blocks
  | snippets
  | adminSnippets
  | theme
  | systemConfig
  | extensions
deriving DecidableEq, Inhabited, Repr

def KeyStore.ofName? : String → Option KeyStore
  | "services" => some .services
  | "components" => some .components
  | "templates" => some .templates
  | "blocks" => some .blocks
  | "snippets" => some .snippets
  | "admin-snippets" => some .adminSnippets
  | "theme" => some .theme
  | "system-config" => some .systemConfig
  | "extensions" => some .extensions
  | _ => none

inductive Command where
  | index (force : Bool)
  | components (name : String)
  | drift (template : Path)
  | keys (store : KeyStore)
  | status
deriving DecidableEq, Inhabited, Repr

inductive Request where
  | version
  | help
  | run (project : Path) (command : Command)
deriving DecidableEq, Inhabited, Repr

structure Reading where
  command : Option String := none
  outerProject : Option String := none
  innerProject : Option String := none
  force : Bool := false
  words : List String := []
deriving Inhabited, Repr

inductive Progress where
  | more (r : Reading)
  | project (r : Reading)
  | done (request : Request)

namespace Reading

def commandNames : List String := ["index", "components", "drift", "keys", "status"]

/-- Names the project, where it has not been named yet. The empty path is refused. -/
def withProject (r : Reading) (value : String) : Option Reading :=
  if value.isEmpty then none
  else if r.command.isNone then
    if r.outerProject.isSome then none else some { r with outerProject := some value }
  else if r.innerProject.isSome then none
  else some { r with innerProject := some value }

def withForce (r : Reading) : Option Reading :=
  if r.command == some "index" && !r.force then some { r with force := true } else none

def withWord (r : Reading) (word : String) : Option Reading :=
  match r.command with
  | none => if commandNames.contains word then some { r with command := some word } else none
  | some c =>
    if ["components", "drift", "keys"].contains c && r.words.isEmpty then
      some { r with words := [word] }
    else none

def withLong (r : Reading) (name : String) (value : Option String) : Option Progress :=
  match name, value with
  | "project", some v => (r.withProject v).map .more
  | "project", none => some (.project r)
  | "force", none => r.withForce.map .more
  | "version", none => if r.command.isNone then some (.done .version) else none
  | "help", none => some (.done .help)
  | _, _ => none

/-- Options that share a dash; the project takes what is left of them. -/
def withShort (r : Reading) : List Char → Option Progress
  | [] => some (.more r)
  | 'p' :: rest =>
    if rest.isEmpty then some (.project r)
    else (r.withProject (String.ofList ((Text.dropStart? ['='] rest).getD rest))).map .more
  | 'f' :: rest => r.withForce.bind fun r => withShort r rest
  | 'V' :: _ => if r.command.isNone then some (.done .version) else none
  | 'h' :: _ => some (.done .help)
  | _ :: _ => none

def isOption (a : String) : Bool := 1 < a.length && a.toList.head? == some '-'

def withArgument (r : Reading) (a : String) : Option Progress :=
  match Text.dropStart? ['-', '-'] a.toList with
  | some long =>
    match Text.splitAtFirst ['='] long with
    | some (name, value) => r.withLong (String.ofList name) (some (String.ofList value))
    | none => r.withLong (String.ofList long) none
  | none =>
    if isOption a then r.withShort (a.toList.drop 1) else (r.withWord a).map .more

/-- The command that was read, with exactly the words it needs. -/
def command? (r : Reading) : Option Command :=
  match r.command, r.words with
  | some "index", [] => some (.index r.force)
  | some "components", [name] => some (.components name)
  | some "drift", [template] =>
    if template.isEmpty then none else some (.drift (Path.ofString template))
  | some "keys", [store] => (KeyStore.ofName? store).map .keys
  | some "status", [] => some .status
  | _, _ => none

def finish (r : Reading) : Option Request :=
  r.command?.map (.run (Path.ofString ((r.innerProject.or r.outerProject).getD ".")))

def wordsOnly (r : Reading) : List String → Option Request
  | [] => r.finish
  | a :: rest => if r.command.isNone then none else (r.withWord a).bind fun r => wordsOnly r rest

mutual

def arguments (r : Reading) : List String → Option Request
  | [] => r.finish
  | a :: rest =>
    if a == "--" then r.wordsOnly rest
    else
      match r.withArgument a with
      | none => none
      | some (.done request) => some request
      | some (.more r) => arguments r rest
      | some (.project r) => projectThen r rest

def projectThen (r : Reading) : List String → Option Request
  | [] => none
  | a :: rest =>
    if isOption a then none
    else
      match r.withProject a with
      | none => none
      | some r => arguments r rest

end

end Reading

def request? (args : List String) : Option Request := Reading.arguments {} args

end ProjectIndex.CommandLine
