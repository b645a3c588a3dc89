import ProjectIndex.CommandLine.Arguments
import ProjectIndex.CommandLine.Json
import ProjectIndex.Engine.Basic

/-!
The commands: each opens the engine of the project, asks it or has it index, and shuts it down. What
a command prints before it fails is kept. What it prints may tell how long it took, which is known
only afterwards.
-/
namespace ProjectIndex.CommandLine

structure Output where
  code : Nat
  out : String
  err : String
deriving DecidableEq, Inhabited, Repr

/-- The lines printed by a command that took some milliseconds, and the causes of its failure,
outermost first. -/
structure Printed where
  lines : Nat → List String
  failure : List String := []

namespace Printed

def ok (lines : List String) : Printed := { lines := fun _ => lines }

def failed (causes : List String) : Printed := ⟨fun _ => [], causes⟩

def ofExcept {α : Type} (r : Except Failure α) (f : α → Printed) : Printed :=
  match r with
  | .ok a => f a
  | .error cause => failed [cause.message]

def hanging (columns : Nat) (text : String) : String :=
  String.ofList (Text.joinWith ('\n' :: List.replicate columns ' ') (Text.splitOn '\n' text.toList))

def errorText : List String → String
  | [] => ""
  | [what] => "Error: " ++ what ++ "\n"
  | [what, cause] => "Error: " ++ what ++ "\n\nCaused by:\n    " ++ hanging 4 cause ++ "\n"
  | what :: causes =>
    "Error: " ++ what ++ "\n\nCaused by:\n" ++
      String.join (causes.zipIdx.map fun c =>
        "    " ++ toString c.2 ++ ": " ++ hanging 7 c.1 ++ "\n")

def output (p : Printed) (elapsedMs : Nat) : Output where
  code := if p.failure.isEmpty then 0 else 1
  out := String.join ((p.lines elapsedMs).map (· ++ "\n"))
  err := errorText p.failure

end Printed

def programVersion : String := "0.1.0"

def indexLines (root : Path) (r : ScanReport) (elapsedMs : Nat) : List String :=
  ["✓ Indexed " ++ root.toString, "", "  Seen:       " ++ toString r.seen,
    "  Indexed:    " ++ toString r.indexed, "  Unchanged:  " ++ toString r.unchanged,
    "  Removed:    " ++ toString r.removed] ++
  (if r.failed > 0 then ["  Failed:     " ++ toString r.failed] else []) ++
  ["  Duration:   " ++ toString elapsedMs ++ "ms"]

def statusLines (e : Engine) (tracked : Nat) : List String :=
  ["Loupe v" ++ programVersion, "", "  Project:    " ++ e.root.toString,
    "  Cache:      " ++ e.cacheDir.toString, "  Files:      " ++ toString tracked ++ " tracked",
    "  Indexers:   " ++ ", ".intercalate (e.scanner.indexers.map (·.id))] ++
  (if e.needsRebuild then ["", "  Index is empty or outdated. Run: loupe index"] else [])

def component (f : Facts) (name : String) : Printed :=
  Printed.ofExcept (Components.resolve f.components name) fun
    | some c => .ok [String.ofList ((JsonValue.ofComponent c).pretty 0)]
    | none => .failed ["Component '" ++ name ++ "' is not indexed"]

def drift (w : Workspace) (f : Facts) (template : Path) : Printed :=
  match w.files.canonical? (w.absolute template) with
  | .error cause => .failed ["Template not found: " ++ template.toString, cause.message]
  | .ok p =>
    match w.files.readText p with
    | .error cause => .failed ["Failed to read " ++ p.toString, cause.message]
    | .ok src =>
      Printed.ofExcept (Templates.checkDrift f.templates p src) fun ds =>
        if ds.isEmpty then .ok ["✓ No drift in " ++ p.toString]
        else
          ⟨fun _ => ds.map fun d => p.toString ++ ":" ++ toString d.line ++ ": " ++ d.message,
            [toString ds.length ++ " block(s) need attention"]⟩

def keysOf (f : Facts) : KeyStore → Except Failure (List String)
  | .services => f.services.first.allKeys
  | .components => f.components.first.allKeys
  | .templates => f.templates.first.allKeys
  | .blocks => f.templates.second.allKeys
  | .snippets => f.snippets.first.allKeys
  | .adminSnippets => f.snippets.second.allKeys
  | .theme => f.theme.allKeys
  | .systemConfig => f.systemConfig.allKeys
  | .extensions => f.extensions.allKeys

def execute (w : Workspace) (e : Engine) : Command → Engine × Printed
  | .index force =>
    let (e, report, _) := e.indexAll w.moment (force || e.needsRebuild)
    (e, Printed.ofExcept report fun r => { lines := indexLines e.root r })
  | .components name => (e, component e.scanner.facts name)
  | .drift template => (e, drift w e.scanner.facts template)
  | .keys store => (e, Printed.ofExcept (keysOf e.scanner.facts store) .ok)
  | .status => (e, Printed.ofExcept e.scanner.hashes.size fun n => .ok (statusLines e n))

def usage : String :=
  "Usage: loupe [-p PROJECT] <index [-f] | components NAME | drift TEMPLATE | keys STORE | status>\n"

def run (w : Workspace) (args : List String) (env : List (String × String)) :
    Workspace × (Nat → Output) :=
  match request? args with
  | none => (w, fun _ => ⟨2, "", usage⟩)
  | some .help => (w, fun _ => ⟨0, usage, ""⟩)
  | some .version => (w, fun _ => ⟨0, "loupe " ++ programVersion ++ "\n", ""⟩)
  | some (.run project command) =>
    match w.openEngine project (w.settings project env) with
    | (w, .error cause) =>
      (w, (Printed.failed
        ["Failed to open index for " ++ project.toString, cause.message]).output)
    | (w, .ok e) =>
      let (e, printed) := execute w e command
      let (e, closed) := e.shutdown w.moment
      (w.persist e,
        (match closed with
        | .ok () => printed
        | .error cause => ⟨printed.lines, ["Failed to close index", cause.message]⟩).output)

end ProjectIndex.CommandLine
