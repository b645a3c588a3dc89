import ProjectIndex.Files.Basic
import ProjectIndex.Scan.Scanner
import ProjectIndex.Settings.Yaml.Document
import ProjectIndex.Text.Search

/-!
Settings of a project. They are read from a YAML mapping: a known key given twice, or with a value of
the wrong kind, is an error; unknown keys are passed over; missing keys keep their defaults.
-/
namespace ProjectIndex

structure Settings where
  cacheDir : Option Path := none
  logLevel : String := "info"
  debounceMs : Nat := 200
  maxFileSize : Nat := 2097152
  workers : Nat := 4
  extraSkipNames : List String := []
  watch : Bool := true
deriving DecidableEq, Inhabited, Repr

inductive SettingsError where
  | unreadable (cause : FileError)
  | malformed
deriving DecidableEq, Inhabited, Repr

namespace Yaml

def standardTag (kind : String) : TagName := Scanner.asBytes ("tag:yaml.org,2002:" ++ kind).toList

/-- The text of a scalar that may stand for something else than a text: a plain one, or a literal
block with the tag of that kind. -/
def spelling? (kind : String) : Node Nat → Option (List Char)
  | .scalar _ tag style text =>
    if style == .plain || (style == .literal && tag == some (standardTag kind)) then some text
    else none
  | _ => none

def text? : Node Nat → Option String
  | .scalar _ _ _ text => some (String.ofList text)
  | _ => none

def bool? (n : Node Nat) : Option Bool :=
  match (spelling? "bool" n).map String.ofList with
  | some "true" | some "True" | some "TRUE" => some true
  | some "false" | some "False" | some "FALSE" => some false
  | _ => none

def isNullWord (text : List Char) : Bool :=
  ["~", "null", "Null", "NULL"].contains (String.ofList text)

/-- A value that may be missing, as a plain scalar says that is empty or a word for it. Only one tag
marks a missing value, and then the word must be there. -/
def optional? {α : Type} (value? : Node Nat → Option α) (n : Node Nat) : Option (Option α) :=
  match n with
  | .scalar _ none .plain text =>
    if text.isEmpty || isNullWord text then some none else (value? n).map some
  | .scalar _ (some tag) .plain text =>
    if tag == standardTag "null" then if isNullWord text then some none else none
    else (value? n).map some
  | _ => (value? n).map some

def digit? (radix : Nat) (c : Char) : Option Nat :=
  (hexValue [c]).filter (· < radix)

def digits? (radix : Nat) (s : List Char) : Option Nat :=
  if s.isEmpty then none
  else
    (s.foldl (fun v c => v.bind fun v => (digit? radix c).map fun d => v * radix + d)
      (some 0)).filter (· < 1 <<< 64)

/-- A natural number below 2^64: decimal without leading zeros, or marked as hexadecimal, octal or
binary; a plus sign may stand in front. -/
def number? (n : Node Nat) : Option Nat := do
  let text ← spelling? "int" n
  let s := (Text.dropStart? ['+'] text).getD text
  let marked := fun (mark : String) (radix : Nat) =>
    (Text.dropStart? mark.toList s).bind (digits? radix)
  (marked "0x" 16).or <| (marked "0o" 8).or <| (marked "0b" 2).or <|
    if 1 < s.length && s.head? == some '0' then none else digits? 10 s

def texts? (d : Document) : Node Nat → Option (List String)
  | .list _ items => items.mapM fun n => text? (d.resolve n)
  | .scalar _ _ .plain [] => some []
  | _ => none

end Yaml

namespace Settings

def withPair (s : Settings) (d : Yaml.Document) (key : String) (v : Yaml.Node Nat) :
    Option Settings :=
  match key with
  | "cache_dir" =>
    (Yaml.optional? Yaml.text? v).map fun t => { s with cacheDir := t.map Path.ofString }
  | "log_level" => (Yaml.text? v).map fun t => { s with logLevel := t }
  | "debounce_ms" => (Yaml.number? v).map fun n => { s with debounceMs := n }
  | "max_file_size" => (Yaml.number? v).map fun n => { s with maxFileSize := n }
  | "workers" => (Yaml.number? v).map fun n => { s with workers := n }
  | "extra_skip_dirs" => (Yaml.texts? d v).map fun ts => { s with extraSkipNames := ts }
  | "watch" => (Yaml.bool? v).map fun b => { s with watch := b }
  | _ => some s

def knownKeys : List String :=
  ["cache_dir", "log_level", "debounce_ms", "max_file_size", "workers", "extra_skip_dirs", "watch"]

def withPairs (s : Settings) (d : Yaml.Document) (seen : List String) :
    List (Yaml.Node Nat × Yaml.Node Nat) → Option Settings
  | [] => some s
  | (k, v) :: rest => do
    let key ← Yaml.text? (d.resolve k)
    if seen.contains key then none
    else
      let s ← s.withPair d key (d.resolve v)
      withPairs s d (if knownKeys.contains key then key :: seen else seen) rest

def ofYaml? (d : Yaml.Document) : Option Settings :=
  match d.root with
  | .map _ entries => withPairs {} d [] entries
  | .scalar _ _ .plain [] => some {}
  | _ => none

def parse (src : List Char) : Except SettingsError Settings :=
  match (Yaml.Document.parse? src).bind ofYaml? with
  | some s => .ok s
  | none => .error .malformed

def ofFile (files : FileTree) (p : Path) : Except SettingsError Settings :=
  match files.readText p with
  | .ok src => parse src
  | .error cause => .error (.unreadable cause)

def withEnvironment (s : Settings) (env : List (String × String)) : Settings :=
  let var := fun (name : String) => (env.lookup name).filter fun v => !v.isEmpty
  { s with
    logLevel := (var "LOUPE_LOG").getD s.logLevel
    cacheDir := ((var "LOUPE_CACHE_DIR").map Path.ofString).or s.cacheDir }

/-- The settings of a project: its own file, else the user's, else the defaults. A file that cannot
be read counts as the defaults. -/
def load (files : FileTree) (configDir root : Path) (env : List (String × String)) : Settings :=
  let candidates :=
    [root.join (Path.ofString ".loupe.yaml"), configDir.join (Path.ofString "loupe/config.yaml")]
  let found := match candidates.find? files.doesExist with
    | some p => (ofFile files p).toOption.getD {}
    | none => {}
  found.withEnvironment env

def cacheBase (s : Settings) (cacheHome : Path) : Path :=
  s.cacheDir.getD (cacheHome.join (Path.ofString "loupe"))

def scanOptions (s : Settings) : ScanOptions where
  maxFileSize := s.maxFileSize
  workers := max s.workers 1
  extraSkipNames := s.extraSkipNames

def skipNames (s : Settings) : SkipNames := ⟨s.extraSkipNames⟩

end Settings
end ProjectIndex
