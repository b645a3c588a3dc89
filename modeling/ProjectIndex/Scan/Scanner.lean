import ProjectIndex.Digest.Sha256
import ProjectIndex.Files.Walk
import ProjectIndex.Grammar.Parse
import ProjectIndex.Scan.Indexer
import ProjectIndex.Store.Hashes

/-!
The scanner brings the facts of its indexers in step with the files of a project. It hashes each
file, parses those whose content changed, and hands each tree to every indexer that accepts the
path, in the order of the paths and of the registrations. A file for which some indexer failed is
recorded with the retry mark. Files that are gone, or have grown too large, lose their facts.
-/
namespace ProjectIndex

structure ScanOptions where
  maxFileSize : Nat := 2097152
  /-- How many files may be prepared at a time; results do not depend on it. -/
  workers : Nat := 4
  chunkSize : Nat := 50
  extraSkipNames : List String := []
  followLinks : Bool := false
deriving DecidableEq, Inhabited, Repr

structure ScanReport where
  seen : Nat := 0
  indexed : Nat := 0
  unchanged : Nat := 0
  removed : Nat := 0
  /-- Files passed over for their size, or because they cannot be read. -/
  skipped : Nat := 0
  failed : Nat := 0
deriving DecidableEq, Inhabited, Repr

structure Moment where
  files : FileTree
  now : Timestamp
deriving Inhabited

structure Scanner (σ : Type) where
  root : Path
  options : ScanOptions
  indexers : List (Indexer σ)
  hashes : HashTable
  facts : σ
  closed : Bool

inductive Prepared where
  | unchanged
  | missing
  | skipped
  | oversized
  | changed (hash : String) (src : Source) (tree : Except Failure SyntaxTree)

/-- A way to get the files of a chunk prepared. -/
abbrev Preparer (σ : Type) := Scanner σ → FileTree → List Path → List (Path × Prepared)

def chunksOf {α : Type} (n : Nat) : List α → List (List α)
  | [] => []
  | a :: l => (a :: l.take n) :: chunksOf n (l.drop n)
termination_by l => l.length
decreasing_by simp only [List.length_drop, List.length_cons]; omega

namespace Scanner

variable {σ : Type}

def state (s : Scanner σ) : ScanState := if s.closed then .closed else .idle

def skipNames (s : Scanner σ) : SkipNames := ⟨s.options.extraSkipNames⟩

def isIndexable (s : Scanner σ) (p : Path) : Bool :=
  (FileType.ofPath? p).isSome && !s.skipNames.excludes s.root p

def resolve (s : Scanner σ) (p : Path) : Path := if p.isAbsolute then p else s.root.join p

def walk (s : Scanner σ) (files : FileTree) : List Path :=
  (files.walk s.root s.skipNames s.options.followLinks).map FoundFile.path

def prepare (s : Scanner σ) (files : FileTree) (p : Path) : Prepared :=
  match files.find p with
  | .error .notFound => .missing
  | .error _ => .skipped
  | .ok (.file bytes) =>
    if s.options.maxFileSize < bytes.length then .oversized
    else
      let hash := Digest.sha256 bytes
      if (s.hashes.hashOf p).toOption == some (some hash) then .unchanged
      else
        let src := Text.decodeLossy bytes
        .changed hash src (parsePath p src)
  | .ok _ => .skipped

def prepared : Preparer σ := fun s files ps => ps.map fun p => (p, s.prepare files p)

def callEach (call : Indexer σ → σ → Outcome σ) : List (Indexer σ) → σ → σ × Nat
  | [], facts => (facts, 0)
  | i :: is, facts =>
    let o := call i facts
    let r := callEach call is o.1
    (r.1, (if o.2.isSome then 1 else 0) + r.2)

def callUntilFailure (call : Indexer σ → σ → Outcome σ) : List (Indexer σ) → σ → Outcome σ
  | [], facts => (facts, none)
  | i :: is, facts =>
    match call i facts with
    | (facts, none) => callUntilFailure call is facts
    | (facts, some e) => (facts, some e)

def callAll (call : Indexer σ → σ → Outcome σ) : List (Indexer σ) → σ → Outcome σ
  | [], facts => (facts, none)
  | i :: is, facts =>
    let o := call i facts
    let r := callAll call is o.1
    (r.1, o.2.or r.2)

/-- Hands a changed file to the indexers that accept it. A file that cannot be parsed loses its
facts. -/
def offer (s : Scanner σ) (env : Surroundings) (p : Path) (src : Source)
    (tree : Except Failure SyntaxTree) (facts : σ) : σ × Nat :=
  let accepting := s.indexers.filter fun i => i.accepts p
  match tree with
  | .ok t => callEach (fun i => i.index env p t src) accepting facts
  | .error _ => callEach (fun i => i.removed env [p]) accepting facts

structure Dispatch (σ : Type) where
  facts : σ
  report : ScanReport
  tracked : List TrackedFile
  dropped : List Path

def dispatch (s : Scanner σ) (env : Surroundings) (now : Timestamp) (d : Dispatch σ)
    (file : Path × Prepared) : Dispatch σ :=
  let r := { d.report with seen := d.report.seen + 1 }
  match file.2 with
  | .unchanged => { d with report := { r with unchanged := r.unchanged + 1 } }
  | .skipped => { d with report := { r with skipped := r.skipped + 1 } }
  | .missing => { d with report := r, dropped := d.dropped ++ [file.1] }
  | .oversized =>
    { d with
      report := { r with skipped := r.skipped + 1 }
      dropped := if (s.hashes.find? file.1).isSome then d.dropped ++ [file.1] else d.dropped }
  | .changed hash src tree =>
    let (facts, failed) := s.offer env file.1 src tree d.facts
    { d with
      facts
      report := { r with indexed := r.indexed + 1, failed := r.failed + failed }
      tracked := d.tracked ++ [⟨file.1, if failed = 0 then hash else retryHash, now⟩] }

def dispatchRemoval (s : Scanner σ) (env : Surroundings) (ps : List Path) (r : ScanReport) :
    Scanner σ × Except Failure ScanReport :=
  let (facts, failed) := callEach (fun i => i.removed env ps) s.indexers s.facts
  match s.hashes.remove ps with
  | .error e => ({ s with facts }, .error e)
  | .ok hashes =>
    ({ s with facts, hashes },
      .ok { r with removed := r.removed + ps.length, failed := r.failed + failed })

def processChunk (s : Scanner σ) (env : Surroundings) (now : Timestamp) (ps : List Path)
    (r : ScanReport) (pool : Preparer σ := prepared) : Scanner σ × Except Failure ScanReport :=
  let d := (pool s env.files ps).foldl (s.dispatch env now) ⟨s.facts, r, [], []⟩
  match s.hashes.save d.tracked with
  | .error e => ({ s with facts := d.facts }, .error e)
  | .ok hashes =>
    let s := { s with facts := d.facts, hashes }
    if d.dropped.isEmpty then (s, .ok d.report) else s.dispatchRemoval env d.dropped d.report

def processChunks (env : Surroundings) (now : Timestamp) (chunks : List (List Path))
    (s : Scanner σ) (r : ScanReport) (pool : Preparer σ := prepared) :
    Scanner σ × Except Failure ScanReport :=
  match chunks with
  | [] => (s, .ok r)
  | c :: cs =>
    match s.processChunk env now c r pool with
    | (s, .ok r) => processChunks env now cs s r pool
    | (s, .error e) => (s, .error e)

def process (s : Scanner σ) (env : Surroundings) (now : Timestamp) (ps : List Path)
    (r : ScanReport) (pool : Preparer σ := prepared) : Scanner σ × Except Failure ScanReport :=
  processChunks env now (chunksOf (s.options.chunkSize - 1) ps) s r pool

/-- Clears every indexer, then the hashes. A failure leaves the rest as it was. -/
def clearAll (s : Scanner σ) (env : Surroundings) : Scanner σ × Except Failure Unit :=
  match callUntilFailure (fun i => i.clear env) s.indexers s.facts with
  | (facts, some e) => ({ s with facts }, .error e)
  | (facts, none) =>
    match s.hashes.clear with
    | .error e => ({ s with facts }, .error e)
    | .ok hashes => ({ s with facts, hashes }, .ok ())

/-- The tracked paths that a walk did not find. They come back from the table as text, so that none of
them equals a walked path that is no text. -/
def goneFrom (files : FileTree) (tracked present : List Path) : List Path :=
  tracked.filter fun p => !present.any fun q => files.isText q && Path.same p q

def synchronize (s : Scanner σ) (env : Surroundings) (now : Timestamp)
    (pool : Preparer σ := prepared) : Scanner σ × Except Failure ScanReport :=
  let present := s.walk env.files
  match s.hashes.paths with
  | .error e => (s, .error e)
  | .ok tracked =>
    let gone := goneFrom env.files tracked present
    if gone.isEmpty then s.process env now present {} pool
    else
      match s.dispatchRemoval env gone {} with
      | (s, .error e) => (s, .error e)
      | (s, .ok r) => s.process env now present r pool

def closedError : Failure := .closed "scanner"

def indexAll (s : Scanner σ) (m : Moment) (force : Bool) (pool : Preparer σ := prepared) :
    Scanner σ × Except Failure ScanReport :=
  if s.closed then (s, .error closedError)
  else
    let env : Surroundings := ⟨m.files, .scanning true⟩
    if force then
      match s.clearAll env with
      | (s, .error e) => (s, .error e)
      | (s, .ok ()) => s.synchronize env m.now pool
    else s.synchronize env m.now pool

def requested (s : Scanner σ) (ps : List Path) : List Path :=
  Path.dedup (Path.sort ((ps.map s.resolve).filter s.isIndexable))

/-- Indexes the given files. Those that do not exist are removed. -/
def indexFiles (s : Scanner σ) (m : Moment) (ps : List Path) (pool : Preparer σ := prepared) :
    Scanner σ × Except Failure ScanReport :=
  if s.closed then (s, .error closedError)
  else s.process ⟨m.files, .scanning false⟩ m.now (s.requested ps) {} pool

def removeFiles (s : Scanner σ) (m : Moment) (ps : List Path) :
    Scanner σ × Except Failure ScanReport :=
  if s.closed then (s, .error closedError)
  else s.dispatchRemoval ⟨m.files, .scanning false⟩ (ps.map s.resolve) {}

def clearHashes (s : Scanner σ) (m : Moment) : Scanner σ × Except Failure Unit :=
  if s.closed then (s, .error closedError) else s.clearAll ⟨m.files, .idle⟩

/-- Closes the indexers and the hash table; a second time does nothing. -/
def close (s : Scanner σ) (m : Moment) : Scanner σ × Except Failure Unit :=
  if s.closed then (s, .ok ())
  else
    let (facts, failure) := callAll (fun i => i.close ⟨m.files, .closed⟩) s.indexers s.facts
    ({ s with facts, hashes := s.hashes.close, closed := true },
      match failure with
      | none => .ok ()
      | some e => .error e)

def tracked (s : Scanner σ) (p : Path) : Except Failure (Option TrackedFile) :=
  s.hashes.get (s.resolve p)

def open? (files : FileTree) (root : Path) (options : ScanOptions) (indexers : List (Indexer σ))
    (hashes : HashTable) (facts : σ) : Except Failure (Scanner σ) :=
  match files.canonical? root with
  | .ok root => .ok ⟨root, options, indexers, hashes.reopen, facts, false⟩
  | .error _ => .error (.notFound root)

end Scanner
end ProjectIndex
