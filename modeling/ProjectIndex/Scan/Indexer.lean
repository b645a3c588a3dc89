import ProjectIndex.Files.Basic
import ProjectIndex.Tree.Basic

/-!
The contract between the scanner and what turns parsed files into facts. An indexer works on a state
of facts; every call returns the state it leaves behind, together with the cause if it failed.
-/
namespace ProjectIndex

inductive ScanState where
  | idle
  | scanning (full : Bool)
  | closed
deriving DecidableEq, Inhabited, Repr

/-- What an indexer can see of the world while it is called. -/
structure Surroundings where
  files : FileTree
  state : ScanState
deriving Inhabited

abbrev Outcome (σ : Type) := σ × Option Failure

structure Indexer (σ : Type) where
  id : String
  accepts : Path → Bool
  /-- Replaces the facts of one file by those of its tree and source. -/
  index : Surroundings → Path → SyntaxTree → Source → σ → Outcome σ
  removed : Surroundings → List Path → σ → Outcome σ
  clear : Surroundings → σ → Outcome σ
  close : Surroundings → σ → Outcome σ

namespace Indexer

variable {σ τ : Type}

def onPart (get : τ → σ) (set : σ → τ → τ) (i : Indexer σ) : Indexer τ where
  id := i.id
  accepts := i.accepts
  index env p tree src t := lift t (i.index env p tree src (get t))
  removed env ps t := lift t (i.removed env ps (get t))
  clear env t := lift t (i.clear env (get t))
  close env t := lift t (i.close env (get t))
where
  lift (t : τ) (o : Outcome σ) : Outcome τ := (set o.1 t, o.2)

end Indexer
end ProjectIndex
