import ProjectIndex.Scan.Indexer
import ProjectIndex.Store.Facts

/-! Indexers that keep what they find in one store, or in two stores written one after the other. -/
namespace ProjectIndex

namespace Outcome

variable {σ : Type}

def andThen (o : Outcome σ) (next : σ → Outcome σ) : Outcome σ :=
  match o with
  | (s, none) => next s
  | (s, some e) => (s, some e)

def ofExcept (s : σ) : Except Failure σ → Outcome σ
  | .ok s => (s, none)
  | .error e => (s, some e)

end Outcome

/-- Two stores that belong to one indexer. -/
structure StorePair (α β : Type) where
  first : FactStore α
  second : FactStore β
deriving DecidableEq, Inhabited, Repr

namespace StorePair

variable {α β : Type}

def inFirst (op : FactStore α → Except Failure (FactStore α)) (p : StorePair α β) :
    Outcome (StorePair α β) :=
  Outcome.ofExcept p ((op p.first).map fun s => { p with first := s })

def inSecond (op : FactStore β → Except Failure (FactStore β)) (p : StorePair α β) :
    Outcome (StorePair α β) :=
  Outcome.ofExcept p ((op p.second).map fun s => { p with second := s })

def save (p : StorePair α β) (file : Path) (facts : FileFacts α × FileFacts β) :
    Outcome (StorePair α β) :=
  (p.inFirst (·.save [(file, facts.1)])).andThen fun p => p.inSecond (·.save [(file, facts.2)])

def deleteFiles (p : StorePair α β) (files : List Path) : Outcome (StorePair α β) :=
  (p.inFirst (·.deleteFiles files)).andThen fun p => p.inSecond (·.deleteFiles files)

def clear (p : StorePair α β) : Outcome (StorePair α β) :=
  (p.inFirst (·.clear)).andThen fun p => p.inSecond (·.clear)

def close (p : StorePair α β) : Outcome (StorePair α β) :=
  ({ first := p.first.close, second := p.second.close }, none)

def indexer (id : String) (accepts : Path → Bool)
    (save : FileTree → Path → SyntaxTree → Source → StorePair α β → Outcome (StorePair α β)) :
    Indexer (StorePair α β) where
  id
  accepts
  index env p tree src s := if accepts p then save env.files p tree src s else (s, none)
  removed _ ps s := s.deleteFiles ps
  clear _ s := s.clear
  close _ s := s.close

end StorePair

namespace FactStore

variable {α : Type}

def indexer (id : String) (accepts : Path → Bool)
    (extract : FileTree → Path → SyntaxTree → Source → Except Failure (FileFacts α)) :
    Indexer (FactStore α) where
  id
  accepts
  index env p tree src s :=
    if accepts p then
      match extract env.files p tree src with
      | .ok facts => Outcome.ofExcept s (s.save [(p, facts)])
      | .error e => (s, some e)
    else (s, none)
  removed _ ps s := Outcome.ofExcept s (s.deleteFiles ps)
  clear _ s := Outcome.ofExcept s s.clear
  close _ s := (s.close, none)

end FactStore
end ProjectIndex
