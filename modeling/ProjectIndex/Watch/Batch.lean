import ProjectIndex.Path.Order
import ProjectIndex.Watch.Change

/-!
Changes gathered until they are worked off. Each place has one entry, at its first change and in its
first spelling. A later change replaces the earlier one, but a deletion is only undone by a creation.
-/
namespace ProjectIndex

structure ChangeBatch where
  changes : List FileChange
deriving DecidableEq, Inhabited, Repr

namespace ChangeBatch

def empty : ChangeBatch := ⟨[]⟩

def size (b : ChangeBatch) : Nat := b.changes.length

def isEmpty (b : ChangeBatch) : Bool := b.changes.isEmpty

def replace (earlier later : ChangeKind) : ChangeKind :=
  match earlier, later with
  | .deleted, .modified => .deleted
  | _, later => later

/-- Updates the first change of the same place, or adds the change. -/
def addTo (c : FileChange) : List FileChange → List FileChange
  | [] => [c]
  | d :: ds =>
    if Path.same d.path c.path then { d with kind := replace d.kind c.kind } :: ds
    else d :: addTo c ds

def add (b : ChangeBatch) (c : FileChange) : ChangeBatch := ⟨addTo c b.changes⟩

/-- Whether the batch may be taken: something changed, and the last batch is long enough ago. -/
def isReady (b : ChangeBatch) (timeoutMs elapsedMs : Nat) : Bool :=
  !b.isEmpty && timeoutMs ≤ elapsedMs

def toIndex (b : ChangeBatch) : List Path :=
  (b.changes.filter fun c => c.kind != .deleted).map FileChange.path

def toRemove (b : ChangeBatch) : List Path :=
  (b.changes.filter fun c => c.kind == .deleted).map FileChange.path

def take (b : ChangeBatch) : (List Path × List Path) × ChangeBatch :=
  ((b.toIndex, b.toRemove), empty)

end ChangeBatch
end ProjectIndex
