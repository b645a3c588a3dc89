import ProjectIndex.Domain.Components.Record

/-!
Several registrations of one component as one record. Pairwise from the left, the one with more props
wins; with as many, one with a definition path wins over one without; otherwise the earlier one. What
the winner leaves empty is taken from the other.
-/
namespace ProjectIndex.Component

def orElseList {α : Type} (xs ys : List α) : List α := if xs.isEmpty then ys else xs

/-- Fills the empty fields of `preferred`. -/
def backfill (preferred fallback : Component) : Component :=
  { preferred with
    parentName := preferred.parentName.or fallback.parentName
    importPath := preferred.importPath.or fallback.importPath
    definitionPath := preferred.definitionPath.or fallback.definitionPath
    props := orElseList preferred.props fallback.props
    emits := orElseList preferred.emits fallback.emits
    methods := orElseList preferred.methods fallback.methods
    computed := orElseList preferred.computed fallback.computed
    slots := orElseList preferred.slots fallback.slots
    blocks := orElseList preferred.blocks fallback.blocks
    templatePath := preferred.templatePath.or fallback.templatePath }

def mergePair (best next : Component) : Component :=
  if best.props.length < next.props.length then backfill next best
  else if next.props.length < best.props.length then backfill best next
  else if next.definitionPath.isSome && best.definitionPath.isNone then backfill next best
  else backfill best next

def merge? : List Component → Option Component
  | [] => none
  | c :: cs => some (cs.foldl mergePair c)

end ProjectIndex.Component
