import ProjectIndex.Text.Search

/-! How templates refer to each other: by the path below a bundle's views directory. -/
namespace ProjectIndex.Templates

def viewsDir : List Char := "Resources/views".toList

def dropSlashes (s : List Char) : List Char := s.dropWhile (· == '/')

/-- The path a template is known by: what follows the first views directory, or the whole path. -/
def relativePath (path : List Char) : List Char :=
  match Text.splitAtFirst viewsDir path with
  | some (_, rest) => dropSlashes rest
  | none => dropSlashes path

/-- The directory that owns the last `Resources`, a level `src` passed over. -/
def bundleName (path : List Char) : List Char :=
  let parts := (Text.splitOn '/' path).reverse
  match parts.dropWhile (· != "Resources".toList) with
  | [] => []
  | _ :: above => (above.find? fun p => p != [] && p != "src".toList).getD []

/-- The path a reference means: `@Bundle/a/b` and `/a/b` both stand for `a/b`. -/
def normalizeReference (reference : List Char) : List Char :=
  match reference with
  | '@' :: rest =>
    match Text.splitAtFirst ['/'] rest with
    | some (_, path) => path
    | none => rest
  | _ => dropSlashes reference

end ProjectIndex.Templates
