import Mathlib
import ProjectIndex.Proofs.Files.Edits
import ProjectIndex.Proofs.Files.Listing
import ProjectIndex.Proofs.Scan.Steps

/-!
A walk and the filter for single paths take the same files. A walk turns away from a skipped
directory where it meets one; the filter looks at every directory of a path below the root. What a
walk lists is what the filter admits of the files below the root, in the order of their components.
-/
namespace ProjectIndex

namespace Path

theorem compare_eq_lt {p q : Path} (hbefore : before p q = true) (hsame : same p q = false) :
    compare p q = .lt := by
  cases hcompare : compare p q with
  | lt => rfl
  | eq =>
    have hcomponents : List.compareLex Component.compare p.components q.components = .eq := hcompare
    have heq : p.components = q.components := Std.LawfulEqCmp.eq_of_compare hcomponents
    exact absurd (same_iff.2 heq) (by simp [hsame])
  | gt => simp [before, hcompare] at hbefore

end Path

namespace FileTree

variable {place dirs : List Name} {name : Name}

theorem ofPath?_descend (hplace : ∀ n ∈ place, Plain n) (hdirs : ∀ n ∈ dirs, Plain n)
    (hname : Plain name) :
    FileType.ofPath? ((pathOf place).descend (dirs ++ [name])) =
      (Path.cutExtension name).2.bind FileType.ofExtension? := by
  have hall : ∀ n ∈ place ++ dirs, Plain n := fun n hn =>
    (List.mem_append.1 hn).elim (hplace n) (hdirs n)
  rw [descend_pathOf hplace (Walk.plain_snoc hdirs hname), ← List.append_assoc, FileType.ofPath?,
    Path.extension?, fileName?_pathOf hall hname]
  rfl

/-- Of a file below a place, the directories between the two are looked at, and no other name. -/
theorem excludes_below (skip : SkipNames) (hplace : ∀ n ∈ place, Plain n)
    (hdirs : ∀ n ∈ dirs, Plain n) (hname : Plain name) :
    skip.excludes (pathOf place) ((pathOf place).descend (dirs ++ [name])) = false ↔
      ∀ n ∈ dirs, skip.contains (String.ofList n) = false := by
  rw [excludes_descend skip hplace (Walk.plain_snoc hdirs hname), List.dropLast_concat,
    List.any_eq_false]
  simp only [Bool.not_eq_true]

end FileTree

namespace Scanner

open FileTree

variable {σ : Type} {before files : FileTree} {root : Path} {options : ScanOptions}
  {indexers : List (Indexer σ)} {hashes : HashTable} {facts : σ} {s : Scanner σ}

theorem isIndexable_descend {place dirs : List Name} {name : Name} (hroot : s.root = pathOf place)
    (hplace : ∀ n ∈ place, Plain n) (hdirs : ∀ n ∈ dirs, Plain n) (hname : Plain name) :
    s.isIndexable (s.root.descend (dirs ++ [name])) = true ↔
      ((Path.cutExtension name).2.bind FileType.ofExtension?).isSome = true ∧
        ∀ n ∈ dirs, s.skipNames.contains (String.ofList n) = false := by
  rw [isIndexable, hroot, Bool.and_eq_true, Bool.not_eq_true', ofPath?_descend hplace hdirs hname,
    excludes_below s.skipNames hplace hdirs hname]

/-- A walk that passes over links lists the files that stand below the root and are indexable, with
their sizes, in strictly ascending order. Whether a path is indexable is decided by the directories
between the root and the file and by the extension of the file; the names in the root, and the name
of the file as a whole, do not matter. -/
theorem walk_lists_indexable
    (hopen : open? before root options indexers hashes facts = .ok s)
    (hlinks : options.followLinks = false) (hfiles : files.root.isWellNamed = true) :
    (∀ f, f ∈ files.walk s.root s.skipNames s.options.followLinks ↔
      ∃ bytes, files.HoldsFile s.root f.path bytes ∧ f.size = bytes.length ∧
        s.isIndexable f.path = true) ∧
    (s.walk files).Pairwise (fun p q => Path.compare p q = .lt) ∧
    ∀ (dirs : List Name) (name : Name), (∀ n ∈ dirs, Plain n) → Plain name →
      (s.isIndexable (s.root.descend (dirs ++ [name])) = true ↔
        ((Path.cutExtension name).2.bind FileType.ofExtension?).isSome = true ∧
          ∀ n ∈ dirs, s.skipNames.contains (String.ofList n) = false) := by
  obtain ⟨canonical, hcanonical, rfl⟩ := open?_eq_ok hopen
  obtain ⟨place, hplace, rfl⟩ := canonical?_eq_ok hcanonical
  refine ⟨fun f => ?_, ?_, fun dirs name hdirs hname => ?_⟩
  · change f ∈ files.walk (pathOf place) ⟨options.extraSkipNames⟩ options.followLinks ↔ _
    rw [hlinks, mem_walk_iff hfiles hplace]
    simp only [isIndexable, Bool.and_eq_true, Bool.not_eq_true']
    rfl
  · refine (strict_walk hfiles hplace ⟨options.extraSkipNames⟩ options.followLinks).imp ?_
    rintro p q ⟨hbefore, hsame⟩
    exact Path.compare_eq_lt hbefore hsame
  · exact isIndexable_descend rfl hplace hdirs hname

/-- A project in a directory with a skipped name. One directory below it is skipped by default and
one by the extra name, which is also that of a file; a link leads to a directory. -/
def crowdedProject : FileTree where
  root := .dir [("tests".toList, .dir [("p".toList, .dir [
    ("main.js".toList, .file [10]),
    ("a-b.js".toList, .file []),
    ("README.md".toList, .file []),
    ("bin".toList, .dir [("c.js".toList, .file [])]),
    ("l".toList, .link (.ofString "a")),
    ("a".toList, .dir [
      ("main.js".toList, .dir [("d.js".toList, .file [])]),
      ("e.JSON".toList, .file [])])])])]

def crowdedScanner : Scanner Unit where
  root := .ofString "/tests/p"
  options := { extraSkipNames := ["main.js"] }
  indexers := []
  hashes := .new
  facts := ()
  closed := false

theorem walk_lists_indexable_crowded :
    open? crowdedProject (.ofString "/tests/p") { extraSkipNames := ["main.js"] } [] .new () =
        .ok crowdedScanner ∧
      crowdedProject.root.isWellNamed = true ∧
      crowdedProject.walk crowdedScanner.root crowdedScanner.skipNames false =
        [⟨.ofString "/tests/p/a/e.JSON", 0⟩, ⟨.ofString "/tests/p/a-b.js", 0⟩,
          ⟨.ofString "/tests/p/main.js", 1⟩] ∧
      (∃ bytes, crowdedProject.HoldsFile crowdedScanner.root (.ofString "/tests/p/main.js") bytes ∧
        1 = bytes.length ∧ crowdedScanner.isIndexable (.ofString "/tests/p/main.js") = true) ∧
      (crowdedScanner.walk crowdedProject).Pairwise fun p q => Path.compare p q = .lt := by
  have hopen : open? crowdedProject (.ofString "/tests/p") { extraSkipNames := ["main.js"] } [] .new
      () = .ok crowdedScanner := by rfl
  have hnamed : crowdedProject.root.isWellNamed = true := by decide +kernel
  have hfound : crowdedProject.walk crowdedScanner.root crowdedScanner.skipNames false =
      [⟨.ofString "/tests/p/a/e.JSON", 0⟩, ⟨.ofString "/tests/p/a-b.js", 0⟩,
        ⟨.ofString "/tests/p/main.js", 1⟩] := by cbv
  obtain ⟨hmem, hordered, -⟩ := walk_lists_indexable hopen rfl hnamed
  refine ⟨hopen, hnamed, hfound, (hmem ⟨.ofString "/tests/p/main.js", 1⟩).1 ?_, hordered⟩
  change _ ∈ crowdedProject.walk crowdedScanner.root crowdedScanner.skipNames false
  rw [hfound]
  simp

end Scanner
end ProjectIndex
