import ProjectIndex.Domain.Templates.Marker
import ProjectIndex.Domain.Templates.Reference
import ProjectIndex.Proofs.Text.Search

/-!
What an override spells out is read back as it was meant: the hash and the version of a marker, and
the path of a template behind its bundle.
-/
namespace ProjectIndex.Templates

open ProjectIndex.Text

def markerWord : List Char := "shopware-block:".toList

def markerBody (hash version : List Char) : List Char :=
  ' ' :: (markerWord ++ ' ' :: (hash ++ '@' :: (version ++ [' '])))

def markerComment (hash version : List Char) : List Char :=
  ['\x7b', '#'] ++ (markerBody hash version ++ ['#', '\x7d'])

def referenceTo (bundle relative : List Char) : List Char := '@' :: (bundle ++ '/' :: relative)

section Reading

variable {hash version bundle : List Char} {c : Char}

theorem toNat_of_isHashChar (h : isHashChar c = true) : 48 ≤ c.toNat ∧ c.toNat ≤ 102 := by
  simp only [isHashChar, Char.isDigit, Bool.or_eq_true, Bool.and_eq_true, decide_eq_true_eq,
    Char.le_def, UInt32.le_iff_toNat_le] at h
  rcases h with hdigit | hletter
  · change 48 ≤ c.toNat ∧ c.toNat ≤ 57 at hdigit
    omega
  · change 97 ≤ c.toNat ∧ c.toNat ≤ 102 at hletter
    omega

theorem isBlank_of_isHashChar (h : isHashChar c = true) : isBlank c = false := by
  have hrange := toNat_of_isHashChar h
  simp only [isBlank, Bool.or_eq_false_iff, Bool.and_eq_false_iff, decide_eq_false_iff_not,
    beq_eq_false_iff_ne]
  omega

theorem toList_formatMarker (hash version : String) :
    (formatMarker hash version).toList = markerComment hash.toList version.toList ++ ['\n'] := by
  have hopening : "\x7b# shopware-block: ".toList = ['\x7b', '#', ' '] ++ (markerWord ++ [' ']) := by
    decide
  have hat : "@".toList = ['@'] := by decide
  have hclosing : " #\x7d\n".toList = [' ', '#', '\x7d', '\n'] := by decide
  unfold formatMarker
  rw [String.toList_append, String.toList_append, String.toList_append, String.toList_append,
    hopening, hat, hclosing, markerComment, markerBody]
  simp only [List.append_assoc, List.cons_append, List.nil_append]

theorem isRun_markerWord : IsRun (fun c => !isBlank c) markerWord := by decide

theorem markerAt_comment (hhash : IsRun isHashChar hash) (hversion : IsRun isVersionChar version) :
    markerAt (markerComment hash version) = some ((hash, version), []) := by
  let closing : List Char := [' ', '#', '\x7d']
  have hcomment : markerComment hash version = ['\x7b', '#'] ++
      (' ' :: (markerWord ++ (' ' :: (hash ++ '@' :: (version ++ closing))))) := by
    simp [markerComment, markerBody, closing]
  have hword := isRun_markerWord.trimStart (fun c hc => by simpa using hc)
    (' ' :: (hash ++ '@' :: (version ++ closing)))
  have hdropped := dropStart?_append markerWord (' ' :: (hash ++ '@' :: (version ++ closing)))
  have hgap := hhash.trimStart (fun _ => isBlank_of_isHashChar) ('@' :: (version ++ closing))
  have hat : dropStart? ['@'] ('@' :: (version ++ closing)) = some (version ++ closing) :=
    dropStart?_append ['@'] _
  have hend : isVersionChar ' ' = false := by decide +kernel
  have hread := hhash.run?_eq (c := '@') rfl (version ++ closing)
  have hlast := hversion.run?_eq hend ['#', '\x7d']
  -- each reader takes one piece of the comment and leaves the rest to the next
  rw [markerAt, hcomment, dropStart?_append]
  simp only [Option.bind_eq_bind, Option.bind_some]
  rw [hword]
  change (dropStart? markerWord _).bind _ = _
  rw [hdropped, Option.bind_some, hgap, hread]
  simp only [Option.bind_some]
  rw [hat, Option.bind_some, hlast]
  rfl

theorem marker?_comment (hhash : IsRun isHashChar hash) (hversion : IsRun isVersionChar version)
    (line : Nat) :
    marker? (markerComment hash version) line =
      some ⟨String.ofList hash, String.ofList version, line⟩ := by
  have hread := markerAt_comment hhash hversion
  rw [marker?, scanAll]
  rw [markerComment, List.cons_append] at hread ⊢
  rw [List.length_cons, scanFrom, hread]
  rfl

theorem contains_markerComment (hash version : List Char) :
    contains (markerComment hash version) markerWord = true := by
  have hsplit : markerComment hash version = ['\x7b', '#', ' '] ++
      (markerWord ++ (' ' :: (hash ++ '@' :: (version ++ [' ', '#', '\x7d'])))) := by
    simp [markerComment, markerBody]
  rw [hsplit]
  exact contains_append ..

theorem hash_not_mem_markerBody (hhash : IsRun isHashChar hash)
    (hversion : IsRun isVersionChar version) : '#' ∉ markerBody hash version := by
  have hword : '#' ∉ markerWord := by decide
  have hinHash : '#' ∉ hash := fun h => absurd (hhash.2 _ h) (by decide)
  have hinVersion : '#' ∉ version := fun h => absurd (hversion.2 _ h) (by decide +kernel)
  simp [markerBody, hword, hinHash, hinVersion]

theorem normalizeReference_referenceTo (hbundle : '/' ∉ bundle) (relative : List Char) :
    normalizeReference (referenceTo bundle relative) = relative := by
  rw [referenceTo, normalizeReference, splitAtFirst_singleton hbundle relative]

end Reading
end ProjectIndex.Templates
