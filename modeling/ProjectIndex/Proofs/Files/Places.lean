import Mathlib.Data.List.Basic
import Mathlib.Data.List.Induction
import ProjectIndex.Files.Basic
import ProjectIndex.Path.Order
import ProjectIndex.Proofs.Text.Search

/-!
Places and the paths that spell them. The canonical path of a place writes its names behind slashes.
Going down from it name by name gives the canonical path of a place below, and two such paths with
the same components are the same text.
-/
namespace ProjectIndex

namespace Text

theorem splitOn_slashed {names : List Name} (h : ∀ n ∈ names, '/' ∉ n) {first : Name}
    (hfirst : '/' ∉ first) :
    splitOn '/' (first ++ names.flatMap fun n => '/' :: n) = first :: names := by
  induction names generalizing first with
  | nil => simpa using splitOn_of_notMem hfirst
  | cons n names ih =>
    have hn := h n (List.mem_cons_self ..)
    rw [List.flatMap_cons, List.cons_append, splitOn_append hfirst,
      ih (fun m hm => h m (List.mem_cons_of_mem _ hm)) hn]

end Text

structure Plain (n : Name) : Prop where
  ne_nil : n ≠ []
  ne_dot : n ≠ ['.']
  ne_dots : n ≠ ['.', '.']
  no_slash : '/' ∉ n

instance (n : Name) : Decidable (Plain n) :=
  decidable_of_iff (n ≠ [] ∧ n ≠ ['.'] ∧ n ≠ ['.', '.'] ∧ '/' ∉ n)
    ⟨fun h => ⟨h.1, h.2.1, h.2.2.1, h.2.2.2⟩, fun h => ⟨h.1, h.2, h.3, h.4⟩⟩

namespace Path

def descend (root : Path) (names : List Name) : Path := names.foldl (fun p n => p.join ⟨n⟩) root

theorem segmentComponent?_of_plain {n : Name} (h : Plain n) :
    segmentComponent? n = some (.normal n) := by
  simp [segmentComponent?, h.ne_nil, h.ne_dot, h.ne_dots]

theorem isAbsolute_of_plain {n : Name} (h : Plain n) : isAbsolute ⟨n⟩ = false := by
  obtain ⟨c, rest, rfl⟩ := List.exists_cons_of_ne_nil h.ne_nil
  have hc : c ≠ '/' := fun hslash => h.no_slash (hslash ▸ List.mem_cons_self ..)
  simpa [isAbsolute] using hc

end Path

namespace FileTree

open ProjectIndex.Path

theorem isAbsolute_pathOf (names : List Name) : (pathOf names).isAbsolute = true := by
  cases names <;> rfl

theorem getLast?_pathOf {names : List Name} {n : Name} (h : Plain n) :
    (pathOf (names ++ [n])).text.getLast? ≠ some '/' := by
  have htext : (pathOf (names ++ [n])).text = (names ++ [n]).flatMap fun n => '/' :: n := by
    cases names <;> rfl
  rw [htext, List.flatMap_append, List.flatMap_singleton, List.getLast?_append,
    List.getLast?_cons]
  obtain ⟨last, hlast⟩ := Option.ne_none_iff_exists'.1 (mt List.getLast?_eq_none_iff.1 h.ne_nil)
  rw [hlast]
  intro hslash
  have hmem : last ∈ n := List.mem_of_getLast? hlast
  simp only [Option.getD_some, Option.some_or, Option.some.injEq] at hslash
  exact h.no_slash (hslash ▸ hmem)

theorem join_pathOf {names : List Name} (hnames : ∀ m ∈ names, Plain m) {n : Name}
    (hn : Plain n) : (pathOf names).join ⟨n⟩ = pathOf (names ++ [n]) := by
  rw [join, if_neg (by simp [isAbsolute_of_plain hn])]
  induction names using List.reverseRecOn with
  | nil => simp [pathOf]
  | append_singleton names last _ =>
    -- Only the root ends with a slash; behind any other name one is put.
    have hlast : Plain last := hnames last (by simp)
    have htext : (pathOf (names ++ [last])).text =
        (names ++ [last]).flatMap fun n => '/' :: n := by
      cases names <;> rfl
    have hne : (pathOf (names ++ [last])).text ≠ [] := by simp [htext]
    rw [if_neg (by simp [hne, getLast?_pathOf hlast]), htext]
    cases names <;> simp [pathOf]

theorem descend_pathOf {names : List Name} (hnames : ∀ m ∈ names, Plain m) {below : List Name}
    (hbelow : ∀ m ∈ below, Plain m) : (pathOf names).descend below = pathOf (names ++ below) := by
  induction below generalizing names with
  | nil => rw [List.append_nil]; rfl
  | cons n below ih =>
    have hn := hbelow n (List.mem_cons_self ..)
    have hnames' : ∀ m ∈ names ++ [n], Plain m := by
      intro m hm
      rcases List.mem_append.1 hm with hm | hm
      · exact hnames m hm
      · exact List.mem_singleton.1 hm ▸ hn
    rw [descend, List.foldl_cons, join_pathOf hnames hn, ← descend,
      ih hnames' fun m hm => hbelow m (List.mem_cons_of_mem _ hm), List.append_assoc]
    rfl

theorem splitOn_pathOf {n : Name} {names : List Name} (h : ∀ m ∈ n :: names, Plain m) :
    Text.splitOn '/' (pathOf (n :: names)).text = [] :: n :: names :=
  Text.splitOn_slashed (fun m hm => (h m hm).no_slash) List.not_mem_nil

theorem components_pathOf {names : List Name} (h : ∀ m ∈ names, Plain m) :
    (pathOf names).components = .root :: names.map .normal := by
  cases names with
  | nil => rfl
  | cons n names =>
    have hsegments : Text.splitOn '/' (n ++ names.flatMap fun n => '/' :: n) = n :: names :=
      Text.splitOn_slashed (fun m hm => (h m (List.mem_cons_of_mem _ hm)).no_slash)
        (h n (List.mem_cons_self ..)).no_slash
    have hnames : (n :: names).filterMap segmentComponent? = (n :: names).map .normal :=
      List.filterMap_eq_map_iff_forall_eq_some.2 fun m hm => segmentComponent?_of_plain (h m hm)
    calc (pathOf (n :: names)).components
        = .root :: (Text.splitOn '/' (n ++ names.flatMap fun n => '/' :: n)).filterMap
            segmentComponent? := rfl
      _ = .root :: (n :: names).map .normal := by rw [hsegments, hnames]

theorem same_pathOf {names others : List Name} (hnames : ∀ m ∈ names, Plain m)
    (hothers : ∀ m ∈ others, Plain m) (h : same (pathOf names) (pathOf others) = true) :
    names = others := by
  rw [same, beq_iff_eq, components_pathOf hnames, components_pathOf hothers,
    List.cons.injEq] at h
  exact (List.map_inj_right fun a b hab => by injection hab).1 h.2

theorem componentsBelow?_append (cs ds : List Path.Component) :
    componentsBelow? cs (cs ++ ds) = some ds := by
  induction cs with
  | nil => rfl
  | cons c cs ih => rw [List.cons_append, componentsBelow?, if_pos rfl, ih]

theorem relativeComponents_pathOf {names below : List Name} (hnames : ∀ m ∈ names, Plain m)
    (hbelow : ∀ m ∈ below, Plain m) :
    relativeComponents (pathOf names) (pathOf (names ++ below)) = below.map .normal := by
  have hall : ∀ m ∈ names ++ below, Plain m := fun m hm =>
    (List.mem_append.1 hm).elim (hnames m) (hbelow m)
  rw [relativeComponents, components_pathOf hnames, components_pathOf hall, List.map_append,
    ← List.cons_append, componentsBelow?_append]
  rfl

end FileTree
end ProjectIndex
