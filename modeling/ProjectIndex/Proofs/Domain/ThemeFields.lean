import ProjectIndex.Domain.Theme
import ProjectIndex.Proofs.Grammar.Json.Nodes
import ProjectIndex.Proofs.Grammar.Json.Reading
import ProjectIndex.Proofs.Tree.Ancestry

/-!
The fields of a theme are the members with an object in `config.fields` of its document, and no
others. They are looked for from below: a field has the right owner at most two steps above it, that
owner its own one, and so on up to the document. So an object is known by its address, the names that
lead from it up to the top.
-/
namespace ProjectIndex

open ProjectIndex.Text

namespace Json

def Member.key (m : Member) : String := String.ofList m.name.chars

def Value.objectsAt : List String → List Char → Value → List Member
  | [], before, v => (v.members before).filter Member.holdsObject
  | key :: path, before, v =>
    ((v.members before).filter fun m => m.key == key).flatMap fun m => m.value.objectsAt path m.first

theorem Value.objectsAt_eq_nil {v : Value} (h : v.isObject ≠ true) (path : List String)
    (before : List Char) : v.objectsAt path before = [] := by
  cases path with
  | nil => rw [objectsAt, members_eq_nil h]; rfl
  | cons => rw [objectsAt, members_eq_nil h]; rfl

def Document.objectsAt (d : Document) (path : List String) : List Member :=
  d.value.objectsAt path d.lead

end Json

namespace Theme

open Json Shape

/-- The owner of the object at an address. -/
def ownerAt : List String → Pattern
  | [] => .kind "document"
  | key :: outer => member key (ownerAt outer)

def memberAt (address : List String) : Pattern :=
  .all [.kind "pair", .hasChild (.kind "object"), .ancestor (ownerAt address) 2]

theorem field_eq : field = memberAt ["fields", "config"] := rfl

variable {t : SyntaxTree} {src : Source} {i k p q : NodeId} {a : Option (List String)}
  {target : List String}

theorem member_matches (key : String) (owner : Pattern) :
    (member key owner).matchesNode t src i = (t.kind i == "pair" &&
      ((t.namedChildren i).any (fun c => t.kind c == "string" &&
          t.text src c == ("\"" ++ key ++ "\"").toList) &&
        ((t.namedChildren i).any (fun c => t.kind c == "object") &&
          ((t.ancestors i).take 2).any fun above => owner.matchesNode t src above))) := by
  simp only [member, Pattern.matchesNode, Pattern.matchesAll, Bool.and_true]

theorem memberAt_matches (address : List String) :
    (memberAt address).matchesNode t src i = (t.kind i == "pair" &&
      ((t.namedChildren i).any (fun c => t.kind c == "object") &&
        ((t.ancestors i).take 2).any fun above => (ownerAt address).matchesNode t src above)) := by
  simp only [memberAt, Pattern.matchesNode, Pattern.matchesAll, Bool.and_true]

/-- Whether the objects right below a node have the given address, or none. -/
def Owns (t : SyntaxTree) (src : Source) (q : NodeId) (a : Option (List String)) : Prop :=
  ∀ address, (ownerAt address).matchesNode t src q = decide (a = some address)

theorem owns_document (h : t.kind q = "document") : Owns t src q (some []) := by
  intro address
  cases address with
  | nil =>
    rw [ownerAt, Pattern.matchesNode, h]
    rfl
  | cons key outer =>
    rw [ownerAt, member_matches, h]
    rfl

theorem owns_none (hdocument : t.kind q ≠ "document") (hpair : t.kind q ≠ "pair") :
    Owns t src q none := by
  intro address
  cases address with
  | nil =>
    rw [ownerAt, Pattern.matchesNode, beq_false_of_ne hdocument]
    rfl
  | cons key outer =>
    rw [ownerAt, member_matches, beq_false_of_ne hpair]
    rfl

theorem matches_of_kind (h : t.kind i ≠ "pair") : (memberAt target).matchesNode t src i = false := by
  rw [memberAt_matches, beq_false_of_ne h]
  rfl

theorem filter_of_noPair (target : List String) {s : Shape} {parent : Option NodeId}
    (h : Laid src t.node parent k s) (hs : NoPair s) :
    (s.reached k).filter ((memberAt target).matchesNode t src) = [] := by
  rw [List.filter_eq_nil_iff]
  intro i hi
  rw [matches_of_kind (h.kind_ne hs hi)]
  exact Bool.false_ne_true

section Member

variable {m : Member}

theorem any_object (h : Laid src t.node (some p) k m.shape) :
    (t.namedChildren k).any (fun c => t.kind c == "object") = m.holdsObject := by
  obtain ⟨hname, hvalue⟩ := laid_member h
  have hstring : t.kind (k + 1) = "string" := hname.kind_eq
  rw [namedChildren_of_member (m.value.isNamed_shape m.first) h, List.any_cons, List.any_cons,
    List.any_nil, hstring, hvalue.kind_eq, Value.kind_beq_object, Bool.or_false]
  rfl

theorem key_text (h : Laid src t.node (some p) k m.shape) (hm : m.StandsIn src) :
    t.text src (k + 1) = ("\"" ++ m.key ++ "\"").toList := by
  obtain ⟨hname, _⟩ := laid_member h
  have hspells := Literal.spells_of_laid hname hm.nameText
  have hchars : m.name.text.literal.text = '"' :: (m.name.chars ++ ['"']) := by
    rw [← m.name.chars_text]
    rfl
  have hkey : m.key.toList = m.name.chars := String.toList_ofList
  rw [hspells.text_eq, hchars, String.toList_append, String.toList_append, hkey]
  rfl

theorem key_text_beq (h : Laid src t.node (some p) k m.shape) (hm : m.StandsIn src) (key : String) :
    (t.text src (k + 1) == ("\"" ++ key ++ "\"").toList) = (m.key == key) := by
  rw [key_text h hm, Bool.eq_iff_iff, beq_iff_eq, beq_iff_eq]
  constructor
  · intro heq
    simpa using String.toList_injective heq
  · rintro rfl
    rfl

theorem any_key_and_object (h : Laid src t.node (some p) k m.shape) (hm : m.StandsIn src)
    (key : String) :
    ((t.namedChildren k).any (fun c => t.kind c == "string" &&
        t.text src c == ("\"" ++ key ++ "\"").toList) &&
      (t.namedChildren k).any fun c => t.kind c == "object") = (m.key == key && m.holdsObject) := by
  obtain ⟨hname, hvalue⟩ := laid_member h
  have hstring : t.kind (k + 1) = "string" := hname.kind_eq
  rw [any_object h]
  cases hobject : m.holdsObject with
  | false => rw [Bool.and_false, Bool.and_false]
  | true =>
    have hkind : t.kind (valueId k m.before m.name) = "object" := by
      rw [hvalue.kind_eq]
      exact beq_iff_eq.1 ((m.value.kind_beq_object m.first).trans hobject)
    rw [namedChildren_of_member (m.value.isNamed_shape m.first) h, List.any_cons, List.any_cons,
      List.any_nil, hstring, hkind, key_text_beq h hm]
    cases m.key == key <;> rfl

variable (hfirst : t.ParentsFirst) (hp : t.kind p = "object") (hq : t.parent? p = some q)
  (hown : Owns t src q a) (h : Laid src t.node (some p) k m.shape)
include hfirst hp hq hown h

theorem any_above (address : List String) :
    (((t.ancestors k).take 2).any fun above => (ownerAt address).matchesNode t src above) =
      decide (a = some address) := by
  have habove : (t.ancestors k).take 2 = [p, q] := by
    rw [hfirst.ancestors_of_parent h.parent?_eq, hfirst.ancestors_of_parent hq]
    rfl
  have hobject : (ownerAt address).matchesNode t src p = false :=
    owns_none (by rw [hp]; decide) (by rw [hp]; decide) address
  rw [habove, List.any_cons, List.any_cons, List.any_nil, hobject, hown address, Bool.false_or,
    Bool.or_false]

theorem matches_member (target : List String) :
    (memberAt target).matchesNode t src k = (m.holdsObject && decide (a = some target)) := by
  have hkind : t.kind k = "pair" := h.kind_eq
  rw [memberAt_matches, hkind, any_object h, any_above hfirst hp hq hown h]
  rfl

theorem owns_member (hm : m.StandsIn src) :
    Owns t src k (if m.holdsObject then a.map (m.key :: ·) else none) := by
  have hkind : t.kind k = "pair" := h.kind_eq
  intro address
  cases address with
  | nil =>
    have hne : (if m.holdsObject then a.map (m.key :: ·) else none) ≠ some [] := by
      split
      · cases a <;> nofun
      · nofun
    rw [ownerAt, Pattern.matchesNode, hkind, decide_eq_false hne]
    rfl
  | cons key outer =>
    have hmatches : (ownerAt (key :: outer)).matchesNode t src k =
        (m.key == key && m.holdsObject && decide (a = some outer)) := by
      rw [ownerAt, member_matches, hkind, any_above hfirst hp hq hown h,
        ← any_key_and_object h hm key, Bool.and_assoc]
      rfl
    rw [hmatches]
    cases hobject : m.holdsObject with
    | false => rw [Bool.and_false]; rfl
    | true =>
      rw [Bool.and_true, if_pos rfl]
      cases a with
      | none => rw [Option.map_none]; simp
      | some names => simp [Bool.beq_eq_decide_eq, Bool.decide_and]

theorem filter_member (target : List String) :
    (m.shape.reached k).filter ((memberAt target).matchesNode t src) =
      (if m.holdsObject && decide (a = some target) then [k] else []) ++
        ((m.value.shape m.first).reached (valueId k m.before m.name)).filter
          ((memberAt target).matchesNode t src) := by
  have hname := filter_of_noPair target (laid_member h).1 (noPair_string _ _)
  have hmatches := matches_member hfirst hp hq hown h target
  rw [Member.shape, reached_member (m.value.isNamed_shape m.first), List.filter_cons, hmatches,
    List.filter_append, hname, List.nil_append]
  split <;> rfl

end Member

/-- Whether no object further down has the address looked for. -/
def Aside (target : List String) (a : Option (List String)) : Prop :=
  ∀ names ∈ a, ¬ names <:+ target

theorem aside_none : Aside target none := nofun

theorem Aside.ne (h : Aside target a) : a ≠ some target := by
  rintro rfl
  exact h target rfl (List.suffix_refl target)

theorem Aside.member (h : Aside target a) (m : Member) :
    Aside target (if m.holdsObject then a.map (m.key :: ·) else none) := by
  split
  · rintro names hnames hsuffix
    obtain ⟨outer, houter, rfl⟩ := Option.map_eq_some_iff.1 hnames
    exact h outer houter ((List.suffix_cons _ _).trans hsuffix)
  · exact aside_none

theorem aside_inside (m : Member) :
    Aside target (if m.holdsObject then some (m.key :: target) else none) := by
  split
  · rintro names ⟨⟩ hsuffix
    have := hsuffix.length_le
    rw [List.length_cons] at this
    omega
  · exact aside_none

theorem aside_of_ne {path outer : List String} {key other : String} (h : other ≠ key) :
    Aside (path ++ key :: outer) (some (other :: outer)) := by
  rintro names ⟨⟩ hsuffix
  have hway := List.suffix_append path (key :: outer)
  have heq := (List.suffix_of_suffix_length_le hsuffix hway (Nat.le_refl _)).eq_of_length rfl
  exact h (List.head_eq_of_cons_eq heq)

theorem filter_object {members : Members} {q k : Nat} {before after : List Char}
    (hsrc : src = before ++ ((Value.object members).chars ++ after))
    (h : Laid src t.node (some q) k ((Value.object members).shape before)) :
    src = (before ++ ['\x7b']) ++ (members.chars ++ '\x7d' :: after) ∧
      LaidAll src t.node k (k + 1 + 1) (members.shapes (before ++ ['\x7b'])) ∧
      (((Value.object members).shape before).reached k).filter
          ((memberAt target).matchesNode t src) =
        (reachedAll (k + 1 + 1) (members.shapes (before ++ ['\x7b']))).filter
          ((memberAt target).matchesNode t src) := by
  have hkind : t.kind k = "object" := h.kind_eq
  rw [Value.shape] at h ⊢
  obtain ⟨_, hrest⟩ := h.below
  refine ⟨by rw [hsrc, Value.chars]; simp, (laidAll_append.1 hrest).1, ?_⟩
  rw [reached_between, List.filter_cons_of_neg]
  rw [matches_of_kind (by rw [hkind]; decide)]
  exact Bool.false_ne_true

mutual

theorem filter_value (hfirst : t.ParentsFirst) : ∀ (v : Value) {q k : Nat} {before after : List Char}
    {a : Option (List String)}, src = before ++ (v.chars ++ after) →
      Laid src t.node (some q) k (v.shape before) → Owns t src q a →
      (v.isObject = true → Aside target a) →
      ((v.shape before).reached k).filter ((memberAt target).matchesNode t src) = []
  | .string s, q, k, before, after, a, _, h, _, _ => by
    rw [Value.shape] at h ⊢
    exact filter_of_noPair _ h (noPair_string s before)
  | .number n, q, k, before, after, a, _, h, _, _ => by
    rw [Value.shape] at h ⊢
    exact filter_of_noPair _ h (noPair_leaf (by decide) true false _ _)
  | .word w, q, k, before, after, a, _, h, _, _ => by
    rw [Value.shape] at h ⊢
    refine filter_of_noPair _ h (noPair_leaf ?_ true false _ _)
    cases w <;> decide
  | .array items, q, k, before, after, a, hsrc, h, _, _ => by
    have hkind : t.kind k = "array" := h.kind_eq
    -- What a list holds has no address, so no object in it can be the one looked for.
    have hown : Owns t src k none := owns_none (by rw [hkind]; decide) (by rw [hkind]; decide)
    have hsplit : src = (before ++ ['[']) ++ (items.chars ++ ']' :: after) := by
      rw [hsrc, Value.chars]
      simp
    rw [Value.shape] at h ⊢
    obtain ⟨_, hrest⟩ := h.below
    have hitems := filter_items hfirst items hsplit (laidAll_append.1 hrest).1 hown
    rw [reached_between, List.filter_cons_of_neg]
    · exact hitems
    · rw [matches_of_kind (by rw [hkind]; decide)]
      exact Bool.false_ne_true
  | .object members, q, k, before, after, a, hsrc, h, hown, haside => by
    obtain ⟨hsplit, hlaid, hfilter⟩ := filter_object hsrc h
    rw [hfilter]
    exact filter_members hfirst members hsplit hlaid h.kind_eq h.parent?_eq hown (haside rfl)

theorem filter_items (hfirst : t.ParentsFirst) : ∀ (items : Items) {p k : Nat}
    {before after : List Char}, src = before ++ (items.chars ++ after) →
      LaidAll src t.node p k (items.shapes before) → Owns t src p none →
      (reachedAll k (items.shapes before)).filter ((memberAt target).matchesNode t src) = []
  | .nil _, p, k, before, after, _, _, _ => rfl
  | .cons gap value afterValue rest, p, k, before, after, hsrc, h, hown => by
    obtain ⟨⟨w, hvalue⟩, hrest⟩ := places_of_items hsrc
    obtain ⟨hlaid, hbelow⟩ := h
    have hhere := filter_value hfirst value hvalue hlaid hown fun _ => aside_none
    have hbehind := filter_items hfirst rest hrest (laidAll_append.1 hbelow).2 hown
    rw [Items.shapes, reachedAll_cons_of_named (value.isNamed_shape _), reachedAll_append,
      reachedAll_commaShapes, List.nil_append, List.filter_append, hhere, hbehind]
    rfl

theorem filter_members (hfirst : t.ParentsFirst) : ∀ (members : Members) {p q k : Nat}
    {before after : List Char} {a : Option (List String)}, src = before ++ (members.chars ++ after) →
      LaidAll src t.node p k (members.shapes before) → t.kind p = "object" → t.parent? p = some q →
      Owns t src q a → Aside target a →
      (reachedAll k (members.shapes before)).filter ((memberAt target).matchesNode t src) = []
  | .nil _, p, q, k, before, after, a, _, _, _, _, _, _ => rfl
  | .cons gap name beforeColon afterColon value afterValue rest, p, q, k, before, after, a, hsrc, h,
      hp, hq, hown, haside => by
    let m : Member := ⟨before ++ gap.chars, name, beforeColon, afterColon, value⟩
    obtain ⟨_, hvalue, hrest⟩ := places_of_members hsrc
    obtain ⟨hlaid, hbelow⟩ := h
    have hm : m.StandsIn src := Member.standsIn_iff.2 hvalue
    have hownMember : Owns t src k (if m.holdsObject then a.map (m.key :: ·) else none) :=
      owns_member hfirst hp hq hown hlaid hm
    obtain ⟨w, hvalue⟩ := hvalue
    have hinside : ((m.value.shape m.first).reached (valueId k m.before m.name)).filter
        ((memberAt target).matchesNode t src) = [] :=
      filter_value hfirst value hvalue (laid_member hlaid).2 hownMember fun _ => haside.member m
    have hhere : (m.shape.reached k).filter ((memberAt target).matchesNode t src) = [] := by
      rw [filter_member hfirst hp hq hown hlaid, hinside, decide_eq_false haside.ne, Bool.and_false]
      rfl
    have hbehind := filter_members hfirst rest hrest (laidAll_append.1 hbelow).2 hp hq hown haside
    rw [Members.shapes, reachedAll_member, reachedAll_append, reachedAll_commaShapes,
      List.nil_append, List.filter_append, hbehind, List.append_nil]
    exact hhere

end

def Shows (t : SyntaxTree) (src : Source) (i : NodeId) (m : Member) : Prop :=
  m.StandsIn src ∧ ∃ parent, Laid src t.node parent i m.shape

theorem flatMap_filter {α β : Type} (P : α → Bool) (f : α → List β) (xs : List α) :
    (xs.filter P).flatMap f = xs.flatMap fun x => if P x then f x else [] := by
  induction xs with
  | nil => rfl
  | cons x xs ih =>
    rw [List.filter_cons, List.flatMap_cons, ← ih]
    split
    · rw [List.flatMap_cons]
    · rfl

theorem forall₂_value (hfirst : t.ParentsFirst) {outer : List String} {selected : Member → List Member}
    (v : Value) {before after : List Char} (hsrc : src = before ++ (v.chars ++ after))
    (h : Laid src t.node (some q) k (v.shape before)) (hown : Owns t src q (some outer))
    (hone : t.kind k = "object" → t.parent? k = some q → ∀ (m : Member) (i : NodeId),
      m.StandsIn src → Laid src t.node (some k) i m.shape →
      List.Forall₂ (Shows t src) ((m.shape.reached i).filter ((memberAt target).matchesNode t src))
        (selected m)) :
    List.Forall₂ (Shows t src)
      (((v.shape before).reached k).filter ((memberAt target).matchesNode t src))
      ((v.members before).flatMap selected) := by
  by_cases hobject : v.isObject = true
  · cases v with
    | object members =>
      obtain ⟨hsplit, hlaid, hfilter⟩ := filter_object hsrc h
      rw [hfilter]
      exact forall₂_reachedAll_members (hone h.kind_eq h.parent?_eq) members hsplit hlaid
    | _ => cases hobject
  · rw [filter_value hfirst v hsrc h hown fun hyes => absurd hyes hobject,
      Value.members_eq_nil hobject]
    exact .nil

/-- Below the owner of an address, the members at a longer address are found by the names that
lead there. -/
theorem filter_toward (hfirst : t.ParentsFirst) : ∀ (path outer : List String) (v : Value)
    {q k : Nat} {before after : List Char}, src = before ++ (v.chars ++ after) →
      Laid src t.node (some q) k (v.shape before) → Owns t src q (some outer) →
      List.Forall₂ (Shows t src)
        (((v.shape before).reached k).filter
          ((memberAt (path.reverse ++ outer)).matchesNode t src)) (v.objectsAt path before) := by
  intro path
  induction path with
  | nil =>
    -- The address is that of the owner: its own members are meant, and none further down.
    intro outer v q k before after hsrc h hown
    rw [Value.objectsAt, ← List.flatMap_singleton' ((v.members before).filter _), flatMap_filter]
    refine forall₂_value hfirst v hsrc h hown fun hp hq m i hm hlaid => ?_
    obtain ⟨w, hvalue⟩ := Member.standsIn_iff.1 hm
    have hinside := filter_value hfirst m.value hvalue (laid_member hlaid).2
      (owns_member hfirst hp hq hown hlaid hm) fun _ => aside_inside m
    rw [List.reverse_nil, List.nil_append, filter_member hfirst hp hq hown hlaid, hinside,
      decide_eq_true rfl, Bool.and_true, List.append_nil]
    split
    · exact .cons ⟨hm, _, hlaid⟩ .nil
    · exact .nil
  | cons key path ih =>
    -- Of the members only one with the next name leads on to the address.
    intro outer v q k before after hsrc h hown
    have htarget : (key :: path).reverse ++ outer = path.reverse ++ (key :: outer) := by simp
    rw [Value.objectsAt, flatMap_filter, htarget]
    refine forall₂_value hfirst v hsrc h hown fun hp hq m i hm hlaid => ?_
    have hne : some outer ≠ some (path.reverse ++ (key :: outer)) := by
      intro heq
      have := congrArg List.length (Option.some.inj heq)
      rw [List.length_append, List.length_cons] at this
      omega
    have howner := owns_member hfirst hp hq hown hlaid hm
    obtain ⟨w, hvalue⟩ := Member.standsIn_iff.1 hm
    rw [filter_member hfirst hp hq hown hlaid, decide_eq_false hne, Bool.and_false,
      if_neg Bool.false_ne_true, List.nil_append]
    by_cases hobject : m.holdsObject = true
    · rw [if_pos hobject, Option.map_some] at howner
      by_cases hkey : m.key = key
      · rw [if_pos (beq_iff_eq.2 hkey)]
        rw [hkey] at howner
        exact ih (key :: outer) m.value hvalue (laid_member hlaid).2 howner
      · rw [if_neg (mt beq_iff_eq.1 hkey), filter_value hfirst m.value hvalue (laid_member hlaid).2
          howner fun _ => aside_of_ne hkey]
        exact .nil
    · rw [filter_value hfirst m.value hvalue (laid_member hlaid).2 howner fun hyes =>
        absurd hyes hobject, Value.objectsAt_eq_nil hobject, ite_self]
      exact .nil

theorem findAll_memberAt (d : Document) (path : List String) :
    List.Forall₂ (Shows d.tree d.text)
      ((memberAt path.reverse).findAll d.tree d.text d.tree.root) (d.objectsAt path) := by
  obtain ⟨hroot, hsize, hlaid⟩ := d.laid_tree
  have hfirst := hlaid.parentsFirst hsize
  have hkind : d.tree.kind 0 = "document" := hlaid.kind_eq
  have hfound := filter_toward hfirst path [] d.value rfl hlaid.below.1 (owns_document hkind)
  rw [List.append_nil] at hfound
  rw [Pattern.findAll, hroot, hlaid.descendants_eq hsize, reached_eq, List.filter_cons_of_neg,
    Document.shape, Shape.children, reachedAll_singleton _ (d.value.isNamed_shape d.lead)]
  · exact hfound
  · rw [matches_of_kind (by rw [hkind]; decide)]
    exact Bool.false_ne_true

theorem Shows.kind_range_text {m : Member} (h : Shows t src i m) :
    t.kind i = "pair" ∧ t.range i = m.range ∧ t.text src i = m.chars := by
  obtain ⟨⟨w, hsrc⟩, _, hlaid⟩ := h
  have hslice := (OccursAt.of_eq hsrc).slice_eq
  rw [← byteLength_append] at hslice
  have hrange : t.range i = m.range := hlaid.range_eq.trans m.range_shape
  obtain ⟨hstart, hstop⟩ := Prod.mk.inj hrange
  refine ⟨hlaid.kind_eq, hrange, ?_⟩
  rw [SyntaxTree.text, hstart, hstop]
  exact hslice

theorem line_foldl_withOption (options : List (String × NodeId)) (f : ThemeField) :
    (options.foldl (withOption t src) f).line = f.line := by
  induction options generalizing f with
  | nil => rfl
  | cons option options ih =>
    rw [List.foldl_cons, ih, withOption]
    split <;> rfl

theorem Shows.field?_eq {m : Member} (h : Shows t src i m) (file : Path) :
    ∃ f : ThemeField, field? t src file i = some (m.key, f) ∧ f.line = m.before.count '\n' + 1 := by
  obtain ⟨hm, parent, hlaid⟩ := h
  obtain ⟨hname, _⟩ := laid_member hlaid
  have hchildren := namedChildren_of_member (m.value.isNamed_shape m.first) hlaid
  have hfirst : t.namedChild? i 0 = some (i + 1) := by
    rw [SyntaxTree.namedChild?, hchildren]
    rfl
  have hsecond : t.namedChild? i 1 = some (valueId i m.before m.name) := by
    rw [SyntaxTree.namedChild?, hchildren]
    rfl
  have hkey : stringValue t src (i + 1) = m.key := by
    rw [stringValue, stringLiteral_of_laid hname hm.nameText m.name.isPlain_text,
      m.name.chars_text]
    rfl
  have hline : t.line i = m.before.count '\n' + 1 := by
    obtain ⟨w, rfl⟩ := hm
    exact hlaid.line_eq.trans (line_pointOf _ _)
  rw [field?, hfirst, hsecond]
  refine ⟨_, congrArg (fun key => some (key, _)) hkey, ?_⟩
  rw [line_foldl_withOption]
  exact hline

theorem map_filterMap_field? {is : List NodeId} {ms : List Member}
    (h : List.Forall₂ (Shows t src) is ms) (file : Path) :
    (is.filterMap (field? t src file)).map (fun f => (f.1, f.2.line)) =
      ms.map fun m => (m.key, m.before.count '\n' + 1) := by
  induction h with
  | nil => rfl
  | cons hhere _ ih =>
    obtain ⟨f, hfield, hline⟩ := hhere.field?_eq file
    rw [List.filterMap_cons, hfield, List.map_cons, List.map_cons, ih, hline]

/-- The theme fields of a document are its members with an object in `config.fields`. -/
theorem fields_of_config_fields (d : Document) (file : Path) :
    let t := Json.parse d.text
    let members := d.objectsAt ["config", "fields"]
    List.Forall₂
        (fun i m => t.kind i = "pair" ∧ t.range i = m.range ∧ t.text d.text i = m.chars)
        (field.findAll t d.text t.root) members ∧
      (extract t d.text file).map (fun f => (f.1, f.2.line)) =
        members.map fun m => (m.key, m.before.count '\n' + 1) := by
  intro t members
  have ht : t = d.tree := d.parse_text
  have hfound : List.Forall₂ (Shows t d.text) (field.findAll t d.text t.root) members := by
    rw [ht, field_eq]
    exact findAll_memberAt d ["config", "fields"]
  exact ⟨hfound.imp fun i m h => h.kind_range_text, map_filterMap_field? hfound file⟩

end Theme
end ProjectIndex
