import Mathlib.Logic.Function.Basic
import ProjectIndex.Grammar.Twig.Tree
import ProjectIndex.Proofs.Grammar.Brackets
import ProjectIndex.Proofs.Grammar.Twig.Cuts
import ProjectIndex.Proofs.Tree.Ancestry
import ProjectIndex.Proofs.Tree.Growth

/-!
Blocks as brackets. The statements that open and close blocks form a sequence of brackets. A source
has no error exactly if all its segments are terminated and this sequence is balanced. The block of
an opening bracket is an error if the bracket has no partner, and otherwise it reaches to the end of
the partner; one block lies in another as the brackets do.
-/
namespace ProjectIndex.Twig

open ProjectIndex.Bracket TreeBuilder

def Segment.isClosed : Segment → Bool
  | .text _ => true
  | .comment _ closed => closed
  | .output _ closed => closed
  | .statement _ closed => closed

def Token.isWord (t : Token) (word : String) : Bool := t.isIdentifier && t.chars == word.toList

/-- The bracket of a statement with these tokens. A block that has its body inline is none. -/
def bracketOf? (start stop : Nat) : List Token → Option Bracket
  | [] => none
  | t :: args =>
    if t.isWord "block" then if args.length ≤ 1 then some ⟨true, start, stop⟩ else none
    else if t.isWord "endblock" then some ⟨false, start, stop⟩
    else none

def bracket? (pos : Nat) : Segment → Option Bracket
  | .statement body true =>
    bracketOf? pos (pos + Text.byteLength (Segment.statement body true).chars)
      (tokenize (pos + 2) body)
  | _ => none

def bracketsFrom (pos : Nat) : List Segment → List Bracket
  | [] => []
  | s :: rest => (bracket? pos s).toList ++ bracketsFrom (pos + Text.byteLength s.chars) rest

/-- A tree that shows a sequence of brackets, with the node of each opening bracket. -/
structure Reflects (t : SyntaxTree) (bs : List Bracket) (node : Nat → NodeId) : Prop where
  isBlock : ∀ j o, bs[j]? = some o → o.opens = true →
    node j < t.size ∧ t.kind (node j) = "block" ∧ (t.node (node j)).startByte = o.start
  distinct : ∀ i j, OpensAt bs i → OpensAt bs j → node i = node j → i = j
  flagged : ∀ i, t.kind i = "block" →
    ((t.node i).error = true ↔ ∃ j, Unmatched bs j ∧ node j = i)
  spans : ∀ j k c, Matches bs j k → bs[k]? = some c → (t.node (node j)).endByte = c.stop
  nesting : ∀ i j, OpensAt bs i → OpensAt bs j →
    (node i ∈ t.ancestors (node j) ↔ Encloses bs i j)

def openNodes (node : Nat → NodeId) (bs : List Bracket) : List NodeId :=
  (stack bs).map node ++ [0]

/-- A builder behind the segments of some brackets. There are errors if `torn`, or if a closing
bracket came when none was open. -/
structure Tracks (b : TreeBuilder) (bs : List Bracket) (node : Nat → NodeId) (torn : Prop) :
    Prop where
  root : b.root = some 0
  opened : b.opened = openNodes node bs
  top : 0 < b.nodes.size ∧ (b.node 0).outline = ⟨"template", false, 0, none⟩
  block : ∀ j o, bs[j]? = some o → o.opens = true → 0 < node j ∧ node j < b.nodes.size ∧
    (b.node (node j)).outline = ⟨"block", false, o.start, (openNodes node (bs.take j)).head?⟩
  increasing : ∀ i j, OpensAt bs i → OpensAt bs j → i < j → node i < node j
  spans : ∀ j k c, Matches bs j k → bs[k]? = some c → (b.node (node j)).endByte = c.stop
  noBlock : ∀ i, (b.node i).error = true → (b.node i).kind ≠ "block"
  error : (∃ i, (b.node i).error = true) ↔ torn ∨ strays bs = true

section Tracks

variable {b b' : TreeBuilder} {bs : List Bracket} {node : Nat → NodeId} {torn : Prop}

theorem Tracks.pos (h : Tracks b bs node torn) {j : Nat} (hj : OpensAt bs j) :
    0 < node j ∧ node j < b.nodes.size := by
  obtain ⟨o, ho, hopens⟩ := hj
  obtain ⟨hpos, hlt, _⟩ := h.block j o ho hopens
  exact ⟨hpos, hlt⟩

theorem Tracks.inj (h : Tracks b bs node torn) {i j : Nat} (hi : OpensAt bs i)
    (hj : OpensAt bs j) (hij : node i = node j) : i = j := by
  rcases Nat.lt_trichotomy i j with hlt | heq | hgt
  · exact absurd hij (Nat.ne_of_lt (h.increasing i j hi hj hlt))
  · exact heq
  · exact absurd hij (Nat.ne_of_gt (h.increasing j i hj hi hgt))

theorem Tracks.inside (h : Tracks b bs node torn) : b.Inside := by
  refine ⟨by simp [h.opened, openNodes], fun i hi => ?_⟩
  rw [h.opened, openNodes, List.mem_append, List.mem_map, List.mem_singleton] at hi
  rcases hi with ⟨j, hj, rfl⟩ | rfl
  · exact (h.pos (opensAt_of_mem_stack hj)).2
  · exact h.top.1

theorem Tracks.notMem_opened (h : Tracks b bs node torn) {j k : Nat} (hm : Matches bs j k) :
    node j ∉ b.opened := by
  rw [h.opened, openNodes, List.mem_append, List.mem_map, List.mem_singleton]
  rintro (⟨i, hi, hij⟩ | hzero)
  · obtain rfl := h.inj (opensAt_of_mem_stack hi) hm.opensAt hij
    exact (mem_stack.1 hi).2 k hm
  · exact absurd (h.pos hm.opensAt).1 (hzero ▸ Nat.lt_irrefl 0)

theorem Tracks.grown {bad : Prop} (h : Tracks b bs node torn) (hg : Grown b b' bad) :
    Tracks b' bs node (torn ∨ bad) where
  root := hg.root.trans h.root
  opened := hg.opened.trans h.opened
  top := ⟨Nat.lt_of_lt_of_le h.top.1 hg.size, (hg.outline 0 h.top.1).trans h.top.2⟩
  block j o hj ho := by
    obtain ⟨hpos, hlt, houtline⟩ := h.block j o hj ho
    exact ⟨hpos, Nat.lt_of_lt_of_le hlt hg.size, (hg.outline _ hlt).trans houtline⟩
  increasing := h.increasing
  spans j k c hm hk :=
    (hg.endByte _ (h.pos hm.opensAt).2 (h.notMem_opened hm)).trans (h.spans j k c hm hk)
  noBlock i herror := by
    by_cases hi : i < b.nodes.size
    · have hsame := hg.outline i hi
      have hkind : (b'.node i).kind = (b.node i).kind := congrArg Outline.kind hsame
      have herror' : (b'.node i).error = (b.node i).error := congrArg Outline.error hsame
      rw [hkind]
      exact h.noBlock i (herror' ▸ herror)
    · exact hg.noBlock i (Nat.le_of_not_lt hi) herror
  error := by
    have hold : ∀ i < b.nodes.size, (b'.node i).error = (b.node i).error := fun i hi =>
      congrArg Outline.error (hg.outline i hi)
    rw [or_right_comm, ← h.error, ← hg.error]
    constructor
    · rintro ⟨i, herror⟩
      by_cases hi : i < b.nodes.size
      · exact .inl ⟨i, hold i hi ▸ herror⟩
      · exact .inr ⟨i, Nat.le_of_not_lt hi, herror⟩
    · rintro (⟨i, herror⟩ | ⟨i, _, herror⟩)
      · exact ⟨i, (hold i (lt_of_error herror)).symm ▸ herror⟩
      · exact ⟨i, herror⟩

theorem Tracks.congr {torn' : Prop} (h : Tracks b bs node torn) (htorn : torn ↔ torn') :
    Tracks b bs node torn' := { h with error := h.error.trans (or_congr_left htorn) }

theorem openNodes_update {n : Nat} (hn : bs.length ≤ n) (i : NodeId) :
    openNodes (Function.update node n i) bs = openNodes node bs := by
  have hmap : (stack bs).map (Function.update node n i) = (stack bs).map node :=
    List.map_congr_left fun j hj => Function.update_of_ne
      (Nat.ne_of_lt (Nat.lt_of_lt_of_le (opensAt_of_mem_stack hj).lt hn)) ..
  rw [openNodes, hmap, openNodes]

theorem getElem?_concat_cases {o b : Bracket} {j : Nat} (h : (bs ++ [b])[j]? = some o) :
    j < bs.length ∧ bs[j]? = some o ∨ j = bs.length ∧ b = o := by
  rcases Nat.lt_trichotomy j bs.length with hlt | rfl | hgt
  · exact .inl ⟨hlt, by rwa [List.getElem?_append_left hlt] at h⟩
  · exact .inr ⟨rfl, by simpa using h⟩
  · have hlength := (List.getElem?_eq_some_iff.1 h).1
    rw [List.length_append, List.length_singleton] at hlength
    omega

theorem matches_concat_cases {c : Bracket} {j k : Nat} (h : Matches (bs ++ [c]) j k) :
    k < bs.length ∧ Matches bs j k ∨
      k = bs.length ∧ c.opens = false ∧ ∃ st, stack bs = j :: st := by
  have hlt := h.lt.2
  rw [List.length_append, List.length_singleton] at hlt
  rcases Nat.lt_succ_iff_lt_or_eq.1 hlt with hk | rfl
  · exact .inl ⟨hk, (matches_append hk).1 h⟩
  · exact .inr ⟨rfl, matches_concat.1 h⟩

theorem Tracks.opening (h : Tracks b bs node torn) {o : Bracket} (ho : o.opens = true)
    (hopen : Opening b b' "block" o.start) :
    Tracks b' (bs ++ [o]) (Function.update node bs.length b.nodes.size) torn := by
  have hnew : Function.update node bs.length b.nodes.size bs.length = b.nodes.size :=
    Function.update_self ..
  have hold : ∀ j < bs.length, Function.update node bs.length b.nodes.size j = node j :=
    fun j hj => Function.update_of_ne (Nat.ne_of_lt hj) ..
  refine ⟨hopen.root.trans h.root, ?_, ?_, fun j o' hj ho' => ?_, fun i j hi hj hij => ?_,
    fun j k c hm hk => ?_, fun i htrue => ?_, ?_⟩
  · rw [hopen.opened, h.opened, ← openNodes_update (Nat.le_refl _) b.nodes.size, openNodes,
      openNodes, stack_concat, pushOrPop, if_pos ho, List.map_cons, hnew]
    rfl
  · exact ⟨by rw [hopen.size]; omega, (hopen.outline 0 h.top.1).trans h.top.2⟩
  · rcases getElem?_concat_cases hj with ⟨hlt, hj⟩ | ⟨rfl, rfl⟩
    · obtain ⟨hpos, hsize, houtline⟩ := h.block j o' hj ho'
      rw [hold j hlt, List.take_append_of_le_length (Nat.le_of_lt hlt),
        openNodes_update (List.length_take_le' ..), hopen.size]
      exact ⟨hpos, Nat.lt_succ_of_lt hsize, (hopen.outline _ hsize).trans houtline⟩
    · rw [hnew, List.take_left, openNodes_update (Nat.le_refl _), ← h.opened, hopen.size]
      exact ⟨h.top.1, Nat.lt_succ_self _, hopen.new⟩
  · have hle : j ≤ bs.length := by
      have hlt := hj.lt
      rw [List.length_append, List.length_singleton] at hlt
      exact Nat.le_of_lt_succ hlt
    have hi' := Nat.lt_of_lt_of_le hij hle
    have hiold := (opensAt_append hi').1 hi
    rw [hold i hi']
    rcases Nat.lt_or_eq_of_le hle with hj' | rfl
    · rw [hold j hj']
      exact h.increasing i j hiold ((opensAt_append hj').1 hj) hij
    · rw [hnew]
      exact (h.pos hiold).2
  · -- The new bracket opens, so it ends no block.
    rcases matches_concat_cases hm with ⟨hlt, hm⟩ | ⟨_, hclose, _⟩
    · rw [hold j (Nat.lt_trans hm.lt.1 hlt),
        hopen.endByte _ (h.pos hm.opensAt).2 (h.notMem_opened hm)]
      rw [List.getElem?_append_left hlt] at hk
      exact h.spans j k c hm hk
    · simp [ho] at hclose
  · rw [hopen.error] at htrue
    have hkind : (b'.node i).kind = (b.node i).kind :=
      congrArg Outline.kind (hopen.outline i (lt_of_error htrue))
    rw [hkind]
    exact h.noBlock i htrue
  · rw [strays_concat, ho, Bool.not_true, Bool.false_and, Bool.or_false, ← h.error]
    simp only [hopen.error]

theorem Tracks.block_concat (h : Tracks b bs node torn) {c o : Bracket} {j : Nat}
    (hc : c.opens = false) (hj : (bs ++ [c])[j]? = some o) (ho : o.opens = true) :
    0 < node j ∧ node j < b.nodes.size ∧ (b.node (node j)).outline =
      ⟨"block", false, o.start, (openNodes node ((bs ++ [c]).take j)).head?⟩ := by
  rcases getElem?_concat_cases hj with ⟨hlt, hj⟩ | ⟨rfl, rfl⟩
  · rw [List.take_append_of_le_length (Nat.le_of_lt hlt)]
    exact h.block j o hj ho
  · simp [hc] at ho

theorem Tracks.increasing_concat (h : Tracks b bs node torn) {c : Bracket} {i j : Nat}
    (hc : c.opens = false) (hi : OpensAt (bs ++ [c]) i) (hj : OpensAt (bs ++ [c]) j)
    (hij : i < j) : node i < node j := by
  have hopens : ∀ k, OpensAt (bs ++ [c]) k → OpensAt bs k := by
    rintro k ⟨o, hk, ho⟩
    rcases getElem?_concat_cases hk with ⟨_, hk⟩ | ⟨rfl, rfl⟩
    · exact ⟨o, hk, ho⟩
    · simp [hc] at ho
  exact h.increasing i j (hopens i hi) (hopens j hj) hij

theorem Tracks.closing (h : Tracks b bs node torn) {c : Bracket} {j : Nat} {st : List Nat}
    (hc : c.opens = false) (hstack : stack bs = j :: st) :
    Tracks (b.close c.stop) (bs ++ [c]) node torn := by
  have hopened : b.opened = node j :: (st.map node ++ [0]) := by
    rw [h.opened, openNodes, hstack]
    rfl
  have hj : j ∈ stack bs := hstack ▸ List.mem_cons_self ..
  have houtline := outline_close b c.stop
  have herror : ∀ i, ((b.close c.stop).node i).error = (b.node i).error := fun i =>
    congrArg Outline.error (houtline i)
  refine ⟨?_, ?_, ?_, fun i o hi ho => ?_, fun _ _ => h.increasing_concat hc,
    fun i k c' hm hk => ?_, fun i htrue => ?_, ?_⟩
  · rw [close_eq hopened]
    exact h.root
  · rw [close_eq hopened, openNodes, stack_concat, pushOrPop, if_neg (by simp [hc]), hstack]
    rfl
  · rw [size_close, houtline]
    exact h.top
  · rw [size_close, houtline]
    exact h.block_concat hc hi ho
  · rcases matches_concat_cases hm with ⟨hlt, hm⟩ | ⟨rfl, _, st', hstack'⟩
    · -- The block that ends here had no partner before.
      have hne : node j ≠ node i := by
        intro hij
        obtain rfl := h.inj (opensAt_of_mem_stack hj) hm.opensAt hij
        exact (mem_stack.1 hj).2 k hm
      rw [List.getElem?_append_left hlt] at hk
      rw [node_close hopened, if_neg fun hij => hne hij.1]
      exact h.spans i k c' hm hk
    · rw [hstack] at hstack'
      obtain rfl := (List.cons.inj hstack').1
      obtain rfl : c = c' := by simpa using hk
      rw [node_close hopened, if_pos ⟨rfl, (h.pos (opensAt_of_mem_stack hj)).2⟩]
  · have hkind : ((b.close c.stop).node i).kind = (b.node i).kind :=
      congrArg Outline.kind (houtline i)
    rw [hkind]
    exact h.noBlock i (herror i ▸ htrue)
  · rw [strays_concat, hstack, List.isEmpty_cons, Bool.and_false, Bool.or_false, ← h.error]
    simp only [herror]

theorem Tracks.stray (h : Tracks b bs node torn) {c : Bracket} (hc : c.opens = false)
    (hstack : stack bs = []) (hg : Grown b b' True) : Tracks b' (bs ++ [c]) node torn := by
  have hgrown := h.grown hg
  refine ⟨hgrown.root, ?_, hgrown.top, fun _ _ hi ho => hgrown.block_concat hc hi ho,
    fun _ _ => hgrown.increasing_concat hc, fun i k c' hm hk => ?_, hgrown.noBlock, ?_⟩
  · rw [hgrown.opened, openNodes, openNodes, stack_concat, pushOrPop, if_neg (by simp [hc]), hstack]
    rfl
  · rcases matches_concat_cases hm with ⟨hlt, hm⟩ | ⟨_, _, st, hst⟩
    · rw [List.getElem?_append_left hlt] at hk
      exact hgrown.spans i k c' hm hk
    · simp [hstack] at hst
  · rw [hgrown.error, strays_concat, hc, hstack]
    simp

theorem Tracks.currentKind? (h : Tracks b bs node torn) :
    b.currentKind? = some "block" ↔ stack bs ≠ [] := by
  unfold TreeBuilder.currentKind?
  rw [h.opened, openNodes]
  cases hstack : stack bs with
  | nil =>
    have hkind : (b.node 0).kind = "template" := congrArg Outline.kind h.top.2
    change some (b.node 0).kind = some "block" ↔ _
    rw [hkind]
    decide
  | cons j st =>
    have hj : OpensAt bs j := opensAt_of_mem_stack (hstack ▸ List.mem_cons_self ..)
    obtain ⟨o, ho, hopens⟩ := hj
    have hkind : (b.node (node j)).kind = "block" :=
      congrArg Outline.kind (h.block j o ho hopens).2.2
    change some (b.node (node j)).kind = some "block" ↔ _
    rw [hkind]
    simp

end Tracks

section Pieces

variable {b : TreeBuilder} (start stop : Nat)

theorem grown_addArguments (hb : b.Inside) (ts : List Token) :
    Grown b (addArguments b ts) False := by
  induction ts generalizing b with
  | nil => exact .refl b
  | cons t ts ih =>
    have hleaf : ∀ kind, Grown b (addArguments (b.leaf kind true t.start t.stop) ts) False :=
      fun kind =>
        let hone := hb.leaf kind true t.start t.stop
        (hone.trans (ih (hone.inside hb))).congr (or_self_iff)
    rw [addArguments]
    split
    · exact hleaf _
    · exact hleaf _
    · exact ih hb

theorem grown_addClosed (hb : b.Inside) {kind : String} (hkind : kind ≠ "block") (closed : Bool) :
    Grown b (addClosed b kind start stop closed) (closed = false) := by
  unfold addClosed
  cases closed with
  | true => exact (hb.leaf kind true start stop).congr (by simp)
  | false => exact (hb.errorLeaf hkind true start stop).congr (by simp)

theorem grown_addTag (hb : b.Inside) (tokens : List Token) :
    Grown b (addTag b start stop tokens) False := by
  have hopen := hb.openNode "tag" true start
  have hinside := hopen.inside hb
  refine hopen.close ?_ stop
  cases tokens with
  | nil => exact .refl _
  | cons t ts =>
    dsimp only
    split
    · have hname := hinside.leaf "name" true t.start t.stop
      exact (hname.trans (grown_addArguments (hname.inside hinside) ts)).congr or_self_iff
    · exact grown_addArguments hinside (t :: ts)

theorem addBlock_cases (hb : b.Inside) (args : List Token) :
    if args.length ≤ 1 then
      ∃ b', Opening b b' "block" start ∧ Grown b' (addBlock b start stop args) False
    else Grown b (addBlock b start stop args) False := by
  have hopen := hb.openNode "block" true start
  have hinside := hopen.inside hb
  unfold addBlock
  cases args with
  | nil => exact ⟨_, hopen, .refl _⟩
  | cons t args =>
    dsimp only
    have hname : Grown (b.openNode "block" true start)
        (if t.isIdentifier then
          (b.openNode "block" true start).leaf "identifier" true t.start t.stop
        else b.openNode "block" true start) False := by
      split
      · exact hinside.leaf ..
      · exact .refl _
    split
    · next hshort =>
      rw [if_neg (Nat.not_lt.2 hshort)]
      exact ⟨_, hopen, hname⟩
    · next hlong =>
      rw [if_pos (Nat.lt_of_not_le hlong)]
      have hbody := grown_addArguments (hname.inside hinside) args
      exact hopen.close ((hname.trans hbody).congr or_self_iff) stop

end Pieces

section Segments

variable {b : TreeBuilder} {bs : List Bracket} {node : Nat → NodeId} {torn : Prop}

theorem Tracks.addEndBlock (h : Tracks b bs node torn) (start stop : Nat) :
    Tracks (addEndBlock b start stop) (bs ++ [⟨false, start, stop⟩]) node torn := by
  unfold Twig.addEndBlock
  cases hstack : stack bs with
  | nil =>
    rw [if_neg fun hkind => h.currentKind?.1 hkind hstack]
    exact h.stray rfl hstack (h.inside.errorLeaf (by decide) true start stop)
  | cons j st =>
    rw [if_pos (h.currentKind?.2 (by simp [hstack]))]
    have hleaf := (h.grown (h.inside.leaf "endblock" false start stop)).congr (or_iff_left not_false)
    exact hleaf.closing (c := ⟨false, start, stop⟩) rfl hstack

theorem addStatement_cons (b : TreeBuilder) (start stop : Nat) (t : Token) (args : List Token) :
    addStatement b start stop (t :: args) =
      if t.isWord "block" then addBlock b start stop args
      else if t.isWord "endblock" then addEndBlock b start stop
      else addTag b start stop (t :: args) := rfl

theorem Tracks.addStatement (h : Tracks b bs node torn) (start stop : Nat) (tokens : List Token) :
    ∃ node', Tracks (addStatement b start stop tokens)
      (bs ++ (bracketOf? start stop tokens).toList) node' torn := by
  have htag : Tracks (addTag b start stop tokens) (bs ++ []) node torn := by
    rw [List.append_nil]
    exact (h.grown (grown_addTag start stop h.inside tokens)).congr (or_iff_left not_false)
  cases tokens with
  | nil => exact ⟨node, htag⟩
  | cons t args =>
    have hblock := addBlock_cases start stop h.inside args
    by_cases hopener : t.isWord "block" = true
    · rw [addStatement_cons, if_pos hopener, bracketOf?, if_pos hopener]
      split at hblock
      · next hshort =>
        obtain ⟨b', hopen, hname⟩ := hblock
        have hopened := h.opening (o := ⟨true, start, stop⟩) rfl hopen
        rw [if_pos hshort]
        exact ⟨_, (hopened.grown hname).congr (or_iff_left not_false)⟩
      · next hlong =>
        refine ⟨node, ?_⟩
        rw [if_neg hlong, Option.toList_none, List.append_nil]
        exact (h.grown hblock).congr (or_iff_left not_false)
    · rw [addStatement_cons, if_neg hopener, bracketOf?, if_neg hopener]
      by_cases hcloser : t.isWord "endblock" = true
      · rw [if_pos hcloser, if_pos hcloser]
        exact ⟨node, h.addEndBlock start stop⟩
      · rw [if_neg hcloser, if_neg hcloser]
        exact ⟨node, htag⟩

theorem Tracks.addSegment (h : Tracks b bs node torn) (pos : Nat) (s : Segment) :
    ∃ node', Tracks (addSegment b pos s) (bs ++ (bracket? pos s).toList) node'
      (torn ∨ s.isClosed = false) := by
  have hpiece : ∀ b' bad, Grown b b' bad → Tracks b' (bs ++ []) node (torn ∨ bad) := by
    intro b' bad hg
    rw [List.append_nil]
    exact h.grown hg
  cases s with
  | text chars =>
    refine ⟨node, (hpiece _ False ?_).congr (by simp [Segment.isClosed])⟩
    unfold Twig.addSegment
    dsimp only
    split
    · exact .refl b
    · exact h.inside.leaf ..
  | comment body closed =>
    exact ⟨node, hpiece _ _ (grown_addClosed _ _ h.inside (by decide) closed)⟩
  | output body closed =>
    exact ⟨node, hpiece _ _ (grown_addClosed _ _ h.inside (by decide) closed)⟩
  | statement body closed =>
    cases closed with
    | true =>
      obtain ⟨node', hnode⟩ := h.addStatement pos
        (pos + Text.byteLength (Segment.statement body true).chars) (tokenize (pos + 2) body)
      exact ⟨node', hnode.congr (by simp [Segment.isClosed])⟩
    | false =>
      exact ⟨node, (hpiece _ True (h.inside.errorLeaf (by decide) true _ _)).congr
        (by simp [Segment.isClosed])⟩

theorem Tracks.addSegments (h : Tracks b bs node torn) (pos : Nat) (segs : List Segment) :
    ∃ node', Tracks (addSegments b pos segs) (bs ++ bracketsFrom pos segs) node'
      (torn ∨ ∃ s ∈ segs, s.isClosed = false) := by
  induction segs generalizing b bs node torn pos with
  | nil =>
    refine ⟨node, ?_⟩
    rw [bracketsFrom, List.append_nil]
    exact h.congr (by simp)
  | cons s segs ih =>
    obtain ⟨_, hone⟩ := h.addSegment pos s
    obtain ⟨node', hrest⟩ := ih hone (pos + Text.byteLength s.chars)
    refine ⟨node', ?_⟩
    rw [bracketsFrom, ← List.append_assoc]
    exact hrest.congr (by simp [or_assoc])

theorem tracks_template (src : Source) :
    Tracks ((TreeBuilder.new src).openNode "template" true 0) [] (fun _ => 0) False where
  root := rfl
  opened := rfl
  top := ⟨Nat.zero_lt_one, rfl⟩
  block j o hj := by simp at hj
  increasing i j hi := absurd hi.lt (by simp)
  spans j k c hm := absurd hm.lt.2 (by simp)
  noBlock i herror := by
    cases i with
    | zero => cases herror
    | succ i => cases herror
  error := by
    refine ⟨?_, by simp [strays, straysFrom]⟩
    rintro ⟨i, herror⟩
    cases i with
    | zero => cases herror
    | succ i => cases herror

end Segments

section Finish

variable {b : TreeBuilder}

theorem closeBlocks_spec {ids : List NodeId} {top : NodeId} (hopened : b.opened = ids ++ [top])
    (hlt : ∀ i ∈ ids, i < b.nodes.size) :
    let b' := closeBlocks b (ids ++ [top])
    b'.opened = [top] ∧ b'.root = b.root ∧ b'.nodes.size = b.nodes.size ∧
      ∀ i, (b'.node i).kind = (b.node i).kind ∧ (b'.node i).startByte = (b.node i).startByte ∧
        (b'.node i).parent = (b.node i).parent ∧
        ((b'.node i).error = true ↔ (b.node i).error = true ∨ i ∈ ids) ∧
        (i ∉ ids → (b'.node i).endByte = (b.node i).endByte) := by
  induction ids generalizing b with
  | nil => exact ⟨hopened, rfl, rfl, fun i => by simp [closeBlocks]⟩
  | cons j ids ih =>
    obtain ⟨k, rest, hrest⟩ : ∃ k rest, ids ++ [top] = k :: rest :=
      List.exists_cons_of_ne_nil (by simp)
    rw [List.cons_append] at hopened ⊢
    have hstep : closeBlocks b (j :: (ids ++ [top])) =
        closeBlocks ((b.close b.sourceLength).markError j) (ids ++ [top]) := by
      rw [hrest, closeBlocks]
      simp
    have hsize : ((b.close b.sourceLength).markError j).nodes.size = b.nodes.size := by
      rw [size_markError, size_close]
    -- Closing the innermost block touches its own entry of the array and no other.
    have hnode : ∀ i, ((b.close b.sourceLength).markError j).node i =
        if j = i then { b.node i with
          endByte := b.sourceLength, endPoint := b.pointAt b.sourceLength, error := true }
        else b.node i := by
      intro i
      rw [node_markError, size_close, node_close hopened]
      by_cases hij : j = i
      · have hi : i < b.nodes.size := hij ▸ hlt j (List.mem_cons_self ..)
        rw [if_pos ⟨hij, hi⟩, if_pos ⟨hij, hi⟩, if_pos hij]
      · rw [if_neg fun h => hij h.1, if_neg fun h => hij h.1, if_neg hij]
    obtain ⟨hopen, hroot, hsize', hnodes⟩ := ih
      (b := (b.close b.sourceLength).markError j)
      (by rw [close_eq hopened]; rfl)
      (fun i hi => hsize ▸ hlt i (List.mem_cons_of_mem _ hi))
    rw [hstep]
    refine ⟨hopen, ?_, hsize'.trans hsize, fun i => ?_⟩
    · rw [hroot, close_eq hopened]
      rfl
    · obtain ⟨hkind, hstart, hparent, herror, hend⟩ := hnodes i
      rw [hnode] at hkind hstart hparent herror hend
      by_cases hij : j = i
      · rw [if_pos hij] at hkind hstart hparent herror hend
        exact ⟨hkind, hstart, hparent, ⟨fun _ => .inr (hij ▸ List.mem_cons_self ..),
          fun _ => herror.2 (.inl rfl)⟩, by simp [hij]⟩
      · rw [if_neg hij] at hkind hstart hparent herror hend
        have hji : i ≠ j := fun h => hij h.symm
        exact ⟨hkind, hstart, hparent, by simp [herror, hji], by simpa [hji] using hend⟩

theorem hasError_iff (t : SyntaxTree) : t.hasError = true ↔ ∃ i, (t.node i).error = true := by
  rw [SyntaxTree.hasError, Array.any_eq_true]
  constructor
  · rintro ⟨i, hi, herror⟩
    refine ⟨i, ?_⟩
    simpa [SyntaxTree.node, Array.getD_eq_getD_getElem?, Array.getElem?_eq_getElem hi] using herror
  · rintro ⟨i, herror⟩
    by_cases hi : i < t.nodes.size
    · refine ⟨i, hi, ?_⟩
      simpa [SyntaxTree.node, Array.getD_eq_getD_getElem?, Array.getElem?_eq_getElem hi] using
        herror
    · have hdefault : t.node i = default := by
        simp [SyntaxTree.node, Array.getD_eq_getD_getElem?,
          Array.getElem?_eq_none (Nat.le_of_not_lt hi)]
      rw [hdefault] at herror
      cases herror

/-- The nodes above the node of a bracket are those that are open where the bracket stands. -/
theorem ancestorsUpTo_eq {t : SyntaxTree} {bs : List Bracket} {node : Nat → NodeId}
    (hroot : t.parent? 0 = none)
    (hparent : ∀ j, OpensAt bs j → t.parent? (node j) = (openNodes node (bs.take j)).head?)
    (hpos : ∀ j, OpensAt bs j → 0 < node j)
    (hincreasing : ∀ i j, OpensAt bs i → OpensAt bs j → i < j → node i < node j)
    {n j : Nat} (hj : OpensAt bs j) (hn : node j ≤ n) :
    t.ancestorsUpTo n (node j) = openNodes node (bs.take j) := by
  induction n generalizing j with
  | zero => exact absurd (hpos j hj) (Nat.not_lt.2 hn)
  | succ n ih =>
    rw [SyntaxTree.ancestorsUpTo, hparent j hj]
    cases hstack : stack (bs.take j) with
    | nil =>
      rw [openNodes, hstack]
      exact congrArg (0 :: ·) (SyntaxTree.ancestorsUpTo_of_root hroot n)
    | cons i st =>
      obtain ⟨before, o, inner, hsplit, rfl, _, _, rfl⟩ := exists_of_stack_cons hstack
      obtain ⟨hi, hij, _⟩ := (mem_stack_take hj).1 (hstack ▸ List.mem_cons_self ..)
      have hbefore : before = bs.take before.length := by
        have htake := congrArg (List.take before.length) hsplit
        rw [List.take_take, Nat.min_eq_left (Nat.le_of_lt hij), List.take_left] at htake
        exact htake.symm
      have hnode : node before.length ≤ n :=
        Nat.le_of_lt_succ (Nat.lt_of_lt_of_le (hincreasing _ _ hi hj hij) hn)
      rw [openNodes, hstack]
      refine congrArg (node before.length :: ·) ((ih hi hnode).trans ?_)
      rw [← hbefore]
      rfl

theorem Tracks.finish {bs : List Bracket} {node : Nat → NodeId} {torn : Prop}
    (h : Tracks b bs node torn) :
    let t := ((closeBlocks b b.opened).close b.sourceLength).finish
    t.size = b.nodes.size ∧ ∀ i,
      t.kind i = (b.node i).kind ∧ (t.node i).startByte = (b.node i).startByte ∧
      t.parent? i = (b.node i).parent ∧
      ((t.node i).error = true ↔ (b.node i).error = true ∨ i ∈ (stack bs).map node) ∧
      (i ≠ 0 → i ∉ (stack bs).map node → (t.node i).endByte = (b.node i).endByte) := by
  intro t
  have hids : ∀ i ∈ (stack bs).map node, i < b.nodes.size := by
    intro i hi
    obtain ⟨j, hj, rfl⟩ := List.mem_map.1 hi
    exact (h.pos (opensAt_of_mem_stack hj)).2
  obtain ⟨hopened, hroot, hsize, hnodes⟩ := closeBlocks_spec h.opened hids
  rw [← show b.opened = (stack bs).map node ++ [0] from h.opened] at hopened hroot hsize hnodes
  -- What is closed at last is the root, and only where it ends is changed by that.
  have ht : t = ⟨((closeBlocks b b.opened).close b.sourceLength).nodes, 0⟩ := by
    change TreeBuilder.finish _ = _
    rw [close_eq hopened, TreeBuilder.finish, setEnd]
    dsimp only [closeUnfinished]
    rw [hroot, h.root]
  have htnode : ∀ i, t.node i = ((closeBlocks b b.opened).close b.sourceLength).node i := by
    intro i
    rw [ht]
    rfl
  refine ⟨?_, fun i => ?_⟩
  · rw [ht]
    exact (size_close ..).trans hsize
  · obtain ⟨hkind, hstart, hparent, herror, hend⟩ := hnodes i
    have houtline : (t.node i).outline = ((closeBlocks b b.opened).node i).outline := by
      rw [htnode, outline_close]
    have hsame : (t.node i).error = ((closeBlocks b b.opened).node i).error :=
      congrArg Outline.error houtline
    refine ⟨(congrArg Outline.kind houtline).trans hkind,
      (congrArg Outline.startByte houtline).trans hstart,
      (congrArg Outline.parent houtline).trans hparent, hsame ▸ herror, fun hi hnot => ?_⟩
    rw [htnode, node_close hopened, if_neg fun hzero => hi hzero.1.symm, hend hnot]

theorem Tracks.reflects {bs : List Bracket} {node : Nat → NodeId} {torn : Prop}
    (h : Tracks b bs node torn) :
    let t := ((closeBlocks b b.opened).close b.sourceLength).finish
    (t.hasError = true ↔ torn ∨ ¬ Balanced bs) ∧ Reflects t bs node := by
  intro t
  obtain ⟨hsize, hnodes⟩ := h.finish
  have hkind : ∀ i, t.kind i = (b.node i).kind := fun i => (hnodes i).1
  have hparent : ∀ i, t.parent? i = (b.node i).parent := fun i => (hnodes i).2.2.1
  have herror : ∀ i, (t.node i).error = true ↔
      (b.node i).error = true ∨ i ∈ (stack bs).map node := fun i => (hnodes i).2.2.2.1
  refine ⟨?_, ⟨fun j o hj ho => ?_, fun i j hi hj => h.inj hi hj, fun i hi => ?_,
    fun j k c hm hk => ?_, fun i j hi hj => ?_⟩⟩
  · rw [hasError_iff, balanced_iff]
    simp only [herror, exists_or, h.error]
    cases hstack : stack bs with
    | nil => cases hstrays : strays bs <;> simp
    | cons j st => simp
  · obtain ⟨_, hlt, hblock⟩ := h.block j o hj ho
    rw [hsize, hkind, (hnodes _).2.1]
    exact ⟨hlt, congrArg Outline.kind hblock, congrArg Outline.startByte hblock⟩
  · rw [hkind] at hi
    rw [herror, or_iff_right fun htrue => h.noBlock i htrue hi, List.mem_map]
    simp only [mem_stack]
  · have hnot : node j ∉ (stack bs).map node := by
      have hclosed := h.notMem_opened hm
      rw [h.opened, openNodes, List.mem_append] at hclosed
      exact fun hmem => hclosed (.inl hmem)
    exact ((hnodes _).2.2.2.2 (Nat.ne_of_gt (h.pos hm.opensAt).1) hnot).trans (h.spans j k c hm hk)
  · -- The way up from a bracket goes through the blocks that are open there.
    have hancestors : t.ancestors (node j) = openNodes node (bs.take j) := by
      refine ancestorsUpTo_eq ?_ (fun k hk => ?_) (fun k hk => (h.pos hk).1) h.increasing hj ?_
      · rw [hparent]
        exact congrArg Outline.parent h.top.2
      · obtain ⟨o, ho, hopens⟩ := hk
        rw [hparent]
        exact congrArg Outline.parent (h.block k o ho hopens).2.2
      · rw [hsize]
        exact Nat.le_of_lt (h.pos hj).2
    rw [hancestors, openNodes, List.mem_append, List.mem_map, List.mem_singleton,
      or_iff_left (Nat.ne_of_gt (h.pos hi).1)]
    constructor
    · rintro ⟨k, hk, hki⟩
      obtain ⟨hopens, hencloses⟩ := (mem_stack_take hj).1 hk
      exact h.inj hopens hi hki ▸ hencloses
    · exact fun hencloses => ⟨i, (mem_stack_take hj).2 ⟨hi, hencloses⟩, rfl⟩

end Finish

/-- A source is cut in one way only. It has no error exactly if its segments are terminated and its
brackets balanced, and its tree shows the brackets. -/
theorem parse_shows_brackets (src : Source) :
    ∃ segs, (∀ segs', Cuts src segs' ↔ segs' = segs) ∧
      ((parse src).hasError = false ↔
        (∀ s ∈ segs, s.isClosed = true) ∧ Balanced (bracketsFrom 0 segs)) ∧
      ∃ node, Reflects (parse src) (bracketsFrom 0 segs) node := by
  obtain ⟨node, htracks⟩ := (tracks_template src).addSegments 0 (cut src)
  obtain ⟨herror, hreflects⟩ := htracks.reflects
  refine ⟨cut src, fun _ => cuts_iff, ?_, node, hreflects⟩
  rw [← Bool.not_eq_true]
  refine (not_congr herror).trans ?_
  simp

end ProjectIndex.Twig
