import Mathlib.Data.List.Induction
import ProjectIndex.Proofs.Tree.Arena
import ProjectIndex.Proofs.Tree.Frames

/-!
Trees built by any calls in any order: nodes closed that were never opened, nodes added when the root is
closed, errors marked on nodes that are not there. The open nodes always stand one below the other, on
the way from the root to the node added last. So a new node hangs under the last one or one above it,
and what comes out is a tree whose nodes stand in pre-order.
-/
namespace ProjectIndex

namespace TreeBuilder

inductive Call where
  | openNode (kind : String) (named : Bool) (start : Nat)
  | leaf (kind : String) (named : Bool) (start stop : Nat)
  | close (stop : Nat)
  | markError (i : NodeId)
deriving DecidableEq

def call (b : TreeBuilder) : Call → TreeBuilder
  | .openNode kind named start => b.openNode kind named start
  | .leaf kind named start stop => b.leaf kind named start stop
  | .close stop => b.close stop
  | .markError i => b.markError i

def after (src : Source) (calls : List Call) : TreeBuilder := calls.foldl call (new src)

def built (src : Source) (calls : List Call) : SyntaxTree := (after src calls).finish

theorem after_concat (src : Source) (calls : List Call) (c : Call) :
    after src (calls ++ [c]) = (after src calls).call c := List.foldl_concat ..

def Call.added? : Call → Option (String × Bool × Nat)
  | .openNode kind named start | .leaf kind named start _ => some (kind, named, start)
  | .close _ | .markError _ => none

def Marks (src : Source) (calls : List Call) (i : NodeId) : Prop :=
  ∃ before behind, calls = before ++ .markError i :: behind ∧ i < (after src before).nodes.size

def tree (b : TreeBuilder) : SyntaxTree := ⟨b.nodes, 0⟩

section Push

variable {b : TreeBuilder} (kind : String) (named : Bool) (start stop : Nat)

theorem parent?_push (hp : ∀ p : Nat, b.attachment = some p → p < b.nodes.size) (i : Nat) :
    (b.push kind named start stop).tree.parent? i =
      if i = b.nodes.size then b.attachment else b.tree.parent? i := by
  have hnode := node_push kind named start stop hp i
  change ((b.push kind named start stop).node i).parent = _
  rw [hnode]
  split
  · rfl
  · split
    · exact Node.parent_adopting ..
    · rfl

theorem children_push (hp : ∀ p : Nat, b.attachment = some p → p < b.nodes.size) (i : Nat) :
    (b.push kind named start stop).tree.children i =
      b.tree.children i ++ if b.attachment = some i then [b.nodes.size] else [] := by
  have hnode := node_push kind named start stop hp i
  have hold : b.tree.children i = (b.node i).children.toList := rfl
  change ((b.push kind named start stop).node i).children.toList = _
  rw [hnode, hold]
  by_cases hi : i = b.nodes.size
  · have hnone : b.attachment ≠ some i := fun h => Nat.ne_of_lt (hp i h) hi
    rw [if_pos hi, if_neg hnone, node_of_le (Nat.le_of_eq hi.symm)]
    rfl
  · rw [if_neg hi]
    split
    · rw [Node.children_adopting, Array.toList_push]
    · exact (List.append_nil _).symm

end Push

/-- A builder of a source, in any state that calls lead to. The open nodes, innermost first, stand one
below the other on the way up from the node added last. -/
structure Consistent (src : Source) (b : TreeBuilder) : Prop where
  lineStarts : b.lineStarts = lineStartsFrom 0 src
  sourceLength : b.sourceLength = Text.byteLength src
  root : b.root = if b.nodes.size = 0 then none else some 0
  inPreorder : b.tree.InPreorder
  points : ∀ i : Nat, i < b.nodes.size →
    (b.node i).startPoint = pointOf src (b.node i).startByte ∧
      (b.node i).endPoint = pointOf src (b.node i).endByte
  lt_size : ∀ o ∈ b.opened, o < b.nodes.size
  nested : b.opened.Pairwise b.tree.Under
  last : ∀ o ∈ b.opened, b.tree.Under (b.nodes.size - 1) o

namespace Consistent

variable {src : Source} {b : TreeBuilder} {i p : Nat}

theorem new (src : Source) : Consistent src (new src) where
  lineStarts := rfl
  sourceLength := rfl
  root := rfl
  inPreorder := {
    parentless := fun i hi => absurd hi (Nat.not_lt_zero i)
    parentsFirst := fun i _ hp => absurd (SyntaxTree.lt_size_of_parent hp) (Nat.not_lt_zero i)
    children := fun _ => rfl
    onward := fun _ _ hp => absurd (SyntaxTree.lt_size_of_parent hp) (Nat.not_lt_zero _) }
  points i hi := absurd hi (Nat.not_lt_zero i)
  lt_size := nofun
  nested := .nil
  last := nofun

theorem pointAt_eq (h : Consistent src b) (offset : Nat) : b.pointAt offset = pointOf src offset :=
  TreeBuilder.pointAt_eq h.lineStarts h.sourceLength offset

/-- A new node hangs under the last one or one above it, and below all open nodes. -/
theorem attachment (h : Consistent src b) :
    (b.attachment = none ↔ b.nodes.size = 0) ∧ ∀ p : Nat, b.attachment = some p →
      p < b.nodes.size ∧ b.tree.Under (b.nodes.size - 1) p ∧ ∀ o ∈ b.opened, b.tree.Under p o := by
  unfold TreeBuilder.attachment
  cases hopened : b.opened with
  | nil =>
    rw [List.head?_nil, h.root]
    by_cases hsize : b.nodes.size = 0
    · rw [if_pos hsize]
      exact ⟨⟨fun _ => hsize, fun _ => rfl⟩, nofun⟩
    · rw [if_neg hsize]
      refine ⟨⟨nofun, fun h => absurd h hsize⟩, fun p hp => ?_⟩
      obtain rfl : 0 = p := Option.some.inj hp
      have hlast : b.nodes.size - 1 < b.tree.size := Nat.sub_one_lt hsize
      exact ⟨Nat.pos_of_ne_zero hsize, h.inPreorder.under_root hlast, nofun⟩
  | cons q rest =>
    have hmem : q ∈ b.opened := hopened ▸ List.mem_cons_self ..
    have hlt := h.lt_size q hmem
    refine ⟨⟨nofun, fun hsize => absurd (hsize ▸ hlt) (Nat.not_lt_zero q)⟩, fun p hp => ?_⟩
    obtain rfl : q = p := Option.some.inj hp
    have hnested := h.nested
    rw [hopened, List.pairwise_cons] at hnested
    exact ⟨hlt, h.last q hmem, List.forall_mem_cons.2 ⟨.refl, hnested.1⟩⟩

theorem push (h : Consistent src b) (kind : String) (named : Bool) (start stop : Nat) :
    Consistent src (b.push kind named start stop) := by
  obtain ⟨hnone, hsome⟩ := h.attachment
  obtain ⟨hlines, hlength, hopened, hroot⟩ := push_eq kind named start stop b
  have hsize := size_push kind named start stop b
  have hlt : ∀ p : Nat, b.attachment = some p → p < b.nodes.size := fun p hp => (hsome p hp).1
  have hparents := parent?_push kind named start stop hlt
  have hmono {x c : Nat} : b.tree.Under x c → (b.push kind named start stop).tree.Under x c :=
    SyntaxTree.Under.mono fun i p hp => by
      have hi : i < b.nodes.size := SyntaxTree.lt_size_of_parent hp
      rw [hparents, if_neg (Nat.ne_of_lt hi), hp]
  refine ⟨hlines.trans h.lineStarts, hlength.trans h.sourceLength, ?_, ?_, fun i hi => ?_,
    fun o ho => ?_, ?_, fun o ho => ?_⟩
  · rw [hroot, hsize, if_neg (Nat.succ_ne_zero _)]
    by_cases hempty : b.nodes.size = 0
    · rw [if_pos (hnone.2 hempty), hempty]
    · rw [if_neg fun heq => hempty (hnone.1 heq), h.root, if_neg hempty]
  · exact h.inPreorder.grow hsize hparents (children_push kind named start stop hlt) hnone fun p hp =>
      ⟨(hsome p hp).1, (hsome p hp).2.1⟩
  · rw [node_push _ _ _ _ hlt]
    split
    · exact ⟨h.pointAt_eq start, h.pointAt_eq stop⟩
    · next hne =>
      have hold := h.points i (by omega)
      split
      · rw [Node.adopting]
        dsimp only
        split
        · exact ⟨hold.1, h.pointAt_eq stop⟩
        · exact hold
      · exact hold
  · rw [hopened] at ho
    exact hsize ▸ Nat.lt_succ_of_lt (h.lt_size o ho)
  · rw [hopened]
    exact h.nested.imp hmono
  · rw [hopened] at ho
    rw [hsize, Nat.add_sub_cancel]
    cases hparent : b.attachment with
    | none => exact absurd (hnone.1 hparent ▸ h.lt_size o ho) (Nat.not_lt_zero o)
    | some p =>
      -- the new node is the last one now, and on its way up come the parent and then all open nodes
      have hstep : (b.push kind named start stop).tree.parent? b.nodes.size = some p := by
        rw [hparents, if_pos rfl, hparent]
      exact .head hstep (hmono ((hsome p hparent).2.2 o ho))

theorem opening (h : Consistent src b) (hsize : 0 < b.nodes.size) :
    Consistent src { b with opened := b.lastId :: b.opened } where
  lineStarts := h.lineStarts
  sourceLength := h.sourceLength
  root := h.root
  inPreorder := h.inPreorder
  points := h.points
  lt_size := List.forall_mem_cons.2 ⟨Nat.sub_one_lt (Nat.ne_of_gt hsize), h.lt_size⟩
  nested := .cons h.last h.nested
  last := List.forall_mem_cons.2 ⟨.refl, h.last⟩

theorem closing {rest : List NodeId} (h : Consistent src b) (hrest : rest <:+ b.opened) :
    Consistent src { b with opened := rest } where
  lineStarts := h.lineStarts
  sourceLength := h.sourceLength
  root := h.root
  inPreorder := h.inPreorder
  points := h.points
  lt_size o ho := h.lt_size o (hrest.subset ho)
  nested := h.nested.sublist hrest.sublist
  last o ho := h.last o (hrest.subset ho)

theorem changing {b' : TreeBuilder} (h : Consistent src b)
    (hsame : b'.lineStarts = b.lineStarts ∧ b'.sourceLength = b.sourceLength ∧ b'.root = b.root ∧
      b'.opened = b.opened ∧ b'.nodes.size = b.nodes.size)
    (hnode : ∀ i : Nat, (b'.node i).parent = (b.node i).parent ∧
      (b'.node i).children = (b.node i).children)
    (hpoints : ∀ i : Nat, i < b.nodes.size →
      (b'.node i).startPoint = pointOf src (b'.node i).startByte ∧
        (b'.node i).endPoint = pointOf src (b'.node i).endByte) : Consistent src b' := by
  obtain ⟨hlines, hlength, hroot, hopened, hsize⟩ := hsame
  have hunder {x c : Nat} : b.tree.Under x c → b'.tree.Under x c :=
    SyntaxTree.Under.mono fun i _ hp => (hnode i).1.trans hp
  refine ⟨hlines.trans h.lineStarts, hlength.trans h.sourceLength, ?_, ?_, ?_, ?_, ?_, ?_⟩
  · rw [hroot, hsize]
    exact h.root
  · exact h.inPreorder.congr hsize (fun i => (hnode i).1) fun i => congrArg Array.toList (hnode i).2
  · rw [hsize]
    exact hpoints
  · rw [hopened, hsize]
    exact h.lt_size
  · rw [hopened]
    exact h.nested.imp hunder
  · rw [hopened, hsize]
    exact fun o ho => hunder (h.last o ho)

theorem setEnd (h : Consistent src b) (i stop : Nat) : Consistent src (b.setEnd i stop) := by
  refine h.changing ⟨rfl, rfl, rfl, rfl, size_setEnd ..⟩ (fun j => ?_) fun j hj => ?_
  · rw [node_setEnd]
    split <;> exact ⟨rfl, rfl⟩
  · rw [node_setEnd]
    split
    · exact ⟨(h.points j hj).1, h.pointAt_eq stop⟩
    · exact h.points j hj

theorem markError (h : Consistent src b) (i : Nat) : Consistent src (b.markError i) := by
  refine h.changing ⟨rfl, rfl, rfl, rfl, size_markError ..⟩ (fun j => ?_) fun j hj => ?_
  · rw [node_markError]
    split <;> exact ⟨rfl, rfl⟩
  · rw [node_markError]
    split
    · exact h.points j hj
    · exact h.points j hj

theorem close (h : Consistent src b) (stop : Nat) : Consistent src (b.close stop) := by
  cases hopened : b.opened with
  | nil =>
    unfold TreeBuilder.close
    rw [hopened]
    exact h
  | cons i rest =>
    rw [close_eq hopened]
    exact (h.closing (hopened ▸ List.suffix_cons i rest)).setEnd i stop

theorem call (h : Consistent src b) (c : Call) : Consistent src (b.call c) := by
  cases c with
  | openNode kind named start =>
    have hsize := size_push kind named start start b
    exact (h.push kind named start start).opening (hsize ▸ Nat.succ_pos _)
  | leaf kind named start stop => exact h.push kind named start stop
  | close stop => exact h.close stop
  | markError i => exact h.markError i

theorem after (src : Source) (calls : List Call) : Consistent src (after src calls) := by
  induction calls using List.reverseRecOn with
  | nil => exact .new src
  | append_singleton calls c ih =>
    rw [after_concat]
    exact ih.call c

theorem closeUnfinished (h : Consistent src b) (is : List NodeId) :
    Consistent src (b.closeUnfinished is) := by
  induction is generalizing b with
  | nil => exact h.closing (List.nil_suffix)
  | cons i is ih => exact ih ((h.markError i).setEnd i _)

end Consistent

section Errors

variable {src : Source} {b : TreeBuilder}

theorem node_closeUnfinished (b : TreeBuilder) (is : List NodeId) (j : Nat) :
    (b.closeUnfinished is).node j =
      if j ∈ is ∧ j < b.nodes.size then
        { b.node j with
          error := true, endByte := b.sourceLength, endPoint := b.pointAt b.sourceLength }
      else b.node j := by
  induction is generalizing b with
  | nil => exact (if_neg fun h => absurd h.1 List.not_mem_nil).symm
  | cons i is ih =>
    let b' := (b.markError i).setEnd i b.sourceLength
    have hsize : b'.nodes.size = b.nodes.size := (size_setEnd ..).trans (size_markError ..)
    have hnode : b'.node j = if i = j ∧ j < b.nodes.size then
        { b.node j with
          error := true, endByte := b.sourceLength, endPoint := b.pointAt b.sourceLength }
        else b.node j := by
      rw [node_setEnd, node_markError, size_markError]
      split
      · rfl
      · rfl
    change (b'.closeUnfinished is).node j = _
    rw [ih b', hsize, hnode]
    by_cases hlt : j < b.nodes.size
    · by_cases hmem : j ∈ is
      · have hthere : j ∈ i :: is ∧ j < b.nodes.size := ⟨List.mem_cons_of_mem i hmem, hlt⟩
        rw [if_pos ⟨hmem, hlt⟩, if_pos hthere]
        split <;> rfl
      · rw [if_neg fun h => hmem h.1]
        by_cases hij : i = j
        · rw [if_pos ⟨hij, hlt⟩, if_pos ⟨hij ▸ List.mem_cons_self .., hlt⟩]
        · rw [if_neg fun h => hij h.1,
            if_neg fun h => (List.mem_cons.1 h.1).elim (Ne.symm hij) hmem]
    · rw [if_neg fun h => hlt h.2, if_neg fun h => hlt h.2, if_neg fun h => hlt h.2]

theorem size_closeUnfinished (b : TreeBuilder) (is : List NodeId) :
    (b.closeUnfinished is).nodes.size = b.nodes.size := by
  induction is generalizing b with
  | nil => rfl
  | cons i is ih => exact (ih _).trans ((size_setEnd ..).trans (size_markError ..))

theorem error_closeUnfinished (h : Consistent src b) (i : Nat) :
    ((b.closeUnfinished b.opened).node i).error = true ↔ (b.node i).error = true ∨ i ∈ b.opened := by
  rw [node_closeUnfinished]
  split
  · next hopen => exact ⟨fun _ => .inr hopen.1, fun _ => rfl⟩
  · next hno => exact ⟨.inl, fun hor => hor.resolve_right fun hi => hno ⟨hi, h.lt_size i hi⟩⟩

theorem endByte_closeUnfinished (h : Consistent src b) {i : Nat} (hi : i ∈ b.opened) :
    ((b.closeUnfinished b.opened).node i).endByte = Text.byteLength src := by
  rw [node_closeUnfinished, if_pos ⟨hi, h.lt_size i hi⟩]
  exact h.sourceLength

theorem error_push (h : Consistent src b) (kind : String) (named : Bool) (start stop i : Nat) :
    ((b.push kind named start stop).node i).error = (b.node i).error := by
  rw [node_push _ _ _ _ fun p hp => (h.attachment.2 p hp).1]
  split
  · next hi => exact (error_of_le (Nat.le_of_eq hi.symm)).symm
  · split
    · exact congrArg Outline.error (Node.outline_adopting ..)
    · rfl

/-- Only a mark on a node that is there makes an error. -/
theorem error_call (h : Consistent src b) (c : Call) (i : Nat) :
    ((b.call c).node i).error = true ↔
      (b.node i).error = true ∨ c = .markError i ∧ i < b.nodes.size := by
  have hother (hc : c ≠ .markError i) (hsame : ((b.call c).node i).error = (b.node i).error) :
      ((b.call c).node i).error = true ↔
        (b.node i).error = true ∨ c = .markError i ∧ i < b.nodes.size := by
    rw [hsame]
    exact ⟨.inl, fun h => h.resolve_right fun hmark => hc hmark.1⟩
  cases c with
  | openNode kind named start => exact hother nofun (error_push h kind named start start i)
  | leaf kind named start stop => exact hother nofun (error_push h kind named start stop i)
  | close stop => exact hother nofun (congrArg Outline.error (outline_close b stop i))
  | markError j =>
    change ((b.markError j).node i).error = true ↔ _
    rw [node_markError]
    split
    · next hij => exact ⟨fun _ => .inr ⟨congrArg Call.markError hij.1, hij.2⟩, fun _ => rfl⟩
    · next hij =>
      exact ⟨.inl, fun h => h.resolve_right fun hmark => hij ⟨Call.markError.inj hmark.1, hmark.2⟩⟩

theorem marks_concat {calls : List Call} {c : Call} {i : NodeId} :
    Marks src (calls ++ [c]) i ↔
      Marks src calls i ∨ c = .markError i ∧ i < (after src calls).nodes.size := by
  constructor
  · rintro ⟨before, behind, hcalls, hi⟩
    rcases List.eq_nil_or_concat behind with rfl | ⟨behind, d, rfl⟩
    · obtain ⟨rfl, hc⟩ := List.append_inj' hcalls rfl
      exact .inr ⟨(List.cons.inj hc).1, hi⟩
    · rw [List.concat_eq_append, ← List.cons_append, ← List.append_assoc] at hcalls
      exact .inl ⟨before, behind, (List.append_inj' hcalls rfl).1, hi⟩
  · rintro (⟨before, behind, rfl, hi⟩ | ⟨rfl, hi⟩)
    · exact ⟨before, behind ++ [c], List.append_assoc .., hi⟩
    · exact ⟨calls, [], rfl, hi⟩

theorem error_after (src : Source) (calls : List Call) (i : NodeId) :
    ((after src calls).node i).error = true ↔ Marks src calls i := by
  induction calls using List.reverseRecOn with
  | nil =>
    refine ⟨fun herror => absurd (lt_of_error herror) (Nat.not_lt_zero i), ?_⟩
    rintro ⟨before, behind, hcalls, _⟩
    simp at hcalls
  | append_singleton calls c ih =>
    rw [after_concat, error_call (.after src calls), ih, marks_concat]

end Errors

section Headings

variable {src : Source} {b b' : TreeBuilder}

def headings (b : TreeBuilder) : List (String × Bool × Nat) :=
  (List.range b.nodes.size).map fun i => ((b.node i).kind, (b.node i).named, (b.node i).startByte)

theorem headings_congr (hsize : b'.nodes.size = b.nodes.size)
    (hnode : ∀ i : Nat, (b'.node i).kind = (b.node i).kind ∧ (b'.node i).named = (b.node i).named ∧
      (b'.node i).startByte = (b.node i).startByte) : b'.headings = b.headings := by
  rw [headings, headings, hsize]
  refine List.map_congr_left fun i _ => ?_
  obtain ⟨hkind, hnamed, hstart⟩ := hnode i
  rw [hkind, hnamed, hstart]

theorem headings_setEnd (b : TreeBuilder) (i stop : Nat) : (b.setEnd i stop).headings = b.headings :=
  headings_congr (size_setEnd ..) fun j => by
    rw [node_setEnd]
    split <;> exact ⟨rfl, rfl, rfl⟩

theorem headings_markError (b : TreeBuilder) (i : NodeId) : (b.markError i).headings = b.headings :=
  headings_congr (size_markError ..) fun j => by
    rw [node_markError]
    split <;> exact ⟨rfl, rfl, rfl⟩

theorem headings_close (b : TreeBuilder) (stop : Nat) : (b.close stop).headings = b.headings := by
  cases hopened : b.opened with
  | nil =>
    unfold close
    rw [hopened]
  | cons i rest =>
    rw [close_eq hopened, headings_setEnd]
    rfl

theorem headings_push (h : Consistent src b) (kind : String) (named : Bool) (start stop : Nat) :
    (b.push kind named start stop).headings = b.headings ++ [(kind, named, start)] := by
  have hnode := node_push kind named start stop fun p hp => (h.attachment.2 p hp).1
  rw [headings, headings, size_push, List.range_succ, List.map_append]
  refine congrArg₂ _ (List.map_congr_left fun i hi => ?_) ?_
  · rw [hnode, if_neg (Nat.ne_of_lt (List.mem_range.1 hi))]
    split
    · obtain ⟨_, _, hcover⟩ := (b.node i).exists_adopting b.nodes.size stop (b.pointAt stop)
      rw [hcover]
    · rfl
  · rw [List.map_singleton, hnode, if_pos rfl]

theorem headings_call (h : Consistent src b) (c : Call) :
    (b.call c).headings = b.headings ++ c.added?.toList := by
  cases c with
  | openNode kind named start => exact headings_push h kind named start start
  | leaf kind named start stop => exact headings_push h kind named start stop
  | close stop => exact (headings_close b stop).trans (List.append_nil _).symm
  | markError i => exact (headings_markError b i).trans (List.append_nil _).symm

theorem headings_after (src : Source) (calls : List Call) :
    (after src calls).headings = calls.filterMap Call.added? := by
  induction calls using List.reverseRecOn with
  | nil => rfl
  | append_singleton calls c ih =>
    rw [after_concat, headings_call (.after src calls), ih, List.filterMap_append]
    cases c <;> rfl

theorem headings_closeUnfinished (b : TreeBuilder) (is : List NodeId) :
    (b.closeUnfinished is).headings = b.headings := by
  induction is generalizing b with
  | nil => rfl
  | cons i is ih => exact (ih _).trans ((headings_setEnd ..).trans (headings_markError ..))

theorem length_headings (b : TreeBuilder) : b.headings.length = b.nodes.size := by
  rw [headings, List.length_map, List.length_range]

end Headings

section Built

variable {b : TreeBuilder} (src : Source) (calls : List Call)

theorem finish_of_root {root : NodeId} (h : (b.closeUnfinished b.opened).root = some root) :
    b.finish = ⟨(b.closeUnfinished b.opened).nodes, root⟩ := by
  unfold finish
  dsimp only
  rw [h]

theorem finish_of_rootless (h : (b.closeUnfinished b.opened).root = none) :
    let b' := b.closeUnfinished b.opened
    b.finish = ⟨(b'.push "document" true 0 b'.sourceLength).nodes, b'.nodes.size⟩ := by
  unfold finish
  dsimp only
  rw [h]

/-- What is said of the nodes that calls add, or of a document if they add none. -/
def added (calls : List Call) : List (String × Bool × Nat) :=
  let headings := calls.filterMap Call.added?
  if headings = [] then [("document", true, 0)] else headings

theorem exists_builder :
    ∃ b : TreeBuilder, built src calls = b.tree ∧ Consistent src b ∧ 0 < b.nodes.size ∧
      b.headings = added calls ∧
      (∀ i : Nat, (b.node i).error = true ↔ Marks src calls i ∨ i ∈ (after src calls).opened) ∧
      ∀ i ∈ (after src calls).opened, (b.node i).endByte = Text.byteLength src := by
  have hafter := Consistent.after src calls
  have herror := error_after src calls
  have hheadings := headings_after src calls
  generalize hb : after src calls = b at hafter herror hheadings ⊢
  let b' := b.closeUnfinished b.opened
  rw [← headings_closeUnfinished b b.opened] at hheadings
  have hclosed : Consistent src b' := hafter.closeUnfinished b.opened
  have hsize : b'.nodes.size = b.nodes.size := size_closeUnfinished b b.opened
  have hflag : ∀ i : Nat, (b'.node i).error = true ↔ Marks src calls i ∨ i ∈ b.opened := fun i => by
    rw [← herror]
    exact error_closeUnfinished hafter i
  have hroot := hclosed.root
  -- A builder without nodes is given a document, and that is all it is given.
  by_cases hempty : b'.nodes.size = 0
  · rw [if_pos hempty] at hroot
    have hnone : b.opened = [] := by
      refine List.eq_nil_iff_forall_not_mem.2 fun o ho => ?_
      exact Nat.not_lt_zero o (hempty ▸ hsize ▸ hafter.lt_size o ho)
    refine ⟨b'.push "document" true 0 b'.sourceLength, ?_, hclosed.push .., ?_, ?_, fun i => ?_, ?_⟩
    · rw [built, hb, finish_of_rootless hroot]
      exact congrArg (SyntaxTree.mk _) hempty
    · rw [size_push]
      exact Nat.succ_pos _
    · have hnothing : b'.headings = [] :=
        List.length_eq_zero_iff.1 ((length_headings b').trans hempty)
      rw [headings_push hclosed, added, ← hheadings, if_pos hnothing, hnothing]
      rfl
    · rw [error_push hclosed]
      exact hflag i
    · rw [hnone]
      exact nofun
  · rw [if_neg hempty] at hroot
    refine ⟨b', ?_, hclosed, Nat.pos_of_ne_zero hempty, ?_, hflag,
      fun i hi => endByte_closeUnfinished hafter hi⟩
    · rw [built, hb, finish_of_root hroot]
      rfl
    · have hsome : b'.headings ≠ [] := fun hnil =>
        hempty ((length_headings b').symm.trans (congrArg List.length hnil))
      rw [added, ← hheadings, if_neg hsome]

theorem inPreorder_built : (built src calls).InPreorder := by
  obtain ⟨b, hbuilt, hb, _⟩ := exists_builder src calls
  rw [hbuilt]
  exact hb.inPreorder

end Built
end TreeBuilder

/-- Whether a tree over a source is one: a single root comes first, parents and children know each
other, the array is the recursive pre-order, and points are those of the offsets. -/
structure SyntaxTree.WellFormed (src : Source) (t : SyntaxTree) : Prop where
  root : t.root = 0 ∧ 0 < t.size
  parentless : ∀ i : Nat, i < t.size → (t.parent? i = none ↔ i = 0)
  childOnce : ∀ p i : Nat, (t.children p).count i = if t.parent? i = some p then 1 else 0
  parentsFirst : ∀ i p : Nat, t.parent? i = some p → p < i
  increasing : ∀ p : Nat, (t.children p).Pairwise (· < ·)
  preordered : ∀ depth : Nat, t.size ≤ depth →
    preorder t.children depth t.root = List.range t.size
  points : ∀ i : Nat, i < t.size →
    (t.node i).startPoint = (TreeBuilder.new src).pointAt (t.node i).startByte ∧
      (t.node i).endPoint = (TreeBuilder.new src).pointAt (t.node i).endByte

namespace TreeBuilder

/-- Any calls build a tree of the nodes they add. Its errors are the nodes marked as such when they were
there, and those that were still open at the end, which reach to the end of the source. -/
theorem built_wellFormed (src : Source) (calls : List Call) :
    let t := built src calls
    t.WellFormed src ∧
      ((List.range t.size).map fun i => (t.kind i, t.isNamed i, (t.node i).startByte)) = added calls ∧
      (∀ i : Nat, (t.node i).error = true ↔ Marks src calls i ∨ i ∈ (after src calls).opened) ∧
      ∀ i ∈ (after src calls).opened, (t.node i).endByte = Text.byteLength src := by
  intro t
  obtain ⟨b, hbuilt, hb, hpos, hheadings, herror, hend⟩ := exists_builder src calls
  have ht : t = b.tree := hbuilt
  have htree := hb.inPreorder
  rw [ht]
  refine ⟨⟨⟨rfl, hpos⟩, htree.parentless, fun p i => ?_, htree.parentsFirst, htree.pairwise_children,
    fun depth => htree.preorder_children hpos, hb.points⟩, hheadings, herror, hend⟩
  have hnodup : (b.tree.children p).Nodup := (htree.pairwise_children p).imp Nat.ne_of_lt
  rw [hnodup.count]
  simp only [htree.mem_children]

/-- A close too many, a node added when the root is closed, a mark on a node that is not there, and a
node left open. -/
theorem built_wellFormed_unbalanced :
    let src := "abc".toList
    let calls : List Call := [.close 1, .openNode "a" true 0, .close 1, .leaf "b" true 1 2,
      .markError 1, .markError 2, .openNode "c" true 2]
    let t := built src calls
    t.WellFormed src ∧ t.children 0 = [1, 2] ∧ (t.node 1).error = true ∧ (t.node 2).error = true ∧
      (t.node 2).endByte = 3 ∧ Marks src calls 1 ∧ ¬ Marks src calls 0 := by
  intro src calls t
  obtain ⟨hwellFormed, _, herror, hend⟩ := built_wellFormed src calls
  have hopened : 2 ∈ (after src calls).opened := by decide
  have hmarked : Marks src calls 1 := ⟨calls.take 4, calls.drop 5, rfl, by decide⟩
  have hunmarked : ¬ (t.node 0).error = true := by decide
  exact ⟨hwellFormed, by decide, (herror 1).2 (.inl hmarked), (herror 2).2 (.inr hopened),
    hend 2 hopened, hmarked, fun hmarks => hunmarked ((herror 0).2 (.inl hmarks))⟩

end TreeBuilder

end ProjectIndex
