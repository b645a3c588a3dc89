import Mathlib.Data.List.Basic
import ProjectIndex.Tree.Builder

/-!
How a tree grows. A new node hangs under the innermost open node; of the nodes that were there
before, only open ones change, and only in where they end and in their children. So a piece of a
tree that closes what it opens leaves the kinds, starts, parents and errors of all earlier nodes as
they were, and the ends of those that are closed.
-/
namespace ProjectIndex

/-- What stays the same of a node once it was added, unless it turns out to be an error. -/
structure Outline where
  kind : String
  error : Bool
  startByte : Nat
  parent : Option NodeId
deriving DecidableEq

def Node.outline (n : Node) : Outline := ⟨n.kind, n.error, n.startByte, n.parent⟩

namespace Node

def adopting (n : Node) (child stop : Nat) (point : Point) : Node :=
  let n := { n with children := n.children.push child }
  if n.endByte < stop then { n with endByte := stop, endPoint := point } else n

variable (n : Node) (child stop : Nat) (point : Point)

theorem exists_adopting : ∃ stop' point', n.adopting child stop point =
    { n with children := n.children.push child, endByte := stop', endPoint := point' } := by
  rw [adopting]
  dsimp only
  split
  · exact ⟨stop, point, rfl⟩
  · exact ⟨_, _, rfl⟩

theorem outline_adopting : (n.adopting child stop point).outline = n.outline := by
  obtain ⟨_, _, h⟩ := n.exists_adopting child stop point
  rw [h]
  rfl

theorem parent_adopting : (n.adopting child stop point).parent = n.parent :=
  congrArg Outline.parent (n.outline_adopting child stop point)

theorem children_adopting : (n.adopting child stop point).children = n.children.push child := by
  obtain ⟨_, _, h⟩ := n.exists_adopting child stop point
  rw [h]

end Node

namespace TreeBuilder

variable {b b' b'' : TreeBuilder} {i j : NodeId}

def node (b : TreeBuilder) (i : NodeId) : Node := b.nodes.getD i default

theorem node_of_le (h : b.nodes.size ≤ i) : b.node i = default := by
  simp [node, Array.getD_eq_getD_getElem?, Array.getElem?_eq_none h]

theorem getD_modify (nodes : Array Node) (f : Node → Node) (i j : NodeId) :
    (nodes.modify i f).getD j default =
      if i = j ∧ j < nodes.size then f (nodes.getD j default) else nodes.getD j default := by
  simp only [Array.getD_eq_getD_getElem?, Array.getElem?_modify]
  by_cases hij : i = j
  · subst hij
    by_cases hlt : i < nodes.size
    · simp [hlt]
    · simp [hlt]
  · simp [hij]

theorem node_setEnd (b : TreeBuilder) (i stop j : Nat) :
    (b.setEnd i stop).node j =
      if i = j ∧ j < b.nodes.size then
        { b.node j with endByte := stop, endPoint := b.pointAt stop } else b.node j :=
  getD_modify b.nodes _ i j

theorem size_setEnd (b : TreeBuilder) (i stop : Nat) :
    (b.setEnd i stop).nodes.size = b.nodes.size := Array.size_modify ..

theorem node_markError (b : TreeBuilder) (i j : NodeId) :
    (b.markError i).node j =
      if i = j ∧ j < b.nodes.size then { b.node j with error := true } else b.node j :=
  getD_modify b.nodes _ i j

theorem size_markError (b : TreeBuilder) (i : NodeId) :
    (b.markError i).nodes.size = b.nodes.size := Array.size_modify ..

theorem node_adopting (b : TreeBuilder) (p child stop i : Nat) :
    (b.adopt p child stop).node i =
      if p = i ∧ i < b.nodes.size then (b.node i).adopting child stop (b.pointAt stop)
      else b.node i := by
  let b' : TreeBuilder :=
    { b with nodes := b.nodes.modify p fun n => { n with children := n.children.push child } }
  have hsize : b'.nodes.size = b.nodes.size := Array.size_modify ..
  have hnode : ∀ j : Nat, b'.node j =
      if p = j ∧ j < b.nodes.size then
        { b.node j with children := (b.node j).children.push child } else b.node j :=
    fun j => getD_modify b.nodes (fun n => { n with children := n.children.push child }) p j
  have hadopt : b.adopt p child stop =
      if (b'.node p).endByte < stop then b'.setEnd p stop else b' := rfl
  by_cases hi : p = i ∧ i < b.nodes.size
  · obtain ⟨rfl, hlt⟩ := hi
    have hself := hnode p
    rw [if_pos ⟨rfl, hlt⟩] at hself
    have hcover : (b.node p).adopting child stop (b.pointAt stop) =
        if (b'.node p).endByte < stop then
          { b'.node p with endByte := stop, endPoint := b.pointAt stop } else b'.node p := by
      rw [hself]
      rfl
    rw [hadopt, if_pos (And.intro rfl hlt : p = p ∧ p < b.nodes.size), hcover]
    split
    · rw [node_setEnd, if_pos ⟨rfl, hsize ▸ hlt⟩]
      rfl
    · rfl
  · have hother := hnode i
    rw [if_neg hi] at hother
    rw [hadopt, if_neg hi]
    split
    · rw [node_setEnd, hsize, if_neg hi, hother]
    · exact hother

theorem size_adopt (b : TreeBuilder) (p child stop : Nat) :
    (b.adopt p child stop).nodes.size = b.nodes.size := by
  unfold adopt
  dsimp only
  split
  · rw [size_setEnd]
    exact Array.size_modify ..
  · exact Array.size_modify ..

theorem adopt_eq (b : TreeBuilder) (p child stop : Nat) :
    (b.adopt p child stop).opened = b.opened ∧ (b.adopt p child stop).root = b.root ∧
      (b.adopt p child stop).sourceLength = b.sourceLength ∧
      (b.adopt p child stop).lineStarts = b.lineStarts := by
  unfold adopt
  dsimp only
  split <;> exact ⟨rfl, rfl, rfl, rfl⟩

def withNode (b : TreeBuilder) (n : Node) : TreeBuilder := { b with nodes := b.nodes.push n }

theorem size_withNode (b : TreeBuilder) (n : Node) :
    (b.withNode n).nodes.size = b.nodes.size + 1 := Array.size_push ..

theorem node_withNode (b : TreeBuilder) (n : Node) (i : Nat) :
    (b.withNode n).node i = if i = b.nodes.size then n else b.node i := by
  simp only [withNode, node, Array.getD_eq_getD_getElem?, Array.getElem?_push]
  split
  · rfl
  · rfl

theorem node_withNode_of_lt (n : Node) (h : i < b.nodes.size) :
    (b.withNode n).node i = b.node i := by rw [node_withNode, if_neg (Nat.ne_of_lt h)]

theorem node_withNode_size (b : TreeBuilder) (n : Node) :
    (b.withNode n).node b.nodes.size = n := by rw [node_withNode, if_pos rfl]

section Push

variable (kind : String) (named : Bool) (start stop : Nat)

theorem push_of_unattached (h : b.attachment = none) :
    b.push kind named start stop =
      { b.withNode ⟨kind, named, false, start, stop, b.pointAt start, b.pointAt stop, none, #[]⟩ with
        root := some b.nodes.size } := by
  unfold push
  rw [h]
  rfl

theorem push_of_attachment {p : NodeId} (h : b.attachment = some p) :
    b.push kind named start stop =
      (b.withNode ⟨kind, named, false, start, stop, b.pointAt start, b.pointAt stop, some p,
        #[]⟩).adopt p b.nodes.size stop := by
  unfold push
  rw [h]
  rfl

theorem size_push (b : TreeBuilder) :
    (b.push kind named start stop).nodes.size = b.nodes.size + 1 := by
  cases h : b.attachment with
  | none =>
    rw [push_of_unattached kind named start stop h]
    exact size_withNode ..
  | some p => rw [push_of_attachment kind named start stop h, size_adopt, size_withNode]

/-- What a new node is, and what it changes of the others. -/
theorem node_push (hp : ∀ p : Nat, b.attachment = some p → p < b.nodes.size) (i : Nat) :
    (b.push kind named start stop).node i =
      if i = b.nodes.size then
        ⟨kind, named, false, start, stop, b.pointAt start, b.pointAt stop, b.attachment, #[]⟩
      else if b.attachment = some i then (b.node i).adopting b.nodes.size stop (b.pointAt stop)
      else b.node i := by
  cases hparent : b.attachment with
  | none =>
    rw [push_of_unattached kind named start stop hparent, if_neg (nofun : ¬ none = some i)]
    exact node_withNode ..
  | some p =>
    have hlt := hp p hparent
    rw [push_of_attachment kind named start stop hparent, node_adopting, node_withNode, size_withNode]
    by_cases hi : i = b.nodes.size
    · rw [if_neg (by omega), if_pos hi, if_pos hi]
    · rw [if_neg hi, if_neg hi]
      by_cases hpi : p = i
      · rw [if_pos ⟨hpi, hpi ▸ Nat.lt_succ_of_lt hlt⟩, if_pos (congrArg some hpi)]
        rfl
      · rw [if_neg fun h => hpi h.1, if_neg fun h => hpi (Option.some.inj h)]

theorem push_eq (b : TreeBuilder) :
    let b' := b.push kind named start stop
    b'.lineStarts = b.lineStarts ∧ b'.sourceLength = b.sourceLength ∧ b'.opened = b.opened ∧
      b'.root = if b.attachment = none then some b.nodes.size else b.root := by
  intro b'
  cases h : b.attachment with
  | none =>
    have hb' : b' = _ := push_of_unattached kind named start stop h
    rw [hb']
    exact ⟨rfl, rfl, rfl, rfl⟩
  | some p =>
    have hb' : b' = _ := push_of_attachment kind named start stop h
    obtain ⟨hopened, hroot, hlength, hlines⟩ := adopt_eq (b.withNode ⟨kind, named, false, start, stop,
      b.pointAt start, b.pointAt stop, some p, #[]⟩) p b.nodes.size stop
    rw [hb', hlines, hopened, hroot, hlength]
    exact ⟨rfl, rfl, rfl, rfl⟩

theorem push_of_opened {p : NodeId} {rest : List NodeId} (h : b.opened = p :: rest)
    (hp : p < b.nodes.size) :
    let b' := b.push kind named start stop
    b'.root = b.root ∧
      (b'.node b.nodes.size =
        ⟨kind, named, false, start, stop, b.pointAt start, b.pointAt stop, some p, #[]⟩) ∧
      b'.node p = (b.node p).adopting b.nodes.size stop (b.pointAt stop) ∧
      ∀ i < b.nodes.size, i ≠ p → b'.node i = b.node i := by
  have hparent : b.attachment = some p := by simp [attachment, h]
  have hnode := node_push kind named start stop fun q hq =>
    Option.some.inj (hparent.symm.trans hq) ▸ hp
  obtain ⟨_, _, _, hroot⟩ := push_eq kind named start stop b
  rw [hparent] at hroot
  refine ⟨hroot, ?_, ?_, fun i hi hip => ?_⟩
  · rw [hnode, if_pos rfl, hparent]
  · rw [hnode, if_neg (Nat.ne_of_lt hp), if_pos hparent]
  · rw [hnode, if_neg (Nat.ne_of_lt hi), hparent, if_neg fun heq => hip (Option.some.inj heq).symm]

theorem push_spec {p : NodeId} {rest : List NodeId} (h : b.opened = p :: rest)
    (hp : p < b.nodes.size) :
    let b' := b.push kind named start stop
    b'.nodes.size = b.nodes.size + 1 ∧ b'.opened = b.opened ∧ b'.root = b.root ∧
      b'.sourceLength = b.sourceLength ∧
      (∀ i < b.nodes.size, (b'.node i).outline = (b.node i).outline) ∧
      (∀ i < b.nodes.size, i ≠ p → b'.node i = b.node i) ∧
      (b'.node b.nodes.size).outline = ⟨kind, false, start, some p⟩ ∧
      (b'.node b.nodes.size).endByte = stop := by
  obtain ⟨_, hlength, hopened, _⟩ := push_eq kind named start stop b
  obtain ⟨hroot, hnew, hparent, hother⟩ := push_of_opened kind named start stop h hp
  refine ⟨size_push .., hopened, hroot, hlength, fun i hi => ?_, hother, ?_, ?_⟩
  · by_cases hip : i = p
    · rw [hip, hparent, Node.outline_adopting]
    · rw [hother i hi hip]
  · rw [hnew]
    rfl
  · rw [hnew]

end Push

/-- A builder that is inside some open nodes, all of them there. -/
structure Inside (b : TreeBuilder) : Prop where
  opened : b.opened ≠ []
  lt : ∀ i ∈ b.opened, i < b.nodes.size

/-- The builder after a piece of a tree that closes what it opens. Errors in it are no blocks, and
there are some exactly if `bad`. -/
structure Grown (b b' : TreeBuilder) (bad : Prop) : Prop where
  opened : b'.opened = b.opened
  root : b'.root = b.root
  sourceLength : b'.sourceLength = b.sourceLength
  size : b.nodes.size ≤ b'.nodes.size
  outline : ∀ i < b.nodes.size, (b'.node i).outline = (b.node i).outline
  endByte : ∀ i < b.nodes.size, i ∉ b.opened → (b'.node i).endByte = (b.node i).endByte
  noBlock : ∀ i, b.nodes.size ≤ i → (b'.node i).error = true → (b'.node i).kind ≠ "block"
  error : (∃ i, b.nodes.size ≤ i ∧ (b'.node i).error = true) ↔ bad

theorem error_of_le (h : b.nodes.size ≤ i) : (b.node i).error = false := by
  rw [node_of_le h]
  rfl

theorem lt_of_error (h : (b.node i).error = true) : i < b.nodes.size := by
  by_contra hle
  simp [error_of_le (Nat.le_of_not_lt hle)] at h

theorem Grown.refl (b : TreeBuilder) : Grown b b False where
  opened := rfl
  root := rfl
  sourceLength := rfl
  size := Nat.le_refl _
  outline _ _ := rfl
  endByte _ _ _ := rfl
  noBlock i hi herror := absurd herror (by simp [error_of_le hi])
  error := by
    refine ⟨?_, False.elim⟩
    rintro ⟨i, hi, herror⟩
    exact absurd herror (by simp [error_of_le hi])

theorem Grown.inside {bad : Prop} (h : Grown b b' bad) (hb : b.Inside) : b'.Inside := by
  refine ⟨h.opened ▸ hb.opened, fun i hi => ?_⟩
  rw [h.opened] at hi
  exact Nat.lt_of_lt_of_le (hb.lt i hi) h.size

theorem Grown.trans {bad bad' : Prop} (h : Grown b b' bad) (h' : Grown b' b'' bad') :
    Grown b b'' (bad ∨ bad') where
  opened := h'.opened.trans h.opened
  root := h'.root.trans h.root
  sourceLength := h'.sourceLength.trans h.sourceLength
  size := Nat.le_trans h.size h'.size
  outline i hi := (h'.outline i (Nat.lt_of_lt_of_le hi h.size)).trans (h.outline i hi)
  endByte i hi hopen :=
    (h'.endByte i (Nat.lt_of_lt_of_le hi h.size) (h.opened ▸ hopen)).trans (h.endByte i hi hopen)
  noBlock i hi herror := by
    by_cases hlt : i < b'.nodes.size
    · have houtline := h'.outline i hlt
      have hkind : (b''.node i).kind = (b'.node i).kind := congrArg Outline.kind houtline
      have herror' : (b''.node i).error = (b'.node i).error := congrArg Outline.error houtline
      rw [hkind]
      exact h.noBlock i hi (herror' ▸ herror)
    · exact h'.noBlock i (Nat.le_of_not_lt hlt) herror
  error := by
    have hold : ∀ i < b'.nodes.size, (b''.node i).error = (b'.node i).error := fun i hi =>
      congrArg Outline.error (h'.outline i hi)
    rw [← h.error, ← h'.error]
    constructor
    · rintro ⟨i, hi, herror⟩
      by_cases hlt : i < b'.nodes.size
      · exact .inl ⟨i, hi, hold i hlt ▸ herror⟩
      · exact .inr ⟨i, Nat.le_of_not_lt hlt, herror⟩
    · rintro (⟨i, hi, herror⟩ | ⟨i, hi, herror⟩)
      · exact ⟨i, hi, (hold i (lt_of_error herror)).symm ▸ herror⟩
      · exact ⟨i, Nat.le_trans h.size hi, herror⟩

theorem Grown.congr {bad bad' : Prop} (h : Grown b b' bad) (hbad : bad ↔ bad') :
    Grown b b' bad' := { h with error := h.error.trans hbad }

theorem Inside.leaf (hb : b.Inside) (kind : String) (named : Bool) (start stop : Nat) :
    Grown b (b.leaf kind named start stop) False := by
  unfold TreeBuilder.leaf
  obtain ⟨p, rest, hopened⟩ := List.exists_cons_of_ne_nil hb.opened
  have hp : p < b.nodes.size := hb.lt p (by rw [hopened]; exact List.mem_cons_self ..)
  obtain ⟨hsize, hopen, hroot, hlength, houtline, hsame, hnew, _⟩ :=
    push_spec kind named start stop hopened hp
  have herror : ∀ i, b.nodes.size ≤ i →
      ((b.push kind named start stop).node i).error = false := by
    intro i hi
    rcases Nat.lt_or_eq_of_le hi with hlt | rfl
    · exact error_of_le (hsize ▸ hlt)
    · exact congrArg Outline.error hnew
  refine ⟨hopen, hroot, hlength, hsize ▸ Nat.le_succ _, houtline, fun i hi hnot => ?_,
    fun i hi htrue => absurd htrue (by simp [herror i hi]), ⟨?_, False.elim⟩⟩
  · have hip : i ≠ p := fun hip => hnot (by rw [hopened, hip]; exact List.mem_cons_self ..)
    exact congrArg Node.endByte (hsame i hi hip)
  · rintro ⟨i, hi, htrue⟩
    exact absurd htrue (by simp [herror i hi])

theorem Inside.errorLeaf (hb : b.Inside) {kind : String} (hkind : kind ≠ "block") (named : Bool)
    (start stop : Nat) :
    let c := b.leaf kind named start stop
    Grown b (c.markError c.lastId) True := by
  intro c
  obtain ⟨p, rest, hopened⟩ := List.exists_cons_of_ne_nil hb.opened
  have hp : p < b.nodes.size := hb.lt p (by rw [hopened]; exact List.mem_cons_self ..)
  obtain ⟨hsize, _, _, _, _, _, hnew, _⟩ := push_spec kind named start stop hopened hp
  have hgrown : Grown b c False := hb.leaf kind named start stop
  have hcsize : c.nodes.size = b.nodes.size + 1 := hsize
  have hlast : c.lastId = b.nodes.size := by
    rw [lastId, hcsize]
    rfl
  -- The mark changes the new node and no other.
  have hold : ∀ i, i ≠ b.nodes.size → (c.markError c.lastId).node i = c.node i := by
    intro i hi
    rw [node_markError, if_neg fun h => hi (h.1.symm.trans hlast)]
  have hself : (c.markError c.lastId).node b.nodes.size =
      { c.node b.nodes.size with error := true } := by
    rw [node_markError, if_pos ⟨hlast, hcsize ▸ Nat.lt_succ_self _⟩]
  refine ⟨hgrown.opened, hgrown.root, hgrown.sourceLength,
    by rw [size_markError]; exact hgrown.size, fun i hi => ?_, fun i hi hnot => ?_,
    fun i hi htrue => ?_, ⟨fun _ => trivial, fun _ => ⟨b.nodes.size, Nat.le_refl _, ?_⟩⟩⟩
  · rw [hold i (Nat.ne_of_lt hi)]
    exact hgrown.outline i hi
  · rw [hold i (Nat.ne_of_lt hi)]
    exact hgrown.endByte i hi hnot
  · by_cases hi' : i = b.nodes.size
    · rw [hi', hself]
      have hk : (c.node b.nodes.size).kind = kind := congrArg Outline.kind hnew
      exact hk ▸ hkind
    · rw [hold i hi'] at htrue ⊢
      exact hgrown.noBlock i hi htrue
  · rw [hself]

/-- What the opening of a node adds: one node, which is now the innermost open one. -/
structure Opening (b b' : TreeBuilder) (kind : String) (start : Nat) : Prop where
  opened : b'.opened = b.nodes.size :: b.opened
  root : b'.root = b.root
  sourceLength : b'.sourceLength = b.sourceLength
  size : b'.nodes.size = b.nodes.size + 1
  outline : ∀ i < b.nodes.size, (b'.node i).outline = (b.node i).outline
  endByte : ∀ i < b.nodes.size, i ∉ b.opened → (b'.node i).endByte = (b.node i).endByte
  new : (b'.node b.nodes.size).outline = ⟨kind, false, start, b.opened.head?⟩

theorem Inside.openNode (hb : b.Inside) (kind : String) (named : Bool) (start : Nat) :
    Opening b (b.openNode kind named start) kind start := by
  obtain ⟨p, rest, hopened⟩ := List.exists_cons_of_ne_nil hb.opened
  have hp : p < b.nodes.size := hb.lt p (by rw [hopened]; exact List.mem_cons_self ..)
  obtain ⟨hsize, hopen, hroot, hlength, houtline, hsame, hnew, _⟩ :=
    push_spec kind named start start hopened hp
  refine ⟨?_, hroot, hlength, hsize, houtline, fun i hi hnot => ?_, ?_⟩
  · change ((b.push kind named start start).nodes.size - 1) ::
      (b.push kind named start start).opened = _
    rw [hsize, hopen]
    rfl
  · have hip : i ≠ p := fun hip => hnot (by rw [hopened, hip]; exact List.mem_cons_self ..)
    exact congrArg Node.endByte (hsame i hi hip)
  · rw [hopened]
    exact hnew

theorem Opening.error {kind : String} {start : Nat} (h : Opening b b' kind start) (i : NodeId) :
    (b'.node i).error = (b.node i).error := by
  rcases Nat.lt_trichotomy i b.nodes.size with hlt | rfl | hgt
  · exact congrArg Outline.error (h.outline i hlt)
  · rw [error_of_le (Nat.le_refl b.nodes.size)]
    exact congrArg Outline.error h.new
  · rw [error_of_le (Nat.le_of_lt hgt), error_of_le (by rw [h.size]; exact hgt)]

theorem Opening.inside {kind : String} {start : Nat} (h : Opening b b' kind start)
    (hb : b.Inside) : b'.Inside := by
  refine ⟨by rw [h.opened]; simp, fun i hi => ?_⟩
  rw [h.opened, List.mem_cons] at hi
  rw [h.size]
  rcases hi with rfl | hi
  · exact Nat.lt_succ_self _
  · exact Nat.lt_succ_of_lt (hb.lt i hi)

theorem close_eq {rest : List NodeId} (h : b.opened = i :: rest) (stop : Nat) :
    b.close stop = ({ b with opened := rest } : TreeBuilder).setEnd i stop := by
  unfold close
  rw [h]

theorem node_close {rest : List NodeId} (h : b.opened = i :: rest) (stop : Nat) (j : NodeId) :
    (b.close stop).node j =
      if i = j ∧ j < b.nodes.size then
        { b.node j with endByte := stop, endPoint := b.pointAt stop } else b.node j := by
  rw [close_eq h]
  exact node_setEnd _ i stop j

theorem outline_close (b : TreeBuilder) (stop : Nat) (j : NodeId) :
    ((b.close stop).node j).outline = (b.node j).outline := by
  cases h : b.opened with
  | nil =>
    unfold close
    rw [h]
  | cons i rest =>
    rw [node_close h]
    split <;> rfl

theorem size_close (b : TreeBuilder) (stop : Nat) : (b.close stop).nodes.size = b.nodes.size := by
  cases h : b.opened with
  | nil =>
    unfold close
    rw [h]
  | cons i rest =>
    rw [close_eq h]
    exact size_setEnd ..

theorem Opening.close {kind : String} {start : Nat} {bad : Prop} (h : Opening b b' kind start)
    (h' : Grown b' b'' bad) (stop : Nat) : Grown b (b''.close stop) bad := by
  have hopened : b''.opened = b.nodes.size :: b.opened := h'.opened.trans h.opened
  have houtline : ∀ i < b.nodes.size, (b''.node i).outline = (b.node i).outline := fun i hi =>
    (h'.outline i (by rw [h.size]; omega)).trans (h.outline i hi)
  have hnew : (b''.node b.nodes.size).outline = ⟨kind, false, start, b.opened.head?⟩ :=
    (h'.outline _ (by rw [h.size]; omega)).trans h.new
  have herror : ∀ i, ((b''.close stop).node i).error = (b''.node i).error := fun i =>
    congrArg Outline.error (outline_close b'' stop i)
  have hkind : ∀ i, ((b''.close stop).node i).kind = (b''.node i).kind := fun i =>
    congrArg Outline.kind (outline_close b'' stop i)
  -- The node itself is no error, so errors come from what it was filled with.
  have hfilled : ∀ i, b.nodes.size ≤ i → (b''.node i).error = true → b'.nodes.size ≤ i := by
    intro i hi htrue
    rw [h.size]
    rcases Nat.lt_or_eq_of_le hi with hlt | rfl
    · exact hlt
    · have hfalse : (b''.node b.nodes.size).error = false := congrArg Outline.error hnew
      simp [hfalse] at htrue
  refine ⟨?_, ?_, ?_, ?_, fun i hi => (outline_close ..).trans (houtline i hi),
    fun i hi hnot => ?_, fun i hi htrue => ?_, ?_⟩
  · rw [close_eq hopened]
    rfl
  · rw [close_eq hopened]
    exact h'.root.trans h.root
  · rw [close_eq hopened]
    exact h'.sourceLength.trans h.sourceLength
  · rw [size_close]
    exact Nat.le_trans (by rw [h.size]; omega) h'.size
  · have hne : b.nodes.size ≠ i := Nat.ne_of_gt hi
    rw [node_close hopened, if_neg fun hij => hne hij.1,
      h'.endByte i (by rw [h.size]; omega) ?_, h.endByte i hi hnot]
    rw [h.opened, List.mem_cons]
    exact fun hmem => hmem.elim hne.symm hnot
  · rw [hkind]
    rw [herror] at htrue
    exact h'.noBlock i (hfilled i hi htrue) htrue
  · rw [← h'.error]
    simp only [herror]
    constructor
    · rintro ⟨i, hi, htrue⟩
      exact ⟨i, hfilled i hi htrue, htrue⟩
    · rintro ⟨i, hi, htrue⟩
      exact ⟨i, Nat.le_trans (by rw [h.size]; omega) hi, htrue⟩

end TreeBuilder
end ProjectIndex
