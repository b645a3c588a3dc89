import Mathlib.Data.List.Basic
import ProjectIndex.Proofs.Tree.Growth
import ProjectIndex.Proofs.Tree.Layout

/-!
A tree under construction as a stack of frames: an open node with the finished parts below it, the
innermost first. A leaf is a part more of the innermost frame, an opened node a frame more, and a
node that is closed becomes a part of the frame around it. What is left at the end is the nested
tree whose layout the nodes are.
-/
namespace ProjectIndex

/-- An open node and what is finished below it. -/
structure Frame where
  id : Nat
  kind : String
  named : Bool
  start : Nat
  done : List Shape

namespace Frame

def add (f : Frame) (s : Shape) : Frame := { f with done := f.done ++ [s] }

def addAll (f : Frame) (xs : List Shape) : Frame := { f with done := f.done ++ xs }

@[simp]
theorem addAll_nil (f : Frame) : f.addAll [] = f := by rw [addAll, List.append_nil]

theorem addAll_addAll (f : Frame) (xs ys : List Shape) :
    (f.addAll xs).addAll ys = f.addAll (xs ++ ys) := by
  rw [addAll, addAll, addAll, List.append_assoc]

theorem addAll_add (f : Frame) (s : Shape) (xs : List Shape) :
    (f.add s).addAll xs = f.addAll (s :: xs) := f.addAll_addAll [s] xs

def shape (f : Frame) (error : Bool) (stop : Nat) : Shape :=
  .node f.kind f.named error f.start stop f.done

/-- Whether a node is that of the frame. `inner` is its child that is open too, if there is one; where
the node ends is not settled. -/
def IsNode (src : Source) (parent : Option NodeId) (inner : List NodeId) (f : Frame) (n : Node) :
    Prop :=
  ∃ stop point, n = ⟨f.kind, f.named, false, f.start, stop, pointOf src f.start, point, parent,
    (Shape.ids (f.id + 1) f.done ++ inner).toArray⟩

end Frame

def Upright (src : Source) (node : NodeId → Node) : List Frame → List NodeId → Nat → Prop
  | [], _, top => top = 0
  | f :: outer, inner, top =>
    f.IsNode src (outer.head?.map Frame.id) inner (node f.id) ∧
      Shape.LaidAll src node f.id (f.id + 1) f.done ∧
      f.id + 1 + Shape.sizeAll f.done = top ∧ Upright src node outer [f.id] f.id

section Upright

variable {src : Source} {node node' : NodeId → Node} {f g : Frame} {outer : List Frame}
  {inner : List NodeId} {top : Nat}

theorem Upright.congr (h : Upright src node outer inner top)
    (hsame : ∀ i : Nat, i < top → node' i = node i) : Upright src node' outer inner top := by
  induction outer generalizing inner top with
  | nil => exact h
  | cons f outer ih =>
    obtain ⟨hnode, hlaid, htop, houter⟩ := h
    refine ⟨?_, hlaid.congr fun i _ hi => hsame i (by omega), htop,
      ih houter fun i hi => hsame i (by omega)⟩
    rw [hsame f.id (by omega)]
    exact hnode

structure Adopts (src : Source) (node node' : NodeId → Node) (p top : Nat) (s : Shape) : Prop where
  old : ∀ i : Nat, i < top → i ≠ p → node' i = node i
  parent : ∃ stop point, node' p = { node p with
    children := (node p).children.push top, endByte := stop, endPoint := point }
  new : node' top = s.toNode src (some p) top

theorem Frame.IsNode.adopts {parent : Option NodeId} {s : Shape}
    (h : f.IsNode src parent [] (node f.id)) (ha : Adopts src node node' f.id top s) :
    f.IsNode src parent [top] (node' f.id) := by
  obtain ⟨stop, point, hnode⟩ := h
  obtain ⟨stop', point', hparent⟩ := ha.parent
  refine ⟨stop', point', ?_⟩
  rw [hparent, hnode]
  simp

theorem Upright.leaf {s : Shape} (h : Upright src node (f :: outer) [] top)
    (ha : Adopts src node node' f.id top s) (hs : s.children = []) :
    Upright src node' (f.add s :: outer) [] (top + 1) := by
  obtain ⟨hnode, hlaid, htop, houter⟩ := h
  have hsize : s.size = 1 := by rw [Shape.size_eq, hs, Shape.sizeAll]
  have hnew : Shape.Laid src node' (some f.id) top s := by
    rw [Shape.laid_iff, hs]
    exact ⟨ha.new, trivial⟩
  refine ⟨?_, ?_, ?_, houter.congr fun i hi => ha.old i (by omega) (by omega)⟩
  · obtain ⟨stop, point, hnode'⟩ := hnode.adopts ha
    refine ⟨stop, point, hnode'.trans ?_⟩
    simp [Frame.add, Shape.ids_append, Shape.ids, htop]
  · change Shape.LaidAll src node' f.id (f.id + 1) (f.done ++ [s])
    rw [Shape.laidAll_append, htop]
    exact ⟨hlaid.congr fun i _ hi => ha.old i (by omega) (by omega), hnew, trivial⟩
  · change f.id + 1 + Shape.sizeAll (f.done ++ [s]) = top + 1
    rw [Shape.sizeAll_append, Shape.sizeAll, Shape.sizeAll, hsize]
    omega

theorem Upright.opening {s : Shape} (h : Upright src node (f :: outer) [] top)
    (ha : Adopts src node node' f.id top s) (hs : s.children = []) (herror : s.isError = false) :
    Upright src node' (⟨top, s.kind, s.isNamed, s.start, []⟩ :: f :: outer) [] (top + 1) := by
  obtain ⟨hnode, hlaid, htop, houter⟩ := h
  refine ⟨⟨s.stop, pointOf src s.stop, ?_⟩, trivial, rfl, hnode.adopts ha,
    hlaid.congr fun i _ hi => ha.old i (by omega) (by omega), htop,
    houter.congr fun i hi => ha.old i (by omega) (by omega)⟩
  change node' top = _
  rw [ha.new, Shape.toNode, hs, herror]
  rfl

theorem Upright.closing {error : Bool} {stop : Nat} (h : Upright src node (f :: g :: outer) [] top)
    (hold : ∀ i : Nat, i ≠ f.id → node' i = node i)
    (hend : node' f.id = { node f.id with
      endByte := stop, endPoint := pointOf src stop, error := error }) :
    Upright src node' (g.add (f.shape error stop) :: outer) [] top := by
  obtain ⟨hnode, hlaid, htop, hgnode, hglaid, hgtop, houter⟩ := h
  have hshape : Shape.Laid src node' (some g.id) f.id (f.shape error stop) := by
    refine ⟨?_, hlaid.congr fun i _ hi => hold i (by omega)⟩
    obtain ⟨stop', point', hnode⟩ := hnode
    rw [hend, hnode]
    simp [Shape.toNode, Shape.kind, Shape.isNamed, Shape.isError, Shape.start, Shape.stop,
      Shape.children]
  refine ⟨?_, ?_, ?_, houter.congr fun i hi => hold i (by omega)⟩
  · obtain ⟨stop', point', hgnode⟩ := hgnode
    refine ⟨stop', point', ?_⟩
    change node' g.id = _
    rw [hold g.id (by omega), hgnode]
    simp [Frame.add, Shape.ids_append, Shape.ids, hgtop]
  · change Shape.LaidAll src node' g.id (g.id + 1) (g.done ++ [f.shape error stop])
    rw [Shape.laidAll_append, hgtop]
    exact ⟨hglaid.congr fun i _ hi => hold i (by omega), hshape, trivial⟩
  · change g.id + 1 + Shape.sizeAll (g.done ++ [f.shape error stop]) = top
    rw [Shape.sizeAll_append, Shape.sizeAll, Shape.sizeAll, Frame.shape, Shape.size]
    omega

end Upright

namespace TreeBuilder

/-- A builder over a source whose nodes are those of some frames. -/
structure Stands (src : Source) (b : TreeBuilder) (fs : List Frame) : Prop where
  lineStarts : b.lineStarts = lineStartsFrom 0 src
  sourceLength : b.sourceLength = Text.byteLength src
  root : b.root = some 0
  opened : b.opened = fs.map Frame.id
  upright : Upright src b.node fs [] b.nodes.size

section Stands

variable {src : Source} {b : TreeBuilder} {f g : Frame} {fs : List Frame} {kind : String}
  {named : Bool} {start stop : Nat}

theorem pointAt_eq (hlines : b.lineStarts = lineStartsFrom 0 src)
    (hlength : b.sourceLength = Text.byteLength src) (offset : Nat) :
    b.pointAt offset = pointOf src offset := by
  unfold pointOf pointAt
  rw [hlines, hlength]
  rfl

theorem Stands.id_lt (h : Stands src b (f :: fs)) : f.id < b.nodes.size := by
  have htop := h.upright.2.2.1
  omega

theorem Stands.push (h : Stands src b (f :: fs)) (kind : String) (named : Bool) (start stop : Nat) :
    let b' := b.push kind named start stop
    b'.lineStarts = lineStartsFrom 0 src ∧ b'.sourceLength = Text.byteLength src ∧
      b'.root = some 0 ∧ b'.opened = (f :: fs).map Frame.id ∧
      b'.nodes.size = b.nodes.size + 1 ∧
      Adopts src b.node b'.node f.id b.nodes.size (.leaf kind named false start stop) := by
  intro b'
  have hid := h.id_lt
  have hpoint := pointAt_eq h.lineStarts h.sourceLength
  obtain ⟨hlines, hlength, hopened, _⟩ := push_eq kind named start stop b
  obtain ⟨hroot, hnew, hparent, hother⟩ := push_of_opened kind named start stop h.opened hid
  refine ⟨hlines.trans h.lineStarts, hlength.trans h.sourceLength, hroot.trans h.root,
    hopened.trans h.opened, size_push .., fun i hi hne => hother i hi hne, ?_, ?_⟩
  · obtain ⟨stop', point, hcover⟩ :=
      (b.node f.id).exists_adopting b.nodes.size stop (b.pointAt stop)
    exact ⟨stop', point, hparent.trans hcover⟩
  · rw [hnew, hpoint, hpoint]
    rfl

theorem Stands.leaf (h : Stands src b (f :: fs)) (kind : String) (named : Bool) (start stop : Nat) :
    Stands src (b.leaf kind named start stop) (f.add (.leaf kind named false start stop) :: fs) := by
  obtain ⟨hlines, hlength, hroot, hopened, hsize, hadopts⟩ := h.push kind named start stop
  refine ⟨hlines, hlength, hroot, hopened, ?_⟩
  change Upright src (b.push kind named start stop).node _ _ (b.push kind named start stop).nodes.size
  rw [hsize]
  exact h.upright.leaf hadopts rfl

theorem Stands.errorLeaf (h : Stands src b (f :: fs)) (kind : String) (named : Bool)
    (start stop : Nat) :
    let c := b.leaf kind named start stop
    Stands src (c.markError c.lastId) (f.add (.leaf kind named true start stop) :: fs) := by
  intro c
  obtain ⟨hlines, hlength, hroot, hopened, hsize, hadopts⟩ := h.push kind named start stop
  have hcsize : c.nodes.size = b.nodes.size + 1 := hsize
  have hlast : c.lastId = b.nodes.size := by
    rw [lastId, hcsize]
    rfl
  have hnode : ∀ i : Nat, (c.markError c.lastId).node i =
      if b.nodes.size = i then { c.node i with error := true } else c.node i := by
    intro i
    rw [node_markError, hlast, hcsize]
    by_cases hi : b.nodes.size = i
    · rw [if_pos ⟨hi, hi ▸ Nat.lt_succ_self _⟩, if_pos hi]
    · rw [if_neg fun h => hi h.1, if_neg hi]
  have hid := h.id_lt
  refine ⟨hlines, hlength, hroot, hopened, ?_⟩
  rw [size_markError, hcsize]
  refine h.upright.leaf ⟨fun i hi hne => ?_, ?_, ?_⟩ rfl
  · rw [hnode, if_neg (by omega)]
    exact hadopts.old i hi hne
  · obtain ⟨stop', point, hparent⟩ := hadopts.parent
    refine ⟨stop', point, ?_⟩
    rw [hnode, if_neg (by omega)]
    exact hparent
  · rw [hnode, if_pos rfl]
    change { (b.push kind named start stop).node b.nodes.size with error := true } = _
    rw [hadopts.new]
    rfl

theorem Stands.openNode (h : Stands src b (f :: fs)) (kind : String) (named : Bool) (start : Nat) :
    Stands src (b.openNode kind named start) (⟨b.nodes.size, kind, named, start, []⟩ :: f :: fs) := by
  obtain ⟨hlines, hlength, hroot, hopened, hsize, hadopts⟩ := h.push kind named start start
  refine ⟨hlines, hlength, hroot, ?_, ?_⟩
  · change ((b.push kind named start start).nodes.size - 1) ::
      (b.push kind named start start).opened = _
    rw [hsize, hopened]
    rfl
  · change Upright src (b.push kind named start start).node _ _
      (b.push kind named start start).nodes.size
    rw [hsize]
    exact h.upright.opening hadopts rfl rfl

theorem Stands.close (h : Stands src b (f :: g :: fs)) (stop : Nat) :
    Stands src (b.close stop) (g.add (f.shape false stop) :: fs) := by
  have hopened : b.opened = f.id :: g.id :: fs.map Frame.id := h.opened
  have hnode := node_close hopened stop
  obtain ⟨⟨_, _, hfnode⟩, _⟩ := h.upright
  have hid := h.id_lt
  refine ⟨?_, ?_, ?_, ?_, ?_⟩
  · rw [close_eq hopened]
    exact h.lineStarts
  · rw [close_eq hopened]
    exact h.sourceLength
  · rw [close_eq hopened]
    exact h.root
  · rw [close_eq hopened]
    rfl
  · rw [size_close]
    refine h.upright.closing (fun i hi => ?_) ?_
    · rw [hnode, if_neg fun hij => hi hij.1.symm]
    · rw [hnode, if_pos ⟨rfl, hid⟩, pointAt_eq h.lineStarts h.sourceLength, hfnode]

theorem Stands.closeError (h : Stands src b (f :: g :: fs)) (stop : Nat) :
    Stands src ((b.close stop).markError f.id) (g.add (f.shape true stop) :: fs) := by
  have hclosed := h.close stop
  have hopened : b.opened = f.id :: g.id :: fs.map Frame.id := h.opened
  have hid := h.id_lt
  have hnode : ∀ i : Nat, ((b.close stop).markError f.id).node i =
      if f.id = i then { b.node i with
        endByte := stop, endPoint := pointOf src stop, error := true } else b.node i := by
    intro i
    rw [node_markError, size_close, node_close hopened,
      pointAt_eq h.lineStarts h.sourceLength]
    by_cases hi : f.id = i
    · have hlt : i < b.nodes.size := hi ▸ hid
      rw [if_pos ⟨hi, hlt⟩, if_pos ⟨hi, hlt⟩, if_pos hi]
    · rw [if_neg fun h => hi h.1, if_neg fun h => hi h.1, if_neg hi]
  refine ⟨hclosed.lineStarts, hclosed.sourceLength, hclosed.root, hclosed.opened, ?_⟩
  rw [size_markError, size_close]
  refine h.upright.closing (fun i hi => ?_) ?_
  · rw [hnode, if_neg fun hij => hi hij.symm]
  · rw [hnode, if_pos rfl]

/-- The outermost frame, closed, is the nested tree that has been built. -/
theorem Stands.finish (h : Stands src b [f]) (stop : Nat) :
    let t := (b.close stop).finish
    t.root = 0 ∧ t.size = (f.shape false stop).size ∧
      Shape.Laid src t.node none 0 (f.shape false stop) := by
  intro t
  have hopened : b.opened = [f.id] := h.opened
  obtain ⟨⟨_, _, hfnode⟩, hlaid, htop, hzero⟩ := h.upright
  have hid : f.id = 0 := hzero
  have hsome : 0 < b.nodes.size := by omega
  have ht : t = ⟨(b.close stop).nodes, 0⟩ := by
    change TreeBuilder.finish _ = _
    rw [close_eq hopened, TreeBuilder.finish, setEnd]
    dsimp only [closeUnfinished]
    rw [h.root]
  have hnode : ∀ i : Nat, t.node i = (b.close stop).node i := by
    intro i
    rw [ht]
    rfl
  refine ⟨by rw [ht], ?_, ?_, ?_⟩
  · rw [ht]
    change (b.close stop).nodes.size = _
    rw [size_close, Frame.shape, Shape.size]
    omega
  · rw [hnode, node_close hopened, if_pos ⟨hid, hsome⟩,
      pointAt_eq h.lineStarts h.sourceLength, ← hid, hfnode]
    simp [Shape.toNode, Shape.kind, Shape.isNamed, Shape.isError, Shape.start, Shape.stop,
      Shape.children]
  · rw [hid] at hlaid
    refine hlaid.congr fun i hi _ => ?_
    rw [hnode, node_close hopened, if_neg fun hij => absurd (hid.symm.trans hij.1) (Nat.ne_of_lt hi)]

theorem Stands.currentKind? (h : Stands src b (f :: fs)) : b.currentKind? = some f.kind := by
  obtain ⟨⟨_, _, hnode⟩, _⟩ := h.upright
  rw [TreeBuilder.currentKind?, h.opened]
  change some (b.node f.id).kind = _
  rw [hnode]

theorem stands_rootAt (src : Source) (kind : String) (named : Bool) (start : Nat) :
    Stands src ((TreeBuilder.new src).openNode kind named start) [⟨0, kind, named, start, []⟩] where
  lineStarts := rfl
  sourceLength := rfl
  root := rfl
  opened := rfl
  upright := ⟨⟨start, pointOf src start, rfl⟩, trivial, rfl, rfl⟩

theorem stands_root (src : Source) (kind : String) (named : Bool) :
    Stands src ((TreeBuilder.new src).openNode kind named 0) [⟨0, kind, named, 0, []⟩] :=
  stands_rootAt src kind named 0

end Stands
end TreeBuilder
end ProjectIndex
