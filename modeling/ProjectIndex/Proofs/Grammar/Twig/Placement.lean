import Mathlib.Data.List.Basic
import ProjectIndex.Grammar.Twig.Tree
import ProjectIndex.Proofs.Grammar.Twig.Cuts
import ProjectIndex.Proofs.Grammar.Twig.Tokens
import ProjectIndex.Proofs.Tree.Frames
import ProjectIndex.Proofs.Tree.Ranges

/-!
Where the nodes of a Twig tree stand. The segments are read from left to right, and behind each of
them everything that is finished lies before the position reached, and behind the start of the block
it is in.
-/
namespace ProjectIndex.Twig

open ProjectIndex.Text ProjectIndex.Shape TreeBuilder

/-- Whether both ends of a part fall between characters. A part of kind `identifier` is one. -/
def Admitted (src : Source) (s : Shape) : Prop :=
  SyntaxTree.Cuttable src s ∧
    (s.kind = "identifier" → IsIdentifier (slice src s.start s.stop))

/-- The frames of a builder that has read up to an offset, with some blocks open. -/
inductive Placed (src : Source) : List Frame → Nat → Nat → Prop
  | root {done : List Shape} {pos : Nat} (hdone : FitAll (Admitted src) 0 pos done) :
    Placed src [⟨0, "template", true, 0, done⟩] pos 0
  | inner {f : Frame} {outer : List Frame} {pos depth : Nat} (hstart : Boundary src f.start)
    (hkind : f.kind ≠ "identifier") (hdone : FitAll (Admitted src) f.start pos f.done)
    (h : Placed src outer f.start depth) : Placed src (f :: outer) pos (depth + 1)

def Reached (src : Source) (b : TreeBuilder) (pos depth : Nat) : Prop :=
  ∃ fs, b.Stands src fs ∧ Placed src fs pos depth

section Reached

variable {src : Source} {b : TreeBuilder} {fs : List Frame} {pos pos' depth start stop : Nat}
  {kind : String}

theorem Placed.mono (h : Placed src fs pos depth) (hle : pos ≤ pos') :
    Placed src fs pos' depth := by
  cases h with
  | root hdone => exact .root (hdone.mono hle)
  | inner hstart hkind hdone h => exact .inner hstart hkind (hdone.mono hle) h

theorem Placed.add (h : Placed src fs pos depth) :
    ∃ f outer, fs = f :: outer ∧ ∀ s : Shape, s.Fits (Admitted src) → pos ≤ s.start →
      Placed src (f.add s :: outer) s.stop depth := by
  cases h with
  | root hdone =>
    refine ⟨_, [], rfl, fun s hs hle => ?_⟩
    exact .root (hdone.append ⟨hle, hs, Nat.le_refl s.stop⟩)
  | inner hstart hkind hdone h =>
    refine ⟨_, _, rfl, fun s hs hle => ?_⟩
    exact .inner hstart hkind (hdone.append ⟨hle, hs, Nat.le_refl s.stop⟩) h

theorem Reached.mono (h : Reached src b pos depth) (hle : pos ≤ pos') :
    Reached src b pos' depth := by
  obtain ⟨fs, hstands, hplaced⟩ := h
  exact ⟨fs, hstands, hplaced.mono hle⟩

theorem admitted_of_ne {s : Shape} (hstart : Boundary src s.start) (hstop : Boundary src s.stop)
    (hkind : s.kind ≠ "identifier") : Admitted src s :=
  ⟨⟨hstart, hstop⟩, fun h => absurd h hkind⟩

theorem admitted_leaf {named error : Bool} (hstart : Boundary src start)
    (hstop : Boundary src stop) (hkind : kind ≠ "identifier") :
    Admitted src (.leaf kind named error start stop) :=
  admitted_of_ne hstart hstop hkind

theorem Reached.leaf (h : Reached src b pos depth) {named : Bool}
    (hadmitted : Admitted src (.leaf kind named false start stop)) (hpos : pos ≤ start)
    (hle : start ≤ stop) : Reached src (b.leaf kind named start stop) stop depth := by
  obtain ⟨fs, hstands, hplaced⟩ := h
  obtain ⟨f, outer, rfl, hadd⟩ := hplaced.add
  exact ⟨_, hstands.leaf kind named start stop, hadd _ ⟨hadmitted, hle⟩ hpos⟩

theorem Reached.errorLeaf (h : Reached src b pos depth)
    (hadmitted : Admitted src (.leaf kind true true start stop)) (hpos : pos ≤ start)
    (hle : start ≤ stop) : Reached src (addErrorLeaf b kind start stop) stop depth := by
  obtain ⟨fs, hstands, hplaced⟩ := h
  obtain ⟨f, outer, rfl, hadd⟩ := hplaced.add
  exact ⟨_, hstands.errorLeaf kind true start stop, hadd _ ⟨hadmitted, hle⟩ hpos⟩

theorem Reached.openNode (h : Reached src b pos depth) (hkind : kind ≠ "identifier")
    (hstart : Boundary src start) (hpos : pos ≤ start) :
    Reached src (b.openNode kind true start) start (depth + 1) := by
  obtain ⟨fs, hstands, hplaced⟩ := h
  obtain ⟨f, outer, rfl, _⟩ := hplaced.add
  refine ⟨_, hstands.openNode kind true start, ?_⟩
  exact .inner hstart hkind (Nat.le_refl start) (hplaced.mono hpos)

theorem Placed.close (h : Placed src fs pos (depth + 1)) (hstop : Boundary src stop)
    (hpos : pos ≤ stop) :
    ∃ f g outer, fs = f :: g :: outer ∧ ∀ error : Bool,
      Placed src (g.add (f.shape error stop) :: outer) stop depth := by
  cases h with
  | @inner f outer _ _ hstart hkind hdone houter =>
    obtain ⟨g, outer, rfl, hadd⟩ := houter.add
    refine ⟨f, g, outer, rfl, fun error => hadd (f.shape error stop) ?_ (Nat.le_refl f.start)⟩
    exact ⟨admitted_of_ne hstart hstop hkind, hdone.mono hpos⟩

theorem Reached.close (h : Reached src b pos (depth + 1)) (hstop : Boundary src stop)
    (hpos : pos ≤ stop) : Reached src (b.close stop) stop depth := by
  obtain ⟨fs, hstands, hplaced⟩ := h
  obtain ⟨f, g, outer, rfl, hclosed⟩ := hplaced.close hstop hpos
  exact ⟨_, hstands.close stop, hclosed false⟩

end Reached

section Pieces

variable {src : Source} {b : TreeBuilder} {pos depth start stop : Nat}

theorem admitted_token {t : Token} (ht : OccursAt src t.start t.chars)
    (hword : t.isIdentifier = true → IsIdentifier t.chars) {kind : String}
    (hkind : kind = "identifier" → t.isIdentifier = true) :
    Admitted src (.leaf kind true false t.start t.stop) := by
  refine ⟨⟨ht.start, ht.stop⟩, fun h => ?_⟩
  have htext : slice src t.start t.stop = t.chars := ht.slice_eq
  change IsIdentifier (slice src t.start t.stop)
  rw [htext]
  exact hword (hkind h)

theorem reached_token (h : Reached src b pos depth) {t : Token} {ts : List Token}
    (ht : TokensIn src pos stop (t :: ts)) {kind : String}
    (hkind : kind = "identifier" → t.isIdentifier = true) :
    Reached src (b.leaf kind true t.start t.stop) t.stop depth := by
  obtain ⟨hpos, hoccurs, hword, _⟩ := ht
  exact h.leaf (admitted_token hoccurs hword hkind) hpos (Nat.le_add_right ..)

theorem TokensIn.tail {t : Token} {ts : List Token} (h : TokensIn src pos stop (t :: ts)) :
    TokensIn src t.stop stop ts := h.2.2.2

theorem TokensIn.skip {t : Token} {ts : List Token} (h : TokensIn src pos stop (t :: ts)) :
    TokensIn src pos stop ts :=
  h.tail.mono (Nat.le_trans h.1 (Nat.le_add_right ..))

theorem reached_addArguments {ts : List Token} (h : Reached src b pos depth)
    (ht : TokensIn src pos stop ts) : Reached src (addArguments b ts) stop depth := by
  induction ts generalizing b pos with
  | nil => exact h.mono ht
  | cons t ts ih =>
    rw [addArguments]
    cases hkind : t.kind with
    | identifier =>
      have hidentifier : t.isIdentifier = true := by rw [Token.isIdentifier, hkind]; rfl
      exact ih (reached_token h ht fun _ => hidentifier) ht.tail
    | string => exact ih (reached_token h ht (by simp)) ht.tail
    | other => exact ih h ht.skip

structure StatementIn (src : Source) (start stop : Nat) (ts : List Token) : Prop where
  tokens : TokensIn src start stop ts
  start : Boundary src start
  stop : Boundary src stop

theorem reached_addTag {ts : List Token} (h : Reached src b start depth)
    (ht : StatementIn src start stop ts) : Reached src (addTag b start stop ts) stop depth := by
  have hopen : Reached src (b.openNode "tag" true start) start (depth + 1) :=
    h.openNode (by decide) ht.start (Nat.le_refl start)
  rw [addTag.eq_def]
  refine Reached.close ?_ ht.stop (Nat.le_refl stop)
  cases ts with
  | nil => exact hopen.mono ht.tokens.le
  | cons t ts =>
    dsimp only
    split
    · exact reached_addArguments (reached_token hopen ht.tokens (by simp)) ht.tokens.tail
    · exact reached_addArguments hopen ht.tokens

theorem reached_addBlock {ts : List Token} (h : Reached src b start depth)
    (ht : StatementIn src start stop ts) :
    ∃ depth', Reached src (addBlock b start stop ts) stop depth' := by
  have hopen : Reached src (b.openNode "block" true start) start (depth + 1) :=
    h.openNode (by decide) ht.start (Nat.le_refl start)
  rw [addBlock.eq_def]
  cases ts with
  | nil => exact ⟨depth + 1, hopen.mono ht.tokens.le⟩
  | cons t ts =>
    dsimp only [List.tail_cons]
    have hname : ∃ pos, TokensIn src pos stop ts ∧ Reached src
        (if t.isIdentifier then (b.openNode "block" true start).leaf "identifier" true t.start t.stop
          else b.openNode "block" true start) pos (depth + 1) := by
      split
      · next hword =>
        exact ⟨t.stop, ht.tokens.tail, reached_token hopen ht.tokens fun _ => hword⟩
      · exact ⟨start, ht.tokens.skip, hopen⟩
    obtain ⟨pos, htokens, hreached⟩ := hname
    split
    · exact ⟨depth, (reached_addArguments hreached htokens).close ht.stop (Nat.le_refl stop)⟩
    · exact ⟨depth + 1, hreached.mono htokens.le⟩

theorem Reached.currentKind? (h : Reached src b pos 0) : b.currentKind? = some "template" := by
  obtain ⟨fs, hstands, hplaced⟩ := h
  cases hplaced with
  | root => exact hstands.currentKind?

theorem reached_addEndBlock {ts : List Token} (h : Reached src b start depth)
    (ht : StatementIn src start stop ts) :
    ∃ depth', Reached src (addEndBlock b start stop) stop depth' := by
  rw [addEndBlock]
  split
  · next hblock =>
    cases depth with
    | zero =>
      rw [h.currentKind?] at hblock
      simp at hblock
    | succ depth =>
      have hleaf : Reached src (b.leaf "endblock" false start stop) stop (depth + 1) :=
        h.leaf (admitted_leaf ht.start ht.stop (by decide)) (Nat.le_refl start) ht.tokens.le
      exact ⟨depth, hleaf.close ht.stop (Nat.le_refl stop)⟩
  · exact ⟨depth, h.errorLeaf (admitted_leaf ht.start ht.stop (by decide)) (Nat.le_refl start) ht.tokens.le⟩

theorem reached_addStatement {ts : List Token} (h : Reached src b start depth)
    (ht : StatementIn src start stop ts) :
    ∃ depth', Reached src (addStatement b start stop ts) stop depth' := by
  rw [addStatement.eq_def]
  split
  · next t args =>
    split
    · exact reached_addBlock h { ht with tokens := ht.tokens.skip }
    · split
      · exact reached_addEndBlock h ht
      · exact ⟨depth, reached_addTag h ht⟩
  · exact ⟨depth, reached_addTag h ht⟩

theorem reached_addClosed (h : Reached src b start depth) (hstart : Boundary src start)
    (hstop : Boundary src stop) (hle : start ≤ stop) {kind : String} (hkind : kind ≠ "identifier")
    (closed : Bool) : Reached src (addClosed b kind start stop closed) stop depth := by
  rw [addClosed]
  split
  · exact h.leaf (admitted_leaf hstart hstop hkind) (Nat.le_refl start) hle
  · exact h.errorLeaf (admitted_leaf hstart hstop hkind) (Nat.le_refl start) hle

theorem chars_segment (d : Delimiter) (body : List Char) (closed : Bool) :
    (d.segment body closed).chars = d.opening ++ (body ++ if closed then d.closing else []) := by
  cases d <;> cases closed <;> rfl

theorem byteLength_segment (d : Delimiter) (body : List Char) :
    byteLength (d.segment body true).chars = 2 + byteLength body + 2 := by
  have hopening : byteLength d.opening = 2 := by cases d <;> rfl
  have hclosing : byteLength d.closing = 2 := by cases d <;> rfl
  rw [chars_segment, byteLength_append, byteLength_append, if_pos rfl, hopening, hclosing,
    Nat.add_assoc]

theorem reached_addSegment {s : Segment} (h : Reached src b pos depth)
    (hs : OccursAt src pos s.chars) :
    ∃ depth', Reached src (addSegment b pos s) (pos + byteLength s.chars) depth' := by
  have hle : pos ≤ pos + byteLength s.chars := Nat.le_add_right ..
  rw [addSegment.eq_def]
  dsimp only
  split
  · split
    · exact ⟨depth, h.mono hle⟩
    · exact ⟨depth, h.leaf (admitted_leaf hs.start hs.stop (by decide)) (Nat.le_refl pos) hle⟩
  · exact ⟨depth, reached_addClosed h hs.start hs.stop hle (by decide) _⟩
  · exact ⟨depth, reached_addClosed h hs.start hs.stop hle (by decide) _⟩
  · next body =>
    refine reached_addStatement h ⟨?_, hs.start, hs.stop⟩
    -- The body stands behind the two bytes of the delimiter.
    have hbody : OccursAt src (pos + 2) body := (hs.right (x := ['{', '%'])).left
    have htokens := (tokensIn_tokenize hbody).mono (Nat.le_add_right pos 2)
    have hlength := byteLength_segment .statement body
    rw [Delimiter.segment] at hlength
    exact htokens.extend (by omega)
  · exact ⟨depth, h.errorLeaf (admitted_leaf hs.start hs.stop (by decide)) (Nat.le_refl pos) hle⟩

theorem reached_addSegments {segs : List Segment} (h : Reached src b pos depth)
    (hs : OccursAt src pos (segs.flatMap Segment.chars)) :
    ∃ depth', Reached src (addSegments b pos segs)
      (pos + byteLength (segs.flatMap Segment.chars)) depth' := by
  induction segs generalizing b pos depth with
  | nil => exact ⟨depth, h⟩
  | cons s segs ih =>
    rw [List.flatMap_cons] at hs ⊢
    obtain ⟨depth', hnext⟩ := reached_addSegment h hs.left
    rw [addSegments, byteLength_append, ← Nat.add_assoc]
    exact ih hnext hs.right

theorem reached_closeBlocks (h : Reached src b (byteLength src) depth) :
    Reached src (closeBlocks b b.opened) (byteLength src) 0 := by
  induction depth generalizing b with
  | zero =>
    obtain ⟨fs, hstands, hplaced⟩ := h
    cases hplaced with
    | root hdone =>
      rw [hstands.opened]
      exact ⟨_, hstands, .root hdone⟩
  | succ depth ih =>
    obtain ⟨fs, hstands, hplaced⟩ := h
    obtain ⟨f, g, outer, rfl, hclosed⟩ :=
      hplaced.close (boundary_byteLength src) (Nat.le_refl (byteLength src))
    have hnext := hstands.closeError (byteLength src)
    rw [hstands.opened]
    change Reached src (closeBlocks _ ((g :: outer).map Frame.id)) _ 0
    rw [hstands.sourceLength, ← show _ = (g :: outer).map Frame.id from hnext.opened]
    exact ih ⟨_, hnext, hclosed true⟩

end Pieces

theorem Cuts.flatMap_chars {s : List Char} {segs : List Segment} (h : Cuts s segs) :
    segs.flatMap Segment.chars = s := by
  induction h with
  | done => rfl
  | text _ _ _ _ ih => rw [List.flatMap_cons, ih]; rfl
  | @terminated d s body rest segs hbody _ ih =>
    rw [List.flatMap_cons, ih, chars_segment, hbody.1.1]
    simp
  | @unterminated d s _ =>
    rw [List.flatMap_cons, chars_segment]
    simp

/-- The tree of a source is the layout of nested parts, all of which are in their places. -/
theorem parse_placed (src : Source) :
    ∃ done, let shape := Shape.node "template" true false 0 (byteLength src) done
      shape.Fits (Admitted src) ∧ (parse src).root = 0 ∧ (parse src).size = shape.size ∧
        Laid src (parse src).node none 0 shape := by
  have hroot : Reached src ((TreeBuilder.new src).openNode "template" true 0) 0 0 :=
    ⟨_, stands_root src "template" true, .root (Nat.le_refl 0)⟩
  have hwhole : (cut src).flatMap Segment.chars = src := (cuts_cut src).flatMap_chars
  have hat : OccursAt src 0 ((cut src).flatMap Segment.chars) := by
    rw [hwhole]
    exact .self src
  obtain ⟨depth, hread⟩ := reached_addSegments hroot hat
  rw [hwhole, Nat.zero_add] at hread
  obtain ⟨_, hbehind, _⟩ := id hread
  obtain ⟨fs, hstands, hplaced⟩ := reached_closeBlocks hread
  cases hplaced with
  | @root done _ hdone =>
    have hadmitted : Admitted src (.node "template" true false 0 (byteLength src) done) :=
      admitted_of_ne (boundary_zero src) (boundary_byteLength src) (by simp [Shape.kind])
    refine ⟨done, ⟨hadmitted, hdone⟩, ?_⟩
    rw [parse, hbehind.sourceLength]
    exact hstands.finish (byteLength src)

theorem isIdentifier_text {src : Source} {i : Nat} (hi : i < (parse src).size)
    (hkind : (parse src).kind i = "identifier") : IsIdentifier ((parse src).text src i) := by
  obtain ⟨done, hfits, _, hsize, hlaid⟩ := parse_placed src
  obtain ⟨parent, c, hc, _, hlaidC⟩ := hlaid.part hereditary_fits hfits (Nat.zero_le i) (by omega)
  have hnode := (laid_iff.1 hlaidC).1
  rw [SyntaxTree.kind, hnode] at hkind
  rw [SyntaxTree.text, hnode]
  exact (fits_iff.1 hc).1.2 hkind

end ProjectIndex.Twig
