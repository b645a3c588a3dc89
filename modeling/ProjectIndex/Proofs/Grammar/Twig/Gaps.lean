import Mathlib.Data.List.Basic
import ProjectIndex.Grammar.Twig.Tree
import ProjectIndex.Proofs.Grammar.Twig.Placement
import ProjectIndex.Proofs.Grammar.Twig.Statements
import ProjectIndex.Proofs.Tree.Reading
import ProjectIndex.Proofs.Tree.Tiling

/-!
What the nodes of a Twig tree leave out. Each segment continues where the one before it ended, and a
text that leaves no node is blank. So the children of the root tile the source but for blanks, and
the children of a block tile what lies behind its opening statement; only the tokens inside a
statement may leave more than blanks between them.
-/
namespace ProjectIndex.Twig

open ProjectIndex.Text ProjectIndex.Shape TreeBuilder

def StatementAt (src : Source) (start : Nat) (body : List Char) : Prop :=
  ∃ before behind rest, src = before ++ (Delimiter.statement.opening ++ behind) ∧
    byteLength before = start ∧
    EndsFirst Delimiter.statement.Counts Delimiter.statement.closing behind body rest

def statementStop (start : Nat) (body : List Char) : Nat := start + 2 + byteLength body + 2

/-- Whether the statement of a block has a body of its own: tokens behind the name. -/
def Shorthand (start : Nat) (body : List Char) : Prop := 2 < (tokenize (start + 2) body).length

def BlockTiled (src : Source) (s : Shape) : Prop :=
  s.kind = "block" → ∃ body, StatementAt src s.start body ∧ (Shorthand s.start body ∨
    ∃ name inside, s.children = name ++ inside ∧
      (∀ c ∈ name, c.start < statementStop s.start body) ∧
      Tiles src (statementStop s.start body) s.stop (inside.map range))

/-- The frames of a builder that has read up to an offset without leaving out more than blanks. -/
inductive Tiled (src : Source) : List Frame → Nat → Prop
  | root {done : List Shape} {pos : Nat} (htiles : Tiles src 0 pos (done.map range))
    (hdone : ∀ s ∈ done, s.Throughout (BlockTiled src)) :
    Tiled src [⟨0, "template", true, 0, done⟩] pos
  | inner {id start pos : Nat} {body : List Char} {name inside : List Shape} {outer : List Frame}
    (hat : StatementAt src start body) (hname : ∀ s ∈ name, s.start < statementStop start body)
    (htiles : Tiles src (statementStop start body) pos (inside.map range))
    (hdone : ∀ s ∈ name ++ inside, s.Throughout (BlockTiled src)) (h : Tiled src outer start) :
    Tiled src (⟨id, "block", true, start, name ++ inside⟩ :: outer) pos

section Frames

variable {src : Source} {b : TreeBuilder} {f : Frame} {fs outer : List Frame}
  {pos start stop : Nat} {kind : String}

theorem throughout_of_ne {s : Shape} (hkind : s.kind ≠ "block")
    (hbelow : ∀ c ∈ s.children, c.Throughout (BlockTiled src)) : s.Throughout (BlockTiled src) :=
  .intro (fun h => absurd h hkind) hbelow

theorem throughout_leaf (hkind : kind ≠ "block") (named error : Bool) :
    (Shape.leaf kind named error start stop).Throughout (BlockTiled src) :=
  throughout_of_ne hkind (List.forall_mem_nil _)

theorem Tiled.blank (h : Tiled src fs pos) (hblank : BlankBetween src pos stop) :
    Tiled src fs stop := by
  cases h with
  | root htiles hdone => exact .root (htiles.blank hblank) hdone
  | inner hat hname htiles hdone h => exact .inner hat hname (htiles.blank hblank) hdone h

theorem Tiled.exists_cons (h : Tiled src fs pos) : ∃ f outer, fs = f :: outer := by
  cases h with
  | root => exact ⟨_, _, rfl⟩
  | inner => exact ⟨_, _, rfl⟩

theorem Tiled.exists_outer (h : Tiled src (f :: fs) pos) (hkind : f.kind = "block") :
    ∃ g outer, fs = g :: outer := by
  cases h with
  | root => simp at hkind
  | inner _ _ _ _ h => exact h.exists_cons

theorem throughout_concat {xs : List Shape} {s : Shape}
    (hxs : ∀ c ∈ xs, c.Throughout (BlockTiled src)) (hs : s.Throughout (BlockTiled src)) :
    ∀ c ∈ xs ++ [s], c.Throughout (BlockTiled src) := by
  intro c hc
  rcases List.mem_append.1 hc with hc | hc
  · exact hxs c hc
  · rw [List.mem_singleton.1 hc]
    exact hs

theorem Tiled.add (h : Tiled src (f :: outer) pos) {s : Shape} (hs : s.Throughout (BlockTiled src))
    (hstart : s.start = pos) (hstop : s.stop = stop) (hle : pos ≤ stop) (hbound : Boundary src stop) :
    Tiled src (f.add s :: outer) stop := by
  have hrange : ∀ xs : List Shape, (xs ++ [s]).map range = xs.map range ++ [(pos, stop)] := by
    intro xs
    rw [List.map_append, List.map_singleton, range, hstart, hstop]
  cases h with
  | root htiles hdone =>
    have hmore := htiles.add hle hbound
    rw [← hrange] at hmore
    exact .root hmore (throughout_concat hdone hs)
  | inner hat hname htiles hdone h =>
    have hmore := htiles.add hle hbound
    have hall := throughout_concat hdone hs
    rw [← hrange] at hmore
    rw [List.append_assoc] at hall
    rw [Frame.add, List.append_assoc]
    exact .inner hat hname hmore hall h

theorem Tiled.close {g : Frame} (h : Tiled src (f :: g :: outer) pos) (hpos : Boundary src pos)
    (error : Bool) : Tiled src (g.add (f.shape error pos) :: outer) pos := by
  cases h with
  | @inner id start _ body name inside _ hat hname htiles hdone h =>
    have hle : start ≤ pos := by
      have hbehind := htiles.le
      rw [statementStop] at hbehind
      omega
    refine h.add (.intro (fun _ => ?_) hdone) rfl rfl hle hpos
    exact ⟨body, hat, .inr ⟨name, inside, rfl, hname, htiles⟩⟩

end Frames

section Reading

variable {src : Source} {b : TreeBuilder} {pos start stop : Nat} {kind : String}
  {body : List Char}

/-- A builder that has read up to an offset and left out blanks only. -/
def Gapless (src : Source) (b : TreeBuilder) (pos : Nat) : Prop :=
  ∃ fs, b.Stands src fs ∧ Tiled src fs pos

theorem StatementAt.occurs (h : StatementAt src start body) :
    OccursAt src start (Delimiter.statement.opening ++ (body ++ Delimiter.statement.closing)) := by
  obtain ⟨before, behind, rest, hsplit, hstart, hbody, -⟩ := h
  refine ⟨before, rest, ?_, hstart⟩
  rw [hsplit, hbody.1]
  simp only [List.append_assoc]

theorem le_statementStop (start : Nat) (body : List Char) : start ≤ statementStop start body := by
  rw [statementStop]
  omega

theorem StatementAt.boundary (h : StatementAt src start body) :
    Boundary src (statementStop start body) := by
  have hstop := h.occurs.stop
  rw [byteLength_append, byteLength_append] at hstop
  have hlength : statementStop start body = start + (byteLength Delimiter.statement.opening +
      (byteLength body + byteLength Delimiter.statement.closing)) := by
    change start + 2 + byteLength body + 2 = start + (2 + (byteLength body + 2))
    omega
  rw [hlength]
  exact hstop

theorem TokensIn.start_le {pos stop : Nat} {t : Token} {ts : List Token}
    (h : TokensIn src pos stop ts) (ht : t ∈ ts) : t.start ≤ stop := by
  induction ts generalizing pos with
  | nil => cases ht
  | cons u ts ih =>
    rcases List.mem_cons.1 ht with rfl | ht
    · have htail := h.tail.le
      rw [Token.stop] at htail
      omega
    · exact ih h.tail ht

theorem StatementAt.start_lt (h : StatementAt src start body) {t : Token}
    (ht : t ∈ tokenize (start + 2) body) : t.start < statementStop start body := by
  have hbody : OccursAt src (start + 2) body := h.occurs.right.left
  have hle := (tokensIn_tokenize hbody).start_le ht
  rw [statementStop]
  omega

section Leaves

variable (h : Gapless src b pos) (hkind : kind ≠ "block") (hle : pos ≤ stop)
  (hstop : Boundary src stop)

include h hkind hle hstop

theorem Gapless.leaf (named : Bool) : Gapless src (b.leaf kind named pos stop) stop := by
  obtain ⟨fs, hstands, htiled⟩ := h
  obtain ⟨f, outer, rfl⟩ := htiled.exists_cons
  refine ⟨_, hstands.leaf kind named pos stop, ?_⟩
  exact htiled.add (throughout_leaf hkind ..) rfl rfl hle hstop

theorem Gapless.errorLeaf : Gapless src (addErrorLeaf b kind pos stop) stop := by
  obtain ⟨fs, hstands, htiled⟩ := h
  obtain ⟨f, outer, rfl⟩ := htiled.exists_cons
  refine ⟨_, hstands.errorLeaf kind true pos stop, ?_⟩
  exact htiled.add (throughout_leaf hkind ..) rfl rfl hle hstop

theorem Gapless.addClosed (closed : Bool) : Gapless src (addClosed b kind pos stop closed) stop := by
  rw [Twig.addClosed]
  split
  · exact h.leaf hkind hle hstop true
  · exact h.errorLeaf hkind hle hstop

end Leaves

section Statement

variable (h : Gapless src b start) (hat : StatementAt src start body)

include h hat

theorem Gapless.addTag (tokens : List Token) :
    Gapless src (addTag b start (statementStop start body) tokens) (statementStop start body) := by
  obtain ⟨fs, hstands, htiled⟩ := h
  obtain ⟨f, outer, rfl⟩ := htiled.exists_cons
  have hall : ∀ s ∈ tagShapes tokens, s.Throughout (BlockTiled src) :=
    forall_mem_tagShapes (fun kind start stop hkind => throughout_leaf
      (by rcases hkind with rfl | rfl | rfl <;> decide) ..) tokens
  refine ⟨_, stands_tagShapes tokens hstands, ?_⟩
  exact htiled.add (throughout_of_ne (by simp [Shape.kind]) hall) rfl rfl (le_statementStop ..)
    hat.boundary

theorem Gapless.addBlock {keyword : Token} {args : List Token}
    (hargs : tokenize (start + 2) body = keyword :: args) :
    Gapless src (addBlock b start (statementStop start body) args) (statementStop start body) := by
  obtain ⟨fs, hstands, htiled⟩ := h
  obtain ⟨f, outer, rfl⟩ := htiled.exists_cons
  have hall : ∀ s ∈ openingShapes args, s.Throughout (BlockTiled src) :=
    forall_mem_openingShapes (fun kind start stop hkind => throughout_leaf
      (by rcases hkind with rfl | rfl <;> decide) ..) args
  refine ⟨_, stands_openingShapes args hstands, ?_⟩
  split
  · refine htiled.add (.intro (fun _ => ?_) hall) rfl rfl (le_statementStop ..) hat.boundary
    refine ⟨body, hat, .inl ?_⟩
    change 2 < (tokenize (start + 2) body).length
    rw [hargs, List.length_cons]
    omega
  · have hname : ∀ x ∈ openingShapes args, x.start < statementStop start body := by
      intro x hx
      obtain ⟨t, ht, heq⟩ := start_of_mem_openingShapes hx
      rw [heq]
      exact hat.start_lt (by rw [hargs]; exact List.mem_cons_of_mem _ ht)
    have hnone : Tiles src (statementStop start body) (statementStop start body)
        (([] : List Shape).map range) := BlankBetween.refl hat.boundary
    rw [← List.append_nil (openingShapes args)]
    exact .inner hat hname hnone (by rw [List.append_nil]; exact hall) htiled

theorem Gapless.addEndBlock :
    Gapless src (addEndBlock b start (statementStop start body)) (statementStop start body) := by
  rw [Twig.addEndBlock]
  split
  · next hblock =>
    obtain ⟨fs, hstands, htiled⟩ := h
    obtain ⟨f, outer, rfl⟩ := htiled.exists_cons
    have hkind : f.kind = "block" := by
      rw [hstands.currentKind?] at hblock
      exact Option.some.inj hblock
    obtain ⟨g, outer, rfl⟩ := htiled.exists_outer hkind
    have hleaf : Tiled src
        (f.add (.leaf "endblock" false false start (statementStop start body)) :: g :: outer)
        (statementStop start body) :=
      htiled.add (throughout_leaf (by decide) ..) rfl rfl (le_statementStop ..) hat.boundary
    exact ⟨_, (hstands.leaf "endblock" false start (statementStop start body)).close _,
      hleaf.close hat.boundary false⟩
  · exact h.errorLeaf (by decide) (le_statementStop ..) hat.boundary

theorem Gapless.addStatement : Gapless src
    (addStatement b start (statementStop start body) (tokenize (start + 2) body))
    (statementStop start body) := by
  rw [Twig.addStatement.eq_def]
  split
  · next keyword args hargs =>
    split
    · exact h.addBlock hat hargs
    · split
      · exact h.addEndBlock hat
      · exact h.addTag hat _
  · exact h.addTag hat _

end Statement

theorem Gapless.addSegment {before rest : List Char} {s : Segment}
    (hsrc : src = before ++ s.chars ++ rest)
    (hstatement : ∀ body, s = .statement body true → StatementAt src (byteLength before) body)
    (h : Gapless src b (byteLength before)) :
    Gapless src (addSegment b (byteLength before) s) (byteLength (before ++ s.chars)) := by
  have hoccurs : OccursAt src (byteLength before) s.chars := ⟨before, rest, hsrc, rfl⟩
  have hle := Nat.le_add_right (byteLength before) (byteLength s.chars)
  have hstop := hoccurs.stop
  rw [byteLength_append, Twig.addSegment.eq_def]
  dsimp only
  split
  · next chars =>
    split
    · next hblank =>
      obtain ⟨fs, hstands, htiled⟩ := h
      exact ⟨fs, hstands, htiled.blank ⟨chars, hoccurs, rfl, List.all_eq_true.1 hblank⟩⟩
    · exact h.leaf (by decide) hle hstop true
  · exact h.addClosed (by decide) hle hstop _
  · exact h.addClosed (by decide) hle hstop _
  · next body =>
    have hlength : byteLength before + byteLength (Segment.statement body true).chars =
        statementStop (byteLength before) body := by
      have hsegment := byteLength_segment .statement body
      rw [Delimiter.segment] at hsegment
      rw [hsegment, statementStop]
      omega
    rw [hlength]
    exact h.addStatement (hstatement body rfl)
  · exact h.errorLeaf (by decide) hle hstop

theorem Gapless.addSegments {before s : List Char} {segs : List Segment} (hcuts : Cuts s segs)
    (hsrc : src = before ++ s) (h : Gapless src b (byteLength before)) :
    Gapless src (addSegments b (byteLength before) segs) (byteLength src) := by
  induction hcuts generalizing b before with
  | done =>
    rw [List.append_nil] at hsrc
    rw [hsrc] at h ⊢
    exact h
  | @text chars rest segs _ _ _ _ ih =>
    have hsplit : src = before ++ (Segment.text chars).chars ++ rest := by
      rw [hsrc, List.append_assoc]
      rfl
    have hrest := ih hsplit (h.addSegment hsplit nofun)
    rw [byteLength_append] at hrest
    exact hrest
  | @terminated d s body rest segs hbody _ ih =>
    have hsplit : src = before ++ (d.segment body true).chars ++ rest := by
      rw [hsrc, chars_segment, hbody.1.1, if_pos rfl]
      simp only [List.append_assoc]
    have hstatement : ∀ body', d.segment body true = .statement body' true →
        StatementAt src (byteLength before) body' := by
      intro body' heq
      cases d with
      | comment => cases heq
      | output => cases heq
      | statement =>
        cases heq
        exact ⟨before, s, rest, hsrc, rfl, hbody⟩
    have hrest := ih hsplit (h.addSegment hsplit hstatement)
    rw [byteLength_append] at hrest
    exact hrest
  | @unterminated d s _ =>
    have hsplit : src = before ++ (d.segment s false).chars ++ [] := by
      rw [hsrc, chars_segment, List.append_nil, if_neg Bool.false_ne_true, List.append_nil]
    have hstatement : ∀ body', d.segment s false = .statement body' true →
        StatementAt src (byteLength before) body' := by
      intro body' heq
      cases d <;> cases heq
    have hlast := h.addSegment hsplit hstatement
    rw [List.append_nil] at hsplit
    rw [← hsplit] at hlast
    exact hlast

theorem Gapless.closeBlocks (h : Gapless src b (byteLength src)) :
    ∃ done, (closeBlocks b b.opened).Stands src [⟨0, "template", true, 0, done⟩] ∧
      Tiles src 0 (byteLength src) (done.map range) ∧
      ∀ s ∈ done, s.Throughout (BlockTiled src) := by
  obtain ⟨fs, hstands, htiled⟩ := h
  obtain ⟨f, outer, rfl⟩ := htiled.exists_cons
  -- by induction on the frames around the innermost, which takes what is closed as a part
  induction outer generalizing b f with
  | nil =>
    cases htiled with
    | root htiles hdone =>
      rw [hstands.opened]
      exact ⟨_, hstands, htiles, hdone⟩
    | inner _ _ _ _ houter => cases houter
  | cons g outer ih =>
    have hclosed := hstands.closeError (byteLength src)
    have hnext := htiled.close (boundary_byteLength src) true
    rw [hstands.opened]
    change ∃ done, (closeBlocks _ ((g :: outer).map Frame.id)).Stands src _ ∧ _
    rw [hstands.sourceLength, ← show _ = (g :: outer).map Frame.id from hclosed.opened]
    exact ih _ hclosed hnext

end Reading

section Parsed

variable (src : Source)

theorem parse_tiled :
    ∃ done, let shape := Shape.node "template" true false 0 (byteLength src) done
      Tiles src 0 (byteLength src) (done.map range) ∧ shape.Throughout (BlockTiled src) ∧
        (parse src).root = 0 ∧ (parse src).size = shape.size ∧
        Laid src (parse src).node none 0 shape := by
  have hroot : Gapless src ((TreeBuilder.new src).openNode "template" true 0) 0 := by
    refine ⟨_, stands_root src "template" true, .root ?_ nofun⟩
    exact BlankBetween.refl (boundary_zero src)
  have hread : Gapless src
      (addSegments ((TreeBuilder.new src).openNode "template" true 0) 0 (cut src))
      (byteLength src) := Gapless.addSegments (cuts_cut src) (List.nil_append src).symm hroot
  obtain ⟨_, hbehind, _⟩ := id hread
  obtain ⟨done, hstands, htiles, hdone⟩ := hread.closeBlocks
  refine ⟨done, htiles, throughout_of_ne (by simp [Shape.kind]) hdone, ?_⟩
  rw [parse, hbehind.sourceLength]
  exact hstands.finish (byteLength src)

/-- Nothing of a source is lost. Between the children of the root, before the first and behind the
last of them there are only blanks; and so there are around the children of a block that stand behind
its opening statement, up to the end of the block, unless that statement has a body of its own. -/
theorem parse_loses_nothing :
    Tiles src 0 (byteLength src)
        (((parse src).children (parse src).root).map (parse src).range) ∧
      ∀ i : Nat, i < (parse src).size → (parse src).kind i = "block" →
        ∃ body, StatementAt src ((parse src).node i).startByte body ∧
          let stop := statementStop ((parse src).node i).startByte body
          (Shorthand ((parse src).node i).startByte body ∨
            Tiles src stop ((parse src).node i).endByte
              ((((parse src).children i).filter fun c =>
                stop ≤ ((parse src).node c).startByte).map (parse src).range)) := by
  obtain ⟨done, htiles, hdone, hroot, hsize, hlaid⟩ := parse_tiled src
  constructor
  · rw [hroot, hlaid.children_eq, hlaid.below.map_range]
    exact htiles
  · intro i hi hkind
    obtain ⟨parent, s, hs, -, hlaidS⟩ :=
      hlaid.part (hereditary_throughout _) hdone (Nat.zero_le i) (by omega)
    have hrange := hlaidS.range_eq
    have hstart : ((parse src).node i).startByte = s.start := congrArg Prod.fst hrange
    have hstop : ((parse src).node i).endByte = s.stop := congrArg Prod.snd hrange
    rw [hlaidS.kind_eq] at hkind
    obtain ⟨body, hat, hbody⟩ := hs.here hkind
    rw [hstart, hstop]
    refine ⟨body, hat, hbody.imp_right ?_⟩
    rintro ⟨name, inside, hchildren, hname, htilesS⟩
    -- The leaves of the opening begin before it ends; the parts behind them are the tiled ones.
    have hbefore : ∀ q ∈ name.map range, q.1 < statementStop s.start body := by
      intro q hq
      obtain ⟨c, hc, rfl⟩ := List.mem_map.1 hq
      exact hname c hc
    have hranges : (ids (i + 1) s.children).map (parse src).range =
        name.map range ++ inside.map range := by
      rw [hlaidS.below.map_range, hchildren, List.map_append]
    have hinside := htilesS.filter_append hbefore
    rw [← hranges, List.filter_map] at hinside
    rw [hlaidS.children_eq]
    rw [← hinside] at htilesS
    exact htilesS

end Parsed

end ProjectIndex.Twig
