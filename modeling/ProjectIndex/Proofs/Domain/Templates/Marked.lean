import ProjectIndex.Proofs.Domain.Templates.Inheritance
import ProjectIndex.Proofs.Domain.Templates.Recorded

/-!
An override that is written out and checked. The marker in front of its block is the one that was
formatted, the template it names is the one above it, and so the check reports it exactly if the
hash it was marked with is not that of the block above.
-/
namespace ProjectIndex.Templates

open ProjectIndex.Text ProjectIndex.Twig

section Override

variable {bundle relative body hash version ref : List Char} {name : List Char} {p : Path}

/-- An override of a block: it extends a template of a bundle and has a line for the marker. -/
def override (bundle relative marker name body : String) : Source :=
  ("\x7b% sw_extends '@" ++ bundle ++ "/" ++ relative ++ "' %\x7d\n" ++ marker ++
    "\x7b% block " ++ name ++ " %\x7d" ++ body ++ "\x7b% endblock %\x7d").toList

/-- What an override can be written from: the reference fits between quotes on one line, and the body
is text. -/
structure Writable (bundle relative body : List Char) : Prop where
  slash : '/' ∉ bundle
  plain : ∀ c ∈ bundle ++ relative, c ≠ '\'' ∧ c ≠ '\\' ∧ c ≠ '\n'
  delimiter : ∀ d : Delimiter, ¬ d.opening <:+: body
  brace : body.getLast? ≠ some '\x7b'

def bodyItems (body : List Char) : List Item := if body = [] then [] else [.text body]

def aboveMarker (ref : List Char) : List Item := [extendsItem ref, .text ['\n']]

def markerItems (hash version : List Char) : List Item :=
  [.comment (markerBody hash version), .text ['\n']]

theorem renderAll_bodyItems (body : List Char) : Item.renderAll (bodyItems body) = body := by
  rw [bodyItems]
  split
  · simp [Item.renderAll, *]
  · simp [Item.renderAll, Item.render]

theorem renderAll_markerItems (hash version : String) :
    Item.renderAll (markerItems hash.toList version.toList) = (formatMarker hash version).toList := by
  rw [toList_formatMarker, markerItems, Item.renderAll, Item.renderAll, Item.renderAll, Item.render,
    Item.render, List.append_nil]
  rfl

theorem override_eq (bundle relative marker name body : String) :
    override bundle relative marker name body =
      Item.renderAll (aboveMarker (referenceTo bundle.toList relative.toList)) ++
        (marker.toList ++ (Item.block name.toList (bodyItems body.toList)).render) := by
  simp [override, aboveMarker, extendsItem, referenceTo, Item.renderAll, Item.render,
    renderAll_bodyItems, Delimiter.wrap, Delimiter.opening, Delimiter.closing, statementOf,
    Item.tagWords, Item.blockWords, Item.endWords, Argument.chars]

theorem override_unmarked (bundle relative name body : String) :
    override bundle relative "" name body = Item.renderAll (withBlock
      (aboveMarker (referenceTo bundle.toList relative.toList)) name.toList
      (bodyItems body.toList)) := by
  rw [override_eq, withBlock, Item.renderAll_append, Item.renderAll, Item.renderAll,
    List.append_nil]
  rfl

theorem override_marked (bundle relative hash version name body : String) :
    override bundle relative (formatMarker hash version) name body = Item.renderAll (withBlock
      (aboveMarker (referenceTo bundle.toList relative.toList) ++
        markerItems hash.toList version.toList) name.toList (bodyItems body.toList)) := by
  rw [override_eq, ← renderAll_markerItems, withBlock, Item.renderAll_append, Item.renderAll_append,
    Item.renderAll, Item.renderAll, List.append_nil, List.append_assoc]

theorem wellFormed_extendsItem (h : Writable bundle relative body) :
    (extendsItem (referenceTo bundle relative)).WellFormed := by
  have hreference : ∀ c ∈ referenceTo bundle relative, c ≠ '\'' ∧ c ≠ '\\' := by
    intro c hc
    rw [referenceTo, List.mem_cons, List.mem_append, List.mem_cons] at hc
    have hplain := h.plain c
    rw [List.mem_append] at hplain
    -- the signs that the reference adds are harmless, the rest is that of the two names
    rcases hc with rfl | hbundle | rfl | hrelative
    · decide
    · exact (hplain (.inl hbundle)).imp_right And.left
    · decide
    · exact (hplain (.inr hrelative)).imp_right And.left
  rw [extendsItem, Item.WellFormed, List.forall_mem_singleton]
  refine ⟨by decide, by decide, by decide, rfl, ?_, ?_⟩
  · exact fun hmem => (hreference _ hmem).2 rfl
  · exact fun hmem => (hreference _ hmem).1 rfl

theorem wellFormed_block (h : Writable bundle relative body) (hname : IsIdentifier name) :
    (Item.block name (bodyItems body)).WellFormed := by
  rw [Item.WellFormed, bodyItems]
  refine ⟨hname, ?_⟩
  split
  · next => rw [Item.AllWellFormed]; trivial
  · next hne =>
    rw [Item.AllWellFormed, Item.AllWellFormed, Item.WellFormed]
    exact ⟨⟨hne, h.delimiter, h.brace⟩, trivial, fun _ next hnext => by cases hnext⟩

theorem wellFormed_lineFeed : (Item.text ['\n']).WellFormed := by
  rw [Item.WellFormed]
  decide

theorem wellFormed_below {items : List Item} (h : Writable bundle relative body)
    (hitems : Item.AllWellFormed items) (hhead : ∀ next ∈ items.head?, next.isText = false) :
    Item.AllWellFormed (aboveMarker (referenceTo bundle relative) ++ items) := by
  rw [aboveMarker, List.cons_append, List.singleton_append, Item.AllWellFormed, Item.AllWellFormed]
  exact ⟨wellFormed_extendsItem h, ⟨wellFormed_lineFeed, hitems, fun _ => hhead⟩, nofun⟩

theorem wellFormed_unmarked (h : Writable bundle relative body) (hname : IsIdentifier name) :
    Item.AllWellFormed
      (withBlock (aboveMarker (referenceTo bundle relative)) name (bodyItems body)) := by
  refine wellFormed_below h ?_ fun next hnext => by cases hnext; rfl
  rw [Item.AllWellFormed, Item.AllWellFormed]
  exact ⟨wellFormed_block h hname, trivial, nofun⟩

theorem wellFormed_marked (h : Writable bundle relative body) (hname : IsIdentifier name)
    (hhash : IsRun isHashChar hash) (hversion : IsRun isVersionChar version) :
    Item.AllWellFormed (withBlock (aboveMarker (referenceTo bundle relative) ++
      markerItems hash version) name (bodyItems body)) := by
  have hcomment : (Item.comment (markerBody hash version)).WellFormed := by
    rw [Item.WellFormed]
    intro hinside
    exact hash_not_mem_markerBody hhash hversion (hinside.subset (List.mem_cons_self ..))
  rw [withBlock, List.append_assoc, markerItems]
  refine wellFormed_below h ?_ fun next hnext => by cases hnext; rfl
  rw [List.cons_append, List.singleton_append, Item.AllWellFormed, Item.AllWellFormed,
    Item.AllWellFormed, Item.AllWellFormed]
  refine ⟨hcomment, ⟨wellFormed_lineFeed, ⟨wellFormed_block h hname, trivial, ?_⟩, ?_⟩, ?_⟩
  · exact fun htext => by cases htext
  · exact fun _ next hnext => by cases hnext; rfl
  · exact fun htext => by cases htext

theorem count_aboveMarker (h : Writable bundle relative body) :
    (Item.renderAll (aboveMarker (referenceTo bundle relative))).count '\n' = 1 := by
  have hbundle : bundle.count '\n' = 0 :=
    List.count_eq_zero.2 fun hc => (h.plain _ (List.mem_append_left _ hc)).2.2 rfl
  have hrelative : relative.count '\n' = 0 :=
    List.count_eq_zero.2 fun hc => (h.plain _ (List.mem_append_right _ hc)).2.2 rfl
  simp [aboveMarker, extendsItem, referenceTo, Item.renderAll, Item.render, Delimiter.wrap,
    Delimiter.opening, Delimiter.closing, statementOf, Item.tagWords, Argument.chars, hbundle,
    hrelative]

theorem isBlock_bodyItems (body : List Char) : ∀ item ∈ bodyItems body, isBlock item = false := by
  rw [bodyItems]
  split
  · nofun
  · exact List.forall_mem_singleton.2 rfl

theorem isBlock_aboveMarker (ref : List Char) : ∀ item ∈ aboveMarker ref, isBlock item = false :=
  List.forall_mem_cons.2 ⟨rfl, List.forall_mem_singleton.2 rfl⟩

theorem record_unmarked (h : Writable bundle relative body) (hname : IsIdentifier name) :
    let ref := referenceTo bundle relative
    let src := Item.renderAll (withBlock (aboveMarker ref) name (bodyItems body))
    let f := record (Twig.parse src) src p
    f.parent = some (String.ofList ref) ∧
      ∃ digest, f.blocks = [⟨String.ofList name, 2, digest, none⟩] := by
  intro ref src f
  have hwell := wellFormed_unmarked h hname
  have hbody := isBlock_bodyItems body
  obtain ⟨digest, hblocks⟩ :=
    blocks_withBlock (p := p) hwell (isBlock_aboveMarker ref) hbody
  obtain ⟨stop, rest, _, _, _, hlaid⟩ := laid_withBlock hwell hbody
  have hshapes : Item.shapesAll 0 (aboveMarker ref) = (extendsItem ref).shapes 0 ++ ([] ++ []) := rfl
  have hmarker := markerBefore_eq_none hlaid rfl rfl (by
    rw [hshapes, extendsItem, Item.shapes]
    exact List.forall_mem_singleton.2 (show "tag" ≠ "comment" by decide))
  refine ⟨parent_extends hwell, digest, ?_⟩
  rw [hblocks, count_aboveMarker h]
  exact congrArg (fun m => [TemplateBlock.mk _ _ _ m]) (hmarker _)

theorem record_marked (h : Writable bundle relative body) (hname : IsIdentifier name)
    (hhash : IsRun isHashChar hash) (hversion : IsRun isVersionChar version) :
    let ref := referenceTo bundle relative
    let src := Item.renderAll
      (withBlock (aboveMarker ref ++ markerItems hash version) name (bodyItems body))
    let f := record (Twig.parse src) src p
    f.parent = some (String.ofList ref) ∧ ∃ line digest, f.blocks = [⟨String.ofList name, line,
      digest, some ⟨String.ofList hash, String.ofList version, 2⟩⟩] := by
  intro ref src f
  have hwell := wellFormed_marked h hname hhash hversion
  have hbody := isBlock_bodyItems body
  have habove : ∀ item ∈ aboveMarker ref ++ markerItems hash version, isBlock item = false :=
    List.forall_mem_append.2
      ⟨isBlock_aboveMarker ref, List.forall_mem_cons.2 ⟨rfl, List.forall_mem_singleton.2 rfl⟩⟩
  obtain ⟨digest, hblocks⟩ := blocks_withBlock (p := p) hwell habove hbody
  have hcomment := markerBefore_comment rfl hwell hbody (contains_markerComment hash version)
  have hread := marker?_comment hhash hversion 2
  rw [count_aboveMarker h] at hcomment
  refine ⟨parent_extends hwell, ((Item.renderAll (aboveMarker ref ++ markerItems hash version)).count
    '\n' + 1), digest, ?_⟩
  rw [hblocks]
  exact congrArg (fun m => [TemplateBlock.mk _ _ _ m]) (hcomment.trans hread)

end Override
section Check

/-- Whether a template is what a store holds under its relative path, the file `p` left out. -/
structure OnlyOther (s : FactStore TemplateFile) (p : Path) (u : TemplateFile) : Prop where
  opened : s.closed = false
  stored : ∃ row ∈ s.rows, row.key = u.relativePath ∧ row.value = u
  only : ∀ row ∈ s.rows, row.key = u.relativePath → row.value = u ∨ row.value.path = p.toString
  elsewhere : u.path ≠ p.toString

variable {s : FactStore TemplateFile} {p : Path} {u f : TemplateFile} {b c : TemplateBlock}
  {ref : List Char}

theorem find?_only {vs : List TemplateFile} {meant : TemplateFile → Bool} (hu : u ∈ vs)
    (hmeant : meant u = true) (hothers : ∀ v ∈ vs, v = u ∨ meant v = false) :
    vs.find? meant = some u := by
  induction vs with
  | nil => cases hu
  | cons v vs ih =>
    obtain ⟨hv, hvs⟩ := List.forall_mem_cons.1 hothers
    rw [List.find?_cons]
    rcases hv with rfl | hout
    · rw [hmeant]
    · have hne : u ≠ v := by
        rintro rfl
        rw [hmeant] at hout
        cases hout
      rw [hout]
      exact ih ((List.mem_cons.1 hu).resolve_left hne) hvs

theorem OnlyOther.values_find? (h : OnlyOther s p u) :
    ∃ candidates, s.values u.relativePath = .ok candidates ∧
      candidates.find? (fun c => !List.contains [p.toString] c.path) = some u := by
  refine ⟨(s.rows.filter fun r => r.key == u.relativePath).map Row.value, ?_, find?_only ?_ ?_ ?_⟩
  · rw [FactStore.values, FactStore.whenOpen, h.opened]
    rfl
  · obtain ⟨row, hrow, hkey, hvalue⟩ := h.stored
    exact List.mem_map.2 ⟨row, List.mem_filter.2 ⟨hrow, beq_iff_eq.2 hkey⟩, hvalue⟩
  · have helsewhere := h.elsewhere
    simpa using helsewhere
  · intro v hv
    obtain ⟨row, hrow, rfl⟩ := List.mem_map.1 hv
    obtain ⟨hmem, hkey⟩ := List.mem_filter.1 hrow
    refine (h.only row hmem (beq_iff_eq.1 hkey)).imp_right fun hpath => ?_
    simpa using hpath

/-- What the check of a file says that has one block and extends such a template. -/
theorem checkFile_single (h : OnlyOther s p u) (hpath : f.path = p.toString)
    (hparent : f.parent = some (String.ofList ref))
    (href : String.ofList (normalizeReference ref) = u.relativePath) (hblocks : f.blocks = [b])
    (hfound : u.blocks.find? (fun c => c.name == b.name) = some c) (n : Nat) :
    checkFile s.values n f = .ok (diagnose b ⟨c.hash, u.relativePath⟩).toList := by
  obtain ⟨candidates, hvalues, hfind⟩ := h.values_find?
  have hinherited : findInherited s.values n f b.name = .ok (some ⟨c.hash, u.relativePath⟩) := by
    rw [findInherited, hparent, hpath, inheritedFrom, String.toList_ofList, href, hvalues]
    dsimp only
    rw [hfind]
    dsimp only
    rw [hfound]
  rw [checkFile, hparent, hblocks, checkBlocks, hinherited, checkBlocks]
  simp

end Check

/-- An override that is written with a marker line is reported if the hash on the line is not that of
the block above, and only then; without the line it is reported as unmarked. -/
theorem marker_honoured {s : TemplateStores} {p q : Path} {upstream : Source} {b : TemplateBlock}
    {bundle hash version body : String} :
    let u := record (Twig.parse upstream) upstream q
    OnlyOther s.first p u → b ∈ u.blocks →
      Writable bundle.toList u.relativePath.toList body.toList →
      IsRun isHashChar hash.toList → IsRun isVersionChar version.toList →
        checkDrift s p (override bundle u.relativePath (formatMarker hash version) b.name body) =
            .ok (if hash = b.hash then [] else [⟨b.name, 2, .drift b.hash hash u.relativePath⟩]) ∧
          checkDrift s p (override bundle u.relativePath "" b.name body) =
            .ok [⟨b.name, 2, .missingMarker u.relativePath⟩] := by
  intro u hu hb hwritable hhash hversion
  have hname := isIdentifier_of_mem_blocks hb
  have hfound := find?_distinctBlocks hb
  have href : String.ofList (normalizeReference (referenceTo bundle.toList u.relativePath.toList)) =
      u.relativePath := by
    rw [normalizeReference_referenceTo hwritable.slash, String.ofList_toList]
  constructor
  · obtain ⟨hparent, line, digest, hblocks⟩ :=
      record_marked (p := p) hwritable hname hhash hversion
    rw [String.ofList_toList, String.ofList_toList, String.ofList_toList] at hblocks
    rw [override_marked, checkDrift, checkFile_single hu rfl hparent href hblocks hfound, diagnose]
    by_cases hsame : hash = b.hash
    · simp [hsame]
    · simp [hsame]
  · obtain ⟨hparent, digest, hblocks⟩ := record_unmarked (p := p) hwritable hname
    rw [String.ofList_toList] at hblocks
    rw [override_unmarked, checkDrift, checkFile_single hu rfl hparent href hblocks hfound]
    rfl

def originalFile : Path := ⟨['/', 'u', '/', 't']⟩

def overrideFile : Path := ⟨['/', 'o', '/', 't']⟩

def originalText : Source := Item.renderAll (withBlock [] ['a'] [.text ['é']])

def original : TemplateFile := record (Twig.parse originalText) originalText originalFile

/-- A store of that template and of a template without blocks in the place of the override. -/
def originalStores : TemplateStores where
  first := ⟨"templates", [
    ⟨overrideFile, original.relativePath, ⟨overrideFile.toString, original.relativePath, "", none,
      none, []⟩⟩,
    ⟨originalFile, original.relativePath, original⟩], false⟩
  second := .new "blocks"

theorem marker_honoured_original :
    OnlyOther originalStores.first overrideFile original ∧
      Writable "B".toList original.relativePath.toList "é ".toList ∧
      IsRun isHashChar "0f".toList ∧ IsRun isVersionChar "6.5-é".toList ∧
      ∃ b ∈ original.blocks, b.name = "a" ∧
        checkDrift originalStores overrideFile
            (override "B" original.relativePath (formatMarker "0f" "6.5-é") b.name "é ") =
          .ok (if "0f" = b.hash then []
            else [⟨b.name, 2, .drift b.hash "0f" original.relativePath⟩]) ∧
        checkDrift originalStores overrideFile
            (override "B" original.relativePath "" b.name "é ") =
          .ok [⟨b.name, 2, .missingMarker original.relativePath⟩] := by
  have honly : OnlyOther originalStores.first overrideFile original := by
    refine ⟨rfl, ⟨_, List.mem_cons_of_mem _ (List.mem_singleton_self _), rfl, rfl⟩, ?_, ?_⟩
    · intro row hrow _
      rcases List.mem_cons.1 hrow with rfl | hrow
      · exact .inr rfl
      · rw [List.mem_singleton.1 hrow]
        exact .inl rfl
    · exact show String.ofList originalFile.text ≠ String.ofList overrideFile.text by
        rw [Ne, String.ofList_inj]
        decide
  have hrelative : original.relativePath.toList = ['u', '/', 't'] := by
    rw [original, record, String.toList_ofList]
    decide
  have hwritable : Writable "B".toList original.relativePath.toList "é ".toList := by
    rw [hrelative]
    exact ⟨by decide, by simp, by decide, by decide⟩
  have hhash : IsRun isHashChar "0f".toList := by decide
  have hversion : IsRun isVersionChar "6.5-é".toList := by decide +kernel
  have hwell : Item.AllWellFormed (withBlock [] ['a'] [.text ['é']]) := by decide
  have hblocks := blocks_withBlock (p := originalFile) hwell nofun (List.forall_mem_singleton.2 rfl)
  obtain ⟨b, hb, hname⟩ : ∃ b, original.blocks = [b] ∧ b.name = "a" := by
    obtain ⟨digest, hblocks⟩ := hblocks
    exact ⟨_, hblocks, rfl⟩
  have hmem : b ∈ original.blocks := by
    rw [hb]
    exact List.mem_singleton_self b
  exact ⟨honly, hwritable, hhash, hversion, b, hmem, hname,
    marker_honoured honly hmem hwritable hhash hversion⟩

end ProjectIndex.Templates
