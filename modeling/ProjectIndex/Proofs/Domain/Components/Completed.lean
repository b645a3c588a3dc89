import ProjectIndex.Proofs.Domain.Components.Registered
import ProjectIndex.Proofs.Domain.Pairs

/-!
Registrations completed by their definitions. A definition is looked up by the key of the
definition path, under which `a.js`, `a.ts`, `a/index.js` and `a/index.ts` are one, and the first
file with that key answers. Where no other file has it, every registration gets its own definition;
where one has, a registration gets the definition of the other file.
-/
namespace ProjectIndex.Components

/-- The indexer of components, which holds a script by its source and the files around it. -/
def pairIndexer : PairIndexer Component ComponentDefinition Reading where
  toIndexer := indexer
  parse := Script.parse
  empty := emptyStores
  reading env src := ⟨env.files, src⟩
  facts p x := x.facts p
  holds_empty := ⟨FactStore.holds_new "components", FactStore.holds_new "component_definitions"⟩
  index_eq env p src s := by
    rw [Reading.facts, Reading.tree]
    rfl
  removed_eq _ _ _ := rfl
  clear_eq _ _ := rfl

/-- Whether a file defines something under the key of a path. -/
def Defines (latest : Path → Option Reading) (q p : Path) : Prop :=
  Reading.pathKey p ∈ (pairIndexer.factsOf q (latest q)).2.map Prod.fst

section Lookup

variable {s : ComponentStores} {latest : Path → Option Reading}

def complete (c : Component) : Option ComponentDefinition → Component
  | some d => c.withDefinition d
  | none => c

theorem exists_reading {g : Path} {name : String} {r : Component}
    (h : Rows.lastValue? (pairIndexer.factsOf g (latest g)).1 name = some r) :
    ∃ x, latest g = some x ∧ Rows.lastValue? (x.facts g).1 name = some r := by
  cases hlatest : latest g with
  | none =>
    rw [hlatest] at h
    cases h
  | some x =>
    rw [hlatest] at h
    exact ⟨x, rfl, h⟩

theorem toString_inj {p q : Path} (h : p.toString = q.toString) : p = q := by
  cases p
  cases q
  exact congrArg Path.mk (String.ofList_inj.1 h)

theorem pathKey_eq (p : Path) :
    String.ofList (definitionKey p.toString.toList) = Reading.pathKey p := by
  rw [Path.toString, String.toList_ofList]
  rfl

/-- What is found under the path of a file is the definition of some file that has its key; nothing
is found only where no file has it. -/
theorem definitionOf_cases (h : s.Holds fun g => pairIndexer.factsOf g (latest g)) (p : Path) :
    (definitionOf s p.toString = .ok none ∧ ∀ q, ¬ Defines latest q p) ∨
      ∃ q d, definitionOf s p.toString = .ok (some d) ∧
        Rows.lastValue? (pairIndexer.factsOf q (latest q)).2 (Reading.pathKey p) = some d := by
  obtain ⟨files, records, hvalues, -, hmem, hall⟩ := h.second.values (Reading.pathKey p)
  have hanswer : definitionOf s p.toString = .ok records.head? := by
    rw [definitionOf, pathKey_eq, hvalues]
    rfl
  cases hall with
  | nil => exact .inl ⟨hanswer, fun q hq => List.not_mem_nil ((hmem q).2 hq)⟩
  | cons hd => exact .inr ⟨_, _, hanswer, hd⟩

theorem definitionOf_of_defined (h : s.Holds fun g => pairIndexer.factsOf g (latest g)) {p : Path}
    {y : Reading} {d : ComponentDefinition} (hlatest : latest p = some y)
    (hd : Rows.lastValue? (y.facts p).2 (Reading.pathKey p) = some d)
    (honly : ∀ q, Defines latest q p → q = p) : definitionOf s p.toString = .ok (some d) := by
  rcases definitionOf_cases h p with ⟨-, hnone⟩ | ⟨q, e, hanswer, he⟩
  · apply absurd _ (hnone p)
    rw [Defines, hlatest]
    exact Rows.key_mem_of_lastValue? hd
  · obtain rfl := honly q (Rows.key_mem_of_lastValue? he)
    rw [hlatest] at he
    obtain rfl : e = d := Option.some.inj (he.symm.trans hd)
    exact hanswer

theorem find?_own {name : String} {files : List Path} {records : List ComponentDefinition}
    (hall : List.Forall₂
      (fun q d => Rows.lastValue? (pairIndexer.factsOf q (latest q)).2 name = some d) files records)
    {g : Path} (hg : g ∈ files) {x : Reading} {d : ComponentDefinition}
    (hlatest : latest g = some x) (hd : Rows.lastValue? (x.facts g).2 name = some d) :
    records.find? (fun e => e.filePath == g.toString) = some d := by
  induction hall with
  | nil => cases hg
  | @cons q e files records hq _ ih =>
    cases hreading : latest q with
    | none =>
      rw [hreading] at hq
      cases hq
    | some y =>
      rw [hreading] at hq
      have hfile : e.filePath = q.toString := Reading.filePath_of_defined hq
      by_cases hsame : q = g
      · subst hsame
        obtain rfl : y = x := Option.some.inj (hreading.symm.trans hlatest)
        obtain rfl : e = d := Option.some.inj (hq.symm.trans hd)
        rw [List.find?_cons, hfile, beq_self_eq_true]
      · have hne : (e.filePath == g.toString) = false := by
          rw [hfile, beq_eq_false_iff_ne]
          exact fun heq => hsame (toString_inj heq)
        rw [List.find?_cons, hne]
        exact ih ((List.mem_cons.1 hg).resolve_left fun heq => hsame heq.symm)

/-- A registration with its options in the call is completed by them where no file defines anything
under the path of its own: of the definitions of its name the one of its file is taken. -/
theorem definitionFor_inline (h : s.Holds fun g => pairIndexer.factsOf g (latest g)) {name : String}
    {files : List Path} {byName : List ComponentDefinition}
    (hmem : ∀ q, q ∈ files ↔ name ∈ (pairIndexer.factsOf q (latest q)).2.map Prod.fst)
    (hall : List.Forall₂
      (fun q d => Rows.lastValue? (pairIndexer.factsOf q (latest q)).2 name = some d) files byName)
    {g : Path} {x : Reading} {c : Component} {o : NodeId} (hlatest : latest g = some x)
    (hregisters : x.Registers g name c (some o))
    (ho : x.tree.kind o = "object") (hnone : ∀ q, ¬ Defines latest q g) :
    definitionFor s byName
        ({ c with definitionPath := some g.toString }.withDefinition (x.definition g o)) =
      .ok (some (x.definition g o)) := by
  have hplain : Reading.pathKey g ∉ (x.facts g).2.map Prod.fst := by
    have hhere := hnone g
    rw [Defines, hlatest] at hhere
    exact hhere
  have hdefined := hregisters.definition ho hplain
  have hg : g ∈ files := by
    rw [hmem, hlatest]
    exact Rows.key_mem_of_lastValue? hdefined
  have hfound := find?_own hall hg hlatest hdefined
  rw [← hregisters.2.1] at hfound
  have hundefined : definitionOf s g.toString = .ok none := by
    rcases definitionOf_cases h g with ⟨hanswer, -⟩ | ⟨q, e, -, he⟩
    · exact hanswer
    · exact absurd (Rows.key_mem_of_lastValue? he) (hnone q)
  change (definitionOf s g.toString).map (fun d => d.or
    ((byName.find? fun e => e.filePath == c.filePath).or byName.head?)) = _
  rw [hundefined, hfound]
  rfl

theorem definitionFor_ofPath {c : Component} {path : String} {d : ComponentDefinition}
    (byName : List ComponentDefinition) (hpath : c.definitionPath = some path)
    (hfound : definitionOf s path = .ok (some d)) : definitionFor s byName c = .ok (some d) := by
  rw [definitionFor, hpath]
  dsimp only
  rw [hfound]
  rfl

theorem exists_completeAll (h : s.Holds fun g => pairIndexer.factsOf g (latest g))
    (byName : List ComponentDefinition) {R : Path → Component → Prop} {files : List Path}
    {raws : List Component} (hall : List.Forall₂ R files raws) :
    ∃ records, completeAll s byName raws = .ok records ∧
      List.Forall₂ (fun g r => ∃ raw d, R g raw ∧ definitionFor s byName raw = .ok d ∧
        r = complete raw d) files records := by
  have hfor : ∀ c : Component, ∃ d, definitionFor s byName c = .ok d := by
    intro c
    unfold definitionFor
    dsimp only
    split
    · exact ⟨_, rfl⟩
    · next path _ =>
      obtain ⟨_, records, hvalues, _⟩ :=
        h.second.values (String.ofList (definitionKey path.toList))
      rw [definitionOf, hvalues]
      exact ⟨_, rfl⟩
  induction hall with
  | nil => exact ⟨[], rfl, .nil⟩
  | @cons g raw files raws hraw _ ih =>
    obtain ⟨records, hrecords, hcompleted⟩ := ih
    obtain ⟨d, hd⟩ := hfor raw
    refine ⟨complete raw d :: records, ?_, .cons ⟨raw, d, hraw, hd, rfl⟩ hcompleted⟩
    rw [completeAll, hd, hrecords]
    cases d <;> rfl

end Lookup

/-- The registrations of a name, one for each script that registers it, the last one of the script,
are completed by their own definitions: one with its options in the call by those, unless some file
defines something under the path of its own; and one with a lazy import by the plain options that
the imported file exports, unless another file defines something under that path. -/
theorem registrations_are_completed (calls : List (Surroundings × Call)) (name : String) :
    let latest := pairIndexer.latestAfter calls
    ∃ (files : List Path) (records : List Component),
      withDefinitions (pairIndexer.storesAfter calls) name = .ok records ∧ files.Nodup ∧
      (∀ g, g ∈ files ↔ name ∈ (pairIndexer.factsOf g (latest g)).1.map Prod.fst) ∧
      List.Forall₂ (fun g r => ∃ x c options, latest g = some x ∧ x.Registers g name c options ∧
        (∀ o, options = some o → x.tree.kind o = "object" → (∀ q, ¬ Defines latest q g) →
          r = { c with definitionPath := some g.toString }.withDefinition (x.definition g o)) ∧
        ∀ o specifier, options = some o → x.tree.kind o = "arrow_function" →
          lazyImport? x.tree x.source o = some specifier →
          ∀ y object, latest (resolveImport x.files g specifier) = some y →
            wrapped? y.tree y.source = none → exportedObject? y.tree = some object →
            (∀ q, Defines latest q (resolveImport x.files g specifier) →
              q = resolveImport x.files g specifier) →
            r = { c with
              importPath := some (String.ofList specifier)
              definitionPath := some (resolveImport x.files g specifier).toString }.withDefinition
                (y.definition (resolveImport x.files g specifier) object)) files records := by
  intro latest
  have h : (pairIndexer.storesAfter calls).Holds fun g => pairIndexer.factsOf g (latest g) :=
    pairIndexer.holds_storesAfter calls
  obtain ⟨files, raws, hraws, hnodup, hmem, hall⟩ := h.first.values name
  obtain ⟨dfiles, byName, hbyName, -, hdmem, hdall⟩ := h.second.values name
  obtain ⟨records, hrecords, hcompleted⟩ := exists_completeAll h byName hall
  refine ⟨files, records, ?_, hnodup, hmem, hcompleted.imp ?_⟩
  · rw [withDefinitions, hraws, hbyName]
    exact hrecords
  · rintro g r ⟨raw, d, hraw, hd, rfl⟩
    obtain ⟨x, hlatest, hrawx⟩ := exists_reading hraw
    obtain ⟨c, options, hregisters⟩ :=
      Reading.exists_registers (Rows.key_mem_of_lastValue? hrawx)
    refine ⟨x, c, options, hlatest, hregisters, ?_, ?_⟩
    · -- The options stand in the call: among the definitions of the name is that of its file.
      rintro o rfl ho hundefined
      have hown := hregisters.record (congrArg Prod.fst (Reading.contribution_object ho))
      obtain rfl := Option.some.inj (hrawx.symm.trans hown)
      have hcompletion := definitionFor_inline h hdmem hdall hlatest hregisters ho hundefined
      obtain rfl := Except.ok.inj (hd.symm.trans hcompletion)
      rfl
    · -- The options are imported: they are found under the path of the imported file.
      rintro o specifier rfl ho hspecifier y object hy hwrapped hobject honly
      have hlazy := hregisters.record
        (congrArg Prod.fst (Reading.contribution_lazy ho hspecifier))
      obtain rfl := Option.some.inj (hrawx.symm.trans hlazy)
      have hexported := Reading.lastValue?_exported (g := resolveImport x.files g specifier)
        hwrapped hobject
      have hfound := definitionOf_of_defined h hy hexported honly
      obtain rfl := Except.ok.inj (hd.symm.trans (definitionFor_ofPath byName rfl hfound))
      rfl

def mainScript : Path := ⟨"/src/Resources/app/administration/src/main.js".toList⟩

/-- A script that registers a component, behind the index of the directory of the same name. -/
def callsWithNamesake : List (Surroundings × Call) :=
  [(default, .index ⟨"/src/Resources/app/administration/src/main/index.js".toList⟩
      "export default \x7b\x7d;".toList),
    (default, .index mainScript "Component.register('a', \x7bprops: ['p']\x7d);".toList)]

/-- The options that the index exports are taken for those of the call. -/
theorem registration_completed_by_namesake :
    (pairIndexer.factsOf mainScript (pairIndexer.latestAfter callsWithNamesake mainScript)).2.map
        (fun fact => (fact.1, fact.2.props.map ComponentProp.name)) = [("a", ["p"])] ∧
      (withDefinitions (pairIndexer.storesAfter callsWithNamesake) "a").toOption.map
          (List.map fun r => (r.definitionPath, r.props)) =
        some [(some mainScript.toString, [])] := by
  decide +kernel

end ProjectIndex.Components
