import Mathlib.Data.List.Basic
import ProjectIndex.Domain.Components.Indexer
import ProjectIndex.Grammar.Script.Tree
import ProjectIndex.Proofs.Store.Replace

/-!
What a script registers and defines. Each call contributes one registration, with a definition under
the same name when its options stand in the call; a default export of wrapped options does the same,
and one of plain options contributes a definition under the path of the file. Of several
registrations of a name the last one stays.
-/
namespace ProjectIndex

namespace Rows

variable {α ι : Type}

theorem lastValue?_flatMap {f : ι → FileFacts α} {i : ι} {key : String} {value : α}
    (hi : f i = [(key, value)]) {before after : List ι}
    (hafter : ∀ j ∈ after, key ∉ (f j).map Prod.fst) :
    lastValue? ((before ++ i :: after).flatMap f) key = some value := by
  have hnone : key ∉ (after.flatMap f).map Prod.fst := by
    intro hkey
    obtain ⟨fact, hfact, rfl⟩ := List.mem_map.1 hkey
    obtain ⟨j, hj, hmem⟩ := List.mem_flatMap.1 hfact
    exact hafter j hj (List.mem_map_of_mem hmem)
  rw [List.flatMap_append, List.flatMap_cons, hi, ← List.append_assoc,
    lastValue?_append_of_notMem hnone, lastValue?_append, if_pos rfl]

end Rows

namespace Components

theorem filePath_withMember (t : SyntaxTree) (src : Source) (d : ComponentDefinition)
    (member : NodeId) : (withMember t src d member).filePath = d.filePath := by
  unfold withMember
  split
  · split <;> rfl
  · split <;> rfl

theorem filePath_foldl_withMember (t : SyntaxTree) (src : Source) (members : List NodeId)
    (d : ComponentDefinition) : (members.foldl (withMember t src) d).filePath = d.filePath := by
  induction members generalizing d with
  | nil => rfl
  | cons member members ih => rw [List.foldl_cons, ih, filePath_withMember]

theorem filePath_definition (t : SyntaxTree) (src : Source) (files : FileTree) (file : Path)
    (template : Option (List Char)) (object : NodeId) :
    (definition t src files file template object).filePath = file.toString := by
  rw [definition.eq_def]
  cases template with
  | none => exact filePath_foldl_withMember ..
  | some specifier => exact filePath_foldl_withMember ..

/-- What a script was indexed with: the files around it and its source. -/
structure Reading where
  files : FileTree
  source : Source

namespace Reading

@[irreducible]
def tree (x : Reading) : SyntaxTree := Script.parse x.source

variable (x : Reading) (g : Path)

def template : Option (List Char) := templateImport? x.tree x.source

def definition (object : NodeId) : ComponentDefinition :=
  Components.definition x.tree x.source x.files g x.template object

def contribution (c : Component) (options : Option NodeId) : Contribution :=
  withOptions x.files g x.template x.tree x.source c options

def exported : Contribution := exportedContribution x.files g x.template x.tree x.source

def parts : List Contribution :=
  (registration.findAll x.tree x.source x.tree.root).filterMap
      (registered? x.files g x.template x.tree x.source) ++ [x.exported g]

def facts : Contribution := extract x.files g x.tree x.source

theorem facts_eq :
    x.facts g = ((x.parts g).flatMap Prod.fst, (x.parts g).flatMap Prod.snd) := rfl

def pathKey (p : Path) : String := String.ofList (definitionKey p.text)

/-- The registration of a name that a script is left with: nothing registers the name behind it. -/
def Registers (name : String) (c : Component) (options : Option NodeId) : Prop :=
  c.name = name ∧ c.filePath = g.toString ∧ ∃ before after,
    x.parts g = before ++ x.contribution g c options :: after ∧
      ∀ part ∈ after, name ∉ part.1.map Prod.fst

variable {x g} {name : String} {c : Component} {options : Option NodeId} {o : NodeId}

theorem contribution_object (h : x.tree.kind o = "object") :
    x.contribution g c (some o) =
      ([(c.name, { c with definitionPath := some g.toString }.withDefinition (x.definition g o))],
        [(c.name, x.definition g o)]) := by
  rw [contribution, withOptions, if_pos (beq_iff_eq.2 h)]
  rfl

theorem contribution_lazy {specifier : List Char} (h : x.tree.kind o = "arrow_function")
    (hspecifier : lazyImport? x.tree x.source o = some specifier) :
    x.contribution g c (some o) = ([(c.name, { c with
      importPath := some (String.ofList specifier)
      definitionPath := some (resolveImport x.files g specifier).toString })], []) := by
  have hne : ¬ (x.tree.kind o == "object") = true := by
    rw [h]
    decide
  rw [contribution, withOptions, if_neg hne, if_pos (beq_iff_eq.2 h), hspecifier]

theorem contribution_cases (x : Reading) (g : Path) (c : Component) (options : Option NodeId) :
    ∃ r, (x.contribution g c options).1 = [(c.name, r)] ∧ r.filePath = c.filePath ∧
      ((x.contribution g c options).2 = [] ∨
        ∃ o, (x.contribution g c options).2 = [(c.name, x.definition g o)]) := by
  cases options with
  | none => exact ⟨c, rfl, rfl, .inl rfl⟩
  | some o =>
    by_cases hobject : x.tree.kind o = "object"
    · rw [contribution_object hobject]
      exact ⟨_, rfl, rfl, .inr ⟨o, rfl⟩⟩
    · rw [contribution, withOptions, if_neg (by simpa using hobject)]
      split
      · split
        · exact ⟨_, rfl, rfl, .inl rfl⟩
        · exact ⟨_, rfl, rfl, .inl rfl⟩
      · exact ⟨_, rfl, rfl, .inl rfl⟩

theorem wrappedContribution_cases (x : Reading) (g : Path) (statement : NodeId) :
    (∃ c o, wrappedContribution x.files g x.template x.tree x.source statement =
        x.contribution g c (some o) ∧ c.filePath = g.toString) ∨
      wrappedContribution x.files g x.template x.tree x.source statement = ([], []) := by
  rw [wrappedContribution.eq_def]
  dsimp only
  split
  · next hfound =>
    left
    simp only [Option.bind_eq_bind, Option.bind_eq_some_iff, Option.some.injEq, Prod.mk.injEq]
      at hfound
    obtain ⟨name, _, _, _, _, _, object, hobject, rfl, rfl⟩ := hfound
    have hkind : x.tree.kind object = "object" := by
      simpa using List.find?_some hobject
    refine ⟨{ name, filePath := g.toString, line := x.tree.line statement }, object, ?_, rfl⟩
    rw [contribution_object hkind]
    rfl
  · exact .inr rfl

theorem part_cases {part : Contribution} (h : part ∈ x.parts g) :
    (∃ c options, part = x.contribution g c options ∧ c.filePath = g.toString) ∨
      part.1 = [] ∧ ∀ fact ∈ part.2, fact.1 = pathKey g ∧ fact.2.filePath = g.toString := by
  rcases List.mem_append.1 h with hcall | hexport
  · left
    obtain ⟨call, _, hcall⟩ := List.mem_filterMap.1 hcall
    simp only [registered?, Option.bind_eq_bind, Option.bind_eq_some_iff] at hcall
    obtain ⟨callee, _, list, _, first, _, hcall⟩ := hcall
    split at hcall
    · obtain rfl := Option.some.inj hcall
      exact ⟨_, _, rfl, rfl⟩
    · obtain rfl := Option.some.inj hcall
      exact ⟨_, _, rfl, rfl⟩
  · obtain rfl := List.mem_singleton.1 hexport
    rw [exported, exportedContribution]
    split
    · next statement _ =>
      rcases wrappedContribution_cases x g statement with ⟨c, o, heq, hfile⟩ | hnone
      · exact .inl ⟨c, some o, heq, hfile⟩
      · rw [hnone]
        exact .inr ⟨rfl, nofun⟩
    · right
      split
      · next object _ =>
        refine ⟨rfl, List.forall_mem_singleton.2 ⟨rfl, ?_⟩⟩
        exact filePath_definition ..
      · exact ⟨rfl, nofun⟩

theorem exists_last_part {parts : List Contribution}
    (h : ∃ part ∈ parts, name ∈ part.1.map Prod.fst) :
    ∃ before part after, parts = before ++ part :: after ∧ name ∈ part.1.map Prod.fst ∧
      ∀ part ∈ after, name ∉ part.1.map Prod.fst := by
  induction parts with
  | nil => exact absurd h (by simp)
  | cons part parts ih =>
    by_cases hrest : ∃ part ∈ parts, name ∈ part.1.map Prod.fst
    · obtain ⟨before, last, after, rfl, hname, hafter⟩ := ih hrest
      exact ⟨part :: before, last, after, rfl, hname, hafter⟩
    · have hhere : name ∈ part.1.map Prod.fst := by
        obtain ⟨q, hq, hname⟩ := h
        rcases List.mem_cons.1 hq with rfl | hq
        · exact hname
        · exact absurd ⟨q, hq, hname⟩ hrest
      exact ⟨[], part, parts, rfl, hhere, fun q hq hname => hrest ⟨q, hq, hname⟩⟩

theorem exists_registers (h : name ∈ (x.facts g).1.map Prod.fst) :
    ∃ c options, x.Registers g name c options := by
  have hsome : ∃ part ∈ x.parts g, name ∈ part.1.map Prod.fst := by
    rw [facts_eq] at h
    obtain ⟨fact, hfact, rfl⟩ := List.mem_map.1 h
    obtain ⟨part, hpart, hmem⟩ := List.mem_flatMap.1 hfact
    exact ⟨part, hpart, List.mem_map_of_mem hmem⟩
  obtain ⟨before, part, after, hparts, hname, hafter⟩ := exists_last_part hsome
  have hpart : part ∈ x.parts g := by
    rw [hparts]
    simp
  rcases part_cases hpart with ⟨c, options, rfl, hfile⟩ | ⟨hnone, _⟩
  · obtain ⟨r, hr, _⟩ := contribution_cases x g c options
    rw [hr] at hname
    have hc : name = c.name := List.mem_singleton.1 hname
    exact ⟨c, options, hc.symm, hfile, before, after, hparts, hafter⟩
  · rw [hnone] at hname
    simp at hname

theorem Registers.record (h : x.Registers g name c options) {r : Component}
    (hr : (x.contribution g c options).1 = [(c.name, r)]) :
    Rows.lastValue? (x.facts g).1 name = some r := by
  obtain ⟨rfl, _, before, after, hparts, hafter⟩ := h
  rw [facts_eq, hparts]
  exact Rows.lastValue?_flatMap hr hafter

/-- An inline registration is the last to define its name too, unless the file exports plain options
under that very name. -/
theorem Registers.definition (h : x.Registers g name c (some o)) (ho : x.tree.kind o = "object")
    (hplain : pathKey g ∉ (x.facts g).2.map Prod.fst) :
    Rows.lastValue? (x.facts g).2 name = some (x.definition g o) := by
  obtain ⟨rfl, _, before, after, hparts, hafter⟩ := h
  have hdefined : (x.contribution g c (some o)).2 = [(c.name, x.definition g o)] := by
    rw [contribution_object ho]
  have hquiet : ∀ part ∈ after, c.name ∉ part.2.map Prod.fst := by
    intro part hpart hname
    have hmem : part ∈ x.parts g := by
      rw [hparts]
      exact List.mem_append_right _ (List.mem_cons_of_mem _ hpart)
    rcases part_cases hmem with ⟨c', options', rfl, _⟩ | ⟨_, hkeys⟩
    · obtain ⟨r, hr, _, hsecond | ⟨o', hsecond⟩⟩ := contribution_cases x g c' options'
      · rw [hsecond] at hname
        simp at hname
      · rw [hsecond] at hname
        apply hafter _ hpart
        rw [hr]
        simpa using hname
    · obtain ⟨fact, hfact, heq⟩ := List.mem_map.1 hname
      apply hplain
      rw [← (hkeys fact hfact).1, facts_eq]
      exact List.mem_map_of_mem (List.mem_flatMap.2 ⟨part, hmem, hfact⟩)
  rw [facts_eq, hparts]
  exact Rows.lastValue?_flatMap hdefined hquiet

theorem lastValue?_exported {object : NodeId} (hwrapped : wrapped? x.tree x.source = none)
    (hobject : exportedObject? x.tree = some object) :
    Rows.lastValue? (x.facts g).2 (pathKey g) = some (x.definition g object) := by
  have hexported : (x.exported g).2 = [(pathKey g, x.definition g object)] := by
    rw [exported, exportedContribution, hwrapped]
    dsimp only
    rw [hobject]
    rfl
  rw [facts_eq, parts]
  exact Rows.lastValue?_flatMap hexported nofun

theorem filePath_of_defined {key : String} {d : ComponentDefinition}
    (h : Rows.lastValue? (x.facts g).2 key = some d) : d.filePath = g.toString := by
  have hmem := Rows.mem_of_lastValue? h
  rw [facts_eq] at hmem
  obtain ⟨part, hpart, hfact⟩ := List.mem_flatMap.1 hmem
  rcases part_cases hpart with ⟨c, options, rfl, _⟩ | ⟨_, hall⟩
  · obtain ⟨_, _, _, hsecond | ⟨o, hsecond⟩⟩ := contribution_cases x g c options
    · rw [hsecond] at hfact
      cases hfact
    · rw [hsecond] at hfact
      cases List.mem_singleton.1 hfact
      exact filePath_definition ..
  · exact (hall _ hfact).2

end Reading
end Components
end ProjectIndex
