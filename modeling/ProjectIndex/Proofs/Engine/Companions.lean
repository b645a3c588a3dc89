import ProjectIndex.Proofs.Engine.Scribes
import ProjectIndex.Proofs.Scan.Sheets

/-!
What the indexers read beside a file. Of the other files of a project, the facts of a component
depend on the text of its template and on the targets of its lazy imports, those of a configuration
file on its namespace, and all other facts on nothing.
-/
namespace ProjectIndex

namespace Components

variable (files files' : FileTree) (file : Path) (t : SyntaxTree) (src : Source)

def templateText (specifier : List Char) : List Char :=
  (files.readText (relativeTo file specifier)).toOption.getD []

def lazyImports : List (List Char) :=
  (registration.findAll t src t.root).flatMap fun call =>
    ((t.childOfKind? call "arguments").toList.flatMap fun list => t.namedChildren list).filterMap
      fun argument => if t.kind argument == "arrow_function" then lazyImport? t src argument else none

variable {files files' file t src} {template : Option (List Char)}

theorem definition_congr (h : ∀ specifier ∈ template,
    templateText files file specifier = templateText files' file specifier) (object : NodeId) :
    definition t src files file template object = definition t src files' file template object := by
  cases template with
  | none => rfl
  | some specifier =>
    have htext : (files.readText (relativeTo file specifier)).toOption.getD [] =
        (files'.readText (relativeTo file specifier)).toOption.getD [] := h specifier rfl
    simp only [definition, withTemplate, htext]

theorem withOptions_congr (htemplate : ∀ specifier ∈ template,
      templateText files file specifier = templateText files' file specifier) (c : Component)
    {options : Option NodeId}
    (himport : ∀ o ∈ options, (t.kind o == "arrow_function") = true → ∀ specifier,
      lazyImport? t src o = some specifier →
        resolveImport files file specifier = resolveImport files' file specifier) :
    withOptions files file template t src c options =
      withOptions files' file template t src c options := by
  cases options with
  | none => rfl
  | some o =>
    simp only [withOptions, definition_congr htemplate]
    split
    · rfl
    · split
      · next harrow =>
        cases hlazy : lazyImport? t src o with
        | none => rfl
        | some specifier =>
          dsimp only
          rw [himport o rfl harrow specifier hlazy]
      · rfl

theorem registered?_congr (htemplate : ∀ specifier ∈ template,
      templateText files file specifier = templateText files' file specifier) {call : NodeId}
    (hcall : call ∈ registration.findAll t src t.root)
    (himports : ∀ specifier ∈ lazyImports t src,
      resolveImport files file specifier = resolveImport files' file specifier) :
    registered? files file template t src call = registered? files' file template t src call := by
  refine Option.bind_congr fun callee _ => Option.bind_congr fun list hlist => ?_
  have hoptions : ∀ (c : Component) (n : Nat),
      withOptions files file template t src c
          ((t.namedChildren list).filter fun n => t.kind n != "comment")[n]? =
        withOptions files' file template t src c
          ((t.namedChildren list).filter fun n => t.kind n != "comment")[n]? := by
    intro c n
    refine withOptions_congr htemplate c fun o ho harrow specifier hlazy => ?_
    have hargument : o ∈ t.namedChildren list := List.mem_of_mem_filter (List.mem_of_getElem? ho)
    refine himports specifier (List.mem_flatMap.2 ⟨call, hcall, ?_⟩)
    refine List.mem_filterMap.2 ⟨o, ?_, by rw [if_pos harrow, hlazy]⟩
    rw [hlist]
    simpa using hargument
  simp only [hoptions]

theorem exportedContribution_congr (htemplate : ∀ specifier ∈ template,
      templateText files file specifier = templateText files' file specifier) :
    exportedContribution files file template t src =
      exportedContribution files' file template t src := by
  simp only [exportedContribution, wrappedContribution, definition_congr htemplate]

theorem extract_congr (htemplate : ∀ specifier ∈ templateImport? t src,
      templateText files file specifier = templateText files' file specifier)
    (himports : ∀ specifier ∈ lazyImports t src,
      resolveImport files file specifier = resolveImport files' file specifier) :
    extract files file t src = extract files' file t src := by
  have hcalls : (registration.findAll t src t.root).filterMap
        (registered? files file (templateImport? t src) t src) =
      (registration.findAll t src t.root).filterMap
        (registered? files' file (templateImport? t src) t src) :=
    List.filterMap_congr fun call hcall => registered?_congr htemplate hcall himports
  simp only [extract, hcalls, exportedContribution_congr htemplate]

end Components

theorem SystemConfig.extract_congr {t : SyntaxTree} {src : Source} {files files' : FileTree}
    {p : Path} (h : Text.contains src schema = true → namespaceFor files p = namespaceFor files' p) :
    extract t src files p = extract t src files' p := by
  unfold extract
  split
  · next hschema => rw [h hschema]
  · rfl

namespace FactStore

variable {α : Type} {id : String} {accepts : Path → Bool}
  {extract : FileTree → Path → SyntaxTree → Source → Except Failure (FileFacts α)}

theorem scribe_certain : (scribe id accepts extract).Certain := by
  intro files p src k tree _ htree hfails hsaves
  simp only [scribe, htree] at hfails hsaves
  cases hextract : extract files p tree src with
  | ok facts =>
    rw [hextract] at hsaves
    cases hsaves
  | error e =>
    rw [hextract] at hfails
    cases hfails

end FactStore

namespace StorePair

variable {α β : Type} {id : String} {accepts : Path → Bool}
  {save : FileTree → Path → SyntaxTree → Source → StorePair α β → Outcome (StorePair α β)}
  {takes : FileTree → Path → SyntaxTree → Source → Option (FileFacts α) × Option (FileFacts β)}
  {hsave : ∀ files p tree src s, s.IsOpen →
    save files p tree src s = (s.taking p (takes files p tree src), none)}

theorem scribe_certain (h : ∀ files p tree src k, pick (takes files p tree src) k = none →
    ∀ files' tree' src', pick (takes files' p tree' src') k = none) :
    (scribe id accepts save takes hsave).Certain := by
  intro files p src k tree _ htree _ hsaves _ files' src'
  simp only [scribe, htree] at hsaves ⊢
  cases parsePath p src' with
  | ok tree' => exact h files p tree src k hsaves files' tree' src'
  | error e => rfl

theorem pick_ne_none {facts : FileFacts α × FileFacts β} {k : (shelf α β).Slot} :
    pick (facts.map some some) k ≠ none := by
  cases k <;> exact nofun

end StorePair

namespace Parts

variable {σ : Type} {P : Parts σ} {i : P.Part}

theorem scribe_owns_of_ne (w : Scribe (P.shelf i)) {k : P.whole.Slot} (hk : k.1 ≠ i) :
    (P.scribe i w).owns k = false := by
  simp only [scribe, at?_of_ne w hk, Option.any_none]

theorem scribe_certain {w : Scribe (P.shelf i)} (hw : w.Certain) : (P.scribe i w).Certain := by
  rintro files p src ⟨j, k⟩ tree howns htree hfails hsaves
  by_cases hj : j = i
  · subst hj
    simp only [scribe, at?_self, Option.any_some] at howns hsaves
    intro haccepts files' src'
    have hnone := hw files p src k tree howns htree hfails hsaves haccepts files' src'
    simp only [scribe, at?_self]
    exact hnone
  · exact absurd (howns.symm.trans (scribe_owns_of_ne (k := ⟨j, k⟩) w hj)) (by simp)

theorem sole_scribe {w : (i : P.Part) → Scribe (P.shelf i)} (howns : ∀ i k, (w i).owns k = true)
    {is : List P.Part} (hnodup : is.Nodup) {k : P.whole.Slot} (hk : k.1 ∈ is) :
    Scribe.Sole (is.map fun i => P.scribe i (w i)) (P.scribe k.1 (w k.1)) k := by
  obtain ⟨front, behind, rfl⟩ := List.append_of_mem hk
  refine ⟨?_, front.map _, behind.map _, List.map_append .., fun v hv => ?_⟩
  · simp only [scribe, at?_self, Option.any_some]
    exact howns k.1 k.2
  · rw [← List.map_append] at hv
    obtain ⟨j, hj, rfl⟩ := List.mem_map.1 hv
    refine scribe_owns_of_ne (w j) ?_
    rintro rfl
    rw [List.nodup_append, List.nodup_cons] at hnodup
    rcases List.mem_append.1 hj with hfront | hbehind
    · exact hnodup.2.2 _ hfront _ (List.mem_cons_self ..) rfl
    · exact hnodup.2.1.1 hbehind

end Parts

namespace Facts

def partScribe : (i : Part) → Scribe (parts.shelf i)
  | .services => servicesScribe
  | .components => componentsScribe
  | .templates => templatesScribe
  | .snippets => snippetsScribe
  | .theme => FactStore.scribe "theme.config" Theme.accepts
      fun _ p tree src => .ok (Theme.extract tree src p)
  | .systemConfig => FactStore.scribe "system.config" SystemConfig.accepts
      fun files p tree src => SystemConfig.extract tree src files p
  | .extensions => FactStore.scribe "extensions" Extensions.accepts
      fun _ p tree src => .ok (Extensions.extract tree src p)

def scribeOf (k : parts.whole.Slot) : Scribe parts.whole := parts.scribe k.1 (partScribe k.1)

theorem partScribe_owns (i : Part) (k : (parts.shelf i).Slot) : (partScribe i).owns k = true := by
  cases i <;> rfl

/-- Which of the two stores of snippets gets anything is decided by the path. -/
theorem snippetsScribe_certain : snippetsScribe.Certain := by
  unfold snippetsScribe
  refine StorePair.scribe_certain fun _ p tree src k hnone _ tree' src' => ?_
  unfold takesSnippets at hnone ⊢
  cases hkind : Snippets.kindOf? p with
  | none => cases k <;> rfl
  | some kind =>
    rw [hkind] at hnone
    cases kind with
    | storefront =>
      cases k with
      | false => cases hnone
      | true => rfl
    | administration =>
      cases k with
      | false => rfl
      | true => cases hnone

theorem partScribe_certain (i : Part) : (partScribe i).Certain := by
  cases i with
  | services =>
    change servicesScribe.Certain
    unfold servicesScribe
    exact StorePair.scribe_certain fun _ _ _ _ _ h => absurd h StorePair.pick_ne_none
  | components =>
    change componentsScribe.Certain
    unfold componentsScribe
    exact StorePair.scribe_certain fun _ _ _ _ _ h => absurd h StorePair.pick_ne_none
  | templates =>
    change templatesScribe.Certain
    unfold templatesScribe
    exact StorePair.scribe_certain fun _ _ _ _ _ h => absurd h StorePair.pick_ne_none
  | snippets => exact snippetsScribe_certain
  | theme => exact FactStore.scribe_certain
  | systemConfig => exact FactStore.scribe_certain
  | extensions => exact FactStore.scribe_certain

theorem scribeOf_sole (k : parts.whole.Slot) : Scribe.Sole scribes (scribeOf k) k := by
  have hparts : scribes = [Part.services, .components, .templates, .snippets, .theme,
      .systemConfig, .extensions].map fun i => parts.scribe i (partScribe i) := rfl
  have hnodup : [Part.services, .components, .templates, .snippets, .theme, .systemConfig,
      .extensions].Nodup := by decide
  have hall : ∀ i : Part, i ∈ [Part.services, .components, .templates, .snippets, .theme,
      .systemConfig, .extensions] := by
    intro i
    cases i <;> decide
  rw [hparts]
  exact Parts.sole_scribe partScribe_owns hnodup (hall k.1)

/-- Two trees in which the indexer of a part finds the same beside a file: the text of the imported
template and the targets of the lazy imports, for components; the namespace, for configuration. -/
def SeesSame (p : Path) (src : Source) (files files' : FileTree) : Part → Prop
  | .components => Components.accepts p = true → ∀ tree, parsePath p src = .ok tree →
      (∀ specifier ∈ Components.templateImport? tree src,
        Components.templateText files p specifier = Components.templateText files' p specifier) ∧
      ∀ specifier ∈ Components.lazyImports tree src,
        Components.resolveImport files p specifier = Components.resolveImport files' p specifier
  | .systemConfig => SystemConfig.accepts p = true → Text.contains src SystemConfig.schema = true →
      SystemConfig.namespaceFor files p = SystemConfig.namespaceFor files' p
  | _ => True

theorem saves_congr {p : Path} {src : Source} {files files' : FileTree} {i : Part}
    (h : SeesSame p src files files' i) (haccepts : (partScribe i).indexer.accepts p = true)
    (k : (parts.shelf i).Slot) :
    (partScribe i).saves files p src k = (partScribe i).saves files' p src k := by
  cases i with
  | components =>
    simp only [partScribe, componentsScribe, StorePair.scribe]
    cases htree : parsePath p src with
    | error e => rfl
    | ok tree =>
      obtain ⟨htemplate, himports⟩ := h haccepts tree htree
      dsimp only
      rw [Components.extract_congr htemplate himports]
  | systemConfig =>
    simp only [partScribe, FactStore.scribe]
    cases parsePath p src with
    | error e => rfl
    | ok tree => exact congrArg Except.toOption (SystemConfig.extract_congr (h haccepts))
  | services => rfl
  | templates => rfl
  | snippets => rfl
  | theme => rfl
  | extensions => rfl

theorem sheet_congr {p : Path} {src : Source} {files files' : FileTree} {k : parts.whole.Slot}
    (h : SeesSame p src files files' k.1) :
    (scribeOf k).sheet files p src k [] = (scribeOf k).sheet files' p src k [] := by
  by_cases haccepts : (scribeOf k).indexer.accepts p = true
  · apply Scribe.sheet_congr
    simp only [scribeOf, Parts.scribe, Parts.at?_self]
    exact saves_congr h haccepts k.2
  · simp only [Scribe.sheet, if_neg haccepts]

end Facts
end ProjectIndex
