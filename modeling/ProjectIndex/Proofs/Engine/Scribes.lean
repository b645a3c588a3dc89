import ProjectIndex.Engine.Facts
import ProjectIndex.Proofs.Scan.Shelf
import ProjectIndex.Proofs.Scan.StoreIndexer

/-!
The indexers of a project are scribes. An indexer on one store or on two is a scribe on a shelf of
its own; the shelves of the parts of a state make one shelf of the whole, on which each part's
scribe leaves the stores of the other parts alone.
-/
namespace ProjectIndex

namespace FactStore

variable {α : Type} {id : String} {accepts : Path → Bool}
  {extract : FileTree → Path → SyntaxTree → Source → Except Failure (FileFacts α)}

theorem save_eq_taking {s : FactStore α} (hopen : s.closed = false) (p : Path)
    (facts : FileFacts α) : s.save [(p, facts)] = .ok (s.taking p (some facts)) := by
  rw [save_eq hopen]
  rfl

theorem index_eq_taking (env : Surroundings) {p : Path} (tree : SyntaxTree) (src : Source)
    {s : FactStore α} (hopen : s.closed = false) (haccepts : accepts p = true) :
    let o := (FactStore.indexer id accepts extract).index env p tree src s
    o.1 = s.taking p (extract env.files p tree src).toOption ∧
      o.2.isSome = !(extract env.files p tree src).toBool := by
  simp only [FactStore.indexer, if_pos haccepts]
  cases extract env.files p tree src with
  | ok facts =>
    dsimp only
    rw [save_eq_taking hopen]
    exact ⟨rfl, rfl⟩
  | error e => exact ⟨rfl, rfl⟩

def shelf (α : Type) : Shelf (FactStore α) where
  Slot := Unit
  Fact _ := α
  store _ s := s

def scribe (id : String) (accepts : Path → Bool)
    (extract : FileTree → Path → SyntaxTree → Source → Except Failure (FileFacts α)) :
    Scribe (shelf α) where
  indexer := FactStore.indexer id accepts extract
  owns _ := true
  saves files p src _ :=
    match parsePath p src with
    | .ok tree => (extract files p tree src).toOption
    | .error _ => none
  fails files p src :=
    match parsePath p src with
    | .ok tree => !(extract files p tree src).toBool
    | .error _ => false
  index_store env p tree src s hopen haccepts htree k := by
    rw [htree]
    exact (index_eq_taking env tree src (hopen ()) haccepts).1
  index_fails env p tree src s hopen haccepts htree := by
    rw [htree]
    exact (index_eq_taking env tree src (hopen ()) haccepts).2
  removed_store env ps s hopen k := congrArg Prod.fst (removed_eq env ps (hopen ()))
  removed_ok env ps s hopen := congrArg Prod.snd (removed_eq env ps (hopen ()))

theorem scribe_clears : (scribe id accepts extract).Clears := by
  intro env s hopen k
  have hclear : ((FactStore.indexer id accepts extract).clear env s).1 = s.blank :=
    congrArg Prod.fst (cleared_eq env (hopen ()))
  exact ⟨.inr hclear, fun _ _ => hclear⟩

end FactStore

namespace StorePair

variable {α β : Type}

def IsOpen (s : StorePair α β) : Prop := s.first.closed = false ∧ s.second.closed = false

def taking (s : StorePair α β) (p : Path) (facts : Option (FileFacts α) × Option (FileFacts β)) :
    StorePair α β :=
  ⟨s.first.taking p facts.1, s.second.taking p facts.2⟩

theorem inFirst_eq {op : FactStore α → Except Failure (FactStore α)} {s : StorePair α β}
    {first : FactStore α} (h : op s.first = .ok first) :
    s.inFirst op = ({ s with first }, none) := by
  rw [inFirst, h]
  rfl

theorem inSecond_eq {op : FactStore β → Except Failure (FactStore β)} {s : StorePair α β}
    {second : FactStore β} (h : op s.second = .ok second) :
    s.inSecond op = ({ s with second }, none) := by
  rw [inSecond, h]
  rfl

theorem both_eq {op : FactStore α → Except Failure (FactStore α)}
    {op' : FactStore β → Except Failure (FactStore β)} {s : StorePair α β} {first : FactStore α}
    {second : FactStore β} (h : op s.first = .ok first) (h' : op' s.second = .ok second) :
    ((s.inFirst op).andThen fun s => s.inSecond op') = (⟨first, second⟩, none) := by
  have hsecond : op' (StorePair.mk first s.second).second = .ok second := h'
  rw [inFirst_eq h]
  exact inSecond_eq hsecond

theorem save_eq {s : StorePair α β} (hopen : s.IsOpen) (p : Path)
    (facts : FileFacts α × FileFacts β) :
    s.save p facts = (s.taking p (some facts.1, some facts.2), none) :=
  both_eq (FactStore.save_eq_taking hopen.1 p facts.1) (FactStore.save_eq_taking hopen.2 p facts.2)

theorem deleteFiles_eq {s : StorePair α β} (hopen : s.IsOpen) (ps : List Path) :
    s.deleteFiles ps = (⟨s.first.without ps, s.second.without ps⟩, none) :=
  both_eq (FactStore.deleteFiles_eq hopen.1 ps) (FactStore.deleteFiles_eq hopen.2 ps)

theorem clear_eq {s : StorePair α β} (hopen : s.IsOpen) : s.clear = (s.blank, none) :=
  both_eq (FactStore.clear_eq hopen.1) (FactStore.clear_eq hopen.2)

def shelf (α β : Type) : Shelf (StorePair α β) where
  Slot := Bool
  Fact second := if second then β else α
  store
    | false, s => s.first
    | true, s => s.second

theorem isOpen_of_shelf {s : StorePair α β} (h : (shelf α β).IsOpen s) : s.IsOpen :=
  ⟨h false, h true⟩

def pick (facts : Option (FileFacts α) × Option (FileFacts β)) :
    (k : (shelf α β).Slot) → Option (FileFacts ((shelf α β).Fact k))
  | false => facts.1
  | true => facts.2

/-- An indexer on two stores, as a scribe; `takes` tells what it saves of a tree. -/
def scribe (id : String) (accepts : Path → Bool)
    (save : FileTree → Path → SyntaxTree → Source → StorePair α β → Outcome (StorePair α β))
    (takes : FileTree → Path → SyntaxTree → Source →
      Option (FileFacts α) × Option (FileFacts β))
    (hsave : ∀ files p tree src s, s.IsOpen →
      save files p tree src s = (s.taking p (takes files p tree src), none)) :
    Scribe (shelf α β) where
  indexer := StorePair.indexer id accepts save
  owns _ := true
  saves files p src k :=
    match parsePath p src with
    | .ok tree => pick (takes files p tree src) k
    | .error _ => none
  fails _ _ _ := false
  index_store env p tree src s hopen haccepts htree k := by
    have hindex : (StorePair.indexer id accepts save).index env p tree src s =
        (s.taking p (takes env.files p tree src), none) :=
      (if_pos haccepts).trans (hsave env.files p tree src s (isOpen_of_shelf hopen))
    rw [hindex, htree]
    cases k <;> rfl
  index_fails env p tree src s hopen haccepts htree := by
    have hindex : (StorePair.indexer id accepts save).index env p tree src s =
        (s.taking p (takes env.files p tree src), none) :=
      (if_pos haccepts).trans (hsave env.files p tree src s (isOpen_of_shelf hopen))
    rw [hindex]
    rfl
  removed_store env ps s hopen k := by
    have hremoved : (StorePair.indexer id accepts save).removed env ps s =
        (⟨s.first.without ps, s.second.without ps⟩, none) :=
      deleteFiles_eq (isOpen_of_shelf hopen) ps
    rw [hremoved]
    cases k <;> rfl
  removed_ok env ps s hopen := congrArg Prod.snd (deleteFiles_eq (isOpen_of_shelf hopen) ps)

theorem scribe_clears {id : String} {accepts : Path → Bool}
    {save : FileTree → Path → SyntaxTree → Source → StorePair α β → Outcome (StorePair α β)}
    {takes : FileTree → Path → SyntaxTree → Source → Option (FileFacts α) × Option (FileFacts β)}
    (hsave : ∀ files p tree src s, s.IsOpen →
      save files p tree src s = (s.taking p (takes files p tree src), none)) :
    (scribe id accepts save takes hsave).Clears := by
  intro env s hopen k
  have hclear : ((StorePair.indexer id accepts save).clear env s).1 = s.blank :=
    congrArg Prod.fst (clear_eq (isOpen_of_shelf hopen))
  have hstore : (shelf α β).store k ((StorePair.indexer id accepts save).clear env s).1 =
      ((shelf α β).store k s).blank := by
    rw [hclear]
    cases k <;> rfl
  exact ⟨.inr hstore, fun _ _ => hstore⟩

end StorePair

/-- Parts of a state, each with a shelf of its own. -/
structure Parts (σ : Type) where
  Part : Type
  decEq : DecidableEq Part
  State : Part → Type
  get : (i : Part) → σ → State i
  set : (i : Part) → State i → σ → σ
  get_set : ∀ i s t, get i (set i s t) = s
  get_set_of_ne : ∀ i j s t, j ≠ i → get j (set i s t) = get j t
  shelf : (i : Part) → Shelf (State i)

namespace Parts

variable {σ : Type} (P : Parts σ)

def whole : Shelf σ where
  Slot := (i : P.Part) × (P.shelf i).Slot
  Fact k := (P.shelf k.1).Fact k.2
  store k t := (P.shelf k.1).store k.2 (P.get k.1 t)

instance : DecidableEq P.Part := P.decEq

variable {P} {i : P.Part}

theorem isOpen_part {t : σ} (h : P.whole.IsOpen t) (i : P.Part) :
    (P.shelf i).IsOpen (P.get i t) := fun k => h ⟨i, k⟩

def at? (w : Scribe (P.shelf i)) (j : P.Part) : Option (Scribe (P.shelf j)) :=
  if h : i = j then some (h ▸ w) else none

theorem at?_self (w : Scribe (P.shelf i)) : at? w i = some w := dif_pos rfl

theorem at?_of_ne (w : Scribe (P.shelf i)) {j : P.Part} (hj : j ≠ i) : at? w j = none :=
  dif_neg (Ne.symm hj)

theorem store_lift (o : Outcome (P.State i)) (t : σ) (k : (P.shelf i).Slot) :
    P.whole.store ⟨i, k⟩ (Indexer.onPart.lift (P.set i) t o).1 = (P.shelf i).store k o.1 :=
  congrArg ((P.shelf i).store k) (P.get_set i o.1 t)

theorem store_lift_of_ne (o : Outcome (P.State i)) (t : σ) {j : P.Part} (hj : j ≠ i)
    (k : (P.shelf j).Slot) :
    P.whole.store ⟨j, k⟩ (Indexer.onPart.lift (P.set i) t o).1 = P.whole.store ⟨j, k⟩ t :=
  congrArg ((P.shelf j).store k) (P.get_set_of_ne i j o.1 t hj)

def scribe (P : Parts σ) (i : P.Part) (w : Scribe (P.shelf i)) : Scribe P.whole where
  indexer := w.indexer.onPart (P.get i) (P.set i)
  owns k := (at? w k.1).any fun w => w.owns k.2
  saves files p src k := (at? w k.1).bind fun w => w.saves files p src k.2
  fails := w.fails
  index_store env p tree src t hopen haccepts htree := by
    rintro ⟨j, k⟩
    by_cases hj : j = i
    · subst hj
      have hpart := w.index_store env p tree src (P.get j t) (isOpen_part hopen j) haccepts htree k
      refine (store_lift _ t k).trans (hpart.trans ?_)
      rw [at?_self]
      rfl
    · refine (store_lift_of_ne _ t hj k).trans ?_
      rw [at?_of_ne w hj]
      rfl
  index_fails env p tree src t hopen haccepts htree :=
    w.index_fails env p tree src (P.get i t) (isOpen_part hopen i) haccepts htree
  removed_store env ps t hopen := by
    rintro ⟨j, k⟩
    by_cases hj : j = i
    · subst hj
      have hpart := w.removed_store env ps (P.get j t) (isOpen_part hopen j) k
      refine (store_lift _ t k).trans (hpart.trans ?_)
      rw [at?_self]
      rfl
    · refine (store_lift_of_ne _ t hj k).trans ?_
      rw [at?_of_ne w hj]
      rfl
  removed_ok env ps t hopen := w.removed_ok env ps (P.get i t) (isOpen_part hopen i)

theorem scribe_clears {w : Scribe (P.shelf i)} (hw : w.Clears) : (P.scribe i w).Clears := by
  rintro env t hopen ⟨j, k⟩
  by_cases hj : j = i
  · subst hj
    have hclear := hw env (P.get j t) (isOpen_part hopen j) k
    have hstore : P.whole.store ⟨j, k⟩ ((P.scribe j w).indexer.clear env t).1 =
        (P.shelf j).store k (w.indexer.clear env (P.get j t)).1 := store_lift _ t k
    have howns : (P.scribe j w).owns ⟨j, k⟩ = w.owns k := by
      simp only [scribe, at?_self, Option.any_some]
    rw [hstore, howns]
    exact hclear
  · refine ⟨.inl (store_lift_of_ne _ t hj k), fun _ howns => ?_⟩
    simp [scribe, at?_of_ne w hj] at howns

end Parts

namespace Facts

inductive Part where
  | services
  | components
  | templates
  | snippets
  | theme
  | systemConfig
  | extensions
deriving DecidableEq

def parts : Parts Facts where
  Part := Part
  decEq := inferInstance
  State
    | .services => ServiceStores
    | .components => ComponentStores
    | .templates => TemplateStores
    | .snippets => SnippetStores
    | .theme => FactStore ThemeField
    | .systemConfig => FactStore ConfigEntry
    | .extensions => FactStore Extension
  get
    | .services => services
    | .components => components
    | .templates => templates
    | .snippets => snippets
    | .theme => theme
    | .systemConfig => systemConfig
    | .extensions => extensions
  set
    | .services => fun s f => { f with services := s }
    | .components => fun s f => { f with components := s }
    | .templates => fun s f => { f with templates := s }
    | .snippets => fun s f => { f with snippets := s }
    | .theme => fun s f => { f with theme := s }
    | .systemConfig => fun s f => { f with systemConfig := s }
    | .extensions => fun s f => { f with extensions := s }
  get_set i s f := by cases i <;> rfl
  get_set_of_ne i j s f h := by cases i <;> cases j <;> simp only [ne_eq, not_true] at h <;> rfl
  shelf
    | .services => StorePair.shelf _ _
    | .components => StorePair.shelf _ _
    | .templates => StorePair.shelf _ _
    | .snippets => StorePair.shelf _ _
    | .theme => FactStore.shelf _
    | .systemConfig => FactStore.shelf _
    | .extensions => FactStore.shelf _

def takesSnippets (p : Path) (tree : SyntaxTree) (src : Source) :
    Option (FileFacts Snippet) × Option (FileFacts Snippet) :=
  match Snippets.kindOf? p with
  | some .storefront => (some (Snippets.extract tree src p), none)
  | some .administration => (none, some (Snippets.extract tree src p))
  | none => (none, none)

theorem save_snippets (p : Path) (tree : SyntaxTree) (src : Source) {s : SnippetStores}
    (hopen : s.IsOpen) :
    (match Snippets.kindOf? p with
      | some .storefront => s.inFirst (·.save [(p, Snippets.extract tree src p)])
      | some .administration => s.inSecond (·.save [(p, Snippets.extract tree src p)])
      | none => (s, none)) = (s.taking p (takesSnippets p tree src), none) := by
  unfold takesSnippets
  split
  · exact StorePair.inFirst_eq (FactStore.save_eq_taking hopen.1 p _)
  · exact StorePair.inSecond_eq (FactStore.save_eq_taking hopen.2 p _)
  · rfl

def servicesScribe : Scribe (StorePair.shelf Service Parameter) :=
  StorePair.scribe "symfony.services" Services.accepts
    (fun _ p tree src s => s.save p (Services.extract p tree src))
    (fun _ p tree src => (Services.extract p tree src).map some some)
    fun _ p _ _ _ hopen => StorePair.save_eq hopen p _

def componentsScribe : Scribe (StorePair.shelf Component ComponentDefinition) :=
  StorePair.scribe "admin.components" Components.accepts
    (fun files p tree src s => s.save p (Components.extract files p tree src))
    (fun files p tree src => (Components.extract files p tree src).map some some)
    fun _ p _ _ _ hopen => StorePair.save_eq hopen p _

def templatesScribe : Scribe (StorePair.shelf TemplateFile BlockHash) :=
  StorePair.scribe "twig.templates" Templates.accepts
    (fun _ p tree src s => s.save p (Templates.extract p tree src))
    (fun _ p tree src => (Templates.extract p tree src).map some some)
    fun _ p _ _ _ hopen => StorePair.save_eq hopen p _

def snippetsScribe : Scribe (StorePair.shelf Snippet Snippet) :=
  StorePair.scribe "snippets" Snippets.accepts _ (fun _ => takesSnippets)
    fun _ p tree src _ hopen => save_snippets p tree src hopen

/-- The scribes of a project, in the order in which they see a file. -/
def scribes : List (Scribe parts.whole) :=
  [parts.scribe .services servicesScribe, parts.scribe .components componentsScribe,
    parts.scribe .templates templatesScribe, parts.scribe .snippets snippetsScribe,
    parts.scribe .theme (FactStore.scribe "theme.config" Theme.accepts
      fun _ p tree src => .ok (Theme.extract tree src p)),
    parts.scribe .systemConfig (FactStore.scribe "system.config" SystemConfig.accepts
      fun files p tree src => SystemConfig.extract tree src files p),
    parts.scribe .extensions (FactStore.scribe "extensions" Extensions.accepts
      fun _ p tree src => .ok (Extensions.extract tree src p))]

theorem isOpen_withRows (f : Facts) : parts.whole.IsOpen (empty.withRows f) := by
  rintro ⟨i, k⟩
  cases i <;> cases k <;> rfl

theorem rows_empty (k : parts.whole.Slot) : (parts.whole.store k empty).rows = [] := by
  obtain ⟨i, k⟩ := k
  cases i <;> cases k <;> rfl

theorem map_indexer_scribes : scribes.map Scribe.indexer = indexers := rfl

theorem scribes_clear : ∀ w ∈ scribes, w.Clears := by
  simp only [scribes, List.forall_mem_cons]
  refine ⟨?_, ?_, ?_, ?_, ?_, ?_, ?_, nofun⟩
  · exact Parts.scribe_clears (StorePair.scribe_clears _)
  · exact Parts.scribe_clears (StorePair.scribe_clears _)
  · exact Parts.scribe_clears (StorePair.scribe_clears _)
  · exact Parts.scribe_clears (StorePair.scribe_clears _)
  · exact Parts.scribe_clears FactStore.scribe_clears
  · exact Parts.scribe_clears FactStore.scribe_clears
  · exact Parts.scribe_clears FactStore.scribe_clears

end Facts

end ProjectIndex
