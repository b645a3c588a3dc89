import ProjectIndex.Domain.Components.Indexer
import ProjectIndex.Domain.Extensions
import ProjectIndex.Domain.Services
import ProjectIndex.Domain.Snippets
import ProjectIndex.Domain.SystemConfig
import ProjectIndex.Domain.Templates.Indexer
import ProjectIndex.Domain.Theme

/-! Everything that is known of a project, and the indexers that keep it. -/
namespace ProjectIndex

structure Facts where
  services : ServiceStores
  components : ComponentStores
  templates : TemplateStores
  snippets : SnippetStores
  theme : FactStore ThemeField
  systemConfig : FactStore ConfigEntry
  extensions : FactStore Extension
deriving Inhabited

namespace Facts

def empty : Facts where
  services := Services.emptyStores
  components := Components.emptyStores
  templates := Templates.emptyStores
  snippets := Snippets.emptyStores
  theme := .new "theme_config"
  systemConfig := .new "system_config"
  extensions := .new "extensions"

def indexers : List (Indexer Facts) :=
  [Services.indexer.onPart services fun s f => { f with services := s },
    Components.indexer.onPart components fun s f => { f with components := s },
    Templates.indexer.onPart templates fun s f => { f with templates := s },
    Snippets.indexer.onPart snippets fun s f => { f with snippets := s },
    Theme.indexer.onPart theme fun s f => { f with theme := s },
    SystemConfig.indexer.onPart systemConfig fun s f => { f with systemConfig := s },
    Extensions.indexer.onPart extensions fun s f => { f with extensions := s }]

def databases (f : Facts) : List String :=
  [f.components.first.name, f.components.second.name, f.templates.first.name,
    f.templates.second.name, f.services.first.name, f.services.second.name, f.snippets.first.name,
    f.snippets.second.name, f.theme.name, f.systemConfig.name, f.extensions.name].map (· ++ ".db")

/-- The rows of one record in the stores of another, which stay open or closed as they are. -/
def withRows (f rows : Facts) : Facts where
  services := pair f.services rows.services
  components := pair f.components rows.components
  templates := pair f.templates rows.templates
  snippets := pair f.snippets rows.snippets
  theme := one f.theme rows.theme
  systemConfig := one f.systemConfig rows.systemConfig
  extensions := one f.extensions rows.extensions
where
  one {α : Type} (s t : FactStore α) : FactStore α := { s with rows := t.rows }
  pair {α β : Type} (s t : StorePair α β) : StorePair α β :=
    ⟨one s.first t.first, one s.second t.second⟩

def withoutDatabase (f : Facts) (file : String) : Facts where
  services := pair f.services
  components := pair f.components
  templates := pair f.templates
  snippets := pair f.snippets
  theme := one f.theme
  systemConfig := one f.systemConfig
  extensions := one f.extensions
where
  one {α : Type} (s : FactStore α) : FactStore α :=
    if s.name ++ ".db" == file then { s with rows := [] } else s
  pair {α β : Type} (s : StorePair α β) : StorePair α β := ⟨one s.first, one s.second⟩

end Facts
end ProjectIndex
