import ProjectIndex.Engine.Cache
import ProjectIndex.Store.Packed

/-!
A cache as the files of its directory: each database is one file, beside the files that are none. A
file with the name of a database that cannot be read as one stays what it is.
-/
namespace ProjectIndex

instance : Packable Service :=
  .via (fun s => (s.id, s.className, s.aliasTarget, s.tags, s.path, s.line))
    fun (id, className, aliasTarget, tags, path, line) =>
      ⟨id, className, aliasTarget, tags, path, line⟩

instance : Packable Parameter :=
  .via (fun p => (p.name, p.value, p.path, p.line))
    fun (name, value, path, line) => ⟨name, value, path, line⟩

instance : Packable ComponentProp :=
  .via (fun p => (p.name, p.propType, p.required, p.default, p.line))
    fun (name, propType, required, default, line) => ⟨name, propType, required, default, line⟩

instance : Packable NamedPlace :=
  .via (fun p => (p.name, p.line)) fun (name, line) => ⟨name, line⟩

instance : Packable ComponentDefinition :=
  .via
    (fun d =>
      (d.filePath, d.props, d.emits, d.methods, d.computed, d.slots, d.blocks, d.templatePath,
        d.hasTemplate))
    fun (filePath, props, emits, methods, computed, slots, blocks, templatePath, hasTemplate) =>
      ⟨filePath, props, emits, methods, computed, slots, blocks, templatePath, hasTemplate⟩

instance : Packable Component :=
  .via
    (fun c =>
      (c.name, c.parentName, c.importPath, c.filePath, c.definitionPath, c.line, c.props, c.emits,
        c.methods, c.computed, c.slots, c.blocks, c.templatePath))
    fun (name, parentName, importPath, filePath, definitionPath, line, props, emits, methods,
        computed, slots, blocks, templatePath) =>
      ⟨name, parentName, importPath, filePath, definitionPath, line, props, emits, methods,
        computed, slots, blocks, templatePath⟩

instance : Packable VersionMarker :=
  .via (fun m => (m.hash, m.version, m.line)) fun (hash, version, line) => ⟨hash, version, line⟩

instance : Packable TemplateBlock :=
  .via (fun b => (b.name, b.line, b.hash, b.marker))
    fun (name, line, hash, marker) => ⟨name, line, hash, marker⟩

instance : Packable TemplateFile :=
  .via (fun f => (f.path, f.relativePath, f.bundleName, f.parent, f.parentLine, f.blocks))
    fun (path, relativePath, bundleName, parent, parentLine, blocks) =>
      ⟨path, relativePath, bundleName, parent, parentLine, blocks⟩

instance : Packable BlockHash :=
  .via (fun b => (b.name, b.relativePath, b.absolutePath, b.hash, b.line))
    fun (name, relativePath, absolutePath, hash, line) =>
      ⟨name, relativePath, absolutePath, hash, line⟩

instance : Packable Snippet :=
  .via (fun s => (s.key, s.text, s.file, s.line))
    fun (key, text, file, line) => ⟨key, text, file, line⟩

instance : Packable ThemeField :=
  .via
    (fun f =>
      (f.key, f.label, f.fieldType, f.value, f.editable, f.block, f.order, f.scss, f.path, f.line))
    fun (key, label, fieldType, value, editable, block, order, scss, path, line) =>
      ⟨key, label, fieldType, value, editable, block, order, scss, path, line⟩

instance : Packable ConfigEntry :=
  .via (fun e => (e.scope, e.name, e.label, e.fieldType, e.component, e.card, e.path, e.line))
    fun (scope, name, label, fieldType, component, card, path, line) =>
      ⟨scope, name, label, fieldType, component, card, path, line⟩

instance : Packable Extension :=
  .via
    (fun e =>
      (e.name, e.label, e.description, e.author, e.copyright, e.version, e.license, e.path))
    fun (name, label, description, author, copyright, version, license, path) =>
      ⟨name, label, description, author, copyright, version, license, path⟩

instance {α : Type} [Packable α] : Packable (Row α) :=
  .via (fun r => (r.file, r.key, r.value)) fun (file, key, value) => ⟨file, key, value⟩

instance : Packable TrackedFile :=
  .via (fun f => (f.path, f.contentHash, f.lastIndexedAt.seconds, f.lastIndexedAt.nanos))
    fun (path, contentHash, seconds, nanos) => ⟨path, contentHash, ⟨seconds, nanos⟩⟩

abbrev CacheFiles := List (String × List UInt8)

namespace CacheFiles

variable {α : Type} [Packable α]

def pack (name : String) (rows : List α) : String × List UInt8 :=
  (name, Text.encode (Packable.pack rows).write)

def rows? (files : CacheFiles) (name : String) : Option (List α) := do
  let bytes ← files.lookup name
  let text ← Text.decode? bytes
  let packed ← Packed.read? text
  Packable.unpack? packed

end CacheFiles

namespace Facts

def toFiles (f : Facts) : CacheFiles :=
  [one f.services.first, one f.services.second, one f.components.first, one f.components.second,
    one f.templates.first, one f.templates.second, one f.snippets.first, one f.snippets.second,
    one f.theme, one f.systemConfig, one f.extensions]
where
  one {α : Type} [Packable α] (s : FactStore α) : String × List UInt8 :=
    CacheFiles.pack (s.name ++ ".db") s.rows

def ofFiles (files : CacheFiles) : Facts × List String :=
  let read : StateM (List String) Facts := do
    return {
      services := ← pair Services.emptyStores
      components := ← pair Components.emptyStores
      templates := ← pair Templates.emptyStores
      snippets := ← pair Snippets.emptyStores
      theme := ← one Facts.empty.theme
      systemConfig := ← one Facts.empty.systemConfig
      extensions := ← one Facts.empty.extensions }
  read.run []
where
  one {α : Type} [Packable α] (s : FactStore α) : StateM (List String) (FactStore α) := do
    let name := s.name ++ ".db"
    match files.rows? name with
    | some rows =>
      modify (· ++ [name])
      return { s with rows }
    | none => return s
  pair {α β : Type} [Packable α] [Packable β] (p : StorePair α β) :
      StateM (List String) (StorePair α β) := do
    return ⟨← one p.first, ← one p.second⟩

end Facts

namespace Cache

def ofFiles (files : CacheFiles) : Cache :=
  let (facts, stores) := Facts.ofFiles files
  let hashes := files.rows? hashDatabase
  let databases := stores ++ (if hashes.isSome then [hashDatabase] else [])
  { files := files.foldl (fun t f =>
      if databases.contains f.1 then t else t.write (pathOf f.1) f.2) FileTree.empty
    databases
    facts
    hashes := { HashTable.new with files := hashes.getD [] }
    generation := 0 }

def toFiles (c : Cache) : CacheFiles :=
  let stores := (c.facts.toFiles ++ [CacheFiles.pack hashDatabase c.hashes.files]).filter fun f =>
    c.databases.contains f.1
  let others : CacheFiles := match c.files.root with
    | .dir entries => entries.filterMap fun (e : Name × Entry) =>
      match e.2 with
      | .file bytes => some (String.ofList e.1, bytes)
      | _ => none
    | _ => []
  stores ++ others.filter fun f => !c.databases.contains f.1

end Cache
end ProjectIndex
