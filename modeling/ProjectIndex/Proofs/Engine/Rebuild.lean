import ProjectIndex.Proofs.Engine.Blank
import ProjectIndex.Proofs.Scan.Alike

/-!
A forced scan rebuilds everything. Whatever a project has been through, scanning it after everything
was forgotten gives the stores, row by row, and the records, up to their times, that a scan with new
stores gives.
-/
namespace ProjectIndex

namespace Facts

theorem indexers_keep : ∀ i ∈ indexers, i.Keeps fun f => f.withRows empty := by
  have hsnippets : Snippets.indexer.Keeps StorePair.blank := by
    refine StorePair.indexer_keeps _ _ fun files p tree src s => ?_
    split
    · exact StorePair.blank_inFirst (fun _ _ => FactStore.blank_of_save) s
    · exact StorePair.blank_inSecond (fun _ _ => FactStore.blank_of_save) s
    · rfl
  simp only [indexers, List.forall_mem_cons]
  refine ⟨?_, ?_, ?_, ?_, ?_, ?_, ?_, nofun⟩
  · refine Indexer.Keeps.onPart (StorePair.indexer_keeps _ _ fun _ p _ _ s => s.blank_save p _) ?_
    exact fun s f h => congrArg (fun part => { f.withRows empty with services := part }) h
  · refine Indexer.Keeps.onPart (StorePair.indexer_keeps _ _ fun _ p _ _ s => s.blank_save p _) ?_
    exact fun s f h => congrArg (fun part => { f.withRows empty with components := part }) h
  · refine Indexer.Keeps.onPart (StorePair.indexer_keeps _ _ fun _ p _ _ s => s.blank_save p _) ?_
    exact fun s f h => congrArg (fun part => { f.withRows empty with templates := part }) h
  · refine Indexer.Keeps.onPart hsnippets ?_
    exact fun s f h => congrArg (fun part => { f.withRows empty with snippets := part }) h
  · refine Indexer.Keeps.onPart (FactStore.indexer_keeps _ _ _) ?_
    exact fun s f h => congrArg (fun part => { f.withRows empty with theme := part }) h
  · refine Indexer.Keeps.onPart (FactStore.indexer_keeps _ _ _) ?_
    exact fun s f h => congrArg (fun part => { f.withRows empty with systemConfig := part }) h
  · refine Indexer.Keeps.onPart (FactStore.indexer_keeps _ _ _) ?_
    exact fun s f h => congrArg (fun part => { f.withRows empty with extensions := part }) h

def wipes : List (Facts → Facts) :=
  [fun f => { f with services := f.services.blank },
    fun f => { f with components := f.components.blank },
    fun f => { f with templates := f.templates.blank },
    fun f => { f with snippets := f.snippets.blank },
    fun f => { f with theme := f.theme.blank },
    fun f => { f with systemConfig := f.systemConfig.blank },
    fun f => { f with extensions := f.extensions.blank }]

theorem foldl_wipes (f : Facts) : wipes.foldl (fun f wipe => wipe f) f = f.withRows empty := rfl

theorem indexers_clearTo : List.Forall₂ Indexer.ClearsTo indexers wipes := by
  have honPart : ∀ {σ : Type} {i : Indexer σ} {wipe : σ → σ}, i.ClearsTo wipe →
      ∀ (get : Facts → σ) (set : σ → Facts → Facts),
        (i.onPart get set).ClearsTo fun f => set (wipe (get f)) f := by
    intro σ i wipe h get set env f hnone
    exact congrArg (set · f) (h env (get f) hnone)
  refine .cons (honPart (StorePair.indexer_clearsTo _ _ _) _ _) ?_
  refine .cons (honPart (StorePair.indexer_clearsTo _ _ _) _ _) ?_
  refine .cons (honPart (StorePair.indexer_clearsTo _ _ _) _ _) ?_
  refine .cons (honPart (StorePair.indexer_clearsTo _ _ _) _ _) ?_
  refine .cons (honPart (FactStore.indexer_clearsTo _ _ _) _ _) ?_
  refine .cons (honPart (FactStore.indexer_clearsTo _ _ _) _ _) ?_
  exact .cons (honPart (FactStore.indexer_clearsTo _ _ _) _ _) .nil

end Facts

namespace Scanner

def afresh (s : Scanner Facts) : Scanner Facts := { s with hashes := .new, facts := Facts.empty }

/-- A scanner on the stores of a project, each under its name and open, whatever they hold. -/
structure OnStores (s : Scanner Facts) : Prop where
  isOpen : s.hashes.closed = false
  indexers : s.indexers = Facts.indexers
  facts : s.facts.withRows Facts.empty = Facts.empty

theorem OnStores.after {s : Scanner Facts} (h : s.OnStores) (history : List (Moment × ScanCall)) :
    (s.after history).OnStores ∧ s.SameProject (s.after history) := by
  obtain ⟨⟨hopen, hindexers, hfacts⟩, hsame⟩ :=
    (keeps_invariant Facts.indexers_keep Facts.empty).after history
      (fun _ _ _ _ _ _ _ _ => trivial) ⟨h.isOpen, h.indexers, h.facts⟩
  exact ⟨⟨hopen, hindexers, hfacts⟩, hsame⟩

theorem OnStores.clearAll {s : Scanner Facts} (h : s.OnStores) {env : Surroundings}
    {c : Scanner Facts} (hclear : s.clearAll env = (c, .ok ())) : c = s.afresh := by
  unfold Scanner.clearAll at hclear
  rw [h.indexers, HashTable.clear_eq h.isOpen] at hclear
  split at hclear
  · cases hclear
  · next facts hcall =>
    cases hclear
    have hfacts := (eq_foldl_of_cleared Facts.indexers_clearTo hcall).trans (Facts.foldl_wipes _)
    rw [hfacts, h.facts, afresh, h.indexers]

theorem Alike.refl {s : Scanner Facts} (hopen : s.hashes.closed = false) : s.Alike s :=
  ⟨⟨rfl, rfl, rfl, rfl⟩, hopen, ⟨rfl, rfl⟩, rfl⟩

theorem indexAll_afresh {s : Scanner Facts} (hindexers : s.indexers = Facts.indexers)
    (hclosed : s.closed = false) (m : Moment) (force : Bool) :
    s.afresh.indexAll m force = s.afresh.synchronize ⟨m.files, .scanning true⟩ m.now := by
  have hclear : s.afresh.clearAll ⟨m.files, .scanning true⟩ = (s.afresh, .ok ()) := by
    have hcall : callUntilFailure (fun i => i.clear ⟨m.files, .scanning true⟩) Facts.indexers
        Facts.empty = (Facts.empty, none) := rfl
    simp only [clearAll, afresh, hindexers, hcall]
    rfl
  have hopen : s.afresh.closed = false := hclosed
  unfold indexAll
  cases force with
  | false => simp only [hopen, Bool.false_eq_true, if_false]
  | true => simp only [hopen, Bool.false_eq_true, if_false, if_true, hclear]

theorem OnStores.synchronize_afresh {s s' : Scanner Facts} (h : s.OnStores) {m : Moment}
    {r : ScanReport}
    (hrun : s.indexAll m true = (s', .ok r) ∨
      ∃ m₀ c, s.clearHashes m₀ = (c, .ok ()) ∧ c.indexAll m false = (s', .ok r)) :
    s.closed = false ∧
      s.afresh.synchronize ⟨m.files, .scanning true⟩ m.now = (s', .ok r) := by
  rcases hrun with hforced | ⟨m₀, c, hforget, hscan⟩
  · unfold indexAll at hforced
    split at hforced
    · cases hforced
    · next hclosed =>
      simp only [if_true] at hforced
      split at hforced
      · cases hforced
      · next c hclear =>
        rw [← h.clearAll hclear]
        exact ⟨by simpa using hclosed, hforced⟩
  · unfold clearHashes at hforget
    split at hforget
    · cases hforget
    · next hclosed =>
      have hopen : s.closed = false := by simpa using hclosed
      rw [h.clearAll hforget, indexAll_afresh h.indexers hopen] at hscan
      exact ⟨hopen, hscan⟩

/-- A project with one configuration file, below a manifest that gives its namespace. -/
def configProject (manifest : List UInt8) : FileTree :=
  { root := .dir [("manifest.xml".toList, .file manifest), ("p".toList, .dir [("config.xml".toList, .file
    "<c x='SystemConfig/Schema/config.xsd'><component><name>n</name></component></c>".toUTF8.toList
    )])] }

def configScanner : Scanner Facts :=
  ⟨.ofString "/p", {}, Facts.indexers, .new, Facts.empty, false⟩

/-- Whatever happened to a project, scanning it after everything was forgotten gives the same stores
and, up to their times, the same records as scanning it with new stores. -/
theorem forced_scan_rebuilds {files : FileTree} {root : Path} {options : ScanOptions}
    {hashes : HashTable} {facts : Facts} {s : Scanner Facts}
    (hopen : open? files root options Facts.indexers hashes facts = .ok s)
    (hfacts : facts.withRows Facts.empty = Facts.empty) (history : List (Moment × ScanCall))
    {m m' : Moment} (hfiles : m'.files = m.files) {s' : Scanner Facts} {r : ScanReport}
    (hrun : (s.after history).indexAll m true = (s', .ok r) ∨
      ∃ m₀ c, (s.after history).clearHashes m₀ = (c, .ok ()) ∧ c.indexAll m false = (s', .ok r))
    (force : Bool) :
    ∃ t, (s.after history).afresh.indexAll m' force = (t, .ok r) ∧ t.facts = s'.facts ∧
      s'.hashes.Agree t.hashes := by
  have hstart : s.OnStores := by
    obtain ⟨canonical, _, rfl⟩ := open?_eq_ok hopen
    exact ⟨rfl, rfl, hfacts⟩
  obtain ⟨hstores, _⟩ := hstart.after history
  obtain ⟨hclosed, hsync⟩ := hstores.synchronize_afresh hrun
  -- Both scans start from the same scanner and differ in the times they write.
  have hself : (s.after history).afresh.Alike (s.after history).afresh := Alike.refl rfl
  obtain ⟨s₁, t, answer, hs, ht, halike⟩ :=
    hself.synchronize ⟨m.files, .scanning true⟩ m.now m'.now
  rw [hsync] at hs
  cases hs
  rw [indexAll_afresh hstores.indexers hclosed, hfiles]
  exact ⟨t, ht, halike.facts, halike.hashes⟩

/-- Once the manifest is no text the configuration cannot be indexed: a forced scan drops what was
known of it, as a scan with new stores does not come to know it. -/
theorem forced_scan_rebuilds_config :
    let manifest := "<manifest><meta><name>A</name></meta></manifest>".toUTF8.toList
    let before := configScanner.after [(⟨configProject manifest, ⟨0, 0⟩⟩, .indexAll false)]
    let report : ScanReport := { seen := 1, indexed := 1, failed := 1 }
    before.facts.systemConfig.allKeys = .ok ["A.n"] ∧
      ∃ s' t, before.indexAll ⟨configProject [0xff], ⟨1, 0⟩⟩ true = (s', .ok report) ∧
        before.afresh.indexAll ⟨configProject [0xff], ⟨2, 0⟩⟩ false = (t, .ok report) ∧
        t.facts = s'.facts ∧ s'.hashes.Agree t.hashes ∧
        s'.facts.systemConfig.allKeys = .ok [] := by
  intro manifest before report
  have hrun : before.indexAll ⟨configProject [0xff], ⟨1, 0⟩⟩ true =
      ((before.indexAll ⟨configProject [0xff], ⟨1, 0⟩⟩ true).1, .ok report) :=
    Prod.ext rfl (by decide +kernel)
  have hopen : open? (configProject []) (.ofString "/p") {} Facts.indexers .new Facts.empty =
      .ok configScanner := rfl
  have hfiles : (⟨configProject [0xff], ⟨2, 0⟩⟩ : Moment).files =
      (⟨configProject [0xff], ⟨1, 0⟩⟩ : Moment).files := rfl
  obtain ⟨t, ht, hfacts, hhashes⟩ := forced_scan_rebuilds hopen rfl
    [(⟨configProject manifest, ⟨0, 0⟩⟩, .indexAll false)] hfiles (.inl hrun) false
  exact ⟨by decide +kernel, _, t, hrun, ht, hfacts, hhashes, by decide +kernel⟩

end Scanner
end ProjectIndex
