import ProjectIndex.Proofs.Engine.Companions
import ProjectIndex.Proofs.Scan.Upkeep
import ProjectIndex.Settings.Basic

/-!
An index that is kept up by full scans against one that is rebuilt. A file is taken up again only when
its own content changes. So its rows are those of a rebuild as long as its indexers would find the
same beside it as they did then, and else they may fall behind.
-/
namespace ProjectIndex

namespace Facts

theorem eq_withRows {f : Facts} (h : f.withRows empty = empty) : f = empty.withRows f := by
  obtain ⟨⟨⟨_, _, _⟩, ⟨_, _, _⟩⟩, ⟨⟨_, _, _⟩, ⟨_, _, _⟩⟩, ⟨⟨_, _, _⟩, ⟨_, _, _⟩⟩,
    ⟨⟨_, _, _⟩, ⟨_, _, _⟩⟩, ⟨_, _, _⟩, ⟨_, _, _⟩, ⟨_, _, _⟩⟩ := f
  cases h
  rfl

theorem clear_withRows (env : Surroundings) (f : Facts) :
    Scanner.callUntilFailure (fun i => i.clear env) indexers (empty.withRows f) = (empty, none) :=
  rfl

end Facts

namespace Scanner

open FileTree

variable {s t : Scanner Facts} {place : List Name} {m : Moment} {ms : List Moment}

theorem OnStores.employs (h : s.OnStores) : s.Employs Facts.scribes := by
  refine ⟨h.indexers.trans Facts.map_indexer_scribes.symm, h.isOpen, ?_⟩
  rw [Facts.eq_withRows h.facts]
  exact Facts.isOpen_withRows s.facts

theorem OnStores.fresh_afresh (h : s.OnStores) (hrooted : s.Rooted place) :
    s.afresh.Fresh Facts.scribes := by
  have hstores : s.afresh.OnStores := ⟨rfl, h.indexers, rfl⟩
  exact ⟨hstores.employs, ⟨place, hrooted.root, hrooted.plain, hrooted.followLinks⟩, rfl,
    Facts.rows_empty⟩

theorem OnStores.indexAll_force (h : s.OnStores) (hclosed : s.closed = false) (m : Moment) :
    s.indexAll m true = s.afresh.indexAll m false := by
  have hclear : s.clearAll ⟨m.files, .scanning true⟩ = (s.afresh, .ok ()) := by
    have hcall : callUntilFailure (fun i => i.clear ⟨m.files, .scanning true⟩) Facts.indexers
        s.facts = (Facts.empty, none) := by
      rw [Facts.eq_withRows h.facts]
      exact Facts.clear_withRows _ _
    unfold Scanner.clearAll
    rw [h.indexers, hcall, HashTable.clear_eq h.isOpen, afresh, h.indexers]
  rw [indexAll_afresh h.indexers hclosed]
  unfold Scanner.indexAll
  simp only [hclosed, Bool.false_eq_true, if_false, if_true, hclear]

theorem staffed_scribes : Staffed Facts.scribes Facts.scribeOf := by
  refine ⟨Facts.scribeOf_sole, fun k => ?_⟩
  exact Parts.scribe_certain (Facts.partScribe_certain k.1)

theorem opened_engine {files : FileTree} {root : Path} {settings : Settings}
    (hopen : open? files root settings.scanOptions Facts.indexers .new Facts.empty = .ok s) :
    s.OnStores ∧ s.closed = false ∧ s.Fresh Facts.scribes := by
  obtain ⟨canonical, hcanonical, rfl⟩ := open?_eq_ok hopen
  obtain ⟨place, hplain, hroot⟩ := canonical?_eq_ok hcanonical
  have hstores : OnStores ⟨canonical, settings.scanOptions, Facts.indexers, .reopen .new,
      Facts.empty, false⟩ := ⟨rfl, rfl, rfl⟩
  exact ⟨hstores, rfl, hstores.employs, ⟨place, hroot, hplain, rfl⟩, rfl, Facts.rows_empty⟩

theorem Scans.rowsOf_forced {files : FileTree} {root : Path} {settings : Settings}
    (hopen : open? files root settings.scanOptions Facts.indexers .new Facts.empty = .ok s)
    (h : s.Scans ms t) (hnamed : m.files.root.isWellNamed = true) :
    ∃ u r, t.indexAll m true = (u, .ok r) ∧ ∀ k p,
      (∀ bytes, s.Meets m.files p bytes → (u.ledger Facts.parts.whole).rowsOf k p =
        (Facts.scribeOf k).sheet m.files p (Text.decodeLossy bytes) k []) ∧
      ((∀ bytes, ¬ s.Meets m.files p bytes) → (u.ledger Facts.parts.whole).rowsOf k p = []) := by
  obtain ⟨hstores, hclosed, hfresh⟩ := opened_engine hopen
  obtain ⟨place, hrooted⟩ := hfresh.rooted
  obtain ⟨hstores', hsame⟩ := h.eq_after ▸ hstores.after _
  have hafresh := hstores'.fresh_afresh (hrooted.sameProject hsame)
  have hopened : t.closed = false := hsame.closed.trans hclosed
  have hmeets : ∀ p bytes, t.afresh.Meets m.files p bytes ↔ s.Meets m.files p bytes := fun _ _ =>
    SameProject.meets ⟨hsame.root, hsame.options, hsame.indexers, hsame.closed⟩
  obtain ⟨u, r, hu⟩ := exists_indexAll (s := t.afresh) hafresh.employs.isOpen hopened m
  refine ⟨u, r, (hstores'.indexAll_force hopened m).trans hu, fun k p => ?_⟩
  obtain ⟨hmet, hnever⟩ := hafresh.rowsOf_indexAll staffed_scribes hnamed hu k p
  simp only [hmeets] at hmet hnever
  exact ⟨hmet, hnever⟩

/-- However a project is edited between full scans without failures, after the last one every file
has the rows that a forced scan gives it, in every store whose indexer finds the same beside the file
as it did when the file got its content. -/
theorem full_scans_match_rebuild {files : FileTree} {root : Path} {settings : Settings}
    (hopen : open? files root settings.scanOptions Facts.indexers .new Facts.empty = .ok s)
    (hscans : s.Scans (m :: ms) t)
    (hnamed : ∀ m' ∈ m :: ms, m'.files.root.isWellNamed = true)
    (hdigests : Registry.NoCollision ((m :: ms).map fun m => (m, .indexAll false)))
    (now : Timestamp) :
    ∃ u r, t.indexAll ⟨m.files, now⟩ true = (u, .ok r) ∧
      ∀ (p : Path) (k : Facts.parts.whole.Slot),
        (∀ bytes before, s.TakenUp p bytes (m :: ms) before →
          Facts.SeesSame p (Text.decodeLossy bytes) before m.files k.1) →
        Rows.ofFile p (Facts.parts.whole.store k t.facts).rows =
          Rows.ofFile p (Facts.parts.whole.store k u.facts).rows := by
  obtain ⟨_, _, hfresh⟩ := opened_engine hopen
  obtain ⟨place, hrooted⟩ := hfresh.rooted
  have hnow := hnamed m (List.mem_cons_self ..)
  obtain ⟨u, r, hu, hrows⟩ := hscans.rowsOf_forced (m := ⟨m.files, now⟩) hopen hnow
  refine ⟨u, r, hu, fun p k hbeside => ?_⟩
  obtain ⟨hmet, hnever⟩ := hrows k p
  change (t.ledger Facts.parts.whole).rowsOf k p = (u.ledger Facts.parts.whole).rowsOf k p
  by_cases h : ∃ bytes, s.Meets m.files p bytes
  · -- Both are sheets of one content, and what the scribe reads beside the file is the same.
    obtain ⟨bytes, h⟩ := h
    obtain ⟨before, htaken⟩ : ∃ before, s.TakenUp p bytes (m :: ms) before :=
      exists_takenUp (h.eligible hrooted hnow)
    rw [hmet bytes h, hscans.rowsOf_of_takenUp staffed_scribes Facts.scribes_clear hfresh hnamed
      hdigests hnow h htaken k]
    exact Facts.sheet_congr (hbeside bytes before htaken)
  · rw [hnever (not_exists.1 h), hscans.rowsOf_of_not_meets staffed_scribes Facts.scribes_clear
      hfresh hnamed (not_exists.1 h) k]

section

open Registry (manifestPath)

def configPath : Path := .ofString "/p/config.xml"

def configSource : List UInt8 :=
  "<c x='SystemConfig/Schema/config.xsd'><component><name>n</name></component></c>".toUTF8.toList

/-- An app with one configuration file beside its manifest. -/
def appProject (manifest : String) : FileTree :=
  { root := .dir [("p".toList, .dir [("config.xml".toList, .file configSource),
    ("manifest.xml".toList, .file manifest.toUTF8.toList)])] }

def configSlot : Facts.parts.whole.Slot := ⟨Facts.Part.systemConfig, ()⟩

variable {manifest : String} {names : List Name} {bytes : List UInt8} {p : Path}

theorem isWellNamed_appProject (manifest : String) :
    (appProject manifest).root.isWellNamed = true := by
  change Entry.isWellNamed (.dir _) = true
  rfl

theorem get?_appProject (h : (appProject manifest).root.get? names = some (.file bytes)) :
    (names = ["p".toList, "config.xml".toList] ∧ bytes = configSource) ∨
      (names = ["p".toList, "manifest.xml".toList] ∧ bytes = manifest.toUTF8.toList) := by
  have hwell := isWellNamed_appProject manifest
  rcases names with _ | ⟨n, names⟩
  · cases h
  · obtain ⟨_, d, hroot, hn, hd⟩ := Entry.get?_cons_eq_some h
    cases hroot
    have hmem := (Entry.lookup_eq_some hwell).1 hn
    rw [List.mem_singleton, Prod.mk.injEq] at hmem
    obtain ⟨rfl, rfl⟩ := hmem
    rcases names with _ | ⟨k, names⟩
    · cases hd
    · obtain ⟨_, e, hdir, hk, he⟩ := Entry.get?_cons_eq_some hd
      cases hdir
      have hwell' : Entry.areWellNamed [("config.xml".toList, .file configSource),
          ("manifest.xml".toList, .file manifest.toUTF8.toList)] = true := rfl
      have hmem' := (Entry.lookup_eq_some hwell').1 hk
      rw [List.mem_cons, List.mem_singleton, Prod.mk.injEq, Prod.mk.injEq] at hmem'
      rcases hmem' with ⟨rfl, rfl⟩ | ⟨rfl, rfl⟩
      · cases names <;> cases he
        exact .inl ⟨rfl, rfl⟩
      · cases names <;> cases he
        exact .inr ⟨rfl, rfl⟩

theorem content_of_find_appProject (h : (appProject manifest).find p = .ok (.file bytes)) :
    bytes = configSource ∨ bytes = manifest.toUTF8.toList := by
  unfold FileTree.find at h
  split at h
  · cases h
  · split at h
    · next hget =>
      cases h
      exact (get?_appProject hget).imp And.right And.right
    · cases h

theorem mem_walk_appProject :
    p ∈ configScanner.walk (appProject manifest) → p = configPath ∨ p = manifestPath := by
  have hrooted : configScanner.Rooted ["p".toList] := ⟨rfl, by decide +kernel, rfl⟩
  have hplace : (appProject manifest).resolve configScanner.root = .ok ["p".toList] := rfl
  intro hp
  obtain ⟨bytes, ⟨place, below, hstart, hget, rfl⟩, _⟩ :=
    (hrooted.mem_walk (isWellNamed_appProject manifest)).1 hp
  rw [hplace] at hstart
  cases hstart
  rcases get?_appProject hget with ⟨hbelow, _⟩ | ⟨hbelow, _⟩
  · rw [List.singleton_append, List.cons.injEq] at hbelow
    rw [hbelow.2]
    exact .inl rfl
  · rw [List.singleton_append, List.cons.injEq] at hbelow
    rw [hbelow.2]
    exact .inr rfl

theorem opened_appProject (manifest : String) :
    open? (appProject manifest) (.ofString "/p") ({} : Settings).scanOptions Facts.indexers .new
      Facts.empty = .ok configScanner := rfl

/-- A manifest with which both files of the app are indexed without a failure. -/
def Sound (manifest : String) : Prop :=
  Scribe.missCount Facts.scribes (appProject manifest) configPath (Text.decodeLossy configSource) = 0 ∧
    Scribe.missCount Facts.scribes (appProject manifest) manifestPath
      (Text.decodeLossy manifest.toUTF8.toList) = 0

theorem Scans.extend_appProject {ms : List Moment} {t : Scanner Facts} (h : configScanner.Scans ms t)
    (hnamed : ∀ m ∈ ms, m.files.root.isWellNamed = true) (hsound : Sound manifest)
    (now : Timestamp) : ∃ u, configScanner.Scans (⟨appProject manifest, now⟩ :: ms) u := by
  obtain ⟨_, _, hfresh⟩ := opened_engine (opened_appProject "")
  obtain ⟨place, hplace⟩ := hfresh.rooted
  obtain ⟨hkept, hsame, _⟩ := h.keptUp staffed_scribes Facts.scribes_clear hfresh hnamed
  have hrooted := hplace.sameProject hsame
  have hnow := isWellNamed_appProject manifest
  obtain ⟨u, r, hscan⟩ := exists_indexAll hkept.employs.isOpen hsame.closed
    ⟨appProject manifest, now⟩
  refine ⟨u, .cons h hscan ?_⟩
  obtain ⟨_, hfailed⟩ := hkept.fullScan (hrooted.nodup_walk hnow) hscan
  rw [hfailed]
  apply Ledger.failed_tally_of_missCount
  intro p hp bytes hfind
  rw [hsame.walk] at hp
  rcases mem_walk_appProject hp with rfl | rfl
  · have hconfig : (appProject manifest).find configPath = .ok (.file configSource) := rfl
    cases hconfig.symm.trans hfind
    exact hsound.1
  · have hmanifest : (appProject manifest).find manifestPath =
        .ok (.file manifest.toUTF8.toList) := rfl
    cases hmanifest.symm.trans hfind
    exact hsound.2

theorem eligible_appProject (manifest : String) :
    configScanner.Eligible (appProject manifest) configPath configSource :=
  ⟨⟨["p".toList], ["config.xml".toList], rfl, rfl, rfl⟩, by decide +kernel, by decide +kernel⟩

theorem meets_appProject (manifest : String) :
    configScanner.Meets (appProject manifest) configPath configSource := by
  have hrooted : configScanner.Rooted ["p".toList] := ⟨rfl, by decide +kernel, rfl⟩
  obtain ⟨hholds, hindexable, hsmall⟩ := eligible_appProject manifest
  refine ⟨?_, rfl, hsmall⟩
  exact (hrooted.mem_walk (isWellNamed_appProject manifest)).2 ⟨_, hholds, hindexable⟩

/-- The manifest of the app is edited between two scans, of which the last one stands first. -/
def manifestEdit (old new : String) : List Moment :=
  [⟨appProject new, ⟨1, 0⟩⟩, ⟨appProject old, ⟨0, 0⟩⟩]

variable {old new : String}

theorem isWellNamed_manifestEdit : ∀ m ∈ manifestEdit old new, m.files.root.isWellNamed = true :=
  List.forall_mem_cons.2 ⟨isWellNamed_appProject _,
    List.forall_mem_singleton.2 (isWellNamed_appProject _)⟩

def manifestWithLineEnd : String := manifestOf "A" ++ "\n"

theorem digests_appProject : [configSource, (manifestOf "A").toUTF8.toList,
      (manifestOf "B").toUTF8.toList, manifestWithLineEnd.toUTF8.toList].map Digest.sha256 =
    ["ea30f455bd4e9ba43ba7ef3081e52d67a5789af7016b5db41e36a82b446caf59",
      "42fd72d08d69494b875b67a4fdf9c5127d5b1dc7e435464fc10cfe3e2d22e4ba",
      "3e682526fd2bb2a5f0976ab5a40b2d910b307841a8460ba36b480f75c7d5804b",
      "1c67ece0522395e1b2faeee70e51a9a2eff57989e0bbfc866b30b5ba8784cc66"] := by
  decide +kernel

theorem nodup_digests : ([configSource, (manifestOf "A").toUTF8.toList,
    (manifestOf "B").toUTF8.toList, manifestWithLineEnd.toUTF8.toList].map Digest.sha256).Nodup := by
  rw [digests_appProject]
  decide

theorem noCollision_manifestEdit
    (h : ([configSource, old.toUTF8.toList, new.toUTF8.toList].map Digest.sha256).Nodup) :
    Registry.NoCollision ((manifestEdit old new).map fun m => (m, .indexAll false)) := by
  have hcontent : ∀ p bytes,
      Registry.contentsIn ((manifestEdit old new).map fun m => (m, .indexAll false)) p bytes →
        bytes ∈ [configSource, old.toUTF8.toList, new.toUTF8.toList] := by
    rintro p bytes ⟨c, hc, hfind⟩
    obtain ⟨m, hm, rfl⟩ := List.mem_map.1 hc
    rcases List.mem_cons.1 hm with rfl | hm
    · rcases content_of_find_appProject hfind with rfl | rfl <;> simp
    · rw [List.mem_singleton.1 hm] at hfind
      rcases content_of_find_appProject hfind with rfl | rfl <;> simp
  exact fun p bytes bytes' hbytes hbytes' =>
    List.inj_on_of_nodup_map h (hcontent p bytes hbytes) (hcontent p bytes' hbytes')

theorem takenUp_manifestEdit :
    configScanner.TakenUp configPath configSource (manifestEdit old new) (appProject old) :=
  .still (eligible_appProject _) (FileTree.isText_of_nil rfl _) (.first (eligible_appProject _) nofun)

theorem exists_scans_manifestEdit (hold : Sound old) (hnew : Sound new) :
    ∃ t, configScanner.Scans (manifestEdit old new) t := by
  obtain ⟨t, ht⟩ := Scans.nil.extend_appProject nofun hold ⟨0, 0⟩
  exact ht.extend_appProject (List.forall_mem_singleton.2 (isWellNamed_appProject _)) hnew ⟨1, 0⟩

theorem sound_manifestOf_A : Sound (manifestOf "A") := by
  unfold Sound
  decide +kernel

/-- An app gets another name. The full scan that finds its manifest changed leaves its configuration
under the old name, a forced scan moves it to the new one. -/
theorem full_scans_miss_namespace :
    let files := appProject (manifestOf "B")
    open? files (.ofString "/p") ({} : Settings).scanOptions Facts.indexers .new Facts.empty =
        .ok configScanner ∧
      ∃ t u r, configScanner.Scans (manifestEdit (manifestOf "A") (manifestOf "B")) t ∧
        t.indexAll ⟨files, ⟨2, 0⟩⟩ true = (u, .ok r) ∧
        (Rows.ofFile configPath t.facts.systemConfig.rows).map Row.key = ["A.n"] ∧
        (Rows.ofFile configPath u.facts.systemConfig.rows).map Row.key = ["B.n"] := by
  intro files
  have hopen := opened_appProject (manifestOf "B")
  have hsound : Sound (manifestOf "B") := by
    unfold Sound
    decide +kernel
  have hdigests : ([configSource, (manifestOf "A").toUTF8.toList,
      (manifestOf "B").toUTF8.toList].map Digest.sha256).Nodup :=
    nodup_digests.sublist (by simp)
  obtain ⟨_, _, hfresh⟩ := opened_engine hopen
  obtain ⟨t, ht⟩ := exists_scans_manifestEdit sound_manifestOf_A hsound
  obtain ⟨u, r, hu, hrows⟩ := ht.rowsOf_forced (m := ⟨files, ⟨2, 0⟩⟩) hopen
    (isWellNamed_appProject _)
  have hold := ht.rowsOf_of_takenUp staffed_scribes Facts.scribes_clear hfresh
    isWellNamed_manifestEdit (noCollision_manifestEdit hdigests)
    (isWellNamed_appProject "") (meets_appProject "") takenUp_manifestEdit configSlot
  have hnew := (hrows configSlot configPath).1 configSource (meets_appProject _)
  refine ⟨hopen, t, u, r, ht, hu, ?_, ?_⟩
  · exact (congrArg (List.map Row.key) hold).trans (by decide +kernel)
  · exact (congrArg (List.map Row.key) hnew).trans (by decide +kernel)

/-- A manifest is edited, but the app keeps its name. -/
theorem full_scans_match_rebuild_app :
    let scans := manifestEdit (manifestOf "A") manifestWithLineEnd
    configScanner.TakenUp configPath configSource scans (appProject (manifestOf "A")) ∧
      ∃ t u r, configScanner.Scans scans t ∧
        t.indexAll ⟨appProject manifestWithLineEnd, ⟨2, 0⟩⟩ true = (u, .ok r) ∧
        Rows.ofFile configPath t.facts.systemConfig.rows =
          Rows.ofFile configPath u.facts.systemConfig.rows := by
  intro scans
  have hsound : Sound manifestWithLineEnd := by
    unfold Sound
    decide +kernel
  have hnamespace : ∀ m ∈ scans, SystemConfig.namespaceFor m.files configPath =
      SystemConfig.namespaceFor (appProject manifestWithLineEnd) configPath := by
    decide +kernel
  have hdigests : ([configSource, (manifestOf "A").toUTF8.toList,
      manifestWithLineEnd.toUTF8.toList].map Digest.sha256).Nodup :=
    nodup_digests.sublist (by simp)
  obtain ⟨t, ht⟩ := exists_scans_manifestEdit sound_manifestOf_A hsound
  obtain ⟨u, r, hu, hrows⟩ := full_scans_match_rebuild (opened_appProject manifestWithLineEnd) ht
    isWellNamed_manifestEdit (noCollision_manifestEdit hdigests) ⟨2, 0⟩
  refine ⟨takenUp_manifestEdit, t, u, r, ht, hu,
    hrows configPath configSlot fun bytes before h _ _ => ?_⟩
  obtain ⟨m, hm, rfl⟩ := h.mem
  exact hnamespace m hm

end

end Scanner
end ProjectIndex
