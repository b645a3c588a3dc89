import ProjectIndex.Proofs.Store.History

/-!
Where the rows stand after a save. A save that keeps the order of a file leaves every row that
survives where it is, with the last record of its key, and puts the new rows behind all others; any
other save moves the whole file behind the rest. So a file that is saved once more with what it owns
stays in place, and so does every file of a batch in which no file comes twice.
-/
namespace ProjectIndex

namespace Rows

variable {α : Type} {rows : List (Row α)} {file : Path} {facts : FileFacts α}

def refresh (file : Path) (facts : FileFacts α) (r : Row α) : Row α :=
  if r.file == file then { r with value := (lastValue? facts r.key).getD r.value } else r

theorem refresh_isAt (file : Path) (facts : FileFacts α) (r : Row α) (g : Path) (key : String) :
    (refresh file facts r).isAt g key = r.isAt g key := by
  unfold refresh Row.isAt
  split <;> rfl

theorem refresh_append (file : Path) (facts : FileFacts α) (fact : String × α) (r : Row α) :
    refresh file (facts ++ [fact]) r =
      if r.isAt file fact.1 then { r with value := fact.2 } else refresh file facts r := by
  unfold refresh
  rw [lastValue?_append]
  by_cases hfile : r.file = file
  · by_cases hkey : r.key = fact.1 <;> simp [Row.isAt, hfile, hkey]
  · simp [Row.isAt, hfile]

theorem write_refresh (file : Path) (facts : FileFacts α) (fact : String × α) (r : Row α) :
    (if (refresh file facts r).isAt file fact.1 then { refresh file facts r with value := fact.2 }
      else refresh file facts r) = refresh file (facts ++ [fact]) r := by
  rw [refresh_append, refresh_isAt]
  split
  · next hat =>
    have hfile : r.file = file := by
      simp only [Row.isAt, Bool.and_eq_true, beq_iff_eq] at hat
      exact hat.1
    simp [refresh, hfile]
  · rfl

theorem exists_foldl_upsert_eq (rows : List (Row α)) (file : Path) (facts : FileFacts α) :
    ∃ new, facts.foldl (upsert file) rows = rows.map (refresh file facts) ++ new ∧
      ∀ r ∈ new, r.file = file := by
  -- A fact finds a row, old or new, and changes its record, or it adds a row at the end.
  induction facts using List.reverseRecOn with
  | nil =>
    have hid : refresh file ([] : FileFacts α) = id := by
      funext r
      simp [refresh, lastValue?]
    exact ⟨[], by simp [hid], by simp⟩
  | append_singleton facts fact ih =>
    obtain ⟨new, hfold, hnew⟩ := ih
    rw [List.foldl_append, hfold, List.foldl_cons, List.foldl_nil, upsert]
    split
    · refine ⟨new.map fun r => if r.isAt file fact.1 then { r with value := fact.2 } else r, ?_, ?_⟩
      · rw [List.map_append, List.map_map]
        congr 1
        exact List.map_congr_left fun r _ => write_refresh file facts fact r
      · intro r hr
        obtain ⟨q, hq, rfl⟩ := List.mem_map.1 hr
        split <;> exact hnew q hq
    · next hnone =>
      refine ⟨new ++ [⟨file, fact.1, fact.2⟩], ?_, ?_⟩
      · rw [List.append_assoc]
        congr 1
        apply List.map_congr_left
        intro r hr
        have hat : r.isAt file fact.1 = false := by
          rw [← refresh_isAt file facts]
          by_contra htrue
          apply hnone
          rw [List.any_append, List.any_map, Bool.or_eq_true]
          exact .inl (List.any_eq_true.2 ⟨r, hr, by simpa using htrue⟩)
        simp [refresh_append, hat]
      · intro r hr
        rcases List.mem_append.1 hr with hr | hr
        · exact hnew r hr
        · rw [List.mem_singleton.1 hr]

theorem keysOf_map_refresh (rows : List (Row α)) (file : Path) (facts : FileFacts α) :
    keysOf file (rows.map (refresh file facts)) = keysOf file rows := by
  have hfile : ∀ r : Row α, (refresh file facts r).file = r.file := by
    intro r
    unfold refresh
    split <;> rfl
  unfold keysOf ofFile
  rw [filter_map_value (· == file) _ hfile, List.map_map]
  apply List.map_congr_left
  intro r _
  rw [Function.comp_apply, refresh]
  split <;> rfl

/-- Rows that stand stay where they are, and a key without a row gets one behind all others, in the
order of the first occurrences. -/
theorem foldl_upsert_eq (rows : List (Row α)) (file : Path) (facts : FileFacts α) :
    facts.foldl (upsert file) rows = rows.map (refresh file facts) ++
      (ofFacts file facts).filter fun r => r.key ∉ keysOf file rows := by
  obtain ⟨new, hfold, hnew⟩ := exists_foldl_upsert_eq rows file facts
  -- The new rows are told by their keys: each key has one, with its last record.
  have hkeys : new.map Row.key = (distinctKeys facts).filter (· ∉ keysOf file rows) := by
    have hall := keysOf_foldl_upsert file facts rows
    have hown : ofFile file new = new := List.filter_eq_self.2 fun r hr => by simp [hnew r hr]
    have hsplit : keysOf file (rows.map (refresh file facts) ++ new) =
        keysOf file rows ++ new.map Row.key := by
      rw [← keysOf_map_refresh rows file facts, ← congrArg (List.map Row.key) hown, keysOf, ofFile,
        List.filter_append, List.map_append]
      rfl
    rw [hfold, hsplit, eraseDups_filter] at hall
    exact List.append_cancel_left hall
  have hrow : ∀ r ∈ new, (lastValue? facts r.key).map (Row.mk file r.key) = some r := by
    intro r hr
    have hkey : r.key ∈ facts.map Prod.fst := by
      have hmem : r.key ∈ new.map Row.key := List.mem_map_of_mem hr
      rw [hkeys] at hmem
      exact List.mem_eraseDups.1 (List.mem_filter.1 hmem).1
    have hmem : r ∈ facts.foldl (upsert file) rows := by
      rw [hfold]
      exact List.mem_append_right _ hr
    rw [value_of_mem_foldl_upsert hmem (hnew r hr) hkey, Option.map_some, ← hnew r hr]
  rw [hfold]
  congr 1
  calc new
      = new.filterMap some := List.filterMap_some.symm
    _ = new.filterMap fun r => (lastValue? facts r.key).map (Row.mk file r.key) :=
        List.filterMap_congr fun r hr => (hrow r hr).symm
    _ = ((distinctKeys facts).filter (· ∉ keysOf file rows)).filterMap fun k =>
          (lastValue? facts k).map (Row.mk file k) := by
        rw [← hkeys, List.filterMap_map]
        rfl
    _ = (ofFacts file facts).filter fun r => r.key ∉ keysOf file rows := by
        rw [ofFacts, List.filter_filterMap, List.filterMap_filter]
        apply List.filterMap_congr
        intro k _
        cases lastValue? facts k <;> simp [Option.filter]

theorem key_mem_of_mem_ofFacts {r : Row α} (hr : r ∈ ofFacts file facts) :
    r.key ∈ distinctKeys facts := by
  rw [← map_key_ofFacts file]
  exact List.mem_map_of_mem hr

theorem keepsOrder_iff (rows : List (Row α)) (file : Path) (facts : FileFacts α) :
    keepsOrder file rows (distinctKeys facts) = true ↔
      (keysOf file rows).filter (· ∈ distinctKeys facts) <+: distinctKeys facts := by
  have hkept : (keysOf file rows).filter (distinctKeys facts).contains =
      (keysOf file rows).filter (· ∈ distinctKeys facts) := by
    apply List.filter_congr
    intro k _
    exact List.contains_eq_mem k _
  rw [keepsOrder, List.isPrefixOf_iff_prefix, ← hkept]
  rfl

/-- A save that keeps the order of the file leaves every row that survives in its place. -/
theorem saveFile_in_place
    (h : (keysOf file rows).filter (· ∈ distinctKeys facts) <+: distinctKeys facts) :
    saveFile rows file facts =
      (rows.filter fun r => r.file ≠ file ∨ r.key ∈ distinctKeys facts).map (refresh file facts) ++
        (ofFacts file facts).filter fun r => r.key ∉ keysOf file rows := by
  have hstay : surviving file rows (distinctKeys facts) =
      rows.filter fun r => r.file ≠ file ∨ r.key ∈ distinctKeys facts := by
    rw [surviving, if_pos ((keepsOrder_iff rows file facts).2 h)]
    apply List.filter_congr
    intro r _
    by_cases hfile : r.file = file <;> simp [hfile]
  rw [saveFile, foldl_upsert_eq, hstay]
  congr 1
  apply List.filter_congr
  intro r hr
  -- A new key has a row among those that stay just when it had one before.
  have hkey := key_mem_of_mem_ofFacts hr
  have hiff : r.key ∈ keysOf file
      (rows.filter fun r => r.file ≠ file ∨ r.key ∈ distinctKeys facts) ↔
        r.key ∈ keysOf file rows := by
    simp only [keysOf, ofFile, List.mem_map, List.mem_filter]
    constructor
    · rintro ⟨q, ⟨⟨hq, -⟩, hfile⟩, hqkey⟩
      exact ⟨q, ⟨hq, hfile⟩, hqkey⟩
    · rintro ⟨q, ⟨hq, hfile⟩, hqkey⟩
      exact ⟨q, ⟨⟨hq, by simp [hqkey, hkey]⟩, hfile⟩, hqkey⟩
  simp only [hiff]

/-- Any other save moves the whole file behind the rows of the other files. -/
theorem saveFile_behind_rest
    (h : ¬ (keysOf file rows).filter (· ∈ distinctKeys facts) <+: distinctKeys facts) :
    saveFile rows file facts = (rows.filter fun r => r.file ≠ file) ++ ofFacts file facts := by
  have hleave : surviving file rows (distinctKeys facts) = rows.filter fun r => r.file ≠ file := by
    rw [surviving, if_neg (mt (keepsOrder_iff rows file facts).1 h)]
    apply List.filter_congr
    intro r _
    by_cases hfile : r.file = file <;> simp [hfile]
  have hothers : ∀ r ∈ rows.filter (fun r => decide (r.file ≠ file)), r.file ≠ file := by
    intro r hr
    simpa using (List.mem_filter.1 hr).2
  have hnone : keysOf file (rows.filter fun r => decide (r.file ≠ file)) = [] := by
    rw [keysOf, ofFile, List.map_eq_nil_iff, List.filter_eq_nil_iff]
    intro r hr
    simp [hothers r hr]
  have hsame : (rows.filter fun r => decide (r.file ≠ file)).map (refresh file facts) =
      rows.filter fun r => decide (r.file ≠ file) := by
    refine (List.map_congr_left fun r hr => ?_).trans (List.map_id _)
    simp [refresh, hothers r hr]
  have hall : ((ofFacts file facts).filter fun r => r.key ∉ ([] : List String)) =
      ofFacts file facts := by
    simp
  rw [saveFile, foldl_upsert_eq, hleave, hsame, hnone, hall]

theorem saveFile_of_held (h : ofFile file rows = ofFacts file facts) :
    saveFile rows file facts = rows := by
  have hkeys : keysOf file rows = distinctKeys facts := by rw [keysOf, h, map_key_ofFacts]
  have hmember : ∀ r ∈ rows, r.file = file → lastValue? facts r.key = some r.value := by
    intro r hr hfile
    have hrow : ⟨file, r.key, r.value⟩ ∈ ofFacts file facts := by
      rw [← h, ofFile, List.mem_filter]
      exact ⟨hfile ▸ hr, by simp⟩
    exact mem_ofFacts.1 hrow
  -- The file keeps all its keys in their order, so this is a save in place.
  have horder : (keysOf file rows).filter (· ∈ distinctKeys facts) <+: distinctKeys facts := by
    have hkept : (keysOf file rows).filter (· ∈ distinctKeys facts) = distinctKeys facts := by
      rw [hkeys]
      exact List.filter_eq_self.2 fun k hk => by simpa using hk
    exact ⟨[], by rw [hkept, List.append_nil]⟩
  have hstay : (rows.filter fun r => r.file ≠ file ∨ r.key ∈ distinctKeys facts) = rows := by
    rw [List.filter_eq_self]
    intro r hr
    by_cases hfile : r.file = file
    · have hkey : r.key ∈ keysOf file rows :=
        List.mem_map_of_mem (List.mem_filter.2 ⟨hr, by simp [hfile]⟩)
      simp [← hkeys, hkey]
    · simp [hfile]
  have hsame : ∀ r ∈ rows, refresh file facts r = r := by
    intro r hr
    unfold refresh
    split
    · next hfile => rw [hmember r hr (by simpa using hfile), Option.getD_some]
    · rfl
  have hnone : ((ofFacts file facts).filter fun r => r.key ∉ keysOf file rows) = [] := by
    rw [List.filter_eq_nil_iff]
    intro r hr
    simp [hkeys, key_mem_of_mem_ofFacts hr]
  rw [saveFile_in_place horder, hstay, hnone, List.append_nil]
  exact (List.map_congr_left hsame).trans (List.map_id rows)

theorem ofFile_of_mem_batch {batch : List (Path × FileFacts α)} (hbatch : (batch.map Prod.fst).Nodup)
    {f : Path × FileFacts α} (hf : f ∈ batch) (rows : List (Row α)) :
    ofFile f.1 (batch.foldl (fun rows f => saveFile rows f.1 f.2) rows) = ofFacts f.1 f.2 := by
  induction batch using List.reverseRecOn with
  | nil => exact absurd hf (by simp)
  | append_singleton batch last ih =>
    rw [List.map_append, List.map_singleton, List.nodup_append] at hbatch
    obtain ⟨hnodup, -, happart⟩ := hbatch
    rw [List.foldl_append, List.foldl_cons, List.foldl_nil]
    rcases List.mem_append.1 hf with hf | hf
    · have hne : f.1 ≠ last.1 := happart f.1 (List.mem_map_of_mem hf) last.1 (by simp)
      rw [ofFile_saveFile_of_ne hne, ih hnodup hf]
    · rw [List.mem_singleton.1 hf, ofFile_saveFile]

theorem foldl_saveFile_of_held {batch : List (Path × FileFacts α)}
    (h : ∀ f ∈ batch, ofFile f.1 rows = ofFacts f.1 f.2) :
    batch.foldl (fun rows f => saveFile rows f.1 f.2) rows = rows := by
  induction batch with
  | nil => rfl
  | cons f batch ih =>
    rw [List.foldl_cons, saveFile_of_held (h f (by simp))]
    exact ih fun g hg => h g (List.mem_cons_of_mem f hg)

end Rows

namespace FactStore

variable {α : Type}

/-- Whatever has happened to a store and wherever a file stands in a batch: a save after which the
keys that the file keeps come, in the order of their rows, first among its new keys leaves every row
that survives in its place, those of the file with their new records, and puts the other new keys
behind all rows; any other save moves the file behind the rest, in the order of its facts. And a
batch in which no file comes twice can be saved a second time without a change. -/
theorem save_keeps_places (name : String) (steps : List (StoreStep α)) :
    ∃ s : FactStore α, (new name).run steps = .ok s ∧
      (∀ (before : List (Path × FileFacts α)) (file : Path) (facts : FileFacts α),
        ∃ (s₀ s₁ : FactStore α) (owned : List String),
          s.save before = .ok s₀ ∧ s₀.keysOfFile file = .ok owned ∧
          s.save (before ++ [(file, facts)]) = .ok s₁ ∧
          (owned.filter (· ∈ Rows.distinctKeys facts) <+: Rows.distinctKeys facts →
            s₁.rows = (s₀.rows.filter fun r => r.file ≠ file ∨ r.key ∈ Rows.distinctKeys facts).map
                (Rows.refresh file facts) ++
              (Rows.ofFacts file facts).filter fun r => r.key ∉ owned) ∧
          (¬ owned.filter (· ∈ Rows.distinctKeys facts) <+: Rows.distinctKeys facts →
            s₁.rows = (s₀.rows.filter fun r => r.file ≠ file) ++ Rows.ofFacts file facts)) ∧
      ∀ batch : List (Path × FileFacts α), (batch.map Prod.fst).Nodup →
        ∃ s₁ : FactStore α, s.save batch = .ok s₁ ∧ s₁.save batch = .ok s₁ := by
  obtain ⟨s, hrun, h⟩ := (holds_new name).run steps
  refine ⟨s, hrun, ?_, ?_⟩
  · intro before file facts
    have hopen : s.closed = false := h.isOpen
    refine ⟨_, _, _, save_eq hopen before, by rw [keysOfFile, whenOpen, if_neg (by simp [hopen])],
      save_eq hopen _, ?_, ?_⟩
    · intro hprefix
      rw [List.foldl_append, List.foldl_cons, List.foldl_nil]
      exact Rows.saveFile_in_place hprefix
    · intro hprefix
      rw [List.foldl_append, List.foldl_cons, List.foldl_nil]
      exact Rows.saveFile_behind_rest hprefix
  · intro batch hbatch
    obtain ⟨s₁, hsave, h₁⟩ := h.step (.save batch)
    -- Each file owns what the batch says by now, so saving the batch again moves nothing.
    have hheld : ∀ f ∈ batch, Rows.ofFile f.1 s₁.rows = Rows.ofFacts f.1 f.2 := by
      intro f hf
      rw [FactStore.step, save_eq h.isOpen] at hsave
      cases hsave
      exact Rows.ofFile_of_mem_batch hbatch hf s.rows
    refine ⟨s₁, hsave, ?_⟩
    rw [save_eq h₁.isOpen, Rows.foldl_saveFile_of_held hheld]

/-- Of two files the first turns its keys around and moves behind the second, which keeps its own. -/
theorem save_keeps_places_reordered :
    let a := Path.ofString "a"
    let b := Path.ofString "b"
    ∃ s s₁ s₂ : FactStore Nat,
      (new "facts").run [.save [(a, [("x", 1), ("y", 2)]), (b, [("z", 3)])]] = .ok s ∧
      s.save [(a, [("y", 5), ("x", 6)])] = .ok s₁ ∧
      s₁.rows = [⟨b, "z", 3⟩, ⟨a, "y", 5⟩, ⟨a, "x", 6⟩] ∧
      s.save [(a, [("y", 5), ("x", 6)]), (b, [("z", 7), ("w", 8), ("z", 4)])] = .ok s₂ ∧
      s₂.rows = [⟨b, "z", 4⟩, ⟨a, "y", 5⟩, ⟨a, "x", 6⟩, ⟨b, "w", 8⟩] ∧
      s₂.save [(a, [("y", 5), ("x", 6)]), (b, [("z", 7), ("w", 8), ("z", 4)])] = .ok s₂ := by
  intro a b
  obtain ⟨s, hrun, hplaces, htwice⟩ := save_keeps_places (α := Nat) "facts"
    [.save [(a, [("x", 1), ("y", 2)]), (b, [("z", 3)])]]
  have hfilled : (new "facts" : FactStore Nat).run
      [.save [(a, [("x", 1), ("y", 2)]), (b, [("z", 3)])]] =
        .ok ⟨"facts", [⟨a, "x", 1⟩, ⟨a, "y", 2⟩, ⟨b, "z", 3⟩], false⟩ := by rfl
  cases hfilled.symm.trans hrun
  obtain ⟨_, s₁, _, hnone, howned, hfirst, -, hmoved⟩ := hplaces [] a [("y", 5), ("x", 6)]
  cases hnone
  cases howned
  have hrows := hmoved (by decide)
  cases hfirst
  obtain ⟨_, s₂, _, hsecond, howned, hboth, hkept, -⟩ :=
    hplaces [(a, [("y", 5), ("x", 6)])] b [("z", 7), ("w", 8), ("z", 4)]
  cases hsecond
  cases howned
  obtain ⟨s₃, hsaved, hagain⟩ :=
    htwice [(a, [("y", 5), ("x", 6)]), (b, [("z", 7), ("w", 8), ("z", 4)])] (by decide)
  cases hboth.symm.trans hsaved
  exact ⟨_, _, s₂, hrun, rfl, hrows, hboth, hkept (by decide), hagain⟩

end FactStore
end ProjectIndex
