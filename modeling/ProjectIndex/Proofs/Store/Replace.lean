import Mathlib.Data.List.Induction
import Mathlib.Data.List.Nodup
import Mathlib.Data.List.Perm.Basic
import ProjectIndex.Store.Facts

/-!
Saving a file replaces what it owned. Whatever stood in the store, the file then owns the distinct
keys of its new facts, in the order of their first occurrences and with their last records, and no
other file is touched. So after any steps a store holds, file by file, the facts saved last.
-/
namespace ProjectIndex

section DistinctKeys

variable {β : Type} [DecidableEq β]

theorem eraseDups_induction {motive : List β → Prop} (nil : motive [])
    (cons : ∀ a l, motive (l.filter fun b => !b == a) → motive (a :: l)) (l : List β) :
    motive l := by
  induction hn : l.length using Nat.strongRecOn generalizing l with
  | _ n ih =>
    cases l with
    | nil => exact nil
    | cons a l =>
      apply cons
      have hle := List.length_filter_le (fun b => !b == a) l
      rw [List.length_cons] at hn
      exact ih _ (by omega) _ rfl

theorem nodup_eraseDups (l : List β) : l.eraseDups.Nodup := by
  induction l using eraseDups_induction with
  | nil => simp
  | cons a l ih =>
    rw [List.eraseDups_cons, List.nodup_cons]
    exact ⟨by simp [List.mem_eraseDups], ih⟩

theorem eraseDups_filter (p : β → Bool) (l : List β) :
    (l.filter p).eraseDups = l.eraseDups.filter p := by
  induction l using eraseDups_induction with
  | nil => rfl
  | cons a l ih =>
    rw [List.eraseDups_cons, List.filter_cons, List.filter_cons]
    by_cases ha : p a
    · rw [if_pos ha, if_pos ha, List.eraseDups_cons, ← ih, List.filter_filter, List.filter_filter]
      simp only [Bool.and_comm]
    · rw [if_neg ha, if_neg ha, ← ih, List.filter_filter]
      congr 1
      apply List.filter_congr
      intro b _
      by_cases hb : b = a
      · simp [hb, ha]
      · simp [hb]

theorem idxOf_filter_lt (p : β → Bool) {a b : β} (ha : p a) (hb : p b) (l : List β) :
    (l.filter p).idxOf a < (l.filter p).idxOf b ↔ l.idxOf a < l.idxOf b := by
  induction l with
  | nil => simp
  | cons c l ih =>
    by_cases hc : p c
    · rw [List.filter_cons_of_pos hc]
      rcases eq_or_ne c a with rfl | hca
      · rcases eq_or_ne c b with rfl | hcb
        · simp
        · simp [List.idxOf_cons_ne _ hcb]
      · rcases eq_or_ne c b with rfl | hcb
        · simp
        · simp [List.idxOf_cons_ne _ hca, List.idxOf_cons_ne _ hcb, ih]
    · rw [List.filter_cons_of_neg hc, ih]
      have hca : c ≠ a := fun h => hc (h ▸ ha)
      have hcb : c ≠ b := fun h => hc (h ▸ hb)
      simp [List.idxOf_cons_ne _ hca, List.idxOf_cons_ne _ hcb]

theorem pairwise_idxOf_eraseDups (l : List β) :
    l.eraseDups.Pairwise fun a b => l.idxOf a < l.idxOf b := by
  induction l using eraseDups_induction with
  | nil => simp
  | cons c l ih =>
    have hpass : ∀ a ∈ (l.filter fun b => !b == c).eraseDups, (!a == c) = true := fun a ha =>
      (List.mem_filter.1 (List.mem_eraseDups.1 ha)).2
    have hne : ∀ a ∈ (l.filter fun b => !b == c).eraseDups, c ≠ a := by
      rintro a ha rfl
      simpa using hpass c ha
    rw [List.eraseDups_cons, List.pairwise_cons]
    constructor
    · intro a ha
      simp [List.idxOf_cons_ne _ (hne a ha)]
    · refine (List.Pairwise.and_mem.1 ih).imp ?_
      rintro a b ⟨ha, hb, hab⟩
      have hlt := (idxOf_filter_lt (fun b => !b == c) (hpass a ha) (hpass b hb) l).1 hab
      simp [List.idxOf_cons_ne _ (hne a ha), List.idxOf_cons_ne _ (hne b hb), hlt]

theorem eraseDups_of_prefix {kept l : List β} (h : kept <+: l.eraseDups) :
    kept ++ (l.filter fun b => b ∉ kept).eraseDups = l.eraseDups := by
  obtain ⟨rest, hrest⟩ := h
  have hnodup : (kept ++ rest).Nodup := hrest ▸ nodup_eraseDups l
  have hkept : kept.filter (fun b => decide (b ∉ kept)) = [] := by
    simp [List.filter_eq_nil_iff]
  have hrestAll : rest.filter (fun b => decide (b ∉ kept)) = rest := by
    rw [List.filter_eq_self]
    intro b hb
    exact decide_eq_true fun hk => (List.disjoint_of_nodup_append hnodup) hk hb
  rw [eraseDups_filter, ← hrest, List.filter_append, hkept, hrestAll, List.nil_append]

end DistinctKeys

namespace Rows

variable {α : Type}

/-- The last record that facts give for a key. -/
def lastValue? (facts : FileFacts α) (key : String) : Option α := facts.reverse.lookup key

/-- What a file owns when its facts are these: each key once, where it first occurs, with its last
record. -/
def ofFacts (file : Path) (facts : FileFacts α) : List (Row α) :=
  (distinctKeys facts).filterMap fun k => (lastValue? facts k).map (Row.mk file k)

def keysOf (file : Path) (rows : List (Row α)) : List String := (ofFile file rows).map Row.key

theorem lastValue?_append (facts : FileFacts α) (fact : String × α) (key : String) :
    lastValue? (facts ++ [fact]) key =
      if key = fact.1 then some fact.2 else lastValue? facts key := by
  unfold lastValue?
  rw [List.reverse_append, List.reverse_singleton, List.singleton_append, List.lookup_cons]
  by_cases hk : key = fact.1
  · simp [hk]
  · simp [hk, beq_false_of_ne hk]

theorem lastValue?_append_of_notMem {xs ys : FileFacts α} {key : String}
    (h : key ∉ ys.map Prod.fst) : lastValue? (xs ++ ys) key = lastValue? xs key := by
  induction ys using List.reverseRecOn with
  | nil => rw [List.append_nil]
  | append_singleton ys fact ih =>
    rw [List.map_append, List.mem_append, not_or] at h
    obtain ⟨hys, hfact⟩ := h
    have hne : key ≠ fact.1 := fun heq => hfact (by simp [heq])
    rw [← List.append_assoc, lastValue?_append, if_neg hne, ih hys]

theorem mem_of_lastValue? {facts : FileFacts α} {key : String} {value : α}
    (h : lastValue? facts key = some value) : (key, value) ∈ facts := by
  obtain ⟨_, _, hsplit, _⟩ := List.lookup_eq_some_iff.1 h
  rw [← List.mem_reverse, hsplit]
  simp

theorem key_mem_of_lastValue? {facts : FileFacts α} {key : String} {value : α}
    (h : lastValue? facts key = some value) : key ∈ facts.map Prod.fst :=
  List.mem_map_of_mem (mem_of_lastValue? h)

theorem mem_keysOf {file : Path} {rows : List (Row α)} {key : String} :
    key ∈ keysOf file rows ↔ rows.any (fun r => r.isAt file key) = true := by
  simp only [keysOf, ofFile, Row.isAt, List.mem_map, List.mem_filter, List.any_eq_true,
    Bool.and_eq_true, beq_iff_eq]
  constructor
  · rintro ⟨r, ⟨hr, hf⟩, hk⟩
    exact ⟨r, hr, hf, hk⟩
  · rintro ⟨r, hr, hf, hk⟩
    exact ⟨r, ⟨hr, hf⟩, hk⟩

theorem filter_map_value (p : Path → Bool) (f : Row α → Row α) (hf : ∀ r, (f r).file = r.file)
    (rows : List (Row α)) :
    (rows.map f).filter (fun r => p r.file) = (rows.filter fun r => p r.file).map f := by
  rw [List.filter_map]
  congr 1
  apply List.filter_congr
  intro r _
  simp [Function.comp, hf]

theorem keysOf_upsert (file : Path) (rows : List (Row α)) (fact : String × α) :
    keysOf file (upsert file rows fact) =
      if fact.1 ∈ keysOf file rows then keysOf file rows else keysOf file rows ++ [fact.1] := by
  unfold upsert
  by_cases h : fact.1 ∈ keysOf file rows
  · rw [if_pos h, if_pos (mem_keysOf.1 h)]
    unfold keysOf ofFile
    rw [filter_map_value (· == file) _ (fun r => by split <;> rfl), List.map_map]
    apply List.map_congr_left
    intro r _
    simp only [Function.comp]
    split <;> rfl
  · rw [if_neg h, if_neg (fun ha => h (mem_keysOf.2 ha))]
    simp [keysOf, ofFile]

theorem keysOf_foldl_upsert (file : Path) (facts : FileFacts α) (rows : List (Row α)) :
    keysOf file (facts.foldl (upsert file) rows) =
      keysOf file rows ++ ((facts.map Prod.fst).filter (· ∉ keysOf file rows)).eraseDups := by
  induction facts generalizing rows with
  | nil => simp
  | cons fact facts ih =>
    rw [List.foldl_cons, ih, keysOf_upsert, List.map_cons]
    by_cases h : fact.1 ∈ keysOf file rows
    · simp [h]
    · rw [if_neg h, List.filter_cons_of_pos (by simpa using h), List.eraseDups_cons,
        List.filter_filter, List.append_assoc, List.singleton_append]
      congr 3
      apply List.filter_congr
      intro k _
      by_cases hk : k = fact.1 <;> simp [hk]

theorem keysOf_surviving (file : Path) (rows : List (Row α)) (keys : List String) :
    keysOf file (surviving file rows keys) <+: keys := by
  unfold surviving
  split
  · next h =>
    have hkept : keysOf file (rows.filter fun r => r.file != file || keys.contains r.key) =
        ((ofFile file rows).map Row.key).filter keys.contains := by
      unfold keysOf ofFile
      rw [List.filter_filter, List.filter_map, List.filter_filter]
      congr 1
      apply List.filter_congr
      intro r _
      by_cases hr : r.file = file
      · simp [hr]
      · simp [beq_false_of_ne hr]
    rw [hkept]
    exact List.isPrefixOf_iff_prefix.1 h
  · have hnone : keysOf file (rows.filter fun r => r.file != file) = [] := by
      unfold keysOf ofFile
      rw [List.filter_filter]
      simp [List.filter_eq_nil_iff]
    rw [hnone]
    exact List.nil_prefix

/-- Both ways of saving leave the same keys: those in place are a beginning of the new ones. -/
theorem keysOf_saveFile (rows : List (Row α)) (file : Path) (facts : FileFacts α) :
    keysOf file (saveFile rows file facts) = distinctKeys facts := by
  unfold saveFile
  rw [keysOf_foldl_upsert]
  exact eraseDups_of_prefix (keysOf_surviving file rows (distinctKeys facts))

theorem value_of_mem_upsert {file : Path} {rows : List (Row α)} {fact : String × α} {r : Row α}
    (hr : r ∈ upsert file rows fact) (hat : r.isAt file fact.1 = true) : r.value = fact.2 := by
  unfold upsert at hr
  split at hr
  · obtain ⟨q, _, rfl⟩ := List.mem_map.1 hr
    split
    · rfl
    · next hother =>
      rw [if_neg hother] at hat
      exact absurd hat hother
  · next hnone =>
    rcases List.mem_append.1 hr with hold | hnew
    · exact absurd (List.any_eq_true.2 ⟨r, hold, hat⟩) hnone
    · rw [List.mem_singleton.1 hnew]

theorem mem_of_mem_upsert {file : Path} {rows : List (Row α)} {fact : String × α} {r : Row α}
    (hr : r ∈ upsert file rows fact) (hkey : r.key ≠ fact.1) : r ∈ rows := by
  unfold upsert at hr
  split at hr
  · obtain ⟨q, hq, rfl⟩ := List.mem_map.1 hr
    split
    · next hat =>
      rw [if_pos hat] at hkey
      simp only [Row.isAt, Bool.and_eq_true, beq_iff_eq] at hat
      exact absurd hat.2 hkey
    · exact hq
  · rcases List.mem_append.1 hr with hold | hnew
    · exact hold
    · rw [List.mem_singleton.1 hnew] at hkey
      exact absurd rfl hkey

theorem value_of_mem_foldl_upsert {file : Path} {rows : List (Row α)} {facts : FileFacts α}
    {r : Row α} (hr : r ∈ facts.foldl (upsert file) rows) (hfile : r.file = file)
    (hkey : r.key ∈ facts.map Prod.fst) : lastValue? facts r.key = some r.value := by
  -- The last fact decides for its own key; for the others it changes nothing.
  induction facts using List.reverseRecOn generalizing r with
  | nil => simp at hkey
  | append_singleton facts fact ih =>
    rw [List.foldl_append, List.foldl_cons, List.foldl_nil] at hr
    rw [lastValue?_append]
    split
    · next hk =>
      have hat : r.isAt file fact.1 = true := by simp [Row.isAt, hfile, hk]
      rw [value_of_mem_upsert hr hat]
    · next hk =>
      refine ih (mem_of_mem_upsert hr hk) hfile ?_
      rw [List.map_append, List.mem_append] at hkey
      rcases hkey with hkey | hkey
      · exact hkey
      · exact absurd (by simpa using hkey) hk

theorem ofFile_saveFile (rows : List (Row α)) (file : Path) (facts : FileFacts α) :
    ofFile file (saveFile rows file facts) = ofFacts file facts := by
  have hrow : ∀ r ∈ ofFile file (saveFile rows file facts),
      (lastValue? facts r.key).map (Row.mk file r.key) = some r := by
    intro r hr
    have hkey : r.key ∈ distinctKeys facts := by
      rw [← keysOf_saveFile rows file facts]
      exact List.mem_map_of_mem hr
    obtain ⟨hmem, hfile⟩ := List.mem_filter.1 hr
    have hfile : r.file = file := by simpa using hfile
    rw [value_of_mem_foldl_upsert hmem hfile (List.mem_eraseDups.1 hkey), Option.map_some, ← hfile]
  calc ofFile file (saveFile rows file facts)
      = (ofFile file (saveFile rows file facts)).filterMap some := List.filterMap_some.symm
    _ = (ofFile file (saveFile rows file facts)).filterMap fun r =>
          (lastValue? facts r.key).map (Row.mk file r.key) :=
        List.filterMap_congr fun r hr => (hrow r hr).symm
    _ = (keysOf file (saveFile rows file facts)).filterMap fun k =>
          (lastValue? facts k).map (Row.mk file k) := by
        rw [keysOf, List.filterMap_map]
        rfl
    _ = ofFacts file facts := by rw [keysOf_saveFile, ofFacts]

theorem filter_others_upsert (p : Path → Bool) {file : Path} (hp : p file = false)
    (rows : List (Row α)) (fact : String × α) :
    (upsert file rows fact).filter (fun r => p r.file) = rows.filter fun r => p r.file := by
  unfold upsert
  split
  · rw [filter_map_value p _ (fun r => by split <;> rfl)]
    refine (List.map_congr_left fun r hr => ?_).trans (List.map_id _)
    have hne : r.file ≠ file := by
      rintro rfl
      simp [hp] at hr
    simp [Row.isAt, hne]
  · simp [hp]

theorem filter_others_foldl_upsert (p : Path → Bool) {file : Path} (hp : p file = false)
    (rows : List (Row α)) (facts : FileFacts α) :
    (facts.foldl (upsert file) rows).filter (fun r => p r.file) = rows.filter fun r => p r.file := by
  induction facts generalizing rows with
  | nil => rfl
  | cons fact facts ih => rw [List.foldl_cons, ih, filter_others_upsert p hp]

theorem filter_others_saveFile (p : Path → Bool) {file : Path} (hp : p file = false)
    (rows : List (Row α)) (facts : FileFacts α) :
    (saveFile rows file facts).filter (fun r => p r.file) = rows.filter fun r => p r.file := by
  unfold saveFile
  rw [filter_others_foldl_upsert p hp]
  unfold surviving
  split <;> rw [List.filter_filter] <;> apply List.filter_congr <;> intro r _ <;>
    by_cases hr : r.file = file <;> simp [hr, hp]

theorem ofFile_saveFile_of_ne {g file : Path} (h : g ≠ file) (rows : List (Row α))
    (facts : FileFacts α) : ofFile g (saveFile rows file facts) = ofFile g rows :=
  filter_others_saveFile (· == g) (by simpa using h.symm) rows facts

theorem ofFile_deleteFiles (file : Path) (rows : List (Row α)) (files : List Path) :
    ofFile file (deleteFiles rows files) = if file ∈ files then [] else ofFile file rows := by
  unfold ofFile deleteFiles
  rw [List.filter_filter]
  split
  · next h =>
    rw [List.filter_eq_nil_iff]
    intro r _
    by_cases hr : r.file = file <;> simp [hr, h]
  · next h =>
    apply List.filter_congr
    intro r _
    by_cases hr : r.file = file <;> simp [hr, h]

end Rows

namespace FactStore

variable {α : Type}

theorem save_eq {s : FactStore α} (hopen : s.closed = false) (batch : List (Path × FileFacts α)) :
    s.save batch =
      .ok { s with rows := batch.foldl (fun rows f => Rows.saveFile rows f.1 f.2) s.rows } := by
  simp [save, whenOpen, hopen]

theorem deleteFiles_eq {s : FactStore α} (hopen : s.closed = false) (ps : List Path) :
    s.deleteFiles ps = .ok { s with rows := Rows.deleteFiles s.rows ps } := by
  unfold deleteFiles
  cases ps with
  | nil => simp [Rows.deleteFiles]
  | cons p ps => simp [whenOpen, hopen]

theorem clear_eq {s : FactStore α} (hopen : s.closed = false) :
    s.clear = .ok { s with rows := [] } := by
  simp [clear, whenOpen, hopen]

end FactStore
end ProjectIndex
