import ProjectIndex.Proofs.Store.Replace

/-!
A store after any steps. It holds, file by file, what the facts saved last for the file leave, so it
has one row for a file and key, and a key is answered with one record for each file whose latest
facts contain it.
-/
namespace ProjectIndex

/-- One operation on a store. To open it again it is closed first. -/
inductive StoreStep (α : Type) where
  | save (batch : List (Path × FileFacts α))
  | delete (files : List Path)
  | clear
  | reopen

namespace StoreStep

variable {α : Type}

def latest (before : Path → FileFacts α) : StoreStep α → Path → FileFacts α
  | .save batch => batch.foldl (fun l f => Function.update l f.1 f.2) before
  | .delete files => fun g => if g ∈ files then [] else before g
  | .clear => fun _ => []
  | .reopen => before

def latestAfter (steps : List (StoreStep α)) : Path → FileFacts α :=
  steps.foldl latest fun _ => []

end StoreStep

namespace Rows

variable {α : Type}

theorem map_key_ofFacts (file : Path) (facts : FileFacts α) :
    (ofFacts file facts).map Row.key = distinctKeys facts := by
  rw [← ofFile_saveFile [] file facts]
  exact keysOf_saveFile [] file facts

theorem mem_ofFacts {file : Path} {facts : FileFacts α} {key : String} {value : α} :
    ⟨file, key, value⟩ ∈ ofFacts file facts ↔ lastValue? facts key = some value := by
  constructor
  · intro h
    obtain ⟨k, _, hk⟩ := List.mem_filterMap.1 h
    obtain ⟨v, hv, heq⟩ := Option.map_eq_some_iff.1 hk
    cases heq
    exact hv
  · intro h
    have hkey : key ∈ facts.map Prod.fst := key_mem_of_lastValue? h
    refine List.mem_filterMap.2 ⟨key, List.mem_eraseDups.2 hkey, ?_⟩
    rw [h, Option.map_some]

def place (r : Row α) : Path × String := (r.file, r.key)

theorem nodup_place {rows : List (Row α)} (h : ∀ file, (keysOf file rows).Nodup) :
    (rows.map place).Nodup := by
  induction rows with
  | nil => simp
  | cons r rows ih =>
    rw [List.map_cons, List.nodup_cons]
    constructor
    · intro hmem
      obtain ⟨q, hq, hplace⟩ := List.mem_map.1 hmem
      have hfile : q.file = r.file := congrArg Prod.fst hplace
      have hkey : q.key = r.key := congrArg Prod.snd hplace
      have hcons : keysOf r.file (r :: rows) = r.key :: keysOf r.file rows := by
        simp [keysOf, ofFile]
      have hnodup := h r.file
      rw [hcons, List.nodup_cons] at hnodup
      apply hnodup.1
      rw [← hkey]
      exact List.mem_map_of_mem (List.mem_filter.2 ⟨hq, by simp [hfile]⟩)
    · apply ih
      intro file
      refine (h file).sublist ?_
      exact ((List.sublist_cons_self r rows).filter _).map _

end Rows

namespace FactStore

variable {α : Type}

def step (s : FactStore α) : StoreStep α → Except Failure (FactStore α)
  | .save batch => s.save batch
  | .delete files => s.deleteFiles files
  | .clear => s.clear
  | .reopen => .ok s.close.reopen

def run (s : FactStore α) (steps : List (StoreStep α)) : Except Failure (FactStore α) :=
  steps.foldlM step s

/-- An open store that holds the given facts of each file. -/
structure Holds (s : FactStore α) (latest : Path → FileFacts α) : Prop where
  isOpen : s.closed = false
  rows : ∀ file, Rows.ofFile file s.rows = Rows.ofFacts file (latest file)

theorem ofFile_foldl_saveFile (batch : List (Path × FileFacts α)) {rows : List (Row α)}
    {latest : Path → FileFacts α}
    (h : ∀ file, Rows.ofFile file rows = Rows.ofFacts file (latest file)) (file : Path) :
    Rows.ofFile file (batch.foldl (fun rows f => Rows.saveFile rows f.1 f.2) rows) =
      Rows.ofFacts file (StoreStep.latest latest (.save batch) file) := by
  induction batch generalizing rows latest with
  | nil => exact h file
  | cons f batch ih =>
    have hfirst : ∀ g, Rows.ofFile g (Rows.saveFile rows f.1 f.2) =
        Rows.ofFacts g (Function.update latest f.1 f.2 g) := by
      intro g
      rcases eq_or_ne g f.1 with rfl | hg
      · rw [Rows.ofFile_saveFile, Function.update_self]
      · rw [Rows.ofFile_saveFile_of_ne hg, Function.update_of_ne hg, h]
    exact ih hfirst

theorem Holds.step {s : FactStore α} {latest : Path → FileFacts α} (h : s.Holds latest)
    (st : StoreStep α) : ∃ s', s.step st = .ok s' ∧ s'.Holds (st.latest latest) := by
  cases st with
  | save batch => exact ⟨_, save_eq h.isOpen batch, h.isOpen, ofFile_foldl_saveFile batch h.rows⟩
  | delete files =>
    refine ⟨_, deleteFiles_eq h.isOpen files, h.isOpen, fun g => ?_⟩
    rw [Rows.ofFile_deleteFiles]
    by_cases hg : g ∈ files
    · simp only [StoreStep.latest, if_pos hg]
      rfl
    · simp only [StoreStep.latest, if_neg hg]
      exact h.rows g
  | clear => exact ⟨_, clear_eq h.isOpen, h.isOpen, fun _ => rfl⟩
  | reopen => exact ⟨_, rfl, rfl, h.rows⟩

theorem Holds.run {s : FactStore α} {latest : Path → FileFacts α} (h : s.Holds latest)
    (steps : List (StoreStep α)) :
    ∃ s', s.run steps = .ok s' ∧ s'.Holds (steps.foldl StoreStep.latest latest) := by
  induction steps generalizing s latest with
  | nil => exact ⟨s, rfl, h⟩
  | cons st steps ih =>
    obtain ⟨s₁, hstep, h₁⟩ := h.step st
    obtain ⟨s', hrun, h'⟩ := ih h₁
    refine ⟨s', ?_, h'⟩
    rw [FactStore.run, List.foldlM_cons, hstep]
    exact hrun

theorem holds_new (name : String) : (new name : FactStore α).Holds fun _ => [] :=
  ⟨rfl, fun _ => rfl⟩

theorem Holds.nodup_place {s : FactStore α} {latest : Path → FileFacts α} (h : s.Holds latest) :
    (s.rows.map Rows.place).Nodup := by
  apply Rows.nodup_place
  intro file
  rw [Rows.keysOf, h.rows, Rows.map_key_ofFacts]
  exact nodup_eraseDups _

theorem Holds.mem_rows {s : FactStore α} {latest : Path → FileFacts α} (h : s.Holds latest)
    {file : Path} {key : String} {value : α} :
    ⟨file, key, value⟩ ∈ s.rows ↔ Rows.lastValue? (latest file) key = some value := by
  rw [← Rows.mem_ofFacts, ← h.rows, Rows.ofFile, List.mem_filter]
  simp

theorem Holds.values {s : FactStore α} {latest : Path → FileFacts α} (h : s.Holds latest)
    (key : String) :
    ∃ (files : List Path) (records : List α), s.values key = .ok records ∧ files.Nodup ∧
      (∀ g, g ∈ files ↔ key ∈ (latest g).map Prod.fst) ∧
      List.Forall₂ (fun g v => Rows.lastValue? (latest g) key = some v) files records := by
  have hkey : ∀ r ∈ s.rows.filter (fun r => r.key == key), r.key = key := by
    intro r hr
    simpa using (List.mem_filter.1 hr).2
  refine ⟨(s.rows.filter fun r => r.key == key).map Row.file,
    (s.rows.filter fun r => r.key == key).map Row.value, ?_, ?_, ?_, ?_⟩
  · rw [FactStore.values, whenOpen, if_neg (by simp [h.isOpen])]
  · -- Rows with one key differ in their files, since no file has a key twice.
    have hnodup : ((s.rows.filter fun r => r.key == key).map Rows.place).Nodup :=
      h.nodup_place.sublist (List.filter_sublist.map _)
    have hplace : (s.rows.filter fun r => r.key == key).map Rows.place =
        ((s.rows.filter fun r => r.key == key).map Row.file).map fun g => (g, key) := by
      rw [List.map_map]
      apply List.map_congr_left
      intro r hr
      rw [Rows.place, hkey r hr]
      rfl
    rw [hplace] at hnodup
    exact hnodup.of_map _
  · intro g
    have hdistinct : key ∈ Rows.distinctKeys (latest g) ↔ key ∈ (latest g).map Prod.fst :=
      List.mem_eraseDups
    rw [← hdistinct, ← Rows.map_key_ofFacts g, ← h.rows, List.mem_map, List.mem_map]
    constructor
    · rintro ⟨r, hr, rfl⟩
      refine ⟨r, List.mem_filter.2 ⟨(List.mem_filter.1 hr).1, by simp⟩, hkey r hr⟩
    · rintro ⟨r, hr, rfl⟩
      obtain ⟨hmem, hfile⟩ := List.mem_filter.1 hr
      exact ⟨r, List.mem_filter.2 ⟨hmem, by simp⟩, by simpa using hfile⟩
  · rw [List.forall₂_map_left_iff, List.forall₂_map_right_iff, List.forall₂_same]
    intro r hr
    have hr' : ⟨r.file, r.key, r.value⟩ ∈ s.rows := (List.mem_filter.1 hr).1
    rw [h.mem_rows, hkey r hr] at hr'
    exact hr'

/-- Saving a file replaces its facts, whatever has happened to the store before: the file owns the
distinct keys of the new facts in the order in which they first occur, each with its last record; no
file has a key twice; the rows of other files stay as they are, in their order; and a key is
answered with one record for each file whose latest facts contain it. -/
theorem save_replaces_file (name : String) (steps : List (StoreStep α)) (file : Path)
    (facts : FileFacts α) :
    ∃ s s' : FactStore α, (new name).run steps = .ok s ∧ s.save [(file, facts)] = .ok s' ∧
      (∃ keys : List String, s'.keysOfFile file = .ok keys ∧ keys.Nodup ∧
        (∀ k, k ∈ keys ↔ k ∈ facts.map Prod.fst) ∧
        keys.Pairwise fun a b => (facts.map Prod.fst).idxOf a < (facts.map Prod.fst).idxOf b) ∧
      (∀ key value, ⟨file, key, value⟩ ∈ s'.rows ↔ Rows.lastValue? facts key = some value) ∧
      (s'.rows.map fun r => (r.file, r.key)).Nodup ∧
      (s'.rows.filter fun r => r.file != file) = (s.rows.filter fun r => r.file != file) ∧
      ∀ key, ∃ (files : List Path) (records : List α), s'.values key = .ok records ∧ files.Nodup ∧
        (∀ g, g ∈ files ↔
          key ∈ (StoreStep.latestAfter (steps ++ [.save [(file, facts)]]) g).map Prod.fst) ∧
        List.Forall₂ (fun g v => Rows.lastValue?
          (StoreStep.latestAfter (steps ++ [.save [(file, facts)]]) g) key = some v)
          files records := by
  obtain ⟨s, hrun, h⟩ := (holds_new name).run steps
  obtain ⟨s', hsave, h'⟩ := h.step (.save [(file, facts)])
  have hlatest : StoreStep.latestAfter (steps ++ [.save [(file, facts)]]) =
      StoreStep.latest (steps.foldl StoreStep.latest fun _ => []) (.save [(file, facts)]) := by
    rw [StoreStep.latestAfter, List.foldl_append, List.foldl_cons, List.foldl_nil]
  -- The save only makes the history longer, so the store holds what was saved last.
  rw [← hlatest] at h'
  have hfile : StoreStep.latestAfter (steps ++ [.save [(file, facts)]]) file = facts := by
    rw [hlatest]
    exact Function.update_self ..
  have hrows : s'.rows = Rows.saveFile s.rows file facts := by
    rw [FactStore.step, save_eq h.isOpen] at hsave
    cases hsave
    rfl
  refine ⟨s, s', hrun, hsave, ⟨Rows.distinctKeys facts, ?_, nodup_eraseDups _, ?_, ?_⟩, ?_,
    h'.nodup_place, ?_, ?_⟩
  · rw [keysOfFile, whenOpen, h'.isOpen, h'.rows, hfile, Rows.map_key_ofFacts]
    rfl
  · exact fun k => List.mem_eraseDups
  · exact pairwise_idxOf_eraseDups _
  · intro key value
    rw [h'.mem_rows, hfile]
  · rw [hrows]
    exact Rows.filter_others_saveFile (· != file) (by simp) s.rows facts
  · exact h'.values

end FactStore
end ProjectIndex
