import ProjectIndex.Proofs.Scan.Isolation
import ProjectIndex.Proofs.Scan.Tally

/-!
The rows that one file has in one store. Where a store has one scribe, they are decided by the
scribe, the content of the file and the tree it was found in, once the file was handed over without a
failure. A scan hands over the files whose content is not recorded, and leaves the rows of the others
as they are.
-/
namespace ProjectIndex

variable {σ : Type} {V : Shelf σ} {W : List (Scribe V)}

namespace Scribe

variable {w : Scribe V} {files : FileTree} {p q : Path} {src : Source} {k : V.Slot}
  {st : FactStore (V.Fact k)} {rows : List (Row (V.Fact k))}

structure Sole (W : List (Scribe V)) (w : Scribe V) (k : V.Slot) : Prop where
  owns : w.owns k = true
  split : ∃ front behind, W = front ++ w :: behind ∧ ∀ v ∈ front ++ behind, v.owns k = false

def sheet (w : Scribe V) (files : FileTree) (p : Path) (src : Source) (k : V.Slot)
    (rows : List (Row (V.Fact k))) : List (Row (V.Fact k)) :=
  if w.indexer.accepts p then
    match parsePath p src with
    | .ok _ => ((w.saves files p src k).map (Rows.ofFacts p)).getD rows
    | .error _ => []
  else rows

theorem sheet_congr {files' : FileTree} (h : w.saves files p src k = w.saves files' p src k) :
    w.sheet files p src k rows = w.sheet files' p src k rows := by
  unfold sheet
  rw [h]

theorem foldl_write_of_not_owns {A : List (Scribe V)} (h : ∀ v ∈ A, v.owns k = false) :
    A.foldl (fun st v => v.write files p src k st) st = st := by
  induction A with
  | nil => rfl
  | cons v A ih =>
    have hkept : v.write files p src k st = st :=
      if_neg (by simp [h v (List.mem_cons_self ..)])
    rw [List.foldl_cons, hkept]
    exact ih fun u hu => h u (List.mem_cons_of_mem _ hu)

theorem Sole.mem (h : Sole W w k) : w ∈ W := by
  obtain ⟨front, behind, rfl, _⟩ := h.split
  simp

theorem Sole.writeAll_eq (h : Sole W w k) :
    writeAll W files p src k st =
      if w.indexer.accepts p then w.write files p src k st else st := by
  obtain ⟨front, behind, rfl, hothers⟩ := h.split
  have hfront : ∀ v ∈ front.filter fun v => v.indexer.accepts p, v.owns k = false := fun v hv =>
    hothers v (List.mem_append_left _ (List.mem_of_mem_filter hv))
  have hbehind : ∀ v ∈ behind.filter fun v => v.indexer.accepts p, v.owns k = false := fun v hv =>
    hothers v (List.mem_append_right _ (List.mem_of_mem_filter hv))
  rw [writeAll, List.filter_append, List.foldl_append, foldl_write_of_not_owns hfront,
    List.filter_cons]
  split
  · exact foldl_write_of_not_owns hbehind
  · exact foldl_write_of_not_owns hbehind

theorem Sole.ofFile_writeAll (h : Sole W w k) :
    Rows.ofFile p (writeAll W files p src k st).rows =
      w.sheet files p src k (Rows.ofFile p st.rows) := by
  rw [h.writeAll_eq, sheet]
  split
  · rw [write, if_pos h.owns]
    cases parsePath p src with
    | error e => exact (ofFile_without st [p] p).trans (if_pos (List.mem_singleton_self p))
    | ok tree =>
      cases w.saves files p src k with
      | none => rfl
      | some facts => exact Rows.ofFile_saveFile st.rows p facts
  · rfl

theorem ofFile_writeAll_of_ne (h : q ≠ p) :
    Rows.ofFile q (writeAll W files p src k st).rows = Rows.ofFile q st.rows := by
  unfold writeAll
  generalize W.filter (fun w => w.indexer.accepts p) = A
  induction A generalizing st with
  | nil => rfl
  | cons w A ih => rw [List.foldl_cons, ih, ofFile_write_of_ne w files src h]

/-- A scribe from which a store never gets anything of a file. -/
def Silent (w : Scribe V) (p : Path) (k : V.Slot) : Prop :=
  w.indexer.accepts p = true → ∀ files src, w.saves files p src k = none

/-- A scribe that saves to a store whenever it does not fail, except to those that never get anything
of the file. -/
def Certain (w : Scribe V) : Prop :=
  ∀ files p src k tree, w.owns k = true → parsePath p src = .ok tree →
    w.fails files p src = false → w.saves files p src k = none → w.Silent p k

theorem Silent.sheet_nil (h : w.Silent p k) : w.sheet files p src k [] = [] := by
  unfold sheet
  split
  · next haccepts =>
    rw [h haccepts]
    split <;> rfl
  · rfl

theorem Certain.sheet_eq (hw : w.Certain) (howns : w.owns k = true)
    (hok : w.indexer.accepts p = true → w.misses files p src = false)
    (hsilent : w.Silent p k → rows = []) : w.sheet files p src k rows = w.sheet files p src k [] := by
  by_cases haccepts : w.indexer.accepts p = true
  · cases htree : parsePath p src with
    | error e => simp only [sheet, if_pos haccepts, htree]
    | ok tree =>
      have hfails := hok haccepts
      rw [misses, htree] at hfails
      cases hsaves : w.saves files p src k with
      | some facts => simp only [sheet, if_pos haccepts, htree, hsaves, Option.map_some,
          Option.getD_some]
      | none => rw [hsilent (hw files p src k tree howns htree hfails hsaves)]
  · rw [hsilent fun h => absurd h haccepts]

theorem misses_of_missCount (h : missCount W files p src = 0) (hw : w ∈ W)
    (haccepts : w.indexer.accepts p = true) : w.misses files p src = false := by
  have hall := List.countP_eq_zero.1 h w (List.mem_filter.2 ⟨hw, haccepts⟩)
  simpa using hall

end Scribe

namespace Ledger

variable {max : Nat} {files : FileTree} {l : Ledger V} {w : Scribe V} {k : V.Slot} {p q : Path}
  {bytes : List UInt8} {ps : List Path}

def rowsOf (l : Ledger V) (k : V.Slot) (p : Path) : List (Row (V.Fact k)) :=
  Rows.ofFile p (l.store k).rows

theorem rowsOf_of_unrecorded (h : l.Covered W) (hw : Scribe.Sole W w k)
    (hp : l.digest? p = none) : l.rowsOf k p = [] := by
  refine List.filter_eq_nil_iff.2 fun r hr hfile => ?_
  have howned : (W.any fun v => v.owns k) = true := List.any_eq_true.2 ⟨w, hw.mem, hw.owns⟩
  have hrecord := isSome_digest?.2 (h k howned r hr)
  rw [beq_iff_eq.1 hfile, hp] at hrecord
  cases hrecord

theorem rowsOf_enter_of_ne {file : Path × List UInt8} (h : p ≠ file.1) :
    (l.enter W files file).rowsOf k p = l.rowsOf k p :=
  Scribe.ofFile_writeAll_of_ne h

theorem rowsOf_foldl_enter_of_ne {fs : List (Path × List UInt8)} (h : ∀ f ∈ fs, p ≠ f.1) :
    (fs.foldl (enter W files) l).rowsOf k p = l.rowsOf k p := by
  induction fs generalizing l with
  | nil => rfl
  | cons f fs ih =>
    rw [List.foldl_cons, ih fun g hg => h g (List.mem_cons_of_mem _ hg),
      rowsOf_enter_of_ne (h f (List.mem_cons_self ..))]

theorem rowsOf_strike (hw : Scribe.Sole W w k) :
    (l.strike W ps).rowsOf k p = if p ∈ ps then [] else l.rowsOf k p := by
  have howned : (W.any fun v => v.owns k) = true := List.any_eq_true.2 ⟨w, hw.mem, hw.owns⟩
  unfold rowsOf strike Scribe.dropAll
  simp only [if_pos howned]
  exact Scribe.ofFile_without (l.store k) ps p

theorem rowsOf_scan_of_due (hw : Scribe.Sole W w k) (hnodup : ps.Nodup) (hp : p ∈ ps)
    (hdue : l.due? max files p = some bytes) :
    (l.scan max files W ps).rowsOf k p =
      w.sheet files p (Text.decodeLossy bytes) k (l.rowsOf k p) := by
  have hstays : p ∉ l.exits max files ps := by simp [exits, leaves_of_due? hdue]
  obtain ⟨front, behind, rfl⟩ := List.append_of_mem hp
  have hapart : p ∉ front ∧ p ∉ behind := by
    rw [List.nodup_append, List.nodup_cons] at hnodup
    exact ⟨fun hmem => hnodup.2.2 p hmem p (List.mem_cons_self ..) rfl, hnodup.2.1.1⟩
  have hsplit : l.entries max files (front ++ p :: behind) =
      l.entries max files front ++ (p, bytes) :: l.entries max files behind := by
    simp only [entries, List.filterMap_append, List.filterMap_cons, hdue, Option.map_some]
  have hother : ∀ {qs : List Path}, p ∉ qs → ∀ f ∈ l.entries max files qs, p ≠ f.1 := by
    rintro qs hqs f hf rfl
    exact hqs (mem_entries.1 hf).1
  rw [scan, rowsOf_strike hw, if_neg hstays, hsplit, List.foldl_append, List.foldl_cons,
    rowsOf_foldl_enter_of_ne (hother hapart.2)]
  refine hw.ofFile_writeAll.trans ?_
  exact congrArg (w.sheet files p _ k) (rowsOf_foldl_enter_of_ne (hother hapart.1))

theorem rowsOf_scan_of_rest (hw : Scribe.Sole W w k) (h : p ∈ ps → l.due? max files p = none) :
    (l.scan max files W ps).rowsOf k p =
      if p ∈ l.exits max files ps then [] else l.rowsOf k p := by
  rw [scan, rowsOf_strike hw, rowsOf_foldl_enter_of_ne]
  rintro f hf rfl
  obtain ⟨hp, hdue⟩ := mem_entries.1 hf
  rw [h hp] at hdue
  cases hdue

theorem digest?_scan_of_rest (h : p ∈ ps → l.due? max files p = none) :
    (l.scan max files W ps).digest? p =
      if p ∈ l.exits max files ps then none else l.digest? p := by
  rw [scan, digest?_strike, digest?_foldl_enter]
  rintro f hf rfl
  obtain ⟨hp, hdue⟩ := mem_entries.1 hf
  rw [h hp] at hdue
  cases hdue

theorem failed_account_le (hp : p ∈ ps) :
    (l.account W max files p).failed ≤ (l.tally W max files ps).failed := by
  induction ps with
  | nil => exact absurd hp List.not_mem_nil
  | cons q ps ih =>
    rw [tally, ScanReport.plus]
    rcases List.mem_cons.1 hp with rfl | hp
    · exact Nat.le_add_right _ _
    · exact Nat.le_trans (ih hp) (Nat.le_add_left _ _)

theorem missCount_of_tally (hzero : (l.tally W max files ps).failed = 0) (hp : p ∈ ps)
    (hdue : l.due? max files p = some bytes) :
    Scribe.missCount W files p (Text.decodeLossy bytes) = 0 := by
  obtain ⟨hfind, hsmall, hdiffers⟩ := find_of_due? hdue
  have haccount : (l.account W max files p).failed =
      Scribe.missCount W files p (Text.decodeLossy bytes) := by
    unfold account
    rw [hfind]
    simp only [if_neg (Nat.not_lt.2 hsmall), if_neg hdiffers]
  exact haccount ▸ Nat.le_zero.1 (hzero ▸ failed_account_le hp)

theorem failed_tally_of_missCount (h : ∀ p ∈ ps, ∀ bytes, files.find p = .ok (.file bytes) →
    Scribe.missCount W files p (Text.decodeLossy bytes) = 0) :
    (l.tally W max files ps).failed = 0 := by
  induction ps with
  | nil => rfl
  | cons p ps ih =>
    have haccount : (l.account W max files p).failed = 0 := by
      unfold account
      cases hfind : files.find p with
      | error cause => cases cause <;> rfl
      | ok e =>
        cases e with
        | file bytes =>
          dsimp only
          split
          · rfl
          · split
            · rfl
            · exact h p (List.mem_cons_self ..) bytes hfind
        | link target => rfl
        | dir entries => rfl
    rw [tally, ScanReport.plus]
    exact Nat.add_eq_zero_iff.2 ⟨haccount, ih fun q hq => h q (List.mem_cons_of_mem _ hq)⟩

end Ledger
end ProjectIndex
