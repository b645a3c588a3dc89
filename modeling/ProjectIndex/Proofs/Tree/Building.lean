import ProjectIndex.Proofs.Tree.Frames
import ProjectIndex.Proofs.Tree.Sketch

/-! A nested tree without errors, replayed through the builder, is laid out in the nodes. -/
namespace ProjectIndex.Shape

open TreeBuilder

variable {src : Source}

mutual

theorem stands_addTo : ∀ (s : Shape) {b : TreeBuilder} {f : Frame} {fs : List Frame},
    s.Sound → b.Stands src (f :: fs) → (s.addTo b).Stands src (f.add s :: fs)
  | .leaf kind named error start stop, b, f, fs, hsound, h => by
    rw [Sound] at hsound
    subst hsound
    exact h.leaf kind named start stop
  | .node kind named error start stop children, b, f, fs, hsound, h => by
    rw [Sound] at hsound
    obtain ⟨rfl, hchildren⟩ := hsound
    have hopen := h.openNode kind named start
    have hall := stands_addAllTo children hchildren hopen
    exact hall.close stop

theorem stands_addAllTo : ∀ (xs : List Shape) {b : TreeBuilder} {f : Frame} {fs : List Frame},
    SoundAll xs → b.Stands src (f :: fs) → (addAllTo b xs).Stands src (f.addAll xs :: fs)
  | [], b, f, fs, _, h => by
    rw [addAllTo, Frame.addAll_nil]
    exact h
  | s :: rest, b, f, fs, hsound, h => by
    obtain ⟨hs, hrest⟩ := hsound
    have hall := stands_addAllTo rest hrest (stands_addTo s hs h)
    rw [Frame.addAll_add] at hall
    rw [addAllTo]
    exact hall

end

theorem laid_build {kind : String} {named : Bool} {start stop : Nat} {children : List Shape}
    (h : SoundAll children) :
    let s := Shape.node kind named false start stop children
    let t := s.build src
    t.root = 0 ∧ t.size = s.size ∧ Laid src t.node none 0 s := by
  have hopen := stands_rootAt src kind named start
  have hall := stands_addAllTo children h hopen
  exact hall.finish stop

theorem spanning_concat (kind : String) (a b : Shape) (xs : List Shape) :
    spanning kind (a :: (xs ++ [b])) = .node kind true false a.start b.stop (a :: (xs ++ [b])) := by
  have hlast : (a :: (xs ++ [b])).getLast? = some b := by
    rw [← List.cons_append]
    exact List.getLast?_concat
  rw [spanning, hlast]
  rfl

end ProjectIndex.Shape
