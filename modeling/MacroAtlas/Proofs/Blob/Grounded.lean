import MacroAtlas.Proofs.Blob.Failure
import MacroAtlas.Proofs.Blob.Workshop

/-!
# Directory stores in grounded trees

Whatever becomes of the writes of a directory store, and whatever is removed from it, each thing in
its file tree still stands in a directory, if the root leads from one. So no file comes into reach
when one of these writes fails.
-/

namespace MacroAtlas

/-- The store after the next step of a write is the one after that step, whether it fails or not. -/
theorem Draft.store_advance (d : Draft) (s : DirectoryBlobs) :
    (d.advance s).store = match d.stage with
      | .requested => (s.prepare d.area).2
      | .prepared => (s.stage d.area).2
      | .staged number => (s.fill d.area number d.bytes).2
      | .filled number => (s.publish d.area number d.file).2
      | .refused number => s.discard d.area number
      | .over => s := by
  unfold advance
  cases d.stage with
  | requested =>
      dsimp only
      rcases s.prepare d.area with ⟨_ | _, _⟩ <;> rfl
  | prepared =>
      dsimp only
      rcases s.stage d.area with ⟨_ | _, _⟩ <;> rfl
  | staged number =>
      dsimp only
      rcases s.fill d.area number d.bytes with ⟨_ | _, _⟩ <;> rfl
  | filled number =>
      dsimp only
      rcases s.publish d.area number d.file with ⟨_ | _, _⟩ <;> rfl
  | _ => dsimp only

namespace DirectoryBlobs

open FileTree

/-- A store in a grounded tree, with a root that leads from a directory. -/
structure Grounded (s : DirectoryBlobs) : Prop where
  /-- Everything stands in a directory. -/
  tree : s.tree.Grounded
  /-- The root leads from one. -/
  start : s.tree.node? s.root.start = some .directory

namespace Grounded

variable {s s' : DirectoryBlobs} {paths : List Path}

/-- A path goes on from a directory with whatever is joined to it. -/
theorem start_join {t : FileTree} {p : Path} (h : t.node? p.start = some .directory)
    (part : String) : t.node? (p.join part).start = some .directory := by
  unfold Path.join
  split
  · rfl
  · exact h

/-- No directory goes, so the root still leads from one. -/
theorem of_spares (h : s.Grounded) (hroot : s'.root = s.root) (hs : Spares paths s.tree s'.tree)
    (ht : s'.tree.Grounded) : s'.Grounded :=
  ⟨ht, hroot ▸ hs.directory h.start⟩

/-- A directory is made in another one. -/
theorem prepare (h : s.Grounded) (area : String) : (s.prepare area).2.Grounded := by
  have hmade := h.tree.createDirectories (start_join h.start area)
  have hspares := Spares.createDirectories s.tree (s.root.join area)
  unfold DirectoryBlobs.prepare directory
  simp only
  split
  all_goals
    next hs =>
      rw [hs] at hmade hspares
      exact h.of_spares rfl hspares hmade

/-- A temporary file is created in a directory. -/
theorem stage (h : s.Grounded) (area : String) : (s.stage area).2.Grounded := by
  unfold DirectoryBlobs.stage
  simp only
  split
  · next tree hmade =>
      have hstart := start_join (start_join h.start area) (s.temporaryName s.nextTemporary)
      exact h.of_spares rfl (.createFile hmade) (h.tree.createFile hstart hmade)
  · exact ⟨h.tree, h.start⟩

/-- It stays where it is when it is filled. -/
theorem fill (h : s.Grounded) (area : String) (number : UInt64) (bytes : Bytes) :
    (s.fill area number bytes).2.Grounded := by
  unfold DirectoryBlobs.fill
  simp only
  split
  · next tree hfilled => exact h.of_spares rfl (.fillFile hfilled) (h.tree.fillFile hfilled)
  · exact h

/-- It is renamed into a directory, and nothing was in it. -/
theorem publish (h : s.Grounded) (area : String) (number : UInt64) (file : FileName) :
    (s.publish area number file).2.Grounded := by
  unfold DirectoryBlobs.publish
  simp only
  split
  · next tree hmoved =>
      have hstart := start_join (start_join h.start area) file.text
      exact h.of_spares rfl (.renameFile hmoved) (h.tree.renameFile hstart hmoved)
  · exact h

/-- Nothing was in a file that is discarded. -/
theorem discard (h : s.Grounded) (area : String) (number : UInt64) :
    (s.discard area number).Grounded := by
  unfold DirectoryBlobs.discard
  split
  · next tree hremoved => exact h.of_spares rfl (.removeFile hremoved) (h.tree.removeFile hremoved)
  · exact h

/-- Nothing was in a blob that is removed. -/
theorem remove (h : s.Grounded) (area : String) (file : FileName) :
    (s.remove area file).2.Grounded := by
  unfold DirectoryBlobs.remove
  simp only
  split
  · next tree hremoved => exact h.of_spares rfl (.removeFile hremoved) (h.tree.removeFile hremoved)
  · exact h
  · exact h

/-- Each step of a write keeps the tree grounded, also one that fails. -/
theorem advance (h : s.Grounded) (d : Draft) : (d.advance s).store.Grounded := by
  rw [d.store_advance]
  cases d.stage with
  | requested => exact h.prepare d.area
  | prepared => exact h.stage d.area
  | staged number => exact h.fill d.area number d.bytes
  | filled number => exact h.publish d.area number d.file
  | refused number => exact h.discard d.area number
  | _ => exact h

/-- So does whatever else becomes of the write. -/
theorem act (h : s.Grounded) (d : Draft) (action : WriteAction) :
    (d.act s action).store.Grounded := by
  cases action with
  | advance => exact h.advance d
  | pour length =>
      unfold Draft.act
      cases d.stage with
      | staged number => simpa only using h.fill d.area number (d.bytes.take length)
      | _ => simpa only using h
  | fail =>
      unfold Draft.act
      cases d.stage with
      | _ => simpa only using h
  | stop => exact h

end Grounded

end DirectoryBlobs

namespace Workshop

variable {w : Workshop}

/-- Whatever happens around a store, its tree stays grounded. -/
theorem grounded_step (h : w.store.Grounded) (event : StoreEvent) :
    (w.step event).2.store.Grounded := by
  cases event with
  | request area file bytes => exact h
  | act index action =>
      cases hd : w.drafts[index]? with
      | none =>
          simp only [step, hd]
          exact h
      | some d =>
          simp only [step, hd]
          exact h.act d action
  | remove area file =>
      simp only [step]
      exact h.remove area file
  | restart run => exact ⟨h.tree, h.start⟩

/-- So it does through any number of events. -/
theorem grounded_after (h : w.store.Grounded) (history : List StoreEvent) :
    (w.after history).store.Grounded := by
  induction history generalizing w with
  | nil => exact h
  | cons event rest ih => exact ih (grounded_step h event)

/-- So an area whose path never leads up is guarded at any time. -/
theorem guards_after (h : w.store.Grounded) (history : List StoreEvent) {area : String}
    (hup : ".." ∉ ((w.after history).store.directory area).names) :
    (w.after history).store.tree.Guards ((w.after history).store.directory area) :=
  Or.inr ⟨(grounded_after h history).tree, hup⟩

end Workshop

namespace DirectoryBlobs

/-- A write by itself is such a run. -/
theorem Grounded.write {s : DirectoryBlobs} (h : s.Grounded) (area : String) (file : FileName)
    (bytes : Bytes) : (s.write area file bytes).2.Grounded := by
  rw [← (Workshop.after_request s area file bytes).1]
  exact Workshop.grounded_after h _

end DirectoryBlobs

end MacroAtlas
