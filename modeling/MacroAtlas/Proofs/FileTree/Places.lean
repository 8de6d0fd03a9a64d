import MacroAtlas.FileTree.Basic

/-!
# Where paths lead

Only directories are passed on the way to a place. So a path leads where it did as long as no
directory goes, whatever becomes of files. Two names in one directory lead to different places.
-/

namespace MacroAtlas

/-- A name that leads from a directory to something in it. -/
structure Path.Plain (name : String) : Prop where
  /-- There is a name. -/
  ne_empty : name ≠ ""
  /-- It does not stay where it is. -/
  ne_dot : name ≠ "."
  /-- It does not lead up. -/
  ne_dots : name ≠ ".."
  /-- It is one name. -/
  not_mem : separator ∉ name.toList

namespace Path

/-- A text without separators is one name. -/
theorem splitNames_eq_singleton {text : List Char} (h : separator ∉ text) :
    splitNames text = [text] := by
  induction text with
  | nil => rfl
  | cons c rest ih =>
      obtain ⟨hc, hrest⟩ := List.ne_and_not_mem_of_not_mem_cons h
      rw [splitNames, if_neg hc.symm, ih hrest]

/-- A plain name is joined behind the others. -/
theorem join_eq {name : String} (h : Plain name) (p : Path) :
    p.join name = { p with parts := p.parts ++ [name] } := by
  have hrelative : isAbsolute name = false := by
    unfold isAbsolute
    cases htext : name.toList with
    | nil => rfl
    | cons c rest =>
        have hc := (List.ne_and_not_mem_of_not_mem_cons (htext ▸ h.not_mem)).1
        simp [hc.symm]
  rw [join, hrelative, if_neg Bool.false_ne_true]

/-- It is the last name to follow. -/
theorem names_join {name : String} (h : Plain name) (p : Path) :
    (p.join name).names = p.names ++ [name] := by
  rw [join_eq h, names, names, List.flatMap_append, List.flatMap_singleton,
    splitNames_eq_singleton h.not_mem]
  simp

end Path

namespace FileTree

variable {t t' : FileTree} {place dir : List String} {p q : Path} {name other : String}

/-- The top is a directory. -/
theorem ne_nil_of_not_directory (h : t.node? place ≠ some .directory) : place ≠ [] := by
  rintro rfl
  exact h rfl

/-- A file is no directory. -/
theorem not_directory_of_file {content : Bytes} (h : t.node? place = some (.file content)) :
    t.node? place ≠ some .directory := by
  simp [h]

/-- A node is put at its own place and nowhere else. -/
theorem node?_put (hp : place ≠ []) (t : FileTree) (node : Node) (elsewhere : List String) :
    (t.put place node).node? elsewhere =
      if place = elsewhere then some node else t.node? elsewhere := by
  cases elsewhere with
  | nil => simp [node?, hp]
  | cons first rest =>
      simp only [node?, put, Std.ExtTreeMap.getElem?_insert, Std.LawfulEqCmp.compare_eq_iff_eq]

/-- A node is erased at its own place and nowhere else. -/
theorem node?_erase (hp : place ≠ []) (t : FileTree) (elsewhere : List String) :
    (t.erase place).node? elsewhere = if place = elsewhere then none else t.node? elsewhere := by
  cases elsewhere with
  | nil => simp [node?, hp]
  | cons first rest =>
      simp only [node?, erase, Std.ExtTreeMap.getElem?_erase, Std.LawfulEqCmp.compare_eq_iff_eq]

section Following

/-- A name is followed from directories only. -/
theorem node?_of_follow (h : t.follow dir name = .ok place) : t.node? dir = some .directory := by
  unfold follow at h
  split at h
  · cases h
  · cases h
  · assumption

/-- A plain name leads to a place in the directory. -/
theorem eq_of_follow_plain (hn : Path.Plain name) (h : t.follow dir name = .ok place) :
    place = dir ++ [name] := by
  have hidle : Path.isIdle name = false := by
    simp [Path.isIdle, hn.ne_empty, hn.ne_dot]
  rw [follow, node?_of_follow h] at h
  simp only [hidle, Bool.false_eq_true, if_false, hn.ne_dots] at h
  split at h
  · cases h
  · exact (Except.ok.inj h).symm

/-- The last name is followed from where the others lead. -/
theorem locateFrom_append {names : List String} :
    t.locateFrom dir (names ++ [name]) = .ok place ↔
      ∃ last, t.locateFrom dir names = .ok last ∧ t.follow last name = .ok place := by
  induction names generalizing dir with
  | nil =>
      simp only [List.nil_append, locateFrom]
      cases hf : t.follow dir name <;> simp [hf]
  | cons first rest ih =>
      simp only [List.cons_append, locateFrom]
      cases t.follow dir first with
      | error fault => simp
      | ok next => exact ih

/-- A path leads where its names do. -/
theorem locateFrom_of_locate (h : t.locate p = .ok place) :
    t.locateFrom p.start p.names = .ok place := by
  unfold locate at h
  split at h
  · cases h
  · split at h
    · cases h
    · exact h

/-- A plain name behind a path leads into the directory to which the path leads. -/
theorem locate_join (hn : Path.Plain name) (h : t.locate (p.join name) = .ok place) :
    ∃ dir, t.locateFrom p.start p.names = .ok dir ∧ place = dir ++ [name] := by
  have hfrom := locateFrom_of_locate h
  rw [Path.names_join hn, Path.join_eq hn] at hfrom
  obtain ⟨dir, hdir, hfollow⟩ := locateFrom_append.mp hfrom
  exact ⟨dir, hdir, eq_of_follow_plain hn hfollow⟩

/-- Two plain names behind a path lead to different places. -/
theorem locate_join_ne (hn : Path.Plain name) (ho : Path.Plain other) (hne : name ≠ other)
    (h : t.locate (p.join name) = .ok place) : t.locate (p.join other) ≠ .ok place := by
  intro h'
  obtain ⟨dir, hdir, rfl⟩ := locate_join hn h
  obtain ⟨dir', hdir', heq⟩ := locate_join ho h'
  obtain rfl := Except.ok.inj (hdir.symm.trans hdir')
  exact hne (List.singleton_inj.mp (List.append_cancel_left heq))

end Following

/-- Nothing goes or changes but files to which one of the paths leads. -/
def Spares (paths : List Path) (t t' : FileTree) : Prop :=
  ∀ place node, t.node? place = some node →
    (node = .directory ∨ ∀ p ∈ paths, t.locate p ≠ .ok place) → t'.node? place = some node

namespace Spares

variable {paths : List Path}

/-- A directory that is spared is still one. -/
theorem directory (h : Spares paths t t') (hd : t.node? place = some .directory) :
    t'.node? place = some .directory :=
  h place .directory hd (Or.inl rfl)

/-- So a name leads where it did. -/
theorem follow (h : Spares paths t t') (hf : t.follow dir name = .ok place) :
    t'.follow dir name = .ok place := by
  have hd := node?_of_follow hf
  rw [FileTree.follow, hd] at hf
  rw [FileTree.follow, h.directory hd]
  exact hf

/-- So do some names. -/
theorem locateFrom (h : Spares paths t t') {names : List String}
    (hl : t.locateFrom dir names = .ok place) : t'.locateFrom dir names = .ok place := by
  induction names generalizing dir with
  | nil => exact hl
  | cons name rest ih =>
      unfold FileTree.locateFrom at hl ⊢
      cases hf : t.follow dir name with
      | error fault =>
          rw [hf] at hl
          cases hl
      | ok next =>
          rw [hf] at hl
          rw [h.follow hf]
          exact ih hl

/-- No path leads elsewhere. -/
theorem locate (h : Spares paths t t') (hl : t.locate p = .ok place) :
    t'.locate p = .ok place := by
  unfold FileTree.locate at hl ⊢
  split at hl
  · cases hl
  · split at hl
    · cases hl
    · next hvoid =>
        rw [if_neg hvoid]
        exact h.locateFrom hl

end Spares

section Operations

variable {content : Bytes}

/-- A path can be read where it leads to a file. -/
theorem readFile_eq_ok_iff : t.readFile p = .ok content ↔
    ∃ place, t.locate p = .ok place ∧ t.node? place = some (.file content) := by
  unfold readFile lookup
  simp only [bind, Except.bind, pure, Except.pure, throw, throwThe, MonadExceptOf.throw]
  cases hl : t.locate p with
  | error fault => simp
  | ok place =>
      cases hn : t.node? place with
      | none => simp [hn]
      | some node => cases node <;> simp [hn]

/-- Making a file puts one in a place where there is no directory. -/
theorem createFile_eq_ok_iff : t.createFile p = .ok t' ↔
    ∃ place, t.locate p = .ok place ∧ t.node? place ≠ some .directory ∧
      t' = t.put place (.file []) := by
  unfold createFile
  simp only [bind, Except.bind, pure, Except.pure, throw, throwThe, MonadExceptOf.throw]
  cases hl : t.locate p with
  | error fault => simp
  | ok place =>
      cases hn : t.node? place with
      | none => simp [hn, eq_comm]
      | some node => cases node <;> simp [hn, eq_comm]

/-- Only a file that is there is filled. -/
theorem fillFile_eq_ok_iff : t.fillFile p content = .ok t' ↔
    ∃ place old, t.locate p = .ok place ∧ t.node? place = some (.file old) ∧
      t' = t.put place (.file content) := by
  unfold fillFile
  simp only [bind, Except.bind, pure, Except.pure, throw, throwThe, MonadExceptOf.throw]
  cases hl : t.locate p with
  | error fault => simp
  | ok place =>
      cases hn : t.node? place with
      | none => simp [hn]
      | some node => cases node <;> simp [hn, eq_comm]

/-- A file is only moved to a place where there is no directory. -/
theorem renameFile_eq_ok_iff : t.renameFile p q = .ok t' ↔
    ∃ place goal content, t.locate p = .ok place ∧ t.locate q = .ok goal ∧
      t.node? place = some (.file content) ∧ t.node? goal ≠ some .directory ∧
        t' = (t.erase place).put goal (.file content) := by
  unfold renameFile
  simp only [bind, Except.bind, pure, Except.pure, throw, throwThe, MonadExceptOf.throw]
  cases hl : t.locate p with
  | error fault => simp
  | ok place =>
      cases hg : t.locate q with
      | error fault => simp
      | ok goal =>
          cases hn : t.node? place with
          | none => simp [hn]
          | some node =>
              cases node with
              | directory => simp [hn]
              | file content =>
                  cases hm : t.node? goal with
                  | none => simp [hn, hm, eq_comm]
                  | some other => cases other <;> simp [hn, hm, eq_comm]

/-- Only a file that is there is removed. -/
theorem removeFile_eq_ok_iff : t.removeFile p = .ok t' ↔
    ∃ place old, t.locate p = .ok place ∧ t.node? place = some (.file old) ∧
      t' = t.erase place := by
  unfold removeFile
  simp only [bind, Except.bind, pure, Except.pure, throw, throwThe, MonadExceptOf.throw]
  cases hl : t.locate p with
  | error fault => simp
  | ok place =>
      cases hn : t.node? place with
      | none => simp [hn]
      | some node => cases node <;> simp [hn, eq_comm]

end Operations

/-- Nothing changes but that there may be more directories. -/
def Furnishes (t t' : FileTree) : Prop :=
  ∀ place, t'.node? place = t.node? place ∨
    t.node? place = none ∧ t'.node? place = some .directory

namespace Furnishes

theorem refl (t : FileTree) : Furnishes t t := fun _ => Or.inl rfl

/-- What two operations make is made. -/
theorem trans {t'' : FileTree} (h : Furnishes t t') (h' : Furnishes t' t'') :
    Furnishes t t'' := by
  intro place
  obtain heq | ⟨hnone, hmade⟩ := h' place
  · rw [heq]
    exact h place
  · obtain heq | ⟨-, hmade'⟩ := h place
    · exact Or.inr ⟨heq.symm.trans hnone, hmade⟩
    · rw [hmade'] at hnone
      cases hnone

/-- A directory is made where nothing was. -/
theorem put (hn : t.node? place = none) : Furnishes t (t.put place .directory) := by
  have hne : place ≠ [] := ne_nil_of_not_directory (t := t) (by simp [hn])
  intro elsewhere
  rw [node?_put hne]
  split
  · next hsame => exact Or.inr ⟨hsame ▸ hn, rfl⟩
  · exact Or.inl rfl

/-- Whatever was there stays. -/
theorem spares (h : Furnishes t t') : Spares [] t t' := by
  intro elsewhere node hn _
  obtain heq | ⟨hnone, -⟩ := h elsewhere
  · exact heq.trans hn
  · rw [hn] at hnone
    cases hnone

/-- No file comes. -/
theorem file_iff (h : Furnishes t t') (elsewhere : List String) (content : Bytes) :
    t'.node? elsewhere = some (.file content) ↔ t.node? elsewhere = some (.file content) := by
  obtain heq | ⟨hnone, hmade⟩ := h elsewhere
  · rw [heq]
  · simp [hnone, hmade]

/-- A directory is made where nothing is. -/
theorem provideDirectory (t : FileTree) (start names : List String) :
    Furnishes t (t.provideDirectory start names).2 := by
  unfold FileTree.provideDirectory
  split
  · exact refl t
  · split
    · next hn => exact put hn
    · exact refl t
    · exact refl t

/-- So are all that are missing on the way. -/
theorem provideDirectories (t : FileTree) (start trail names : List String) :
    Furnishes t (t.provideDirectories start trail names).2 := by
  induction names generalizing trail with
  | nil => exact provideDirectory t start trail
  | cons name before ih =>
      have hwhole := provideDirectory t start (before.reverse ++ name :: trail)
      have hbefore := ih []
      unfold FileTree.provideDirectories
      split
      · split
        · next parent ready hready =>
            rw [hready] at hbefore
            exact hbefore.trans (provideDirectory ready parent (name :: trail))
        · exact hbefore
      · exact hwhole

/-- Making the directory of a path makes nothing else. -/
theorem createDirectories (t : FileTree) (p : Path) :
    Furnishes t (t.createDirectories p).2 := by
  unfold FileTree.createDirectories
  split
  · exact refl t
  · exact provideDirectories t p.start p.trail p.telling.reverse

end Furnishes

namespace Spares

/-- What is done at one place where no directory is takes away a file at most. -/
theorem of_elsewhere (hl : t.locate p = .ok place) (hd : t.node? place ≠ some .directory)
    (hs : ∀ elsewhere, place ≠ elsewhere → t'.node? elsewhere = t.node? elsewhere) :
    Spares [p] t t' := by
  intro elsewhere found hf hspared
  refine (hs elsewhere ?_).trans hf
  rintro rfl
  rcases hspared with rfl | hspared
  · exact hd hf
  · exact hspared p List.mem_cons_self hl

/-- A node that is put where a path leads spares everything else. -/
theorem put (hl : t.locate p = .ok place) (hd : t.node? place ≠ some .directory) (node : Node) :
    Spares [p] t (t.put place node) :=
  of_elsewhere hl hd fun _ hne => (node?_put (ne_nil_of_not_directory hd) _ _ _).trans (if_neg hne)

theorem erase (hl : t.locate p = .ok place) (hd : t.node? place ≠ some .directory) :
    Spares [p] t (t.erase place) :=
  of_elsewhere hl hd fun _ hne => (node?_erase (ne_nil_of_not_directory hd) _ _).trans (if_neg hne)

/-- Creating a file spares all others. -/
theorem createFile (h : t.createFile p = .ok t') : Spares [p] t t' := by
  obtain ⟨place, hl, hd, rfl⟩ := createFile_eq_ok_iff.mp h
  exact put hl hd _

/-- So does filling one. -/
theorem fillFile {content : Bytes} (h : t.fillFile p content = .ok t') : Spares [p] t t' := by
  obtain ⟨place, old, hl, hn, rfl⟩ := fillFile_eq_ok_iff.mp h
  exact put hl (not_directory_of_file hn) _

/-- So does removing one. -/
theorem removeFile (h : t.removeFile p = .ok t') : Spares [p] t t' := by
  obtain ⟨place, old, hl, hn, rfl⟩ := removeFile_eq_ok_iff.mp h
  exact erase hl (not_directory_of_file hn)

/-- Renaming a file spares all but that one and the one in the way. -/
theorem renameFile (h : t.renameFile p q = .ok t') : Spares [p, q] t t' := by
  obtain ⟨place, goal, content, hl, hg, hn, hd, rfl⟩ := renameFile_eq_ok_iff.mp h
  have hplace := not_directory_of_file hn
  intro elsewhere found hf hspared
  rw [node?_put (ne_nil_of_not_directory hd), if_neg, node?_erase (ne_nil_of_not_directory hplace),
    if_neg]
  · exact hf
  · rintro rfl
    rcases hspared with rfl | hspared
    · exact hplace hf
    · exact hspared p List.mem_cons_self hl
  · rintro rfl
    rcases hspared with rfl | hspared
    · exact hd hf
    · exact hspared q (List.mem_cons_of_mem _ List.mem_cons_self) hg

theorem refl (t : FileTree) : Spares [] t t := fun _ _ h _ => h

/-- Making directories spares everything. -/
theorem createDirectories (t : FileTree) (p : Path) : Spares [] t (t.createDirectories p).2 :=
  (Furnishes.createDirectories t p).spares

/-- A file to which none of the paths leads can be read as before. -/
theorem readFile {paths : List Path} (h : Spares paths t t') {content : Bytes}
    (hr : t.readFile q = .ok content)
    (hp : ∀ p ∈ paths, ∀ place, t.locate q = .ok place → t.locate p ≠ .ok place) :
    t'.readFile q = .ok content := by
  obtain ⟨place, hl, hn⟩ := readFile_eq_ok_iff.mp hr
  exact readFile_eq_ok_iff.mpr
    ⟨place, h.locate hl, h place _ hn (Or.inr fun p hmem => hp p hmem place hl)⟩

end Spares

/-- A file that was filled holds what it was filled with. -/
theorem readFile_of_fillFile {content : Bytes} (h : t.fillFile p content = .ok t') :
    t'.readFile p = .ok content := by
  have hspares := Spares.fillFile h
  obtain ⟨place, old, hl, hn, rfl⟩ := fillFile_eq_ok_iff.mp h
  refine readFile_eq_ok_iff.mpr ⟨place, hspares.locate hl, ?_⟩
  rw [node?_put (ne_nil_of_not_directory (not_directory_of_file hn)), if_pos rfl]

/-- A file that was moved holds what it held before. -/
theorem readFile_of_renameFile {content : Bytes} (hr : t.readFile p = .ok content)
    (h : t.renameFile p q = .ok t') : t'.readFile q = .ok content := by
  have hspares := Spares.renameFile h
  obtain ⟨place, goal, moved, hl, hg, hn, hd, rfl⟩ := renameFile_eq_ok_iff.mp h
  obtain ⟨place', hl', hn'⟩ := readFile_eq_ok_iff.mp hr
  obtain rfl := Except.ok.inj (hl.symm.trans hl')
  obtain rfl := Node.file.inj (Option.some.inj (hn.symm.trans hn'))
  refine readFile_eq_ok_iff.mpr ⟨goal, hspares.locate hg, ?_⟩
  rw [node?_put (ne_nil_of_not_directory hd), if_pos rfl]

end FileTree

end MacroAtlas
