import Mathlib.Data.List.Nodup
import MacroAtlas.Proofs.Blob.Directory

/-!
# What a directory store lists and removes

The store in a directory lists exactly the files that have a blob, each once, whatever else is
there. A removal takes away no other blob and brings none to light: what can be reached without it
could be reached with it.
-/

namespace MacroAtlas

namespace Path

/-- A plain name is joined behind the text of the path. -/
theorem text_join {name : String} (h : Plain name) (p : Path) :
    (p.join name).text = joinText p.text name := by
  rw [join_eq h, text, text, List.foldl_append]
  rfl

/-- A path that can be prolonged by a name has no fault itself. -/
theorem fault?_of_join {name : String} (h : Plain name) {p : Path}
    (hf : (p.join name).fault? = none) : p.fault? = none := by
  have hjoined : ∃ rest : String, (p.join name).text = p.text ++ rest := by
    rw [text_join h, joinText]
    split
    · exact ⟨name, rfl⟩
    · exact ⟨separator.toString ++ name, by rw [String.append_assoc]⟩
  obtain ⟨rest, htext⟩ := hjoined
  unfold fault? at hf ⊢
  rw [htext, String.toList_append, String.utf8ByteSize_append] at hf
  split at hf
  · cases hf
  · next hzero =>
      split at hf
      · cases hf
      · next hlong =>
          rw [if_neg fun hmem => hzero (List.mem_append_left _ hmem), if_neg (by omega)]

end Path

namespace FileTree

variable {t : FileTree} {place : List String} {p : Path} {name : String}

/-- A tree without one of its nodes has no other nodes than before. -/
theorem Spares.of_erase (hp : place ≠ []) (t : FileTree) : Spares [] (t.erase place) t := by
  intro elsewhere node hn _
  rw [node?_erase hp] at hn
  split at hn
  · cases hn
  · exact hn

/-- What a plain name leads to is right below what the path in front of it leads to. -/
theorem locate_of_locate_join (hn : Path.Plain name) (hv : p.isVoid = false)
    (h : t.locate (p.join name) = .ok place) :
    ∃ dir, t.locate p = .ok dir ∧ t.node? dir = some .directory ∧ place = dir ++ [name] := by
  have hfault : (p.join name).fault? = none := by
    unfold locate at h
    split at h
    · cases h
    · assumption
  have hfrom := locateFrom_of_locate h
  rw [Path.names_join hn, Path.join_eq hn] at hfrom
  obtain ⟨dir, hdir, hfollow⟩ := locateFrom_append.mp hfrom
  refine ⟨dir, ?_, node?_of_follow hfollow, eq_of_follow_plain hn hfollow⟩
  unfold locate
  rw [Path.fault?_of_join hn hfault]
  simp only [hv, Bool.false_eq_true, ite_false]
  exact hdir

/-- What is found is what stands where the path leads. -/
theorem lookup_eq_ok_iff {node : Node} : t.lookup p = .ok node ↔
    ∃ place, t.locate p = .ok place ∧ t.node? place = some node := by
  unfold lookup
  simp only [bind, Except.bind, pure, Except.pure, throw, throwThe, MonadExceptOf.throw]
  cases hl : t.locate p with
  | error fault => simp
  | ok place =>
      cases hn : t.node? place with
      | none => simp [hn]
      | some found => simp [hn]

/-- A file is what can be read. -/
theorem isFile_iff : t.isFile p = true ↔ ∃ content, t.readFile p = .ok content := by
  unfold isFile
  simp only [readFile_eq_ok_iff]
  cases hl : t.lookup p with
  | error fault =>
      simp only [Bool.false_eq_true, false_iff]
      rintro ⟨content, place, hplace⟩
      rw [lookup_eq_ok_iff.mpr ⟨place, hplace⟩] at hl
      cases hl
  | ok node =>
      obtain ⟨place, hlocate, hnode⟩ := lookup_eq_ok_iff.mp hl
      cases node with
      | directory => simp [hlocate, hnode]
      | file content => simp [hlocate, hnode]

/-- The names in a directory are those under which anything stands. -/
theorem mem_namesAt : name ∈ t.namesAt place ↔ ∃ node, t.node? (place ++ [name]) = some node := by
  have hnode : t.node? (place ++ [name]) = t.nodes[place ++ [name]]? := by
    cases place <;> rfl
  rw [hnode, namesAt, List.mem_filterMap]
  constructor
  · rintro ⟨⟨elsewhere, node⟩, hmem, hname⟩
    rw [Std.ExtTreeMap.mem_toList_iff_getElem?_eq_some] at hmem
    simp only at hname
    split at hname
    · next hplace =>
        have hlast := List.dropLast_append_getLast? name (Option.mem_def.mpr hname)
        rw [hplace] at hlast
        exact ⟨node, hlast ▸ hmem⟩
    · cases hname
  · rintro ⟨node, hmem⟩
    refine ⟨(place ++ [name], node), Std.ExtTreeMap.mem_toList_iff_getElem?_eq_some.mpr hmem, ?_⟩
    simp

/-- No name stands twice in a directory. -/
theorem nodup_namesAt (t : FileTree) (place : List String) : (t.namesAt place).Nodup := by
  rw [List.Nodup, namesAt, List.pairwise_filterMap]
  refine t.nodes.distinct_keys_toList.imp fun {a b} hab x hx y hy hxy => hab ?_
  rw [Std.LawfulEqCmp.compare_eq_iff_eq]
  obtain rfl := hxy
  split at hx
  · next ha =>
      split at hy
      · next hb =>
          have hlast := List.dropLast_append_getLast? x (Option.mem_def.mpr hx)
          have hlast' := List.dropLast_append_getLast? x (Option.mem_def.mpr hy)
          rw [← hlast, ← hlast', ha, hb]
      · cases hy
  · cases hx

/-- The names in a directory are listed unless a file stands there or nothing does. -/
theorem readDirectory_eq_ok_iff {names : List String} : t.readDirectory p = .ok names ↔
    ∃ place, t.locate p = .ok place ∧ t.node? place = some .directory ∧
      names = t.namesAt place := by
  unfold readDirectory
  simp only [bind, Except.bind, pure, Except.pure, throw, throwThe, MonadExceptOf.throw]
  cases hl : t.locate p with
  | error fault => simp
  | ok place =>
      cases hn : t.node? place with
      | none => simp [hn]
      | some node => cases node <;> simp [hn, eq_comm]

/-- A file that can be read can be removed. -/
theorem exists_removeFile {content : Bytes} (h : t.readFile p = .ok content) :
    ∃ t', t.removeFile p = .ok t' := by
  obtain ⟨place, hlocate, hnode⟩ := readFile_eq_ok_iff.mp h
  exact ⟨_, removeFile_eq_ok_iff.mpr ⟨place, content, hlocate, hnode, rfl⟩⟩

end FileTree

namespace DirectoryBlobs

variable {s : DirectoryBlobs} {area : String} {file : FileName} {blob : Bytes}
  {names : List FileName}

/-- A blob can be read. -/
theorem read_of_blob? (h : s.blob? area file = some blob) :
    s.read area file = .ok (some blob) := by
  unfold DirectoryBlobs.read
  simp only [blob?_eq_some_iff.mp h]

/-- A blob that is there is removed. -/
theorem remove_of_blob? (h : s.blob? area file = some blob) :
    (s.remove area file).1 = .ok true := by
  obtain ⟨tree, hremoved⟩ := FileTree.exists_removeFile (blob?_eq_some_iff.mp h)
  unfold DirectoryBlobs.remove
  simp only [hremoved]

/-- A removal takes the file of the blob away or does nothing. -/
theorem remove_eq (s : DirectoryBlobs) (area : String) (file : FileName) :
    (s.remove area file).2 = s ∧ s.blob? area file = none ∨
      ∃ place, s.tree.locate (s.blobPath area file) = .ok place ∧ place ≠ [] ∧
        (s.remove area file).2 = { s with tree := s.tree.erase place } := by
  cases hr : s.tree.removeFile (s.blobPath area file) with
  | ok tree =>
      obtain ⟨place, old, hlocate, hnode, rfl⟩ := FileTree.removeFile_eq_ok_iff.mp hr
      refine Or.inr ⟨place, hlocate,
        FileTree.ne_nil_of_not_directory (FileTree.not_directory_of_file hnode), ?_⟩
      unfold DirectoryBlobs.remove
      simp only [hr]
  | error fault =>
      refine Or.inl ⟨?_, ?_⟩
      · unfold DirectoryBlobs.remove
        cases fault <;> simp only [hr]
      · rw [Option.eq_none_iff_forall_ne_some]
        intro blob hb
        obtain ⟨tree, hremoved⟩ := FileTree.exists_removeFile (blob?_eq_some_iff.mp hb)
        rw [hremoved] at hr
        cases hr

/-- Nothing changes in a removal but the tree. -/
theorem remove_snd (s : DirectoryBlobs) (area : String) (file : FileName) :
    (s.remove area file).2 = { s with tree := (s.remove area file).2.tree } := by
  obtain ⟨hsame, -⟩ | ⟨place, -, -, herased⟩ := s.remove_eq area file
  · rw [hsame]
  · rw [herased]

/-- A removal leaves the root. -/
theorem root_remove (s : DirectoryBlobs) (area : String) (file : FileName) :
    (s.remove area file).2.root = s.root := by
  rw [remove_snd]

/-- What can be reached after a removal could be reached before. -/
theorem spares_remove (s : DirectoryBlobs) (area : String) (file : FileName) :
    FileTree.Spares [] (s.remove area file).2.tree s.tree := by
  obtain ⟨hsame, -⟩ | ⟨place, -, hne, herased⟩ := s.remove_eq area file
  · rw [hsame]
    exact .refl s.tree
  · rw [herased]
    exact .of_erase hne s.tree

/-- A removal takes away the one blob, and no other blob comes or goes. -/
theorem blob?_remove (s : DirectoryBlobs) (area : String) (file other : FileName) :
    (s.remove area file).2.blob? area other =
      if file = other then none else s.blob? area other := by
  have hbefore : ∀ blob, (s.remove area file).2.blob? area other = some blob →
      s.blob? area other = some blob := by
    intro blob hb
    exact keeps_of_spares hb (root_remove s area file).symm [] (by simp)
      (s.spares_remove area file)
  split
  · next hsame =>
      subst hsame
      rw [Option.eq_none_iff_forall_ne_some]
      intro blob hb
      obtain ⟨hleft, hnone⟩ | ⟨place, hlocate, hne, herased⟩ := s.remove_eq area file
      · rw [hleft, hnone] at hb
        cases hb
      · -- The path still leads to the place of the file, where nothing is left.
        rw [herased, blob?_eq_some_iff, FileTree.readFile_eq_ok_iff] at hb
        obtain ⟨elsewhere, hl, hn⟩ := hb
        have hl' := (FileTree.Spares.of_erase hne s.tree).locate hl
        obtain rfl := Except.ok.inj (hlocate.symm.trans hl')
        rw [FileTree.node?_erase hne, if_pos rfl] at hn
        cases hn
  · next hother =>
      cases hb : s.blob? area other with
      | some blob => exact keeps_remove hb hother
      | none =>
          rw [Option.eq_none_iff_forall_ne_some]
          intro blob hafter
          rw [hbefore blob hafter] at hb
          cases hb

/-- The path of an area with a name has a text. -/
theorem isVoid_directory (ha : area ≠ "") (s : DirectoryBlobs) :
    (s.directory area).isVoid = false := by
  have hempty : area.isEmpty = false := by simpa using ha
  unfold directory Path.join
  split
  · simp [Path.isVoid, hempty]
  · simp [Path.isVoid, hempty]

/-- The listing of an area fails just when a file stands in its place. -/
theorem exists_files_iff :
    (∃ names, s.files area = .ok names) ↔ s.tree.isFile (s.directory area) = false := by
  unfold DirectoryBlobs.files FileTree.holds FileTree.isFile FileTree.readDirectory
  simp only [bind, Except.bind, pure, Except.pure, throw, throwThe, MonadExceptOf.throw]
  cases hl : s.tree.lookup (s.directory area) with
  | error fault => simp [Except.isOk, Except.toBool]
  | ok node =>
      obtain ⟨place, hlocate, hnode⟩ := FileTree.lookup_eq_ok_iff.mp hl
      cases node with
      | directory => simp [hlocate, hnode, Except.isOk, Except.toBool]
      | file content => simp [hlocate, hnode, Except.isOk, Except.toBool]

/-- What could be listed before a removal can be listed after it. -/
theorem exists_files_remove (h : ∃ names, s.files area = .ok names) (file : FileName) :
    ∃ names, (s.remove area file).2.files area = .ok names := by
  rw [exists_files_iff, ← Bool.not_eq_true, FileTree.isFile_iff] at h ⊢
  rintro ⟨content, hread⟩
  rw [directory_of_root_eq (root_remove s area file)] at hread
  exact h ⟨content, (s.spares_remove area file).readFile hread (by simp)⟩

/-- A blob is in the directory of its area. -/
theorem directory_of_blob? (hv : (s.directory area).isVoid = false)
    (h : s.blob? area file = some blob) :
    ∃ place, s.tree.locate (s.directory area) = .ok place ∧
      s.tree.node? place = some .directory ∧ file.text ∈ s.tree.namesAt place := by
  obtain ⟨inside, hlocate, hnode⟩ := FileTree.readFile_eq_ok_iff.mp (blob?_eq_some_iff.mp h)
  obtain ⟨place, hplace, hdirectory, rfl⟩ :=
    FileTree.locate_of_locate_join file.plain hv hlocate
  exact ⟨place, hplace, hdirectory, FileTree.mem_namesAt.mpr ⟨_, hnode⟩⟩

/-- The listing of an area, unless it is empty because there is no directory, is made from the names
in the directory. -/
theorem files_eq (h : s.files area = .ok names) :
    names = [] ∧ s.tree.holds (s.directory area) = false ∨
      ∃ place, s.tree.locate (s.directory area) = .ok place ∧
        names = ((((s.tree.namesAt place).filter fun name =>
          s.tree.isFile ((s.directory area).join name)).filterMap FileName.ofText?).mergeSort
            FileName.le) := by
  unfold DirectoryBlobs.files at h
  simp only at h
  split at h
  · split at h
    · cases h
    · next found hfound =>
        obtain ⟨place, hlocate, -, rfl⟩ := FileTree.readDirectory_eq_ok_iff.mp hfound
        exact Or.inr ⟨place, hlocate, (Except.ok.inj h).symm⟩
  · next hnothing => exact Or.inl ⟨(Except.ok.inj h).symm, Bool.not_eq_true _ ▸ hnothing⟩

/-- The files of an area are those with a blob, if a path leads to the area. -/
theorem mem_files_of_not_void (hv : (s.directory area).isVoid = false)
    (h : s.files area = .ok names) :
    file ∈ names ↔ (s.blob? area file).isSome := by
  rw [Option.isSome_iff_exists]
  obtain ⟨rfl, hnothing⟩ | ⟨place, hlocate, rfl⟩ := files_eq h
  · refine ⟨fun hmem => absurd hmem List.not_mem_nil, ?_⟩
    rintro ⟨blob, hb⟩
    obtain ⟨place, hlocate, hnode, -⟩ := directory_of_blob? hv hb
    have hlookup := FileTree.lookup_eq_ok_iff.mpr ⟨place, hlocate, hnode⟩
    rw [FileTree.holds, hlookup] at hnothing
    cases hnothing
  · rw [List.mem_mergeSort, List.mem_filterMap]
    constructor
    · rintro ⟨name, hname, hfile⟩
      obtain rfl := FileName.ofText?_eq_some_iff.mp hfile
      obtain ⟨blob, hread⟩ := FileTree.isFile_iff.mp (List.mem_filter.mp hname).2
      exact ⟨blob, blob?_eq_some_iff.mpr hread⟩
    · rintro ⟨blob, hb⟩
      obtain ⟨place', hlocate', -, hmem⟩ := directory_of_blob? hv hb
      obtain rfl := Except.ok.inj (hlocate.symm.trans hlocate')
      exact ⟨file.text, List.mem_filter.mpr ⟨hmem, FileTree.isFile_iff.mpr
        ⟨blob, blob?_eq_some_iff.mp hb⟩⟩, FileName.ofText?_eq_some_iff.mpr rfl⟩

/-- The files of an area are those with a blob. -/
theorem mem_files (ha : area ≠ "") (h : s.files area = .ok names) :
    file ∈ names ↔ (s.blob? area file).isSome :=
  mem_files_of_not_void (isVoid_directory ha s) h

/-- Every file is listed once. -/
theorem nodup_files (h : s.files area = .ok names) : names.Nodup := by
  obtain ⟨rfl, -⟩ | ⟨place, -, rfl⟩ := files_eq h
  · exact List.nodup_nil
  · rw [(List.mergeSort_perm _ _).nodup_iff]
    refine List.Nodup.filterMap ?_ ((s.tree.nodup_namesAt place).filter _)
    intro name other file hname hother
    rw [Option.mem_def, FileName.ofText?_eq_some_iff] at hname hother
    rw [hname, hother]

/-- The files are listed in the order of their names. -/
theorem ordered_files (h : s.files area = .ok names) : names.Pairwise (·.text < ·.text) := by
  obtain ⟨rfl, -⟩ | ⟨place, -, rfl⟩ := files_eq h
  · exact List.Pairwise.nil
  · have hsorted := List.pairwise_mergeSort FileName.le_trans FileName.le_total
      (((s.tree.namesAt place).filter fun name =>
        s.tree.isFile ((s.directory area).join name)).filterMap FileName.ofText?)
    refine (hsorted.and (nodup_files h)).imp fun {a b} ⟨hle, hne⟩ => ?_
    rcases Ordering.isLE_iff_eq_lt_or_eq_eq.mp hle with hlt | heq
    · exact compareOfLessAndEq_eq_lt.mp hlt
    · exact absurd (Std.LawfulEqOrd.eq_of_compare heq) hne

/-- The files are those with a blob under the area, each of them once. -/
structure Enumerates (s : DirectoryBlobs) (area : String) (files : List FileName) : Prop where
  /-- No file stands there twice. -/
  nodup : files.Nodup
  /-- The files are those with a blob. -/
  mem_iff : ∀ file, file ∈ files ↔ (s.blob? area file).isSome

/-- The listing of an area has each file with a blob once. -/
theorem enumerates_files (ha : area ≠ "") (h : s.files area = .ok names) :
    s.Enumerates area names :=
  ⟨nodup_files h, fun _ => mem_files ha h⟩

end DirectoryBlobs

end MacroAtlas
