import MacroAtlas.Blob.Backend
import MacroAtlas.Proofs.Blob.Durable
import MacroAtlas.Proofs.FileTree.Places

/-!
# The directory store loses nothing

The store in a directory is durable, wherever its root leads. Every step of a write keeps to two
names in the directory of the area, that of the temporary file and that of the blob, and only the
last step touches the second.
-/

namespace MacroAtlas

/-- The name of a blob is one name in its directory. -/
theorem FileName.plain (file : FileName) : Path.Plain file.text := by
  obtain ⟨text, hne, hdot, hdots, hslash, -, -, -⟩ := file
  refine ⟨?_, ?_, ?_, hslash⟩
  · rintro rfl
    exact hne rfl
  · rintro rfl
    exact hdot rfl
  · rintro rfl
    exact hdots rfl

/-- A name is told by its text. -/
theorem FileName.text_inj {file other : FileName} (h : file.text = other.text) : file = other := by
  cases file
  cases other
  cases h
  rfl

namespace DirectoryBlobs

/-- The name of a temporary file. -/
def temporaryName (s : DirectoryBlobs) (number : UInt64) : String :=
  s!"{String.ofList temporaryMark}{s.run}-{number}"

/-- Behind the mark stand the two numbers, with a dash between them. -/
theorem toList_temporaryName (s : DirectoryBlobs) (number : UInt64) :
    (s.temporaryName number).toList =
      temporaryMark ++ (Nat.toDigits 10 s.run.toNat ++ '-' :: Nat.toDigits 10 number.toNat) := by
  have htext : s.temporaryName number =
      String.ofList temporaryMark ++ s.run.toNat.repr ++ "-" ++ number.toNat.repr := rfl
  simp [htext, Nat.toList_repr]

/-- The name of a temporary file is one name in its directory, too. -/
theorem plain_temporaryName (s : DirectoryBlobs) (number : UInt64) :
    Path.Plain (s.temporaryName number) := by
  have htext := s.toList_temporaryName number
  have hmark : temporaryMark = ['.', 't', 'm', 'p', '-'] := by decide
  have hdigits : ∀ n, '/' ∉ Nat.toDigits 10 n := by
    intro n hmem
    have hdigit := Nat.isDigit_of_mem_toDigits (by decide) (by decide) hmem
    revert hdigit
    decide
  rw [hmark] at htext
  refine ⟨?_, ?_, ?_, ?_⟩
  · intro h
    rw [h] at htext
    cases htext
  · intro h
    rw [h] at htext
    simp at htext
  · intro h
    rw [h] at htext
    simp at htext
  · rw [htext]
    simp [hdigits, separator]

/-- It starts with the mark. -/
theorem mark_prefix_temporaryName (s : DirectoryBlobs) (number : UInt64) :
    temporaryMark <+: (s.temporaryName number).toList := by
  rw [toList_temporaryName]
  exact List.prefix_append _ _

/-- No blob has the name of a temporary file. -/
theorem temporaryName_ne (s : DirectoryBlobs) (number : UInt64) (file : FileName) :
    s.temporaryName number ≠ file.text := by
  intro h
  obtain ⟨-, -, -, -, -, -, hmark⟩ := file.allowed
  rw [← h] at hmark
  exact hmark (s.mark_prefix_temporaryName number)

/-- The blob under an area and a file. -/
def blob? (s : DirectoryBlobs) (area : String) (file : FileName) : Option Bytes :=
  (s.tree.readFile (s.blobPath area file)).toOption

variable {s s' : DirectoryBlobs} {area : String} {file other : FileName} {bytes blob : Bytes}

/-- The blob is what is read from its file. -/
theorem blob?_eq_some_iff :
    s.blob? area file = some blob ↔ s.tree.readFile (s.blobPath area file) = .ok blob := by
  unfold blob?
  cases s.tree.readFile (s.blobPath area file) with
  | error fault => simp [Except.toOption]
  | ok content => simp [Except.toOption]

/-- A reader that is answered is told the blob. -/
theorem read_eq {found : Option Bytes} (h : s.read area file = .ok found) :
    found = s.blob? area file := by
  unfold DirectoryBlobs.read at h
  unfold blob?
  simp only at h
  split at h
  · next content hread =>
      rw [hread]
      exact (Except.ok.inj h).symm
  · next hread =>
      rw [hread]
      exact (Except.ok.inj h).symm
  · cases h

/-- The root alone tells where an area is. -/
theorem directory_of_root_eq (hroot : s'.root = s.root) (area : String) :
    s'.directory area = s.directory area := by
  rw [directory, directory, hroot]

theorem blobPath_of_root_eq (hroot : s'.root = s.root) (area : String) (file : FileName) :
    s'.blobPath area file = s.blobPath area file := by
  rw [blobPath, blobPath, directory_of_root_eq hroot]

/-- The blobs are told by the root and the tree. -/
theorem blob?_of_tree_eq (hroot : s'.root = s.root) (htree : s'.tree = s.tree) (area : String)
    (file : FileName) : s'.blob? area file = s.blob? area file := by
  rw [blob?, blob?, blobPath_of_root_eq hroot, htree]

/-- What is done at other names in the directory of the area leaves a blob. -/
theorem keeps_of_spares (hb : s.blob? area other = some blob) (hroot : s'.root = s.root)
    (names : List String) (hn : ∀ name ∈ names, Path.Plain name ∧ name ≠ other.text)
    (h : FileTree.Spares (names.map (s.directory area).join) s.tree s'.tree) :
    s'.blob? area other = some blob := by
  rw [blob?_eq_some_iff] at hb ⊢
  rw [blobPath_of_root_eq hroot]
  refine h.readFile hb ?_
  intro p hp place hl
  obtain ⟨name, hmem, rfl⟩ := List.mem_map.mp hp
  obtain ⟨hplain, hne⟩ := hn name hmem
  exact FileTree.locate_join_ne other.plain hplain hne.symm hl

/-- What is done at a temporary file leaves every blob. -/
theorem keeps_of_spares_temporary (hb : s.blob? area other = some blob) (hroot : s'.root = s.root)
    {number : UInt64} (h : FileTree.Spares [s.temporaryPath area number] s.tree s'.tree) :
    s'.blob? area other = some blob := by
  refine keeps_of_spares hb hroot [s.temporaryName number] ?_ h
  intro name hname
  obtain rfl := List.mem_singleton.mp hname
  exact ⟨s.plain_temporaryName number, s.temporaryName_ne number other⟩

section Steps

variable {number : UInt64} {after : DirectoryBlobs}

/-- Making the directory leaves every blob. -/
theorem keeps_prepare (hb : s.blob? area other = some blob) {result : Except StoreFault Unit}
    (h : s.prepare area = (result, after)) : after.blob? area other = some blob := by
  have hspares := FileTree.Spares.createDirectories s.tree (s.directory area)
  have hnames : ∀ name ∈ ([] : List String), Path.Plain name ∧ name ≠ other.text :=
    fun name hname => absurd hname List.not_mem_nil
  unfold prepare at h
  simp only at h
  split at h
  · next tree hmade =>
      obtain ⟨-, rfl⟩ := Prod.mk.inj h
      rw [hmade] at hspares
      exact keeps_of_spares hb rfl [] hnames hspares
  · next fault tree hmade =>
      obtain ⟨-, rfl⟩ := Prod.mk.inj h
      rw [hmade] at hspares
      exact keeps_of_spares hb rfl [] hnames hspares

/-- So does creating the temporary file. -/
theorem keeps_stage (hb : s.blob? area other = some blob) {result : Except StoreFault UInt64}
    (h : s.stage area = (result, after)) : after.blob? area other = some blob := by
  unfold stage at h
  simp only at h
  split at h
  · next tree hmade =>
      obtain ⟨-, rfl⟩ := Prod.mk.inj h
      exact keeps_of_spares_temporary hb rfl (.createFile hmade)
  · obtain ⟨-, rfl⟩ := Prod.mk.inj h
    exact hb

/-- So does filling it. -/
theorem keeps_fill (hb : s.blob? area other = some blob) {result : Except StoreFault Unit}
    (h : s.fill area number bytes = (result, after)) : after.blob? area other = some blob := by
  unfold fill at h
  simp only at h
  split at h
  · next tree hfilled =>
      obtain ⟨-, rfl⟩ := Prod.mk.inj h
      exact keeps_of_spares_temporary hb rfl (.fillFile hfilled)
  · obtain ⟨-, rfl⟩ := Prod.mk.inj h
    exact hb

/-- So does discarding it. -/
theorem keeps_discard (hb : s.blob? area other = some blob) :
    (s.discard area number).blob? area other = some blob := by
  unfold discard
  split
  · next tree hremoved => exact keeps_of_spares_temporary hb rfl (.removeFile hremoved)
  · exact hb

/-- The last step of a write touches the blob that is written and no other. -/
theorem keeps_publish (hb : s.blob? area other = some blob) {result : Except StoreFault Unit}
    (h : s.publish area number file = (result, after))
    (hf : file = other → ∃ fault, result = .error fault) : after.blob? area other = some blob := by
  unfold publish at h
  simp only at h
  split at h
  · next tree hmoved =>
      obtain ⟨rfl, rfl⟩ := Prod.mk.inj h
      have hne : file.text ≠ other.text := by
        intro htext
        obtain ⟨fault, hfault⟩ := hf (FileName.text_inj htext)
        cases hfault
      refine keeps_of_spares hb rfl [s.temporaryName number, file.text] ?_ (.renameFile hmoved)
      intro name hname
      simp only [List.mem_cons, List.not_mem_nil, or_false] at hname
      rcases hname with rfl | rfl
      · exact ⟨s.plain_temporaryName number, s.temporaryName_ne number other⟩
      · exact ⟨file.plain, hne⟩
  · obtain ⟨-, rfl⟩ := Prod.mk.inj h
    exact hb

end Steps

/-- A removal leaves the blobs of other files. -/
theorem keeps_remove (hb : s.blob? area other = some blob) (hne : file ≠ other) :
    (s.remove area file).2.blob? area other = some blob := by
  unfold DirectoryBlobs.remove
  simp only
  split
  · next tree hremoved =>
      refine keeps_of_spares hb rfl [file.text] ?_ (.removeFile hremoved)
      intro name hname
      obtain rfl := List.mem_singleton.mp hname
      exact ⟨file.plain, fun htext => hne (FileName.text_inj htext)⟩
  · exact hb
  · exact hb

/-- What a write can come to: it stops at the first step that fails. -/
inductive Writes (s : DirectoryBlobs) (area : String) (file : FileName) (bytes : Bytes) :
    Except StoreFault Unit × DirectoryBlobs → Prop
  /-- There is no directory. -/
  | unprepared {fault : StoreFault} {after : DirectoryBlobs}
      (prepare : s.prepare area = (.error fault, after)) :
      Writes s area file bytes (.error fault, after)
  /-- There is no temporary file. -/
  | unstaged {fault : StoreFault} {prepared after : DirectoryBlobs}
      (prepare : s.prepare area = (.ok (), prepared))
      (stage : prepared.stage area = (.error fault, after)) :
      Writes s area file bytes (.error fault, after)
  /-- The temporary file was not filled. -/
  | unfilled {fault : StoreFault} {prepared staged after : DirectoryBlobs} {number : UInt64}
      (prepare : s.prepare area = (.ok (), prepared))
      (stage : prepared.stage area = (.ok number, staged))
      (fill : staged.fill area number bytes = (.error fault, after)) :
      Writes s area file bytes (.error fault, after)
  /-- The temporary file was not moved, and is discarded. -/
  | unpublished {fault : StoreFault} {prepared staged filled after : DirectoryBlobs} {number : UInt64}
      (prepare : s.prepare area = (.ok (), prepared))
      (stage : prepared.stage area = (.ok number, staged))
      (fill : staged.fill area number bytes = (.ok (), filled))
      (publish : filled.publish area number file = (.error fault, after)) :
      Writes s area file bytes (.error fault, after.discard area number)
  /-- All steps succeeded. -/
  | published {prepared staged filled after : DirectoryBlobs} {number : UInt64}
      (prepare : s.prepare area = (.ok (), prepared))
      (stage : prepared.stage area = (.ok number, staged))
      (fill : staged.fill area number bytes = (.ok (), filled))
      (publish : filled.publish area number file = (.ok (), after)) :
      Writes s area file bytes (.ok (), after)

/-- A write ends in one of these ways. -/
theorem writes_write (s : DirectoryBlobs) (area : String) (file : FileName) (bytes : Bytes) :
    Writes s area file bytes (s.write area file bytes) := by
  unfold DirectoryBlobs.write
  rcases hprepare : s.prepare area with ⟨fault | _, prepared⟩
  · exact .unprepared hprepare
  simp only
  rcases hstage : prepared.stage area with ⟨fault | number, staged⟩
  · exact .unstaged hprepare hstage
  simp only
  rcases hfill : staged.fill area number bytes with ⟨fault | _, filled⟩
  · exact .unfilled hprepare hstage hfill
  simp only
  rcases hpublish : filled.publish area number file with ⟨fault | _, after⟩
  · exact .unpublished hprepare hstage hfill hpublish
  · exact .published hprepare hstage hfill hpublish

/-- A write that fails leaves every blob, and any write leaves those of other files. -/
theorem keeps_write (hb : s.blob? area other = some blob)
    (hf : file = other → ∃ fault, (s.write area file bytes).1 = .error fault) :
    (s.write area file bytes).2.blob? area other = some blob := by
  have hwrites := s.writes_write area file bytes
  generalize s.write area file bytes = written at hf hwrites ⊢
  cases hwrites with
  | unprepared prepare => exact keeps_prepare hb prepare
  | unstaged prepare stage => exact keeps_stage (keeps_prepare hb prepare) stage
  | unfilled prepare stage fill =>
      exact keeps_fill (keeps_stage (keeps_prepare hb prepare) stage) fill
  | unpublished prepare stage fill publish =>
      have hfilled := keeps_fill (keeps_stage (keeps_prepare hb prepare) stage) fill
      have hkept := keeps_publish hfilled publish fun _ => ⟨_, rfl⟩
      simp only
      exact keeps_discard hkept
  | published prepare stage fill publish =>
      have hfilled := keeps_fill (keeps_stage (keeps_prepare hb prepare) stage) fill
      exact keeps_publish hfilled publish hf

/-- What was filled in is the blob once it is published. -/
theorem blob?_publish {number : UInt64} {filled published : DirectoryBlobs}
    (hfill : s.fill area number bytes = (.ok (), filled))
    (hpublish : filled.publish area number file = (.ok (), published)) :
    published.blob? area file = some bytes := by
  unfold fill at hfill
  simp only at hfill
  split at hfill
  · next tree htree =>
      obtain ⟨-, rfl⟩ := Prod.mk.inj hfill
      have hread := FileTree.readFile_of_fillFile htree
      unfold publish at hpublish
      simp only at hpublish
      split at hpublish
      · next moved hmoved =>
          obtain ⟨-, rfl⟩ := Prod.mk.inj hpublish
          exact blob?_eq_some_iff.mpr (FileTree.readFile_of_renameFile hread hmoved)
      · cases hpublish
  · cases hfill

/-- A write that succeeds leaves its bytes as the blob. -/
theorem blob?_write (h : (s.write area file bytes).1 = .ok ()) :
    (s.write area file bytes).2.blob? area file = some bytes := by
  have hwrites := s.writes_write area file bytes
  generalize s.write area file bytes = written at h hwrites ⊢
  cases hwrites with
  | published prepare stage fill publish => exact blob?_publish fill publish
  | unprepared => cases h
  | unstaged => cases h
  | unfilled => cases h
  | unpublished => cases h

instance : DurableBlobStore DirectoryBlobs where
  blob? := blob?
  read_eq_blob? h := read_eq h
  blob?_read _ _ _ _ := rfl
  blob?_write h := blob?_write h
  keeps_write hb hf := keeps_write hb hf
  keeps_remove hb hne := keeps_remove hb hne

end DirectoryBlobs

namespace Backend

/-- The blob under an area and a file. -/
def blob? : Backend → String → FileName → Option Bytes
  | .memory blobs _ => blobs.blob?
  | .directory blobs => blobs.blob?

open DurableBlobStore in
instance : DurableBlobStore Backend where
  blob? := blob?
  read_eq_blob? {s area file found} h := by
    cases s with
    | memory blobs tree => exact read_eq_blob? (s := blobs) h
    | directory blobs => exact read_eq_blob? (s := blobs) h
  blob?_read s area file other := by
    cases s with
    | memory blobs tree => exact blob?_read blobs area file other
    | directory blobs => exact blob?_read blobs area file other
  blob?_write {s area file bytes} h := by
    cases s with
    | memory blobs tree => exact blob?_write (s := blobs) h
    | directory blobs => exact blob?_write (s := blobs) h
  keeps_write {s area file bytes other blob} hb hf := by
    cases s with
    | memory blobs tree => exact keeps_write (s := blobs) hb hf
    | directory blobs => exact keeps_write (s := blobs) hb hf
  keeps_remove {s area file other blob} hb hne := by
    cases s with
    | memory blobs tree => exact keeps_remove (s := blobs) hb hne
    | directory blobs => exact keeps_remove (s := blobs) hb hne

end Backend

end MacroAtlas
