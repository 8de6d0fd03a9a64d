import Mathlib.Data.List.Sort
import MacroAtlas.Proofs.Blob.Housing
import MacroAtlas.Proofs.Blob.Memory

/-!
# A directory store is as good as memory

A store in a directory answers every call as one in memory does, as long as the names are such as
every file system takes and nothing is in the way. It mirrors the store in memory when both have the
same blobs, and each call keeps it so.
-/

namespace MacroAtlas

/-- A call to a blob store. -/
inductive BlobCall where
  /-- Reads a blob. -/
  | read (area : String) (file : FileName)
  /-- Puts a blob in the place of another. -/
  | write (area : String) (file : FileName) (bytes : Bytes)
  /-- Removes a blob. -/
  | remove (area : String) (file : FileName)
  /-- Lists the files with a blob. -/
  | files (area : String)

/-- What a blob store answers. -/
inductive BlobAnswer where
  /-- The blob asked for. -/
  | blob (bytes : Option Bytes)
  /-- The blob is written. -/
  | written
  /-- Whether there was a blob to remove. -/
  | removed (found : Bool)
  /-- The files with a blob. -/
  | files (files : List FileName)
  deriving DecidableEq

namespace BlobCall

/-- The area of a call. -/
def area : BlobCall → String
  | .read area _ => area
  | .write area _ _ => area
  | .remove area _ => area
  | .files area => area

/-- The file of a call, if it is about one. -/
def file? : BlobCall → Option FileName
  | .read _ file => some file
  | .write _ file _ => some file
  | .remove _ file => some file
  | .files _ => none

variable {σ : Type} [BlobStore σ]

/-- Serves a call. -/
def serve (s : σ) : BlobCall → Except StoreFault BlobAnswer × σ
  | .read area file => (BlobStore.read s area file).map (·.map .blob) id
  | .write area file bytes => (BlobStore.write s area file bytes).map (·.map fun _ => .written) id
  | .remove area file => (BlobStore.remove s area file).map (·.map .removed) id
  | .files area => ((BlobStore.files s area).map .files, s)

/-- The answers to some calls, one after the other. -/
def answers (s : σ) : List BlobCall → List (Except StoreFault BlobAnswer)
  | [] => []
  | call :: rest => (serve s call).1 :: answers (serve s call).2 rest

/-- Every file system takes the names in the call. -/
structure Fits (call : BlobCall) : Prop where
  /-- The area has an ordinary name. -/
  area_ordinary : Path.Ordinary call.area
  /-- The name of the file is not too long. -/
  file_short : ∀ file ∈ call.file?, file.text.utf8ByteSize ≤ FileTree.nameLimit

instance (call : BlobCall) : Decidable call.Fits :=
  decidable_of_iff (Path.Ordinary call.area ∧
      ∀ file ∈ call.file?, file.text.utf8ByteSize ≤ FileTree.nameLimit)
    ⟨fun h => ⟨h.1, h.2⟩, fun h => ⟨h.area_ordinary, h.file_short⟩⟩

end BlobCall

/-- A name of a file that is not too long is ordinary. -/
theorem FileName.ordinary {file : FileName} (h : file.text.utf8ByteSize ≤ FileTree.nameLimit) :
    Path.Ordinary file.text := by
  obtain ⟨-, -, -, -, -, hzero, -⟩ := file.allowed
  exact ⟨file.plain, h, hzero⟩

namespace DirectoryBlobs

open FileTree

variable {s : DirectoryBlobs} {base place : List String} {area name : String} {file : FileName}
  {number : UInt64} {bytes : Bytes}

namespace Housed

section Steps

variable (h : s.Housed base) (ha : Path.Ordinary area)

include h ha

/-- A temporary file can be created where the directory is. -/
theorem stage_of_locate
    (hl : s.tree.locate (s.temporaryPath area s.nextTemporary) =
      .ok (base ++ [area, s.temporaryName s.nextTemporary])) :
    ∃ staged, s.stage area = (.ok s.nextTemporary, staged) ∧ Becomes s staged base
      (replace (s.inside? base) area (s.temporaryName s.nextTemporary) (some (.file []))) := by
  have hd := h.temporary_not_directory area _ ha (s.mark_prefix_temporaryName s.nextTemporary)
  have hok : (s.stage area).1 = .ok s.nextTemporary := by
    unfold DirectoryBlobs.stage
    simp only [createFile_eq_ok_iff.mpr ⟨_, hl, hd, rfl⟩]
  rcases h.stage ha with ⟨⟨fault, hfault⟩, -⟩ | ⟨-, hstaged⟩
  · rw [hok] at hfault
    cases hfault
  · rcases hs : s.stage area with ⟨result, staged⟩
    rw [hs] at hok hstaged
    obtain rfl : result = .ok s.nextTemporary := hok
    exact ⟨staged, rfl, hstaged⟩

/-- A temporary file that is there can be filled. -/
theorem fill_of_locate {old : Bytes}
    (hl : s.tree.locate (s.temporaryPath area number) =
      .ok (base ++ [area, s.temporaryName number]))
    (hn : s.inside? base area (s.temporaryName number) = some (.file old)) (bytes : Bytes) :
    ∃ filled, s.fill area number bytes = (.ok (), filled) ∧ Becomes s filled base
      (replace (s.inside? base) area (s.temporaryName number) (some (.file bytes))) := by
  have hok : (s.fill area number bytes).1 = .ok () := by
    unfold DirectoryBlobs.fill
    simp only [fillFile_eq_ok_iff.mpr ⟨_, old, hl, hn, rfl⟩]
  rcases h.fill ha number bytes with ⟨fault, hfault⟩ | ⟨-, hfilled⟩
  · rw [hfault] at hok
    cases hok
  · rcases hs : s.fill area number bytes with ⟨result, filled⟩
    rw [hs] at hok hfilled
    obtain rfl : result = .ok () := hok
    exact ⟨filled, rfl, hfilled⟩

/-- A temporary file that is there can be renamed, unless there is a directory in the way. -/
theorem publish_of_locate
    (hl : s.tree.locate (s.temporaryPath area number) =
      .ok (base ++ [area, s.temporaryName number]))
    (hn : s.inside? base area (s.temporaryName number) = some (.file bytes))
    (hg : s.tree.locate (s.blobPath area file) = .ok (base ++ [area, file.text]))
    (hd : s.inside? base area file.text ≠ some .directory) :
    ∃ after, s.publish area number file = (.ok (), after) ∧ Becomes s after base
      (replace (replace (s.inside? base) area (s.temporaryName number) none) area file.text
        (some (.file bytes))) := by
  have hok : (s.publish area number file).1 = .ok () := by
    unfold DirectoryBlobs.publish
    simp only [renameFile_eq_ok_iff.mpr ⟨_, _, bytes, hl, hg, hn, hd, rfl⟩]
  rcases h.publish ha number file with ⟨fault, hfault⟩ | ⟨-, moved, hmoved, hafter⟩
  · rw [hfault] at hok
    cases hok
  · obtain rfl := Node.file.inj (Option.some.inj (hn.symm.trans hmoved))
    rcases hs : s.publish area number file with ⟨result, after⟩
    rw [hs] at hok hafter
    obtain rfl : result = .ok () := hok
    exact ⟨after, rfl, hafter⟩

end Steps

section Calls

variable (h : s.Housed base) (hroom : s.root.HasRoom 2)

include hroom

/-- A path into an area is followed to its directory and one name further. -/
theorem locate_inside (ha : Path.Ordinary area) (hn : Path.Ordinary name) :
    s.tree.locate ((s.directory area).join name) =
      match s.tree.locateFrom s.root.start (s.root.names ++ [area]) with
      | .error fault => .error fault
      | .ok dir => s.tree.follow dir name := by
  have hfault := ((hroom.join ha).join hn).fault?_eq_none
  have hstart : ((s.root.join area).join name).start = s.root.start := by
    rw [Path.join_eq hn.toPlain, Path.join_eq ha.toPlain]
  rw [directory, FileTree.locate, hfault, hstart, Path.names_join hn.toPlain,
    Path.names_join ha.toPlain, locateFrom_concat]
  exact if_neg (by simp [Path.isVoid_join hn.toPlain])

/-- Where the directory of an area is, paths lead into it. -/
theorem locate_of_directory (ha : Path.Ordinary area)
    (hl : s.tree.locateFrom s.root.start (s.root.names ++ [area]) = .ok (base ++ [area]))
    (hd : s.tree.node? (base ++ [area]) = some .directory) (hn : Path.Ordinary name) :
    s.tree.locate ((s.directory area).join name) = .ok (base ++ [area, name]) := by
  rw [locate_inside hroom ha hn, hl]
  simp only [follow_of_ordinary hn hd]
  rw [List.append_assoc]
  rfl

include h

/-- A path into an area leads to its place, or nowhere as long as there is no directory. -/
theorem locate_eq (ha : Path.Ordinary area) (hn : Path.Ordinary name) :
    s.tree.locate ((s.directory area).join name) = .ok (base ++ [area, name]) ∨
      s.tree.locate ((s.directory area).join name) = .error .notFound := by
  have hopens : s.tree.Opens s.root.start (s.root.names ++ [area]) (base ++ [area]) :=
    .beneath h.opens ha fun content => h.area_not_file area content ha
  rcases hopens.locateFrom_eq with hplace | hmissing
  · cases hnode : s.tree.node? (base ++ [area]) with
    | none =>
        rw [locate_inside hroom ha hn, hplace]
        exact Or.inr (follow_of_missing hnode)
    | some node =>
        cases node with
        | directory => exact Or.inl (locate_of_directory hroom ha hplace hnode hn)
        | file content => exact absurd hnode (h.area_not_file area content ha)
  · rw [locate_inside hroom ha hn, hmissing]
    exact Or.inr rfl

/-- Where there is neither a blob nor a directory, nothing is found. -/
theorem lookup_of_blob?_eq_none (ha : Path.Ordinary area)
    (hf : file.text.utf8ByteSize ≤ nameLimit) (hd : s.inside? base area file.text ≠ some .directory)
    (hb : s.blob? area file = none) :
    s.tree.locate (s.blobPath area file) = .error .notFound ∨
      ∃ place, s.tree.locate (s.blobPath area file) = .ok place ∧ s.tree.node? place = none := by
  rw [h.blob?_eq ha] at hb
  rcases h.locate_eq hroom ha (FileName.ordinary hf) with hl | hl
  · refine Or.inr ⟨_, hl, ?_⟩
    rw [inside?] at hb hd
    cases hn : s.tree.node? (base ++ [area, file.text]) with
    | none => rfl
    | some node =>
        cases node with
        | directory => exact absurd hn hd
        | file content => simp [hn, Node.content?] at hb
  · exact Or.inl hl

/-- A reader is told the blob. -/
theorem read_eq (ha : Path.Ordinary area) (hf : file.text.utf8ByteSize ≤ nameLimit)
    (hd : s.inside? base area file.text ≠ some .directory) :
    s.read area file = .ok (s.blob? area file) := by
  cases hb : s.blob? area file with
  | some blob => exact read_of_blob? hb
  | none =>
      have hmissing : s.tree.readFile (s.blobPath area file) = .error .notFound := by
        rcases h.lookup_of_blob?_eq_none hroom ha hf hd hb with hl | ⟨place, hl, hn⟩
        · simp [readFile, lookup, hl, bind, Except.bind]
        · simp [readFile, lookup, hl, hn, bind, Except.bind, throw, throwThe, MonadExceptOf.throw]
      unfold DirectoryBlobs.read
      simp only [hmissing]

/-- A removal tells whether there was a blob. -/
theorem remove_eq (ha : Path.Ordinary area) (hf : file.text.utf8ByteSize ≤ nameLimit)
    (hd : s.inside? base area file.text ≠ some .directory) :
    (s.remove area file).1 = .ok (s.blob? area file).isSome := by
  cases hb : s.blob? area file with
  | some blob => exact remove_of_blob? hb
  | none =>
      have hmissing : s.tree.removeFile (s.blobPath area file) = .error .notFound := by
        rcases h.lookup_of_blob?_eq_none hroom ha hf hd hb with hl | ⟨place, hl, hn⟩
        · simp [removeFile, hl, bind, Except.bind]
        · simp [removeFile, hl, hn, bind, Except.bind, throw, throwThe, MonadExceptOf.throw]
      unfold DirectoryBlobs.remove
      simp only [hmissing]
      rfl

/-- Every step of a write succeeds, and the temporary file is gone in the end. -/
theorem write_eq (ha : Path.Ordinary area) (hf : file.text.utf8ByteSize ≤ nameLimit)
    (hd : s.inside? base area file.text ≠ some .directory) (bytes : Bytes) :
    (s.write area file bytes).1 = .ok () ∧ Becomes s (s.write area file bytes).2 base
      (replace (replace (s.inside? base) area (s.temporaryName s.nextTemporary) none) area file.text
        (some (.file bytes))) := by
  obtain ⟨tree, hprepare, -, hl, hdirectory⟩ :=
    h.prepare_of_room ha (hroom.join ha).fault?_eq_none
  have hprepared := h.prepare ha
  rw [hprepare] at hprepared
  have hlead : ∀ {name}, Path.Ordinary name →
      tree.locate ((s.directory area).join name) = .ok (base ++ [area, name]) := fun hn =>
    locate_of_directory (s := { s with tree }) hroom ha hl hdirectory hn
  obtain ⟨staged, hstage, hstaged⟩ :=
    hprepared.housed.stage_of_locate ha (hlead (s.ordinary_temporaryName s.nextTemporary))
  have htemporary : staged.inside? base area (staged.temporaryName s.nextTemporary) =
      some (.file []) := by
    rw [hstaged.inside?_eq, hstaged.temporaryName_eq]
    exact replace_self _
  obtain ⟨filled, hfill, hfilled⟩ := hstaged.housed.fill_of_locate ha
    (hstaged.locate_inside (hlead (staged.ordinary_temporaryName _))) htemporary bytes
  have hfull : filled.inside? base area (filled.temporaryName s.nextTemporary) =
      some (.file bytes) := by
    rw [hfilled.inside?_eq, hfilled.temporaryName_eq]
    exact replace_self _
  -- Neither the directory nor the temporary file has changed what has the name of the blob.
  have hinside : filled.inside? base = replace (s.inside? base) area
      (s.temporaryName s.nextTemporary) (some (.file bytes)) := by
    have hname := hstaged.temporaryName_eq s.nextTemporary
    rw [hfilled.inside?_eq, hstaged.inside?_eq, hprepared.inside?_eq, hname]
    exact replace_replace _ _
  have hfree : filled.inside? base area file.text ≠ some .directory := by
    rw [hinside, replace_temporary]
    exact hd
  obtain ⟨after, hpublish, hafter⟩ := hfilled.housed.publish_of_locate ha
    (hfilled.locate_inside (hstaged.locate_inside (hlead (filled.ordinary_temporaryName _)))) hfull
    (hfilled.locate_inside (hstaged.locate_inside (hlead (FileName.ordinary hf)))) hfree
  have hwrite : s.write area file bytes = (.ok (), after) := by
    unfold DirectoryBlobs.write
    simp only [hprepare, hstage, hfill, hpublish]
  have hname : filled.temporaryName s.nextTemporary = s.temporaryName s.nextTemporary :=
    (hfilled.temporaryName_eq _).trans (hstaged.temporaryName_eq _)
  rw [hinside, hname, replace_replace] at hafter
  rw [hwrite]
  exact ⟨rfl, ((hprepared.trans hstaged).trans hfilled).trans hafter⟩

/-- The blob that was written is there, and all others are as they were. -/
theorem blob?_write (ha : Path.Ordinary area) (hf : file.text.utf8ByteSize ≤ nameLimit)
    (hd : s.inside? base area file.text ≠ some .directory) (bytes : Bytes) {other : String}
    (ho : Path.Ordinary other) (any : FileName) :
    (s.write area file bytes).2.blob? other any =
      if area = other ∧ file = any then some bytes else s.blob? other any := by
  obtain ⟨-, hafter⟩ := h.write_eq hroom ha hf hd bytes
  rw [hafter.housed.blob?_eq ho, hafter.inside?_eq, replace_file, replace_temporary,
    h.blob?_eq ho]
  split <;> rfl

/-- Once a blob was removed it is gone, and all others are as they were. -/
theorem blob?_remove (ha : Path.Ordinary area) (hf : file.text.utf8ByteSize ≤ nameLimit)
    (hd : s.inside? base area file.text ≠ some .directory) {other : String}
    (ho : Path.Ordinary other) (any : FileName) :
    (s.remove area file).2.blob? other any =
      if area = other ∧ file = any then none else s.blob? other any := by
  rcases h.remove ha file with ⟨hnone, hsame⟩ | ⟨-, hafter⟩
  · rw [hsame]
    split
    · next hboth =>
        obtain ⟨rfl, rfl⟩ := hboth
        rw [h.remove_eq hroom ha hf hd] at hnone
        simpa using hnone
    · rfl
  · rw [hafter.housed.blob?_eq ho, hafter.inside?_eq, replace_file, h.blob?_eq ho]
    split <;> rfl

end Calls

end Housed

/-- A store in a directory has the blobs of one in memory, and no directory is in the way of the
calls to come. -/
structure Mirrors (s : DirectoryBlobs) (m : MemoryBlobs) (base : List String)
    (calls : List BlobCall) : Prop where
  /-- There is room for an area and a file behind the root. -/
  room : s.root.HasRoom 2
  /-- The store is housed. -/
  housed : s.Housed base
  /-- Both have the same blobs. -/
  blob?_eq : ∀ area file, Path.Ordinary area → s.blob? area file = m.blob? area file
  /-- No directory is in the way. -/
  clear : ∀ call ∈ calls, ∀ file ∈ call.file?,
    s.inside? base call.area file.text ≠ some .directory

namespace Mirrors

variable {s' : DirectoryBlobs} {m m' : MemoryBlobs} {call : BlobCall} {calls : List BlobCall}

/-- What was put under the name of a file, or taken away, is in no other's way. -/
theorem of_becomes {inside : String → String → Option Node}
    (h : Mirrors s m base (call :: calls)) (hb : Becomes s s' base inside)
    (hi : ∀ other (any : FileName), s.inside? base other any.text ≠ some .directory →
      inside other any.text ≠ some .directory)
    (hm : ∀ other any, Path.Ordinary other → s'.blob? other any = m'.blob? other any) :
    Mirrors s' m' base calls := by
  refine ⟨hb.root_eq ▸ h.room, hb.housed, hm, fun later hl file hf => ?_⟩
  rw [hb.inside?_eq]
  exact hi _ file (h.clear later (List.mem_cons_of_mem _ hl) file hf)

/-- Nothing is changed by a call that only looks. -/
theorem look (h : Mirrors s m base (call :: calls))
    (hm : ∀ area file, m'.blob? area file = m.blob? area file) : Mirrors s m' base calls :=
  h.of_becomes (.refl h.housed) (fun _ _ hd => hd) fun other any ho =>
    (h.blob?_eq other any ho).trans (hm other any).symm

/-- Reading gives the blob that memory has. -/
theorem read (h : Mirrors s m base (.read area file :: calls)) (ha : Path.Ordinary area)
    (hf : file.text.utf8ByteSize ≤ nameLimit) :
    (s.read area file = .ok (m.blob? area file)) ∧
      Mirrors s (BlobStore.read m area file).2 base calls := by
  have hclear := h.clear _ List.mem_cons_self file rfl
  refine ⟨?_, h.look fun _ _ => rfl⟩
  rw [← h.blob?_eq area file ha]
  exact h.housed.read_eq h.room ha hf hclear

/-- Writing succeeds, and both stores have the blob. -/
theorem write (h : Mirrors s m base (.write area file bytes :: calls)) (ha : Path.Ordinary area)
    (hf : file.text.utf8ByteSize ≤ nameLimit) :
    (s.write area file bytes).1 = .ok () ∧
      Mirrors (s.write area file bytes).2 (BlobStore.write m area file bytes).2 base calls := by
  have hclear := h.clear _ List.mem_cons_self file rfl
  obtain ⟨hok, hafter⟩ := h.housed.write_eq h.room ha hf hclear bytes
  refine ⟨hok, h.of_becomes hafter (fun other any hn => ?_) fun other any ho => ?_⟩
  · rw [replace_file, replace_temporary]
    split
    · simp
    · exact hn
  · rw [h.housed.blob?_write h.room ha hf hclear bytes ho, h.blob?_eq other any ho]
    exact (m.blob?_write area file bytes other any).symm

/-- Removing tells the same, and both stores are without the blob. -/
theorem remove (h : Mirrors s m base (.remove area file :: calls)) (ha : Path.Ordinary area)
    (hf : file.text.utf8ByteSize ≤ nameLimit) :
    (s.remove area file).1 = .ok (m.blob? area file).isSome ∧
      Mirrors (s.remove area file).2 (BlobStore.remove m area file).2 base calls := by
  have hclear := h.clear _ List.mem_cons_self file rfl
  have hblobs : ∀ other any, Path.Ordinary other → (s.remove area file).2.blob? other any =
      MemoryBlobs.blob? (BlobStore.remove m area file).2 other any := by
    intro other any ho
    rw [h.housed.blob?_remove h.room ha hf hclear ho, h.blob?_eq other any ho, m.blob?_remove]
  refine ⟨?_, ?_⟩
  · rw [← h.blob?_eq area file ha]
    exact h.housed.remove_eq h.room ha hf hclear
  · rcases h.housed.remove ha file with ⟨-, hsame⟩ | ⟨-, hafter⟩
    · rw [hsame] at hblobs ⊢
      exact h.of_becomes (.refl h.housed) (fun _ _ hd => hd) hblobs
    · refine h.of_becomes hafter (fun other any hn => ?_) hblobs
      rw [replace_file]
      split
      · simp
      · exact hn

/-- Both stores list the same files. -/
theorem files (h : Mirrors s m base (.files area :: calls)) (ha : Path.Ordinary area) :
    s.files area = .ok (m.filesOf area) ∧ Mirrors s m base calls := by
  obtain ⟨names, hnames⟩ := h.housed.exists_files ha
  have hsame : names = m.filesOf area := by
    refine List.Pairwise.eq_of_mem_iff (ordered_files hnames) (m.ordered_filesOf area) ?_
    intro file
    rw [mem_files ha.ne_empty hnames, m.mem_filesOf, h.blob?_eq area file ha]
  exact ⟨hsame ▸ hnames, h.look fun _ _ => rfl⟩

/-- The two stores give the same answer to the next call, after which they still mirror each
other. -/
theorem serve (h : Mirrors s m base (call :: calls)) (hc : call.Fits) :
    (call.serve s).1 = (call.serve m).1 ∧
      Mirrors (call.serve s).2 (call.serve m).2 base calls := by
  obtain ⟨ha, hf⟩ := hc
  cases call with
  | read area file =>
      obtain ⟨hanswer, hafter⟩ := h.read ha (hf file rfl)
      have hsame : (BlobStore.read s area file).1 = (BlobStore.read m area file).1 := hanswer
      simp only [BlobCall.serve, Prod.map_fst, Prod.map_snd, id, hsame]
      exact ⟨trivial, hafter⟩
  | write area file bytes =>
      obtain ⟨hanswer, hafter⟩ := h.write ha (hf file rfl)
      have hsame : (BlobStore.write s area file bytes).1 =
          (BlobStore.write m area file bytes).1 := hanswer
      simp only [BlobCall.serve, Prod.map_fst, Prod.map_snd, id, hsame]
      exact ⟨trivial, hafter⟩
  | remove area file =>
      obtain ⟨hanswer, hafter⟩ := h.remove ha (hf file rfl)
      have hsame : (BlobStore.remove s area file).1 = (BlobStore.remove m area file).1 := hanswer
      simp only [BlobCall.serve, Prod.map_fst, Prod.map_snd, id, hsame]
      exact ⟨trivial, hafter⟩
  | files area =>
      obtain ⟨hanswer, hafter⟩ := h.files ha
      have hsame : BlobStore.files s area = BlobStore.files m area := hanswer
      simp only [BlobCall.serve, hsame]
      exact ⟨trivial, hafter⟩

/-- So all answers are the same. -/
theorem answers_eq (h : Mirrors s m base calls) (hc : ∀ call ∈ calls, call.Fits) :
    BlobCall.answers s calls = BlobCall.answers m calls := by
  induction calls generalizing s m with
  | nil => rfl
  | cons call rest ih =>
      obtain ⟨hcall, hrest⟩ := List.forall_mem_cons.mp hc
      obtain ⟨hanswer, hmirrors⟩ := h.serve hcall
      exact congrArg₂ List.cons hanswer (ih hmirrors hrest)

end Mirrors

/-- Calls with ordinary names are answered as in memory, whatever they do, in whatever order and
among whatever leftovers. -/
theorem answers_eq_memory {root : Path} {tree : FileTree} {base : List String}
    {calls : List BlobCall} (hroom : root.HasRoom 2) (hhouses : tree.Houses root base)
    (hblobs : ∀ area (file : FileName) content, Path.Ordinary area →
      tree.node? (base ++ [area, file.text]) ≠ some (.file content))
    (hclear : ∀ call ∈ calls, ∀ file ∈ call.file?,
      tree.node? (base ++ [call.area, file.text]) ≠ some .directory)
    (hfits : ∀ call ∈ calls, call.Fits) (run : Nat) :
    BlobCall.answers (ofTree root tree run) calls = BlobCall.answers MemoryBlobs.empty calls := by
  have hhoused : (ofTree root tree run).Housed base := hhouses
  have hmirrors : Mirrors (ofTree root tree run) .empty base calls := by
    refine ⟨hroom, hhoused, fun area file ha => ?_, hclear⟩
    rw [hhoused.blob?_eq ha]
    have hmemory : MemoryBlobs.empty.blob? area file = none := by
      simp [MemoryBlobs.blob?, MemoryBlobs.empty]
    rw [hmemory, inside?]
    cases hn : (ofTree root tree run).tree.node? (base ++ [area, file.text]) with
    | none => rfl
    | some node =>
        cases node with
        | directory => rfl
        | file content => exact absurd hn (hblobs area file content ha)
  exact hmirrors.answers_eq hfits

/-- An earlier run with the same number left a temporary file behind, next to a directory and an odd
file. -/
theorem answers_eq_memory_among_leftovers :
    let root := Path.ofText [] "store"
    let tree := ((((FileTree.empty.put ["store"] .directory).put ["store", "one"] .directory).put
      ["store", "one", ".tmp-7-0"] (.file [1])).put ["store", "one", "nested"] .directory).put
      ["store", "one", "a\\b"] (.file [2])
    let file : FileName := ⟨"a.rs", by decide⟩
    let calls : List BlobCall := [.files "one", .write "one" file [3], .write "two" file [4],
      .read "one" file, .files "one", .remove "one" file, .read "one" file, .files "one",
      .files "two"]
    BlobCall.answers (ofTree root tree 7) calls = BlobCall.answers MemoryBlobs.empty calls := by
  intro root tree file calls
  have hempty : ∀ first rest, FileTree.empty.node? (first :: rest) = none := by
    simp [node?, FileTree.empty]
  have harea : ∀ area, tree.node? (["store"] ++ [area]) =
      if "one" = area then some .directory else none := by
    intro area
    simp [tree, node?_put, hempty]
  have hinside : ∀ area name, tree.node? (["store"] ++ [area, name]) =
      if "one" = area ∧ "a\\b" = name then some (.file [2])
      else if "one" = area ∧ "nested" = name then some .directory
      else if "one" = area ∧ ".tmp-7-0" = name then some (.file [1]) else none := by
    intro area name
    simp [tree, node?_put, hempty]
  -- Of the three names only that of the directory could be the name of a blob.
  have hnested : ∀ area (file : FileName) node,
      tree.node? (["store"] ++ [area, file.text]) = some node →
        "one" = area ∧ "nested" = file.text ∧ node = .directory := by
    intro area file node hnode
    have hallowed := file.allowed
    rw [hinside] at hnode
    split at hnode
    · next hname =>
        rw [← hname.2] at hallowed
        exact absurd hallowed (by decide)
    · split at hnode
      · next hname => exact ⟨hname.1, hname.2, (Option.some.inj hnode).symm⟩
      · split at hnode
        · next hname =>
            rw [← hname.2] at hallowed
            exact absurd hallowed (by decide)
        · cases hnode
  have hhouses : tree.Houses root ["store"] := by
    refine ⟨.there (by decide +kernel) (by decide +kernel), fun area content _ => ?_,
      fun area name _ hmark => ?_, fun area file node _ hnode => ?_⟩
    · rw [harea]
      split <;> simp
    · have hname : "nested" ≠ name := by
        rintro rfl
        revert hmark
        decide
      rw [hinside]
      split
      · simp
      · rw [if_neg fun h => hname h.2]
        split <;> simp
    · obtain ⟨rfl, htext, -⟩ := hnested area file node hnode
      rw [← htext]
      decide +kernel
  refine answers_eq_memory ⟨by decide +kernel, by decide⟩ hhouses
    (fun area file content _ hnode => ?_) (by decide +kernel) (by decide +kernel) 7
  cases (hnested area file _ hnode).2.2

end DirectoryBlobs

end MacroAtlas
