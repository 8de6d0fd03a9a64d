import MacroAtlas.Proofs.Blob.Listing
import MacroAtlas.Proofs.FileTree.Making

/-!
# A place for blobs

A file tree houses blobs at a place if the directories of areas can be made there and nothing is in
the way of their files. Then each path leads to a name of its own, and a step either fails and
changes no file or acts on one name alone.
-/

namespace MacroAtlas

namespace Path

variable {p : Path} {n : Nat} {name : String}

/-- There is room for more names behind the path. -/
structure HasRoom (p : Path) (names : Nat) : Prop where
  /-- It does not get too long. -/
  short : p.text.utf8ByteSize + names * (FileTree.nameLimit + 1) ≤ byteLimit
  /-- It has no zero byte. -/
  clean : '\x00' ∉ p.text.toList

/-- A path with room is none that no file system follows. -/
theorem HasRoom.fault?_eq_none (h : p.HasRoom n) : p.fault? = none := by
  have hshort : ¬ byteLimit < p.text.utf8ByteSize :=
    Nat.not_lt.mpr (Nat.le_trans (Nat.le_add_right _ _) h.short)
  rw [fault?, if_neg h.clean, if_neg hshort]

/-- An ordinary name takes the room for one. -/
theorem HasRoom.join (h : p.HasRoom (n + 1)) (hn : Ordinary name) : (p.join name).HasRoom n := by
  have hshort := h.short
  have hname := hn.short
  have hsize : separator.toString.utf8ByteSize = 1 := by decide
  have hzero : '\x00' ∉ separator.toString.toList := by decide
  rw [Nat.succ_mul] at hshort
  refine ⟨?_, ?_⟩
  · rw [text_join hn.toPlain, joinText]
    split
    · rw [String.utf8ByteSize_append]
      omega
    · rw [String.utf8ByteSize_append, String.utf8ByteSize_append, hsize]
      omega
  · rw [text_join hn.toPlain, joinText]
    split
    · simp [h.clean, hn.clean]
    · simp only [String.toList_append, List.mem_append, h.clean, hn.clean, hzero, or_self,
        not_false_eq_true]

theorem isVoid_join (hn : Plain name) (p : Path) : (p.join name).isVoid = false := by
  have hempty : name.isEmpty = false := by simpa using hn.ne_empty
  simp [isVoid, join_eq hn, hempty]

end Path

namespace FileTree

variable {t t' : FileTree} {root : Path} {base place : List String} {area name : String}
  {file : FileName} {content : Bytes}

/-- The tree can have blobs below a place to which a root leads. -/
structure Houses (t : FileTree) (root : Path) (base : List String) : Prop where
  /-- The way to the place is open. -/
  opens : t.Opens root.start root.names base
  /-- No file has the name of an area. -/
  area_not_file : ∀ area content, Path.Ordinary area →
    t.node? (base ++ [area]) ≠ some (.file content)
  /-- No directory has the name of a temporary file. -/
  temporary_not_directory : ∀ area name, Path.Ordinary area → temporaryMark <+: name.toList →
    t.node? (base ++ [area, name]) ≠ some .directory
  /-- What has the name of a blob is where the path of that blob leads. -/
  reached : ∀ area (file : FileName) node, Path.Ordinary area →
    t.node? (base ++ [area, file.text]) = some node →
    t.locate ((root.join area).join file.text) = .ok (base ++ [area, file.text])

namespace Houses

/-- The path of an area leads to where the area should be. -/
theorem eq_of_locate_area (h : t.Houses root base) (ha : Path.Ordinary area)
    (hl : t.locate (root.join area) = .ok place) : place = base ++ [area] := by
  obtain ⟨parent, hparent, rfl⟩ := locate_join ha.toPlain hl
  rcases h.opens.locateFrom_eq with hbase | hmissing
  · rw [Except.ok.inj (hparent.symm.trans hbase)]
  · rw [hparent] at hmissing
    cases hmissing

/-- A path into an area leads to a name in its directory. -/
theorem eq_of_locate (h : t.Houses root base) (ha : Path.Ordinary area) (hn : Path.Plain name)
    (hl : t.locate ((root.join area).join name) = .ok place) : place = base ++ [area, name] := by
  obtain ⟨dir, hdir, -, rfl⟩ := locate_of_locate_join hn (Path.isVoid_join ha.toPlain root) hl
  rw [h.eq_of_locate_area ha hdir, List.append_assoc]
  rfl

/-- What is read under the path of a blob is what is in its place. -/
theorem readFile_eq_ok_iff (h : t.Houses root base) (ha : Path.Ordinary area) :
    t.readFile ((root.join area).join file.text) = .ok content ↔
      t.node? (base ++ [area, file.text]) = some (.file content) := by
  rw [FileTree.readFile_eq_ok_iff]
  constructor
  · rintro ⟨place, hlocate, hnode⟩
    obtain rfl := h.eq_of_locate ha file.plain hlocate
    exact hnode
  · intro hnode
    exact ⟨_, h.reached area file _ ha hnode, hnode⟩

/-- A change at one name in an area that leads somewhere leaves the place as it should be, unless it
makes a directory. -/
theorem edit {paths : List Path} (h : t.Houses root base)
    (hl : t.locate ((root.join area).join name) = .ok (base ++ [area, name]))
    (hs : Spares paths t t')
    (hsame : ∀ elsewhere, base ++ [area, name] ≠ elsewhere →
      t'.node? elsewhere = t.node? elsewhere)
    (hd : t'.node? (base ++ [area, name]) ≠ some .directory) : t'.Houses root base := by
  have hshort : ∀ elsewhere : List String, elsewhere.length ≤ base.length + 1 →
      t'.node? elsewhere = t.node? elsewhere := by
    intro elsewhere hlength
    refine hsame elsewhere fun heq => ?_
    have hlong := congrArg List.length heq
    simp only [List.length_append, List.length_cons, List.length_nil] at hlong
    omega
  refine ⟨h.opens.of_spares hs fun elsewhere content hpre hnode => ?_, fun other content ho => ?_,
    fun other temporary ho hmark => ?_, fun other file node ho hnode => ?_⟩
  · rwa [hshort elsewhere (Nat.le_succ_of_le hpre.length_le)] at hnode
  · rw [hshort _ (by simp)]
    exact h.area_not_file other content ho
  · by_cases hplace : base ++ [area, name] = base ++ [other, temporary]
    · rw [← hplace]
      exact hd
    · rw [hsame _ hplace]
      exact h.temporary_not_directory other temporary ho hmark
  · by_cases hplace : base ++ [area, name] = base ++ [other, file.text]
    · obtain ⟨rfl, rfl⟩ : area = other ∧ name = file.text := by
        simpa using List.append_cancel_left hplace
      exact hs.locate hl
    · rw [hsame _ hplace] at hnode
      exact hs.locate (h.reached other file node ho hnode)

/-- A tree that can have blobs still can after a file is put in an area. -/
theorem put (h : t.Houses root base)
    (hl : t.locate ((root.join area).join name) = .ok (base ++ [area, name]))
    (hd : t.node? (base ++ [area, name]) ≠ some .directory) (content : Bytes) :
    (t.put (base ++ [area, name]) (.file content)).Houses root base := by
  have hplace : base ++ [area, name] ≠ [] := by simp
  have hput := node?_put hplace t (.file content)
  refine h.edit hl (.put hl hd _) (fun elsewhere hne => (hput elsewhere).trans (if_neg hne))
    ?_
  rw [hput, if_pos rfl]
  simp

/-- So does taking one away. -/
theorem erase (h : t.Houses root base)
    (hl : t.locate ((root.join area).join name) = .ok (base ++ [area, name]))
    (hd : t.node? (base ++ [area, name]) ≠ some .directory) :
    (t.erase (base ++ [area, name])).Houses root base := by
  have hplace : base ++ [area, name] ≠ [] := by simp
  have herase := node?_erase hplace t
  refine h.edit hl (.erase hl hd) (fun elsewhere hne => (herase elsewhere).trans (if_neg hne))
    ?_
  rw [herase, if_pos rfl]
  simp

/-- A place below which there is nothing at all will do. -/
theorem of_empty (h : t.Opens root.start root.names base)
    (hempty : ∀ below, below ≠ [] → t.node? (base ++ below) = none) : t.Houses root base := by
  refine ⟨h, fun area content _ => ?_, fun area name _ _ => ?_, fun area file node _ hnode => ?_⟩
  · simp [hempty]
  · simp [hempty]
  · simp [hempty] at hnode

/-- More directories on the way to an area do no harm. -/
theorem extend (h : t.Houses root base) (hx : Extends (base ++ [area]) t t') :
    t'.Houses root base ∧
      ∀ other name, t'.node? (base ++ [other, name]) = t.node? (base ++ [other, name]) := by
  have hinside : ∀ other name,
      t'.node? (base ++ [other, name]) = t.node? (base ++ [other, name]) := by
    intro other name
    refine hx.node?_eq fun hpre => ?_
    have hlength := hpre.length_le
    simp at hlength
  refine ⟨⟨?_, fun other content ho hnode => ?_, fun other temporary ho hmark => ?_,
    fun other file node ho hnode => ?_⟩, hinside⟩
  · exact h.opens.of_spares hx.spares fun elsewhere content _ hnode =>
      (hx.file_iff elsewhere content).mp hnode
  · exact h.area_not_file other content ho ((hx.file_iff _ content).mp hnode)
  · rw [hinside]
    exact h.temporary_not_directory other temporary ho hmark
  · rw [hinside] at hnode
    exact hx.spares.locate (h.reached other file node ho hnode)

end Houses

end FileTree

/-- The bytes in a file. -/
def Node.content? : Node → Option Bytes
  | .directory => none
  | .file content => some content

namespace DirectoryBlobs

open FileTree

variable {s s' : DirectoryBlobs} {base : List String} {area other name : String}
  {file any : FileName} {number : UInt64} {bytes : Bytes} {node : Option Node}

/-- A character has at most four bytes. -/
private theorem utf8ByteSize_ofList_le (chars : List Char) :
    (String.ofList chars).utf8ByteSize ≤ 4 * chars.length := by
  induction chars with
  | nil => exact Nat.le_refl 0
  | cons c rest ih =>
      have hc := c.utf8Size_le_four
      have hcons : String.ofList (c :: rest) = String.singleton c ++ String.ofList rest := by
        simp
      rw [hcons, String.utf8ByteSize_append, String.utf8ByteSize_singleton, List.length_cons]
      omega

/-- The digits of a word are few, so every file system takes the name of a temporary file. -/
theorem ordinary_temporaryName (s : DirectoryBlobs) (number : UInt64) :
    Path.Ordinary (s.temporaryName number) := by
  have htext := s.toList_temporaryName number
  have hrun : (Nat.toDigits 10 s.run.toNat).length ≤ 10 :=
    (Nat.length_toDigits_le_iff (by decide) (by decide)).mpr
      (Nat.lt_trans s.run.toNat_lt (by decide))
  have hnumber : (Nat.toDigits 10 number.toNat).length ≤ 20 :=
    (Nat.length_toDigits_le_iff (by decide) (by decide)).mpr
      (Nat.lt_trans number.toNat_lt (by decide))
  have hmark : temporaryMark.length = 5 := by decide
  refine ⟨s.plain_temporaryName number, ?_, ?_⟩
  · have hbytes := utf8ByteSize_ofList_le (s.temporaryName number).toList
    rw [String.ofList_toList, htext] at hbytes
    simp only [List.length_append, List.length_cons, hmark] at hbytes
    rw [FileTree.nameLimit]
    omega
  · have hdigits : ∀ n, '\x00' ∉ Nat.toDigits 10 n := by
      intro n hmem
      have hdigit := Nat.isDigit_of_mem_toDigits (by decide) (by decide) hmem
      revert hdigit
      decide
    have hzero : '\x00' ∉ temporaryMark := by decide
    rw [htext]
    simp [hdigits, hzero]

/-- Temporary files of one run with different numbers have different names. -/
theorem temporaryName_inj {number' : UInt64}
    (h : s.temporaryName number = s.temporaryName number') : number = number' := by
  have htext := congrArg String.toList h
  simp only [toList_temporaryName, List.append_cancel_left_eq, List.cons.injEq, true_and] at htext
  have hdigits := congrArg (fun digits => Nat.ofDigitChars 10 digits 0) htext
  exact UInt64.toNat_inj.mp (by simpa using hdigits)

/-- The store is housed at a place. -/
def Housed (s : DirectoryBlobs) (base : List String) : Prop := s.tree.Houses s.root base

/-- What is found under a name in the directory of an area. -/
def inside? (s : DirectoryBlobs) (base : List String) (area name : String) : Option Node :=
  s.tree.node? (base ++ [area, name])

/-- The blob under a file is what stands under its name. -/
theorem Housed.blob?_eq (h : s.Housed base) (ha : Path.Ordinary area) (file : FileName) :
    s.blob? area file = (s.inside? base area file.text).bind Node.content? := by
  refine Option.ext fun bytes => ?_
  rw [blob?_eq_some_iff, blobPath, directory, h.readFile_eq_ok_iff ha, inside?]
  cases s.tree.node? (base ++ [area, file.text]) with
  | none => simp
  | some node => cases node <;> simp [Node.content?]

/-- What is found in the directories of areas once something else stands under one name. -/
def replace (inside : String → String → Option Node) (area name : String) (node : Option Node)
    (other any : String) : Option Node :=
  if area = other ∧ name = any then node else inside other any

/-- What was put under a name is there. -/
@[simp] theorem replace_self (inside : String → String → Option Node) :
    replace inside area name node area name = node :=
  if_pos ⟨rfl, rfl⟩

/-- What was put under a name is gone when something else is put there. -/
theorem replace_replace (inside : String → String → Option Node) (node' : Option Node) :
    replace (replace inside area name node) area name node' = replace inside area name node' := by
  funext other any
  simp only [replace]
  split <;> rfl

/-- A temporary file is no blob. -/
theorem replace_temporary (inside : String → String → Option Node) (file : FileName) :
    replace inside area (s.temporaryName number) node other file.text =
      inside other file.text :=
  if_neg fun hsame => s.temporaryName_ne number file hsame.2

/-- Names of files are as good as the files. -/
theorem replace_file (inside : String → String → Option Node) (any : FileName) :
    replace inside area file.text node other any.text =
      if area = other ∧ file = any then node else inside other any.text := by
  have htext : file.text = any.text ↔ file = any := ⟨FileName.text_inj, congrArg FileName.text⟩
  simp only [replace, htext]

/-- A store becomes another one that is housed too, with the given things in its directories. -/
structure Becomes (s s' : DirectoryBlobs) (base : List String)
    (inside : String → String → Option Node) : Prop where
  /-- The store is still housed. -/
  housed : s'.Housed base
  /-- The root is the same. -/
  root_eq : s'.root = s.root
  /-- It is the same run. -/
  run_eq : s'.run = s.run
  /-- Every path leads where it did. -/
  locate : ∀ p place, s.tree.locate p = .ok place → s'.tree.locate p = .ok place
  /-- These things are in the directories. -/
  inside?_eq : s'.inside? base = inside

namespace Becomes

variable {inside : String → String → Option Node} {s'' : DirectoryBlobs}

/-- A store that is left alone becomes itself. -/
theorem refl (h : s.Housed base) : Becomes s s base (s.inside? base) :=
  ⟨h, rfl, rfl, fun _ _ hl => hl, rfl⟩

/-- Changes add up. -/
theorem trans {inside' : String → String → Option Node} (h : Becomes s s' base inside)
    (h' : Becomes s' s'' base inside') : Becomes s s'' base inside' :=
  ⟨h'.housed, h'.root_eq.trans h.root_eq, h'.run_eq.trans h.run_eq,
    fun p place hl => h'.locate p place (h.locate p place hl), h'.inside?_eq⟩

/-- It is the same run, so temporary files have the same names. -/
theorem temporaryName_eq (h : Becomes s s' base inside) (number : UInt64) :
    s'.temporaryName number = s.temporaryName number := by
  rw [temporaryName, temporaryName, h.run_eq]

theorem locate_inside (h : Becomes s s' base inside) {place : List String}
    (hl : s.tree.locate ((s.directory area).join name) = .ok place) :
    s'.tree.locate ((s'.directory area).join name) = .ok place := by
  rw [directory, h.root_eq]
  exact h.locate _ _ hl

end Becomes

namespace Housed

/-- Bytes may be put under a name to which a path leads unless it is that of a directory. -/
theorem put (h : s.Housed base)
    (hl : s.tree.locate ((s.directory area).join name) = .ok (base ++ [area, name]))
    (hd : s.inside? base area name ≠ some .directory) (bytes : Bytes) :
    Becomes s { s with tree := s.tree.put (base ++ [area, name]) (.file bytes) } base
      (replace (s.inside? base) area name (some (.file bytes))) := by
  refine ⟨FileTree.Houses.put h hl hd bytes, rfl, rfl, fun _ _ => (Spares.put hl hd _).locate,
    funext₂ fun other any => ?_⟩
  rw [inside?, node?_put (by simp), replace]
  simp only [List.append_cancel_left_eq, List.cons.injEq, and_true]
  rfl

/-- A file that is taken away is gone from its own place alone. -/
theorem erase (h : s.Housed base)
    (hl : s.tree.locate ((s.directory area).join name) = .ok (base ++ [area, name]))
    (hd : s.inside? base area name ≠ some .directory) :
    Becomes s { s with tree := s.tree.erase (base ++ [area, name]) } base
      (replace (s.inside? base) area name none) := by
  refine ⟨FileTree.Houses.erase h hl hd, rfl, rfl, fun _ _ => (Spares.erase hl hd).locate,
    funext₂ fun other any => ?_⟩
  rw [inside?, node?_erase (by simp), replace]
  simp only [List.append_cancel_left_eq, List.cons.injEq, and_true]
  rfl

/-- The files of an area can be listed. -/
theorem exists_files (h : s.Housed base) (ha : Path.Ordinary area) :
    ∃ names, s.files area = .ok names := by
  rw [exists_files_iff, ← Bool.not_eq_true, isFile_iff]
  rintro ⟨content, hread⟩
  obtain ⟨place, hlocate, hnode⟩ := readFile_eq_ok_iff.mp hread
  obtain rfl := h.eq_of_locate_area ha hlocate
  exact h.area_not_file area content ha hnode

/-- The directory of an area can be made if its path is not too long. -/
theorem prepare_of_room (h : s.Housed base) (ha : Path.Ordinary area)
    (hf : (s.directory area).fault? = none) :
    ∃ tree, s.prepare area = (.ok (), { s with tree }) ∧ Extends (base ++ [area]) s.tree tree ∧
      tree.locateFrom s.root.start (s.root.names ++ [area]) = .ok (base ++ [area]) ∧
      tree.node? (base ++ [area]) = some .directory := by
  obtain ⟨tree, hmade, hextends, hlocate, hdirectory⟩ :=
    h.opens.createDirectories ha hf fun content => h.area_not_file area content ha
  refine ⟨tree, ?_, hextends, hlocate, hdirectory⟩
  unfold DirectoryBlobs.prepare
  simp only [directory, hmade]

/-- Making the directory of an area changes nothing in such directories. -/
theorem prepare (h : s.Housed base) (ha : Path.Ordinary area) :
    Becomes s (s.prepare area).2 base (s.inside? base) := by
  cases hf : (s.directory area).fault? with
  | some fault =>
      have hsame : (s.prepare area).2 = s := by
        unfold DirectoryBlobs.prepare createDirectories
        simp only [hf]
      rw [hsame]
      exact .refl h
  | none =>
      obtain ⟨tree, hprepare, hextends, -, -⟩ := h.prepare_of_room ha hf
      obtain ⟨hhouses, hinside⟩ := FileTree.Houses.extend h hextends
      rw [hprepare]
      exact ⟨hhouses, rfl, rfl, fun _ _ => hextends.spares.locate, funext₂ hinside⟩

/-- A temporary file is created empty, or nothing changes. -/
theorem stage (h : s.Housed base) (ha : Path.Ordinary area) :
    (∃ fault, (s.stage area).1 = .error fault) ∧
        Becomes s (s.stage area).2 base (s.inside? base) ∨
      (s.stage area).1 = .ok s.nextTemporary ∧
        Becomes s (s.stage area).2 base (replace (s.inside? base) area
          (s.temporaryName s.nextTemporary) (some (.file []))) := by
  unfold DirectoryBlobs.stage
  simp only
  split
  · next tree hmade =>
      obtain ⟨place, hl, hd, rfl⟩ := createFile_eq_ok_iff.mp hmade
      obtain rfl := h.eq_of_locate ha (s.plain_temporaryName s.nextTemporary) hl
      obtain ⟨hhoused, -, -, hlocate, hinside⟩ := h.put hl hd []
      exact Or.inr ⟨rfl, hhoused, rfl, rfl, hlocate, hinside⟩
  · exact Or.inl ⟨⟨_, rfl⟩, h, rfl, rfl, fun _ _ hl => hl, rfl⟩

/-- A temporary file gets its bytes, or nothing changes. -/
theorem fill (h : s.Housed base) (ha : Path.Ordinary area) (number : UInt64) (bytes : Bytes) :
    (∃ fault, s.fill area number bytes = (.error fault, s)) ∨
      (s.fill area number bytes).1 = .ok () ∧
        Becomes s (s.fill area number bytes).2 base
          (replace (s.inside? base) area (s.temporaryName number) (some (.file bytes))) := by
  unfold DirectoryBlobs.fill
  simp only
  split
  · next tree hfilled =>
      obtain ⟨place, old, hl, hn, rfl⟩ := fillFile_eq_ok_iff.mp hfilled
      obtain rfl := h.eq_of_locate ha (s.plain_temporaryName number) hl
      exact Or.inr ⟨rfl, h.put hl (not_directory_of_file hn) bytes⟩
  · exact Or.inl ⟨_, rfl⟩

/-- The content of a temporary file becomes that of a blob, or nothing changes. -/
theorem publish (h : s.Housed base) (ha : Path.Ordinary area) (number : UInt64) (file : FileName) :
    (∃ fault, s.publish area number file = (.error fault, s)) ∨
      (s.publish area number file).1 = .ok () ∧ ∃ bytes,
        s.inside? base area (s.temporaryName number) = some (.file bytes) ∧
        Becomes s (s.publish area number file).2 base
          (replace (replace (s.inside? base) area (s.temporaryName number) none) area file.text
            (some (.file bytes))) := by
  unfold DirectoryBlobs.publish
  simp only
  split
  · next tree hmoved =>
      obtain ⟨place, goal, bytes, hl, hg, hn, hd, rfl⟩ := renameFile_eq_ok_iff.mp hmoved
      obtain rfl := h.eq_of_locate ha (s.plain_temporaryName number) hl
      obtain rfl := h.eq_of_locate ha file.plain hg
      have hl' : s.tree.locate ((s.directory area).join (s.temporaryName number)) = _ := hl
      have herased := h.erase hl' (not_directory_of_file hn)
      have hg' := (Spares.erase hl (not_directory_of_file hn)).locate hg
      have hd' : (replace (s.inside? base) area (s.temporaryName number) none) area file.text ≠
          some .directory := by
        rw [replace_temporary]
        exact hd
      rw [← herased.inside?_eq] at hd'
      have hput := herased.housed.put hg' hd' bytes
      rw [herased.inside?_eq] at hput
      exact Or.inr ⟨rfl, bytes, hn, herased.trans hput⟩
  · exact Or.inl ⟨_, rfl⟩

/-- A temporary file is removed, or nothing changes. -/
theorem discard (h : s.Housed base) (ha : Path.Ordinary area) (number : UInt64) :
    s.discard area number = s ∨ Becomes s (s.discard area number) base
      (replace (s.inside? base) area (s.temporaryName number) none) := by
  unfold DirectoryBlobs.discard
  split
  · next tree hremoved =>
      obtain ⟨place, old, hl, hn, rfl⟩ := removeFile_eq_ok_iff.mp hremoved
      obtain rfl := h.eq_of_locate ha (s.plain_temporaryName number) hl
      exact Or.inr (h.erase hl (not_directory_of_file hn))
  · exact Or.inl rfl

/-- A blob is removed, or nothing changes. -/
theorem remove (h : s.Housed base) (ha : Path.Ordinary area) (file : FileName) :
    (s.remove area file).1 ≠ .ok true ∧ (s.remove area file).2 = s ∨
      (s.remove area file).1 = .ok true ∧ Becomes s (s.remove area file).2 base
        (replace (s.inside? base) area file.text none) := by
  unfold DirectoryBlobs.remove
  simp only
  split
  · next tree hremoved =>
      obtain ⟨place, old, hl, hn, rfl⟩ := removeFile_eq_ok_iff.mp hremoved
      obtain rfl := h.eq_of_locate ha file.plain hl
      exact Or.inr ⟨rfl, h.erase hl (not_directory_of_file hn)⟩
  · exact Or.inl ⟨by simp, rfl⟩
  · exact Or.inl ⟨by simp, rfl⟩

end Housed

end DirectoryBlobs

end MacroAtlas
