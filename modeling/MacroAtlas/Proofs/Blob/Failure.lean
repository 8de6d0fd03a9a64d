import Mathlib.Data.List.Sort
import MacroAtlas.Proofs.Blob.Listing
import MacroAtlas.Proofs.FileTree.Grounded

/-!
# Writes that fail

A write fails when the file tree refuses a step, or when something from outside comes in its way,
perhaps in the middle of a step. It leaves directories, and in its temporary file what was filled in
before the filling stopped.
-/

namespace MacroAtlas

namespace FileTree

variable {t t' ready : FileTree} {place : List String} {p q : Path} {name other : String}
  {content : Bytes} {rest : Option Bytes}

/-- Different plain names lead to different places from anywhere. -/
theorem eq_of_locate_join (hn : Path.Plain name) (ho : Path.Plain other)
    (hl : t.locate (p.join name) = .ok place) (hl' : t.locate (q.join other) = .ok place) :
    name = other := by
  obtain ⟨dir, -, rfl⟩ := locate_join hn hl
  obtain ⟨dir', -, hplace⟩ := locate_join ho hl'
  exact List.singleton_inj.mp (List.append_inj_right' hplace rfl)

/-- A name behind a path leads elsewhere than the path alone. -/
theorem not_locate_of_locate_join (hn : Path.Plain name) (hl : t.locate (p.join name) = .ok place) :
    t.locate p ≠ .ok place := by
  intro hl'
  obtain ⟨dir, hdir, hplace⟩ := locate_join hn hl
  have hsame := Except.ok.inj (hdir.symm.trans (locateFrom_of_locate hl'))
  rw [hplace] at hsame
  simp at hsame

/-- A path behind which no file comes into reach when directories are made: it led somewhere before,
or it never leads up. -/
def Guards (t : FileTree) (p : Path) : Prop :=
  (∃ place, t.locate p = .ok place ∧ (t.Grounded ∨ t.node? place = some .directory)) ∨
    t.Grounded ∧ ".." ∉ p.names

/-- Directories were made, and then at most a file was put where the path leads, which holds the
bytes now, or taken away. -/
inductive Leaves (t : FileTree) (p : Path) (rest : Option Bytes) (t' : FileTree) : Prop
  /-- Nothing was done at the place of the path. -/
  | untouched (furnishes : t.Furnishes t')
  /-- What was done there is over. -/
  | touched {ready : FileTree} {place : List String} (furnishes : t.Furnishes ready)
      (locate : ready.locate p = .ok place) (not_directory : ready.node? place ≠ some .directory)
      (here : t'.node? place = rest.map .file)
      (elsewhere : ∀ other, place ≠ other → t'.node? other = ready.node? other)

namespace Leaves

/-- No path leads elsewhere. -/
theorem locate (h : Leaves t p rest t') (hl : t.locate q = .ok place) : t'.locate q = .ok place := by
  cases h with
  | untouched furnishes => exact furnishes.spares.locate hl
  | touched furnishes locate not_directory _ elsewhere =>
      exact (Spares.of_elsewhere locate not_directory elsewhere).locate (furnishes.spares.locate hl)

/-- Nothing goes but from the place of the path. -/
theorem keeps (h : Leaves t p rest t') {node : Node} (hn : t.node? place = some node) :
    t'.node? place = some node ∨ t'.locate p = .ok place := by
  cases h with
  | untouched furnishes => exact Or.inl (furnishes.spares place node hn (Or.inr (by simp)))
  | @touched ready place' furnishes locate not_directory here elsewhere =>
      by_cases hplace : place' = place
      · subst hplace
        exact Or.inr ((Spares.of_elsewhere locate not_directory elsewhere).locate locate)
      · rw [elsewhere place hplace]
        exact Or.inl (furnishes.spares place node hn (Or.inr (by simp)))

/-- No file comes but the one with the given bytes. -/
theorem file_before (h : Leaves t p rest t') (hn : t'.node? place = some (.file content)) :
    t.node? place = some (.file content) ∨ t'.locate p = .ok place ∧ rest = some content := by
  cases h with
  | untouched furnishes => exact Or.inl ((furnishes.file_iff place content).mp hn)
  | @touched ready place' furnishes locate not_directory here elsewhere =>
      by_cases hplace : place' = place
      · subst hplace
        refine Or.inr ⟨(Spares.of_elsewhere locate not_directory elsewhere).locate locate, ?_⟩
        rw [here] at hn
        cases rest with
        | none => cases hn
        | some left => exact congrArg some (Node.file.inj (Option.some.inj hn))
      · rw [elsewhere place hplace] at hn
        exact Or.inl ((furnishes.file_iff place content).mp hn)

/-- What was read before is read after. -/
theorem readFile (h : Leaves t p rest t') (hr : t.readFile q = .ok content)
    (ha : ∀ place, t'.locate p = .ok place → t'.locate q ≠ .ok place) :
    t'.readFile q = .ok content := by
  obtain ⟨place, hl, hn⟩ := readFile_eq_ok_iff.mp hr
  have hl' := h.locate hl
  rcases h.keeps hn with hn' | hp
  · exact readFile_eq_ok_iff.mpr ⟨place, hl', hn'⟩
  · exact absurd hl' (ha place hp)

/-- What is read after was read before, if the path led somewhere. -/
theorem readFile_of_locate (h : Leaves t p rest t') (hl : t.locate q = .ok place)
    (hr : t'.readFile q = .ok content)
    (ha : ∀ place, t'.locate p = .ok place → t'.locate q ≠ .ok place) :
    t.readFile q = .ok content := by
  obtain ⟨place', hl', hn'⟩ := readFile_eq_ok_iff.mp hr
  obtain rfl := Except.ok.inj ((h.locate hl).symm.trans hl')
  rcases h.file_before hn' with hn | ⟨hp, -⟩
  · exact readFile_eq_ok_iff.mpr ⟨place, hl, hn⟩
  · exact absurd hl' (ha place hp)

/-- What is read after was read before, if the tree was grounded and the path never leads up. -/
theorem readFile_before (h : Leaves t p rest t') (hg : t.Grounded) (hup : ".." ∉ q.names)
    (hr : t'.readFile q = .ok content)
    (ha : ∀ place, t'.locate p = .ok place → t'.locate q ≠ .ok place) :
    t.readFile q = .ok content := by
  refine hg.readFile hup hr fun place hl hn' => ?_
  rcases h.file_before hn' with hn | ⟨hp, -⟩
  · exact hn
  · exact absurd hl (ha place hp)

/-- What is read after was read before, if the path was guarded. -/
theorem readFile_of_guards (h : Leaves t p rest t') (hg : t.Guards q)
    (hr : t'.readFile q = .ok content)
    (ha : ∀ place, t'.locate p = .ok place → t'.locate q ≠ .ok place) :
    t.readFile q = .ok content := by
  rcases hg with ⟨place, hl, -⟩ | ⟨hg, hup⟩
  · exact h.readFile_of_locate hl hr ha
  · exact h.readFile_before hg hup hr ha

/-- So was what is read under a name behind the path. -/
theorem readFile_join_of_guards (h : Leaves t p rest t') (hg : t.Guards q) (hn : Path.Plain name)
    (hr : t'.readFile (q.join name) = .ok content)
    (ha : ∀ place, t'.locate p = .ok place → t'.locate (q.join name) ≠ .ok place) :
    t.readFile (q.join name) = .ok content := by
  rcases hg with ⟨dir, hdir, hguard⟩ | ⟨hg, hup⟩
  · obtain ⟨place, hl', hn'⟩ := readFile_eq_ok_iff.mp hr
    have hfile : t.node? place = some (.file content) := by
      rcases h.file_before hn' with hfile | ⟨hp, -⟩
      · exact hfile
      · exact absurd hl' (ha place hp)
    -- Nothing was made on the way to the directory, so that it is the same one.
    obtain ⟨dir', hdir', rfl⟩ := locate_join hn hl'
    obtain rfl := Except.ok.inj ((locateFrom_of_locate (h.locate hdir)).symm.trans hdir')
    have hbelow : t.node? dir = some .directory := by
      rcases hguard with hg | hd
      · exact hg dir name (by simp [hfile])
      · exact hd
    exact readFile_eq_ok_iff.mpr ⟨_, locate_join_congr hn hdir hbelow hl', hfile⟩
  · refine h.readFile_before hg ?_ hr ha
    rw [Path.names_join hn, List.mem_append, List.mem_singleton]
    exact not_or.mpr ⟨hup, hn.ne_dots.symm⟩

end Leaves

end FileTree

/-- What comes in the way of a write from outside. -/
inductive Obstacle where
  /-- No more than some of the directories on the way to the area can be made. -/
  | making (count : Nat)
  /-- The temporary file cannot be created. -/
  | creating
  /-- No more than some of the bytes can be written into it. -/
  | filling (length : Nat)
  /-- It cannot be renamed. -/
  | publishing
  deriving DecidableEq

/-- What is left in the temporary file: nothing, unless its filling was stopped. -/
def Obstacle.rest (bytes : Bytes) : Option Obstacle → Option Bytes
  | some (.filling length) => some (bytes.take length)
  | _ => none

/-- Only a filling that was stopped leaves anything. -/
theorem Obstacle.rest_eq_none {obstacle : Option Obstacle}
    (h : ∀ length, obstacle ≠ some (.filling length)) (bytes : Bytes) :
    rest bytes obstacle = none := by
  unfold rest
  split
  · exact absurd rfl (h _)
  · rfl

namespace DirectoryBlobs

open FileTree

/-- Makes the first directories on the way to an area. -/
def prepareInPart (s : DirectoryBlobs) (area : String) (count : Nat) : DirectoryBlobs :=
  let path := s.directory area
  if path.fault?.isSome then s
  else
    let first := path.telling.take count
    { s with tree := (s.tree.provideDirectories path.start [] first.reverse).2 }

/-- Makes the directory of an area, or part of the way to it. -/
def prepareAgainst (s : DirectoryBlobs) (area : String) (reason : SystemFault) :
    Option Obstacle → Except StoreFault Unit × DirectoryBlobs
  | some (.making count) =>
    (.error (.system (s.directory area).text reason), s.prepareInPart area count)
  | _ => s.prepare area

@[simp] theorem prepareAgainst_none (s : DirectoryBlobs) (area : String) (reason : SystemFault) :
    s.prepareAgainst area reason none = s.prepare area := rfl

/-- Creates the next temporary file unless that cannot be done. Its number is taken anyway. -/
def stageAgainst (s : DirectoryBlobs) (area : String) (reason : SystemFault) :
    Option Obstacle → Except StoreFault UInt64 × DirectoryBlobs
  | some .creating =>
    (.error (.system (s.temporaryPath area s.nextTemporary).text reason),
      { s with nextTemporary := s.nextTemporary + 1 })
  | _ => s.stage area

@[simp] theorem stageAgainst_none (s : DirectoryBlobs) (area : String) (reason : SystemFault) :
    s.stageAgainst area reason none = s.stage area := rfl

/-- Writes bytes into a temporary file, or some of them. -/
def fillAgainst (s : DirectoryBlobs) (area : String) (number : UInt64) (bytes : Bytes)
    (reason : SystemFault) : Option Obstacle → Except StoreFault Unit × DirectoryBlobs
  | some (.filling length) =>
    (.error (.system (s.temporaryPath area number).text reason),
      (s.fill area number (bytes.take length)).2)
  | _ => s.fill area number bytes

@[simp] theorem fillAgainst_none (s : DirectoryBlobs) (area : String) (number : UInt64)
    (bytes : Bytes) (reason : SystemFault) :
    s.fillAgainst area number bytes reason none = s.fill area number bytes := rfl

/-- Renames a temporary file over the file of a blob unless that cannot be done. -/
def publishAgainst (s : DirectoryBlobs) (area : String) (number : UInt64) (file : FileName)
    (reason : SystemFault) : Option Obstacle → Except StoreFault Unit × DirectoryBlobs
  | some .publishing => (.error (.system (s.blobPath area file).text reason), s)
  | _ => s.publish area number file

@[simp] theorem publishAgainst_none (s : DirectoryBlobs) (area : String) (number : UInt64)
    (file : FileName) (reason : SystemFault) :
    s.publishAgainst area number file reason none = s.publish area number file := rfl

/-- Puts a blob in the place of another unless something comes in the way. -/
def writeAgainst (s : DirectoryBlobs) (area : String) (file : FileName) (bytes : Bytes)
    (reason : SystemFault) (obstacle : Option Obstacle) :
    Except StoreFault Unit × DirectoryBlobs :=
  match s.prepareAgainst area reason obstacle with
  | (.error fault, s) => (.error fault, s)
  | (.ok _, s) =>
    match s.stageAgainst area reason obstacle with
    | (.error fault, s) => (.error fault, s)
    | (.ok number, s) =>
      match s.fillAgainst area number bytes reason obstacle with
      | (.error fault, s) => (.error fault, s)
      | (.ok _, s) =>
        match s.publishAgainst area number file reason obstacle with
        | (.error fault, s) => (.error fault, s.discard area number)
        | (.ok _, s) => (.ok (), s)

/-- When nothing comes in the way, it is the write of the store. -/
theorem writeAgainst_none (s : DirectoryBlobs) (area : String) (file : FileName) (bytes : Bytes)
    (reason : SystemFault) :
    s.writeAgainst area file bytes reason none = s.write area file bytes := by
  have hwrites := s.writes_write area file bytes
  generalize s.write area file bytes = written at hwrites ⊢
  unfold writeAgainst
  rw [prepareAgainst_none]
  cases hwrites with
  | unprepared prepare => rw [prepare]
  | unstaged prepare stage => simp only [prepare, stageAgainst_none, stage]
  | unfilled prepare stage fill =>
      simp only [prepare, stageAgainst_none, stage, fillAgainst_none, fill]
  | unpublished prepare stage fill publish =>
      simp only [prepare, stageAgainst_none, stage, fillAgainst_none, fill, publishAgainst_none,
        publish]
  | published prepare stage fill publish =>
      simp only [prepare, stageAgainst_none, stage, fillAgainst_none, fill, publishAgainst_none,
        publish]

/-- When something does, the write fails, there or before. -/
theorem writeAgainst_some (s : DirectoryBlobs) (area : String) (file : FileName) (bytes : Bytes)
    (reason : SystemFault) (obstacle : Obstacle) :
    ∃ fault, (s.writeAgainst area file bytes reason (some obstacle)).1 = .error fault := by
  unfold writeAgainst
  rcases hprepare : s.prepareAgainst area reason (some obstacle) with ⟨fault | _, prepared⟩
  · exact ⟨fault, rfl⟩
  simp only
  rcases hstage : prepared.stageAgainst area reason (some obstacle) with ⟨fault | number, staged⟩
  · exact ⟨fault, rfl⟩
  simp only
  rcases hfill : staged.fillAgainst area number bytes reason (some obstacle) with
    ⟨fault | _, filled⟩
  · exact ⟨fault, rfl⟩
  simp only
  rcases hpublish : filled.publishAgainst area number file reason (some obstacle) with
    ⟨fault | _, published⟩
  · exact ⟨fault, rfl⟩
  -- The step that the obstacle belongs to cannot have succeeded.
  cases obstacle with
  | making count => cases (Prod.mk.inj hprepare).1
  | creating => cases (Prod.mk.inj hstage).1
  | filling length => cases (Prod.mk.inj hfill).1
  | publishing => cases (Prod.mk.inj hpublish).1

variable {s after : DirectoryBlobs} {area other : String} {file any : FileName} {bytes blob : Bytes}
  {number : UInt64} {place : List String} {reason : SystemFault} {obstacle : Option Obstacle}
  {names : List FileName} {fault : StoreFault}

/-- Making the directory of an area changes nothing but that there may be more directories. -/
theorem furnishes_prepareAgainst {result : Except StoreFault Unit}
    (h : s.prepareAgainst area reason obstacle = (result, after)) :
    ∃ tree, after = { s with tree } ∧ s.tree.Furnishes tree := by
  unfold prepareAgainst at h
  split at h
  · obtain ⟨-, rfl⟩ := Prod.mk.inj h
    unfold prepareInPart
    simp only
    split
    · exact ⟨s.tree, rfl, .refl s.tree⟩
    · exact ⟨_, rfl, .provideDirectories _ _ _ _⟩
  · have hmade := Furnishes.createDirectories s.tree (s.directory area)
    unfold prepare at h
    simp only at h
    split at h
    all_goals
      next hs =>
        obtain ⟨-, rfl⟩ := Prod.mk.inj h
        rw [hs] at hmade
        exact ⟨_, rfl, hmade⟩

/-- A store becomes another one by creating a temporary file, which holds these bytes then. -/
structure Drafts (s s' : DirectoryBlobs) (area : String) (number : UInt64) (bytes : Bytes)
    (place : List String) : Prop where
  /-- The root is the same. -/
  root_eq : s'.root = s.root
  /-- It is the same run. -/
  run_eq : s'.run = s.run
  /-- The file is where its path leads. -/
  locate : s.tree.locate (s.temporaryPath area number) = .ok place
  /-- No directory was there. -/
  not_directory : s.tree.node? place ≠ some .directory
  /-- It holds the bytes. -/
  here : s'.tree.node? place = some (.file bytes)
  /-- All else is as it was. -/
  elsewhere : ∀ other, place ≠ other → s'.tree.node? other = s.tree.node? other

/-- If no temporary file can be created, one that was there is left alone. -/
theorem stageAgainst_error (h : s.stageAgainst area reason obstacle = (.error fault, after)) :
    after.root = s.root ∧ after.tree = s.tree := by
  unfold stageAgainst stage at h
  simp only at h
  split at h
  · obtain ⟨-, rfl⟩ := Prod.mk.inj h
    exact ⟨rfl, rfl⟩
  · split at h
    · cases (Prod.mk.inj h).1
    · obtain ⟨-, rfl⟩ := Prod.mk.inj h
      exact ⟨rfl, rfl⟩

/-- A temporary file that is created is empty. -/
theorem drafts_stageAgainst (h : s.stageAgainst area reason obstacle = (.ok number, after)) :
    number = s.nextTemporary ∧ ∃ place, Drafts s after area number [] place := by
  unfold stageAgainst stage at h
  simp only at h
  split at h
  · cases (Prod.mk.inj h).1
  · split at h
    · next tree hmade =>
        obtain ⟨hnumber, rfl⟩ := Prod.mk.inj h
        obtain rfl := Except.ok.inj hnumber
        obtain ⟨place, hl, hd, rfl⟩ := createFile_eq_ok_iff.mp hmade
        have hne := ne_nil_of_not_directory hd
        refine ⟨rfl, place, rfl, rfl, hl, hd, ?_, fun other ho => ?_⟩
        · exact (node?_put hne _ _ _).trans (if_pos rfl)
        · exact (node?_put hne _ _ _).trans (if_neg ho)
    · cases (Prod.mk.inj h).1

namespace Drafts

variable {s' : DirectoryBlobs} {old : Bytes}

/-- The bytes are left there if nothing more is done. -/
theorem leaves (h : Drafts s s' area number bytes place) {t : FileTree} (hf : t.Furnishes s.tree) :
    t.Leaves (s.temporaryPath area number) (some bytes) s'.tree :=
  .touched hf h.locate h.not_directory h.here h.elsewhere

/-- The path of the temporary file leads where it did. -/
theorem locate_after (h : Drafts s s' area number bytes place) :
    s'.tree.locate (s'.temporaryPath area number) = .ok place := by
  rw [temporaryPath, directory, h.root_eq, h.run_eq]
  exact (Spares.of_elsewhere h.locate h.not_directory h.elsewhere).locate h.locate

/-- The file can be filled with other bytes. -/
theorem fill (h : Drafts s s' area number old place) (bytes : Bytes) :
    ∃ filled, s'.fill area number bytes = (.ok (), filled) ∧
      Drafts s filled area number bytes place := by
  have hfilled := fillFile_eq_ok_iff.mpr
    ⟨place, old, h.locate_after, h.here, Eq.refl (s'.tree.put place (.file bytes))⟩
  have hne := ne_nil_of_not_directory h.not_directory
  refine ⟨{ s' with tree := s'.tree.put place (.file bytes) }, ?_, h.root_eq, h.run_eq, h.locate,
    h.not_directory, (node?_put hne _ _ _).trans (if_pos rfl), fun other ho => ?_⟩
  · unfold DirectoryBlobs.fill
    simp only [hfilled]
  · exact ((node?_put hne _ _ _).trans (if_neg ho)).trans (h.elsewhere other ho)

/-- The filling is stopped from outside or not at all. -/
theorem of_fillAgainst {result : Except StoreFault Unit} (h : Drafts s s' area number old place)
    (hfill : s'.fillAgainst area number bytes reason obstacle = (result, after)) :
    (∃ fault left, result = .error fault ∧ Obstacle.rest bytes obstacle = some left ∧
        Drafts s after area number left place) ∨
      result = .ok () ∧ Obstacle.rest bytes obstacle = none ∧
        Drafts s after area number bytes place := by
  unfold fillAgainst at hfill
  split at hfill
  · next length =>
      obtain ⟨filled, hpart, hdrafts⟩ := h.fill (bytes.take length)
      obtain ⟨rfl, rfl⟩ := Prod.mk.inj hfill
      rw [hpart]
      exact Or.inl ⟨_, _, rfl, rfl, hdrafts⟩
  · next hnot =>
      obtain ⟨filled, hwhole, hdrafts⟩ := h.fill bytes
      obtain ⟨rfl, rfl⟩ := Prod.mk.inj (hwhole.symm.trans hfill)
      exact Or.inr ⟨rfl, Obstacle.rest_eq_none hnot bytes, hdrafts⟩

/-- The file can be removed, and nothing is left there. -/
theorem discard (h : Drafts s s' area number bytes place) {t : FileTree}
    (hf : t.Furnishes s.tree) :
    (s'.discard area number).root = s.root ∧
      t.Leaves (s.temporaryPath area number) none (s'.discard area number).tree := by
  have hremoved := removeFile_eq_ok_iff.mpr
    ⟨place, bytes, h.locate_after, h.here, Eq.refl (s'.tree.erase place)⟩
  have hne := ne_nil_of_not_directory h.not_directory
  unfold DirectoryBlobs.discard
  simp only [hremoved]
  refine ⟨h.root_eq, .touched hf h.locate h.not_directory ?_ fun other ho => ?_⟩
  · exact (node?_erase hne _ _).trans (if_pos rfl)
  · exact ((node?_erase hne _ _).trans (if_neg ho)).trans (h.elsewhere other ho)

end Drafts

/-- A rename that fails changes nothing. -/
theorem publishAgainst_error
    (h : s.publishAgainst area number file reason obstacle = (.error fault, after)) :
    after = s := by
  unfold publishAgainst publish at h
  simp only at h
  split at h
  · exact (Prod.mk.inj h).2.symm
  · split at h
    · cases (Prod.mk.inj h).1
    · exact (Prod.mk.inj h).2.symm

/-- What a write that fails leaves in the tree. -/
theorem leaves_writeAgainst
    (h : s.writeAgainst area file bytes reason obstacle = (.error fault, after)) :
    after.root = s.root ∧ s.tree.Leaves (s.temporaryPath area s.nextTemporary)
      (Obstacle.rest bytes obstacle) after.tree := by
  unfold writeAgainst at h
  rcases hprepare : s.prepareAgainst area reason obstacle with ⟨_ | _, prepared⟩
  all_goals
    obtain ⟨tree, rfl, hf⟩ := furnishes_prepareAgainst hprepare
    rw [hprepare] at h
    simp only at h
  · obtain ⟨-, rfl⟩ := Prod.mk.inj h
    exact ⟨rfl, .untouched hf⟩
  rcases hstage : DirectoryBlobs.stageAgainst { s with tree } area reason obstacle with
    ⟨_ | number, staged⟩
  all_goals
    rw [hstage] at h
    simp only at h
  · obtain ⟨hroot, htree⟩ := stageAgainst_error hstage
    obtain ⟨-, rfl⟩ := Prod.mk.inj h
    exact ⟨hroot, htree ▸ .untouched hf⟩
  -- From here on the temporary file is there, and no step fails but for a reason from outside or
  -- because of what stands in the way of the rename.
  obtain ⟨rfl, place, hstaged⟩ := drafts_stageAgainst hstage
  rcases hfill : staged.fillAgainst area s.nextTemporary bytes reason obstacle with ⟨result, filled⟩
  rw [hfill] at h
  rcases hstaged.of_fillAgainst hfill with
    ⟨_, left, rfl, hrest, hfilled⟩ | ⟨rfl, hrest, hfilled⟩
  · obtain ⟨-, rfl⟩ := Prod.mk.inj h
    rw [hrest]
    exact ⟨hfilled.root_eq, hfilled.leaves hf⟩
  simp only at h
  rcases hpublish : filled.publishAgainst area s.nextTemporary file reason obstacle with
    ⟨_ | _, published⟩
  all_goals
    rw [hpublish] at h
    simp only at h
  · obtain rfl := publishAgainst_error hpublish
    obtain ⟨-, rfl⟩ := Prod.mk.inj h
    rw [hrest]
    exact hfilled.discard hf
  · cases (Prod.mk.inj h).1

/-- A temporary file whose filling is stopped is left behind with what was filled in. -/
theorem temporary_of_stopped_filling {prepared staged : DirectoryBlobs} {length : Nat}
    (hprepare : s.prepare area = (.ok (), prepared))
    (hstage : prepared.stage area = (.ok number, staged))
    (h : s.writeAgainst area file bytes reason (some (.filling length)) = (.error fault, after)) :
    ∃ place, after.tree.locate (s.temporaryPath area s.nextTemporary) = .ok place ∧
      after.tree.node? place = some (.file (bytes.take length)) := by
  have hprepared : s.prepareAgainst area reason (some (.filling length)) = (.ok (), prepared) :=
    hprepare
  have hstaged : prepared.stageAgainst area reason (some (.filling length)) = (.ok number, staged) :=
    hstage
  unfold writeAgainst at h
  rw [hprepared] at h
  simp only at h
  rw [hstaged] at h
  simp only at h
  rcases hfill : staged.fillAgainst area number bytes reason (some (.filling length)) with
    ⟨result, filled⟩
  rw [hfill] at h
  obtain ⟨tree, rfl, -⟩ := furnishes_prepareAgainst hprepared
  obtain ⟨rfl, place, hdrafts⟩ := drafts_stageAgainst hstaged
  rcases hdrafts.of_fillAgainst hfill with ⟨_, left, rfl, hrest, hpart⟩ | ⟨-, hrest, -⟩
  · obtain ⟨-, rfl⟩ := Prod.mk.inj h
    obtain rfl := Option.some.inj hrest
    have hlocate := hpart.locate_after
    rw [temporaryPath, directory, hpart.root_eq, hpart.run_eq] at hlocate
    exact ⟨place, hlocate, hpart.here⟩
  · cases hrest

/-- An area without a path has no files. -/
theorem files_of_void (hv : (s.directory area).isVoid = true) : s.files area = .ok [] := by
  have hnothing : s.tree.holds (s.directory area) = false := by
    unfold holds lookup locate
    split
    · rfl
    · simp only [hv]
      rfl
  unfold DirectoryBlobs.files
  simp only [hnothing, Bool.false_eq_true, ite_false]

/-- Areas with the same blobs, and with a file in the place of neither or of both, have the same
files. -/
theorem files_of_blob?_eq {s' : DirectoryBlobs} (hroot : s'.root = s.root)
    (hb : ∀ file, s'.blob? area file = s.blob? area file)
    (hd : s'.tree.isFile (s'.directory area) = s.tree.isFile (s.directory area))
    (h : s.files area = .ok names) : s'.files area = .ok names := by
  have hdirectory := directory_of_root_eq hroot area
  obtain ⟨names', h'⟩ : ∃ names', s'.files area = .ok names' := by
    rw [exists_files_iff, hd, ← exists_files_iff]
    exact ⟨names, h⟩
  rw [h']
  cases hv : (s.directory area).isVoid with
  | true =>
      have hnone : names = [] := Except.ok.inj (h.symm.trans (files_of_void hv))
      have hnone' : names' = [] := by
        rw [← hdirectory] at hv
        exact Except.ok.inj (h'.symm.trans (files_of_void hv))
      rw [hnone, hnone']
  | false =>
      have hv' : (s'.directory area).isVoid = false := hdirectory ▸ hv
      refine congrArg _ (List.Pairwise.eq_of_mem_iff (ordered_files h') (ordered_files h) ?_)
      intro file
      rw [mem_files_of_not_void hv' h', mem_files_of_not_void hv h, hb]

/-- The path of a temporary file leads to no blob. -/
theorem not_locate_blobPath {t : FileTree}
    (hl : t.locate (s.temporaryPath area number) = .ok place) :
    t.locate (s.blobPath other any) ≠ .ok place := fun hl' =>
  s.temporaryName_ne number any (eq_of_locate_join (s.plain_temporaryName number) any.plain hl hl')

section Remains

variable {rest : Option Bytes} (hroot : after.root = s.root)
  (hleaves : s.tree.Leaves (s.temporaryPath area number) rest after.tree)

include hroot hleaves

/-- What is left of a write takes away no blob. -/
theorem keeps_of_leaves (hb : s.blob? other any = some blob) :
    after.blob? other any = some blob := by
  rw [blob?_eq_some_iff] at hb ⊢
  rw [blobPath_of_root_eq hroot]
  exact hleaves.readFile hb fun place => not_locate_blobPath

/-- It brings none either into an area whose path was guarded. -/
theorem blob?_of_leaves (hg : s.tree.Guards (s.directory other)) (any : FileName) :
    after.blob? other any = s.blob? other any := by
  refine Option.ext fun blob => ⟨fun hb => ?_, keeps_of_leaves hroot hleaves⟩
  rw [blob?_eq_some_iff] at hb ⊢
  rw [blobPath_of_root_eq hroot] at hb
  exact hleaves.readFile_join_of_guards hg any.plain hb fun place => not_locate_blobPath

/-- So the area is listed as before. -/
theorem files_of_leaves (hg : s.tree.Guards (s.directory area)) :
    after.files area = .ok names ↔ s.files area = .ok names := by
  have hblobs := blob?_of_leaves hroot hleaves hg
  have hapart : ∀ place, after.tree.locate (s.temporaryPath area number) = .ok place →
      after.tree.locate (s.directory area) ≠ .ok place := fun place =>
    not_locate_of_locate_join (s.plain_temporaryName number)
  have hisFile : after.tree.isFile (after.directory area) = s.tree.isFile (s.directory area) := by
    rw [directory_of_root_eq hroot, Bool.eq_iff_iff, isFile_iff, isFile_iff]
    constructor
    · rintro ⟨content, hread⟩
      exact ⟨content, hleaves.readFile_of_guards hg hread hapart⟩
    · rintro ⟨content, hread⟩
      exact ⟨content, hleaves.readFile hread hapart⟩
  exact ⟨files_of_blob?_eq hroot.symm (fun any => (hblobs any).symm) hisFile.symm,
    files_of_blob?_eq hroot hblobs hisFile⟩

end Remains

/-- A write that fails leaves no new file but its own temporary one, with what was filled in before
the filling was stopped. -/
theorem failed_write_leaves_no_file
    (h : s.writeAgainst area file bytes reason obstacle = (.error fault, after)) :
    -- No file comes but the temporary one.
    (∀ place content, after.tree.node? place = some (.file content) →
      s.tree.node? place = some (.file content) ∨
        after.tree.locate (s.temporaryPath area s.nextTemporary) = .ok place ∧
          Obstacle.rest bytes obstacle = some content) ∧
    -- Nothing goes or changes but what stood in its place.
    (∀ place node, s.tree.node? place = some node → after.tree.node? place = some node ∨
      after.tree.locate (s.temporaryPath area s.nextTemporary) = .ok place) ∧
    -- The blobs are the same, and so is the listing of the area.
    (∀ other any blob, s.blob? other any = some blob → after.blob? other any = some blob) ∧
    (∀ other, s.tree.Guards (s.directory other) →
      ∀ any, after.blob? other any = s.blob? other any) ∧
    (s.tree.Guards (s.directory area) →
      ∀ names, after.files area = .ok names ↔ s.files area = .ok names) := by
  obtain ⟨hroot, hleaves⟩ := leaves_writeAgainst h
  exact ⟨fun place content => hleaves.file_before, fun place node => hleaves.keeps,
    fun other any blob => keeps_of_leaves hroot hleaves,
    fun other => blob?_of_leaves hroot hleaves, fun hg names => files_of_leaves hroot hleaves hg⟩

/-- A directory is in the way of a blob that is written beside another one. -/
theorem failed_write_leaves_no_file_beside_another :
    let file : FileName := ⟨"a.rs", by decide⟩
    let kept : FileName := ⟨"b.rs", by decide⟩
    let tree := (((FileTree.empty.put ["store"] .directory).put ["store", "one"] .directory).put
      ["store", "one", "a.rs"] .directory).put ["store", "one", "b.rs"] (.file [7])
    let s := ofTree (.ofText [] "store") tree 7
    let written := s.write "one" file [1, 2]
    written.1 = .error (.system "store/one/a.rs" .isDirectory) ∧
      (∀ place content, written.2.tree.node? place = some (.file content) →
        s.tree.node? place = some (.file content)) ∧
      (∀ any, written.2.blob? "one" any = s.blob? "one" any) ∧
      (∀ any, written.2.blob? "one/.." any = s.blob? "one/.." any) ∧
      written.2.files "one" = .ok [kept] := by
  intro file kept tree s written
  have hfault : written.1 = .error (.system "store/one/a.rs" .isDirectory) := by decide +kernel
  have hagainst : s.writeAgainst "one" file [1, 2] .isDirectory none =
      (.error (.system "store/one/a.rs" .isDirectory), written.2) :=
    (s.writeAgainst_none "one" file [1, 2] .isDirectory).trans (Prod.ext hfault rfl)
  obtain ⟨hfiles, -, -, hblobs, hlisting⟩ := failed_write_leaves_no_file hagainst
  have hone : s.tree.Guards (s.directory "one") :=
    Or.inl ⟨["store", "one"], by decide +kernel, Or.inr (by decide +kernel)⟩
  have hback : s.tree.Guards (s.directory "one/..") :=
    Or.inl ⟨["store"], by decide +kernel, Or.inr (by decide +kernel)⟩
  refine ⟨hfault, fun place content hn => ?_, hblobs "one" hone, hblobs "one/.." hback,
    (hlisting hone [kept]).mpr (by decide +kernel)⟩
  rcases hfiles place content hn with hbefore | ⟨-, hrest⟩
  · exact hbefore
  · cases hrest

/-- A temporary file stays when its filling is stopped, a new directory opens a path back up, and a
leftover goes. -/
theorem failed_write_can_leave_traces :
    let file : FileName := ⟨"a.rs", by decide⟩
    let other : FileName := ⟨"b.rs", by decide⟩
    let store := FileTree.empty.put ["store"] .directory
    let root := Path.ofText [] "store"
    (let s := ofTree root store 7
      let written := s.writeAgainst "one" file [1, 2] .notFound (some (.filling 1))
      written.1.isOk = false ∧ s.tree.node? ["store", "one", ".tmp-7-0"] = none ∧
        written.2.tree.node? ["store", "one", ".tmp-7-0"] = some (.file [1])) ∧
    (let s := ofTree root ((store.put ["store", "a.rs"] (.file [7])).put ["store", "b.rs"]
        .directory) 7
      let written := s.write "new/.." other [1, 2]
      written.1.isOk = false ∧ s.files "new/.." = .ok [] ∧ written.2.files "new/.." = .ok [file] ∧
        s.blob? "new/.." file = none ∧ written.2.blob? "new/.." file = some [7]) ∧
    (let s := ofTree root (((store.put ["store", "one"] .directory).put
        ["store", "one", "a.rs"] .directory).put ["store", "one", ".tmp-7-0"] (.file [9])) 7
      let written := s.write "one" file [1, 2]
      written.1.isOk = false ∧ s.tree.node? ["store", "one", ".tmp-7-0"] = some (.file [9]) ∧
        written.2.tree.node? ["store", "one", ".tmp-7-0"] = none) := by
  decide +kernel

end DirectoryBlobs

end MacroAtlas
