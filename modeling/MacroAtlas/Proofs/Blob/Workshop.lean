import Mathlib.Data.List.Nodup
import MacroAtlas.Proofs.Blob.Directory

/-!
# Writes under way

Writes to a directory store take their steps one by one and in turns, and each may fail or stop at
any of them. Another run may go on with what it finds. Each rename and each removal is recorded as a
change. Temporary files are told apart by numbers that are given out in turn.
-/

namespace MacroAtlas

/-- How far a write has come. -/
inductive WriteStage where
  /-- It was asked for. -/
  | requested
  /-- Its directory was made. -/
  | prepared
  /-- Its temporary file was created, and may hold some of the bytes. -/
  | staged (number : UInt64)
  /-- Its temporary file holds all the bytes. -/
  | filled (number : UInt64)
  /-- Its temporary file could not be renamed. -/
  | refused (number : UInt64)
  /-- It takes no further step. -/
  | over
  deriving DecidableEq

/-- The number of the temporary file, while there may be one. -/
def WriteStage.number? : WriteStage → Option UInt64
  | .staged number => some number
  | .filled number => some number
  | .refused number => some number
  | _ => none

/-- A write under way. -/
structure Draft where
  /-- The area of the blob. -/
  area : String
  /-- The file of the blob. -/
  file : FileName
  /-- The bytes of the blob. -/
  bytes : Bytes
  /-- How far the write has come. -/
  stage : WriteStage
  deriving DecidableEq

/-- What may become of a write next. -/
inductive WriteAction where
  /-- It takes its next step. -/
  | advance
  /-- Some of its bytes are written into its temporary file. -/
  | pour (length : Nat)
  /-- Its next step fails for a reason from outside. -/
  | fail
  /-- It goes no further. -/
  | stop
  deriving DecidableEq

/-- A change of the blobs. -/
inductive BlobChange where
  /-- A temporary file with these bytes was renamed. -/
  | written (area : String) (file : FileName) (bytes : Bytes)
  /-- A blob was removed. -/
  | removed (area : String) (file : FileName)
  deriving DecidableEq

/-- The blobs once one of them has changed. -/
def BlobChange.apply (blobs : String → FileName → Option Bytes) :
    BlobChange → String → FileName → Option Bytes
  | .written area file bytes, other, any =>
    if area = other ∧ file = any then some bytes else blobs other any
  | .removed area file, other, any =>
    if area = other ∧ file = any then none else blobs other any

/-- What an action comes to. -/
structure Progress where
  /-- The change of the blobs. -/
  change : Option BlobChange
  /-- The store afterwards. -/
  store : DirectoryBlobs
  /-- How far the write has come. -/
  stage : WriteStage

namespace Draft

/-- Takes the next step of a write. One that fails is the last, but for the clean-up behind a failed
rename. -/
def advance (d : Draft) (s : DirectoryBlobs) : Progress :=
  match d.stage with
  | .requested =>
    match s.prepare d.area with
    | (.ok _, s) => ⟨none, s, .prepared⟩
    | (.error _, s) => ⟨none, s, .over⟩
  | .prepared =>
    match s.stage d.area with
    | (.ok number, s) => ⟨none, s, .staged number⟩
    | (.error _, s) => ⟨none, s, .over⟩
  | .staged number =>
    match s.fill d.area number d.bytes with
    | (.ok _, s) => ⟨none, s, .filled number⟩
    | (.error _, s) => ⟨none, s, .over⟩
  | .filled number =>
    match s.publish d.area number d.file with
    | (.ok _, s) => ⟨some (.written d.area d.file d.bytes), s, .over⟩
    | (.error _, s) => ⟨none, s, .refused number⟩
  | .refused number => ⟨none, s.discard d.area number, .over⟩
  | .over => ⟨none, s, .over⟩

/-- Does to a write what becomes of it. -/
def act (d : Draft) (s : DirectoryBlobs) : WriteAction → Progress
  | .advance => d.advance s
  | .pour length =>
    match d.stage with
    | .staged number => ⟨none, (s.fill d.area number (d.bytes.take length)).2, d.stage⟩
    | _ => ⟨none, s, d.stage⟩
  | .fail =>
    match d.stage with
    | .filled number => ⟨none, s, .refused number⟩
    | _ => ⟨none, s, .over⟩
  | .stop => ⟨none, s, .over⟩

end Draft

/-- What may happen around a store. -/
inductive StoreEvent where
  /-- A write is asked for. -/
  | request (area : String) (file : FileName) (bytes : Bytes)
  /-- Something becomes of the write with an index. -/
  | act (index : Nat) (action : WriteAction)
  /-- A blob is removed, if there is one. -/
  | remove (area : String) (file : FileName)
  /-- The run ends, and another one begins. -/
  | restart (run : Nat)
  deriving DecidableEq

/-- The area of an event, if it names one. -/
def StoreEvent.area? : StoreEvent → Option String
  | .request area _ _ => some area
  | .remove area _ => some area
  | _ => none

/-- A store and the writes that its run was asked for. -/
structure Workshop where
  /-- The store. -/
  store : DirectoryBlobs
  /-- The writes, in the order in which they were asked for. -/
  drafts : List Draft

namespace Workshop

/-- A workshop without any work. -/
def ofStore (s : DirectoryBlobs) : Workshop := ⟨s, []⟩

/-- The numbers of the temporary files that writes under way have. -/
def numbers (w : Workshop) : List UInt64 := w.drafts.filterMap (·.stage.number?)

/-- Lets something happen. -/
def step (w : Workshop) : StoreEvent → Option BlobChange × Workshop
  | .request area file bytes =>
    (none, { w with drafts := w.drafts ++ [⟨area, file, bytes, .requested⟩] })
  | .act index action =>
    match w.drafts[index]? with
    | none => (none, w)
    | some d =>
      let progress := d.act w.store action
      (progress.change,
        ⟨progress.store, w.drafts.set index { d with stage := progress.stage }⟩)
  | .remove area file =>
    let (result, store) := w.store.remove area file
    (if result = .ok true then some (.removed area file) else none, { w with store })
  | .restart run => (none, .ofStore (.ofTree w.store.root w.store.tree run))

/-- The workshop after some events. -/
def after (w : Workshop) (history : List StoreEvent) : Workshop :=
  history.foldl (fun w event => (w.step event).2) w

/-- The changes of blobs that some events bring. -/
def changes (w : Workshop) : List StoreEvent → List BlobChange
  | [] => []
  | event :: rest => (w.step event).1.toList ++ (w.step event).2.changes rest

/-- A write that nothing comes in the way of is the write of the store. -/
theorem after_request (s : DirectoryBlobs) (area : String) (file : FileName) (bytes : Bytes) :
    let history := .request area file bytes :: List.replicate 5 (.act 0 .advance)
    ((ofStore s).after history).store = (s.write area file bytes).2 ∧
      (ofStore s).changes history = match (s.write area file bytes).1 with
        | .ok _ => [.written area file bytes]
        | .error _ => [] := by
  intro history
  have hwrites := s.writes_write area file bytes
  generalize s.write area file bytes = written at hwrites
  cases hwrites with
  | unprepared prepare =>
      simp [history, List.replicate, after, changes, ofStore, step, Draft.act, Draft.advance,
        prepare]
  | unstaged prepare stage =>
      simp [history, List.replicate, after, changes, ofStore, step, Draft.act, Draft.advance,
        prepare, stage]
  | unfilled prepare stage fill =>
      simp [history, List.replicate, after, changes, ofStore, step, Draft.act, Draft.advance,
        prepare, stage, fill]
  | unpublished prepare stage fill publish =>
      simp [history, List.replicate, after, changes, ofStore, step, Draft.act, Draft.advance,
        prepare, stage, fill, publish]
  | published prepare stage fill publish =>
      simp [history, List.replicate, after, changes, ofStore, step, Draft.act, Draft.advance,
        prepare, stage, fill, publish]

end Workshop

namespace DirectoryBlobs

variable (s : DirectoryBlobs) (area : String) (file : FileName) (number : UInt64) (bytes : Bytes)

/-- Making a directory takes no number. -/
theorem nextTemporary_prepare : (s.prepare area).2.nextTemporary = s.nextTemporary := by
  unfold prepare
  simp only
  split <;> rfl

/-- The next number is taken whether or not the file can be created. -/
theorem nextTemporary_stage : (s.stage area).2.nextTemporary = s.nextTemporary + 1 := by
  unfold stage
  simp only
  split <;> rfl

/-- The number that is taken is the next one. -/
theorem eq_nextTemporary_of_stage (h : (s.stage area).1 = .ok number) :
    number = s.nextTemporary := by
  unfold stage at h
  simp only at h
  split at h
  · exact (Except.ok.inj h).symm
  · cases h

/-- Filling a file takes none. -/
theorem nextTemporary_fill : (s.fill area number bytes).2.nextTemporary = s.nextTemporary := by
  unfold fill
  simp only
  split <;> rfl

/-- Nor does renaming it. -/
theorem nextTemporary_publish :
    (s.publish area number file).2.nextTemporary = s.nextTemporary := by
  unfold publish
  simp only
  split <;> rfl

/-- Nor does discarding it. -/
theorem nextTemporary_discard : (s.discard area number).nextTemporary = s.nextTemporary := by
  unfold discard
  split <;> rfl

/-- Nor does removing a blob. -/
theorem nextTemporary_remove : (s.remove area file).2.nextTemporary = s.nextTemporary := by
  unfold remove
  simp only
  split <;> rfl

end DirectoryBlobs

/-- A write keeps the number that it had, if any, or takes the next one. -/
structure Draft.Keeps (d : Draft) (s : DirectoryBlobs) (p : Progress) : Prop where
  /-- No number is given out. -/
  next_eq : p.store.nextTemporary = s.nextTemporary
  /-- A number is the same as before. -/
  number?_eq : ∀ number, p.stage.number? = some number → d.stage.number? = some number

/-- A write takes the next number, if any. -/
structure Draft.Takes (s : DirectoryBlobs) (p : Progress) : Prop where
  /-- A number is given out. -/
  next_eq : p.store.nextTemporary = s.nextTemporary + 1
  /-- It is the number of the write. -/
  number?_eq : ∀ number, p.stage.number? = some number → number = s.nextTemporary

namespace Draft

variable {d : Draft} {s store : DirectoryBlobs} {change : Option BlobChange} {stage : WriteStage}
  {number : UInt64}

/-- A write without a number keeps none. -/
theorem Keeps.of_none (hs : store.nextTemporary = s.nextTemporary) (hn : stage.number? = none) :
    d.Keeps s ⟨change, store, stage⟩ :=
  ⟨hs, fun number h => by rw [hn] at h; cases h⟩

theorem Keeps.of_same (hs : store.nextTemporary = s.nextTemporary)
    (hn : stage.number? = d.stage.number?) : d.Keeps s ⟨change, store, stage⟩ :=
  ⟨hs, fun _ h => hn.symm.trans h⟩

/-- The next step of a write keeps its number or takes the next one. -/
theorem keeps_or_takes_advance (d : Draft) (s : DirectoryBlobs) :
    d.Keeps s (d.advance s) ∨ Takes s (d.advance s) := by
  unfold advance
  split
  · have hnext := s.nextTemporary_prepare d.area
    split
    all_goals
      next hs =>
        rw [hs] at hnext
        exact Or.inl (.of_none hnext rfl)
  · have hnext := s.nextTemporary_stage d.area
    split
    · next number after hs =>
        have hnumber := s.eq_nextTemporary_of_stage d.area number (by rw [hs])
        rw [hs] at hnext
        exact Or.inr ⟨hnext, fun other h => (Option.some.inj h).symm.trans hnumber⟩
    · next hs =>
        rw [hs] at hnext
        exact Or.inr ⟨hnext, fun number h => nomatch h⟩
  · next number hstage =>
      have hnext := s.nextTemporary_fill d.area number d.bytes
      split
      · next hs =>
          rw [hs] at hnext
          exact Or.inl (.of_same hnext (by rw [hstage]; rfl))
      · next hs =>
          rw [hs] at hnext
          exact Or.inl (.of_none hnext rfl)
  · next number hstage =>
      have hnext := s.nextTemporary_publish d.area d.file number
      split
      · next hs =>
          rw [hs] at hnext
          exact Or.inl (.of_none hnext rfl)
      · next hs =>
          rw [hs] at hnext
          exact Or.inl (.of_same hnext (by rw [hstage]; rfl))
  · next number hstage => exact Or.inl (.of_none (s.nextTemporary_discard d.area number) rfl)
  · exact Or.inl (.of_none rfl rfl)

/-- Whatever becomes of a write, it gets no number but the next one. -/
theorem keeps_or_takes_act (d : Draft) (s : DirectoryBlobs) (action : WriteAction) :
    d.Keeps s (d.act s action) ∨ Takes s (d.act s action) := by
  cases action with
  | advance => exact d.keeps_or_takes_advance s
  | pour length =>
      unfold act
      cases hstage : d.stage with
      | staged number =>
          have hnext := s.nextTemporary_fill d.area number (d.bytes.take length)
          exact Or.inl (.of_same hnext (by rw [hstage]))
      | _ => exact Or.inl (.of_same rfl (by rw [hstage]))
  | fail =>
      unfold act
      cases hstage : d.stage with
      | filled number => exact Or.inl (.of_same rfl (by rw [hstage]; rfl))
      | _ => exact Or.inl (.of_none rfl rfl)
  | stop => exact Or.inl (.of_none rfl rfl)

end Draft

namespace Workshop

variable {w : Workshop} {count : Nat}

/-- The numbers of the writes under way are different, and each is one of the last that were given
out. -/
structure Numbered (w : Workshop) (count : Nat) : Prop where
  /-- No two writes have the same number. -/
  nodup : w.numbers.Nodup
  /-- No more than so many numbers were given out since. -/
  recent : ∀ number ∈ w.numbers, (w.store.nextTemporary - 1 - number).toNat < count

/-- The numbers stay different when one write gets a number that no other has. -/
theorem nodup_set {drafts : List Draft} {index : Nat} {d : Draft} {stage : WriteStage}
    (h : (drafts.filterMap (·.stage.number?)).Nodup) (hd : drafts[index]? = some d)
    (hn : ∀ number ∈ stage.number?,
      d.stage.number? = some number ∨ number ∉ drafts.filterMap (·.stage.number?)) :
    ((drafts.set index { d with stage }).filterMap (·.stage.number?)).Nodup := by
  obtain ⟨hlt, rfl⟩ := List.getElem?_eq_some_iff.mp hd
  obtain ⟨front, back, hdrafts, -, hset⟩ :=
    @List.exists_of_set _ index { drafts[index] with stage } drafts hlt
  generalize drafts[index] = d at hn hdrafts hset
  have hmiddle : ∀ e : Draft, ((front ++ e :: back).filterMap (·.stage.number?)).Perm
      (e.stage.number?.toList ++ (front ++ back).filterMap (·.stage.number?)) := by
    intro e
    refine (List.perm_middle.filterMap _).trans (.of_eq ?_)
    cases hnumber : e.stage.number? <;> simp [hnumber]
  rw [hdrafts, (hmiddle d).nodup_iff, List.nodup_append] at h
  rw [hset, (hmiddle _).nodup_iff, List.nodup_append]
  obtain ⟨-, hothers, hd'⟩ := h
  refine ⟨?_, hothers, fun number hnumber other hother => ?_⟩
  · cases stage.number? <;> simp
  · rcases hn number (Option.mem_toList.mp hnumber) with hold | hnew
    · exact hd' number (Option.mem_toList.mpr hold) other hother
    · rintro rfl
      refine hnew ?_
      rw [hdrafts, (hmiddle d).mem_iff]
      exact List.mem_append_right _ hother

/-- A number that is in use was so before or is the one that was taken. -/
theorem mem_numbers_set {drafts : List Draft} {index : Nat} {d : Draft} {number : UInt64}
    (h : number ∈ (drafts.set index d).filterMap (·.stage.number?)) :
    number ∈ drafts.filterMap (·.stage.number?) ∨ d.stage.number? = some number := by
  obtain ⟨e, he, hnumber⟩ := List.mem_filterMap.mp h
  rcases List.mem_or_eq_of_mem_set he with hold | rfl
  · exact Or.inl (List.mem_filterMap.mpr ⟨e, hold, hnumber⟩)
  · exact Or.inr hnumber

namespace Numbered

/-- Without any work no number is in use. -/
theorem ofStore (s : DirectoryBlobs) (count : Nat) : (Workshop.ofStore s).Numbered count :=
  ⟨List.nodup_nil, by simp [numbers, Workshop.ofStore]⟩

/-- More numbers may have been given out than were. -/
theorem succ (h : w.Numbered count) : w.Numbered (count + 1) :=
  ⟨h.nodup, fun number hnumber => Nat.lt_succ_of_lt (h.recent number hnumber)⟩

/-- As long as not all words were given out, the next one belongs to no write. -/
theorem next_not_mem (h : w.Numbered count) (hc : count < UInt64.size) :
    w.store.nextTemporary ∉ w.numbers := by
  intro hmem
  have hrecent := h.recent _ hmem
  have hlast : w.store.nextTemporary - 1 - w.store.nextTemporary = -1 := by grind
  have hword : (-1 : UInt64).toNat = UInt64.size - 1 := rfl
  rw [hlast, hword] at hrecent
  omega

/-- Once another number was given out, a number is one further back. -/
theorem recent_succ (h : w.Numbered count) {number : UInt64} (hn : number ∈ w.numbers) :
    (w.store.nextTemporary + 1 - 1 - number).toNat < count + 1 := by
  have hshift : w.store.nextTemporary + 1 - 1 - number =
      w.store.nextTemporary - 1 - number + 1 := by grind
  have hone : (1 : UInt64).toNat = 1 := rfl
  rw [hshift, UInt64.toNat_add, hone]
  exact Nat.lt_of_le_of_lt (Nat.mod_le _ _) (Nat.succ_lt_succ (h.recent number hn))

/-- Whatever becomes of a write, at most one number is given out. -/
theorem act (h : w.Numbered count) (hc : count < UInt64.size) (index : Nat) (action : WriteAction) :
    (w.step (.act index action)).2.Numbered (count + 1) := by
  cases hd : w.drafts[index]? with
  | none =>
      simp only [Workshop.step, hd]
      exact h.succ
  | some d =>
      have hold : ∀ {number}, d.stage.number? = some number → number ∈ w.numbers := fun hnumber =>
        List.mem_filterMap.mpr ⟨d, List.mem_of_getElem? hd, hnumber⟩
      simp only [Workshop.step, hd]
      rcases d.keeps_or_takes_act w.store action with ⟨hnext, hnumbers⟩ | ⟨hnext, hnumbers⟩
      · refine ⟨nodup_set h.nodup hd fun number hnumber => Or.inl (hnumbers number hnumber),
          fun number hnumber => ?_⟩
        rw [hnext]
        refine h.succ.recent number ?_
        rcases mem_numbers_set hnumber with hbefore | hafter
        · exact hbefore
        · exact hold (hnumbers number hafter)
      · refine ⟨nodup_set h.nodup hd fun number hnumber => Or.inr ?_, fun number hnumber => ?_⟩
        · rw [hnumbers number hnumber]
          exact h.next_not_mem hc
        · rw [hnext]
          rcases mem_numbers_set hnumber with hbefore | hafter
          · exact h.recent_succ hbefore
          · rw [hnumbers number hafter]
            simp

/-- At most one number is given out whatever happens. -/
theorem step (h : w.Numbered count) (hc : count < UInt64.size) (event : StoreEvent) :
    (w.step event).2.Numbered (count + 1) := by
  cases event with
  | request area file bytes =>
      have hsame : (w.step (.request area file bytes)).2.numbers = w.numbers := by
        simp [Workshop.step, numbers, WriteStage.number?]
      refine ⟨?_, ?_⟩
      · rw [hsame]
        exact h.nodup
      · rw [hsame]
        exact h.succ.recent
  | act index action => exact h.act hc index action
  | remove area file =>
      refine ⟨h.nodup, ?_⟩
      simp only [Workshop.step, DirectoryBlobs.nextTemporary_remove]
      exact h.succ.recent
  | restart run => exact .ofStore _ _

/-- Numbers stay different through a run that is not too long. -/
theorem after (h : w.Numbered count) {history : List StoreEvent}
    (hc : count + history.length ≤ UInt64.size) :
    (w.after history).Numbered (count + history.length) := by
  induction history generalizing w count with
  | nil => exact h
  | cons event rest ih =>
      rw [List.length_cons] at hc ⊢
      have hrest := ih (h.step (by omega) event) (by omega)
      rwa [Nat.add_right_comm] at hrest

end Numbered

/-- As long as there are no more events than words, writes under way have different numbers. -/
theorem nodup_numbers_after (s : DirectoryBlobs) {history : List StoreEvent}
    (h : history.length ≤ UInt64.size) : ((ofStore s).after history).numbers.Nodup :=
  ((Numbered.ofStore s 0).after (by omega)).nodup

end Workshop

end MacroAtlas
