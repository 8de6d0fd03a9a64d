import MacroAtlas.Proofs.Archive.Plain
import MacroAtlas.Proofs.Blob.Listing

/-!
# Cleaning the records of a directory

A sweep over the records in a directory fails nowhere once they are listed. What it leaves are the
records that its test does not condemn, and what it tells is by how many they became fewer. Two
sweeps make one by either test.
-/

namespace MacroAtlas

theorem Store.area_ne_empty : Store.area ≠ "" := by decide

namespace Archive

variable {a b : Archive DirectoryBlobs} {file : FileName} {bytes : Bytes} {files : List FileName}

/-- The record under a file. -/
def record? (a : Archive DirectoryBlobs) (file : FileName) : Option Bytes :=
  a.store.blobs.blob? Store.area file

/-- The archive lists these files. -/
def Lists (a : Archive DirectoryBlobs) (files : List FileName) : Prop :=
  a.store.blobs.files Store.area = .ok files

theorem Lists.enumerates (h : a.Lists files) : a.store.blobs.Enumerates Store.area files :=
  DirectoryBlobs.enumerates_files Store.area_ne_empty h

/-- The files that are listed are those with a record. -/
theorem Lists.mem_iff (h : a.Lists files) : file ∈ files ↔ (a.record? file).isSome :=
  h.enumerates.mem_iff file

/-- No file is listed twice. -/
theorem Lists.nodup (h : a.Lists files) : files.Nodup := h.enumerates.nodup

/-- The store lists them to an own reader. -/
theorem Lists.files_eq (h : a.Lists files) (mode : AccessMode) :
    a.store.files (a.permit mode) = .ok files := by
  have hlisted : BlobStore.files a.store.blobs Store.area = .ok files := h
  simp only [Store.files, permit, ne_eq, not_true_eq_false, if_false, hlisted]
  rfl

/-- The archive after its own writer removed the record of a file. -/
def dropRecord (a : Archive DirectoryBlobs) (file : FileName) : Archive DirectoryBlobs :=
  (a.removeRecord (a.permit .exclusive) file).2

section DropRecord

variable (a) (file)

theorem store_dropRecord : (a.dropRecord file).store =
    { a.store with blobs := (a.store.blobs.remove Store.area file).2 } := by
  have hallowed := a.allowsWriting_own
  simp only [dropRecord, removeRecord, invalidate, Store.remove, hallowed, if_true]
  rfl

@[simp] theorem permit_dropRecord : (a.dropRecord file).permit = a.permit := by
  funext mode
  rw [permit, permit, store_dropRecord]

/-- The blobs are those without the file. -/
theorem blobs_dropRecord : (a.dropRecord file).store.blobs =
    { a.store.blobs with tree := (a.dropRecord file).store.blobs.tree } := by
  rw [store_dropRecord, ← DirectoryBlobs.remove_snd]

/-- The records of other files stay. -/
theorem record?_dropRecord (other : FileName) :
    (a.dropRecord file).record? other = if file = other then none else a.record? other := by
  rw [record?, store_dropRecord, DirectoryBlobs.blob?_remove]
  rfl

/-- What is left can be listed too. -/
theorem exists_lists_dropRecord (h : ∃ files, a.Lists files) :
    ∃ files, (a.dropRecord file).Lists files := by
  unfold Lists
  rw [store_dropRecord]
  exact DirectoryBlobs.exists_files_remove h file

end DropRecord

/-- The own writer removes any record that is there. -/
theorem removeRecord_of_record? (h : a.record? file = some bytes) :
    a.removeRecord (a.permit .exclusive) file = (.ok true, a.dropRecord file) := by
  have hallowed := a.allowsWriting_own
  have hremoved : (a.store.blobs.remove Store.area file).1 = .ok true :=
    DirectoryBlobs.remove_of_blob? h
  refine Prod.ext ?_ rfl
  simp only [removeRecord, invalidate, Store.remove, hallowed, if_true]
  exact hremoved

/-- An own test that only looks at the records that are there. -/
def Judges (permit : Permit)
    (condemns : Archive DirectoryBlobs → FileName → Except Failure Bool × Archive DirectoryBlobs)
    (test : FileName → Bytes → Bool) : Prop :=
  ∀ (a : Archive DirectoryBlobs) (file : FileName) (bytes : Bytes),
    a.permit .exclusive = permit → a.record? file = some bytes →
      condemns a file = (.ok (test file bytes), a)

/-- A collection goes by the name of a file alone. -/
theorem judges_isDead (permit : Permit) (live : List Fingerprint) :
    Judges permit (fun a file => (.ok (isDead live file), a)) fun file _ => isDead live file :=
  fun _ _ _ _ _ => rfl

/-- A purge goes by the bytes of its record. -/
theorem judges_isBroken (permit : Permit) :
    Judges permit (isBroken permit) fun _ bytes => Plain.unreadable bytes := by
  rintro a file bytes rfl hr
  have hread : BlobStore.read a.store.blobs Store.area file =
      (.ok (some bytes), a.store.blobs) :=
    congrArg (·, a.store.blobs) (DirectoryBlobs.read_of_blob? hr)
  simp only [isBroken, Store.tryRead, permit, ne_eq, not_true_eq_false, if_false, hread,
    Plain.unreadable]
  cases Record.decode bytes <;> rfl

/-- One archive is the other after the removal of the records that a test condemns, of which there
was this number. -/
structure Sifted (test : FileName → Bytes → Bool) (a b : Archive DirectoryBlobs)
    (removed : Nat) : Prop where
  /-- Nothing has changed in the store but the tree. -/
  blobs_eq : b.store.blobs = { a.store.blobs with tree := b.store.blobs.tree }
  /-- The other records are as before. -/
  record?_eq : ∀ file, b.record? file = (a.record? file).filter fun bytes => !test file bytes
  /-- What can be listed before can be listed afterwards, and only the removed is missing. -/
  counted : ∀ files, a.Lists files → ∃ rest, b.Lists rest ∧ removed + rest.length = files.length
  /-- Where nothing is condemned nothing happens. -/
  idle : (∀ file bytes, a.record? file = some bytes → test file bytes = false) →
    removed = 0 ∧ b = a

namespace Sifted

variable {c : Archive DirectoryBlobs} {test test' : FileName → Bytes → Bool} {removed more : Nat}

/-- A sweep that condemns nothing changes nothing. -/
theorem refl (h : ∀ file bytes, a.record? file = some bytes → test file bytes = false) :
    Sifted test a a 0 := by
  refine ⟨rfl, fun file => ?_, fun files hfiles => ⟨files, hfiles, Nat.zero_add _⟩,
    fun _ => ⟨rfl, rfl⟩⟩
  cases hr : a.record? file with
  | none => rfl
  | some bytes => simp [Option.filter_some, h file bytes hr]

/-- Only what the test says of the records that are there matters. -/
theorem congr (h : Sifted test a b removed)
    (ht : ∀ file bytes, a.record? file = some bytes → test file bytes = test' file bytes) :
    Sifted test' a b removed := by
  refine ⟨h.blobs_eq, fun file => ?_, h.counted, fun hnone => h.idle ?_⟩
  · rw [h.record?_eq]
    cases hr : a.record? file with
    | none => rfl
    | some bytes => simp only [Option.filter_some, ht file bytes hr]
  · intro file bytes hr
    rw [ht file bytes hr]
    exact hnone file bytes hr

/-- Sifting by one test and then by another is sifting by either. -/
theorem trans (h : Sifted test a b removed) (h' : Sifted test' b c more) :
    Sifted (fun file bytes => test file bytes || test' file bytes) a c (removed + more) := by
  refine ⟨h'.blobs_eq.trans (by rw [h.blobs_eq]), ?_, ?_, ?_⟩
  · intro file
    rw [h'.record?_eq, h.record?_eq, Option.filter_filter]
    simp only [Bool.not_or]
  · intro files hfiles
    obtain ⟨between, hbetween, hfirst⟩ := h.counted files hfiles
    obtain ⟨rest, hrest, hsecond⟩ := h'.counted between hbetween
    exact ⟨rest, hrest, by omega⟩
  · intro hnone
    obtain ⟨rfl, rfl⟩ := h.idle fun file bytes hr =>
      (Bool.or_eq_false_iff.mp (hnone file bytes hr)).1
    obtain ⟨rfl, rfl⟩ := h'.idle fun file bytes hr =>
      (Bool.or_eq_false_iff.mp (hnone file bytes hr)).2
    exact ⟨rfl, rfl⟩

/-- What was sifted once has nothing that the test condemns. -/
theorem eq_false (h : Sifted test a b removed) (hr : b.record? file = some bytes) :
    test file bytes = false := by
  rw [h.record?_eq, Option.filter_eq_some_iff, Bool.not_eq_true'] at hr
  exact hr.2

/-- The removal of one record makes the listing shorter by one. -/
theorem dropRecord (hr : a.record? file = some bytes) :
    Sifted (fun other _ => other = file) a (a.dropRecord file) 1 := by
  refine ⟨blobs_dropRecord a file, ?_, ?_, ?_⟩
  · intro other
    rw [record?_dropRecord]
    cases a.record? other with
    | none => simp
    | some blob =>
        by_cases he : file = other
        · simp [he]
        · simp [he, Ne.symm he, Option.filter_some]
  · intro files hfiles
    obtain ⟨rest, hrest⟩ := exists_lists_dropRecord a file ⟨files, hfiles⟩
    have hmem : file ∈ files := by
      rw [hfiles.mem_iff, hr]
      rfl
    have hperm : (file :: rest).Perm files := by
      have hgone : file ∉ rest := by simp [hrest.mem_iff, record?_dropRecord]
      rw [List.perm_ext_iff_of_nodup (List.nodup_cons.mpr ⟨hgone, hrest.nodup⟩) hfiles.nodup]
      intro other
      rw [List.mem_cons, hrest.mem_iff, record?_dropRecord, hfiles.mem_iff]
      by_cases he : other = file
      · simp [he, hr]
      · simp [he, Ne.symm he]
    refine ⟨rest, hrest, ?_⟩
    rw [← hperm.length_eq, List.length_cons, Nat.add_comm]
  · intro hnone
    have hself := hnone file bytes hr
    simp at hself

end Sifted

section Sweep

variable {permit : Permit} {test : FileName → Bytes → Bool}
  {condemns : Archive DirectoryBlobs → FileName → Except Failure Bool × Archive DirectoryBlobs}

/-- A sweep over files that have a record each sifts these. -/
theorem sweep_sifted (hj : Judges permit condemns test) (hp : a.permit .exclusive = permit)
    (hn : files.Nodup) (hs : ∀ file ∈ files, (a.record? file).isSome) :
    ∃ removed b, a.sweep permit condemns files = (.ok removed, b) ∧
      Sifted (fun file bytes => file ∈ files && test file bytes) a b removed := by
  induction files generalizing a with
  | nil => exact ⟨0, a, rfl, .refl fun file bytes _ => rfl⟩
  | cons file rest ih =>
      obtain ⟨hfile, hrest⟩ := List.nodup_cons.mp hn
      obtain ⟨bytes, hr⟩ := Option.isSome_iff_exists.mp (hs file List.mem_cons_self)
      have hcondemns := hj a file bytes hp hr
      have hothers : ∀ other ∈ rest, (a.record? other).isSome :=
        fun other ho => hs other (List.mem_cons_of_mem _ ho)
      -- What the test says of the first file is what it says of its bytes.
      have hfirst : ∀ blob, a.record? file = some blob → test file blob = test file bytes := by
        intro blob hb
        rw [Option.some.inj (hb.symm.trans hr)]
      cases ht : test file bytes with
      | false =>
          rw [ht] at hcondemns hfirst
          obtain ⟨removed, b, hsweep, hb⟩ := ih hp hrest hothers
          refine ⟨removed, b, by simp only [sweep, hcondemns, hsweep], hb.congr ?_⟩
          intro other blob ho
          by_cases he : other = file
          · subst he
            simp [hfirst blob ho]
          · simp [he]
      | true =>
          rw [ht] at hcondemns hfirst
          have hremove := removeRecord_of_record? hr
          rw [hp] at hremove
          -- The records of the files still to come are as before.
          have hstill : ∀ other ∈ rest, ((a.dropRecord file).record? other).isSome := by
            intro other ho
            have hne : file ≠ other := fun he => hfile (he ▸ ho)
            rw [record?_dropRecord, if_neg hne]
            exact hothers other ho
          obtain ⟨removed, b, hsweep, hb⟩ :=
            ih (a := a.dropRecord file) (by rw [permit_dropRecord, hp]) hrest hstill
          refine ⟨removed + 1, b, by simp only [sweep, hcondemns, hremove, hsweep]; rfl, ?_⟩
          rw [Nat.add_comm]
          refine ((Sifted.dropRecord hr).trans hb).congr ?_
          intro other blob ho
          by_cases he : other = file
          · subst he
            simp [hfirst blob ho]
          · simp [he]

/-- A sweep over all files sifts the archive. -/
theorem sweep_files_sifted (hj : Judges (a.permit .exclusive) condemns test) (hl : a.Lists files) :
    ∃ removed b, a.sweep (a.permit .exclusive) condemns files = (.ok removed, b) ∧
      Sifted test a b removed := by
  obtain ⟨removed, b, hsweep, hb⟩ :=
    sweep_sifted hj rfl hl.nodup fun file hf => hl.mem_iff.mp hf
  refine ⟨removed, b, hsweep, hb.congr fun file bytes hr => ?_⟩
  have hmem : file ∈ files := by
    rw [hl.mem_iff, hr]
    rfl
  simp [hmem]

end Sweep

/-- The own writer that collects sifts out what is not live. -/
theorem collect_sifted (hl : a.Lists files) (live : List Fingerprint) :
    ∃ removed b, a.collect (a.permit .exclusive) live = (.ok removed, b) ∧
      Sifted (fun file _ => isDead live file) a b removed := by
  simp only [collect, hl.files_eq]
  exact sweep_files_sifted (judges_isDead _ live) hl

/-- The own writer that purges sifts out what does not decode. -/
theorem purge_sifted (hl : a.Lists files) :
    ∃ removed b, a.purge (a.permit .exclusive) = (.ok removed, b) ∧
      Sifted (fun _ bytes => Plain.unreadable bytes) a b removed := by
  simp only [purge, hl.files_eq]
  exact sweep_files_sifted (judges_isBroken _) hl

end Archive

end MacroAtlas
