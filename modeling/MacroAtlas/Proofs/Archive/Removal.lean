import MacroAtlas.Proofs.Archive.Memory

/-!
# Sweeping an archive

A sweep looks at one record after the other and removes those that are condemned. No removal touches
another record, so what is removed can be told from the records as they were at the start.
-/

namespace MacroAtlas

namespace Archive

variable {a : Archive MemoryBlobs}

/-- The archive without the record of a file and without anything that it knew of the file. -/
def without (a : Archive MemoryBlobs) (file : FileName) : Archive MemoryBlobs :=
  { a.withBlobs (a.plain.remove file).blobs with
    cache := a.cache.invalidate file
    sites := a.sites.forget file }

/-- It makes no difference when reads are counted. -/
theorem without_countReads (a : Archive MemoryBlobs) (more : Nat) (file : FileName) :
    (a.countReads more).without file = (a.without file).countReads more := rfl

theorem foldl_without_countReads (a : Archive MemoryBlobs) (more : Nat) (files : List FileName) :
    files.foldl without (a.countReads more) = (files.foldl without a).countReads more := by
  induction files generalizing a with
  | nil => rfl
  | cons file rest ih => rw [List.foldl_cons, without_countReads, ih, List.foldl_cons]

/-- The plain view loses the same files. -/
theorem plain_foldl_without (a : Archive MemoryBlobs) (files : List FileName) :
    (files.foldl without a).plain = files.foldl Plain.remove a.plain := by
  induction files generalizing a with
  | nil => rfl
  | cons file rest ih => exact ih (a.without file)

/-- Without some files the archive still has all other blobs. -/
theorem blob?_foldl_without (a : Archive MemoryBlobs) (files : List FileName) (area : String)
    (file : FileName) : (files.foldl without a).store.blobs.blob? area file =
      if area = Store.area ∧ file ∈ files then none else a.store.blobs.blob? area file := by
  have hblob := a.plain.blob?_foldl_remove files area file
  rw [← plain_foldl_without] at hblob
  exact hblob

/-- Without some files each call site has lost them and nothing else. -/
theorem entry?_foldl_without (a : Archive MemoryBlobs) (files : List FileName) (site : CallSite) :
    (files.foldl without a).sites.entry? site =
      (a.sites.entry? site).bind (·.losing? (· ∈ files)) := by
  have hentry := a.plain.entry?_foldl_remove files site
  rw [← plain_foldl_without] at hentry
  exact hentry

/-- The cache drops each file. -/
theorem cache_foldl_without (a : Archive MemoryBlobs) (files : List FileName) :
    (files.foldl without a).cache = files.foldl Cache.invalidate a.cache := by
  induction files generalizing a with
  | nil => rfl
  | cons file rest ih => exact ih (a.without file)

theorem permit_foldl_without (a : Archive MemoryBlobs) (files : List FileName) :
    (files.foldl without a).permit = a.permit := by
  induction files generalizing a with
  | nil => rfl
  | cons file rest ih => exact ih (a.without file)

/-- What an archive without some files offers, it offered before. -/
theorem Faithful.foldl_without (h : a.Faithful) (files : List FileName) :
    (files.foldl without a).Faithful := by
  induction files generalizing a with
  | nil => exact h
  | cons file rest ih =>
      refine ih (Cache.FaithfulTo.invalidate h fun other hf => ?_)
      exact (Plain.map?_remove a.plain file other).trans (if_neg hf)

/-- The own writer that removes a record leaves nothing of it in the cache or with the call
sites. -/
theorem removeRecord_own (a : Archive MemoryBlobs) (file : FileName) :
    a.removeRecord (a.permit .exclusive) file =
      (.ok (a.plain.record? file).isSome, a.without file) := by
  have hremove : ({ a.invalidate file with sites := a.sites.forget file } :
      Archive MemoryBlobs).store.remove (a.permit .exclusive) file =
        (.ok (a.plain.record? file).isSome, (a.withBlobs (a.plain.remove file).blobs).store) :=
    remove_own a file
  simp only [removeRecord, hremove]
  rfl

/-- A test of an archive that looks at the record of a file, at the cost of some reads, and changes
nothing. -/
def Tests (permit : Permit) (cost : Nat)
    (condemns : Archive MemoryBlobs → FileName → Except Failure Bool × Archive MemoryBlobs)
    (test : FileName → Bytes → Bool) : Prop :=
  ∀ (a : Archive MemoryBlobs) (file : FileName), a.permit .exclusive = permit →
    (a.plain.record? file).isSome →
    condemns a file = (.ok ((a.plain.record? file).any (test file)), a.countReads cost)

/-- The own reader of a broken record is told so. -/
theorem isBroken_own (a : Archive MemoryBlobs) (file : FileName) :
    isBroken (a.permit .exclusive) a file =
      (.ok ((a.plain.record? file).any Plain.unreadable), a.countReads 1) := by
  simp only [isBroken, tryRead_own, mk_store_countReads]
  cases a.plain.record? file with
  | none => rfl
  | some bytes =>
      simp only [outcome, Option.any_some, Plain.unreadable]
      cases Record.decode bytes <;> rfl

/-- A collection reads no record. -/
theorem tests_isDead (permit : Permit) (live : List Fingerprint) :
    Tests permit 0 (fun a file => (.ok (isDead live file), a)) fun file _ => isDead live file := by
  intro a file _ hs
  obtain ⟨bytes, hr⟩ := Option.isSome_iff_exists.mp hs
  rw [hr]
  rfl

/-- A purge reads each record once. -/
theorem tests_isBroken (permit : Permit) :
    Tests permit 1 (isBroken permit) fun _ bytes => Plain.unreadable bytes := by
  rintro a file rfl _
  exact isBroken_own a file

section Sweep

variable {permit : Permit} {cost : Nat}
  {condemns : Archive MemoryBlobs → FileName → Except Failure Bool × Archive MemoryBlobs}
  {test : FileName → Bytes → Bool}

/-- A sweep over files that have a record each takes the condemned ones out and counts them. -/
theorem sweep_own (ht : Tests permit cost condemns test) (hp : a.permit .exclusive = permit)
    {files : List FileName} (hn : files.Nodup)
    (hs : ∀ file ∈ files, (a.plain.record? file).isSome) :
    a.sweep permit condemns files =
      (.ok (files.filter fun file => (a.plain.record? file).any (test file)).length,
        ((files.filter fun file => (a.plain.record? file).any (test file)).foldl without
          a).countReads (cost * files.length)) := by
  induction files generalizing a with
  | nil => rfl
  | cons file rest ih =>
      obtain ⟨hfile, hrest⟩ := List.nodup_cons.mp hn
      have hcondemns := ht a file hp (hs file List.mem_cons_self)
      have htotal : cost + cost * rest.length = cost * (rest.length + 1) := by
        rw [Nat.mul_succ, Nat.add_comm]
      cases hany : (a.plain.record? file).any (test file) with
      | false =>
          rw [hany] at hcondemns
          have hsweep := ih (a := a.countReads cost) hp hrest
            fun other ho => hs other (List.mem_cons_of_mem _ ho)
          rw [plain_countReads, foldl_without_countReads, countReads_countReads, htotal] at hsweep
          simp only [sweep, hcondemns, hsweep, List.filter_cons, hany]
          rfl
      | true =>
          rw [hany] at hcondemns
          have hremove := removeRecord_own (a.countReads cost) file
          rw [permit_countReads, hp, plain_countReads, hs file List.mem_cons_self,
            without_countReads] at hremove
          have hplain : (a.without file).plain = a.plain.remove file := rfl
          -- The records of the files still to come are as before.
          have hstill : ∀ other ∈ rest, ((a.without file).plain.record? other).isSome := by
            intro other ho
            have hne : file ≠ other := fun he => hfile (he ▸ ho)
            rw [hplain, Plain.record?_remove, if_neg hne]
            exact hs other (List.mem_cons_of_mem _ ho)
          have hsweep := ih (a := (a.without file).countReads cost) hp hrest hstill
          rw [plain_countReads, hplain, Plain.filter_any_remove _ _ hfile,
            foldl_without_countReads, countReads_countReads, htotal] at hsweep
          simp only [sweep, hcondemns, hremove, hsweep, List.filter_cons, hany, ite_true,
            List.length_cons, List.foldl_cons]
          rfl

/-- Sweeping all files takes the condemned ones out of the archive. -/
theorem sweep_files_own (ht : Tests permit cost condemns test)
    (hp : a.permit .exclusive = permit) :
    a.sweep permit condemns a.plain.files =
      (.ok (a.plain.condemned test).length,
        ((a.plain.condemned test).foldl without a).countReads (cost * a.plain.files.length)) :=
  sweep_own ht hp a.plain.nodup_files fun _ hf => Plain.mem_files.mp hf

end Sweep

/-- The own writer that collects takes the files out that are not live. It reads no record. -/
theorem collect_own (a : Archive MemoryBlobs) (live : List Fingerprint) :
    a.collect (a.permit .exclusive) live =
      (.ok (a.plain.condemned fun file _ => isDead live file).length,
        (a.plain.condemned fun file _ => isDead live file).foldl without a) := by
  simp only [collect, files_own, sweep_files_own (tests_isDead _ live) rfl, Nat.zero_mul]
  rfl

/-- The own writer that purges reads each record once and takes the files out whose records are
broken. -/
theorem purge_own (a : Archive MemoryBlobs) :
    a.purge (a.permit .exclusive) =
      (.ok (a.plain.condemned fun _ bytes => Plain.unreadable bytes).length,
        ((a.plain.condemned fun _ bytes => Plain.unreadable bytes).foldl without
          a).countReads a.plain.files.length) := by
  simp only [purge, files_own, sweep_files_own (tests_isBroken _) rfl, Nat.one_mul]

/-- To the plain view, taking the condemned files out is discarding them. -/
theorem plain_foldl_without_condemned (a : Archive MemoryBlobs) (test : FileName → Bytes → Bool) :
    ((a.plain.condemned test).foldl without a).plain = (a.plain.discard test).2 :=
  plain_foldl_without a _

end Archive

end MacroAtlas
