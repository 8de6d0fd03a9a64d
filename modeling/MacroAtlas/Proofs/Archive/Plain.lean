import MacroAtlas.Proofs.Archive.CallSites
import MacroAtlas.Proofs.Archive.Requests
import MacroAtlas.Proofs.Blob.Memory
import MacroAtlas.Proofs.Payload.Shortest

/-!
# The archive without a cache

A plain archive is nothing but blobs and call sites. Whoever asks for a map gets the stored record,
decoded anew. What is collected or purged is told from the stored records at once.
-/

namespace MacroAtlas

/-- Blobs and call sites. -/
structure Plain where
  /-- The blobs. -/
  blobs : Std.ExtTreeMap BlobKey Bytes compare
  /-- The call sites. -/
  sites : CallSites

namespace Plain

/-- A plain archive over some blobs, with no call site known. -/
def ofBlobs (blobs : MemoryBlobs) : Plain := ⟨blobs.blobs, .empty⟩

/-- The blob under an area and a file. -/
def blob? (p : Plain) (area : String) (file : FileName) : Option Bytes :=
  p.blobs[BlobKey.mk area file]?

/-- The record under a file. -/
def record? (p : Plain) (file : FileName) : Option Bytes := p.blobs[BlobKey.mk Store.area file]?

/-- The map that the record under a file decodes to. -/
def map? (p : Plain) (file : FileName) : Option SpanMap :=
  (p.record? file).bind fun bytes => (Record.decode bytes).toOption

/-- The files with a record, in the order of their names. -/
def files (p : Plain) : List FileName :=
  (p.blobs.keys.filter fun key => key.area = Store.area).map (·.file)

/-- Stores a map under a file. -/
def write (p : Plain) (file : FileName) (map : SpanMap) : Plain :=
  { p with blobs := p.blobs.insert ⟨Store.area, file⟩ (Record.encode map) }

/-- Removes the record under a file, which all call sites forget. -/
def remove (p : Plain) (file : FileName) : Plain :=
  ⟨p.blobs.erase ⟨Store.area, file⟩, p.sites.forget file⟩

/-- Writing replaces one record. -/
theorem record?_write (p : Plain) (file other : FileName) (map : SpanMap) :
    (p.write file map).record? other =
      if file = other then some (Record.encode map) else p.record? other := by
  simp only [record?, write, Std.ExtTreeMap.getElem?_insert, Std.LawfulEqCmp.compare_eq_iff_eq,
    BlobKey.mk.injEq, true_and]

/-- Removing takes one record away. -/
theorem record?_remove (p : Plain) (file other : FileName) :
    (p.remove file).record? other = if file = other then none else p.record? other := by
  simp only [record?, remove, Std.ExtTreeMap.getElem?_erase, Std.LawfulEqCmp.compare_eq_iff_eq,
    BlobKey.mk.injEq, true_and]

/-- A map that is written is what its record decodes to from now on. -/
theorem map?_write (p : Plain) (file other : FileName) (map : SpanMap) :
    (p.write file map).map? other = if file = other then some map else p.map? other := by
  simp only [map?, record?_write]
  split
  · simp only [Option.bind_some, Record.decode_encode]
    rfl
  · rfl

/-- So no map is under a file that was removed. -/
theorem map?_remove (p : Plain) (file other : FileName) :
    (p.remove file).map? other = if file = other then none else p.map? other := by
  simp only [map?, record?_remove]
  split <;> rfl

/-- The files are those that have a record. -/
theorem mem_files {p : Plain} {file : FileName} : file ∈ p.files ↔ (p.record? file).isSome :=
  MemoryBlobs.mem_filesOf ⟨p.blobs, 0⟩ Store.area

/-- The files are listed in the order of their names. -/
theorem ordered_files (p : Plain) : p.files.Pairwise (·.text < ·.text) :=
  MemoryBlobs.ordered_filesOf ⟨p.blobs, 0⟩ Store.area

/-- Every file is listed once. -/
theorem nodup_files (p : Plain) : p.files.Nodup := by
  apply p.ordered_files.imp
  intro file other hlt he
  subst he
  exact String.lt_irrefl file.text hlt

/-- The files whose record a test condemns. -/
def condemned (p : Plain) (test : FileName → Bytes → Bool) : List FileName :=
  p.files.filter fun file => (p.record? file).any (test file)

/-- Removes the records that a test condemns; tells how many there were. -/
def discard (p : Plain) (test : FileName → Bytes → Bool) : Except Failure ArchiveAnswer × Plain :=
  (.ok (.count (p.condemned test).length), (p.condemned test).foldl remove p)

/-- The files that a test condemns are those whose record it condemns. -/
theorem mem_condemned {p : Plain} {test : FileName → Bytes → Bool} {file : FileName} :
    file ∈ p.condemned test ↔ (p.record? file).any (test file) := by
  simp only [condemned, List.mem_filter, mem_files, and_iff_right_iff_imp, Option.any_eq_true]
  rintro ⟨bytes, hr, -⟩
  rw [hr]
  rfl

/-- What a test says of other files stays as it was when one is removed. -/
theorem filter_any_remove (p : Plain) (test : FileName → Bytes → Bool) {file : FileName}
    {others : List FileName} (hf : file ∉ others) :
    (others.filter fun other => ((p.remove file).record? other).any (test other)) =
      others.filter fun other => (p.record? other).any (test other) := by
  refine List.filter_congr fun other ho => ?_
  have hne : file ≠ other := fun he => hf (he ▸ ho)
  rw [record?_remove, if_neg hne]

/-- A removal concerns the one record, and no blob of another area. -/
theorem blob?_remove (p : Plain) (removed : FileName) (area : String) (file : FileName) :
    (p.remove removed).blob? area file =
      if Store.area = area ∧ removed = file then none else p.blob? area file := by
  simp only [blob?, remove, Std.ExtTreeMap.getElem?_erase, Std.LawfulEqCmp.compare_eq_iff_eq,
    BlobKey.mk.injEq]

/-- Once the records of some files are removed, all other blobs are as before. -/
theorem blob?_foldl_remove (p : Plain) (files : List FileName) (area : String) (file : FileName) :
    (files.foldl remove p).blob? area file =
      if area = Store.area ∧ file ∈ files then none else p.blob? area file := by
  induction files generalizing p with
  | nil => simp
  | cons removed rest ih =>
      rw [List.foldl_cons, ih, blob?_remove]
      by_cases ha : area = Store.area
      · by_cases hr : file = removed
        · simp [ha, hr]
        · simp [ha, hr, Ne.symm hr]
      · simp [ha, Ne.symm ha]

/-- Once some files are removed, their records are gone and the others are as before. -/
theorem record?_foldl_remove (p : Plain) (files : List FileName) (file : FileName) :
    (files.foldl remove p).record? file = if file ∈ files then none else p.record? file := by
  have hblob := p.blob?_foldl_remove files Store.area file
  simp only [true_and] at hblob
  exact hblob

/-- Once some files are removed, each site has lost them and nothing else. -/
theorem entry?_foldl_remove (p : Plain) (files : List FileName) (site : CallSite) :
    (files.foldl remove p).sites.entry? site =
      (p.sites.entry? site).bind (·.losing? (· ∈ files)) := by
  induction files generalizing p with
  | nil => cases he : p.sites.entry? site <;> simp [he, SiteEntry.losing?_none]
  | cons removed rest ih =>
      rw [List.foldl_cons, ih, remove, CallSites.entry?_forget, Option.bind_assoc]
      congr 1
      funext entry
      rw [entry.without?_eq_losing?, entry.bind_losing?_losing?]
      congr 1
      funext file
      simp

/-- Once some files are removed, no site has one of them for its last expansion. -/
theorem last?_foldl_remove (p : Plain) (files : List FileName) (site : CallSite) :
    (files.foldl remove p).sites.last? site = (p.sites.last? site).filter (· ∉ files) := by
  rw [CallSites.last?, entry?_foldl_remove, CallSites.last?]
  cases p.sites.entry? site with
  | none => rfl
  | some entry =>
      have hlosing := entry.bind_last?_losing? (· ∈ files)
      simpa using hlosing

/-- What is discarded decodes to no map any more. -/
theorem map?_discard (p : Plain) (test : FileName → Bytes → Bool) (file : FileName) :
    (p.discard test).2.map? file =
      if (p.record? file).any (test file) then none else p.map? file := by
  simp only [map?, discard, record?_foldl_remove, mem_condemned]
  split <;> rfl

/-- The bytes are no record of a map under the current version. -/
def unreadable (bytes : Bytes) : Bool := (Record.decode bytes).toOption.isNone

/-- How a record fares. -/
def status (file : FileName) (bytes : Bytes) : RecordStatus :=
  match Record.decode bytes with
  | .ok map => .valid map.size
  | .error (.outdated version) => .outdated version
  | .error fault => .corrupt (.record file fault)

/-- How the stored records fare. -/
def survey (p : Plain) : List RecordSummary :=
  p.files.filterMap fun file => (p.record? file).map fun bytes => .ofFile file (status file bytes)

/-- Answers that hand a map over that no slot keeps. -/
def handOver (map : Option SpanMap) : ArchiveAnswer := .map (map.map fun m => ⟨m, []⟩)

/-- The map of a call site, if its call is as it was when it was expanded. -/
def mapForCall? (p : Plain) (site : CallSite) (current : Fingerprint) : Option SpanMap :=
  match p.sites.state site current with
  | .expanding | .stale _ => none
  | .unexpanded | .expanded _ => p.map? (.ofFingerprint current)

/-- Answers a request. -/
def serve (p : Plain) : Request → Except Failure ArchiveAnswer × Plain
  | .get file => (.ok (handOver (p.map? file)), p)
  | .mapForCall site current => (.ok (handOver (p.mapForCall? site current)), p)
  | .state site current => (.ok (.state (p.sites.state site current)), p)
  | .records => (.ok (.records p.survey), p)
  | .put file map => (.ok (handOver (some map)), p.write file map)
  | .start site => (.ok .accepted, { p with sites := p.sites.start site })
  | .giveUp site => (.ok .accepted, { p with sites := p.sites.giveUp site })
  | .record site e =>
    match Archive.mapOf site e with
    | .error fault => (.error (.fault fault), p)
    | .ok map =>
      let file := FileName.ofFingerprint e.fingerprint
      (.ok (.file file), { p.write file map with sites := p.sites.finish site file })
  | .collect live => p.discard fun file _ => Archive.isDead live file
  | .purge => p.discard fun _ bytes => unreadable bytes

/-- The plain archive after some requests. -/
def after (p : Plain) (requests : List Request) : Plain :=
  requests.foldl (fun p request => (p.serve request).2) p

/-- The answers to some requests. -/
def answers (p : Plain) : List Request → List (Except Failure ArchiveAnswer)
  | [] => []
  | request :: rest => (p.serve request).1 :: (p.serve request).2.answers rest

end Plain

end MacroAtlas
