import MacroAtlas.Proofs.Archive.Discard
import MacroAtlas.Proofs.Archive.Removal
import MacroAtlas.Proofs.Record

/-!
# Which records are usable

A survey, a look-up and a purge each look at the bytes of a record. All take them for the same
thing: the version comes first, and only the payload of the current one matters.
-/

namespace MacroAtlas

/-- How a record of some bytes fares. -/
inductive Record.Fares (file : FileName) : Bytes → RecordStatus → Prop where
  /-- There is no room for a version. -/
  | headless {bytes : Bytes} (short : bytes.length < 2) :
    Fares file bytes (.corrupt (.record file (.headless bytes.length)))
  /-- The version is another one, whatever comes behind it. -/
  | outdated {version : Nat} (payload : Bytes) (fits : version < UInt16.size)
    (other : version ≠ schemaVersion) :
    Fares file (Bytes.littleEndian 2 version ++ payload) (.outdated version)
  /-- The version is the current one, but no map is behind it. -/
  | damaged {payload : Bytes} {fault : MapFault} (faulty : SpanMap.decode payload = .error fault) :
    Fares file (Bytes.littleEndian 2 schemaVersion ++ payload)
      (.corrupt (.record file (.damaged fault)))
  /-- A map is behind the current version. -/
  | valid {payload : Bytes} {map : SpanMap} (decodes : SpanMap.decode payload = .ok map) :
    Fares file (Bytes.littleEndian 2 schemaVersion ++ payload) (.valid map.size)

/-- A map can be had from the record. -/
def RecordStatus.usable : RecordStatus → Bool
  | .valid _ => true
  | .outdated _ | .corrupt _ => false

/-- Any bytes fare in some way. -/
theorem Record.exists_fares (file : FileName) (bytes : Bytes) :
    ∃ status, Fares file bytes status := by
  rcases headless_or_version bytes with short | ⟨version, payload, hv, rfl⟩
  · exact ⟨_, .headless short⟩
  · by_cases hs : version = schemaVersion
    · subst hs
      cases hd : SpanMap.decode payload with
      | error fault => exact ⟨_, .damaged hd⟩
      | ok map => exact ⟨_, .valid hd⟩
    · exact ⟨_, .outdated payload hv hs⟩

namespace Plain

variable {p : Plain} {file : FileName} {bytes : Bytes} {status' : RecordStatus}

/-- How the bytes fare settles the status. -/
theorem status_eq_of_fares (h : Record.Fares file bytes status') : status file bytes = status' := by
  cases h with
  | headless short => rw [status, Record.decode_eq_headless short]
  | outdated payload fits other => rw [status, Record.decode_append fits, if_neg other]
  | damaged faulty =>
      rw [status, Record.decode_append Record.schemaVersion_lt, if_pos rfl, faulty]
      rfl
  | valid decodes =>
      rw [status, Record.decode_append Record.schemaVersion_lt, if_pos rfl, decodes]
      rfl

/-- The status of a record says how its bytes fare, and no other status does. -/
theorem status_eq_iff : status file bytes = status' ↔ Record.Fares file bytes status' := by
  constructor
  · rintro rfl
    obtain ⟨status', h⟩ := Record.exists_fares file bytes
    rw [status_eq_of_fares h]
    exact h
  · exact status_eq_of_fares

/-- The bytes decode to a map just when the status says so, with the number of its links. -/
theorem status_eq_valid_iff {links : Nat} : status file bytes = .valid links ↔
    ∃ map, Record.decode bytes = .ok map ∧ map.size = links := by
  unfold status
  rcases Record.decode bytes with fault | map
  · cases fault <;> simp
  · simp

/-- A record is unreadable when its status is not usable. -/
theorem not_usable_status (file : FileName) (bytes : Bytes) :
    (!(status file bytes).usable) = unreadable bytes := by
  unfold status unreadable
  rcases Record.decode bytes with fault | map
  · cases fault <;> rfl
  · rfl

/-- What a survey tells of a record is its fingerprint and its status. -/
theorem mem_survey {s : RecordSummary} :
    s ∈ p.survey ↔ s.fingerprint = s.file.fingerprint? ∧
      ∃ bytes, p.record? s.file = some bytes ∧ status s.file bytes = s.status := by
  obtain ⟨file, fingerprint, status'⟩ := s
  simp only [survey, List.mem_filterMap, mem_files, Option.map_eq_some_iff, RecordSummary.ofFile,
    RecordSummary.mk.injEq]
  constructor
  · rintro ⟨_, -, bytes, hr, rfl, rfl, rfl⟩
    exact ⟨rfl, bytes, hr, rfl⟩
  · rintro ⟨rfl, bytes, hr, rfl⟩
    exact ⟨file, by rw [hr]; rfl, bytes, hr, rfl, rfl, rfl⟩

/-- The files that a survey picks by their status are those whose records a test of the status
condemns. -/
theorem survey_filter_map_file (p : Plain) (test : RecordStatus → Bool) :
    (p.survey.filter fun s => test s.status).map (·.file) =
      p.condemned fun file bytes => test (status file bytes) := by
  calc (p.survey.filter fun s => test s.status).map (·.file)
      = p.files.filterMap (Option.guard fun file =>
          (p.record? file).any fun bytes => test (status file bytes)) := by
        rw [survey, List.filter_filterMap, List.map_filterMap]
        congr 1
        funext file
        cases hr : p.record? file with
        | none => simp [Option.guard, hr]
        | some bytes =>
            cases ht : test (status file bytes) <;>
              simp [Option.guard, Option.filter, RecordSummary.ofFile, hr, ht]
    _ = p.condemned fun file bytes => test (status file bytes) := by
        rw [List.filterMap_eq_filter]
        rfl

/-- A survey goes through the files in their order and leaves none out. -/
theorem survey_map_file (p : Plain) : p.survey.map (·.file) = p.files := by
  have hall := p.survey_filter_map_file fun _ => true
  rw [List.filter_true] at hall
  rw [hall, condemned, List.filter_eq_self]
  intro file hf
  obtain ⟨bytes, hr⟩ := Option.isSome_iff_exists.mp (mem_files.mp hf)
  rw [hr]
  rfl

/-- The files that a survey finds not usable are those that a purge condemns. -/
theorem survey_not_usable (p : Plain) : (p.survey.filter fun s => !s.status.usable).map (·.file) =
    p.condemned fun _ bytes => unreadable bytes := by
  rw [p.survey_filter_map_file (!·.usable)]
  congr 1
  funext file bytes
  exact not_usable_status file bytes

/-- A survey finds a record valid just when its file has a map, with the number of its links. -/
theorem mem_survey_valid_iff {links : Nat} :
    .ofFile file (.valid links) ∈ p.survey ↔
      ∃ map, p.map? file = some map ∧ map.size = links := by
  rw [mem_survey]
  constructor
  · rintro ⟨-, bytes, (hr : p.record? file = some bytes), hs⟩
    obtain ⟨map, hd, hl⟩ := status_eq_valid_iff.mp hs
    refine ⟨map, ?_, hl⟩
    rw [map?, hr, Option.bind_some, hd]
    rfl
  · rintro ⟨map, hm, hl⟩
    obtain ⟨bytes, hr, hd⟩ := Option.bind_eq_some_iff.mp hm
    refine ⟨rfl, bytes, hr, status_eq_valid_iff.mpr ⟨map, ?_, hl⟩⟩
    cases hdecode : Record.decode bytes with
    | error fault =>
        rw [hdecode] at hd
        cases hd
    | ok map' =>
        rw [hdecode] at hd
        exact congrArg Except.ok (Option.some.inj hd)

end Plain

namespace Archive

variable (a : Archive MemoryBlobs)

/-- A purge that follows another reads the records that are left and finds nothing to remove. -/
theorem purge_purge {count : Nat} {purged : Archive MemoryBlobs}
    (hpurge : a.purge (a.permit .exclusive) = (.ok count, purged)) :
    purged.purge (a.permit .exclusive) =
      (.ok 0, purged.countReads purged.plain.files.length) := by
  let test : FileName → Bytes → Bool := fun _ bytes => Plain.unreadable bytes
  rw [purge_own] at hpurge
  obtain ⟨-, rfl⟩ := Prod.mk.inj hpurge
  have hpermit : ((a.plain.condemned test).foldl without a).permit = a.permit :=
    a.permit_foldl_without _
  have hnone : ((a.plain.condemned test).foldl without a).plain.condemned test = [] := by
    rw [plain_foldl_without_condemned, Plain.condemned_discard_self]
  rw [← hpermit, ← permit_countReads _ a.plain.files.length, purge_own, plain_countReads, hnone]
  rfl

/-- A look-up that the cache cannot serve gives the map that the survey tells of, if any. -/
theorem get_of_miss_survey {held : MapId → Bool} {file : FileName}
    (hmiss : (a.cache.get held file).1 = none) (mode : AccessMode) :
    ∃ found later, a.get held (a.permit mode) file = (.ok found, later) ∧
      ∀ links, (∃ m, found = some m ∧ m.map.size = links) ↔
        .ofFile file (.valid links) ∈ a.plain.survey := by
  rcases hg : a.cache.get held file with ⟨found, cache⟩
  rw [hg] at hmiss
  obtain rfl : found = none := hmiss
  rw [get_of_miss hg]
  simp only [Plain.mem_survey_valid_iff]
  cases a.plain.map? file with
  | none => exact ⟨none, _, rfl, by simp⟩
  | some map => exact ⟨some ⟨a.nextMap, map⟩, _, rfl, by simp⟩

/-- Surveys, look-ups and purges agree on which records are usable, and a purge leaves nothing to a
second one. -/
theorem paths_agree_on_usable (mode : AccessMode) :
    let own := a.permit .exclusive
    let stored := a.store.blobs.blob? Store.area
    ∃ summaries,
      a.records (a.permit mode) = (.ok summaries, a.countReads summaries.length) ∧
      summaries.Pairwise (·.file.text < ·.file.text) ∧
      (∀ file, file ∈ summaries.map (·.file) ↔ (stored file).isSome) ∧
      (∀ s, s ∈ summaries ↔ s.fingerprint = s.file.fingerprint? ∧
        ∃ bytes, stored s.file = some bytes ∧ Record.Fares s.file bytes s.status) ∧
      (∀ held mode' file, (a.cache.get held file).1 = none →
        ∃ found later, a.get held (a.permit mode') file = (.ok found, later) ∧
          ∀ links, (∃ m, found = some m ∧ m.map.size = links) ↔
            ⟨file, file.fingerprint?, .valid links⟩ ∈ summaries) ∧
      let broken := (summaries.filter fun s => !s.status.usable).map (·.file)
      ∃ purged, a.purge own = (.ok broken.length, purged) ∧
        (∀ area file, purged.store.blobs.blob? area file =
          if area = Store.area ∧ file ∈ broken then none else a.store.blobs.blob? area file) ∧
        ∃ later, purged.purge own = (.ok 0, later) := by
  intro own stored
  have hfiles := a.plain.survey_map_file
  refine ⟨a.plain.survey, ?_, ?_, fun file => ?_, fun s => ?_,
    fun held mode' file hmiss => a.get_of_miss_survey hmiss mode', ?_⟩
  · have hlength := congrArg List.length hfiles
    rw [List.length_map] at hlength
    rw [records_own, hlength]
  · have hordered := a.plain.ordered_files
    rw [← hfiles, List.pairwise_map] at hordered
    exact hordered
  · rw [hfiles]
    exact Plain.mem_files
  · simp only [Plain.mem_survey, Plain.status_eq_iff]
    rfl
  · intro broken
    have hbroken : a.plain.condemned (fun _ bytes => Plain.unreadable bytes) = broken :=
      a.plain.survey_not_usable.symm
    have hpurge := a.purge_own
    rw [hbroken] at hpurge
    exact ⟨_, hpurge, a.blob?_foldl_without broken, _, a.purge_purge hpurge⟩

/-- Of three records one holds a map, one is out of date and one is torn. -/
theorem paths_agree_on_usable_mixed :
    let kept : FileName := ⟨"kept", by decide⟩
    let old : FileName := ⟨"old", by decide⟩
    let torn : FileName := ⟨"torn", by decide⟩
    let blobs := (((∅ : Std.ExtTreeMap BlobKey Bytes compare).insert ⟨"notes", old⟩ [7]
      |>.insert ⟨Store.area, torn⟩ [2]).insert ⟨Store.area, old⟩ [1, 0, 7]).insert
        ⟨Store.area, kept⟩ (Record.encode .empty)
    let a : Archive MemoryBlobs := ofBlobs ⟨blobs, 0⟩ 0 2
    a.records (a.permit .shared) = (.ok [⟨kept, none, .valid 0⟩, ⟨old, none, .outdated 1⟩,
        ⟨torn, none, .corrupt (.record torn (.headless 1))⟩], a.countReads 3) ∧
      (∃ m later, a.get (fun _ => false) (a.permit .shared) kept = (.ok (some m), later)) ∧
      ∃ purged later, a.purge (a.permit .exclusive) = (.ok 2, purged) ∧
        purged.store.blobs.blob? Store.area old = none ∧
        purged.store.blobs.blob? "notes" old = some [7] ∧
        purged.purge (a.permit .exclusive) = (.ok 0, later) := by
  intro kept old torn blobs a
  obtain ⟨summaries, hrecords, -, -, -, hget, purged, hpurge, hblob, later, hagain⟩ :=
    paths_agree_on_usable a .shared
  have hlist : (a.records (a.permit .shared)).1 = .ok [⟨kept, none, .valid 0⟩, ⟨old, none, .outdated 1⟩,
      ⟨torn, none, .corrupt (.record torn (.headless 1))⟩] := by
    decide +kernel
  rw [hrecords] at hlist
  obtain rfl := Except.ok.inj hlist
  obtain ⟨found, got, hfound, hvalid⟩ := hget (fun _ => false) .shared kept rfl
  have hname : kept.fingerprint? = none := by decide +kernel
  rw [hname] at hvalid
  obtain ⟨m, rfl, -⟩ := (hvalid 0).mpr List.mem_cons_self
  refine ⟨hrecords, ⟨m, got, hfound⟩, purged, later, hpurge, ?_, ?_, hagain⟩
  · rw [hblob]
    decide +kernel
  · rw [hblob]
    decide +kernel

end Archive

end MacroAtlas
