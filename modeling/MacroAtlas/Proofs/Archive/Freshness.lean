import MacroAtlas.Proofs.Archive.Transparency
import MacroAtlas.Proofs.FileName.Canonical

/-!
# A call site gets its own map or none

What was last stored under a file and last recorded for a call site can be told from the requests
alone. The records follow the one history and the call sites the other, so a look-up for a site
finds what was stored for exactly this fingerprint.
-/

namespace MacroAtlas

namespace Request

/-- The map under a file after a request. A purge takes none away, for what it removes decodes to
none. -/
def lastMap (file : FileName) (before : Option SpanMap) : Request → Option SpanMap
  | .put other map => if other = file then some map else before
  | .record site e =>
    match Archive.mapOf site e with
    | .ok map => if FileName.ofFingerprint e.fingerprint = file then some map else before
    | .error _ => before
  | .collect live => if Archive.isDead live file then none else before
  | _ => before

/-- The fingerprint last recorded for a call site after a request, told from the one before. -/
def lastRecorded (site : CallSite) (before : Option Fingerprint) : Request → Option Fingerprint
  | .record other e =>
    match Archive.mapOf other e with
    | .ok _ => if other = site then some e.fingerprint else before
    | .error _ => before
  | _ => before

end Request

/-- The map last stored under a file, or there at the start, and not removed since. -/
def lastMap (file : FileName) (initial : Option SpanMap) (requests : List Request) :
    Option SpanMap :=
  requests.foldl (Request.lastMap file) initial

/-- The fingerprint of the last expansion recorded for a call site. -/
def lastRecorded (site : CallSite) (requests : List Request) : Option Fingerprint :=
  requests.foldl (Request.lastRecorded site) none

namespace Plain

/-- A purged record decodes to no map. -/
theorem map?_eq_none_of_unreadable {p : Plain} {file : FileName}
    (h : (p.record? file).any unreadable) : p.map? file = none := by
  obtain ⟨bytes, hr, hu⟩ := (Option.any_eq_true _ _).mp h
  rw [map?, hr, Option.bind_some]
  exact Option.isNone_iff_eq_none.mp hu

/-- A collected file has no map, whether or not it had one. -/
theorem map?_discard_isDead (p : Plain) (live : List Fingerprint) (file : FileName) :
    (p.discard fun file _ => Archive.isDead live file).2.map? file =
      if Archive.isDead live file then none else p.map? file := by
  rw [map?_discard]
  cases hr : p.record? file with
  | none => simp [map?, hr]
  | some bytes => rfl

/-- The records follow the history of what was stored. -/
theorem map?_serve (p : Plain) (request : Request) (file : FileName) :
    (p.serve request).2.map? file = request.lastMap file (p.map? file) := by
  cases request with
  | put other map => exact map?_write p other file map
  | record site e =>
      simp only [serve, Request.lastMap]
      cases Archive.mapOf site e with
      | error _ => rfl
      | ok map => exact map?_write p _ file map
  | collect live => exact map?_discard_isDead p live file
  | purge =>
      have hdiscard := map?_discard p (fun _ bytes => unreadable bytes) file
      by_cases hu : (p.record? file).any unreadable
      · rw [if_pos hu] at hdiscard
        exact hdiscard.trans (map?_eq_none_of_unreadable hu).symm
      · rw [if_neg hu] at hdiscard
        exact hdiscard
  | get _ => rfl
  | mapForCall _ _ => rfl
  | state _ _ => rfl
  | records => rfl
  | start _ => rfl
  | giveUp _ => rfl

/-- After a run the map under a file is the one that the requests tell. -/
theorem map?_after (p : Plain) (requests : List Request) (file : FileName) :
    (p.after requests).map? file = lastMap file (p.map? file) requests := by
  induction requests generalizing p with
  | nil => rfl
  | cons request rest ih =>
      have hrest := ih (p.serve request).2
      rw [map?_serve] at hrest
      exact hrest

/-- A call site knows no file but that of a given fingerprint. -/
def Knows (p : Plain) (site : CallSite) (recorded : Option Fingerprint) : Prop :=
  ∀ file, p.sites.last? site = some file → recorded.map .ofFingerprint = some file

/-- A site whose record is discarded knows no file. -/
theorem knows_discard {p : Plain} {site : CallSite} {recorded : Option Fingerprint}
    (h : p.Knows site recorded) (test : FileName → Bytes → Bool) :
    (p.discard test).2.Knows site recorded := by
  intro file hf
  rw [discard, last?_foldl_remove, Option.filter_eq_some_iff] at hf
  exact h file hf.1

/-- What a call site knows follows the history of what was recorded for it. -/
theorem knows_serve {p : Plain} {site : CallSite} {recorded : Option Fingerprint}
    (h : p.Knows site recorded) (request : Request) :
    (p.serve request).2.Knows site (request.lastRecorded site recorded) := by
  cases request with
  | start other =>
      intro file hf
      simp only [serve, CallSites.last?_start] at hf
      exact h file hf
  | giveUp other =>
      intro file hf
      simp only [serve, CallSites.last?_giveUp] at hf
      exact h file hf
  | record other e =>
      simp only [serve, Request.lastRecorded]
      cases Archive.mapOf other e with
      | error _ => exact h
      | ok map =>
          intro file hf
          simp only [CallSites.last?_finish] at hf
          by_cases hs : other = site
          · simp only [hs, ite_true] at hf ⊢
            exact hf
          · simp only [hs, ite_false] at hf ⊢
            exact h file hf
  | collect live => exact knows_discard h _
  | purge => exact knows_discard h _
  | get _ => exact h
  | mapForCall _ _ => exact h
  | state _ _ => exact h
  | records => exact h
  | put _ _ => exact h

/-- What a site knows after a run is told by the requests. -/
theorem knows_after {p : Plain} {site : CallSite} {recorded : Option Fingerprint}
    (h : p.Knows site recorded) (requests : List Request) :
    (p.after requests).Knows site (requests.foldl (Request.lastRecorded site) recorded) := by
  induction requests generalizing p recorded with
  | nil => exact h
  | cons request rest ih => exact ih (knows_serve h request)

/-- A call site of an archive that was fresh at the start knows only the canonical file of what was
last recorded for it. -/
theorem knows_lastRecorded (blobs : MemoryBlobs) (requests : List Request) (site : CallSite) :
    ((ofBlobs blobs).after requests).Knows site (lastRecorded site requests) := by
  refine knows_after (fun file hf => ?_) requests
  simp [ofBlobs, CallSites.last?, CallSites.entry?, CallSites.empty] at hf

/-- Where a call site knows the canonical file of a fingerprint, its look-ups go by that
fingerprint. -/
theorem mapForCall?_of_knows {p : Plain} {site : CallSite} {recorded : Option Fingerprint}
    (h : p.Knows site recorded) (current : Fingerprint) :
    match p.sites.entry? site with
    | some (.expanding _) => p.mapForCall? site current = none
    | none => p.mapForCall? site current = p.map? (.ofFingerprint current)
    | some (.expanded last) =>
      ∃ f, recorded = some f ∧ last = .ofFingerprint f ∧ p.mapForCall? site current =
        if f = current then p.map? (.ofFingerprint current) else none := by
  unfold mapForCall? CallSites.state
  cases he : p.sites.entry? site with
  | none => rfl
  | some entry =>
      cases entry with
      | expanding last => rfl
      | expanded last =>
          have hlast : p.sites.last? site = some last := by
            simp [CallSites.last?, he, SiteEntry.last?]
          obtain ⟨f, hf, rfl⟩ := Option.map_eq_some_iff.mp (h last hlast)
          refine ⟨f, hf, rfl, ?_⟩
          by_cases hc : f = current
          · simp only [FileName.fingerprint?_ofFingerprint, hc, ite_true]
          · simp only [FileName.fingerprint?_ofFingerprint, Option.some.injEq, hc, ite_false]

end Plain

namespace ArchiveSession

/-- A look-up for a call site finds the map last stored for just the fingerprint asked for, or
none. -/
theorem mapForCall_fresh (blobs : MemoryBlobs) (capacity : Nat) (steps : List OwnStep)
    (held : MapId → Bool) (mode : AccessMode) (site : CallSite) (current : Fingerprint) :
    let archive := ((ofBlobs blobs capacity).after steps).archive
    let file := FileName.ofFingerprint current
    let stored := archive.plain.map? file
    stored = lastMap file ((Plain.ofBlobs blobs).map? file) (requestsOf steps) ∧
      ∃ found after,
        archive.mapForCall held (archive.permit mode) site current = (.ok found, after) ∧
        match archive.sites.entry? site with
        | some (.expanding _) => found.map (·.map) = none
        | none => found.map (·.map) = stored
        | some (.expanded last) =>
          ∃ recorded, lastRecorded site (requestsOf steps) = some recorded ∧
            last = .ofFingerprint recorded ∧
            found.map (·.map) = if recorded = current then stored else none := by
  intro archive file stored
  obtain ⟨-, hplain, hfaithful⟩ := contents_eq_plain (faithful_ofBlobs blobs capacity) steps
  refine ⟨?_, ?_⟩
  · have hmap := Plain.map?_after (Plain.ofBlobs blobs) (requestsOf steps) file
    rw [← hmap]
    exact congrArg (Plain.map? · file) hplain
  have hknows : archive.plain.Knows site (lastRecorded site (requestsOf steps)) := by
    rw [hplain]
    exact Plain.knows_lastRecorded blobs (requestsOf steps) site
  obtain ⟨found, after, hget, hfound, -, -⟩ :=
    Archive.mapForCall_own hfaithful held mode site current
  refine ⟨found, after, hget, ?_⟩
  rw [hfound]
  exact Plain.mapForCall?_of_knows hknows current

end ArchiveSession

end MacroAtlas
