import MacroAtlas.Proofs.Archive.Removal

/-!
# A cache that nobody notices

A session over blobs in memory answers every request as a plain archive does. Each step keeps the
cache faithful and leaves blobs and call sites as the plain archive has them, so the capacity and
what is given up make no difference.
-/

namespace MacroAtlas

namespace ArchiveSession

/-- A step of a session comes out as it does for a plain archive. -/
def Matches (result : Except Failure ArchiveAnswer × ArchiveSession MemoryBlobs)
    (expected : Except Failure ArchiveAnswer × Plain) : Prop :=
  result.1.map ArchiveAnswer.forgetSlots = expected.1 ∧ result.2.archive.plain = expected.2 ∧
    result.2.archive.Faithful

variable {s : ArchiveSession MemoryBlobs}

/-- A look-up that finds a map hands over its content, into whichever slot. -/
theorem matches_settleMap (s : ArchiveSession MemoryBlobs) (hold : Option String)
    {found : Option SharedMap} {map : Option SpanMap} {after : Archive MemoryBlobs} {p : Plain}
    (hm : found.map (·.map) = map) (hp : after.plain = p) (h : after.Faithful) :
    Matches (s.settleMap hold (.ok found, after)) (.ok (Plain.handOver map), p) := by
  subst hm
  refine ⟨?_, hp, h⟩
  cases found <;> rfl

/-- A look-up answers what the stored record says. -/
private theorem matches_get (h : s.archive.Faithful) (mode : AccessMode) (hold : Option String)
    (file : FileName) :
    Matches (s.step (.get (s.archive.permit mode) file hold))
      (s.archive.plain.serve (.get file)) := by
  obtain ⟨found, after, hget, hfound, hplain, hfaithful⟩ :=
    Archive.get_own h s.held mode file
  simp only [step, hget]
  exact matches_settleMap s hold hfound hplain hfaithful

/-- So does a look-up for a call site. -/
private theorem matches_mapForCall (h : s.archive.Faithful) (mode : AccessMode)
    (hold : Option String) (site : CallSite) (current : Fingerprint) :
    Matches (s.step (.mapForCall (s.archive.permit mode) site current hold))
      (s.archive.plain.serve (.mapForCall site current)) := by
  obtain ⟨found, after, hget, hfound, hplain, hfaithful⟩ :=
    Archive.mapForCall_own h s.held mode site current
  simp only [step, hget]
  exact matches_settleMap s hold hfound hplain hfaithful

/-- What is put is in the store. -/
private theorem matches_put (h : s.archive.Faithful) (hold : Option String) (file : FileName)
    (map : SpanMap) :
    Matches (s.step (.put (s.archive.permit .exclusive) file map hold))
      (s.archive.plain.serve (.put file map)) := by
  obtain ⟨m, after, hput, rfl, hplain, hfaithful⟩ := Archive.put_own h s.held file map
  simp only [step, hput]
  exact matches_settleMap s hold rfl hplain hfaithful

/-- Call sites change in both archives alike. -/
private theorem matches_changeSites (h : s.archive.Faithful) (site : CallSite)
    (change : CallSites → CallSites) :
    Matches (s.settleFault (fun _ => .accepted)
        (s.archive.changeSites (s.archive.permit .exclusive) site change))
      (.ok .accepted, { s.archive.plain with sites := change s.archive.plain.sites }) := by
  simp only [Archive.changeSites, Archive.allowsWriting_own, ite_true]
  exact ⟨rfl, rfl, h⟩

/-- An expansion is recorded in both archives alike. -/
private theorem matches_record (h : s.archive.Faithful) (site : CallSite) (e : Expansion) :
    Matches (s.step (.record (s.archive.permit .exclusive) site e))
      (s.archive.plain.serve (.record site e)) := by
  cases hm : Archive.mapOf site e with
  | error fault =>
      simp only [step, Archive.record, Archive.allowsWriting_own, ite_true, Plain.serve, hm]
      exact ⟨rfl, rfl, h⟩
  | ok map =>
      obtain ⟨after, hrecord, hplain, hfaithful⟩ := Archive.record_own h s.held site hm
      simp only [step, hrecord, Plain.serve, hm]
      exact ⟨rfl, hplain, hfaithful⟩

/-- A request to a faithful archive is answered as the plain one answers it. -/
theorem matches_ask (h : s.archive.Faithful) (request : Request) (mode : AccessMode)
    (hold : Option String) :
    Matches (s.take (.ask request mode hold)) (s.archive.plain.serve request) := by
  cases request with
  | get file => exact matches_get h mode hold file
  | mapForCall site current => exact matches_mapForCall h mode hold site current
  | state site current => exact ⟨rfl, rfl, h⟩
  | records =>
      simp only [take, Request.toStep, step, Archive.records_own]
      exact ⟨rfl, rfl, h⟩
  | put file map => exact matches_put h hold file map
  | start site => exact matches_changeSites h site (·.start site)
  | giveUp site => exact matches_changeSites h site (·.giveUp site)
  | record site e => exact matches_record h site e
  | collect live =>
      simp only [take, Request.toStep, step, Archive.collect_own]
      exact ⟨rfl, Archive.plain_foldl_without_condemned _ _, h.foldl_without _⟩
  | purge =>
      simp only [take, Request.toStep, step, Archive.purge_own]
      exact ⟨rfl, Archive.plain_foldl_without_condemned _ _, h.foldl_without _⟩

/-- What callers do with the cache and the maps in their hands changes neither blobs nor call
sites. -/
theorem plain_take_of_no_request (h : s.archive.Faithful) {own : OwnStep}
    (hr : own.request? = none) :
    (s.take own).2.archive.plain = s.archive.plain ∧ (s.take own).2.archive.Faithful := by
  cases own with
  | ask request mode hold => cases hr
  | invalidate file => exact ⟨rfl, Cache.FaithfulTo.invalidate h fun _ _ => rfl⟩
  | invalidateAll => exact ⟨rfl, Cache.FaithfulTo.clear⟩
  | relieve => exact ⟨rfl, Cache.FaithfulTo.relieve h⟩
  | drop slot => exact ⟨rfl, h⟩

/-- The answers to the requests of a run, without the slots that keep the maps handed over. -/
def contents (s : ArchiveSession MemoryBlobs) (steps : List OwnStep) :
    List (Except Failure ArchiveAnswer) :=
  (s.answers steps).map (·.map ArchiveAnswer.forgetSlots)

/-- A run of a session with a faithful archive is that of the plain one under the same requests. -/
theorem contents_eq_plain (h : s.archive.Faithful) (steps : List OwnStep) :
    s.contents steps = s.archive.plain.answers (requestsOf steps) ∧
      (s.after steps).archive.plain = s.archive.plain.after (requestsOf steps) ∧
      (s.after steps).archive.Faithful := by
  induction steps generalizing s with
  | nil => exact ⟨rfl, rfl, h⟩
  | cons own rest ih =>
      cases hr : own.request? with
      | none =>
          obtain ⟨hplain, hfaithful⟩ := plain_take_of_no_request h hr
          have hrest := ih hfaithful
          rw [hplain] at hrest
          simpa only [contents, answers, after_cons, requestsOf, List.filterMap_cons, hr,
            Option.isSome_none, Bool.false_eq_true, ite_false] using hrest
      | some request =>
          obtain ⟨mode, hold, rfl⟩ : ∃ mode hold, own = .ask request mode hold := by
            cases own <;> simp_all [OwnStep.request?]
          obtain ⟨hanswer, hplain, hfaithful⟩ := matches_ask h request mode hold
          obtain ⟨hanswers, hafter, hend⟩ := ih hfaithful
          rw [hplain] at hanswers hafter
          refine ⟨?_, hafter, hend⟩
          simp only [contents, answers, hr, Option.isSome_some, ite_true, List.map_cons]
          exact congrArg₂ List.cons hanswer hanswers

/-- A cache starts empty, and so it is faithful. -/
theorem faithful_ofBlobs (blobs : MemoryBlobs) (capacity : Nat) :
    (ofBlobs blobs capacity).archive.Faithful :=
  Cache.faithfulTo_ofCapacity capacity _

/-- A run comes out as it does without a cache, so only its requests and the blobs at the start
matter. -/
theorem cache_transparent (blobs : MemoryBlobs) (capacity : Nat) (steps : List OwnStep) :
    ((ofBlobs blobs capacity).contents steps = (Plain.ofBlobs blobs).answers (requestsOf steps) ∧
      ((ofBlobs blobs capacity).after steps).archive.plain =
        (Plain.ofBlobs blobs).after (requestsOf steps)) ∧
    ∀ capacity' steps', requestsOf steps' = requestsOf steps →
      (ofBlobs blobs capacity').contents steps' = (ofBlobs blobs capacity).contents steps ∧
        ((ofBlobs blobs capacity').after steps').archive.plain =
          ((ofBlobs blobs capacity).after steps).archive.plain := by
  have hrun : ∀ capacity steps,
      (ofBlobs blobs capacity).contents steps = (Plain.ofBlobs blobs).answers (requestsOf steps) ∧
        ((ofBlobs blobs capacity).after steps).archive.plain =
          (Plain.ofBlobs blobs).after (requestsOf steps) := by
    intro capacity steps
    obtain ⟨hanswers, hafter, -⟩ := contents_eq_plain (faithful_ofBlobs blobs capacity) steps
    exact ⟨hanswers, hafter⟩
  refine ⟨hrun capacity steps, fun capacity' steps' hsame => ?_⟩
  obtain ⟨hanswers, hafter⟩ := hrun capacity steps
  obtain ⟨hanswers', hafter'⟩ := hrun capacity' steps'
  rw [hanswers, hafter, hanswers', hafter', hsame]
  exact ⟨rfl, rfl⟩

/-- A map is looked up twice, with a cache that is relieved and emptied in between and with one left
alone. -/
theorem cache_transparent_relieved :
    let file : FileName := ⟨"a", by decide⟩
    let get := OwnStep.ask (.get file) .shared (some "kept")
    let put := OwnStep.ask (.put file .empty) .exclusive none
    requestsOf [put, .relieve, get, .invalidateAll, get] = requestsOf [put, get, get] ∧
      (ofBlobs .empty 1).contents [put, .relieve, get, .invalidateAll, get] =
        (ofBlobs .empty 8).contents [put, get, get] ∧
      ((ofBlobs .empty 1).after [put, .relieve, get, .invalidateAll, get]).archive.plain =
        ((ofBlobs .empty 8).after [put, get, get]).archive.plain :=
  ⟨rfl, (cache_transparent .empty 8 _).2 1 _ rfl⟩

end ArchiveSession

end MacroAtlas
