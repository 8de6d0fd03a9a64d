import MacroAtlas.Archive.Session

/-!
# Requests under an archive's own permits

A caller that keeps to the rules asks an archive for something under its own permit, or manages the
cache and the maps in its hands. A run is a list of such steps in any order; its answers are those
to the requests.
-/

namespace MacroAtlas

/-- What a caller asks of an archive. -/
inductive Request where
  /-- The map of a file. -/
  | get (file : FileName)
  /-- The map of a call site, given the fingerprint of its call now. -/
  | mapForCall (site : CallSite) (current : Fingerprint)
  /-- How a call site stands. -/
  | state (site : CallSite) (current : Fingerprint)
  /-- How the stored records fare. -/
  | records
  /-- Storing a map. -/
  | put (file : FileName) (map : SpanMap)
  /-- Starting an expansion. -/
  | start (site : CallSite)
  /-- Giving an expansion up. -/
  | giveUp (site : CallSite)
  /-- Recording a finished expansion. -/
  | record (site : CallSite) (expansion : Expansion)
  /-- Removing the records that are not live. -/
  | collect (live : List Fingerprint)
  /-- Removing the broken records. -/
  | purge

/-- The step that makes a request under the permit for readers or the one for writers. -/
def Request.toStep (reader writer : Permit) (hold : Option String) :
    Request → ArchiveStep FileName SpanMap
  | .get file => .get reader file hold
  | .mapForCall site current => .mapForCall reader site current hold
  | .state site current => .state site current
  | .records => .records reader
  | .put file map => .put writer file map hold
  | .start site => .start writer site
  | .giveUp site => .giveUp writer site
  | .record site expansion => .record writer site expansion
  | .collect live => .collect writer live
  | .purge => .purge writer

/-- A step of a caller that keeps to the rules. -/
inductive OwnStep where
  /-- A request, for which a reader may hold either kind of permit. -/
  | ask (request : Request) (mode : AccessMode) (hold : Option String)
  /-- Drops a file from the cache. -/
  | invalidate (file : FileName)
  /-- Drops everything from the cache. -/
  | invalidateAll
  /-- Drops the maps that only the cache keeps alive. -/
  | relieve
  /-- Empties a slot. -/
  | drop (slot : String)

/-- The request of a step, if it makes one. -/
def OwnStep.request? : OwnStep → Option Request
  | .ask request _ _ => some request
  | _ => none

/-- The requests of a run. -/
def requestsOf (steps : List OwnStep) : List Request := steps.filterMap OwnStep.request?

namespace ArchiveSession

variable {σ : Type} [BlobStore σ]

/-- Takes a step under the archive's own permits. -/
def take (s : ArchiveSession σ) : OwnStep → Except Failure ArchiveAnswer × ArchiveSession σ
  | .ask request mode hold =>
    s.step (request.toStep (s.archive.permit mode) (s.archive.permit .exclusive) hold)
  | .invalidate file => s.step (.invalidate file)
  | .invalidateAll => s.step .invalidateAll
  | .relieve => s.step .relieve
  | .drop slot => s.step (.drop slot)

/-- The session after a run. -/
def after (s : ArchiveSession σ) (steps : List OwnStep) : ArchiveSession σ :=
  steps.foldl (fun s step => (s.take step).2) s

/-- The answers to the requests of a run. -/
def answers (s : ArchiveSession σ) : List OwnStep → List (Except Failure ArchiveAnswer)
  | [] => []
  | step :: rest =>
    let later := (s.take step).2.answers rest
    if step.request?.isSome then (s.take step).1 :: later else later

@[simp] theorem after_nil (s : ArchiveSession σ) : s.after [] = s := rfl

/-- A run takes its first step and then the others. -/
@[simp] theorem after_cons (s : ArchiveSession σ) (step : OwnStep) (rest : List OwnStep) :
    s.after (step :: rest) = (s.take step).2.after rest := rfl

end ArchiveSession

/-- An answer without the slots that keep the map handed over. -/
def ArchiveAnswer.forgetSlots : ArchiveAnswer → ArchiveAnswer
  | .map receipt => .map (receipt.map fun r => { r with slots := [] })
  | answer => answer

end MacroAtlas
