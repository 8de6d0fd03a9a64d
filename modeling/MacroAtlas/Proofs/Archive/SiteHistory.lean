import MacroAtlas.Proofs.Archive.Transparency

/-!
# The history of a call site

What a call site has been through comes down to the file that was last recorded for it, unless its
record was removed since, and to whether an expansion is under way. The table of call sites says the
same after every run.
-/

namespace MacroAtlas

/-- The site on whose behalf a request changes the table of call sites. -/
def Request.changes? : Request → Option CallSite
  | .start site => some site
  | .giveUp site => some site
  | .record site _ => some site
  | _ => none

/-- What the history of a call site comes to. -/
structure Standing where
  /-- The file last recorded, unless its record was removed since. -/
  last : Option FileName
  /-- An expansion was started, and neither recorded nor given up since. -/
  busy : Bool
  deriving DecidableEq

namespace Standing

/-- Nothing has happened. -/
def new : Standing := ⟨none, false⟩

/-- How the call site stands, given the fingerprint of its call now. -/
def state (h : Standing) (current : Fingerprint) : SiteState :=
  if h.busy then .expanding
  else match h.last with
    | none => .unexpanded
    | some file => if file.fingerprint? = some current then .expanded file else .stale file

/-- The standing of a site once the record of each file in question is gone. -/
def without (h : Standing) (removed : FileName → Bool) : Standing :=
  { h with last := h.last.filter fun file => !removed file }

/-- The standing of a site after a request that was answered and has removed some records. -/
def follow (h : Standing) (site : CallSite) (removed : FileName → Bool) :
    Request → Except Failure ArchiveAnswer → Standing
  | .start other, .ok _ => if other = site then { h with busy := true } else h
  | .giveUp other, .ok _ => if other = site then { h with busy := false } else h
  | .record other _, .ok (.file file) => if other = site then ⟨some file, false⟩ else h
  | .collect _, _ => h.without removed
  | .purge, _ => h.without removed
  | _, _ => h

/-- A site whose last record stays is as it was. -/
theorem without_eq_self {h : Standing} {removed : FileName → Bool}
    (hr : h.last.any removed = false) : h.without removed = h := by
  obtain ⟨last, busy⟩ := h
  cases last with
  | none => rfl
  | some file => simp_all [without, Option.filter]

/-- What is asked for other sites changes nothing unless the record of the last file goes. -/
theorem follow_eq_self {h : Standing} {site : CallSite} {removed : FileName → Bool}
    {request : Request} (hc : request.changes? ≠ some site) (hr : h.last.any removed = false)
    (answer : Except Failure ArchiveAnswer) : h.follow site removed request answer = h := by
  cases request with
  | collect live => exact without_eq_self hr
  | purge => exact without_eq_self hr
  | start other =>
      have hs : other ≠ site := fun hs => hc (congrArg some hs)
      cases answer <;> simp [follow, hs]
  | giveUp other =>
      have hs : other ≠ site := fun hs => hc (congrArg some hs)
      cases answer <;> simp [follow, hs]
  | record other e =>
      have hs : other ≠ site := fun hs => hc (congrArg some hs)
      cases answer with
      | error _ => rfl
      | ok answer => cases answer <;> simp [follow, hs]
  | get _ => rfl
  | mapForCall _ _ => rfl
  | state _ _ => rfl
  | records => rfl
  | put _ _ => rfl

/-- Unless an expansion is recorded, the last file stays while its record does. -/
theorem last_follow {h : Standing} {site : CallSite} {removed : FileName → Bool}
    {request : Request} {answer : Except Failure ArchiveAnswer}
    (hf : ∀ e file, (request, answer) ≠ (.record site e, .ok (.file file)))
    (hr : h.last.any removed = false) : (h.follow site removed request answer).last = h.last := by
  by_cases hc : request.changes? = some site
  · cases request with
    | start other =>
        obtain rfl : other = site := Option.some.inj hc
        cases answer <;> simp [follow]
    | giveUp other =>
        obtain rfl : other = site := Option.some.inj hc
        cases answer <;> simp [follow]
    | record other e =>
        obtain rfl : other = site := Option.some.inj hc
        cases answer with
        | error _ => rfl
        | ok answer =>
            cases answer with
            | file file => exact absurd rfl (hf e file)
            | _ => rfl
    | _ => cases hc
  · rw [follow_eq_self hc hr]

/-- Which slots keep a map has no part in the history of a site. -/
theorem follow_forgetSlots (h : Standing) (site : CallSite) (removed : FileName → Bool)
    (request : Request) (answer : Except Failure ArchiveAnswer) :
    h.follow site removed request (answer.map ArchiveAnswer.forgetSlots) =
      h.follow site removed request answer := by
  cases answer with
  | error _ => rfl
  | ok answer => cases answer <;> cases request <;> rfl

end Standing

/-- The entry says that an expansion is under way. -/
def SiteEntry.underWay : SiteEntry → Bool
  | .expanding _ => true
  | .expanded _ => false

/-- An expansion under way stays so, whatever files are lost. -/
theorem SiteEntry.any_underWay_losing? (entry : SiteEntry) (gone : FileName → Bool) :
    (entry.losing? gone).any underWay = entry.underWay := by
  cases entry with
  | expanding last => rfl
  | expanded file => cases hg : gone file <;> simp [losing?, underWay, hg]

namespace CallSites

variable (t : CallSites) (site other : CallSite) (file : FileName)

/-- An expansion of the site is under way. -/
def busy : Bool := (t.entry? site).any (·.underWay)

/-- What the table says of the history of a site. -/
def standing : Standing := ⟨t.last? site, t.busy site⟩

/-- How a site stands for a caller follows from its standing. -/
theorem state_eq (current : Fingerprint) :
    t.state site current = (t.standing site).state current := by
  unfold state standing Standing.state busy last?
  cases t.entry? site with
  | none => rfl
  | some entry => cases entry <;> rfl

/-- A site is idle exactly if it is not told to be expanding. -/
theorem busy_eq_false_iff {t : CallSites} {site : CallSite} {current : Fingerprint} :
    t.busy site = false ↔ t.state site current ≠ .expanding := by
  unfold state busy
  cases t.entry? site with
  | none => simp
  | some entry =>
      cases entry with
      | expanding last => simp [SiteEntry.underWay]
      | expanded file =>
          simp only [Option.any_some, SiteEntry.underWay, true_iff]
          split <;> nofun

/-- A busy site has an entry that says so. -/
theorem exists_expanding_of_busy {t : CallSites} {site : CallSite} (h : t.busy site = true) :
    ∃ last, t.entry? site = some (.expanding last) := by
  obtain ⟨entry, he, hu⟩ := (Option.any_eq_true _ _).mp h
  cases entry with
  | expanding last => exact ⟨last, he⟩
  | expanded file => cases hu

/-- Where no expansion is under way there is nothing to give up. -/
theorem giveUp_of_idle {t : CallSites} {site : CallSite} (h : t.busy site = false) :
    t.giveUp site = t := by
  refine giveUp_of_not_expanding t site fun last he => ?_
  rw [busy, he] at h
  cases h

/-- Starting an expansion makes its site busy. -/
theorem standing_start : (t.start site).standing other =
    if site = other then { t.standing other with busy := true } else t.standing other := by
  simp only [standing, last?_start, busy, entry?_start]
  by_cases hs : site = other <;> simp [hs, SiteEntry.underWay]

/-- Giving one up makes its site idle. -/
theorem standing_giveUp : (t.giveUp site).standing other =
    if site = other then { t.standing other with busy := false } else t.standing other := by
  cases hb : t.busy site with
  | false =>
      rw [giveUp_of_idle hb]
      by_cases hs : site = other
      · subst hs
        simp [standing, hb]
      · simp [hs]
  | true =>
      obtain ⟨last, he⟩ := exists_expanding_of_busy hb
      simp only [standing, last?_giveUp, busy, entry?_giveUp_of_expanding t site other he]
      by_cases hs : site = other
      · cases last <;> simp [hs, SiteEntry.underWay]
      · simp [hs]

/-- Finishing one makes its site idle, with a new file. -/
theorem standing_finish : (t.finish site file).standing other =
    if site = other then ⟨some file, false⟩ else t.standing other := by
  simp only [standing, last?_finish, busy, entry?_finish]
  by_cases hs : site = other <;> simp [hs, SiteEntry.underWay]

end CallSites

namespace Plain

variable (p : Plain) (site : CallSite)

/-- Removing records makes no site busy or idle. -/
theorem busy_foldl_remove (files : List FileName) :
    (files.foldl remove p).sites.busy site = p.sites.busy site := by
  rw [CallSites.busy, entry?_foldl_remove, CallSites.busy]
  cases p.sites.entry? site with
  | none => rfl
  | some entry => exact entry.any_underWay_losing? _

/-- The record of the file is there before and not after. -/
def removed (before after : Plain) (file : FileName) : Bool :=
  (before.record? file).isSome && (after.record? file).isNone

theorem removed_discard (test : FileName → Bytes → Bool) (file : FileName) :
    p.removed (p.discard test).2 file = decide (file ∈ p.condemned test) := by
  rw [removed, discard, record?_foldl_remove]
  by_cases hf : file ∈ p.condemned test
  · have hsome : (p.record? file).isSome := mem_files.mp (List.mem_filter.mp hf).1
    simp [hf, hsome]
  · cases p.record? file <;> simp [hf]

/-- Discarding records takes files from the sites and nothing else. -/
theorem standing_discard (test : FileName → Bytes → Bool) :
    (p.discard test).2.sites.standing site =
      (p.sites.standing site).without (p.removed (p.discard test).2) := by
  simp only [CallSites.standing, Standing.without, removed_discard]
  rw [discard, last?_foldl_remove, busy_foldl_remove]
  simp

/-- The table follows the history. -/
theorem standing_serve (request : Request) :
    (p.serve request).2.sites.standing site =
      (p.sites.standing site).follow site (p.removed (p.serve request).2) request
        (p.serve request).1 := by
  cases request with
  | start other => exact CallSites.standing_start p.sites other site
  | giveUp other => exact CallSites.standing_giveUp p.sites other site
  | record other e =>
      simp only [serve]
      cases Archive.mapOf other e with
      | error _ => rfl
      | ok map => exact CallSites.standing_finish p.sites other site _
  | collect live => exact standing_discard p site _
  | purge => exact standing_discard p site _
  | get _ => rfl
  | mapForCall _ _ => rfl
  | state _ _ => rfl
  | records => rfl
  | put _ _ => rfl

end Plain

namespace ArchiveSession

/-- The step takes the record of the file away. -/
def removes (s : ArchiveSession MemoryBlobs) (own : OwnStep) (file : FileName) : Bool :=
  (s.archive.store.blobs.blob? Store.area file).isSome &&
    ((s.take own).2.archive.store.blobs.blob? Store.area file).isNone

/-- Some step of the run takes the record of the file away. -/
def removesDuring (s : ArchiveSession MemoryBlobs) (file : FileName) : List OwnStep → Bool
  | [] => false
  | own :: rest => s.removes own file || (s.take own).2.removesDuring file rest

/-- The standing of a site after a step, told from what callers see. -/
def follow (s : ArchiveSession MemoryBlobs) (site : CallSite) (h : Standing) (own : OwnStep) :
    Standing :=
  match own.request? with
  | some request => h.follow site (s.removes own) request (s.take own).1
  | none => h

/-- The standing of a site after a run, told from what callers see. -/
def history (s : ArchiveSession MemoryBlobs) (site : CallSite) (h : Standing) :
    List OwnStep → Standing
  | [] => h
  | own :: rest => (s.take own).2.history site (s.follow site h own) rest

variable {s : ArchiveSession MemoryBlobs}

/-- A step of a session with a faithful archive lets the table follow the history. -/
theorem standing_take (h : s.archive.Faithful) (site : CallSite) (own : OwnStep) :
    (s.take own).2.archive.sites.standing site =
        s.follow site (s.archive.sites.standing site) own ∧
      (s.take own).2.archive.Faithful := by
  unfold follow
  cases hr : own.request? with
  | none =>
      obtain ⟨hplain, hfaithful⟩ := plain_take_of_no_request h hr
      exact ⟨congrArg (Plain.sites · |>.standing site) hplain, hfaithful⟩
  | some request =>
      obtain ⟨mode, hold, rfl⟩ : ∃ mode hold, own = .ask request mode hold := by
        cases own <;> simp_all [OwnStep.request?]
      obtain ⟨hanswer, hplain, hfaithful⟩ := matches_ask h request mode hold
      refine ⟨?_, hfaithful⟩
      have hserve := s.archive.plain.standing_serve site request
      rw [← hplain, ← hanswer, Standing.follow_forgetSlots] at hserve
      exact hserve

/-- So does a run. -/
theorem standing_after (h : s.archive.Faithful) (site : CallSite) (steps : List OwnStep) :
    (s.after steps).archive.sites.standing site =
      s.history site (s.archive.sites.standing site) steps := by
  induction steps generalizing s with
  | nil => rfl
  | cons own rest ih =>
      obtain ⟨hstanding, hfaithful⟩ := standing_take h site own
      rw [after_cons, ih hfaithful, hstanding]
      rfl

/-- Unless an expansion of the site is recorded, the last file stays while its record does. -/
theorem last_history {h : Standing} {site : CallSite} {between : List OwnStep}
    (hf : ∀ e file,
      (Request.record site e, .ok (.file file)) ∉ (requestsOf between).zip (s.answers between))
    (hr : h.last.any (s.removesDuring · between) = false) :
    (s.history site h between).last = h.last := by
  -- What is removed during the run is removed by the first step or during the rest.
  induction between generalizing s h with
  | nil => rfl
  | cons own rest ih =>
      have hsplit : h.last.any (s.removes own) = false ∧
          h.last.any ((s.take own).2.removesDuring · rest) = false := by
        cases hl : h.last with
        | none => exact ⟨rfl, rfl⟩
        | some file => simpa [hl, removesDuring] using hr
      cases hq : own.request? with
      | none =>
          simp only [history, follow, hq]
          refine ih (fun e file hmem => hf e file ?_) hsplit.2
          simpa [requestsOf, answers, hq] using hmem
      | some request =>
          have hzip : (requestsOf (own :: rest)).zip (s.answers (own :: rest)) =
              (request, (s.take own).1) ::
                (requestsOf rest).zip ((s.take own).2.answers rest) := by
            simp [requestsOf, answers, hq]
          rw [hzip] at hf
          simp only [history, follow, hq]
          have hlast : (h.follow site (s.removes own) request (s.take own).1).last = h.last :=
            Standing.last_follow (fun e file he => hf e file (he ▸ List.mem_cons_self)) hsplit.1
          rw [ih (fun e file hmem => hf e file (List.mem_cons_of_mem _ hmem)) (by
            rw [hlast]
            exact hsplit.2), hlast]

/-- Giving an expansion up is accepted and concerns the table alone. -/
theorem take_giveUp (s : ArchiveSession MemoryBlobs) (mode : AccessMode) (hold : Option String)
    (site : CallSite) : s.take (.ask (.giveUp site) mode hold) =
      (.ok .accepted, { s with archive := { s.archive with
        sites := s.archive.sites.giveUp site } }) := by
  simp only [take, Request.toStep, step, Archive.giveUp, Archive.changeSites,
    Archive.allowsWriting_own, ite_true]
  rfl

/-- Giving an expansion up brings back what was there before, unless another one was recorded or the
record was removed. -/
theorem standing_giveUp_after (h : s.archive.Faithful) {site : CallSite} {between : List OwnStep}
    (hf : ∀ e file,
      (Request.record site e, .ok (.file file)) ∉ (requestsOf between).zip (s.answers between))
    (hr : (s.archive.sites.last? site).any (s.removesDuring · between) = false)
    (hb : s.archive.sites.busy site = false) (mode : AccessMode) (hold : Option String) :
    ((s.after between).take (.ask (.giveUp site) mode hold)).2.archive.sites.standing site =
      s.archive.sites.standing site := by
  have hlast : ((s.after between).archive.sites.standing site).last =
      (s.archive.sites.standing site).last := by
    rw [standing_after h]
    exact last_history hf hr
  rw [take_giveUp, CallSites.standing_giveUp, if_pos rfl]
  exact congrArg₂ Standing.mk hlast hb.symm

/-- The table of call sites holds what the history of each site comes to. -/
theorem sites_follow_history (blobs : MemoryBlobs) (capacity : Nat) (steps : List OwnStep) :
    let start := ofBlobs blobs capacity
    let s := start.after steps
    (∀ site current,
      s.archive.state site current = (start.history site .new steps).state current) ∧
    (∀ between mode hold site current,
      (∀ e file, (Request.record site e, .ok (.file file)) ∉
        (requestsOf between).zip (s.answers between)) →
      (s.archive.sites.last? site).any (s.removesDuring · between) = false →
      s.archive.state site current ≠ .expanding →
      ((s.after between).take (.ask (.giveUp site) mode hold)).2.archive.state site current =
        s.archive.state site current) ∧
    (∀ mode hold site current, s.archive.state site current ≠ .expanding →
      s.take (.ask (.giveUp site) mode hold) = (.ok .accepted, s)) ∧
    ∀ own site current, own.request?.bind Request.changes? ≠ some site →
      (s.archive.sites.last? site).any (s.removes own) = false →
      (s.take own).2.archive.state site current = s.archive.state site current := by
  intro start s
  obtain ⟨-, -, hfaithful⟩ := contents_eq_plain (faithful_ofBlobs blobs capacity) steps
  have hstate : ∀ (s : ArchiveSession MemoryBlobs) site current,
      s.archive.state site current = (s.archive.sites.standing site).state current :=
    fun s site current => CallSites.state_eq s.archive.sites site current
  refine ⟨fun site current => ?_, fun between mode hold site current hf hr hidle => ?_,
    fun mode hold site current hidle => ?_, fun own site current hc hr => ?_⟩
  · rw [hstate, standing_after (faithful_ofBlobs blobs capacity)]
    rfl
  · rw [hstate, hstate,
      standing_giveUp_after hfaithful hf hr (CallSites.busy_eq_false_iff.mpr hidle)]
  · rw [take_giveUp, CallSites.giveUp_of_idle (CallSites.busy_eq_false_iff.mpr hidle)]
  · rw [hstate, hstate, (standing_take hfaithful site own).1, follow]
    cases hq : own.request? with
    | none => rfl
    | some request =>
        rw [hq, Option.bind_some] at hc
        exact congrArg (Standing.state · current) (Standing.follow_eq_self hc hr _)

/-- A recorded expansion comes back after a new one was started twice and given up. -/
theorem sites_follow_history_nested :
    let e : Expansion := ⟨.ofContent [], .ofContent [], "", []⟩
    let record := OwnStep.ask (.record "site" e) .exclusive none
    let anew := OwnStep.ask (.start "site") .exclusive none
    let back := OwnStep.ask (.giveUp "site") .exclusive none
    ((ofBlobs MemoryBlobs.empty 1).after [record]).archive.state "site" e.fingerprint ≠ .expanding ∧
      ((((ofBlobs MemoryBlobs.empty 1).after [record]).after [anew, anew]).take
        back).2.archive.state "site" e.fingerprint =
        ((ofBlobs MemoryBlobs.empty 1).after [record]).archive.state "site" e.fingerprint := by
  intro e record anew back
  have hidle : ((ofBlobs MemoryBlobs.empty 1).after [record]).archive.state "site" e.fingerprint ≠
      .expanding := by
    decide +kernel
  have hkept : (((ofBlobs MemoryBlobs.empty 1).after [record]).archive.sites.last? "site").any
      (((ofBlobs MemoryBlobs.empty 1).after [record]).removesDuring · [anew, anew]) = false := by
    decide +kernel
  have hnone : ∀ e file, (Request.record "site" e, .ok (.file file)) ∉
      (requestsOf [anew, anew]).zip
        (((ofBlobs MemoryBlobs.empty 1).after [record]).answers [anew, anew]) := by
    intro e file hmem
    have hrecord : Request.record "site" e ∈ requestsOf [anew, anew] := (List.of_mem_zip hmem).1
    simp [requestsOf, OwnStep.request?, anew] at hrecord
  exact ⟨hidle, (sites_follow_history MemoryBlobs.empty 1 [record]).2.1 [anew, anew] .exclusive none
    "site" e.fingerprint hnone hkept hidle⟩

end ArchiveSession

end MacroAtlas
