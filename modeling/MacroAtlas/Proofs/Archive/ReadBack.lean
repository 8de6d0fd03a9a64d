import MacroAtlas.Proofs.Archive.Integrity
import MacroAtlas.Proofs.Archive.Recording
import MacroAtlas.Proofs.Cache.Residency

/-!
# What was stored is read back from the cache

A map that was stored is found resident until as many other files were used as the cache can hold,
unless its file is dropped or gets another map. Each operation uses a file of the cache, drops one
or does neither, so it keeps what both keep.
-/

namespace MacroAtlas

namespace Archive

open Cache (KeptByUse)

variable {σ : Type} [BlobStore σ] {a : Archive σ} {P : Cache → Prop} {held : MapId → Bool}
  {permit : Permit} {file : FileName}

/-- A look-up uses its file. -/
theorem cache_get (hk : KeptByUse P held file) (h : P a.cache) (permit : Permit) :
    P (a.get held permit file).2.cache := by
  have hlooked := hk.get h
  unfold get
  generalize a.cache.get held file = looked at hlooked
  obtain ⟨found, cache⟩ := looked
  cases found with
  | some m => exact hlooked
  | none =>
      have hmissed := hk.countMiss hlooked
      simp only
      generalize a.store.read permit file = answered
      obtain ⟨result, store⟩ := answered
      cases result with
      | error failure => exact hmissed
      | ok found =>
          cases found with
          | none => exact hmissed
          | some map => exact hk.enter _ _ hmissed

/-- A map that is stored is admitted for its file. -/
theorem cache_put (h : P a.cache) (permit : Permit) (map : SpanMap)
    (hk : ∀ m, (a.put held permit file map).1 = .ok m → KeptByUse P held file) :
    P (a.put held permit file map).2.cache := by
  unfold put at hk ⊢
  generalize a.store.write permit file map = answered at hk
  obtain ⟨result, store⟩ := answered
  cases result with
  | error fault => exact h
  | ok _ => exact (hk _ rfl).enter _ _ h

/-- A recording uses the canonical file and may drop the earlier one of the call site. -/
theorem cache_record (h : P a.cache) (permit : Permit) (site : CallSite) (e : Expansion)
    (hk : ∀ file, (a.record held permit site e).1 = .ok file →
      KeptByUse P held file ∧ ∀ earlier c, a.sites.last? site = some earlier → earlier ≠ file →
        P c → P (c.invalidate earlier)) :
    P (a.record held permit site e).2.cache := by
  cases hr : (a.record held permit site e).1 with
  | error fault =>
      obtain ⟨store, hafter, -⟩ := a.record_of_error held permit site e hr
      rw [hafter]
      exact h
  | ok file =>
      obtain ⟨huse, hdrop⟩ := hk file hr
      obtain ⟨-, map, store, -, -, hafter⟩ := a.record_of_ok held permit site e hr
      have hentered := huse.enter a.cache ⟨a.nextMap, map⟩ h
      rw [hafter]
      simp only [recorded, recordedCache]
      split
      · next earlier hlast =>
          split
          · exact hentered
          · next hne => exact hdrop earlier _ hlast hne hentered
      · exact hentered

/-- The file of a look-up for a call site, unless the state of the site forbids it. -/
def fileForCall? (a : Archive σ) (site : CallSite) (current : Fingerprint) : Option FileName :=
  match a.state site current with
  | .expanding | .stale _ => none
  | .unexpanded | .expanded _ => some (.ofFingerprint current)

/-- A look-up for a call site looks up the file that it goes by, if any. -/
theorem mapForCall_eq (a : Archive σ) (held : MapId → Bool) (permit : Permit) (site : CallSite)
    (current : Fingerprint) : a.mapForCall held permit site current =
      match a.fileForCall? site current with
      | none => (.ok none, a)
      | some file => a.get held permit file := by
  unfold mapForCall fileForCall?
  cases a.state site current <;> rfl

/-- Removing records drops their files. -/
theorem cache_sweep {condemns : Archive σ → FileName → Except Failure Bool × Archive σ}
    (hlook : ∀ a file, (condemns a file).2.cache = a.cache)
    (hdrop : ∀ c file, P c → P (c.invalidate file)) (h : P a.cache) (files : List FileName) :
    P (a.sweep permit condemns files).2.cache := by
  refine sweep_keeps (P := fun a => P a.cache) (fun b file hb => ?_) (fun b file hb => ?_) h files
  · rw [hlook]
    exact hb
  · exact hdrop b.cache file hb

/-- A collection does no more to the cache than drop files. -/
theorem cache_collect (hdrop : ∀ c file, P c → P (c.invalidate file)) (h : P a.cache)
    (permit : Permit) (live : List Fingerprint) : P (a.collect permit live).2.cache := by
  unfold collect
  split
  · exact h
  · exact cache_sweep (fun _ _ => rfl) hdrop h _

/-- Nor does a purge. -/
theorem cache_purge (hdrop : ∀ c file, P c → P (c.invalidate file)) (h : P a.cache)
    (permit : Permit) : P (a.purge permit).2.cache := by
  unfold purge
  split
  · exact h
  · exact cache_sweep (fun _ _ => rfl) hdrop h _

/-- A survey does without the cache. -/
theorem cache_summarize (a : Archive σ) (permit : Permit) (files : List FileName) :
    (a.summarize permit files).2.cache = a.cache := by
  induction files generalizing a with
  | nil => rfl
  | cons file rest ih =>
      have hrest := ih { a with store := (a.store.tryRead permit file).2 }
      unfold summarize
      simp only
      split
      · rfl
      · split
        · next hsummaries =>
            rw [hsummaries] at hrest
            exact hrest
        · next hsummaries =>
            rw [hsummaries] at hrest
            exact hrest

theorem cache_records (a : Archive σ) (permit : Permit) : (a.records permit).2.cache = a.cache := by
  unfold records
  split
  · rfl
  · exact cache_summarize a permit _

omit [BlobStore σ] in
/-- Changing call sites does without the cache. -/
theorem cache_changeSites (a : Archive σ) (permit : Permit) (site : CallSite)
    (change : CallSites → CallSites) : (a.changeSites permit site change).2.cache = a.cache := by
  unfold changeSites
  split <;> rfl

/-- A file whose map is resident is looked up without the store. -/
theorem get_of_recent {capacity : Nat} {m : SharedMap} {since : Finset FileName}
    (h : a.cache.Recent capacity file m since) (held : MapId → Bool) :
    ∃ cache : Cache, cache.Recent capacity file m since ∧
      ∀ permit (store : Store σ), get { a with store } held permit file =
        (.ok (some m), { a with store, cache }) := by
  obtain ⟨cache, hget, hrecent⟩ := h.get_self held
  refine ⟨cache, hrecent, fun permit store => ?_⟩
  simp only [get, hget]

end Archive

namespace ArchiveSession

variable {σ : Type} [BlobStore σ] {s : ArchiveSession σ}

omit [BlobStore σ] in
@[simp] theorem capacity_settleMap (s : ArchiveSession σ) (hold : Option String)
    (r : Except Failure (Option SharedMap) × Archive σ) :
    (s.settleMap hold r).2.capacity = s.capacity := by
  obtain ⟨result, archive⟩ := r
  cases result <;> rfl

theorem capacity_step (s : ArchiveSession σ) (step : ArchiveStep FileName SpanMap) :
    (s.step step).2.capacity = s.capacity := by
  cases step with
  | get permit file hold => exact capacity_settleMap s hold _
  | mapForCall permit site current hold => exact capacity_settleMap s hold _
  | put permit file map hold => exact capacity_settleMap s hold _
  | _ => rfl

/-- The files of the cache stay ranked, whatever a step does and whatever it answers. -/
theorem ranked_step {capacity : Nat} (hs : s.capacity = capacity)
    (h : s.archive.cache.Ranked capacity) (step : ArchiveStep FileName SpanMap) :
    (s.step step).2.archive.cache.Ranked capacity := by
  have huse := Cache.Ranked.keptByUse capacity s.held
  have hdrop : ∀ (c : Cache) file, c.Ranked capacity → (c.invalidate file).Ranked capacity :=
    fun c file hc => hc.invalidate file
  cases step with
  | get permit file hold =>
      simp only [ArchiveSession.step, archive_settleMap]
      exact Archive.cache_get (huse file) h permit
  | mapForCall permit site current hold =>
      simp only [ArchiveSession.step, archive_settleMap, Archive.mapForCall_eq]
      cases s.archive.fileForCall? site current with
      | none => exact h
      | some file => exact Archive.cache_get (huse file) h permit
  | state site current => exact h
  | records permit =>
      simp only [ArchiveSession.step, settle, Archive.cache_records]
      exact h
  | tryReadStore permit file => exact h
  | readStore permit file => exact h
  | storeFiles permit => exact h
  | put permit file map hold =>
      simp only [ArchiveSession.step, archive_settleMap]
      exact Archive.cache_put h permit map fun _ _ => huse file
  | start permit site =>
      simp only [ArchiveSession.step, settleFault, settle, Archive.start, Archive.cache_changeSites]
      exact h
  | giveUp permit site =>
      simp only [ArchiveSession.step, settleFault, settle, Archive.giveUp,
        Archive.cache_changeSites]
      exact h
  | record permit site e =>
      exact Archive.cache_record h permit site e fun file _ =>
        ⟨huse file, fun earlier c _ _ hc => hc.invalidate earlier⟩
  | collect permit live => exact Archive.cache_collect hdrop h permit live
  | purge permit => exact Archive.cache_purge hdrop h permit
  | writeStore permit file map => exact h
  | removeStore permit file => exact h
  | invalidate file => exact h.invalidate file
  | invalidateAll => exact h.clear
  | relieve => exact h.relieve s.held
  | writeBlob area file bytes => exact h
  | readBlob file => exact h
  | drop slot => exact h
  | reopen =>
      rw [← hs]
      exact Cache.Ranked.ofCapacity s.capacity

/-- The cache ranks its files throughout a run. -/
theorem ranked_afterSteps {capacity : Nat} (hs : s.capacity = capacity)
    (h : s.archive.cache.Ranked capacity) (steps : List (ArchiveStep FileName SpanMap)) :
    (s.afterSteps steps).archive.cache.Ranked capacity := by
  induction steps generalizing s with
  | nil => exact h
  | cons step rest ih => exact ih ((capacity_step s step).trans hs) (ranked_step hs h step)

/-- A map that a step has stored is admitted. -/
theorem cache_step_put {t : ArchiveSession σ} {permit : Permit} {file : FileName} {map : SpanMap}
    {hold : Option String} {answer : ArchiveAnswer}
    (h : s.step (.put permit file map hold) = (.ok answer, t)) :
    ∃ m : SharedMap, m.map = map ∧ t.archive.cache = s.archive.cache.enter s.held file m := by
  simp only [ArchiveSession.step] at h
  unfold Archive.put at h
  generalize s.archive.store.write permit file map = answered at h
  obtain ⟨result, store⟩ := answered
  cases result with
  | error fault => cases h
  | ok _ =>
      obtain ⟨-, rfl⟩ := Prod.mk.inj h
      exact ⟨⟨s.archive.nextMap, map⟩, rfl, rfl⟩

/-- The file that a step looks up or admits. -/
def usedFile? (s : ArchiveSession σ) : ArchiveStep FileName SpanMap → Option FileName
  | .get _ file _ => some file
  | .mapForCall _ site current _ => s.archive.fileForCall? site current
  | .put permit file map _ => (s.archive.put s.held permit file map).1.toOption.map fun _ => file
  | .record permit site e => (s.archive.record s.held permit site e).1.toOption
  | _ => none

/-- The step looks maps up, changes call sites or stores maps, but neither under the file nor in its
place. -/
def sparesFile (s : ArchiveSession σ) (file : FileName) : ArchiveStep FileName SpanMap → Bool
  | .get _ _ _ | .mapForCall _ _ _ _ | .state _ _ | .start _ _ | .giveUp _ _ | .drop _ => true
  | .put _ other _ _ => other ≠ file
  | .record permit site e =>
    match (s.archive.record s.held permit site e).1 with
    | .ok other => other ≠ file ∧ s.archive.sites.last? site ≠ some file
    | .error _ => true
  | _ => false

/-- The files that the steps of a run look up or admit. -/
def usedFiles (s : ArchiveSession σ) : List (ArchiveStep FileName SpanMap) → List FileName
  | [] => []
  | step :: rest => (s.usedFile? step).toList ++ (s.step step).2.usedFiles rest

/-- Each step of a run spares the file. -/
def sparesFileThroughout (s : ArchiveSession σ) (file : FileName) :
    List (ArchiveStep FileName SpanMap) → Bool
  | [] => true
  | step :: rest => s.sparesFile file step && (s.step step).2.sparesFileThroughout file rest

variable {capacity : Nat} {file : FileName} {m : SharedMap} {since : Finset FileName}

/-- A step that spares a file and uses one of few others leaves it among the most recent ones. -/
theorem recent_step (h : s.archive.cache.Recent capacity file m since)
    (hcard : since.card < max capacity 1) {step : ArchiveStep FileName SpanMap}
    (hs : s.sparesFile file step = true)
    (hu : ∀ other, s.usedFile? step = some other → other ≠ file → other ∈ since) :
    (s.step step).2.archive.cache.Recent capacity file m since := by
  have huse : ∀ other, other ≠ file → other ∈ since →
      Cache.KeptByUse (Cache.Recent capacity file m since) s.held other :=
    fun other hne ho => Cache.Recent.keptByUse hcard s.held hne ho
  have hget : ∀ permit other, (other ≠ file → other ∈ since) →
      (s.archive.get s.held permit other).2.cache.Recent capacity file m since := by
    intro permit other ho
    by_cases hf : other = file
    · subst hf
      obtain ⟨cache, hrecent, hfound⟩ := Archive.get_of_recent h s.held
      rw [show s.archive.get s.held permit other = _ from hfound permit s.archive.store]
      exact hrecent
    · exact Archive.cache_get (huse other hf (ho hf)) h permit
  cases step with
  | get permit other hold =>
      simp only [ArchiveSession.step, archive_settleMap]
      exact hget permit other (hu other rfl)
  | mapForCall permit site current hold =>
      simp only [ArchiveSession.step, archive_settleMap, Archive.mapForCall_eq]
      cases hc : s.archive.fileForCall? site current with
      | none => exact h
      | some other => exact hget permit other (hu other hc)
  | put permit other map hold =>
      have hne : other ≠ file := of_decide_eq_true hs
      simp only [ArchiveSession.step, archive_settleMap]
      refine Archive.cache_put h permit map fun m' hput => huse other hne (hu other ?_ hne)
      simp only [usedFile?, hput]
      rfl
  | record permit site e =>
      refine Archive.cache_record h permit site e fun other hr => ?_
      have hspared := hs
      simp only [sparesFile, hr, decide_eq_true_eq] at hspared
      obtain ⟨hne, hlast⟩ := hspared
      refine ⟨huse other hne (hu other ?_ hne), fun earlier c he _ hc => hc.invalidate ?_⟩
      · simp only [usedFile?, hr]
        rfl
      · rintro rfl
        exact hlast he
  | start permit site =>
      simp only [ArchiveSession.step, settleFault, settle, Archive.start, Archive.cache_changeSites]
      exact h
  | giveUp permit site =>
      simp only [ArchiveSession.step, settleFault, settle, Archive.giveUp,
        Archive.cache_changeSites]
      exact h
  | state site current => exact h
  | drop slot => exact h
  | _ => cases hs

/-- A file stays among the most recent ones as long as the run spares it. -/
theorem recent_afterSteps (h : s.archive.cache.Recent capacity file m since)
    (hcard : since.card < max capacity 1) {steps : List (ArchiveStep FileName SpanMap)}
    (hs : s.sparesFileThroughout file steps = true)
    (hu : ∀ other ∈ s.usedFiles steps, other ≠ file → other ∈ since) :
    (s.afterSteps steps).archive.cache.Recent capacity file m since := by
  induction steps generalizing s with
  | nil => exact h
  | cons step rest ih =>
      obtain ⟨hstep, hrest⟩ := (Bool.and_eq_true _ _).mp hs
      have hnext : (s.step step).2.archive.cache.Recent capacity file m since :=
        recent_step h hcard hstep fun other ho =>
          hu other (List.mem_append_left _ (Option.mem_toList.mpr ho))
      exact ih hnext hrest fun other ho => hu other (List.mem_append_right _ ho)

/-- A stored map is read back from the cache alone after any run that uses fewer other files than
the cache can hold. -/
theorem get_reads_own_write (blobs : σ) (capacity : Nat)
    (before later : List (ArchiveStep FileName SpanMap)) {permit : Permit} {file : FileName}
    {map : SpanMap} {hold : Option String} {answer : ArchiveAnswer} {s : ArchiveSession σ}
    (hput : ((ofBlobs blobs capacity).afterSteps before).step (.put permit file map hold) =
      (.ok answer, s))
    (hspared : s.sparesFileThroughout file later = true)
    (hfew : ((s.usedFiles later).toFinset.erase file).card < max capacity 1)
    (held : MapId → Bool) :
    ∃ (m : SharedMap) (cache : Cache), m.map = map ∧ ∀ reader (store : Store σ),
      Archive.get { (s.afterSteps later).archive with store } held reader file =
        (.ok (some m), { (s.afterSteps later).archive with store, cache }) := by
  have hranked : ((ofBlobs blobs capacity).afterSteps before).archive.cache.Ranked capacity :=
    ranked_afterSteps rfl (Cache.Ranked.ofCapacity capacity) before
  obtain ⟨m, hmap, hcache⟩ := cache_step_put hput
  have hstored : s.archive.cache.Recent capacity file m
      ((s.usedFiles later).toFinset.erase file) := by
    rw [hcache]
    exact Cache.Recent.of_enter hranked _ file m hfew
  have hafter : (s.afterSteps later).archive.cache.Recent capacity file m
      ((s.usedFiles later).toFinset.erase file) := by
    refine recent_afterSteps hstored hfew hspared fun other ho hne => ?_
    exact Finset.mem_erase.mpr ⟨hne, List.mem_toFinset.mpr ho⟩
  obtain ⟨cache, -, hget⟩ := Archive.get_of_recent hafter held
  exact ⟨m, cache, hmap, hget⟩

/-- Another file is looked up again and again, and an expansion fails and is given up. -/
theorem get_reads_own_write_beside_another :
    let file : FileName := ⟨"a", by decide⟩
    let other : FileName := ⟨"b", by decide⟩
    let outside : Expansion := ⟨.ofContent [], .ofContent [], "", [⟨⟨0, 1⟩, ⟨0, 1⟩, false⟩]⟩
    let own : Permit := ⟨ownLock, .exclusive⟩
    let before : List (ArchiveStep FileName SpanMap) := [.put own other .empty none]
    let later : List (ArchiveStep FileName SpanMap) := [.get own other none, .start own "site",
      .record own "site" outside, .get own other none, .giveUp own "site"]
    let putting := ((ofBlobs MemoryBlobs.empty 2).afterSteps before).step (.put own file .empty none)
    putting = (.ok (.map (some ⟨.empty, []⟩)), putting.2) ∧
      putting.2.sparesFileThroughout file later = true ∧
      ((putting.2.usedFiles later).toFinset.erase file).card < max 2 1 ∧
      ∃ (m : SharedMap) (cache : Cache), m.map = .empty ∧
        ∀ reader (store : Store MemoryBlobs),
          Archive.get { (putting.2.afterSteps later).archive with store } (fun _ => false) reader
            file = (.ok (some m), { (putting.2.afterSteps later).archive with store, cache }) := by
  intro file other outside own before later putting
  have hanswer : putting.1 = .ok (.map (some ⟨.empty, []⟩)) := by decide +kernel
  have hspared : putting.2.sparesFileThroughout file later = true := by decide +kernel
  have hfew : ((putting.2.usedFiles later).toFinset.erase file).card < max 2 1 := by
    decide +kernel
  have hput : putting = (.ok (.map (some ⟨.empty, []⟩)), putting.2) := Prod.ext hanswer rfl
  exact ⟨hput, hspared, hfew,
    get_reads_own_write MemoryBlobs.empty 2 before later hput hspared hfew (fun _ => false)⟩

end ArchiveSession

end MacroAtlas
