import MacroAtlas.Archive.Session
import MacroAtlas.Proofs.Archive.CallSites
import MacroAtlas.Proofs.Blob.Durable
import MacroAtlas.Proofs.Payload.Shortest

/-!
# Call sites refer to stored maps

An expansion is stored before its site refers to it, and a file is forgotten by all sites before its
record is removed. So whatever fails in between, each file that a site refers to has a record of a
map.
-/

namespace MacroAtlas

open DurableBlobStore

namespace Store

variable {σ : Type} [BlobStore σ]

/-- Reading a record changes the store by the read alone. -/
theorem tryRead_snd (s : Store σ) (permit : Permit) (other : FileName) :
    (s.tryRead permit other).2 = s ∨
      (s.tryRead permit other).2 = { s with blobs := (BlobStore.read s.blobs area other).2 } := by
  unfold tryRead
  split
  · exact Or.inl rfl
  · right
    split
    · next hread => rw [hread]
    · next hread => rw [hread]
    · next hread =>
        rw [hread]
        split <;> rfl

/-- A lenient reader leaves the store as a strict one does. -/
theorem read_snd (s : Store σ) (permit : Permit) (other : FileName) :
    (s.read permit other).2 = (s.tryRead permit other).2 := by
  unfold read
  split
  · next hread => rw [hread]
  · rfl

variable [DurableBlobStore σ] {s : Store σ} {file other : FileName}

/-- The file has a record of a map. -/
def Holds (s : Store σ) (file : FileName) : Prop :=
  ∃ bytes map, blob? s.blobs area file = some bytes ∧ Record.decode bytes = .ok map

/-- A record stays when another one is read. -/
theorem Holds.tryRead (h : s.Holds file) (permit : Permit) (other : FileName) :
    (s.tryRead permit other).2.Holds file := by
  rcases s.tryRead_snd permit other with hs | hs
  · rw [hs]
    exact h
  · obtain ⟨bytes, map, hblob, hdecode⟩ := h
    rw [hs]
    exact ⟨bytes, map, (blob?_read _ _ _ _).trans hblob, hdecode⟩

/-- It also stays for a lenient reader. -/
theorem Holds.read (h : s.Holds file) (permit : Permit) (other : FileName) :
    (s.read permit other).2.Holds file := by
  rw [read_snd]
  exact h.tryRead permit other

/-- An own reader is told the map unless the store below fails. -/
theorem tryRead_eq_or_error {bytes : Bytes} {map : SpanMap} {permit : Permit}
    (hblob : blob? s.blobs area file = some bytes) (hdecode : Record.decode bytes = .ok map)
    (hp : permit.lock = s.owner) :
    (s.tryRead permit file).1 = .ok (some map) ∨
      ∃ fault, (BlobStore.read s.blobs area file).1 = .error fault := by
  have hread : ∀ found, (BlobStore.read s.blobs area file).1 = .ok found → found = some bytes :=
    fun found hf => (read_eq_blob? hf).trans hblob
  unfold tryRead
  rw [if_neg (not_not_intro hp)]
  generalize BlobStore.read s.blobs area file = answered at hread ⊢
  obtain ⟨result, blobs⟩ := answered
  cases result with
  | error fault => exact Or.inr ⟨fault, rfl⟩
  | ok found =>
      obtain rfl := hread found rfl
      left
      simp only [hdecode]

/-- What is stored in the place of a record is a record as well. -/
theorem Holds.write (h : s.Holds file) (permit : Permit) (other : FileName) (map : SpanMap) :
    (s.write permit other map).2.Holds file := by
  obtain ⟨bytes, held, hblob, hdecode⟩ := h
  unfold Store.write
  split
  · cases hresult : (BlobStore.write s.blobs area other (Record.encode map)).1 with
    | error fault =>
        exact ⟨bytes, held, keeps_write hblob fun _ => ⟨fault, hresult⟩, hdecode⟩
    | ok _ =>
        by_cases hf : other = file
        · subst other
          exact ⟨_, map, blob?_write hresult, Record.decode_encode map⟩
        · exact ⟨bytes, held, keeps_write hblob fun heq => absurd heq hf, hdecode⟩
  · exact ⟨bytes, held, hblob, hdecode⟩

/-- What was stored is there. -/
theorem holds_write (s : Store σ) (permit : Permit) (file : FileName) (map : SpanMap)
    (h : (s.write permit file map).1 = .ok ()) : (s.write permit file map).2.Holds file := by
  unfold Store.write at h ⊢
  split at h
  · next hallowed =>
      rw [if_pos hallowed]
      exact ⟨_, map, blob?_write h, Record.decode_encode map⟩
  · cases h

/-- It stays when another one is removed. -/
theorem Holds.remove (h : s.Holds file) (permit : Permit) (hne : other ≠ file) :
    (s.remove permit other).2.Holds file := by
  obtain ⟨bytes, map, hblob, hdecode⟩ := h
  unfold Store.remove
  split
  · exact ⟨bytes, map, keeps_remove hblob hne, hdecode⟩
  · exact ⟨bytes, map, hblob, hdecode⟩

end Store

namespace Archive

variable {σ : Type} [BlobStore σ] [DurableBlobStore σ] {a b c : Archive σ} {file : FileName}

/-- Each file that a call site refers to is a canonical one and has a record of a map. -/
def Intact (a : Archive σ) : Prop :=
  ∀ site file, a.sites.last? site = some file →
    (∃ f, file = .ofFingerprint f) ∧ a.store.Holds file

/-- The call sites are the same, and no record of a map is lost. -/
structure Retains (a b : Archive σ) : Prop where
  /-- No call site changes. -/
  sites_eq : b.sites = a.sites
  /-- Each file with a record of a map still has one. -/
  holds : ∀ file, a.store.Holds file → b.store.Holds file

namespace Retains

theorem refl (a : Archive σ) : a.Retains a := ⟨rfl, fun _ h => h⟩

/-- What is retained twice is retained. -/
theorem trans (h : a.Retains b) (h' : b.Retains c) : a.Retains c :=
  ⟨h'.sites_eq.trans h.sites_eq, fun file hf => h'.holds file (h.holds file hf)⟩

theorem tryRead (a : Archive σ) (permit : Permit) (file : FileName) :
    a.Retains { a with store := (a.store.tryRead permit file).2 } :=
  ⟨rfl, fun _ h => h.tryRead permit file⟩

/-- Reading changes no record and no call site. -/
theorem read (a : Archive σ) (permit : Permit) (file : FileName) :
    a.Retains { a with store := (a.store.read permit file).2 } :=
  ⟨rfl, fun _ h => h.read permit file⟩

/-- A look-up reads the store at most. -/
theorem get (a : Archive σ) (held : MapId → Bool) (permit : Permit) (file : FileName) :
    a.Retains (a.get held permit file).2 := by
  have hread : ∀ other, a.store.Holds other → (a.store.read permit file).2.Holds other :=
    fun _ h => h.read permit file
  unfold Archive.get
  split
  · exact ⟨rfl, fun _ h => h⟩
  · simp only
    generalize a.store.read permit file = answered at hread
    obtain ⟨result, store⟩ := answered
    cases result with
    | error failure => exact ⟨rfl, hread⟩
    | ok found =>
        cases found with
        | none => exact ⟨rfl, hread⟩
        | some map => exact ⟨rfl, hread⟩

theorem mapForCall (a : Archive σ) (held : MapId → Bool) (permit : Permit) (site : CallSite)
    (current : Fingerprint) : a.Retains (a.mapForCall held permit site current).2 := by
  unfold Archive.mapForCall
  split
  · exact refl a
  · exact refl a
  · exact get a held permit _
  · exact get a held permit _

/-- A map that is put loses no record, not even when its write fails. -/
theorem put (a : Archive σ) (held : MapId → Bool) (permit : Permit) (file : FileName)
    (map : SpanMap) : a.Retains (a.put held permit file map).2 := by
  have hwrite : ∀ other, a.store.Holds other → (a.store.write permit file map).2.Holds other :=
    fun _ h => h.write permit file map
  unfold Archive.put
  generalize a.store.write permit file map = answered at hwrite
  obtain ⟨result, store⟩ := answered
  cases result with
  | error fault => exact ⟨rfl, hwrite⟩
  | ok _ => exact ⟨rfl, hwrite⟩

/-- A survey reads one record after the other. -/
theorem summarize (a : Archive σ) (permit : Permit) (files : List FileName) :
    a.Retains (a.summarize permit files).2 := by
  induction files generalizing a with
  | nil => exact refl a
  | cons file rest ih =>
      have hread := tryRead a permit file
      have hrest := hread.trans (ih _)
      unfold Archive.summarize
      simp only
      split
      · exact hread
      · split
        · next hsummaries =>
            rw [hsummaries] at hrest
            exact hrest
        · next hsummaries =>
            rw [hsummaries] at hrest
            exact hrest

/-- A survey retains everything. -/
theorem records (a : Archive σ) (permit : Permit) : a.Retains (a.records permit).2 := by
  unfold Archive.records
  split
  · exact refl a
  · exact summarize a permit _

theorem isBroken (a : Archive σ) (permit : Permit) (file : FileName) :
    a.Retains (Archive.isBroken permit a file).2 :=
  tryRead a permit file

end Retains

/-- A map that was put has a record. -/
theorem holds_put {held : MapId → Bool} {permit : Permit} {map : SpanMap} {m : SharedMap}
    (h : (a.put held permit file map).1 = .ok m) :
    (a.put held permit file map).2.store.Holds file := by
  have hwritten := a.store.holds_write permit file map
  unfold put at h ⊢
  generalize a.store.write permit file map = answered at h hwritten
  obtain ⟨result, store⟩ := answered
  cases result with
  | error fault => cases h
  | ok _ => exact hwritten rfl

omit [DurableBlobStore σ] in
/-- A sweep keeps what its test and the removal of a record keep. -/
theorem sweep_keeps {P : Archive σ → Prop} {permit : Permit}
    {condemns : Archive σ → FileName → Except Failure Bool × Archive σ}
    (hlook : ∀ a file, P a → P (condemns a file).2)
    (hremove : ∀ a file, P a → P (removeRecord a permit file).2) (h : P a)
    (files : List FileName) : P (a.sweep permit condemns files).2 := by
  induction files generalizing a with
  | nil => exact h
  | cons file rest ih =>
      have hlooked := hlook a file h
      unfold Archive.sweep
      generalize condemns a file = looked at hlooked
      obtain ⟨verdict, b⟩ := looked
      cases verdict with
      | error failure => exact hlooked
      | ok condemned =>
          cases condemned with
          | false => exact ih hlooked
          | true =>
              have hremoved := hremove b file hlooked
              simp only at hremoved ⊢
              generalize b.removeRecord permit file = answered at hremoved
              obtain ⟨result, c⟩ := answered
              cases result with
              | error fault => exact hremoved
              | ok removed =>
                  have hrest := ih hremoved
                  simp only
                  generalize c.sweep permit condemns rest = swept at hrest
                  obtain ⟨count, d⟩ := swept
                  cases count with
                  | error failure => exact hrest
                  | ok count => exact hrest

namespace Intact

/-- No site refers to anything in a new archive. -/
theorem ofBlobs (blobs : σ) (owner : LockId) (capacity : Nat) :
    (Archive.ofBlobs blobs owner capacity).Intact := by
  intro site file h
  simp [Archive.ofBlobs, CallSites.last?, CallSites.entry?, CallSites.empty] at h

/-- Call sites that refer to records still do when these are retained. -/
theorem retains (h : a.Intact) (hr : a.Retains b) : b.Intact := by
  intro site file hlast
  rw [hr.sites_eq] at hlast
  obtain ⟨hcanonical, hheld⟩ := h site file hlast
  exact ⟨hcanonical, hr.holds file hheld⟩

/-- A change that refers no site to another file is harmless. -/
theorem changeSites (h : a.Intact) (permit : Permit) (site : CallSite)
    {change : CallSites → CallSites}
    (hlast : ∀ t other, (change t).last? other = t.last? other) :
    (a.changeSites permit site change).2.Intact := by
  unfold Archive.changeSites
  split
  · intro other file hfile
    rw [hlast] at hfile
    exact h other file hfile
  · exact h

/-- A site may refer to a record that is there. -/
theorem finish (h : a.Intact) (site : CallSite) {f : Fingerprint}
    (hf : a.store.Holds (.ofFingerprint f)) :
    Archive.Intact { a with sites := a.sites.finish site (.ofFingerprint f) } := by
  intro other file hlast
  simp only [CallSites.last?_finish] at hlast
  split at hlast
  · obtain rfl := Option.some.inj hlast
    exact ⟨⟨f, rfl⟩, hf⟩
  · exact h other file hlast

/-- A site refers to its expansion once that is stored. -/
theorem record (h : a.Intact) (held : MapId → Bool) (permit : Permit) (site : CallSite)
    (e : Expansion) : (a.record held permit site e).2.Intact := by
  unfold Archive.record
  split
  · cases hm : mapOf site e with
    | error fault => exact h
    | ok map =>
        have hkept := h.retains (Retains.put a held permit (.ofFingerprint e.fingerprint) map)
        have hstored : ∀ m, (a.put held permit (.ofFingerprint e.fingerprint) map).1 = .ok m →
            (a.put held permit (.ofFingerprint e.fingerprint) map).2.store.Holds
              (.ofFingerprint e.fingerprint) := fun _ => holds_put
        simp only
        generalize a.put held permit (.ofFingerprint e.fingerprint) map = answered at hkept hstored
        obtain ⟨result, b⟩ := answered
        cases result with
        | error fault => exact hkept
        | ok m =>
            have hfinished := hkept.finish site (hstored m rfl)
            simp only
            split
            · split
              · exact hfinished
              · exact hfinished
            · exact hfinished
  · exact h

/-- A file is forgotten by all sites before its record goes. -/
theorem removeRecord (h : a.Intact) (permit : Permit) (file : FileName) :
    (a.removeRecord permit file).2.Intact := by
  intro site other hlast
  have hforgotten : (a.sites.forget file).last? site = some other := hlast
  rw [CallSites.last?_forget, Option.filter_eq_some_iff, decide_eq_true_eq] at hforgotten
  obtain ⟨hbefore, hne⟩ := hforgotten
  obtain ⟨hcanonical, hheld⟩ := h site other hbefore
  exact ⟨hcanonical, hheld.remove permit hne.symm⟩

/-- A sweep looks at records and removes some of them. -/
theorem sweep (h : a.Intact) (permit : Permit)
    {condemns : Archive σ → FileName → Except Failure Bool × Archive σ}
    (hc : ∀ (a : Archive σ) file, a.Retains (condemns a file).2) (files : List FileName) :
    (a.sweep permit condemns files).2.Intact :=
  sweep_keeps (fun b file hb => hb.retains (hc b file)) (fun _ file hb => hb.removeRecord permit file)
    h files

/-- A collection forgets each file before its record goes. -/
theorem collect (h : a.Intact) (permit : Permit) (live : List Fingerprint) :
    (a.collect permit live).2.Intact := by
  unfold Archive.collect
  split
  · exact h
  · exact h.sweep permit (fun b _ => .refl b) _

/-- So does a purge. -/
theorem purge (h : a.Intact) (permit : Permit) : (a.purge permit).2.Intact := by
  unfold Archive.purge
  split
  · exact h
  · exact h.sweep permit (fun b file => .isBroken b permit file) _

end Intact

end Archive

/-- The step goes through the archive; it writes or removes nothing past it. -/
def ArchiveStep.coordinated {φ μ : Type} : ArchiveStep φ μ → Bool
  | .writeStore _ _ _ => false
  | .removeStore _ _ => false
  | .writeBlob _ _ _ => false
  | _ => true

namespace ArchiveSession

variable {σ : Type} [BlobStore σ]

/-- The session after steps under any permits. -/
def afterSteps (s : ArchiveSession σ) (steps : List (ArchiveStep FileName SpanMap)) :
    ArchiveSession σ :=
  steps.foldl (fun s step => (s.step step).2) s

omit [BlobStore σ] in
@[simp] theorem archive_settleMap (s : ArchiveSession σ) (hold : Option String)
    (r : Except Failure (Option SharedMap) × Archive σ) :
    (s.settleMap hold r).2.archive = r.2 := by
  obtain ⟨result, archive⟩ := r
  cases result <;> rfl

variable [DurableBlobStore σ] {s : ArchiveSession σ}

/-- Each step that goes through the archive leaves it intact, whatever it answers. -/
theorem intact_step (h : s.archive.Intact) {step : ArchiveStep FileName SpanMap}
    (hc : step.coordinated = true) : (s.step step).2.archive.Intact := by
  cases step with
  | get permit file hold =>
      simp only [ArchiveSession.step, archive_settleMap]
      exact h.retains (.get _ _ permit file)
  | mapForCall permit site current hold =>
      simp only [ArchiveSession.step, archive_settleMap]
      exact h.retains (.mapForCall _ _ permit site current)
  | state site current => exact h
  | records permit => exact h.retains (.records _ permit)
  | tryReadStore permit file => exact h.retains (.tryRead _ permit file)
  | readStore permit file => exact h.retains (.read _ permit file)
  | storeFiles permit => exact h
  | put permit file map hold =>
      simp only [ArchiveSession.step, archive_settleMap]
      exact h.retains (.put _ _ permit file map)
  | start permit site =>
      exact h.changeSites permit site fun t other => t.last?_start site other
  | giveUp permit site =>
      exact h.changeSites permit site fun t other => t.last?_giveUp site other
  | record permit site e => exact h.record s.held permit site e
  | collect permit live => exact h.collect permit live
  | purge permit => exact h.purge permit
  | invalidate file => exact h
  | invalidateAll => exact h
  | relieve => exact h
  | readBlob file =>
      refine h.retains ⟨rfl, fun other => ?_⟩
      rintro ⟨bytes, map, hblob, hdecode⟩
      exact ⟨bytes, map, (blob?_read _ _ _ _).trans hblob, hdecode⟩
  | drop slot => exact h
  | reopen => exact .ofBlobs s.archive.store.blobs s.archive.store.owner s.capacity
  | writeStore permit file map => cases hc
  | removeStore permit file => cases hc
  | writeBlob area file bytes => cases hc

/-- Call sites refer to records throughout a run. -/
theorem intact_afterSteps (h : s.archive.Intact) {steps : List (ArchiveStep FileName SpanMap)}
    (hc : ∀ step ∈ steps, step.coordinated = true) : (s.afterSteps steps).archive.Intact := by
  induction steps generalizing s with
  | nil => exact h
  | cons step rest ih =>
      obtain ⟨hstep, hrest⟩ := List.forall_mem_cons.mp hc
      exact ih (intact_step h hstep) hrest

/-- Whatever is asked of an archive and whatever fails, each file that a call site refers to has a
record that decodes. -/
theorem sites_refer_to_records (blobs : σ) (capacity : Nat)
    {steps : List (ArchiveStep FileName SpanMap)}
    (hc : ∀ step ∈ steps, step.coordinated = true) (site : CallSite) (file : FileName) :
    let a := ((ofBlobs blobs capacity).afterSteps steps).archive
    a.sites.last? site = some file →
      (∃ f, file = .ofFingerprint f) ∧
      ∃ bytes map, blob? a.store.blobs Store.area file = some bytes ∧
        Record.decode bytes = .ok map ∧
        ∀ mode, (a.store.tryRead (a.permit mode) file).1 = .ok (some map) ∨
          ∃ fault, (BlobStore.read a.store.blobs Store.area file).1 = .error fault := by
  intro a hlast
  have hstart : (ofBlobs blobs capacity).archive.Intact := .ofBlobs blobs ownLock capacity
  obtain ⟨hcanonical, bytes, map, hblob, hdecode⟩ := intact_afterSteps hstart hc site file hlast
  exact ⟨hcanonical, bytes, map, hblob, hdecode,
    fun mode => Store.tryRead_eq_or_error hblob hdecode rfl⟩

/-- A collection stops at a record that cannot be removed; another site gives up its expansion and
has its last one back. -/
theorem sites_refer_to_records_failing :
    let dead : Expansion := ⟨.ofContent [], .ofContent [], "", []⟩
    let live : Expansion := ⟨.ofContent [0], .ofContent [], "", []⟩
    let own : Permit := ⟨ownLock, .exclusive⟩
    let steps : List (ArchiveStep FileName SpanMap) := [.record own "left" dead,
      .record own "right" live, .start own "right", .collect own [live.fingerprint],
      .giveUp own "right"]
    let blobs : FaultyBlobs MemoryBlobs :=
      ⟨.empty, [none, none, some (.system "left" .isDirectory)]⟩
    (∀ step ∈ steps, step.coordinated = true) ∧
      ((ofBlobs blobs 1).afterSteps steps).archive.sites.last? "right" =
        some (.ofFingerprint live.fingerprint) ∧
      ∃ bytes map, blob? ((ofBlobs blobs 1).afterSteps steps).archive.store.blobs Store.area
        (.ofFingerprint live.fingerprint) = some bytes ∧ Record.decode bytes = .ok map := by
  intro dead live own steps blobs
  have hc : ∀ step ∈ steps, step.coordinated = true := by decide
  have hlast : ((ofBlobs blobs 1).afterSteps steps).archive.sites.last? "right" =
      some (.ofFingerprint live.fingerprint) := by
    decide +kernel
  obtain ⟨-, bytes, map, hblob, hdecode, -⟩ :=
    sites_refer_to_records blobs 1 hc "right" (.ofFingerprint live.fingerprint) hlast
  exact ⟨hc, hlast, bytes, map, hblob, hdecode⟩

end ArchiveSession

end MacroAtlas
