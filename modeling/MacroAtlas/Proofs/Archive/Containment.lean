import MacroAtlas.Proofs.Archive.Freshness
import MacroAtlas.Proofs.Archive.Recording
import MacroAtlas.Proofs.SpanMap.Acceptance

/-!
# Recorded maps stay inside their texts

The bounds of an expansion are looked at once, on the links as they come. The map is then sorted,
written, decoded and asked again, perhaps by another archive. Every answer lies within the link that
gives it, so none leaves the texts.
-/

namespace MacroAtlas

namespace SpanMap

variable {m : SpanMap} {query answer : Span}

/-- What a query in the call is answered lies in the target of a link, and starts in front of its
end. -/
theorem exists_link_of_mem_toTarget (h : answer ∈ m.toTarget query) :
    ∃ l ∈ m.links.toList, answer.start ≤ answer.stop ∧ answer.start < l.target.stop ∧
      answer.stop ≤ l.target.stop := by
  obtain ⟨l, hl, hshare⟩ := m.mem_toTarget_iff.mp h
  have hproper := m.proper_of_mem hl
  obtain ⟨-, hordered, hstop⟩ := hshare.within hproper.toTarget
  exact ⟨l, hl, hordered, hshare.start_lt hproper.target, hstop⟩

/-- What a query in the expansion is answered lies in the source of a link. -/
theorem exists_link_of_mem_toSource (h : answer ∈ m.toSource query) :
    ∃ l ∈ m.links.toList, l.source.start ≤ answer.start ∧ answer.start ≤ answer.stop ∧
      answer.stop ≤ l.source.stop := by
  obtain ⟨l, hl, hshare⟩ := m.mem_toSource_iff.mp h
  exact ⟨l, hl, hshare.within (m.proper_of_mem hl).toSource⟩

/-- The map has the links of an expansion, and no answer of it leaves the texts of the expansion. -/
structure Charts (m : SpanMap) (e : Expansion) : Prop where
  /-- The links are those of the expansion. -/
  links_perm : m.links.toList.Perm e.links
  /-- They are in the order of their targets. -/
  ordered : m.links.toList.Pairwise fun a b => a.target.start < b.target.start
  /-- What a query in the call is answered lies in the text of the expansion. -/
  inside_text : ∀ query, ∀ answer ∈ m.toTarget query,
    answer.start ≤ answer.stop ∧ answer.stop.toNat ≤ e.text.utf8ByteSize
  /-- Each offset that an offset of the call was copied to is that of a byte of the text. -/
  offset_inside_text : ∀ offset, ∀ image ∈ m.offsetToTarget offset,
    image.toNat < e.text.utf8ByteSize
  /-- What a query in the expansion is answered lies in a part of the call that some link names. -/
  inside_source : ∀ query, ∀ answer ∈ m.toSource query, ∃ l ∈ e.links,
    l.source.start ≤ answer.start ∧ answer.start ≤ answer.stop ∧ answer.stop ≤ l.source.stop

/-- The map of an expansion whose links lie in its text stays inside. -/
theorem charts_of_mapOf {site : CallSite} {e : Expansion} (h : Archive.mapOf site e = .ok m) :
    m.Charts e := by
  obtain ⟨hinside, hlinks⟩ := Archive.mapOf_eq_ok_iff.mp h
  have hperm : m.links.toList.Perm e.links := by
    rw [ofLinks_eq_ok_iff.mp hlinks]
    exact List.mergeSort_perm e.links Link.le
  have hstop : ∀ l ∈ m.links.toList, l.target.stop.toNat ≤ e.text.utf8ByteSize :=
    fun l hl => hinside l (hperm.mem_iff.mp hl)
  refine ⟨hperm, m.pairwise_start_lt_and_stop_le.imp And.left, ?_, ?_, ?_⟩
  · intro query answer ha
    obtain ⟨l, hl, hordered, -, hle⟩ := exists_link_of_mem_toTarget ha
    exact ⟨hordered, Nat.le_trans hle (hstop l hl)⟩
  · intro offset image hi
    obtain ⟨answer, ha, rfl⟩ := List.mem_map.mp hi
    obtain ⟨l, hl, -, hlt, -⟩ := exists_link_of_mem_toTarget ha
    exact Nat.lt_of_lt_of_le hlt (hstop l hl)
  · intro query answer ha
    obtain ⟨l, hl, hwithin⟩ := exists_link_of_mem_toSource ha
    exact ⟨l, hperm.mem_iff.mp hl, hwithin⟩

end SpanMap

/-- The request stores a map under the file or removes its record. A purge does neither for a file
that has a map. -/
def Request.supersedes (file : FileName) : Request → Bool
  | .put other _ => other = file
  | .record site e => (Archive.mapOf site e).isOk ∧ FileName.ofFingerprint e.fingerprint = file
  | .collect live => Archive.isDead live file
  | _ => false

/-- A request that does not supersede a record leaves the map of its file. -/
theorem Request.lastMap_of_not_supersedes {file : FileName} {request : Request}
    (h : request.supersedes file = false) (before : Option SpanMap) :
    request.lastMap file before = before := by
  cases request with
  | put other map =>
      exact if_neg (of_decide_eq_false h)
  | record site e =>
      have hkept := of_decide_eq_false h
      cases hm : Archive.mapOf site e with
      | error fault => simp only [lastMap, hm]
      | ok map =>
          rw [hm] at hkept
          simp only [lastMap, hm]
          exact if_neg fun heq => hkept ⟨rfl, heq⟩
  | collect live =>
      have hlive : Archive.isDead live file = false := h
      simp only [lastMap, hlive, Bool.false_eq_true, ite_false]
  | _ => rfl

/-- So does a run of such requests. -/
theorem lastMap_of_not_supersedes {file : FileName} {requests : List Request}
    (h : ∀ request ∈ requests, request.supersedes file = false) (initial : Option SpanMap) :
    lastMap file initial requests = initial := by
  induction requests generalizing initial with
  | nil => rfl
  | cons request rest ih =>
      obtain ⟨hfirst, hrest⟩ := List.forall_mem_cons.mp h
      have hstep := Request.lastMap_of_not_supersedes hfirst initial
      calc lastMap file initial (request :: rest)
          = lastMap file (request.lastMap file initial) rest := rfl
        _ = initial := by rw [hstep, ih hrest]

namespace ArchiveSession

variable {s : ArchiveSession MemoryBlobs} {file : FileName} {map : SpanMap}

/-- Every own look-up of the file finds a map of the expansion that stays inside its texts. -/
def Serves (s : ArchiveSession MemoryBlobs) (file : FileName) (e : Expansion) : Prop :=
  ∀ held mode, ∃ m after,
    s.archive.get held (s.archive.permit mode) file = (.ok (some m), after) ∧ m.map.Charts e

/-- The map of a record that nothing supersedes is found after any run. -/
theorem serves_after (h : s.archive.Faithful) (hm : s.archive.plain.map? file = some map)
    {e : Expansion} (hc : map.Charts e) {later : List OwnStep}
    (hl : ∀ request ∈ requestsOf later, request.supersedes file = false) :
    (s.after later).archive.plain.map? file = some map ∧ (s.after later).Serves file e := by
  obtain ⟨-, hplain, hfaithful⟩ := contents_eq_plain h later
  have hmap : (s.after later).archive.plain.map? file = some map := by
    rw [hplain, Plain.map?_after, lastMap_of_not_supersedes hl, hm]
  refine ⟨hmap, fun held mode => ?_⟩
  obtain ⟨found, after, hget, hfound, -, -⟩ := Archive.get_own hfaithful held mode file
  rw [hmap] at hfound
  obtain ⟨m, rfl, rfl⟩ := Option.map_eq_some_iff.mp hfound
  exact ⟨m, after, hget, hc⟩

/-- A recording that has succeeded leaves the map of the expansion under the file. -/
theorem map?_of_take_record (h : s.archive.Faithful) {t : ArchiveSession MemoryBlobs}
    {site : CallSite} {e : Expansion} {mode : AccessMode} {hold : Option String}
    (hr : s.take (.ask (.record site e) mode hold) = (.ok (.file file), t)) :
    t.archive.Faithful ∧ ∃ map, Archive.mapOf site e = .ok map ∧
      t.archive.plain.map? file = some map := by
  obtain ⟨hanswer, hplain, hfaithful⟩ := matches_ask h (.record site e) mode hold
  rw [hr] at hanswer hplain hfaithful
  refine ⟨hfaithful, ?_⟩
  cases hm : Archive.mapOf site e with
  | error fault =>
      simp only [Plain.serve, hm] at hanswer
      cases hanswer
  | ok map =>
      have hserve := Plain.map?_serve s.archive.plain (.record site e) file
      simp only [Plain.serve, hm] at hanswer
      obtain rfl : file = .ofFingerprint e.fingerprint := by
        simpa [Except.map, ArchiveAnswer.forgetSlots] using hanswer
      refine ⟨map, rfl, ?_⟩
      rw [show t.archive.plain = _ from hplain, hserve]
      simp only [Request.lastMap, hm, ite_true]

/-- The map of a recorded expansion never points outside of its texts, as long as the record is
neither replaced nor removed. -/
theorem recorded_map_stays_inside (blobs : MemoryBlobs) (capacity : Nat)
    (steps later : List OwnStep) {site : CallSite} {e : Expansion} {mode : AccessMode}
    {hold : Option String} {file : FileName} {s : ArchiveSession MemoryBlobs}
    (hrecord : ((ofBlobs blobs capacity).after steps).take (.ask (.record site e) mode hold) =
      (.ok (.file file), s))
    (hkept : ∀ request ∈ requestsOf later, request.supersedes file = false) :
    (s.after later).Serves file e ∧
      ∀ capacity' more, (∀ request ∈ requestsOf more, request.supersedes file = false) →
        ((ofBlobs (s.after later).archive.store.blobs capacity').after more).Serves file e := by
  obtain ⟨-, -, hfaithful⟩ := contents_eq_plain (faithful_ofBlobs blobs capacity) steps
  obtain ⟨hfaithful', map, hm, hmap⟩ := map?_of_take_record hfaithful hrecord
  have hcharts := SpanMap.charts_of_mapOf hm
  obtain ⟨hstill, hserves⟩ := serves_after hfaithful' hmap hcharts hkept
  refine ⟨hserves, fun capacity' more hmore => ?_⟩
  have hreopened : (ofBlobs (s.after later).archive.store.blobs capacity').archive.plain.map? file =
      some map := hstill
  exact (serves_after (faithful_ofBlobs _ capacity') hreopened hcharts hmore).2

/-- An expansion is recorded, looked up and then crowded out of a cache for one file. -/
theorem recorded_map_stays_inside_crowded_out :
    let e : Expansion := ⟨.ofContent [], .ofContent [], "a+b", [⟨⟨0, 3⟩, ⟨2, 7⟩, true⟩]⟩
    let file := FileName.ofFingerprint e.fingerprint
    let record := OwnStep.ask (.record "site" e) .exclusive none
    let later := [OwnStep.ask (.get file) .shared none,
      .ask (.put ⟨"other", by decide⟩ .empty) .exclusive none, .ask .purge .exclusive none]
    let s := ((ofBlobs MemoryBlobs.empty 1).take record).2
    (ofBlobs MemoryBlobs.empty 1).take record = (.ok (.file file), s) ∧
      (∀ request ∈ requestsOf later, request.supersedes file = false) ∧
      (s.after later).Serves file e ∧
      ∀ capacity more, (∀ request ∈ requestsOf more, request.supersedes file = false) →
        ((ofBlobs (s.after later).archive.store.blobs capacity).after more).Serves file e := by
  intro e file record later s
  have hanswer : ((ofBlobs MemoryBlobs.empty 1).take record).1 = .ok (.file file) := by
    decide +kernel
  have hrecord : (ofBlobs MemoryBlobs.empty 1).take record = (.ok (.file file), s) :=
    Prod.ext hanswer rfl
  have hkept : ∀ request ∈ requestsOf later, request.supersedes file = false := by
    decide +kernel
  exact ⟨hrecord, hkept, recorded_map_stays_inside .empty 1 [] later hrecord hkept⟩

end ArchiveSession

end MacroAtlas
