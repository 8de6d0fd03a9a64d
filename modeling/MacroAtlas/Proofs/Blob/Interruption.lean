import MacroAtlas.Proofs.Blob.Refinement
import MacroAtlas.Proofs.Blob.Workshop

/-!
# Interrupted writes

Whatever happened to the writes of a directory store, a blob is what the last write that renamed its
temporary file put there, unless it was removed since. As long as no two writes under way share a
number, a temporary file holds what its own write put there.
-/

namespace MacroAtlas

/-- The blobs after a change, if there is one. -/
def BlobChange.applyAny (blobs : String → FileName → Option Bytes) (change : Option BlobChange) :
    String → FileName → Option Bytes :=
  change.elim blobs (·.apply blobs)

namespace DirectoryBlobs

/-- A store becomes another one with one change of its blobs, and touches the temporary files with
the given numbers. -/
structure Touches (s s' : DirectoryBlobs) (base : List String) (change : Option BlobChange)
    (numbers : List UInt64) : Prop where
  /-- The store is still housed. -/
  housed : s'.Housed base
  /-- The root is the same. -/
  root_eq : s'.root = s.root
  /-- The blobs are those after the change. -/
  blob?_eq : ∀ area file, Path.Ordinary area →
    s'.blob? area file = BlobChange.applyAny s.blob? change area file
  /-- No directory comes. -/
  clear : ∀ area (file : FileName), s.inside? base area file.text ≠ some .directory →
    s'.inside? base area file.text ≠ some .directory
  /-- Other temporary files are as they were. -/
  temporary_eq : ∀ area number, number ∉ numbers →
    s'.inside? base area (s'.temporaryName number) = s.inside? base area (s.temporaryName number)

variable {s s' : DirectoryBlobs} {base : List String} {area : String} {file : FileName}
  {number : UInt64} {numbers : List UInt64} {bytes : Bytes} {node : Option Node}

/-- What is done at one temporary file shows at no other. -/
theorem replace_temporaryName (inside : String → String → Option Node) {other : String}
    {number' : UInt64} (hn : number ≠ number') :
    replace inside area (s.temporaryName number) node other (s.temporaryName number') =
      inside other (s.temporaryName number') :=
  if_neg fun hsame => hn (temporaryName_inj hsame.2)

/-- What is done at a blob shows at no temporary file. -/
theorem replace_file_temporary (inside : String → String → Option Node) {other : String} :
    replace inside area file.text node other (s.temporaryName number) =
      inside other (s.temporaryName number) :=
  if_neg fun hsame => s.temporaryName_ne number file hsame.2.symm

namespace Touches

/-- Where no file changes no blob does. -/
theorem of_same (h : s.Housed base) (hb : Becomes s s' base (s.inside? base)) :
    Touches s s' base none numbers := by
  refine ⟨hb.housed, hb.root_eq, fun area file ha => ?_, fun area file hd => ?_,
    fun area number _ => ?_⟩
  · rw [hb.housed.blob?_eq ha, hb.inside?_eq, ← h.blob?_eq ha]
    rfl
  · rwa [hb.inside?_eq]
  · rw [hb.inside?_eq, hb.temporaryName_eq]

theorem refl (h : s.Housed base) : Touches s s base none numbers := of_same h (.refl h)

/-- What is done at a temporary file changes no blob. -/
theorem of_temporary (h : s.Housed base)
    (hb : Becomes s s' base (replace (s.inside? base) area (s.temporaryName number) node))
    (hn : number ∈ numbers) : Touches s s' base none numbers := by
  refine ⟨hb.housed, hb.root_eq, fun area file ha => ?_, fun area file hd => ?_,
    fun area other ho => ?_⟩
  · rw [hb.housed.blob?_eq ha, hb.inside?_eq, replace_temporary, ← h.blob?_eq ha]
    rfl
  · rwa [hb.inside?_eq, replace_temporary]
  · rw [hb.inside?_eq, hb.temporaryName_eq, replace_temporaryName]
    rintro rfl
    exact ho hn

/-- What is renamed is the blob, and its temporary file is gone. -/
theorem of_published (h : s.Housed base)
    (hb : Becomes s s' base (replace (replace (s.inside? base) area (s.temporaryName number) none)
      area file.text (some (.file bytes))))
    (hn : number ∈ numbers) : Touches s s' base (some (.written area file bytes)) numbers := by
  refine ⟨hb.housed, hb.root_eq, fun other any ha => ?_, fun other any hd => ?_,
    fun other number' ho => ?_⟩
  · rw [hb.housed.blob?_eq ha, hb.inside?_eq, replace_file, replace_temporary]
    simp only [BlobChange.applyAny, Option.elim, BlobChange.apply, h.blob?_eq ha]
    split <;> rfl
  · rw [hb.inside?_eq, replace_file, replace_temporary]
    split
    · simp
    · exact hd
  · rw [hb.inside?_eq, hb.temporaryName_eq, replace_file_temporary, replace_temporaryName]
    rintro rfl
    exact ho hn

/-- What is removed is the blob alone. -/
theorem of_removed (h : s.Housed base)
    (hb : Becomes s s' base (replace (s.inside? base) area file.text none)) :
    Touches s s' base (some (.removed area file)) numbers := by
  refine ⟨hb.housed, hb.root_eq, fun other any ha => ?_, fun other any hd => ?_,
    fun other number _ => ?_⟩
  · rw [hb.housed.blob?_eq ha, hb.inside?_eq, replace_file]
    simp only [BlobChange.applyAny, Option.elim, BlobChange.apply, h.blob?_eq ha]
    split <;> rfl
  · rw [hb.inside?_eq, replace_file]
    split
    · simp
    · exact hd
  · rw [hb.inside?_eq, hb.temporaryName_eq, replace_file_temporary]

/-- More temporary files may be touched than were. -/
theorem mono {numbers' : List UInt64} {change : Option BlobChange}
    (h : Touches s s' base change numbers) (hn : numbers ⊆ numbers') :
    Touches s s' base change numbers' :=
  ⟨h.housed, h.root_eq, h.blob?_eq, h.clear, fun area number ho =>
    h.temporary_eq area number fun hmem => ho (hn hmem)⟩

end Touches

section Steps

variable (h : s.Housed base) (ha : Path.Ordinary area)

include h ha

/-- Making the directory touches no file. -/
theorem touches_prepare : Touches s (s.prepare area).2 base none [] := .of_same h (h.prepare ha)

/-- Creating a temporary file touches that one. -/
theorem touches_stage :
    Touches s (s.stage area).2 base none (s.stage area).1.toOption.toList := by
  rcases h.stage ha with ⟨-, hsame⟩ | ⟨hok, hstaged⟩
  · exact .of_same h hsame
  · rw [hok]
    exact .of_temporary h hstaged List.mem_cons_self

/-- So does filling it, in full or in part. -/
theorem touches_fill (number : UInt64) (bytes : Bytes) :
    Touches s (s.fill area number bytes).2 base none [number] := by
  rcases h.fill ha number bytes with ⟨fault, hsame⟩ | ⟨-, hfilled⟩
  · rw [hsame]
    exact .refl h
  · exact .of_temporary h hfilled List.mem_cons_self

/-- What was filled in is there. -/
theorem inside?_fill (hok : (s.fill area number bytes).1 = .ok ()) :
    (s.fill area number bytes).2.inside? base area
      ((s.fill area number bytes).2.temporaryName number) = some (.file bytes) := by
  rcases h.fill ha number bytes with ⟨fault, hsame⟩ | ⟨-, hfilled⟩
  · rw [hsame] at hok
    cases hok
  · rw [hfilled.temporaryName_eq, hfilled.inside?_eq]
    exact replace_self _

/-- What is renamed is what is in the temporary file. -/
theorem touches_publish (file : FileName)
    (hn : s.inside? base area (s.temporaryName number) = some (.file bytes)) :
    Touches s (s.publish area number file).2 base
      ((s.publish area number file).1.toOption.map fun _ => .written area file bytes) [number] := by
  rcases h.publish ha number file with ⟨fault, hsame⟩ | ⟨hok, content, hcontent, hafter⟩
  · rw [hsame]
    exact .refl h
  · obtain rfl : bytes = content := by simpa using hn.symm.trans hcontent
    rw [hok]
    exact .of_published h hafter List.mem_cons_self

/-- Discarding a temporary file touches that one. -/
theorem touches_discard (number : UInt64) :
    Touches s (s.discard area number) base none [number] := by
  rcases h.discard ha number with hsame | hdiscarded
  · rw [hsame]
    exact .refl h
  · exact .of_temporary h hdiscarded List.mem_cons_self

end Steps

end DirectoryBlobs

namespace Draft

open DirectoryBlobs

variable {s : DirectoryBlobs} {base : List String} {d : Draft}

/-- What a write has filled into its temporary file is there. -/
def Full (d : Draft) (s : DirectoryBlobs) (base : List String) : Prop :=
  ∀ number, d.stage = .filled number →
    s.inside? base d.area (s.temporaryName number) = some (.file d.bytes)

/-- A write that has not filled its file has nothing to keep. -/
theorem full_of_not_filled (h : ∀ number, d.stage ≠ .filled number) : d.Full s base :=
  fun number hs => absurd hs (h number)

/-- A write makes progress by touching nothing but its own temporary file and, when that is renamed,
its blob. -/
structure Progresses (d : Draft) (s : DirectoryBlobs) (base : List String) (p : Progress) :
    Prop where
  /-- No other temporary file is touched. -/
  touches : Touches s p.store base p.change (d.stage.number?.toList ++ p.stage.number?.toList)
  /-- What was filled in is still there. -/
  full : ({ d with stage := p.stage } : Draft).Full p.store base

/-- A step that changes no blob. -/
theorem Progresses.of_touches {store : DirectoryBlobs} {stage : WriteStage}
    (h : Touches s store base none (d.stage.number?.toList ++ stage.number?.toList))
    (hs : ∀ number, stage ≠ .filled number) : Progresses d s base ⟨none, store, stage⟩ :=
  ⟨h, full_of_not_filled hs⟩

/-- The next step of a write touches its own temporary file and its blob alone. -/
theorem progresses_advance (h : s.Housed base) (ha : Path.Ordinary d.area) (hf : d.Full s base) :
    Progresses d s base (d.advance s) := by
  unfold advance
  split
  · have hprepare := touches_prepare h ha
    split
    all_goals
      next hs =>
        rw [hs] at hprepare
        exact .of_touches (hprepare.mono (List.nil_subset _)) (by simp)
  · have hstage := touches_stage h ha
    split
    all_goals
      next hs =>
        rw [hs] at hstage
        exact .of_touches (hstage.mono (List.subset_append_right _ _)) (by simp)
  · next number hnumber =>
      have hfill := touches_fill h ha number d.bytes
      have hfull := @inside?_fill s base d.area number d.bytes h ha
      split
      · next hs =>
          rw [hs] at hfill hfull
          refine ⟨hfill.mono (by simp [hnumber, WriteStage.number?]), fun other ho => ?_⟩
          obtain rfl := WriteStage.filled.inj ho
          exact hfull rfl
      · next hs =>
          rw [hs] at hfill
          exact .of_touches (hfill.mono (by simp [hnumber, WriteStage.number?])) (by simp)
  · next number hnumber =>
      have hpublish := touches_publish h ha d.file (hf number hnumber)
      split
      all_goals
        next hs =>
          rw [hs] at hpublish
          exact ⟨hpublish.mono (by simp [hnumber, WriteStage.number?]),
            full_of_not_filled (by simp)⟩
  · next number hnumber =>
      exact .of_touches ((touches_discard h ha number).mono (by simp [hnumber, WriteStage.number?]))
        (by simp)
  · exact .of_touches (.refl h) (by simp)

/-- So does whatever else becomes of it. -/
theorem progresses_act (h : s.Housed base) (ha : Path.Ordinary d.area) (hf : d.Full s base)
    (action : WriteAction) : Progresses d s base (d.act s action) := by
  cases action with
  | advance => exact progresses_advance h ha hf
  | pour length =>
      simp only [act]
      split
      · next number hnumber =>
          have hfill := touches_fill h ha number (d.bytes.take length)
          exact .of_touches (hfill.mono (by simp [hnumber, WriteStage.number?])) (by simp [hnumber])
      · exact ⟨.refl h, hf⟩
  | fail =>
      simp only [act]
      split
      all_goals exact .of_touches (.refl h) (by simp)
  | stop => exact .of_touches (.refl h) (by simp)

end Draft

theorem BlobChange.applyAny_congr {blobs blobs' : String → FileName → Option Bytes} {area : String}
    {file : FileName} (h : blobs area file = blobs' area file) (change : Option BlobChange) :
    applyAny blobs change area file = applyAny blobs' change area file := by
  cases change with
  | none => exact h
  | some change => cases change <;> simp only [applyAny, Option.elim, apply, h]

namespace Workshop

open DirectoryBlobs

variable {w : Workshop} {s s' : DirectoryBlobs} {base : List String}
  {blobs : String → FileName → Option Bytes}

/-- If the numbers are different, writes with the same number are the same. -/
theorem index_eq_of_number? {drafts : List Draft} {i j : Nat} {d d' : Draft} {number : UInt64}
    (h : (drafts.filterMap (·.stage.number?)).Nodup) (hi : drafts[i]? = some d)
    (hj : drafts[j]? = some d') (hn : d.stage.number? = some number)
    (hn' : d'.stage.number? = some number) : i = j := by
  rw [List.Nodup, List.pairwise_filterMap, List.pairwise_iff_getElem] at h
  obtain ⟨hilt, rfl⟩ := List.getElem?_eq_some_iff.mp hi
  obtain ⟨hjlt, rfl⟩ := List.getElem?_eq_some_iff.mp hj
  by_contra hne
  rcases Nat.lt_or_gt_of_ne hne with hlt | hlt
  · exact h i j hilt hjlt hlt number hn number hn' rfl
  · exact h j i hjlt hilt hlt number hn' number hn rfl

/-- The workshop has the given blobs, no directory took the name of a file, and what was filled in
is there. -/
structure Sound (w : Workshop) (s : DirectoryBlobs) (base : List String)
    (blobs : String → FileName → Option Bytes) : Prop where
  /-- The store is housed. -/
  housed : w.store.Housed base
  /-- The root is that of the start. -/
  root_eq : w.store.root = s.root
  /-- These are the blobs. -/
  blob?_eq : ∀ area file, Path.Ordinary area → w.store.blob? area file = blobs area file
  /-- No directory came. -/
  clear : ∀ area (file : FileName), s.inside? base area file.text ≠ some .directory →
    w.store.inside? base area file.text ≠ some .directory
  /-- The areas have ordinary names. -/
  area_ordinary : ∀ d ∈ w.drafts, Path.Ordinary d.area
  /-- What was filled in is there. -/
  full : ∀ d ∈ w.drafts, d.Full w.store base

namespace Sound

/-- A workshop without any work is in order. -/
theorem ofStore (h : s.Housed base) : (Workshop.ofStore s).Sound s base s.blob? :=
  ⟨h, rfl, fun _ _ _ => rfl, fun _ _ hd => hd, by simp [Workshop.ofStore],
    by simp [Workshop.ofStore]⟩

/-- The store is touched, and the writes may be others afterwards. -/
theorem touch (h : w.Sound s base blobs) {change : Option BlobChange} {numbers : List UInt64}
    (ht : Touches w.store s' base change numbers) {drafts : List Draft}
    (ha : ∀ d ∈ drafts, Path.Ordinary d.area) (hf : ∀ d ∈ drafts, d.Full s' base) :
    Sound ⟨s', drafts⟩ s base (BlobChange.applyAny blobs change) := by
  refine ⟨ht.housed, ht.root_eq.trans h.root_eq, fun area file ho => ?_,
    fun area file hd => ht.clear area file (h.clear area file hd), ha, hf⟩
  exact (ht.blob?_eq area file ho).trans
    (BlobChange.applyAny_congr (h.blob?_eq area file ho) change)

/-- A write with another number is full as it was. -/
theorem full_of_touches (h : w.Sound s base blobs) {change : Option BlobChange}
    {numbers : List UInt64} (ht : Touches w.store s' base change numbers) {d : Draft}
    (hd : d ∈ w.drafts) (hn : ∀ number, d.stage = .filled number → number ∉ numbers) :
    d.Full s' base := by
  intro number hs
  rw [ht.temporary_eq d.area number (hn number hs)]
  exact h.full d hd number hs

/-- Whatever becomes of one write, as long as no two writes under way have the same number. -/
theorem act (h : w.Sound s base blobs) {index : Nat} {d : Draft} (hd : w.drafts[index]? = some d)
    (action : WriteAction) (hn : w.numbers.Nodup)
    (hn' : (w.step (.act index action)).2.numbers.Nodup) :
    (w.step (.act index action)).2.Sound s base
      (BlobChange.applyAny blobs (w.step (.act index action)).1) := by
  have hmem := List.mem_of_getElem? hd
  have hlt : index < w.drafts.length := (List.getElem?_eq_some_iff.mp hd).1
  obtain ⟨htouches, hfull⟩ :=
    Draft.progresses_act h.housed (h.area_ordinary d hmem) (h.full d hmem) action
  simp only [step, hd, numbers] at hn' ⊢
  generalize d.act w.store action = p at hn' htouches hfull ⊢
  have hothers : ∀ e ∈ w.drafts.set index { d with stage := p.stage },
      Path.Ordinary e.area ∧ e.Full p.store base := by
    intro e he
    obtain ⟨other, hother⟩ := List.mem_iff_getElem?.mp he
    by_cases hsame : index = other
    · subst hsame
      rw [List.getElem?_set_self hlt] at hother
      obtain rfl := Option.some.inj hother
      exact ⟨h.area_ordinary d hmem, hfull⟩
    · have hbefore : w.drafts[other]? = some e := by
        rwa [List.getElem?_set_ne hsame] at hother
      refine ⟨h.area_ordinary e (List.mem_of_getElem? hbefore),
        h.full_of_touches htouches (List.mem_of_getElem? hbefore) fun number hs hmember => hsame ?_⟩
      -- Neither before nor after the step does the other write have its number.
      have hnumber : e.stage.number? = some number := by rw [hs]; rfl
      rcases List.mem_append.mp hmember with hold | hnew
      · exact index_eq_of_number? hn hd hbefore (Option.mem_toList.mp hold) hnumber
      · exact index_eq_of_number? hn' (List.getElem?_set_self hlt) hother
          (Option.mem_toList.mp hnew) hnumber
  exact h.touch htouches (fun e he => (hothers e he).1) fun e he => (hothers e he).2

/-- Everything that may happen leaves the workshop in order. -/
theorem step (h : w.Sound s base blobs) {event : StoreEvent}
    (ha : ∀ area ∈ event.area?, Path.Ordinary area) (hn : w.numbers.Nodup)
    (hn' : (w.step event).2.numbers.Nodup) :
    (w.step event).2.Sound s base (BlobChange.applyAny blobs (w.step event).1) := by
  cases event with
  | request area file bytes =>
      have htouches : Touches w.store w.store base none [] := .refl h.housed
      refine h.touch htouches (fun d hd => ?_) fun d hd => ?_
      · rcases List.mem_append.mp hd with hold | hnew
        · exact h.area_ordinary d hold
        · rw [List.mem_singleton.mp hnew]
          exact ha area rfl
      · rcases List.mem_append.mp hd with hold | hnew
        · exact h.full d hold
        · rw [List.mem_singleton.mp hnew]
          exact Draft.full_of_not_filled (by simp)
  | act index action =>
      cases hd : w.drafts[index]? with
      | none =>
          simp only [Workshop.step, hd]
          exact h
      | some d => exact h.act hd action hn hn'
  | remove area file =>
      rcases hr : w.store.remove area file with ⟨result, store⟩
      have hremove := h.housed.remove (ha area rfl) file
      rw [hr] at hremove
      simp only [Workshop.step, hr]
      rcases hremove with ⟨hresult, hsame⟩ | ⟨hresult, hremoved⟩
      · obtain rfl : store = w.store := hsame
        rw [if_neg hresult]
        exact h
      · have htouches : Touches w.store store base (some (.removed area file)) [] :=
          .of_removed h.housed hremoved
        rw [if_pos hresult]
        exact h.touch htouches h.area_ordinary fun d hd =>
          h.full_of_touches htouches hd fun number _ => List.not_mem_nil
  | restart run =>
      exact ⟨h.housed, h.root_eq, h.blob?_eq, h.clear, by simp [Workshop.step, Workshop.ofStore],
        by simp [Workshop.step, Workshop.ofStore]⟩

/-- So the workshop is in order whatever happened. -/
theorem after (h : w.Sound s base blobs) {history : List StoreEvent}
    (ha : ∀ event ∈ history, ∀ area ∈ event.area?, Path.Ordinary area)
    (hn : ∀ front, front <+: history → (w.after front).numbers.Nodup) :
    (w.after history).Sound s base ((w.changes history).foldl BlobChange.apply blobs) := by
  induction history generalizing w blobs with
  | nil => exact h
  | cons event rest ih =>
      obtain ⟨hevent, hrest⟩ := List.forall_mem_cons.mp ha
      have hnow := hn [] List.nil_prefix
      have hnext := hn [event] (List.prefix_append [event] rest)
      have hstep := ih (h.step hevent hnow hnext) hrest fun front hfront =>
        hn (event :: front) (List.cons_prefix_cons.mpr ⟨rfl, hfront⟩)
      rw [changes, List.foldl_append]
      cases hchange : (w.step event).1 with
      | none => rwa [hchange] at hstep
      | some change => rwa [hchange] at hstep

end Sound

/-- Whatever was done, in full or in part, a reader gets the bytes that were last renamed to a file
unless they were removed. -/
theorem readers_see_renamed_writes {history : List StoreEvent} (h : s.Housed base)
    (ha : ∀ event ∈ history, ∀ area ∈ event.area?, Path.Ordinary area)
    (hn : ∀ front, front <+: history → ((ofStore s).after front).numbers.Nodup) :
    let w := (ofStore s).after history
    let blobs := ((ofStore s).changes history).foldl BlobChange.apply s.blob?
    ∀ area, Path.Ordinary area →
      (∀ file bytes, w.store.read area file = .ok (some bytes) ↔ blobs area file = some bytes) ∧
      (∀ file : FileName, s.root.HasRoom 2 → file.text.utf8ByteSize ≤ FileTree.nameLimit →
        s.inside? base area file.text ≠ some .directory →
        w.store.read area file = .ok (blobs area file)) ∧
      ∃ names, w.store.files area = .ok names ∧ names.Nodup ∧
        ∀ file, file ∈ names ↔ (blobs area file).isSome := by
  intro w blobs area ho
  have hsound : w.Sound s base blobs := (Sound.ofStore h).after ha hn
  obtain ⟨names, hnames⟩ := hsound.housed.exists_files ho
  refine ⟨fun file bytes => ?_, fun file hroom hf hd => ?_, names, hnames, nodup_files hnames,
    fun file => ?_⟩
  · rw [← hsound.blob?_eq area file ho]
    exact ⟨fun hread => (read_eq hread).symm, read_of_blob?⟩
  · rw [← hsound.root_eq] at hroom
    rw [← hsound.blob?_eq area file ho]
    exact hsound.housed.read_eq hroom ho hf (hsound.clear area file hd)
  · rw [mem_files ho.ne_empty hnames, hsound.blob?_eq area file ho]

/-- Writes are renamed, refused and removed, and the run ends in the middle of one. -/
theorem readers_see_renamed_writes_across_runs :
    let first : FileName := ⟨"a.rs", by decide⟩
    let second : FileName := ⟨"b.rs", by decide⟩
    let history : List StoreEvent := [.request "one" first [1, 2], .request "one" first [3, 4, 5],
      .act 0 .advance, .act 0 .advance, .act 0 (.pour 1), .act 1 .advance, .act 1 .advance,
      .act 1 .advance, .act 1 .advance, .act 0 .advance, .act 0 .fail, .request "one" second [6],
      .act 2 .advance, .act 2 .advance, .act 2 .advance, .remove "one" first, .act 2 .advance,
      .request "one" first [7, 8], .act 3 .advance, .act 3 .advance, .act 3 (.pour 1), .restart 8]
    let w := ofStore (.ofTree (.ofText [] "store") .empty 7)
    w.changes history = [.written "one" first [3, 4, 5], .removed "one" first,
        .written "one" second [6]] ∧
      ∀ file bytes, (w.after history).store.read "one" file = .ok (some bytes) ↔
        file = second ∧ bytes = [6] := by
  intro first second history w
  have hempty : ∀ below, below ≠ [] → FileTree.empty.node? (["store"] ++ below) = none := by
    simp [FileTree.node?, FileTree.empty]
  have hopens : FileTree.empty.Opens [] ([] ++ ["store"]) ([] ++ ["store"]) :=
    .beneath (.there rfl rfl) (by decide) (by simp [FileTree.node?, FileTree.empty])
  have hhoused : (DirectoryBlobs.ofTree (.ofText [] "store") .empty 7).Housed ["store"] :=
    FileTree.Houses.of_empty hopens hempty
  have hchanges : w.changes history = [.written "one" first [3, 4, 5], .removed "one" first,
      .written "one" second [6]] := by decide +kernel
  have hnone : ∀ file, w.store.blob? "one" file = none := by
    intro file
    have hnothing := hempty ["one", file.text] (by simp)
    refine (hhoused.blob?_eq (by decide) file).trans ?_
    simp only [inside?, DirectoryBlobs.ofTree, hnothing, Option.bind_none]
  have hareas : ∀ event ∈ history, ∀ area ∈ event.area?, Path.Ordinary area := by decide +kernel
  obtain ⟨hread, -⟩ := readers_see_renamed_writes hhoused hareas
    (fun front hfront => nodup_numbers_after _ (hfront.length_le.trans (by decide))) "one"
    (by decide)
  refine ⟨hchanges, fun file bytes => (hread file bytes).trans ?_⟩
  have hblob : ((w.changes history).foldl BlobChange.apply w.store.blob?) "one" file =
      if second = file then some [6] else none := by
    simp only [hchanges, List.foldl_cons, List.foldl_nil, BlobChange.apply, true_and, hnone]
    split
    · rfl
    · split <;> rfl
  refine (Eq.congr_left hblob).trans ?_
  split
  · next hsame => simp [hsame, eq_comm]
  · next hother => simp [Ne.symm hother]

end Workshop

end MacroAtlas
