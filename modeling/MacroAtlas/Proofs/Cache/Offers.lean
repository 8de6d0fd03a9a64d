import MacroAtlas.Cache.Basic

/-!
# What a cache may serve

A cache offers the resident map and the remembered one of a file. No operation offers a map that was
not offered before, except that one which enters becomes the only one for its file. A faithful cache
offers only what its source has.
-/

namespace MacroAtlas

namespace Cache

/-- The map is resident or remembered for the file. -/
def Offers (c : Cache) (file : FileName) (m : SharedMap) : Prop :=
  (∃ stamp, c.resident[file]? = some ⟨m, stamp⟩) ∨ c.remembered[file]? = some m

/-- Whatever is offered for a file has the content that the source has for it. -/
def FaithfulTo (c : Cache) (source : FileName → Option SpanMap) : Prop :=
  ∀ file m, c.Offers file m → source file = some m.map

/-- A new cache offers nothing. -/
theorem not_offers_ofCapacity (capacity : Nat) (file : FileName) (m : SharedMap) :
    ¬ (ofCapacity capacity).Offers file m := by
  simp [Offers, ofCapacity]

@[simp] theorem resident_sweepQueue (c : Cache) : c.sweepQueue.resident = c.resident := by
  unfold sweepQueue
  split <;> rfl

@[simp] theorem remembered_sweepQueue (c : Cache) : c.sweepQueue.remembered = c.remembered := by
  unfold sweepQueue
  split <;> rfl

@[simp] theorem remembered_evictFrom (c : Cache) (uses : List Use) :
    (c.evictFrom uses).remembered = c.remembered := by
  induction uses generalizing c with
  | nil => rfl
  | cons use rest ih =>
      unfold evictFrom
      split
      · rfl
      split
      · exact ih _
      · exact ih c

/-- Eviction only takes residents away. -/
theorem resident_of_evictFrom {c : Cache} {uses : List Use} {file : FileName} {entry : Resident}
    (h : (c.evictFrom uses).resident[file]? = some entry) : c.resident[file]? = some entry := by
  induction uses generalizing c with
  | nil => exact h
  | cons use rest ih =>
      unfold evictFrom at h
      split at h
      · exact h
      split at h
      · have hr := ih h
        simp only [Std.ExtTreeMap.getElem?_erase] at hr
        split at hr
        · cases hr
        · exact hr
      · exact ih h

/-- Forgetting dead maps only takes remembered maps away. -/
theorem offers_of_forgetDead {c : Cache} {held : MapId → Bool} {file : FileName} {m : SharedMap}
    (h : (c.forgetDead held).Offers file m) : c.Offers file m := by
  rcases h with h | h
  · exact Or.inl h
  · simp only [forgetDead, Std.ExtTreeMap.getElem?_filter', Option.filter_eq_some_iff] at h
    exact Or.inr h.1

/-- Eviction offers nothing new. -/
theorem offers_of_evict {c : Cache} {held : MapId → Bool} {file : FileName} {m : SharedMap}
    (h : (c.evict held).Offers file m) : c.Offers file m := by
  have hwithin : ∀ uses, (c.evictFrom uses).Offers file m → c.Offers file m := by
    rintro uses (⟨stamp, hr⟩ | hm)
    · exact Or.inl ⟨stamp, resident_of_evictFrom hr⟩
    · exact Or.inr (by rwa [remembered_evictFrom] at hm)
  unfold evict at h
  by_cases hs : c.resident.size ≤ c.capacity
  · simp only [hs, ite_true] at h
    split at h
    · exact offers_of_forgetDead h
    · exact h
  · simp only [hs, ite_false] at h
    split at h
    · exact hwithin _ (offers_of_forgetDead h)
    · exact hwithin _ h

/-- Sweeping the queue changes nothing that is offered. -/
theorem offers_sweepQueue_iff {c : Cache} {file : FileName} {m : SharedMap} :
    c.sweepQueue.Offers file m ↔ c.Offers file m := by
  simp only [Offers, resident_sweepQueue, remembered_sweepQueue]

/-- A cache with a map put in, before it is brought back within its capacity. -/
def admitted (c : Cache) (file : FileName) (m : SharedMap) : Cache :=
  { c with
    remembered := c.remembered.insert file m
    queue := c.queue.push ⟨file, c.nextStamp⟩
    resident := c.resident.insert file ⟨m, c.nextStamp⟩
    nextStamp := c.nextStamp + 1 }

/-- Admission is three steps: the map goes in, the oldest uses go out, the queue is swept. -/
theorem enter_eq (c : Cache) (held : MapId → Bool) (file : FileName) (m : SharedMap) :
    c.enter held file m = ((c.admitted file m).evict held).sweepQueue := rfl

/-- A map that enters is the only one offered for its file, and nothing else is new. -/
theorem offers_of_enter {c : Cache} {held : MapId → Bool} {file other : FileName}
    {entered m : SharedMap} (h : (c.enter held file entered).Offers other m) :
    file = other ∧ m = entered ∨ file ≠ other ∧ c.Offers other m := by
  rw [enter_eq, offers_sweepQueue_iff] at h
  have h := offers_of_evict h
  simp only [Offers, admitted, Std.ExtTreeMap.getElem?_insert, Std.LawfulEqCmp.compare_eq_iff_eq]
    at h
  by_cases hf : file = other
  · simp only [hf, ite_true, Option.some.injEq, Resident.mk.injEq] at h
    refine Or.inl ⟨hf, ?_⟩
    rcases h with ⟨_, h, _⟩ | h <;> exact h.symm
  · simp only [hf, ite_false] at h
    exact Or.inr ⟨hf, h⟩

/-- A map that is used was offered, and its use offers nothing new. -/
theorem offers_of_touch? {c used : Cache} {file : FileName} {m : SharedMap}
    (h : c.touch? file = some (m, used)) :
    c.Offers file m ∧ ∀ other m', used.Offers other m' → c.Offers other m' := by
  unfold touch? at h
  split at h
  · cases h
  · next entry he =>
      obtain ⟨rfl, rfl⟩ := Prod.mk.inj (Option.some.inj h)
      refine ⟨Or.inl ⟨entry.stamp, he⟩, fun other m' h' => ?_⟩
      rw [offers_sweepQueue_iff] at h'
      simp only [Offers, Std.ExtTreeMap.getElem?_insert, Std.LawfulEqCmp.compare_eq_iff_eq] at h'
      by_cases hf : file = other
      · subst other
        simp only [ite_true, Option.some.injEq, Resident.mk.injEq] at h'
        rcases h' with ⟨_, rfl, _⟩ | h'
        · exact Or.inl ⟨entry.stamp, he⟩
        · exact Or.inr h'
      · simp only [hf, ite_false] at h'
        exact h'

/-- What a look-up finds was offered, and afterwards nothing new is. -/
theorem offers_of_get (c : Cache) (held : MapId → Bool) (file : FileName) :
    (∀ m, (c.get held file).1 = some m → c.Offers file m) ∧
      ∀ other m, (c.get held file).2.Offers other m → c.Offers other m := by
  unfold get
  cases ht : c.touch? file with
  | some found =>
      obtain ⟨m, used⟩ := found
      obtain ⟨hm, hused⟩ := offers_of_touch? ht
      exact ⟨fun m' h => Option.some.inj h ▸ hm, fun other m' h => hused other m' h⟩
  | none =>
      cases hl : c.living? held file with
      | none => exact ⟨nofun, fun _ _ h => h⟩
      | some m =>
          have hm : c.Offers file m := by
            simp only [living?, Option.filter_eq_some_iff] at hl
            exact Or.inr hl.1
          refine ⟨fun m' h => Option.some.inj h ▸ hm, fun other m' h => ?_⟩
          rcases offers_of_enter h with ⟨rfl, rfl⟩ | ⟨_, h⟩
          · exact hm
          · exact h

/-- A file that is dropped is not offered any more, and nothing is new. -/
theorem offers_of_invalidate {c : Cache} {file other : FileName} {m : SharedMap}
    (h : (c.invalidate file).Offers other m) : file ≠ other ∧ c.Offers other m := by
  simp only [Offers, invalidate, Std.ExtTreeMap.getElem?_erase,
    Std.LawfulEqCmp.compare_eq_iff_eq] at h
  by_cases hf : file = other
  · simp [hf] at h
  · simp only [hf, ite_false] at h
    exact ⟨hf, h⟩

/-- Files that are dropped one after the other are not offered any more, and nothing is new. -/
theorem offers_of_foldl_invalidate {c : Cache} {files : List FileName} {file : FileName}
    {m : SharedMap} (h : (files.foldl invalidate c).Offers file m) :
    file ∉ files ∧ c.Offers file m := by
  induction files generalizing c with
  | nil => exact ⟨List.not_mem_nil, h⟩
  | cons dropped rest ih =>
      obtain ⟨hrest, ho⟩ := ih h
      obtain ⟨hne, ho⟩ := offers_of_invalidate ho
      refine ⟨?_, ho⟩
      rw [List.mem_cons, not_or]
      exact ⟨hne.symm, hrest⟩

/-- A look-up finds nothing that is not offered. -/
theorem get_eq_none_of_not_offers {c : Cache} {file : FileName} (h : ∀ m, ¬ c.Offers file m)
    (held : MapId → Bool) : (c.get held file).1 = none := by
  rw [Option.eq_none_iff_forall_ne_some]
  intro m hm
  exact h m ((offers_of_get c held file).1 m hm)

/-- An emptied cache offers nothing. -/
theorem not_offers_clear (c : Cache) (file : FileName) (m : SharedMap) :
    ¬ c.clear.Offers file m := by
  simp [Offers, clear]

/-- A relieved cache offers nothing new. -/
theorem offers_of_relieve {c : Cache} {held : MapId → Bool} {file : FileName} {m : SharedMap}
    (h : (c.relieve held).Offers file m) : c.Offers file m := by
  rcases offers_of_forgetDead h with ⟨_, h⟩ | h
  · simp at h
  · exact Or.inr h

section Faithful

variable {c : Cache} {source source' : FileName → Option SpanMap} {held : MapId → Bool}
  {file : FileName} {m : SharedMap}

/-- A new cache is faithful to every source. -/
theorem faithfulTo_ofCapacity (capacity : Nat) (source : FileName → Option SpanMap) :
    (ofCapacity capacity).FaithfulTo source :=
  fun file m h => absurd h (not_offers_ofCapacity capacity file m)

/-- A faithful cache stays so when the source gets the map that enters. -/
theorem FaithfulTo.enter (h : c.FaithfulTo source) (hm : source' file = some m.map)
    (hs : ∀ other, file ≠ other → source' other = source other) :
    (c.enter held file m).FaithfulTo source' := by
  intro other m' ho
  rcases offers_of_enter ho with ⟨rfl, rfl⟩ | ⟨hf, ho⟩
  · exact hm
  · rw [hs other hf]
    exact h other m' ho

/-- A look-up in a faithful cache finds what the source has, and leaves it faithful. -/
theorem FaithfulTo.get (h : c.FaithfulTo source) (held : MapId → Bool) (file : FileName) :
    (∀ m, (c.get held file).1 = some m → source file = some m.map) ∧
      (c.get held file).2.FaithfulTo source := by
  obtain ⟨hfound, hafter⟩ := offers_of_get c held file
  exact ⟨fun m hm => h file m (hfound m hm), fun other m' ho => h other m' (hafter other m' ho)⟩

/-- A faithful cache stays so when a file is dropped, whatever becomes of it in the source. -/
theorem FaithfulTo.invalidate (h : c.FaithfulTo source)
    (hs : ∀ other, file ≠ other → source' other = source other) :
    (c.invalidate file).FaithfulTo source' := by
  intro other m' ho
  obtain ⟨hf, ho⟩ := offers_of_invalidate ho
  rw [hs other hf]
  exact h other m' ho

theorem FaithfulTo.clear : c.clear.FaithfulTo source :=
  fun file m h => absurd h (not_offers_clear c file m)

theorem FaithfulTo.relieve (h : c.FaithfulTo source) : (c.relieve held).FaithfulTo source :=
  fun other m' ho => h other m' (offers_of_relieve ho)

end Faithful

end Cache

end MacroAtlas
