import MacroAtlas.Archive.CallSites

/-!
# What happens to a call site

Each change of the table concerns the entry of one site, except that a file is forgotten by all of
them. The file of the last expansion survives that a new one starts or is given up.
-/

namespace MacroAtlas

namespace SiteEntry

/-- The entry once the records of several files are gone; nothing may be left of it. -/
def losing? (gone : FileName → Bool) : SiteEntry → Option SiteEntry
  | .expanding last => some (.expanding (last.filter fun file => !gone file))
  | .expanded file => if gone file then none else some (.expanded file)

/-- An entry that loses no file stays as it is. -/
theorem losing?_none (entry : SiteEntry) : entry.losing? (fun _ => false) = some entry := by
  cases entry with
  | expanding last => cases last <;> rfl
  | expanded file => rfl

/-- Forgetting a file is losing this one. -/
theorem without?_eq_losing? (entry : SiteEntry) (file : FileName) :
    entry.without? file = entry.losing? (· = file) := by
  cases entry with
  | expanding last =>
      cases last with
      | none => rfl
      | some other => by_cases hf : other = file <;> simp [without?, losing?, Option.filter, hf]
  | expanded other => by_cases hf : other = file <;> simp [without?, losing?, hf]

/-- Nothing is left of the files that are gone, and no other file goes. -/
theorem bind_last?_losing? (entry : SiteEntry) (gone : FileName → Bool) :
    (entry.losing? gone).bind last? = entry.last?.filter fun file => !gone file := by
  cases entry with
  | expanding last => rfl
  | expanded file => cases hg : gone file <;> simp [losing?, last?, Option.filter, hg]

/-- Files that go one after the other have gone all together. -/
theorem bind_losing?_losing? (entry : SiteEntry) (gone gone' : FileName → Bool) :
    (entry.losing? gone).bind (·.losing? gone') =
      entry.losing? fun file => gone file || gone' file := by
  cases entry with
  | expanding last =>
      cases last with
      | none => rfl
      | some file => cases hg : gone file <;> simp [losing?, Option.filter, hg]
  | expanded file => cases hg : gone file <;> simp [losing?, hg]

end SiteEntry

namespace CallSites

variable (t : CallSites) (site other : CallSite) (file : FileName)

/-- A new entry is that of its own site. -/
private theorem entry?_insert (entry : SiteEntry) :
    entry? ⟨t.entries.insert site entry⟩ other =
      if site = other then some entry else t.entry? other := by
  unfold entry?
  simp only [Std.ExtTreeMap.getElem?_insert, Std.LawfulEqCmp.compare_eq_iff_eq]

/-- An entry that is erased is that of its own site. -/
private theorem entry?_erase :
    entry? ⟨t.entries.erase site⟩ other = if site = other then none else t.entry? other := by
  unfold entry?
  simp only [Std.ExtTreeMap.getElem?_erase, Std.LawfulEqCmp.compare_eq_iff_eq]

/-- A site that starts keeps its last file in mind. -/
theorem entry?_start : entry? (t.start site) other =
    if site = other then some (.expanding (t.last? site)) else t.entry? other :=
  entry?_insert t site other _

/-- A site that finishes has its new file. -/
theorem entry?_finish : entry? (t.finish site file) other =
    if site = other then some (.expanded file) else t.entry? other :=
  entry?_insert t site other _

/-- Every site forgets the file. -/
theorem entry?_forget : entry? (t.forget file) other =
    (t.entry? other).bind (·.without? file) := by
  unfold entry? forget
  rw [Std.ExtTreeMap.getElem?_filterMap']

/-- An expansion under way that is given up leaves the last one. -/
theorem entry?_giveUp_of_expanding {last : Option FileName}
    (h : t.entry? site = some (.expanding last)) : entry? (t.giveUp site) other =
      if site = other then last.map .expanded else t.entry? other := by
  unfold giveUp
  rw [h]
  cases last with
  | none => exact entry?_erase t site other
  | some file => exact entry?_insert t site other _

/-- Where no expansion is under way there is nothing to give up. -/
theorem giveUp_of_not_expanding (h : ∀ last, t.entry? site ≠ some (.expanding last)) :
    t.giveUp site = t := by
  unfold giveUp
  split
  · next file he => exact absurd he (h (some file))
  · next he => exact absurd he (h none)
  · rfl

/-- Starting an expansion leaves the last file of every site. -/
@[simp] theorem last?_start : (t.start site).last? other = t.last? other := by
  rw [last?, entry?_start]
  by_cases hs : site = other
  · subst hs
    simp [SiteEntry.last?]
  · simp [hs, last?]

/-- So does giving one up. -/
@[simp] theorem last?_giveUp : (t.giveUp site).last? other = t.last? other := by
  by_cases h : ∃ last, t.entry? site = some (.expanding last)
  · obtain ⟨last, h⟩ := h
    rw [last?, entry?_giveUp_of_expanding t site other h]
    by_cases hs : site = other
    · subst hs
      cases last <;> simp [last?, h, SiteEntry.last?]
    · simp [hs, last?]
  · rw [giveUp_of_not_expanding t site (not_exists.mp h)]

/-- Finishing one changes the last file of its own site. -/
@[simp] theorem last?_finish :
    (t.finish site file).last? other = if site = other then some file else t.last? other := by
  rw [last?, entry?_finish]
  by_cases hs : site = other
  · simp [hs, SiteEntry.last?]
  · simp [hs, last?]

/-- A file that is forgotten is the last one of no site. -/
@[simp] theorem last?_forget : (t.forget file).last? other = (t.last? other).filter (· ≠ file) := by
  rw [last?, entry?_forget, last?]
  cases t.entry? other with
  | none => rfl
  | some entry =>
      have hlosing := entry.bind_last?_losing? (· = file)
      rw [← entry.without?_eq_losing?] at hlosing
      simpa using hlosing

end CallSites

end MacroAtlas
