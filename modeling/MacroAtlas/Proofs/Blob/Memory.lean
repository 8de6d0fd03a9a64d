import MacroAtlas.Blob.Memory

/-!
# What a memory store lists

The keys of a tree map come in their order, by area and then by file. So the files of one area are
listed in the order of their names, each of them once, and they are those that have a blob.
-/

namespace MacroAtlas

namespace MemoryBlobs

variable (s : MemoryBlobs) (area : String)

/-- The files of an area are those with a blob. -/
theorem mem_filesOf {file : FileName} : file ∈ s.filesOf area ↔ (s.blob? area file).isSome := by
  simp only [filesOf, List.mem_map, List.mem_filter, Std.ExtTreeMap.mem_keys, decide_eq_true_eq,
    blob?, Std.ExtTreeMap.isSome_getElem?_iff_mem]
  constructor
  · rintro ⟨⟨other, _⟩, ⟨hk, rfl⟩, rfl⟩
    exact hk
  · intro hk
    exact ⟨_, ⟨hk, rfl⟩, rfl⟩

/-- The files are listed in the order of their names. -/
theorem ordered_filesOf : (s.filesOf area).Pairwise (·.text < ·.text) := by
  refine List.Pairwise.map _ ?_ (List.Pairwise.and_mem.mp (s.blobs.ordered_keys.filter _))
  rintro ⟨other, file⟩ ⟨other', file'⟩ ⟨hk, hk', hlt⟩
  simp only [List.mem_filter, decide_eq_true_eq] at hk hk'
  -- Both keys are of the one area, so the files decide.
  have hcompare : compare (BlobKey.mk other file) ⟨other', file'⟩ =
      (compare other other').then (compare file.text file'.text) := rfl
  rw [hcompare, hk.2, hk'.2, Std.ReflOrd.compare_self] at hlt
  exact compareOfLessAndEq_eq_lt.mp hlt

end MemoryBlobs

end MacroAtlas
