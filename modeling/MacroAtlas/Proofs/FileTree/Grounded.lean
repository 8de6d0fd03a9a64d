import Mathlib.Data.List.Induction
import MacroAtlas.Proofs.FileTree.Places

/-!
# Grounded file trees

In a grounded tree everything stands in a directory. So a path that never leads up passes nothing
but directories on its way to a file, and leads there in one tree if it does in another. Whatever is
done to a grounded tree, it stays grounded.
-/

namespace MacroAtlas

namespace FileTree

variable {t t' : FileTree} {place above dir names : List String} {name : String} {p q : Path}
  {content : Bytes}

/-- Whatever is below the top is in a directory. -/
def Grounded (t : FileTree) : Prop :=
  ∀ place name, t.node? (place ++ [name]) ≠ none → t.node? place = some .directory

/-- It is enough to look at the entries of the tree. -/
theorem grounded_iff :
    t.Grounded ↔ ∀ entry ∈ t.nodes.toList, t.node? entry.1.dropLast = some .directory := by
  have hbelow : ∀ place name, t.node? (place ++ [name]) = t.nodes[place ++ [name]]? := by
    intro place name
    cases place <;> rfl
  constructor
  · rintro h ⟨place, node⟩ hmem
    rw [Std.ExtTreeMap.mem_toList_iff_getElem?_eq_some] at hmem
    rcases List.eq_nil_or_concat place with rfl | ⟨front, last, rfl⟩
    · rfl
    · rw [List.concat_eq_append] at hmem ⊢
      rw [List.dropLast_concat]
      refine h front last ?_
      rw [hbelow, hmem]
      exact Option.some_ne_none node
  · intro h place name hn
    obtain ⟨node, hnode⟩ := Option.ne_none_iff_exists'.mp hn
    rw [hbelow, ← Std.ExtTreeMap.mem_toList_iff_getElem?_eq_some] at hnode
    have hparent := h _ hnode
    rwa [List.dropLast_concat] at hparent

instance (t : FileTree) : Decidable t.Grounded := decidable_of_iff _ grounded_iff.symm

/-- What is above something is a directory. -/
theorem Grounded.directory_above (h : t.Grounded) (hp : above <+: place) (hne : above ≠ place)
    (hn : t.node? place ≠ none) : t.node? above = some .directory := by
  induction place using List.reverseRecOn with
  | nil => exact absurd (List.prefix_nil.mp hp) hne
  | append_singleton front last ih =>
      have hfront := h front last hn
      rcases List.prefix_concat_iff.mp hp with rfl | hp'
      · exact absurd rfl hne
      · by_cases hsame : above = front
        · rw [hsame]
          exact hfront
        · exact ih hp' hsame (by simp [hfront])

/-- Where a name leads from a directory does not depend on the rest of the tree. -/
theorem follow_congr (hd : t.node? dir = some .directory) (hd' : t'.node? dir = some .directory)
    (name : String) : t'.follow dir name = t.follow dir name := by
  rw [follow, follow, hd, hd']

/-- A path with a name behind it leads into a directory wherever it does so in another tree. -/
theorem locate_join_congr (hn : Path.Plain name) (hl : t.locate p = .ok dir)
    (hd : t.node? dir = some .directory) (hl' : t'.locate (p.join name) = .ok (dir ++ [name])) :
    t.locate (p.join name) = .ok (dir ++ [name]) := by
  have hnames := Path.names_join hn p
  have hstart : (p.join name).start = p.start := by rw [Path.join_eq hn]
  have hfrom := locateFrom_of_locate hl'
  rw [hnames, hstart] at hfrom
  obtain ⟨dir', -, hfollow⟩ := locateFrom_append.mp hfrom
  obtain rfl := List.append_cancel_right (eq_of_follow_plain hn hfollow)
  unfold locate at hl' ⊢
  split at hl'
  · cases hl'
  · split at hl'
    · cases hl'
    · next hvoid =>
        rw [if_neg hvoid, hnames, hstart]
        refine locateFrom_append.mpr ⟨dir, locateFrom_of_locate hl, ?_⟩
        exact (follow_congr (node?_of_follow hfollow) hd name).trans hfollow

/-- A name that does not lead up leads to the same place or to one below it. -/
theorem prefix_of_follow (hup : name ≠ "..") (h : t.follow dir name = .ok place) :
    dir <+: place := by
  rw [follow, node?_of_follow h] at h
  simp only [hup, ite_false] at h
  split at h
  · exact (Except.ok.inj h) ▸ List.prefix_refl dir
  · split at h
    · cases h
    · exact (Except.ok.inj h) ▸ List.prefix_append dir [name]

/-- Nor does any list of names without the way up. -/
theorem prefix_of_locateFrom (hup : ".." ∉ names) (h : t.locateFrom dir names = .ok place) :
    dir <+: place := by
  induction names generalizing dir with
  | nil => exact (Except.ok.inj h) ▸ List.prefix_refl dir
  | cons name rest ih =>
      obtain ⟨hname, hrest⟩ := List.ne_and_not_mem_of_not_mem_cons hup
      unfold locateFrom at h
      cases hf : t.follow dir name with
      | error fault =>
          rw [hf] at h
          cases h
      | ok next =>
          rw [hf] at h
          exact (prefix_of_follow hname.symm hf).trans (ih hrest h)

namespace Grounded

/-- Names that lead to a file in another tree lead there in a grounded one that has the file too. -/
theorem locateFrom (h : t.Grounded) (hup : ".." ∉ names)
    (hl : t'.locateFrom dir names = .ok place) (hn' : t'.node? place ≠ some .directory)
    (hn : t.node? place ≠ none) : t.locateFrom dir names = .ok place := by
  induction names generalizing dir with
  | nil => exact hl
  | cons name rest ih =>
      have hpre := prefix_of_locateFrom hup hl
      unfold FileTree.locateFrom at hl ⊢
      cases hf : t'.follow dir name with
      | error fault =>
          rw [hf] at hl
          cases hl
      | ok next =>
          have hd' := node?_of_follow hf
          have hne : dir ≠ place := by
            rintro rfl
            exact hn' hd'
          rw [hf] at hl
          rw [← follow_congr (h.directory_above hpre hne hn) hd' name, hf]
          exact ih (List.not_mem_of_not_mem_cons hup) hl

/-- A file that is read through such a path in one tree is read so in a grounded one that has it. -/
theorem readFile (h : t.Grounded) (hup : ".." ∉ p.names) (hr : t'.readFile p = .ok content)
    (hn : ∀ place, t'.locate p = .ok place → t'.node? place = some (.file content) →
      t.node? place = some (.file content)) : t.readFile p = .ok content := by
  obtain ⟨place, hl, hnode'⟩ := readFile_eq_ok_iff.mp hr
  have hnode := hn place hl hnode'
  refine readFile_eq_ok_iff.mpr ⟨place, ?_, hnode⟩
  unfold FileTree.locate at hl ⊢
  split at hl
  · cases hl
  · split at hl
    · cases hl
    · next hvoid =>
        rw [if_neg hvoid]
        exact h.locateFrom hup hl (not_directory_of_file hnode') (by simp [hnode])

section Operations

/-- Something stands in a directory, or is the top. -/
theorem directory_dropLast (h : t.Grounded) (hn : t.node? place ≠ none) :
    t.node? place.dropLast = some .directory := by
  rcases List.eq_nil_or_concat place with rfl | ⟨front, last, rfl⟩
  · rfl
  · rw [List.concat_eq_append] at hn ⊢
    rw [List.dropLast_concat]
    exact h front last hn

/-- Names lead from directory to directory until the last one is followed. -/
theorem directory_of_locateFrom (h : t.Grounded) (hd : t.node? dir.dropLast = some .directory)
    (hl : t.locateFrom dir names = .ok place) : t.node? place.dropLast = some .directory := by
  induction names generalizing dir with
  | nil => exact (Except.ok.inj hl) ▸ hd
  | cons name rest ih =>
      unfold FileTree.locateFrom at hl
      cases hf : t.follow dir name with
      | error fault =>
          rw [hf] at hl
          cases hl
      | ok next =>
          rw [hf] at hl
          refine ih ?_ hl
          have hdir := node?_of_follow hf
          rw [follow, hdir] at hf
          simp only at hf
          split at hf
          · exact (Except.ok.inj hf) ▸ hd
          · split at hf
            · exact (Except.ok.inj hf) ▸ h.directory_dropLast (by simp [hd])
            · split at hf
              · cases hf
              · rw [← Except.ok.inj hf, List.dropLast_concat]
                exact hdir

/-- A path leads to something that would stand in a directory. -/
theorem directory_of_locate (h : t.Grounded) (hd : t.node? p.start = some .directory)
    (hl : t.locate p = .ok place) : t.node? place.dropLast = some .directory :=
  h.directory_of_locateFrom (h.directory_dropLast (by simp [hd])) (locateFrom_of_locate hl)

/-- What is put into a directory, and not over one, has something to stand in and nothing in it. -/
theorem put (h : t.Grounded) (hp : t.node? place.dropLast = some .directory)
    (hd : t.node? place ≠ some .directory) (node : Node) : (t.put place node).Grounded := by
  have hne := ne_nil_of_not_directory hd
  intro front last hn
  rw [node?_put hne] at hn ⊢
  split at hn
  · next hplace =>
      rw [hplace, List.dropLast_concat] at hp
      have hlonger : place ≠ front := by
        rintro rfl
        simp at hplace
      rw [if_neg hlonger]
      exact hp
  · have hfront := h front last hn
    have hother : place ≠ front := by
      rintro rfl
      exact hd hfront
    rw [if_neg hother]
    exact hfront

/-- What is no directory has nothing standing in it, and can go. -/
theorem erase (h : t.Grounded) (hd : t.node? place ≠ some .directory) :
    (t.erase place).Grounded := by
  have hne := ne_nil_of_not_directory hd
  intro front last hn
  rw [node?_erase hne] at hn ⊢
  split at hn
  · exact absurd rfl hn
  · have hfront := h front last hn
    have hother : place ≠ front := by
      rintro rfl
      exact hd hfront
    rw [if_neg hother]
    exact hfront

/-- A file is created in a directory. -/
theorem createFile (h : t.Grounded) (hd : t.node? p.start = some .directory)
    (hc : t.createFile p = .ok t') : t'.Grounded := by
  obtain ⟨place, hl, hn, rfl⟩ := createFile_eq_ok_iff.mp hc
  exact h.put (h.directory_of_locate hd hl) hn _

/-- A file that is filled stays where it is. -/
theorem fillFile (h : t.Grounded) (hc : t.fillFile p content = .ok t') : t'.Grounded := by
  obtain ⟨place, old, hl, hn, rfl⟩ := fillFile_eq_ok_iff.mp hc
  exact h.put (h.directory_dropLast (by simp [hn])) (not_directory_of_file hn) _

/-- A file that is removed had nothing standing in it. -/
theorem removeFile (h : t.Grounded) (hc : t.removeFile p = .ok t') : t'.Grounded := by
  obtain ⟨place, old, hl, hn, rfl⟩ := removeFile_eq_ok_iff.mp hc
  exact h.erase (not_directory_of_file hn)

/-- A file is renamed into a directory. -/
theorem renameFile (h : t.Grounded) (hd : t.node? q.start = some .directory)
    (hc : t.renameFile p q = .ok t') : t'.Grounded := by
  obtain ⟨place, goal, moved, hl, hg, hn, hn', rfl⟩ := renameFile_eq_ok_iff.mp hc
  have hfile := not_directory_of_file hn
  have hspares := Spares.erase hl hfile
  refine (h.erase hfile).put (hspares.directory (h.directory_of_locate hd hg)) ?_ _
  rw [node?_erase (ne_nil_of_not_directory hfile)]
  split
  · simp
  · exact hn'

/-- A directory that is made stands in one, and so does what is reached through it. -/
theorem provideDirectory (h : t.Grounded) (hd : t.node? dir.dropLast = some .directory)
    (names : List String) : (t.provideDirectory dir names).2.Grounded ∧
      ∀ place, (t.provideDirectory dir names).1 = .ok place →
        (t.provideDirectory dir names).2.node? place.dropLast = some .directory := by
  have hfurnishes := Furnishes.provideDirectory t dir names
  unfold FileTree.provideDirectory at hfurnishes ⊢
  split
  · exact ⟨h, fun place hp => nomatch hp⟩
  · next place hl =>
      have hparent := h.directory_of_locateFrom hd hl
      rw [hl] at hfurnishes
      split
      · next hn =>
          simp only [hn] at hfurnishes
          refine ⟨h.put hparent (by simp [hn]) _, fun other ho => ?_⟩
          obtain rfl := Except.ok.inj ho
          exact hfurnishes.spares.directory hparent
      · refine ⟨h, fun other ho => ?_⟩
        obtain rfl := Except.ok.inj ho
        exact hparent
      · exact ⟨h, fun place hp => nomatch hp⟩

/-- So do all that are made on the way. -/
theorem provideDirectories (h : t.Grounded) (hd : t.node? dir.dropLast = some .directory)
    (trail names : List String) : (t.provideDirectories dir trail names).2.Grounded ∧
      ∀ place, (t.provideDirectories dir trail names).1 = .ok place →
        (t.provideDirectories dir trail names).2.node? place.dropLast = some .directory := by
  induction names generalizing trail with
  | nil => exact h.provideDirectory hd trail
  | cons name before ih =>
      have hwhole := h.provideDirectory hd (before.reverse ++ name :: trail)
      have hbefore := ih []
      unfold FileTree.provideDirectories
      split
      · split
        · next parent ready hready =>
            rw [hready] at hbefore
            exact hbefore.1.provideDirectory (hbefore.2 parent rfl) (name :: trail)
        · exact hbefore
      · exact hwhole

/-- Making directories for a path keeps the tree grounded. -/
theorem createDirectories (h : t.Grounded) (hd : t.node? p.start = some .directory) :
    (t.createDirectories p).2.Grounded := by
  unfold FileTree.createDirectories
  split
  · exact h
  · exact (h.provideDirectories (h.directory_dropLast (by simp [hd])) p.trail _).1

end Operations

end Grounded

end FileTree

end MacroAtlas
