import MacroAtlas.Proofs.FileTree.Places

/-!
# Making directories

The way from a place to another is open if it leads through directories and then through places
where at most directories are. Then the directory at its end can be made with all that are missing,
and no file comes or goes.
-/

namespace MacroAtlas

/-- A plain name that every file system takes. -/
structure Path.Ordinary (name : String) : Prop extends Path.Plain name where
  /-- It is not too long. -/
  short : name.utf8ByteSize ≤ FileTree.nameLimit
  /-- It has no zero byte. -/
  clean : '\x00' ∉ name.toList

instance (name : String) : Decidable (Path.Ordinary name) :=
  decidable_of_iff ((name ≠ "" ∧ name ≠ "." ∧ name ≠ ".." ∧ separator ∉ name.toList) ∧
      name.utf8ByteSize ≤ FileTree.nameLimit ∧ '\x00' ∉ name.toList)
    ⟨fun ⟨⟨hne, hdot, hdots, hslash⟩, hshort, hclean⟩ =>
      ⟨⟨hne, hdot, hdots, hslash⟩, hshort, hclean⟩,
    fun h => ⟨⟨h.ne_empty, h.ne_dot, h.ne_dots, h.not_mem⟩, h.short, h.clean⟩⟩

/-- A plain name leads somewhere else. -/
theorem Path.Plain.isIdle_eq_false {name : String} (h : Path.Plain name) :
    Path.isIdle name = false := by
  simp [Path.isIdle, h.ne_empty, h.ne_dot]

namespace FileTree

variable {t t' : FileTree} {start names place dir : List String} {name : String}

/-- An ordinary name leads into the directory. -/
theorem follow_of_ordinary (hn : Path.Ordinary name) (hd : t.node? dir = some .directory) :
    t.follow dir name = .ok (dir ++ [name]) := by
  unfold follow
  simp only [hd, hn.isIdle_eq_false, Bool.false_eq_true, ite_false, hn.ne_dots,
    Nat.not_lt.mpr hn.short]

/-- No name is followed from where nothing is. -/
theorem follow_of_missing (hd : t.node? dir = none) : t.follow dir name = .error .notFound := by
  unfold follow
  simp only [hd]

/-- An idle name stays where it is. -/
theorem follow_of_idle (hn : Path.isIdle name = true) (hd : t.node? dir = some .directory) :
    t.follow dir name = .ok dir := by
  unfold follow
  simp only [hd, hn, ite_true]

/-- The last of some names is followed from the place to which the others lead. -/
theorem locateFrom_concat (t : FileTree) (dir names : List String) (name : String) :
    t.locateFrom dir (names ++ [name]) =
      match t.locateFrom dir names with
      | .error fault => .error fault
      | .ok last => t.follow last name := by
  induction names generalizing dir with
  | nil =>
      simp only [List.nil_append, locateFrom]
      cases t.follow dir name <;> rfl
  | cons first rest ih =>
      simp only [List.cons_append, locateFrom]
      cases t.follow dir first with
      | error fault => rfl
      | ok next => exact ih next

/-- A way to a directory starts in one. -/
theorem directory_of_locateFrom (h : t.locateFrom start names = .ok place)
    (hd : t.node? place = some .directory) : t.node? start = some .directory := by
  cases names with
  | nil =>
      obtain rfl := Except.ok.inj h
      exact hd
  | cons name rest =>
      unfold locateFrom at h
      cases hf : t.follow start name with
      | error fault =>
          rw [hf] at h
          cases h
      | ok next => exact node?_of_follow hf

/-- On the way to a directory the names that stay where they are do not matter. -/
theorem locateFrom_filter_iff (hd : t.node? place = some .directory) :
    t.locateFrom start (names.filter fun name => !Path.isIdle name) = .ok place ↔
      t.locateFrom start names = .ok place := by
  induction names generalizing start with
  | nil => rfl
  | cons name rest ih =>
      cases hidle : Path.isIdle name with
      | false =>
          simp only [List.filter_cons, hidle, Bool.not_false, ite_true, locateFrom]
          cases t.follow start name with
          | error fault => rfl
          | ok next => exact ih
      | true =>
          simp only [List.filter_cons, hidle, Bool.not_true, Bool.false_eq_true, ite_false,
            locateFrom]
          constructor
          · intro h
            rw [follow_of_idle hidle (directory_of_locateFrom h hd)]
            exact ih.mp h
          · intro h
            cases hf : t.follow start name with
            | error fault =>
                rw [hf] at h
                cases h
            | ok next =>
                obtain rfl := Except.ok.inj (hf.symm.trans (follow_of_idle hidle (node?_of_follow hf)))
                rw [hf] at h
                exact ih.mpr h

/-- The way from a place along some names is open: they lead through directories and then on through
places that are free for directories. -/
inductive Opens (t : FileTree) (start : List String) : List String → List String → Prop
  /-- The names lead to a directory. -/
  | there {names place : List String} (locate : t.locateFrom start names = .ok place)
      (directory : t.node? place = some .directory) : Opens t start names place
  /-- One more name leads to a place without a file. -/
  | beneath {names place : List String} {name : String} (opens : Opens t start names place)
      (ordinary : Path.Ordinary name)
      (not_file : ∀ content, t.node? (place ++ [name]) ≠ some (.file content)) :
      Opens t start (names ++ [name]) (place ++ [name])

/-- Nothing changes but that there may be more directories on the way to a place. -/
def Extends (place : List String) (t t' : FileTree) : Prop :=
  ∀ elsewhere, t'.node? elsewhere = t.node? elsewhere ∨
    elsewhere <+: place ∧ t.node? elsewhere = none ∧ t'.node? elsewhere = some .directory

namespace Extends

theorem refl (place : List String) (t : FileTree) : Extends place t t := fun _ => Or.inl rfl

/-- One directory is made, at the end of the way. -/
theorem put (hn : t.node? place = none) : Extends place t (t.put place .directory) := by
  have hne : place ≠ [] := ne_nil_of_not_directory (t := t) (by simp [hn])
  intro elsewhere
  rw [node?_put hne]
  split
  · next hsame =>
      subst hsame
      exact Or.inr ⟨List.prefix_refl _, hn, rfl⟩
  · exact Or.inl rfl

/-- What was made on the way to a place is on the way to what is made below it. -/
theorem trans_below {t'' : FileTree} (h : Extends place t t')
    (h' : Extends (place ++ [name]) t' t'') : Extends (place ++ [name]) t t'' := by
  intro elsewhere
  obtain heq | ⟨hpre, hnone, hmade⟩ := h elsewhere
  · rw [← heq]
    exact h' elsewhere
  · have hpre' : elsewhere <+: place ++ [name] := hpre.trans (List.prefix_append _ _)
    obtain heq' | ⟨-, hnone', -⟩ := h' elsewhere
    · exact Or.inr ⟨hpre', hnone, heq'.trans hmade⟩
    · rw [hmade] at hnone'
      cases hnone'

/-- No file comes or goes. -/
theorem furnishes (h : Extends place t t') : Furnishes t t' := by
  intro elsewhere
  obtain heq | ⟨-, hnone, hmade⟩ := h elsewhere
  · exact Or.inl heq
  · exact Or.inr ⟨hnone, hmade⟩

theorem spares (h : Extends place t t') : Spares [] t t' := h.furnishes.spares

/-- No file comes. -/
theorem file_iff (h : Extends place t t') (elsewhere : List String) (content : Bytes) :
    t'.node? elsewhere = some (.file content) ↔ t.node? elsewhere = some (.file content) :=
  h.furnishes.file_iff elsewhere content

/-- What is not on the way stays as it is. -/
theorem node?_eq (h : Extends place t t') {elsewhere : List String} (hp : ¬ elsewhere <+: place) :
    t'.node? elsewhere = t.node? elsewhere := by
  obtain heq | ⟨hpre, -, -⟩ := h elsewhere
  · exact heq
  · exact absurd hpre hp

end Extends

namespace Opens

/-- No file is at the end of an open way. -/
theorem not_file (h : t.Opens start names place) (content : Bytes) :
    t.node? place ≠ some (.file content) := by
  cases h with
  | there locate directory => simp [directory]
  | beneath opens ordinary not_file => exact not_file content

/-- An open way leads to its end, or nowhere as long as a directory is missing. -/
theorem locateFrom_eq (h : t.Opens start names place) :
    t.locateFrom start names = .ok place ∨ t.locateFrom start names = .error .notFound := by
  induction h with
  | there locate directory => exact Or.inl locate
  | @beneath names place name opens ordinary not_file ih =>
      rw [locateFrom_concat]
      rcases ih with hplace | hmissing
      · rw [hplace]
        simp only
        cases hn : t.node? place with
        | none => exact Or.inr (follow_of_missing hn)
        | some node =>
            cases node with
            | directory => exact Or.inl (follow_of_ordinary ordinary hn)
            | file content => exact absurd hn (opens.not_file content)
      · rw [hmissing]
        exact Or.inr rfl

/-- The way stays open as long as no directory goes and no file comes onto it. -/
theorem of_spares {paths : List Path} (h : t.Opens start names place) (hs : Spares paths t t')
    (hf : ∀ elsewhere content, elsewhere <+: place → t'.node? elsewhere = some (.file content) →
      t.node? elsewhere = some (.file content)) : t'.Opens start names place := by
  induction h with
  | there locate directory => exact .there (hs.locateFrom locate) (hs.directory directory)
  | @beneath names place name opens ordinary not_file ih =>
      refine .beneath (ih fun elsewhere content hpre => ?_) ordinary fun content hn => ?_
      · exact hf elsewhere content (hpre.trans (List.prefix_append _ _))
      · exact not_file content (hf _ content (List.prefix_refl _) hn)

/-- The names that stay where they are can be left out. -/
theorem telling (h : t.Opens start names place) :
    t.Opens start (names.filter fun name => !Path.isIdle name) place := by
  induction h with
  | there locate directory => exact .there ((locateFrom_filter_iff directory).mpr locate) directory
  | @beneath names place name opens ordinary not_file ih =>
      have hname : [name].filter (fun name => !Path.isIdle name) = [name] := by
        simp [ordinary.isIdle_eq_false]
      rw [List.filter_append, hname]
      exact .beneath ih ordinary not_file

/-- Where the way ends a directory is made, if there is none yet. -/
theorem provideDirectory (h : t.Opens start names place)
    (hl : t.locateFrom start names = .ok place) :
    ∃ t', t.provideDirectory start names = (.ok place, t') ∧ Extends place t t' ∧
      t'.node? place = some .directory := by
  unfold FileTree.provideDirectory
  simp only [hl]
  cases hn : t.node? place with
  | none =>
      have hne : place ≠ [] := ne_nil_of_not_directory (t := t) (by simp [hn])
      exact ⟨_, rfl, .put hn, (node?_put hne t _ _).trans (if_pos rfl)⟩
  | some node =>
      cases node with
      | directory => exact ⟨t, rfl, .refl place t, hn⟩
      | file content => exact absurd hn (h.not_file content)

/-- The directory at the end of an open way can be made, with all on the way to it. -/
theorem provideDirectories (h : t.Opens start names place) :
    ∃ t', t.provideDirectories start [] names.reverse = (.ok place, t') ∧ Extends place t t' ∧
      t'.locateFrom start names = .ok place ∧ t'.node? place = some .directory := by
  induction h with
  | @there names place locate directory =>
      have hprovide : t.provideDirectory start names = (.ok place, t) := by
        simp only [FileTree.provideDirectory, locate, directory]
      refine ⟨t, ?_, .refl place t, locate, directory⟩
      cases hr : names.reverse with
      | nil =>
          obtain rfl := List.reverse_eq_nil_iff.mp hr
          exact hprovide
      | cons last before =>
          have hnames : before.reverse ++ [last] = names := by
            rw [← List.reverse_cons, ← hr, List.reverse_reverse]
          simp only [FileTree.provideDirectories, hnames, hprovide]
  | @beneath names place name opens ordinary not_file ih =>
      have hopens : t.Opens start (names ++ [name]) (place ++ [name]) :=
        .beneath opens ordinary not_file
      rw [List.reverse_append, List.reverse_singleton, List.singleton_append]
      simp only [FileTree.provideDirectories, List.reverse_reverse]
      rcases hopens.locateFrom_eq with hplace | hmissing
      · obtain ⟨t', hmade, hextends, hdirectory⟩ := hopens.provideDirectory hplace
        exact ⟨t', by simp only [hmade], hextends, hextends.spares.locateFrom hplace, hdirectory⟩
      · -- The first attempt fails, so the parent is made before the second.
        obtain ⟨ready, hready, hextends, hlocate, hdirectory⟩ := ih
        have hfirst : t.provideDirectory start (names ++ [name]) = (.error .notFound, t) := by
          simp only [FileTree.provideDirectory, hmissing]
        have hfollow : ready.locateFrom place [name] = .ok (place ++ [name]) := by
          simp only [locateFrom, follow_of_ordinary ordinary hdirectory]
        have hhere : ready.Opens place [] place := .there rfl hdirectory
        have hbelow : ready.Opens place [name] (place ++ [name]) :=
          hhere.beneath ordinary fun content hn =>
            not_file content ((hextends.file_iff _ content).mp hn)
        obtain ⟨t', hmade, hextends', hdirectory'⟩ := hbelow.provideDirectory hfollow
        refine ⟨t', by simp only [hfirst, hready, hmade], hextends.trans_below hextends', ?_,
          hdirectory'⟩
        rw [locateFrom_concat, hextends'.spares.locateFrom hlocate]
        exact follow_of_ordinary ordinary (hextends'.spares.directory hdirectory)

/-- So can the directory to which an open path leads. -/
theorem createDirectories {p : Path} (h : t.Opens p.start p.names place) (hn : Path.Ordinary name)
    (hf : (p.join name).fault? = none)
    (hd : ∀ content, t.node? (place ++ [name]) ≠ some (.file content)) :
    ∃ t', t.createDirectories (p.join name) = (.ok (), t') ∧ Extends (place ++ [name]) t t' ∧
      t'.locateFrom p.start (p.names ++ [name]) = .ok (place ++ [name]) ∧
      t'.node? (place ++ [name]) = some .directory := by
  have hnames := Path.names_join hn.toPlain p
  have htrail : (p.join name).trail = [] := by
    have hempty : name.isEmpty = false := by simpa using hn.ne_empty
    rw [Path.trail, hnames, List.reverse_append, List.reverse_singleton, List.singleton_append,
      List.dropWhile_cons_of_neg (by simp [hempty]),
      List.takeWhile_cons_of_neg (by simp [hn.isIdle_eq_false]), List.reverse_nil]
  have hstart : (p.join name).start = p.start := by rw [Path.join_eq hn.toPlain]
  have hopens : t.Opens p.start (p.names ++ [name]) (place ++ [name]) := .beneath h hn hd
  obtain ⟨t', hmade, hextends, hlocate, hdirectory⟩ := hopens.telling.provideDirectories
  refine ⟨t', ?_, hextends, (locateFrom_filter_iff hdirectory).mp hlocate, hdirectory⟩
  rw [FileTree.createDirectories, hf, hstart, htrail, Path.telling, hnames]
  simp only [hmade]
  rfl

end Opens

end FileTree

end MacroAtlas
