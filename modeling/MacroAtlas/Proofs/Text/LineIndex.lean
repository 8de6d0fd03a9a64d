import Mathlib.Data.List.Induction
import MacroAtlas.Proofs.Search
import MacroAtlas.Proofs.Text.Utf8Length
import MacroAtlas.Proofs.Word
import MacroAtlas.Text.LineIndex

/-!
# Positions by a direct scan

A look-up finds the last start of a line that is not behind the offset, and what it counts from
there on is the column. This is the position that a scan of all characters in front of the offset
comes to, and no number on the way is too great for its word.
-/

namespace MacroAtlas

open String (utf8Len)

namespace Position

/-- The position behind one more character. -/
def advance (p : Position) (c : Char) : Position :=
  if c = '\n' then ⟨p.line + 1, 1⟩ else ⟨p.line, p.column + 1⟩

/-- The position behind the characters at the front of a text. -/
def behind (front : List Char) : Position := front.foldl advance ⟨1, 1⟩

theorem behind_append (front more : List Char) :
    behind (front ++ more) = more.foldl advance (behind front) :=
  List.foldl_append

/-- Within a line only the column changes. -/
theorem foldl_advance_of_not_mem {line : List Char} (h : '\n' ∉ line) (p : Position) :
    line.foldl advance p = ⟨p.line, p.column + line.length⟩ := by
  induction line generalizing p with
  | nil => rfl
  | cons c rest ih =>
      rw [List.mem_cons, not_or] at h
      obtain ⟨hc, hrest⟩ := h
      rw [List.foldl_cons, ih hrest, advance, if_neg (Ne.symm hc), List.length_cons]
      simp only [Nat.add_assoc, Nat.add_comm 1]

end Position

/-- A line starts behind these characters at the front of a text. -/
def OpensLine (before : List Char) : Prop := before = [] ∨ ∃ earlier, before = earlier ++ ['\n']

/-- Behind any characters some line goes on. -/
theorem exists_opensLine (front : List Char) :
    ∃ before line, front = before ++ line ∧ OpensLine before ∧ '\n' ∉ line := by
  induction front using List.reverseRecOn with
  | nil => exact ⟨[], [], rfl, Or.inl rfl, List.not_mem_nil⟩
  | append_singleton front c ih =>
      by_cases hc : c = '\n'
      · exact ⟨front ++ [c], [], (List.append_nil _).symm, Or.inr ⟨front, by rw [hc]⟩,
          List.not_mem_nil⟩
      · obtain ⟨before, line, rfl, hopens, hline⟩ := ih
        refine ⟨before, line ++ [c], List.append_assoc _ _ _, hopens, fun hmem => ?_⟩
        rcases List.mem_append.mp hmem with hold | hnew
        · exact hline hold
        · exact hc (List.mem_singleton.mp hnew).symm

/-- Behind the characters of a line stand the number of the line and that of the characters. -/
theorem Position.behind_eq {before line : List Char} (hb : OpensLine before) (hl : '\n' ∉ line) :
    behind (before ++ line) = ⟨before.count '\n' + 1, line.length + 1⟩ := by
  have hline : ∀ front : List Char, (behind front).line = front.count '\n' + 1 := by
    intro front
    induction front using List.reverseRecOn with
    | nil => rfl
    | append_singleton front c ih =>
        rw [behind_append, List.count_append]
        by_cases hc : c = '\n'
        · simp [advance, hc, ih]
        · simp [advance, hc, ih]
  have hcolumn : (behind before).column = 1 := by
    rcases hb with rfl | ⟨earlier, rfl⟩
    · rfl
    · rw [behind_append]
      rfl
  rw [behind_append, foldl_advance_of_not_mem hl, hline, hcolumn, Nat.add_comm 1]

/-- What is in front of an end of a list is empty, or it begins as the list does. -/
theorem exists_cons_eq_append_iff {α : Type} {a : α} {l r : List α} {P : List α → Prop} :
    (∃ front, a :: l = front ++ r ∧ P front) ↔
      a :: l = r ∧ P [] ∨ ∃ front, l = front ++ r ∧ P (a :: front) := by
  constructor
  · rintro ⟨_ | ⟨b, front⟩, hsplit, hp⟩
    · exact Or.inl ⟨hsplit, hp⟩
    · obtain ⟨rfl, hrest⟩ := List.cons.inj hsplit
      exact Or.inr ⟨front, hrest, hp⟩
  · rintro (⟨hsplit, hp⟩ | ⟨front, rfl, hp⟩)
    · exact ⟨[], hsplit, hp⟩
    · exact ⟨a :: front, rfl, hp⟩

namespace LineIndex

section CharsIn

variable {bytes : Nat} {cs : List Char}

theorem charsIn?_eq_some_iff {n : Nat} :
    charsIn? bytes cs = some n ↔
      ∃ front back, cs = front ++ back ∧ utf8Len front = bytes ∧ front.length = n := by
  induction cs generalizing bytes n with
  | nil =>
      cases bytes with
      | zero => simp [charsIn?]
      | succ bytes => simp [charsIn?]
  | cons c rest ih =>
      have hpos := c.utf8Size_pos
      cases bytes with
      | zero =>
          simp only [charsIn?, Option.some.injEq, String.utf8Len_eq_zero]
          constructor
          · rintro rfl
            exact ⟨[], c :: rest, rfl, rfl, rfl⟩
          · rintro ⟨front, back, -, rfl, rfl⟩
            rfl
      | succ bytes =>
          simp only [charsIn?]
          constructor
          · intro h
            obtain ⟨hfits, hmap⟩ := Option.ite_none_right_eq_some.mp h
            obtain ⟨k, hk, rfl⟩ := Option.map_eq_some_iff.mp hmap
            obtain ⟨front, back, rfl, hlen, rfl⟩ := ih.mp hk
            exact ⟨c :: front, back, rfl, by rw [String.utf8Len_cons]; omega, rfl⟩
          · rintro ⟨front, back, hsplit, hlen, rfl⟩
            cases front with
            | nil => cases hlen
            | cons c' front =>
                obtain ⟨rfl, hrest⟩ := List.cons.inj hsplit
                rw [String.utf8Len_cons] at hlen
                rw [if_pos (by omega), ih.mpr ⟨front, back, hrest, by omega, rfl⟩]
                rfl

/-- No characters fill the bytes if there are fewer, or if the bytes end inside of a character. -/
theorem charsIn?_eq_none_iff :
    charsIn? bytes cs = none ↔ utf8Len cs < bytes ∨ ∃ front c back, cs = front ++ c :: back ∧
      utf8Len front < bytes ∧ bytes < utf8Len front + c.utf8Size := by
  induction cs generalizing bytes with
  | nil =>
      cases bytes with
      | zero => simp [charsIn?]
      | succ bytes => simp [charsIn?]
  | cons c rest ih =>
      have hpos := c.utf8Size_pos
      cases bytes with
      | zero => simp [charsIn?]
      | succ bytes =>
          simp only [charsIn?, String.utf8Len_cons]
          by_cases hfits : c.utf8Size ≤ bytes + 1
          · rw [if_pos hfits, Option.map_eq_none_iff, ih]
            constructor
            · rintro (hshort | ⟨front, c', back, rfl, hstart, hstop⟩)
              · exact Or.inl (by omega)
              · refine Or.inr ⟨c :: front, c', back, rfl, ?_, ?_⟩
                · rw [String.utf8Len_cons]
                  omega
                · rw [String.utf8Len_cons]
                  omega
            · rintro (hshort | ⟨front, c', back, hsplit, hstart, hstop⟩)
              · exact Or.inl (by omega)
              · cases front with
                | nil =>
                    obtain ⟨rfl, -⟩ := List.cons.inj hsplit
                    rw [String.utf8Len_nil] at hstop
                    omega
                | cons c'' front =>
                    obtain ⟨rfl, hrest⟩ := List.cons.inj hsplit
                    rw [String.utf8Len_cons] at hstart hstop
                    exact Or.inr ⟨front, c', back, hrest, by omega, by omega⟩
          · rw [if_neg hfits]
            refine ⟨fun _ => Or.inr ⟨[], c, rest, rfl, ?_, ?_⟩, fun _ => rfl⟩
            · exact Nat.succ_pos bytes
            · rw [String.utf8Len_nil]
              omega

end CharsIn

/-- A line starts behind each line feed. -/
theorem getElem?_startsFrom_eq_some_iff {offset i : Nat} {cs : List Char} {start : LineStart} :
    (startsFrom offset cs)[i]? = some start ↔ ∃ before, cs = before ++ '\n' :: start.rest ∧
      before.count '\n' = i ∧ start.offset = offset + utf8Len before + 1 := by
  have hfeed : '\n'.utf8Size = 1 := by decide
  induction cs generalizing offset i with
  | nil => simp [startsFrom]
  | cons c rest ih =>
      obtain ⟨place, behind⟩ := start
      simp only [startsFrom, exists_cons_eq_append_iff, String.utf8Len_cons, String.utf8Len_nil,
        List.count_nil]
      by_cases hc : c = '\n'
      · subst hc
        rw [if_pos rfl, hfeed]
        cases i with
        | zero =>
            -- The line that begins here has no line feed in front.
            simp [eq_comm, and_comm]
        | succ i =>
            simp only [List.getElem?_cons_succ, ih, List.count_cons_self]
            simp [Nat.add_assoc, Nat.add_comm 1]
      · simp only [if_neg hc, ih, List.count_cons_of_ne hc]
        simp [hc, Nat.add_assoc, Nat.add_comm c.utf8Size]

/-- The table has the start of each line under the number of line feeds in front of it. -/
theorem getElem?_starts_eq_some_iff {text : String} {i : Nat} {start : LineStart} :
    (ofText text).starts[i]? = some start ↔ ∃ before, text.toList = before ++ start.rest ∧
      OpensLine before ∧ before.count '\n' = i ∧ start.offset = utf8Len before := by
  have hfeed : '\n'.utf8Size = 1 := by decide
  rw [ofText, List.getElem?_toArray]
  cases i with
  | zero =>
      rw [List.getElem?_cons_zero, Option.some.injEq]
      constructor
      · rintro rfl
        exact ⟨[], rfl, Or.inl rfl, rfl, rfl⟩
      · rintro ⟨before, hsplit, rfl | ⟨earlier, rfl⟩, hcount, hoffset⟩
        · cases start
          simp_all
        · simp at hcount
  | succ i =>
      rw [List.getElem?_cons_succ]
      refine getElem?_startsFrom_eq_some_iff.trans ?_
      constructor
      · rintro ⟨before, hsplit, rfl, hoffset⟩
        refine ⟨before ++ ['\n'], by rw [hsplit, List.append_assoc]; rfl, Or.inr ⟨before, rfl⟩,
          by simp, ?_⟩
        rw [hoffset, String.utf8Len_append, String.utf8Len_cons, hfeed, String.utf8Len_nil]
        omega
      · rintro ⟨before, hsplit, rfl | ⟨earlier, rfl⟩, hcount, hoffset⟩
        · cases hcount
        · refine ⟨earlier, by rw [hsplit, List.append_assoc]; rfl, by simpa using hcount, ?_⟩
          rw [hoffset, String.utf8Len_append, String.utf8Len_cons, hfeed, String.utf8Len_nil]
          omega

theorem length_startsFrom (offset : Nat) (cs : List Char) :
    (startsFrom offset cs).length = cs.count '\n' := by
  induction cs generalizing offset with
  | nil => rfl
  | cons c rest ih =>
      simp only [startsFrom]
      by_cases hc : c = '\n'
      · rw [if_pos hc, List.length_cons, ih, hc, List.count_cons_self]
      · rw [if_neg hc, ih, List.count_cons_of_ne hc]

/-- There is one more line than there are line feeds. -/
theorem lineCount_ofText (text : String) :
    (ofText text).lineCount = text.toList.count '\n' + 1 := by
  rw [lineCount, ofText, List.size_toArray, List.length_cons, length_startsFrom]

/-- The starts stand in the table by growing offset. -/
theorem pairwise_starts (text : String) :
    (ofText text).starts.toList.Pairwise fun a b => a.offset < b.offset := by
  rw [List.pairwise_iff_getElem]
  intro i j hi hj hij
  have hstart (k : Nat) (hk : k < (ofText text).starts.toList.length) :
      (ofText text).starts[k]? = some (ofText text).starts.toList[k] := by
    rw [← Array.getElem?_toList]
    exact List.getElem?_eq_getElem hk
  obtain ⟨before, hsplit, -, hcount, hoffset⟩ := getElem?_starts_eq_some_iff.mp (hstart i hi)
  obtain ⟨before', hsplit', -, hcount', hoffset'⟩ := getElem?_starts_eq_some_iff.mp (hstart j hj)
  rw [hoffset, hoffset']
  exact utf8Len_lt_of_count_lt (hsplit.symm.trans hsplit') (by omega)

/-- A line feed within some characters opens a later line, which starts no later than they end. -/
theorem exists_start_of_mem {text : String} {before line back : List Char}
    (hsplit : text.toList = before ++ (line ++ back)) (hmem : '\n' ∈ line) :
    ∃ i start, (ofText text).starts[i]? = some start ∧ before.count '\n' < i ∧
      start.offset ≤ utf8Len before + utf8Len line := by
  have hfeed : '\n'.utf8Size = 1 := by decide
  obtain ⟨front, later, rfl⟩ := List.append_of_mem hmem
  let opening := before ++ front ++ ['\n']
  have hopening : text.toList = opening ++ (later ++ back) := by
    simp only [hsplit, opening, List.append_assoc, List.cons_append, List.nil_append]
  refine ⟨opening.count '\n', ⟨utf8Len opening, later ++ back⟩,
    getElem?_starts_eq_some_iff.mpr ⟨opening, hopening, Or.inr ⟨_, rfl⟩, rfl, rfl⟩, ?_, ?_⟩
  · simp only [opening, List.count_append, List.count_singleton_self]
    omega
  · simp only [opening, String.utf8Len_append, String.utf8Len_cons, String.utf8Len_nil, hfeed]
    omega

/-- What a look-up finds: the characters in front of the line of an offset, and those from its start
on. -/
structure Finds (text : String) (offset : Nat) (before rest : List Char) : Prop where
  /-- The two make up the text. -/
  split : text.toList = before ++ rest
  /-- The line starts between them. -/
  opens : OpensLine before
  /-- The start of the line is not behind the offset. -/
  start_le : utf8Len before ≤ offset
  /-- As many starts are not behind the offset as the number of the line tells. -/
  passed : partitionPoint (ofText text).starts (fun start => start.offset ≤ offset) =
    before.count '\n' + 1
  /-- The start is in the table. -/
  start : (ofText text).starts[before.count '\n']? = some ⟨utf8Len before, rest⟩
  /-- No line feed stands between the start and the offset. -/
  unbroken : ∀ line back, rest = line ++ back → utf8Len before + utf8Len line ≤ offset →
    '\n' ∉ line

/-- A line is passed exactly if it starts no later than the offset. -/
theorem lt_passed_iff {text : String} {i : Nat} {start : LineStart}
    (h : (ofText text).starts[i]? = some start) (offset : Nat) :
    i < partitionPoint (ofText text).starts (fun start => start.offset ≤ offset) ↔
      start.offset ≤ offset := by
  refine (lt_partitionPoint_iff ((pairwise_starts text).imp fun {a b} hlt hb => ?_) h).trans
    decide_eq_true_iff
  exact decide_eq_true (Nat.le_trans (Nat.le_of_lt hlt) (of_decide_eq_true hb))

/-- Every offset has its line. -/
theorem exists_finds (text : String) (offset : Nat) :
    ∃ before rest, Finds text offset before rest := by
  have hpassed {i : Nat} {start : LineStart} (h : (ofText text).starts[i]? = some start) :=
    lt_passed_iff h offset
  have hsize := partitionPoint_le_size (ofText text).starts fun start => start.offset ≤ offset
  generalize hk : partitionPoint (ofText text).starts (fun start => decide (start.offset ≤ offset))
    = k at hpassed hsize
  -- The first line is always passed, so there is a last one that is.
  have hfirst : (ofText text).starts[0]? = some ⟨0, text.toList⟩ := rfl
  have hpositive : 0 < k := (hpassed hfirst).mpr (Nat.zero_le offset)
  obtain ⟨start, hlast⟩ : ∃ start, (ofText text).starts[k - 1]? = some start :=
    ⟨_, Array.getElem?_eq_getElem (by omega)⟩
  obtain ⟨before, hsplit, hopens, hcount, hoffset⟩ := getElem?_starts_eq_some_iff.mp hlast
  have hle : utf8Len before ≤ offset := by
    rw [← hoffset]
    exact (hpassed hlast).mp (by omega)
  refine ⟨before, start.rest, hsplit, hopens, hle, by omega, ?_, ?_⟩
  · rw [hcount, hlast, ← hoffset]
  · -- A line feed in between would open a later line that is passed as well.
    intro line back hrest hinside hmem
    obtain ⟨i, next, hnext, hlater, hclose⟩ :=
      exists_start_of_mem (hsplit.trans (congrArg (before ++ ·) hrest)) hmem
    have hi := (hpassed hnext).mpr (Nat.le_trans hclose hinside)
    omega

/-- A look-up by words that refuse what they cannot hold, and by a table that refuses a line that it
does not have. -/
def lookUp? (index : LineIndex) (offset : UInt32) : Option (Option Position) := do
  let passed ← Word.ofNat? (partitionPoint index.starts fun start => start.offset ≤ offset.toNat)
  let line ← Word.sub? passed 1
  let start ← index.starts[line.toNat]?
  let width ← Word.sub? offset (← Word.ofNat? start.offset)
  match charsIn? width.toNat start.rest with
  | none => some none
  | some chars =>
    let line ← Word.add? line 1
    let column ← Word.add? (← Word.ofNat? chars) 1
    some (some ⟨line.toNat, column.toNat⟩)

section Positions

variable {text : String} {offset : UInt32} {p : Position}

/-- In the line that was found, the characters up to the offset are counted. -/
theorem Finds.position?_eq {before rest : List Char} (h : Finds text offset.toNat before rest) :
    (ofText text).position? offset = (charsIn? (offset.toNat - utf8Len before) rest).map
      fun chars => ⟨before.count '\n' + 1, chars + 1⟩ := by
  simp only [position?, h.passed, Nat.add_sub_cancel, h.start, Option.bind_eq_bind,
    Option.bind_some]
  cases charsIn? (offset.toNat - utf8Len before) rest <;> rfl

/-- The position of an offset is the one behind the characters that fill the bytes in front. -/
theorem position?_eq_some_iff :
    (ofText text).position? offset = some p ↔ ∃ front back, text.toList = front ++ back ∧
      utf8Len front = offset.toNat ∧ p = .behind front := by
  obtain ⟨before, rest, h⟩ := exists_finds text offset.toNat
  have hle := h.start_le
  rw [h.position?_eq, Option.map_eq_some_iff]
  constructor
  · rintro ⟨chars, hchars, rfl⟩
    obtain ⟨line, back, hrest, hlen, rfl⟩ := charsIn?_eq_some_iff.mp hchars
    refine ⟨before ++ line, back, ?_, ?_, ?_⟩
    · rw [h.split, hrest, List.append_assoc]
    · rw [String.utf8Len_append]
      omega
    · exact (Position.behind_eq h.opens (h.unbroken line back hrest (by omega))).symm
  · rintro ⟨front, back, hsplit, hlen, rfl⟩
    obtain ⟨line, rfl⟩ := isPrefix_of_utf8Len_le (h.split.symm.trans hsplit) (by omega)
    rw [String.utf8Len_append] at hlen
    have hrest : rest = line ++ back := by
      rw [h.split, List.append_assoc] at hsplit
      exact List.append_cancel_left hsplit
    refine ⟨line.length, charsIn?_eq_some_iff.mpr ⟨line, back, hrest, by omega, rfl⟩, ?_⟩
    exact (Position.behind_eq h.opens (h.unbroken line back hrest (by omega))).symm

/-- An offset has no position if it is behind the text or inside of a character. -/
theorem position?_eq_none_iff :
    (ofText text).position? offset = none ↔ utf8Len text.toList < offset.toNat ∨
      ∃ front c back, text.toList = front ++ c :: back ∧ utf8Len front < offset.toNat ∧
        offset.toNat < utf8Len front + c.utf8Size := by
  rw [← charsIn?_eq_none_iff, Option.eq_none_iff_forall_ne_some, Option.eq_none_iff_forall_ne_some]
  constructor
  · intro h n hn
    obtain ⟨front, back, hsplit, hlen, -⟩ := charsIn?_eq_some_iff.mp hn
    exact h _ (position?_eq_some_iff.mpr ⟨front, back, hsplit, hlen, rfl⟩)
  · intro h p hp
    obtain ⟨front, back, hsplit, hlen, -⟩ := position?_eq_some_iff.mp hp
    exact h _ (charsIn?_eq_some_iff.mpr ⟨front, back, hsplit, hlen, rfl⟩)

/-- In a text that is no longer than words can tell, nothing is refused. -/
theorem lookUp?_eq (hsize : utf8Len text.toList < UInt32.size - 1) (offset : UInt32) :
    (ofText text).lookUp? offset = some ((ofText text).position? offset) := by
  obtain ⟨before, rest, h⟩ := exists_finds text offset.toNat
  have hle := h.start_le
  have hbefore := length_le_utf8Len before
  have hrest := length_le_utf8Len rest
  have hcount := List.count_le_length (a := '\n') (l := before)
  rw [h.split, String.utf8Len_append] at hsize
  have hone : (1 : UInt32).toNat = 1 := rfl
  obtain ⟨passed, hpassed, hpassedNat⟩ :=
    Word.ofNat?_eq_some (n := before.count '\n' + 1) (by omega)
  obtain ⟨line, hline, hlineNat⟩ := Word.sub?_eq_some (a := passed) (b := 1) (by omega)
  obtain ⟨start, hstart, hstartNat⟩ := Word.ofNat?_eq_some (n := utf8Len before) (by omega)
  obtain ⟨width, hwidth, hwidthNat⟩ := Word.sub?_eq_some (a := offset) (b := start) (by omega)
  have hfound : (ofText text).starts[line.toNat]? = some ⟨utf8Len before, rest⟩ := by
    rw [hlineNat, hpassedNat, hone, Nat.add_sub_cancel, h.start]
  rw [h.position?_eq, lookUp?]
  simp only [h.passed, hpassed, hline, hfound, hstart, hwidth, hwidthNat, hstartNat,
    Option.bind_eq_bind, Option.bind_some]
  cases hchars : charsIn? (offset.toNat - utf8Len before) rest with
  | none => rfl
  | some chars =>
      obtain ⟨front, back, rfl, -, rfl⟩ := charsIn?_eq_some_iff.mp hchars
      rw [List.length_append] at hrest
      obtain ⟨number, hnumber, hnumberNat⟩ := Word.add?_eq_some (a := line) (b := 1) (by omega)
      obtain ⟨count, hcountWord, hcountNat⟩ :=
        Word.ofNat?_eq_some (n := front.length) (by omega)
      obtain ⟨column, hcolumn, hcolumnNat⟩ :=
        Word.add?_eq_some (a := count) (b := 1) (by omega)
      simp only [hnumber, hcountWord, hcolumn, Option.bind_some, hnumberNat, hcolumnNat, hcountNat,
        hlineNat, hpassedNat, hone, Nat.add_sub_cancel, Option.map_some]

end Positions

/-- A look-up finds the line and the column by direct counting, and is refused nowhere; only offsets
outside of the characters have none. -/
theorem position_is_direct_scan (text : String)
    (hsize : (Bytes.ofText text).length < UInt32.size - 1) (offset : UInt32) :
    let index := ofText text
    let bytes := Bytes.ofText text
    (index.position? offset = none ↔ bytes.length < offset.toNat ∨
      ∃ front c back, text.toList = front ++ c :: back ∧ utf8Len front < offset.toNat ∧
        offset.toNat < utf8Len front + c.utf8Size) ∧
    (∀ p, index.position? offset = some p ↔ ∃ before line back,
      text.toList = before ++ line ++ back ∧ utf8Len (before ++ line) = offset.toNat ∧
        (before = [] ∨ ∃ earlier, before = earlier ++ ['\n']) ∧ '\n' ∉ line ∧
        p = ⟨(bytes.take offset.toNat).count '\n'.toUInt8 + 1, line.length + 1⟩) ∧
    index.lineCount = bytes.count '\n'.toUInt8 + 1 ∧
    (∀ start ∈ index.starts, start.offset < UInt32.size) ∧
    index.lookUp? offset = some (index.position? offset) := by
  intro index bytes
  have hlength : bytes.length = utf8Len text.toList := Bytes.length_ofText text
  have hfeeds : ∀ before line back, text.toList = before ++ line ++ back →
      utf8Len (before ++ line) = offset.toNat → '\n' ∉ line →
        (bytes.take offset.toNat).count '\n'.toUInt8 = before.count '\n' := by
    intro before line back hsplit hlen hline
    rw [← hlen, Bytes.take_ofText hsplit, Bytes.count_ofText, String.toList_ofList,
      List.count_append, List.count_eq_zero.mpr hline, Nat.add_zero]
  rw [hlength] at hsize
  refine ⟨?_, fun p => ?_, ?_, fun start hmem => ?_, lookUp?_eq hsize offset⟩
  · rw [hlength]
    exact position?_eq_none_iff
  · rw [position?_eq_some_iff]
    constructor
    · rintro ⟨front, back, hsplit, hlen, rfl⟩
      obtain ⟨before, line, rfl, hopens, hline⟩ := exists_opensLine front
      refine ⟨before, line, back, hsplit, hlen, hopens, hline, ?_⟩
      rw [hfeeds before line back hsplit hlen hline, Position.behind_eq hopens hline]
    · rintro ⟨before, line, back, hsplit, hlen, hopens, hline, rfl⟩
      refine ⟨before ++ line, back, hsplit, hlen, ?_⟩
      rw [hfeeds before line back hsplit hlen hline, Position.behind_eq hopens hline]
  · rw [lineCount_ofText, Bytes.count_ofText]
  · obtain ⟨i, hi, hstart⟩ := Array.getElem_of_mem hmem
    obtain ⟨before, hsplit, -, -, hoffset⟩ :=
      getElem?_starts_eq_some_iff.mp (Array.getElem?_eq_some_iff.mpr ⟨hi, hstart⟩)
    rw [hsplit, String.utf8Len_append] at hsize
    omega

/-- Two bytes make up the first character of this text. -/
theorem position_is_direct_scan_wide :
    let text := "é\nb"
    (Bytes.ofText text).length < UInt32.size - 1 ∧ (ofText text).position? 1 = none ∧
      (ofText text).position? 4 = some ⟨2, 2⟩ ∧ (ofText text).lineCount = 2 ∧
      (ofText text).lookUp? 4 = some (some ⟨2, 2⟩) := by
  intro text
  have hsize : (Bytes.ofText text).length < UInt32.size - 1 := by decide +kernel
  have hnone := (position_is_direct_scan text hsize 1).1.mpr
    (Or.inr ⟨[], 'é', ['\n', 'b'], by decide +kernel, by decide, by decide⟩)
  obtain ⟨-, hsome, hcount, -, hwords⟩ := position_is_direct_scan text hsize 4
  have hposition := (hsome ⟨2, 2⟩).mpr ⟨['é', '\n'], ['b'], [], by decide +kernel, by decide,
    Or.inr ⟨['é'], rfl⟩, by decide, by decide +kernel⟩
  rw [hposition] at hwords
  exact ⟨hsize, hnone, hposition, hcount.trans (by decide +kernel), hwords⟩

end LineIndex

end MacroAtlas
