import MacroAtlas.Proofs.Payload.Varint
import MacroAtlas.Proofs.SpanMap.Soundness

/-!
# The grammar of payloads

A payload spells the number of its links and then each link: four numbers and a flag byte. Reading
succeeds exactly on the bytes of this grammar whose links fit and stand in the order of a map. All
others are reported as corrupt.
-/

namespace MacroAtlas

namespace StoredLink

/-- The bytes spell the four numbers of a stored link, each in any width, and end with its flags. -/
inductive Spells (s : StoredLink) : Bytes → Prop where
  /-- The numbers come in the order of the fields. -/
  | group {a b c d : Bytes} (targetStart : Varint.Spells .offset s.targetStart.toNat a)
      (targetLength : Varint.Spells .offset s.targetLength.toNat b)
      (sourceStart : Varint.Spells .offset s.sourceStart.toNat c)
      (sourceLength : Varint.Spells .offset s.sourceLength.toNat d) :
      Spells s (a ++ b ++ c ++ d ++ [s.flags])

/-- The flag byte marks nothing unknown and both spans end at an offset. -/
structure Fits (s : StoredLink) : Prop where
  /-- Only the literal bit may be set. -/
  flags : s.flags = 0 ∨ s.flags = 1
  /-- The target ends at an offset. -/
  target : s.targetStart.toNat + s.targetLength.toNat < UInt32.size
  /-- The source ends at an offset. -/
  source : s.sourceStart.toNat + s.sourceLength.toNat < UInt32.size

/-- The link that a stored link stands for, provided that it fits. -/
def link (s : StoredLink) : Link where
  target := ⟨s.targetStart, s.targetStart + s.targetLength⟩
  source := ⟨s.sourceStart, s.sourceStart + s.sourceLength⟩
  literal := s.flags = 1

/-- Exactly the stored links that fit stand for a link. -/
theorem toLink_eq_ok_iff {s : StoredLink} {l : Link} :
    s.toLink = .ok l ↔ s.Fits ∧ l = s.link := by
  constructor
  · intro h
    unfold toLink Span.ofLength? at h
    split at h
    · cases h
    · next hf =>
        have hflags : s.flags = 0 ∨ s.flags = 1 := by
          by_cases h0 : s.flags = 0
          · exact Or.inl h0
          · exact Or.inr (Decidable.not_not.mp fun h1 => hf ⟨h0, h1⟩)
        by_cases ht : s.targetStart.toNat + s.targetLength.toNat < UInt32.size
        · by_cases hs : s.sourceStart.toNat + s.sourceLength.toNat < UInt32.size
          · simp only [ht, hs, ite_true, Except.ok.injEq] at h
            exact ⟨⟨hflags, ht, hs⟩, h.symm⟩
          · simp [ht, hs] at h
        · simp [ht] at h
  · rintro ⟨⟨hf, ht, hs⟩, rfl⟩
    have hflags : ¬ (s.flags ≠ 0 ∧ s.flags ≠ 1) := fun ⟨h0, h1⟩ => hf.elim h0 h1
    simp only [toLink, hflags, ite_false, Span.ofLength?, ht, hs, ite_true, link]

/-- A list of stored links stands for links exactly when all of them fit. -/
theorem mapM_toLink_eq_ok_iff {stored : List StoredLink} {links : List Link} :
    stored.mapM toLink = .ok links ↔ (∀ s ∈ stored, s.Fits) ∧ links = stored.map link := by
  induction stored generalizing links with
  | nil => simp [pure, Except.pure, eq_comm]
  | cons s rest ih =>
      simp only [List.mapM_cons, Except.bind_eq_ok_iff, toLink_eq_ok_iff, ih, pure, Except.pure,
        Except.ok.injEq, List.forall_mem_cons, List.map_cons]
      constructor
      · rintro ⟨_, ⟨hs, rfl⟩, _, ⟨hrest, rfl⟩, rfl⟩
        exact ⟨⟨hs, hrest⟩, rfl⟩
      · rintro ⟨⟨hs, hrest⟩, rfl⟩
        exact ⟨_, ⟨hs, rfl⟩, _, ⟨hrest, rfl⟩, rfl⟩

end StoredLink

namespace Payload

theorem reads_readOffset :
    Reads readOffset fun n front => Varint.Spells .offset n.toNat front := by
  intro bytes n rest
  simp only [readOffset, Except.bind_eq_ok_iff, Prod.exists, pure, Except.pure, Except.ok.injEq,
    Prod.mk.injEq]
  constructor
  · rintro ⟨k, after, h, rfl, rfl⟩
    obtain ⟨front, hs, rfl⟩ := (Varint.reads_readNumber _ _ _ _).mp h
    have hk : k.toUInt32.toNat = k := UInt32.toNat_ofNat_of_lt' hs.lt_bound
    exact ⟨front, by rwa [hk], rfl⟩
  · rintro ⟨front, hs, rfl⟩
    refine ⟨n.toNat, rest, (Varint.reads_readNumber _ _ _ _).mpr ⟨front, hs, rfl⟩, ?_, rfl⟩
    exact UInt32.ofNat_toNat

/-- Stored links are read in all their spellings and in nothing else. -/
theorem reads_readLink : Reads readLink StoredLink.Spells := by
  intro bytes s rest
  simp only [readLink, Except.bind_eq_ok_iff, Prod.exists, pure, Except.pure, Except.ok.injEq,
    Prod.mk.injEq]
  constructor
  · rintro ⟨ts, r₁, h₁, tl, r₂, h₂, ss, r₃, h₃, sl, r₄, h₄, f, r₅, h₅, rfl, rfl⟩
    obtain ⟨a, ha, rfl⟩ := (reads_readOffset _ _ _).mp h₁
    obtain ⟨b, hb, rfl⟩ := (reads_readOffset _ _ _).mp h₂
    obtain ⟨c, hc, rfl⟩ := (reads_readOffset _ _ _).mp h₃
    obtain ⟨d, hd, rfl⟩ := (reads_readOffset _ _ _).mp h₄
    obtain ⟨_, rfl, rfl⟩ := (reads_readByte _ _ _).mp h₅
    exact ⟨_, .group ha hb hc hd, by simp only [List.append_assoc]⟩
  · rintro ⟨_, @⟨a, b, c, d, ha, hb, hc, hd⟩, rfl⟩
    refine ⟨_, b ++ (c ++ (d ++ (s.flags :: rest))),
      (reads_readOffset _ _ _).mpr ⟨a, ha, by simp only [List.append_assoc, List.singleton_append]⟩,
      _, _, (reads_readOffset _ _ _).mpr ⟨b, hb, rfl⟩,
      _, _, (reads_readOffset _ _ _).mpr ⟨c, hc, rfl⟩,
      _, _, (reads_readOffset _ _ _).mpr ⟨d, hd, rfl⟩,
      s.flags, rest, (reads_readByte _ _ _).mpr ⟨_, rfl, rfl⟩, rfl, rfl⟩

/-- The bytes spell stored links one after the other. -/
inductive SpellsLinks : List StoredLink → Bytes → Prop where
  /-- No link takes no byte. -/
  | nil : SpellsLinks [] []
  /-- The first link comes first. -/
  | cons {s : StoredLink} {rest : List StoredLink} {front tail : Bytes} (first : s.Spells front)
      (others : SpellsLinks rest tail) : SpellsLinks (s :: rest) (front ++ tail)

/-- As many links as asked for are read, in all their spellings. -/
theorem reads_readLinks (count : Nat) :
    Reads (readLinks count) fun links front => links.length = count ∧ SpellsLinks links front := by
  induction count with
  | zero =>
      intro bytes links rest
      simp only [readLinks, pure, Except.pure, Except.ok.injEq, Prod.mk.injEq,
        List.length_eq_zero_iff]
      constructor
      · rintro ⟨rfl, rfl⟩
        exact ⟨[], ⟨rfl, .nil⟩, rfl⟩
      · rintro ⟨_, ⟨rfl, ⟨⟩⟩, rfl⟩
        exact ⟨rfl, rfl⟩
  | succ count ih =>
      intro bytes links rest
      simp only [readLinks, Except.bind_eq_ok_iff, Prod.exists, pure, Except.pure,
        Except.ok.injEq, Prod.mk.injEq]
      constructor
      · rintro ⟨s, r₁, h₁, others, r₂, h₂, rfl, rfl⟩
        obtain ⟨front, hs, rfl⟩ := (reads_readLink _ _ _).mp h₁
        obtain ⟨tail, ⟨rfl, ht⟩, rfl⟩ := (ih _ _ _).mp h₂
        exact ⟨_, ⟨rfl, .cons hs ht⟩, by rw [List.append_assoc]⟩
      · rintro ⟨_, ⟨hl, (_ | @⟨s, others, front, tail, hs, ht⟩)⟩, rfl⟩
        · cases hl
        · refine ⟨s, tail ++ rest, (reads_readLink _ _ _).mpr ⟨front, hs, by rw [List.append_assoc]⟩,
            others, rest, (ih _ _ _).mpr ⟨tail, ⟨Nat.succ.inj hl, ht⟩, rfl⟩, rfl, rfl⟩

/-- The bytes spell a number of links and then exactly that many links. -/
inductive Spells (links : List StoredLink) : Bytes → Prop where
  /-- The count comes first. -/
  | counted {head tail : Bytes} (count : Varint.Spells .count links.length head)
      (groups : SpellsLinks links tail) : Spells links (head ++ tail)

/-- Exactly the payloads of the grammar are read, and nothing of them is left over. -/
theorem readAll_eq_ok_iff {bytes : Bytes} {links : List StoredLink} :
    readAll bytes = .ok links ↔ Spells links bytes := by
  simp only [readAll, Except.bind_eq_ok_iff, Prod.exists]
  constructor
  · rintro ⟨count, r₁, h₁, found, r₂, h₂, h⟩
    obtain ⟨head, hn, rfl⟩ := (Varint.reads_readNumber _ _ _ _).mp h₁
    obtain ⟨tail, ⟨rfl, ht⟩, rfl⟩ := (reads_readLinks _ _ _ _).mp h₂
    split at h
    · next he =>
        obtain rfl := Except.ok.inj h
        rw [List.isEmpty_iff.mp he, List.append_nil]
        exact .counted hn ht
    · cases h
  · rintro @⟨head, tail, hn, ht⟩
    refine ⟨links.length, tail, (Varint.reads_readNumber _ _ _ _).mpr ⟨head, hn, rfl⟩, links, [],
      (reads_readLinks _ _ _ _).mpr ⟨tail, ⟨rfl, ht⟩, (List.append_nil tail).symm⟩, rfl⟩

end Payload

namespace SpanMap

/-- Links that make up no map have a fault of their own. -/
theorem ofOrdered_ok_or_unsound (links : List Link) :
    (∃ m, ofOrdered links = .ok m) ∨ ∃ fault, ofOrdered links = .error (.unsound fault) := by
  unfold ofOrdered
  split
  · exact Or.inr ⟨_, rfl⟩
  · exact Or.inl ⟨_, rfl⟩

/-- Whatever is wrong with bytes that do not decode, they are reported as corrupt. -/
theorem decode_ok_or_corrupt (bytes : Bytes) :
    (∃ m, decode bytes = .ok m) ∨ ∃ fault, decode bytes = .error (.corrupt fault) := by
  unfold decode
  cases hread : (Payload.readAll bytes).bind (·.mapM StoredLink.toLink) with
  | error fault => exact Or.inr ⟨fault, rfl⟩
  | ok links =>
      rcases ofOrdered_ok_or_unsound links with ⟨m, hm⟩ | ⟨fault, hf⟩
      · exact Or.inl ⟨m, by simp only [Except.mapError, bind, Except.bind, hm]⟩
      · refine Or.inr ⟨.unsound fault, ?_⟩
        simp only [Except.mapError, bind, Except.bind, hf]
        rfl

/-- Bytes decode to a map exactly when they spell fitting stored links that stand for its links. -/
theorem decode_eq_ok_iff {bytes : Bytes} {m : SpanMap} :
    decode bytes = .ok m ↔ ∃ stored, Payload.Spells stored bytes ∧ (∀ s ∈ stored, s.Fits) ∧
      m.links.toList = stored.map StoredLink.link := by
  have hlinks : ∀ links, (Payload.readAll bytes).bind (·.mapM StoredLink.toLink) = .ok links ↔
      ∃ stored, Payload.Spells stored bytes ∧ (∀ s ∈ stored, s.Fits) ∧
        links = stored.map StoredLink.link := fun links => by
    change (Payload.readAll bytes >>= (·.mapM StoredLink.toLink)) = .ok links ↔ _
    simp only [Except.bind_eq_ok_iff, Payload.readAll_eq_ok_iff, StoredLink.mapM_toLink_eq_ok_iff]
  rw [← hlinks]
  unfold decode
  cases hread : (Payload.readAll bytes).bind (·.mapM StoredLink.toLink) with
  | error fault => simp [Except.mapError, bind, Except.bind]
  | ok links =>
      have hm : links = m.links.toList ↔ ofOrdered links = .ok m :=
        eq_comm.trans ofOrdered_eq_ok_iff.symm
      simp only [Except.mapError, bind, Except.bind, Except.ok.injEq, hm]
      rcases ofOrdered_ok_or_unsound links with ⟨n, hn⟩ | ⟨fault, hf⟩
      · rw [hn]
      · simp [hf, throw, throwThe, MonadExceptOf.throw]

/-- A payload is decoded exactly when it spells links that fit and make up a map in their order; all
others are corrupt. -/
theorem decode_eq_ok_iff_spells_or_corrupt (bytes : Bytes) :
    (∀ m, decode bytes = .ok m ↔
      ∃ stored, Payload.Spells stored bytes ∧ (∀ s ∈ stored, s.Fits) ∧
        ofLinks (stored.map StoredLink.link) = .ok m ∧
          m.links.toList = stored.map StoredLink.link) ∧
      ((∃ m, decode bytes = .ok m) ∨ ∃ fault, decode bytes = .error (.corrupt fault)) := by
  refine ⟨fun m => ?_, decode_ok_or_corrupt bytes⟩
  rw [decode_eq_ok_iff]
  constructor
  · rintro ⟨stored, hs, hf, hm⟩
    exact ⟨stored, hs, hf, by rw [← hm]; exact ofLinks_links m, hm⟩
  · rintro ⟨stored, hs, hf, _, hm⟩
    exact ⟨stored, hs, hf, hm⟩

end SpanMap

end MacroAtlas
