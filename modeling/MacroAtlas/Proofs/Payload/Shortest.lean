import MacroAtlas.Proofs.Payload.Grammar
import MacroAtlas.Record

/-!
# The shortest payload

The payload that is written spells exactly the links of the map, so reading it gives the map back.
Every other payload of the map spells the same numbers, one of them in more bytes, and is longer.
-/

namespace MacroAtlas

namespace StoredLink

/-- The stored form of a proper link fits. -/
theorem fits_ofLink {l : Link} (h : l.Proper) : (ofLink l).Fits := by
  have hspan : ∀ s : Span, s.start ≤ s.stop →
      s.start.toNat + s.length.toNat < UInt32.size := fun s hs => by
    rw [Span.length, UInt32.toNat_sub_of_le _ _ hs]
    have hle := UInt32.le_iff_toNat_le.mp hs
    have hlt := s.stop.toNat_lt
    have hsize : UInt32.size = 4294967296 := rfl
    omega
  refine ⟨?_, hspan _ (UInt32.le_of_lt h.target), hspan _ h.source⟩
  cases hl : l.literal with
  | false => exact Or.inl (by simp [ofLink, hl])
  | true => exact Or.inr (by simp [ofLink, hl])

/-- The stored form of a link stands for the link. -/
theorem link_ofLink (l : Link) : (ofLink l).link = l := by
  obtain ⟨⟨ts, te⟩, ⟨ss, se⟩, literal⟩ := l
  have hadd : ∀ a b : UInt32, a + (b - a) = b := fun a b => by
    rw [UInt32.add_comm, UInt32.sub_add_cancel]
  cases literal <;> simp [link, ofLink, Span.length, hadd]

/-- A stored link that fits is the stored form of its link. -/
theorem ofLink_link {s : StoredLink} (h : s.Fits) : ofLink s.link = s := by
  obtain ⟨ts, tl, ss, sl, flags⟩ := s
  have hsub : ∀ a b : UInt32, a + b - a = b := fun a b => by
    rw [UInt32.add_comm, UInt32.add_sub_cancel]
  rcases h.flags with hf | hf <;> simp only at hf <;> subst hf <;>
    simp [link, ofLink, Span.length, hsub]

/-- What is written for a stored link spells it. -/
theorem spells_write (s : StoredLink) : s.Spells s.write :=
  .group (Varint.spells_write s.targetStart.toNat_lt) (Varint.spells_write s.targetLength.toNat_lt)
    (Varint.spells_write s.sourceStart.toNat_lt) (Varint.spells_write s.sourceLength.toNat_lt)

/-- What is written for a stored link is its shortest spelling. -/
theorem Spells.undercut {s : StoredLink} {bytes : Bytes} (h : s.Spells bytes) :
    s.write.Undercuts bytes := by
  cases h with
  | group ha hb hc hd =>
      exact (((ha.undercut.append hb.undercut).append hc.undercut).append hd.undercut).append
        (.refl _)

end StoredLink

namespace Payload

/-- Stored links that are written one after the other spell themselves. -/
theorem spellsLinks_flatMap_write (stored : List StoredLink) :
    SpellsLinks stored (stored.flatMap StoredLink.write) := by
  induction stored with
  | nil => exact .nil
  | cons s rest ih => exact .cons s.spells_write ih

/-- Nothing spells stored links in fewer bytes than what is written for them. -/
theorem SpellsLinks.undercut {stored : List StoredLink} {bytes : Bytes}
    (h : SpellsLinks stored bytes) : Bytes.Undercuts (stored.flatMap StoredLink.write) bytes := by
  induction h with
  | nil => exact .refl _
  | cons first others ih => exact first.undercut.append ih

end Payload

namespace SpanMap

/-- The stored links of a map, in its order. -/
def stored (m : SpanMap) : List StoredLink := m.links.toList.map StoredLink.ofLink

theorem length_stored (m : SpanMap) : m.stored.length = m.size := by
  simp [stored, size]

/-- The payload of a map is what is written for the number of its stored links and for each. -/
theorem encode_eq (m : SpanMap) :
    m.encode = Varint.write m.stored.length ++ m.stored.flatMap StoredLink.write := by
  rw [length_stored]
  simp only [encode, stored, List.flatMap_map]

/-- All stored links of a map fit. -/
theorem fits_of_mem_stored {m : SpanMap} {s : StoredLink} (h : s ∈ m.stored) : s.Fits := by
  obtain ⟨l, hl, rfl⟩ := List.mem_map.mp h
  exact StoredLink.fits_ofLink ((firstFault?_eq_none_iff.mp m.sound).1 l hl)

/-- The stored links of a map stand for its links. -/
theorem map_link_stored (m : SpanMap) : m.stored.map StoredLink.link = m.links.toList := by
  rw [stored, List.map_map]
  exact (List.map_congr_left fun l _ => StoredLink.link_ofLink l).trans (List.map_id _)

/-- Fitting stored links that stand for the links of a map are its stored links. -/
theorem eq_stored {m : SpanMap} {stored : List StoredLink} (hf : ∀ s ∈ stored, s.Fits)
    (hm : m.links.toList = stored.map StoredLink.link) : stored = m.stored := by
  rw [SpanMap.stored, hm, List.map_map]
  exact ((List.map_congr_left fun s hs => StoredLink.ofLink_link (hf s hs)).trans
    (List.map_id _)).symm

/-- The payload of a map spells its stored links. -/
theorem spells_encode (m : SpanMap) : Payload.Spells m.stored m.encode := by
  rw [encode_eq]
  refine .counted (Varint.spells_write ?_) (Payload.spellsLinks_flatMap_write _)
  rw [length_stored]
  exact Nat.lt_trans m.size_lt (by decide)

/-- Reading the payload of a map gives the map back. -/
@[simp] theorem decode_encode (m : SpanMap) : decode m.encode = .ok m :=
  decode_eq_ok_iff.mpr
    ⟨m.stored, m.spells_encode, fun _ hs => fits_of_mem_stored hs, m.map_link_stored.symm⟩

/-- No payload of a map is shorter than the one that is written, and no other is as short. -/
theorem encode_undercuts {m : SpanMap} {bytes : Bytes} (h : decode bytes = .ok m) :
    m.encode.Undercuts bytes := by
  obtain ⟨stored, hs, hf, hm⟩ := decode_eq_ok_iff.mp h
  obtain rfl := eq_stored hf hm
  rw [encode_eq]
  cases hs with
  | counted count groups => exact count.undercut.append groups.undercut

/-- The payload of a map reads as that map and is the only shortest byte string that does. -/
theorem encode_unique_shortest (m : SpanMap) :
    ofLinks m.links.toList = .ok m ∧ decode m.encode = .ok m ∧
      ∀ bytes, decode bytes = .ok m →
        m.encode.length ≤ bytes.length ∧ (bytes.length = m.encode.length → bytes = m.encode) :=
  ⟨m.ofLinks_links, m.decode_encode, fun _ h => encode_undercuts h⟩

/-- The map without links has a payload of one byte, and a longer one whose count is written
wide. -/
theorem encode_unique_shortest_empty :
    decode [251, 0, 0] = .ok empty ∧ empty.encode.length ≤ [251, 0, 0].length ∧
      decode [0] = .ok empty ∧ [0] = empty.encode := by
  have hwide : decode [251, 0, 0] = .ok empty := by decide
  have hnarrow : decode [0] = .ok empty := by decide
  have hlength : [0].length = empty.encode.length := by decide
  exact ⟨hwide, ((encode_unique_shortest empty).2.2 _ hwide).1, hnarrow,
    ((encode_unique_shortest empty).2.2 _ hnarrow).2 hlength⟩

end SpanMap

namespace Record

/-- Reading the record of a map gives the map back. -/
@[simp] theorem decode_encode (m : SpanMap) : decode (encode m) = .ok m := by
  change (SpanMap.decode m.encode).mapError RecordFault.damaged = .ok m
  rw [SpanMap.decode_encode]
  rfl

end Record

end MacroAtlas
