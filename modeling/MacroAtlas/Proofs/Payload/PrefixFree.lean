import MacroAtlas.Proofs.Payload.Grammar
import MacroAtlas.Proofs.Record
import MacroAtlas.Store.Fault

/-!
# Torn and padded payloads

A reader takes the same bytes from the front whatever follows them, so no payload is the beginning
of another. The version of a record stands in front, so a torn or padded record is damaged and never
one of another version.
-/

namespace MacroAtlas

namespace Payload

/-- Where two forms start the same bytes, they are of the same length and read as the same. -/
theorem Reads.eq_of_append_eq {α : Type} {read : Bytes → Except PayloadFault (α × Bytes)}
    {form : α → Bytes → Prop} (h : Reads read form) {a b : α} {front front' rest rest' : Bytes}
    (ha : form a front) (hb : form b front') (he : front ++ rest = front' ++ rest') :
    a = b ∧ front = front' ∧ rest = rest' := by
  have hread : read (front ++ rest) = .ok (a, rest) := (h _ _ _).mpr ⟨front, ha, rfl⟩
  have hread' : read (front ++ rest) = .ok (b, rest') := (h _ _ _).mpr ⟨front', hb, he⟩
  obtain ⟨rfl, rfl⟩ := Prod.mk.inj (Except.ok.inj (hread.symm.trans hread'))
  exact ⟨rfl, List.append_cancel_right he, rfl⟩

/-- A payload that begins with a payload is that payload. -/
theorem Spells.eq_of_isPrefix {links links' : List StoredLink} {bytes bytes' : Bytes}
    (h : Spells links bytes) (h' : Spells links' bytes') (hp : bytes <+: bytes') :
    bytes = bytes' := by
  cases h with
  | @counted head tail count groups =>
      cases h' with
      | @counted head' tail' count' groups' =>
          obtain ⟨more, he⟩ := hp
          rw [List.append_assoc] at he
          obtain ⟨hlength, hhead, htail⟩ :=
            (Varint.reads_readNumber .count).eq_of_append_eq count count' he
          -- The counts agree, so the same number of links is read behind them.
          have hend : tail ++ more = tail' ++ [] := by rw [htail, List.append_nil]
          obtain ⟨-, hgroups, -⟩ := (reads_readLinks links.length).eq_of_append_eq
            ⟨rfl, groups⟩ ⟨hlength.symm, groups'⟩ hend
          rw [hhead, hgroups]

end Payload

namespace SpanMap

/-- No payload of a map is the beginning of a payload of another one or of the same. -/
theorem eq_of_decode_of_isPrefix {bytes bytes' : Bytes} {m m' : SpanMap}
    (h : decode bytes = .ok m) (h' : decode bytes' = .ok m') (hp : bytes <+: bytes') :
    bytes = bytes' := by
  obtain ⟨stored, hs, -, -⟩ := decode_eq_ok_iff.mp h
  obtain ⟨stored', hs', -, -⟩ := decode_eq_ok_iff.mp h'
  exact hs.eq_of_isPrefix hs' hp

/-- A payload that has lost or gained bytes at its end is corrupt. -/
theorem exists_decode_eq_corrupt {bytes other : Bytes} {m : SpanMap} (h : decode bytes = .ok m)
    (hp : other <+: bytes ∨ bytes <+: other) (hne : other ≠ bytes) :
    ∃ fault, decode other = .error (.corrupt fault) := by
  rcases decode_ok_or_corrupt other with ⟨m', h'⟩ | hcorrupt
  · exfalso
    apply hne
    rcases hp with hp | hp
    · exact eq_of_decode_of_isPrefix h' h hp
    · exact (eq_of_decode_of_isPrefix h h' hp).symm
  · exact hcorrupt

end SpanMap

namespace Record

/-- Bytes that are cut off or continued either end within the header or leave it as it is. -/
theorem headless_or_header {header payload other : Bytes}
    (hp : other <+: header ++ payload ∨ header ++ payload <+: other) :
    other.length < header.length ∨
      ∃ rest, other = header ++ rest ∧ (rest <+: payload ∨ payload <+: rest) := by
  by_cases hl : other.length < header.length
  · exact Or.inl hl
  · right
    have hheader : header <+: other := by
      rcases hp with hp | hp
      · exact List.prefix_of_prefix_length_le (List.prefix_append header payload) hp (by omega)
      · exact (List.prefix_append header payload).trans hp
    obtain ⟨rest, rfl⟩ := hheader
    refine ⟨rest, rfl, ?_⟩
    simpa only [List.prefix_append_right_inj] using hp

/-- No proper beginning and no continuation of an accepted payload or record is accepted; the record
is damaged and recoverable. -/
theorem torn_or_padded_rejected {bytes other : Bytes}
    (hp : other <+: bytes ∨ bytes <+: other) (hne : other ≠ bytes) :
    (∀ m, SpanMap.decode bytes = .ok m →
      ∃ fault, SpanMap.decode other = .error (.corrupt fault)) ∧
    ∀ m, decode bytes = .ok m →
      ∃ fault, decode other = .error fault ∧ (∀ version, fault ≠ .outdated version) ∧
        ∀ file, (StoreFault.record file fault).recoverable = true := by
  refine ⟨fun m h => SpanMap.exists_decode_eq_corrupt h hp hne, fun m h => ?_⟩
  obtain ⟨payload, rfl, hpayload⟩ := decode_eq_ok_iff.mp h
  rcases headless_or_header hp with hl | ⟨rest, rfl, hrest⟩
  · exact ⟨_, decode_eq_headless hl, nofun, fun _ => rfl⟩
  · have hrne : rest ≠ payload := fun he => hne (by rw [he])
    obtain ⟨fault, hfault⟩ := SpanMap.exists_decode_eq_corrupt hpayload hrest hrne
    refine ⟨.damaged (.corrupt fault), ?_, nofun, fun _ => rfl⟩
    rw [decode_append schemaVersion_lt, if_pos rfl, hfault]
    rfl

/-- A map of one link whose numbers are spelled wide: the record is cut off within the last number,
and the payload is continued. -/
theorem torn_or_padded_rejected_wide :
    let payload : Bytes := [251, 1, 0, 0, 252, 3, 0, 0, 0, 0, 251, 3, 0, 1]
    (∃ m, SpanMap.decode payload = .ok m ∧ m.size = 1) ∧
      (∃ fault, SpanMap.decode (payload ++ [0]) = .error (.corrupt fault)) ∧
      (∃ m, decode ([2, 0] ++ payload) = .ok m) ∧
      ∃ fault, decode ([2, 0] ++ payload.take 12) = .error fault ∧
        ∀ version, fault ≠ .outdated version := by
  intro payload
  obtain ⟨m, hm, hsize⟩ : ∃ m, SpanMap.decode payload = .ok m ∧ m.size = 1 := ⟨_, rfl, rfl⟩
  have hrecord : decode ([2, 0] ++ payload) = .ok m := decode_eq_ok_iff.mpr ⟨payload, rfl, hm⟩
  have hpadded : payload <+: payload ++ [0] := List.prefix_append _ _
  have htorn : [2, 0] ++ payload.take 12 <+: [2, 0] ++ payload := by decide
  obtain ⟨fault, hfault, hversion, -⟩ :=
    (torn_or_padded_rejected (Or.inl htorn) (by decide)).2 m hrecord
  exact ⟨⟨m, hm, hsize⟩, (torn_or_padded_rejected (Or.inr hpadded) (by decide)).1 m hm,
    ⟨m, hrecord⟩, fault, hfault, hversion⟩

end Record

end MacroAtlas
