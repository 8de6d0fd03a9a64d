import MacroAtlas.Proofs.Payload.Varint
import MacroAtlas.Record

/-!
# What a record is taken for

The two bytes in front of a record settle how the rest is read. With fewer bytes there is no header.
Under the current version the rest has to be a payload, and under any other it is not looked at.
-/

namespace MacroAtlas

namespace Record

theorem schemaVersion_lt : schemaVersion < UInt16.size := by decide

/-- What follows the header is read under the current version only. -/
theorem decode_append {version : Nat} (hv : version < UInt16.size) (payload : Bytes) :
    decode (Bytes.littleEndian 2 version ++ payload) =
      if version = schemaVersion then (SpanMap.decode payload).mapError .damaged
      else .error (.outdated version) := by
  have hread : (Bytes.littleEndian 2 version).toNat = version := Bytes.toNat_littleEndian hv
  calc decode (Bytes.littleEndian 2 version ++ payload)
      = if (Bytes.littleEndian 2 version).toNat = schemaVersion then
          (SpanMap.decode payload).mapError .damaged
        else .error (.outdated (Bytes.littleEndian 2 version).toNat) := rfl
    _ = _ := by rw [hread]

theorem decode_eq_headless {bytes : Bytes} (h : bytes.length < 2) :
    decode bytes = .error (.headless bytes.length) := by
  match bytes, h with
  | [], _ => rfl
  | [_], _ => rfl

/-- Bytes either are too few for a header or start with that of some version. -/
theorem headless_or_version (bytes : Bytes) :
    bytes.length < 2 ∨ ∃ version payload,
      version < UInt16.size ∧ bytes = Bytes.littleEndian 2 version ++ payload := by
  by_cases hl : bytes.length < 2
  · exact Or.inl hl
  · have htwo : (bytes.take 2).length = 2 := by
      rw [List.length_take]
      omega
    have hlt := Bytes.toNat_lt (bytes.take 2)
    have hheader := Bytes.littleEndian_toNat (bytes.take 2)
    rw [htwo] at hlt hheader
    refine Or.inr ⟨Bytes.toNat (bytes.take 2), bytes.drop 2, hlt, ?_⟩
    rw [hheader, List.take_append_drop]

/-- A record of a map is the current version with a payload of the map behind it. -/
theorem decode_eq_ok_iff {bytes : Bytes} {m : SpanMap} :
    decode bytes = .ok m ↔ ∃ payload,
      bytes = Bytes.littleEndian 2 schemaVersion ++ payload ∧ SpanMap.decode payload = .ok m := by
  have hcurrent : ∀ payload, decode (Bytes.littleEndian 2 schemaVersion ++ payload) = .ok m ↔
      SpanMap.decode payload = .ok m := fun payload => by
    rw [decode_append schemaVersion_lt, if_pos rfl]
    cases SpanMap.decode payload <;> simp [Except.mapError]
  constructor
  · intro h
    rcases headless_or_version bytes with hl | ⟨version, payload, hv, rfl⟩
    · rw [decode_eq_headless hl] at h
      cases h
    · by_cases hs : version = schemaVersion
      · subst hs
        exact ⟨payload, rfl, (hcurrent payload).mp h⟩
      · rw [decode_append hv, if_neg hs] at h
        cases h
  · rintro ⟨payload, rfl, h⟩
    exact (hcurrent payload).mpr h

end Record

end MacroAtlas
