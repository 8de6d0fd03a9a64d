import MacroAtlas.Blob.Backend
import MacroAtlas.Proofs.Blob.Listing
import MacroAtlas.Proofs.Blob.Memory
import MacroAtlas.Proofs.FileName.Spelling
import MacroAtlas.Proofs.Text.Order

/-!
# Names stand in the order of their fingerprints

The text of a digest has two digits for each byte, so texts stand in the order of the digests, and
canonical names in that of the fingerprints. A store lists names in their order, whatever other
names stand between.
-/

namespace MacroAtlas

theorem Digest.compare_text (d e : Digest) : compare d.text e.text = d.cmp e := by
  rw [← compare_toList, toList_text, toList_text]
  exact Hex.compare_encode d.bytes e.bytes

namespace FileName

theorem compare_ofFingerprint (f g : Fingerprint) :
    compare (ofFingerprint f) (ofFingerprint g) = f.digest.cmp g.digest := by
  have hlength : f.digits.length = g.digits.length := by
    rw [Fingerprint.digits, Fingerprint.digits, Digest.digits, Digest.digits, Hex.length_encode,
      Hex.length_encode, f.digest.length_eq, g.digest.length_eq]
  have hcompare : compare (ofFingerprint f) (ofFingerprint g) =
      compare (f.digits ++ canonicalEnding) (g.digits ++ canonicalEnding) := by
    rw [← String.toList_ofList (l := f.digits ++ canonicalEnding),
      ← String.toList_ofList (l := g.digits ++ canonicalEnding), compare_toList]
    rfl
  rw [hcompare, compare_append_of_length_eq hlength, Std.ReflOrd.compare_self,
    Ordering.then_eq]
  exact Hex.compare_encode f.digest.bytes g.digest.bytes

end FileName

/-- Either kind of store lists files in the order of their names. -/
theorem Backend.ordered_files {blobs : Backend} {area : String} {files : List FileName}
    (h : BlobStore.files blobs area = .ok files) :
    files.Pairwise fun a b => compare a b = .lt := by
  have hordered : files.Pairwise (·.text < ·.text) := by
    cases blobs with
    | memory blobs tree =>
        obtain rfl := Except.ok.inj h
        exact blobs.ordered_filesOf area
    | directory blobs => exact DirectoryBlobs.ordered_files h
  exact hordered.imp fun hlt => compareOfLessAndEq_eq_lt.mpr hlt

namespace FileName

/-- Digests, their texts and canonical names compare alike, so the canonical names in a listing come
by growing fingerprint. -/
theorem canonical_names_sort_by_fingerprint :
    (∀ d e : Digest, compare d.text e.text = d.cmp e ∧
      compare (Bytes.ofText d.text) (Bytes.ofText e.text) = d.cmp e) ∧
    (∀ f g : Fingerprint, compare (ofFingerprint f) (ofFingerprint g) = f.digest.cmp g.digest ∧
      compare (Bytes.ofText (ofFingerprint f).text) (Bytes.ofText (ofFingerprint g).text) =
        f.digest.cmp g.digest) ∧
    ∀ (blobs : Backend) (area : String) (files : List FileName),
      BlobStore.files blobs area = .ok files →
        files.Pairwise fun a b => ∀ f g, a = ofFingerprint f → b = ofFingerprint g →
          f.digest.cmp g.digest = .lt := by
  refine ⟨fun d e => ?_, fun f g => ?_, fun blobs area files hfiles => ?_⟩
  · rw [Bytes.compare_ofText]
    exact ⟨d.compare_text e, d.compare_text e⟩
  · rw [Bytes.compare_ofText]
    exact ⟨compare_ofFingerprint f g, compare_ofFingerprint f g⟩
  · refine (Backend.ordered_files hfiles).imp fun {a b} hlt f g hf hg => ?_
    rw [hf, hg, compare_ofFingerprint] at hlt
    exact hlt

/-- Another name stands between two canonical ones, of which the lesser was written last. -/
theorem canonical_names_sort_by_fingerprint_among_others :
    let low : Fingerprint := ⟨⟨List.replicate 16 0x0f, rfl⟩⟩
    let high : Fingerprint := ⟨⟨List.replicate 16 0xa0, rfl⟩⟩
    let license : FileName := ⟨"LICENSE", by decide⟩
    let blobs : Backend := .memory ⟨((Std.ExtTreeMap.empty.insert ⟨"one", ofFingerprint high⟩
      [1]).insert ⟨"one", license⟩ [2]).insert ⟨"one", ofFingerprint low⟩ [3], 0⟩ .empty
    BlobStore.files blobs "one" = .ok [ofFingerprint low, license, ofFingerprint high] ∧
      low.digest.cmp high.digest = .lt := by
  intro low high license blobs
  have hfiles : BlobStore.files blobs "one" =
      .ok [ofFingerprint low, license, ofFingerprint high] :=
    congrArg Except.ok (by decide +kernel)
  have hsorted := canonical_names_sort_by_fingerprint.2.2 blobs "one" _ hfiles
  exact ⟨hfiles, (List.pairwise_cons.mp hsorted).1 _ (by simp) low high rfl rfl⟩

end FileName

end MacroAtlas
