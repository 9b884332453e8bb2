import KeyReader.Sidecar.Codec
import KeyReader.Utf8

/-! What a save and a load give back.  Every part of the stored form converts back to the value it
came from, so decoding an encoded set is `restore` of its records: the set itself, except that its
next id is one above the highest id that survives. -/

namespace KeyReader.Sidecar

open Annotations Checked Machine List

theorem utf8ByteSize_ofList {characters : List Char} (h : ∀ c ∈ characters, c.toNat < 128) :
    (String.ofList characters).utf8ByteSize = characters.length := by
  induction characters with
  | nil => rfl
  | cons c rest ih =>
    have hc : c.utf8Size = 1 := by
      rw [Char.utf8Size_eq_one_iff, UInt32.le_iff_toNat_le]
      exact Nat.le_of_lt_succ (h c mem_cons_self)
    rw [← singleton_append, String.ofList_append, String.utf8ByteSize_append,
      ih (forall_mem_cons.mp h).2, ← String.singleton_eq_ofList,
      String.utf8ByteSize_singleton, hc, length_append, length_singleton]

theorem decodeDigest_encodeDigest (digest : Digest) :
    decodeDigest (encodeDigest digest) = .ok digest := by
  have hascii := Hex.ascii_encode digest.bytes
  have hsize : (encodeDigest digest).utf8ByteSize = 64 := by
    rw [encodeDigest, utf8ByteSize_ofList hascii, Hex.length_encode, digest.length_eq]
  have hall : (encodeDigest digest).toList.all (·.toNat < 128) := by
    rw [encodeDigest, String.toList_ofList, all_eq_true]
    exact fun c hc => decide_eq_true (hascii c hc)
  have hdecode : Hex.decodeBytes (encodeDigest digest).toList = some digest.bytes := by
    rw [encodeDigest, String.toList_ofList, Hex.decodeBytes_encode]
  rw [decodeDigest, unit_bind_eq_ok]
  refine ⟨ensure_eq_ok.mpr ⟨hsize, hall⟩, ?_⟩
  simp only [hdecode, okOr, ok_bind, digest.length_eq, dite_true]

variable {identity : DocumentIdentity}

theorem intoIdentity_tryFrom {stored : StoredDocumentIdentity}
    (h : StoredDocumentIdentity.tryFrom identity = .ok stored) (requireDigest : Bool) :
    stored.intoIdentity requireDigest = .ok identity := by
  obtain ⟨byteLen, seconds, nanos, pageCount, sha256, hnanos⟩ := identity
  obtain ⟨count, hcount, h⟩ := bind_eq_ok.mp h
  obtain ⟨digest, hdigest, h⟩ := bind_eq_ok.mp h
  obtain ⟨rfl, hfits⟩ := tryFrom_eq_some.mp (okOr_eq_ok.mp hcount)
  simp only [okOr_eq_ok] at hdigest
  cases hdigest
  cases h
  simp only at hfits hcount
  simp only [StoredDocumentIdentity.intoIdentity, tryFrom_of_le hfits, okOr, ok_bind,
    decodeDigest_encodeDigest, DocumentIdentity.newWithContentSha256, DocumentIdentity.new, hnanos,
    dite_true]

theorem intoPosition_tryFrom {position : TextPosition} {stored : StoredPosition}
    (h : StoredPosition.tryFrom position = .ok stored) : stored.intoPosition = .ok position := by
  obtain ⟨page, hpage, h⟩ := bind_eq_ok.mp h
  obtain ⟨index, hindex, h⟩ := bind_eq_ok.mp h
  obtain ⟨rfl, hpage⟩ := tryFrom_eq_some.mp (okOr_eq_ok.mp hpage)
  obtain ⟨rfl, hindex⟩ := tryFrom_eq_some.mp (okOr_eq_ok.mp hindex)
  cases h
  simp only [StoredPosition.intoPosition, tryFrom_of_le hpage, tryFrom_of_le hindex, okOr, ok_bind]

theorem intoRestored_tryFrom {record : Annotation} {stored : StoredAnnotation}
    (h : StoredAnnotation.tryFrom record = .ok stored) : stored.intoRestored = .ok record := by
  obtain ⟨start, hstart, h⟩ := bind_eq_ok.mp h
  obtain ⟨stop, hstop, h⟩ := bind_eq_ok.mp h
  cases h
  simp only [ StoredAnnotation.intoRestored, intoPosition_tryFrom hstart,
    intoPosition_tryFrom hstop, ok_bind, TextRange.restore_eq, fromAnnotations, Except.mapError]

theorem collect_eq_ok_cons {α β : Type} {f : α → Except StoreError β} {a : α} {rest : List α}
    {result : List β} : collect f (a :: rest) = .ok result ↔
      ∃ b bs, f a = .ok b ∧ collect f rest = .ok bs ∧ result = b :: bs := by
  simp only [collect, bind_eq_ok, Except.ok.injEq]
  constructor
  · rintro ⟨b, hb, bs, hbs, rfl⟩
    exact ⟨b, bs, hb, hbs, rfl⟩
  · rintro ⟨b, bs, hb, hbs, rfl⟩
    exact ⟨b, hb, bs, hbs, rfl⟩

theorem collect_collect {α β : Type} {f : α → Except StoreError β} {g : β → Except StoreError α}
    (hg : ∀ {a b}, f a = .ok b → g b = .ok a) {as : List α} {bs : List β}
    (h : collect f as = .ok bs) : collect g bs = .ok as := by
  induction as generalizing bs with
  | nil =>
    cases h
    rfl
  | cons a rest ih =>
    obtain ⟨b, bs', hb, hbs, rfl⟩ := collect_eq_ok_cons.mp h
    exact collect_eq_ok_cons.mpr ⟨a, rest, hg hb, ih hbs, rfl⟩

variable {set : AnnotationSet} {stored : StoredSidecar}

theorem fromParts_eq_ok (h : StoredSidecar.fromParts identity set = .ok stored) :
    stored.schemaVersion = sidecarSchemaVersion ∧ stored.revision = set.revision ∧
      StoredDocumentIdentity.tryFrom identity = .ok stored.document ∧
      collect StoredAnnotation.tryFrom set.records = .ok stored.annotations := by
  obtain ⟨document, hdocument, h⟩ := bind_eq_ok.mp h
  obtain ⟨records, hrecords, h⟩ := bind_eq_ok.mp h
  cases h
  exact ⟨rfl, rfl, hdocument, hrecords⟩

/-- A stored sidecar restores to what `AnnotationSet.restore` makes of the records, for every
identity of the same revision. -/
theorem restore_fromParts {expected : DocumentIdentity}
    (h : StoredSidecar.fromParts identity set = .ok stored)
    (hsame : expected.sameRevision identity = true) : stored.restore expected =
      fromAnnotations (AnnotationSet.restore identity.pageCount set.revision set.records) := by
  obtain ⟨-, hrevision, hdocument, hrecords⟩ := fromParts_eq_ok h
  simp only [StoredSidecar.restore, intoIdentity_tryFrom hdocument, ok_bind, ensureIdentity,
    ensure, hsame, if_true, collect_collect intoRestored_tryFrom hrecords, hrevision]

variable {bytes : Bytes} {serde : Serde}

theorem encodeSidecar_eq_ok : encodeSidecar serde identity set = .ok bytes ↔
      validateSnapshot identity set = .ok () ∧ ∃ stored,
        StoredSidecar.fromParts identity set = .ok stored ∧
        serde.toVecPretty stored = .ok bytes ∧ bytes.length ≤ maxSidecarBytes := by
  rw [encodeSidecar, unit_bind_eq_ok, bind_eq_ok]
  refine and_congr_right fun _ => exists_congr fun stored => and_congr_right fun _ => ?_
  cases serde.toVecPretty stored with
  | error e => simp [ofJson, Except.mapError]
  | ok found =>
    simp only [ofJson, Except.mapError, ok_bind, unit_bind_eq_ok, ensure_eq_ok, Except.ok.injEq]
    constructor
    · rintro ⟨hle, rfl⟩
      exact ⟨rfl, hle⟩
    · rintro ⟨rfl, hle⟩
      exact ⟨hle, rfl⟩

theorem decodeSidecar_of_toVecPretty (hserde : serde.ReadsBack) (path : FilePath)
    (expected : DocumentIdentity) (hschema : stored.schemaVersion = sidecarSchemaVersion)
    (h : serde.toVecPretty stored = .ok bytes) :
    decodeSidecar serde path bytes expected = stored.restore expected := by
  simp only [decodeSidecar, hserde.probe h, hserde.sidecar h, ofJson, Except.mapError, ok_bind,
    hschema, ensure, or_true, if_true]

theorem decodeSidecar_encodeSidecar (hserde : serde.ReadsBack) (path : FilePath)
    {expected : DocumentIdentity} (hset : set.Valid) (hsame : expected.sameRevision identity = true)
    (h : encodeSidecar serde identity set = .ok bytes) :
    decodeSidecar serde path bytes expected = .ok set.restored := by
  obtain ⟨hvalid, stored, hstored, hbytes, -⟩ := encodeSidecar_eq_ok.mp h
  obtain ⟨hschema, -⟩ := fromParts_eq_ok hstored
  obtain ⟨hpages, -⟩ := validateSnapshot_eq_ok.mp hvalid
  rw [decodeSidecar_of_toVecPretty hserde path expected hschema hbytes,
    restore_fromParts hstored hsame, hpages, hset.restore]
  rfl

/-- The load of `bytes` gives `set` back, and goes on without handing out one of `ids` again. -/
def LoadsBack (serde : Serde) (path : FilePath) (identity : DocumentIdentity) (bytes : Bytes)
    (set : AnnotationSet) (ids : List Nat) : Prop :=
  ∃ loaded, decodeSidecar serde path bytes identity = .ok loaded ∧ loaded = set ∧
    ∀ edits, ∀ id ∈ ids, id ∉ (loaded.run edits).2

/-- A set saved after a run of edits loads back exactly when the run handed out no id, or the
record with the last id that it handed out was not deleted. -/
theorem loadsBack_iff {serde : Serde} (hserde : serde.ReadsBack) (path : FilePath)
    (identity : DocumentIdentity) (edits : List AnnotationSet.Edit) {bytes : Bytes}
    (hbytes : encodeSidecar serde identity
      ((AnnotationSet.new identity.pageCount).run edits).1 = .ok bytes) :
    LoadsBack serde path identity bytes ((AnnotationSet.new identity.pageCount).run edits).1
        ((AnnotationSet.new identity.pageCount).run edits).2 ↔
      ((AnnotationSet.new identity.pageCount).run edits).2 = [] ∨
        ∃ record ∈ ((AnnotationSet.new identity.pageCount).run edits).1.records,
          ((AnnotationSet.new identity.pageCount).run edits).2.getLast? = some record.id := by
  have haccounts := AnnotationSet.accounts_run identity.pageCount edits
  have hwell := (AnnotationSet.wellFormed_new identity.pageCount).run edits
  generalize (AnnotationSet.new identity.pageCount).run edits = run at *
  obtain ⟨set, ids⟩ := run
  simp only at *
  have hdecode := decodeSidecar_encodeSidecar hserde path hwell.toValid
    identity.sameRevision_self hbytes
  -- The ids are `1, …, n`: the last one is their number.
  have hlast : ∀ record : Annotation, ids.getLast? = some record.id ↔
      ids ≠ [] ∧ record.id = ids.length := by
    intro record
    conv_lhs => rw [haccounts.ids_eq]
    cases hids : ids with
    | nil => simp
    | cons a rest => simp [getLast?_range', eq_comm]
  have hcondition : (ids = [] ∨ ∃ record ∈ set.records, ids.getLast? = some record.id) ↔
      ids = [] ∨ ∃ record ∈ set.records, record.id = ids.length := by
    simp only [hlast]
    by_cases hids : ids = [] <;> simp [hids]
  rw [hcondition, ← haccounts.nextId_eq_iff, ← AnnotationSet.restored_eq_self_iff]
  constructor
  · rintro ⟨loaded, hloaded, rfl, -⟩
    rw [hdecode] at hloaded
    exact Except.ok.inj hloaded
  · intro hrestored
    refine ⟨set, by rw [hdecode, hrestored], rfl, fun more id hid hmore => ?_⟩
    exact (nodup_append.mp (haccounts.run more).nodup).2.2 id hid id hmore rfl

/-- A `Serde` for one value and its text. -/
def Serde.single (stored : StoredSidecar) (text : Bytes) : Serde where
  toVecPretty value := if value = stored then .ok text else .error "another value"
  probe bytes := if bytes = text then .ok ⟨stored.schemaVersion⟩ else .error "another text"
  fromSlice bytes := if bytes = text then .ok stored else .error "another text"

theorem Serde.readsBack_single (stored : StoredSidecar) (text : Bytes) :
    (Serde.single stored text).ReadsBack := by
  constructor <;>
  · intro value bytes h
    simp only [single] at h ⊢
    split at h
    · cases h
      simp_all
    · cases h

theorem encodeSidecar_single {identity : DocumentIdentity} {set : AnnotationSet}
    {stored : StoredSidecar} {text : Bytes} (hvalid : validateSnapshot identity set = .ok ())
    (hstored : StoredSidecar.fromParts identity set = .ok stored)
    (hsize : text.length ≤ maxSidecarBytes) :
    encodeSidecar (Serde.single stored text) identity set = .ok text := by
  rw [encodeSidecar, hvalid, ok_bind, hstored, ok_bind]
  simp [Serde.single, ofJson, Except.mapError, ensure, hsize]

def zeroDigest : Digest := ⟨replicate 32 0, rfl⟩

def onePage : DocumentIdentity where
  byteLen := 42
  modifiedUnixSeconds := 1700000000
  modifiedNanos := 12
  pageCount := 1
  contentSha256 := some zeroDigest
  nanos_lt := by decide

def onePagePath : FilePath := { directory := "", fileName := some "paper.pdf.gpui-pdf-reader.json" }

/-- A highlight that is added and then deleted. -/
def addThenDelete : List AnnotationSet.Edit :=
  [.add (TextRange.new ⟨0, 1⟩ ⟨0, 4⟩) (some .yellow) none, .delete 1]

/-- What is stored after `addThenDelete`. -/
def deletedSidecar : StoredSidecar where
  schemaVersion := 2
  document :=
    { byteLen := 42, modifiedUnixSeconds := 1700000000, modifiedNanos := 12, pageCount := 1
      contentSha256 := some (encodeDigest zeroDigest) }
  revision := 2
  annotations := []

/-- The text of `deletedSidecar`. -/
def deletedText : Bytes :=
  String.toUTF8 "\x7b
  \"schema_version\": 2,
  \"document\": \x7b
    \"byte_len\": 42,
    \"modified_unix_seconds\": 1700000000,
    \"modified_nanos\": 12,
    \"page_count\": 1,
    \"content_sha256\": \"0000000000000000000000000000000000000000000000000000000000000000\"
  \x7d,
  \"revision\": 2,
  \"annotations\": []
\x7d" |>.data.toList

set_option maxRecDepth 2000 in
theorem encodeSidecar_addThenDelete :
    encodeSidecar (Serde.single deletedSidecar deletedText) onePage
      ((AnnotationSet.new 1).run addThenDelete).1 = .ok deletedText :=
  encodeSidecar_single (by decide +kernel) (by decide +kernel)
    ((Utf8.length_toUTF8_le _).trans (by decide +kernel))

/-- The deleted highlight had the last id, so a load does not give the set back. -/
theorem not_loadsBack_addThenDelete : (Serde.single deletedSidecar deletedText).ReadsBack ∧
      encodeSidecar (Serde.single deletedSidecar deletedText) onePage
        ((AnnotationSet.new 1).run addThenDelete).1 = .ok deletedText ∧
      ¬LoadsBack (Serde.single deletedSidecar deletedText) onePagePath onePage deletedText
        ((AnnotationSet.new 1).run addThenDelete).1 ((AnnotationSet.new 1).run addThenDelete).2 := by
  refine ⟨Serde.readsBack_single _ _, encodeSidecar_addThenDelete, ?_⟩
  rintro ⟨loaded, hloaded, rfl, -⟩
  rw [decodeSidecar_encodeSidecar (Serde.readsBack_single _ _) onePagePath
    ((AnnotationSet.wellFormed_new 1).run _).toValid onePage.sameRevision_self
    encodeSidecar_addThenDelete] at hloaded
  exact absurd (Except.ok.inj hloaded) (by decide +kernel)

theorem loadsBack_iff_addThenDelete :
    LoadsBack (Serde.single deletedSidecar deletedText) onePagePath onePage deletedText
        ((AnnotationSet.new 1).run addThenDelete).1 ((AnnotationSet.new 1).run addThenDelete).2 ↔
      ((AnnotationSet.new 1).run addThenDelete).2 = [] ∨
        ∃ record ∈ ((AnnotationSet.new 1).run addThenDelete).1.records,
          ((AnnotationSet.new 1).run addThenDelete).2.getLast? = some record.id :=
  loadsBack_iff (Serde.readsBack_single _ _) onePagePath onePage addThenDelete
    encodeSidecar_addThenDelete

/-- What is loaded back is a set that can be edited on, and saving it stores the same bytes. -/
theorem decodeSidecar_saves {serde : Serde} (hserde : serde.ReadsBack) (path : FilePath)
    {identity expected : DocumentIdentity} {set : AnnotationSet} (hset : set.Reachable)
    (hsame : expected.sameRevision identity = true) {bytes : Bytes}
    (hbytes : encodeSidecar serde identity set = .ok bytes) :
    ∃ loaded, decodeSidecar serde path bytes expected = .ok loaded ∧ loaded.Reachable ∧
      loaded.records = set.records ∧ loaded.revision = set.revision ∧
        encodeSidecar serde identity loaded = .ok bytes := by
  have hvalid := hset.wellFormed.toValid
  exact ⟨set.restored, decodeSidecar_encodeSidecar hserde path hvalid hsame hbytes,
    .restore hvalid.restore, rfl, rfl, hbytes⟩

theorem decodeSidecar_saves_addThenDelete : ∃ loaded,
    decodeSidecar (Serde.single deletedSidecar deletedText) onePagePath deletedText onePage =
      .ok loaded ∧
    encodeSidecar (Serde.single deletedSidecar deletedText) onePage loaded = .ok deletedText :=
  (decodeSidecar_saves (Serde.readsBack_single ..) onePagePath ((AnnotationSet.Reachable.new 1).run _)
    onePage.sameRevision_self encodeSidecar_addThenDelete).imp fun _ h => ⟨h.1, h.2.2.2.2⟩

end KeyReader.Sidecar
