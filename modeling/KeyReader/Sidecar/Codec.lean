import KeyReader.Annotations.History
import KeyReader.Hex
import KeyReader.Sidecar.Identity

/-! The sidecar of a document: the stored form of an identity and an annotation set, its encoding
to bytes and the decoding of bytes for an expected identity. -/

namespace KeyReader.Sidecar

open Annotations Checked

def sidecarSchemaVersion : Nat := 2

def legacySidecarSchemaVersion : Nat := 1

def maxSidecarBytes : Nat := 4 * 1024 * 1024

structure SchemaProbe where
  schemaVersion : Nat

structure StoredDocumentIdentity where
  byteLen : Nat
  modifiedUnixSeconds : Int
  modifiedNanos : Nat
  pageCount : Nat
  contentSha256 : Option String
  deriving DecidableEq

structure StoredPosition where
  page : Nat
  index : Nat
  deriving DecidableEq

structure StoredAnnotation where
  id : Nat
  start : StoredPosition
  stop : StoredPosition
  highlight : Option HighlightColor
  commentMarkdown : Option String
  createdRevision : Nat
  updatedRevision : Nat
  deriving DecidableEq

structure StoredSidecar where
  schemaVersion : Nat
  document : StoredDocumentIdentity
  revision : Nat
  annotations : List StoredAnnotation
  deriving DecidableEq

abbrev Bytes := List UInt8

/-- The part of `serde_json` that the sidecars use.  A value outside the machine ranges of the
stored fields, which the source cannot build, has no text. -/
structure Serde where
  toVecPretty : StoredSidecar → Except String Bytes
  probe : Bytes → Except String SchemaProbe
  fromSlice : Bytes → Except String StoredSidecar

/-- `serde_json` reads back exactly the value that it wrote. -/
structure Serde.ReadsBack (serde : Serde) : Prop where
  sidecar : ∀ {stored bytes}, serde.toVecPretty stored = .ok bytes →
    serde.fromSlice bytes = .ok stored
  probe : ∀ {stored bytes}, serde.toVecPretty stored = .ok bytes →
    serde.probe bytes = .ok ⟨stored.schemaVersion⟩

def encodeDigest (digest : Digest) : String := String.ofList (digest.bytes.flatMap Hex.encodeByte)

def decodeDigest (encoded : String) : Except StoreError Digest := do
  ensure (encoded.utf8ByteSize = 64 ∧ encoded.toList.all (·.toNat < 128)) .invalidDocumentIdentity
  let bytes ← okOr (Hex.decodeBytes encoded.toList) .invalidDocumentIdentity
  if h : bytes.length = 32 then .ok ⟨bytes, h⟩ else .error .invalidDocumentIdentity

def StoredDocumentIdentity.tryFrom (identity : DocumentIdentity) :
    Except StoreError StoredDocumentIdentity := do
  let pageCount ← okOr (Machine.tryFrom identity.pageCount) .invalidDocumentIdentity
  let digest ← okOr identity.contentSha256 .invalidDocumentIdentity
  .ok { byteLen := identity.byteLen
        modifiedUnixSeconds := identity.modifiedUnixSeconds
        modifiedNanos := identity.modifiedNanos
        pageCount
        contentSha256 := some (encodeDigest digest) }

def StoredDocumentIdentity.intoIdentity (stored : StoredDocumentIdentity) (requireDigest : Bool) :
    Except StoreError DocumentIdentity := do
  let pageCount ← okOr (Machine.tryFrom stored.pageCount) .invalidDocumentIdentity
  match stored.contentSha256 with
  | some encoded => do
    let digest ← decodeDigest encoded
    DocumentIdentity.newWithContentSha256 stored.byteLen stored.modifiedUnixSeconds
      stored.modifiedNanos pageCount digest
  | none => do
    ensure (requireDigest = false) .invalidDocumentIdentity
    DocumentIdentity.new stored.byteLen stored.modifiedUnixSeconds stored.modifiedNanos pageCount

def StoredPosition.tryFrom (position : TextPosition) : Except StoreError StoredPosition := do
  let page ← okOr (Machine.tryFrom position.page) .invalidStoredTextPosition
  let index ← okOr (Machine.tryFrom position.index) .invalidStoredTextPosition
  .ok { page, index }

def StoredPosition.intoPosition (stored : StoredPosition) : Except StoreError TextPosition := do
  let page ← okOr (Machine.tryFrom stored.page) .invalidStoredTextPosition
  let index ← okOr (Machine.tryFrom stored.index) .invalidStoredTextPosition
  .ok { page, index }

def StoredAnnotation.tryFrom (record : Annotation) : Except StoreError StoredAnnotation := do
  let start ← StoredPosition.tryFrom record.range.start
  let stop ← StoredPosition.tryFrom record.range.stop
  .ok { id := record.id, start, stop, highlight := record.highlight
        commentMarkdown := record.commentMarkdown
        createdRevision := record.createdRevision
        updatedRevision := record.updatedRevision }

def StoredAnnotation.intoRestored (stored : StoredAnnotation) :
    Except StoreError RestoredAnnotation := do
  let start ← stored.start.intoPosition
  let stop ← stored.stop.intoPosition
  let range ← fromAnnotations (TextRange.restore start stop)
  .ok { id := stored.id, range, highlight := stored.highlight
        commentMarkdown := stored.commentMarkdown
        createdRevision := stored.createdRevision
        updatedRevision := stored.updatedRevision }

/-- `map` of a fallible function and `collect` into a result: the first error ends it. -/
def collect {α β : Type} (f : α → Except StoreError β) : List α → Except StoreError (List β)
  | [] => .ok []
  | a :: rest => do
    let b ← f a
    let bs ← collect f rest
    .ok (b :: bs)

def StoredSidecar.fromParts (identity : DocumentIdentity) (annotations : AnnotationSet) :
    Except StoreError StoredSidecar := do
  let document ← StoredDocumentIdentity.tryFrom identity
  let records ← collect StoredAnnotation.tryFrom annotations.records
  .ok { schemaVersion := sidecarSchemaVersion, document, revision := annotations.revision
        annotations := records }

def ofJson {α : Type} (path : FilePath) (result : Except String α) : Except StoreError α :=
  result.mapError (.json path)

def memoryPath : FilePath := { directory := "", fileName := some "<memory>" }

def encodeSidecar (serde : Serde) (identity : DocumentIdentity) (annotations : AnnotationSet) :
    Except StoreError Bytes := do
  validateSnapshot identity annotations
  let stored ← StoredSidecar.fromParts identity annotations
  let bytes ← ofJson memoryPath (serde.toVecPretty stored)
  ensure (bytes.length ≤ maxSidecarBytes) (.sidecarTooLarge bytes.length maxSidecarBytes)
  .ok bytes

def StoredSidecar.restore (stored : StoredSidecar) (expectedIdentity : DocumentIdentity) :
    Except StoreError AnnotationSet := do
  let identity ← stored.document.intoIdentity (stored.schemaVersion == sidecarSchemaVersion)
  ensureIdentity expectedIdentity identity
  let records ← collect StoredAnnotation.intoRestored stored.annotations
  fromAnnotations (AnnotationSet.restore identity.pageCount stored.revision records)

def decodeSidecar (serde : Serde) (path : FilePath) (bytes : Bytes)
    (expectedIdentity : DocumentIdentity) : Except StoreError AnnotationSet := do
  let probe ← ofJson path (serde.probe bytes)
  ensure (probe.schemaVersion = legacySidecarSchemaVersion ∨
      probe.schemaVersion = sidecarSchemaVersion)
    (.unsupportedSchemaVersion probe.schemaVersion sidecarSchemaVersion)
  let stored ← ofJson path (serde.fromSlice bytes)
  stored.restore expectedIdentity

end KeyReader.Sidecar
