import KeyReader.Sidecar.Codec

/-! The two stores of annotations: the JSON sidecar next to a PDF, and the store in memory for
tests.  Both give the operations `load` and `compareAndSave`. -/

namespace KeyReader.Sidecar

open Annotations Checked

/-- The file at a PDF's path. -/
structure Pdf where
  byteLen : Nat
  modifiedUnixSeconds : Int
  modifiedNanos : Nat
  sha256 : Digest
  nanos_lt : modifiedNanos < 1000000000

namespace DocumentIdentity

def fromFileMetadata (pdf : Pdf) (pageCount : Nat) : DocumentIdentity where
  byteLen := pdf.byteLen
  modifiedUnixSeconds := pdf.modifiedUnixSeconds
  modifiedNanos := pdf.modifiedNanos
  pageCount := pageCount
  contentSha256 := none
  nanos_lt := pdf.nanos_lt

def fromFile (pdf : Pdf) (pageCount : Nat) : DocumentIdentity :=
  { fromFileMetadata pdf pageCount with contentSha256 := some pdf.sha256 }

end DocumentIdentity

def DocumentKey.fromPdf (path : FilePath) (pdf : Pdf) (pageCount : Nat) : DocumentKey :=
  ⟨path, .fromFile pdf pageCount⟩

/-- The content is read only when the metadata has changed. -/
def revalidateFile (pdf : Pdf) (document : DocumentKey) : Except StoreError Unit :=
  if document.identity.sameMetadataRevision
      (.fromFileMetadata pdf document.identity.pageCount) then .ok ()
  else ensureIdentity document.identity (.fromFile pdf document.identity.pageCount)

def decodeRead (serde : Serde) (path : FilePath) (size : Nat) (bytes : Bytes)
    (identity : DocumentIdentity) : Except StoreError AnnotationSet := do
  ensure (size ≤ maxSidecarBytes) (.sidecarTooLarge size maxSidecarBytes)
  let bytes := bytes.take (maxSidecarBytes + 1)
  ensure (bytes.length ≤ maxSidecarBytes) (.sidecarTooLarge bytes.length maxSidecarBytes)
  decodeSidecar serde path bytes identity

def loadAt (serde : Serde) (path : FilePath) (sidecar : Option Bytes)
    (identity : DocumentIdentity) : Except StoreError AnnotationSet :=
  match sidecar with
  | none => .error (.io "read annotation sidecar metadata" path .notFound)
  | some bytes => decodeRead serde path bytes.length bytes identity

/-- A missing sidecar is an empty set. -/
def orEmpty (identity : DocumentIdentity) :
    Except StoreError AnnotationSet → Except StoreError AnnotationSet
  | .error (.io _ _ .notFound) => .ok (.new identity.pageCount)
  | result => result

def loadOrEmpty (serde : Serde) (path : FilePath) (sidecar : Option Bytes)
    (identity : DocumentIdentity) : Except StoreError AnnotationSet :=
  orEmpty identity (loadAt serde path sidecar identity)

def checkRevisions (expectedRevision : Nat) (annotations current : AnnotationSet) :
    Except StoreError Unit := do
  ensure (current.revision = expectedRevision)
    (.conflict (.revisionMismatch expectedRevision current.revision))
  ensure (¬annotations.revision < current.revision)
    (.revisionRegression current.revision annotations.revision)
  ensure (¬(annotations.revision = current.revision ∧ annotations ≠ current))
    (.revisionNotAdvanced current.revision annotations.revision)

namespace JsonSidecarStore

/-- The files that the store reads and writes. -/
structure Disk where
  pdf : Pdf
  sidecar : Option Bytes

def load (serde : Serde) (disk : Disk) (document : DocumentKey) :
    Except StoreError AnnotationSet := do
  revalidateFile disk.pdf document
  let path ← sidecarPath document.sourcePath
  loadOrEmpty serde path disk.sidecar document.identity

/-- The bytes that a save writes and its receipt.  The lock, the second validation of the document
and the replacement of the sidecar happen on a disk that no one else touches meanwhile. -/
def planSave (serde : Serde) (disk : Disk) (document : DocumentKey) (expectedRevision : Nat)
    (annotations : AnnotationSet) : Except StoreError (Bytes × SaveReceipt) := do
  validateSnapshot document.identity annotations
  let path ← sidecarPath document.sourcePath
  revalidateFile disk.pdf document
  let current ← loadOrEmpty serde path disk.sidecar document.identity
  checkRevisions expectedRevision annotations current
  let bytes ← encodeSidecar serde document.identity annotations
  revalidateFile disk.pdf document
  .ok (bytes, ⟨current.revision, annotations.revision⟩)

def compareAndSave (serde : Serde) (disk : Disk) (document : DocumentKey) (expectedRevision : Nat)
    (annotations : AnnotationSet) :
    Except StoreError SaveReceipt × Disk :=
  match planSave serde disk document expectedRevision annotations with
  | .ok (bytes, receipt) => (.ok receipt, { disk with sidecar := some bytes })
  | .error error => (.error error, disk)

end JsonSidecarStore

structure MemoryEntry where
  identity : DocumentIdentity
  annotations : AnnotationSet

/-- Entries are keyed by source locator. -/
structure MemoryAnnotationStore where
  entries : FilePath → Option MemoryEntry

namespace MemoryAnnotationStore

def new : MemoryAnnotationStore := ⟨fun _ => none⟩

/-- The entry of a document at the same revision, or `none` when there is no entry. -/
def entry (store : MemoryAnnotationStore) (document : DocumentKey) :
    Except StoreError (Option MemoryEntry) :=
  match store.entries document.sourcePath with
  | none => .ok none
  | some entry => do
    ensure (entry.identity.sameRevision document.identity)
      (.conflict (.documentIdentityMismatch document.identity entry.identity))
    .ok (some entry)

section

variable (store : MemoryAnnotationStore) (document : DocumentKey)

def load : Except StoreError AnnotationSet := do
  let entry ← store.entry document
  match entry with
  | none => .ok (.new document.identity.pageCount)
  | some entry => .ok entry.annotations

def checkSave (expectedRevision : Nat)
    (annotations : AnnotationSet) : Except StoreError SaveReceipt := do
  ensure (annotations.pageCount = document.identity.pageCount)
    (.pageCountMismatch document.identity.pageCount annotations.pageCount)
  fromAnnotations annotations.validate
  let entry ← store.entry document
  let current := entry.elim 0 (·.annotations.revision)
  ensure (current = expectedRevision) (.conflict (.revisionMismatch expectedRevision current))
  ensure (¬annotations.revision < current) (.revisionRegression current annotations.revision)
  ensure (¬(annotations.revision = current ∧ entry.any (·.annotations ≠ annotations)))
    (.revisionNotAdvanced current annotations.revision)
  .ok ⟨current, annotations.revision⟩

def compareAndSave (expectedRevision : Nat) (annotations : AnnotationSet) :
    Except StoreError SaveReceipt × MemoryAnnotationStore :=
  match store.checkSave document expectedRevision annotations with
  | .ok receipt => (.ok receipt,
      ⟨Function.update store.entries document.sourcePath (some ⟨document.identity, annotations⟩)⟩)
  | .error error => (.error error, store)

end

end MemoryAnnotationStore

end KeyReader.Sidecar
