import KeyReader.Annotations.Set

/-! What a stored annotation set is anchored to: the identity of one revision of a PDF, the key
that pairs it with a location, and the errors of the stores. -/

namespace KeyReader.Sidecar

open Annotations Checked

/-- A SHA-256 digest. -/
structure Digest where
  bytes : List UInt8
  length_eq : bytes.length = 32
  deriving DecidableEq

/-- Immutable identity of the PDF revision to which annotations are anchored. -/
structure DocumentIdentity where
  byteLen : Nat
  modifiedUnixSeconds : Int
  modifiedNanos : Nat
  pageCount : Nat
  contentSha256 : Option Digest
  nanos_lt : modifiedNanos < 1000000000
  deriving DecidableEq

/-- A path by its directory and its last component, which a path such as `..` lacks. -/
structure FilePath where
  directory : String
  fileName : Option String
  deriving DecidableEq

/-- The kinds of `io::Error` that the stores tell apart. -/
inductive IoErrorKind
  | notFound
  | alreadyExists
  | other
  deriving DecidableEq

inductive StoreConflict
  | documentIdentityMismatch (expected found : DocumentIdentity)
  | revisionMismatch (expected found : Nat)
  deriving DecidableEq

inductive StoreError
  | io (operation : String) (path : FilePath) (source : IoErrorKind)
  | json (path : FilePath) (source : String)
  | annotations (error : AnnotationError)
  | conflict (conflict : StoreConflict)
  | missingSourceFileName
  | sidecarTooLarge (bytes limit : Nat)
  | unsupportedSchemaVersion (found supported : Nat)
  | invalidDocumentIdentity
  | invalidStoredTextPosition
  | pageCountMismatch (identity annotations : Nat)
  | revisionRegression (current attempted : Nat)
  | revisionNotAdvanced (current attempted : Nat)
  | lockPoisoned
  deriving DecidableEq

namespace DocumentIdentity

def new (byteLen : Nat) (modifiedUnixSeconds : Int) (modifiedNanos pageCount : Nat) :
    Except StoreError DocumentIdentity :=
  if h : modifiedNanos < 1000000000 then
    .ok { byteLen, modifiedUnixSeconds, modifiedNanos, pageCount, contentSha256 := none
          nanos_lt := h }
  else .error .invalidDocumentIdentity

def newWithContentSha256 (byteLen : Nat) (modifiedUnixSeconds : Int) (modifiedNanos pageCount : Nat)
    (contentSha256 : Digest) :
    Except StoreError DocumentIdentity := do
  let identity ← new byteLen modifiedUnixSeconds modifiedNanos pageCount
  .ok { identity with contentSha256 := some contentSha256 }

def sameMetadataRevision (identity other : DocumentIdentity) : Bool :=
  identity.byteLen == other.byteLen && identity.modifiedUnixSeconds == other.modifiedUnixSeconds &&
    identity.modifiedNanos == other.modifiedNanos && identity.pageCount == other.pageCount

/-- Compares the content when both identities carry a digest, and the metadata otherwise. -/
def sameRevision (identity other : DocumentIdentity) : Bool :=
  match identity.contentSha256, other.contentSha256 with
  | some left, some right =>
    identity.byteLen == other.byteLen && identity.pageCount == other.pageCount && left == right
  | _, _ => identity.sameMetadataRevision other

@[simp] theorem sameRevision_self (identity : DocumentIdentity) :
    identity.sameRevision identity = true := by
  unfold sameRevision
  split <;> simp_all [sameMetadataRevision]

end DocumentIdentity

/-- Storage locator paired with the document revision it is allowed to read or update. -/
structure DocumentKey where
  sourcePath : FilePath
  identity : DocumentIdentity

structure SaveReceipt where
  previousRevision : Nat
  savedRevision : Nat
  deriving DecidableEq

/-- An annotation error as a store error: `?` converts the one to the other. -/
def fromAnnotations {α : Type} (result : Except AnnotationError α) : Except StoreError α :=
  result.mapError .annotations

@[simp] theorem fromAnnotations_eq_ok {α : Type} {result : Except AnnotationError α} {a : α} :
    fromAnnotations result = .ok a ↔ result = .ok a := by
  cases result <;> simp [fromAnnotations, Except.mapError]

def validateSnapshot (identity : DocumentIdentity) (annotations : AnnotationSet) :
    Except StoreError Unit := do
  ensure (identity.pageCount = annotations.pageCount)
    (.pageCountMismatch identity.pageCount annotations.pageCount)
  fromAnnotations annotations.validate

def ensureIdentity (expected found : DocumentIdentity) : Except StoreError Unit :=
  ensure (expected.sameRevision found) (.conflict (.documentIdentityMismatch expected found))

def sidecarSuffix : String := ".gpui-pdf-reader.json"

def sidecarPath (pdfPath : FilePath) : Except StoreError FilePath := do
  let fileName ← okOr pdfPath.fileName .missingSourceFileName
  .ok { pdfPath with fileName := some (fileName ++ sidecarSuffix) }

theorem validateSnapshot_eq_ok {identity : DocumentIdentity} {annotations : AnnotationSet} :
    validateSnapshot identity annotations = .ok () ↔
      identity.pageCount = annotations.pageCount ∧ annotations.validate = .ok () := by
  simp only [validateSnapshot, unit_bind_eq_ok, ensure_eq_ok, fromAnnotations_eq_ok]

end KeyReader.Sidecar
