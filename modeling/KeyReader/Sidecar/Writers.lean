import KeyReader.Sidecar.RoundTrip
import KeyReader.Sidecar.Store
import Mathlib.Logic.Relation

/-! Saves that run at the same time.  Each writer makes one call of `compare_and_save`, in steps
that can interleave with those of the others: a step is one operation on the file system, which may
fail, with the decisions that follow from it.  The lock of the PDF and the rename are atomic. -/

namespace KeyReader.Sidecar

open Annotations Checked

/-- One call of `compare_and_save`. -/
structure Writer where
  document : DocumentKey
  expectedRevision : Nat
  annotations : AnnotationSet

def maxTempFileAttempts : Nat := 32

/-- The sidecar's name with the process id and a number of the process. -/
def temporaryPath (target : FilePath) (name : String) (process sequence : Nat) : FilePath :=
  { target with fileName := some (name ++ ".tmp-" ++ toString process ++ "-" ++ toString sequence) }

/-- Where a writer is in its call.  The phases from `validating` to `unlocking` hold the lock. -/
inductive Phase
  | start
  | opening
  | locking
  | validating
  | validatingPath
  | sizing
  | reading (size : Nat)
  | confirming (current : AnnotationSet) (bytes : Bytes)
  | confirmingPath (current : AnnotationSet) (bytes : Bytes)
  | creating (current : AnnotationSet) (bytes : Bytes) (attempts : Nat)
  | writing (current : AnnotationSet) (bytes : Bytes) (temporary : FilePath)
  | replacing (current : AnnotationSet) (bytes : Bytes) (temporary : FilePath)
  | removing (temporary : FilePath) (error : StoreError)
  | unlocking (result : Except StoreError SaveReceipt)
  | finished (result : Except StoreError SaveReceipt)

def Phase.Holding : Phase → Prop
  | start | opening | locking | finished _ => False
  | _ => True

/-- The files next to the PDF, the holder of the PDF's lock and the phases of the writers. -/
structure World (ι : Type) where
  files : FilePath → Option Bytes
  lock : Option ι
  phase : ι → Phase

/-- What a validation of the document can find: the PDF may change at any time. -/
inductive Validation (document : DocumentKey) : Except StoreError Unit → Prop
  | seen (pdf : Pdf) : Validation document (revalidateFile pdf document)
  | unstable : Validation document (.error .invalidDocumentIdentity)
  | failed (operation : String) (source : IoErrorKind) :
      Validation document (.error (.io operation document.sourcePath source))

/-- What follows from the sidecar that was read: the checks and the encoding. -/
def prepare (serde : Serde) (writer : Writer) (current : AnnotationSet) :
    Except StoreError Bytes := do
  checkRevisions writer.expectedRevision writer.annotations current
  encodeSidecar serde writer.document.identity writer.annotations

def readCurrent (serde : Serde) (sidecar : FilePath) (writer : Writer) (size : Nat)
    (file : Option Bytes) : Except StoreError AnnotationSet :=
  orEmpty writer.document.identity <| match file with
    | none => .error (.io "open annotation sidecar" sidecar .notFound)
    | some bytes => decodeRead serde sidecar size bytes writer.document.identity

section

variable {ι : Type} [DecidableEq ι]

def World.enter (world : World ι) (i : ι) (phase : Phase) : World ι :=
  { world with phase := Function.update world.phase i phase }

def World.write (world : World ι) (path : FilePath) (content : Option Bytes) : World ι :=
  { world with files := Function.update world.files path content }

/-- One step of writer `i`, which makes the call `writer`, on the sidecar of its document. -/
inductive Step (serde : Serde) (sidecar : FilePath) (writer : Writer) (i : ι) :
    World ι → World ι → Prop
  | reject {world : World ι} {error : StoreError} (hphase : world.phase i = .start)
      (h : (validateSnapshot writer.document.identity writer.annotations >>= fun _ =>
        sidecarPath writer.document.sourcePath) = .error error) :
      Step serde sidecar writer i world (world.enter i (.finished (.error error)))
  | accept {world : World ι} (hphase : world.phase i = .start)
      (h : (validateSnapshot writer.document.identity writer.annotations >>= fun _ =>
        sidecarPath writer.document.sourcePath) = .ok sidecar) :
      Step serde sidecar writer i world (world.enter i .opening)
  | openFailed {world : World ι} (hphase : world.phase i = .opening) (source : IoErrorKind) :
      Step serde sidecar writer i world (world.enter i (.finished (.error
        (.io "open PDF for annotation lock" writer.document.sourcePath source))))
  | opened {world : World ι} (hphase : world.phase i = .opening) :
      Step serde sidecar writer i world (world.enter i .locking)
  | lockFailed {world : World ι} (hphase : world.phase i = .locking) (source : IoErrorKind) :
      Step serde sidecar writer i world (world.enter i (.finished (.error
        (.io "lock PDF for annotation save" writer.document.sourcePath source))))
  | locked {world : World ι} (hphase : world.phase i = .locking) (hfree : world.lock = none) :
      Step serde sidecar writer i world { world.enter i .validating with lock := some i }
  | invalid {world : World ι} {error : StoreError} (hphase : world.phase i = .validating)
      (h : Validation writer.document (.error error)) :
      Step serde sidecar writer i world (world.enter i (.unlocking (.error error)))
  | valid {world : World ι} (hphase : world.phase i = .validating)
      (h : Validation writer.document (.ok ())) :
      Step serde sidecar writer i world (world.enter i .validatingPath)
  | invalidPath {world : World ι} {error : StoreError} (hphase : world.phase i = .validatingPath)
      (h : Validation writer.document (.error error)) :
      Step serde sidecar writer i world (world.enter i (.unlocking (.error error)))
  | validPath {world : World ι} (hphase : world.phase i = .validatingPath)
      (h : Validation writer.document (.ok ())) :
      Step serde sidecar writer i world (world.enter i .sizing)
  | sizeFailed {world : World ι} (hphase : world.phase i = .sizing) (source : IoErrorKind)
      (hsource : source ≠ .notFound) :
      Step serde sidecar writer i world (world.enter i (.unlocking (.error
        (.io "read annotation sidecar metadata" sidecar source))))
  | sized {world : World ι} (hphase : world.phase i = .sizing) :
      Step serde sidecar writer i world
        (world.enter i (.reading ((world.files sidecar).elim 0 List.length)))
  | readFailed {world : World ι} {size : Nat} (hphase : world.phase i = .reading size)
      (operation : String) (source : IoErrorKind) (hsource : source ≠ .notFound) :
      Step serde sidecar writer i world
        (world.enter i (.unlocking (.error (.io operation sidecar source))))
  | refused {world : World ι} {size : Nat} {error : StoreError}
      (hphase : world.phase i = .reading size)
      (h : (readCurrent serde sidecar writer size (world.files sidecar) >>=
        prepare serde writer) = .error error) :
      Step serde sidecar writer i world (world.enter i (.unlocking (.error error)))
  | prepared {world : World ι} {size : Nat} {current : AnnotationSet} {bytes : Bytes}
      (hphase : world.phase i = .reading size)
      (hread : readCurrent serde sidecar writer size (world.files sidecar) = .ok current)
      (hprepare : prepare serde writer current = .ok bytes) :
      Step serde sidecar writer i world (world.enter i (.confirming current bytes))
  | unconfirmed {world : World ι} {current : AnnotationSet} {bytes : Bytes} {error : StoreError}
      (hphase : world.phase i = .confirming current bytes)
      (h : Validation writer.document (.error error)) :
      Step serde sidecar writer i world (world.enter i (.unlocking (.error error)))
  | confirmed {world : World ι} {current : AnnotationSet} {bytes : Bytes}
      (hphase : world.phase i = .confirming current bytes)
      (h : Validation writer.document (.ok ())) :
      Step serde sidecar writer i world (world.enter i (.confirmingPath current bytes))
  | unconfirmedPath {world : World ι} {current : AnnotationSet} {bytes : Bytes}
      {error : StoreError} (hphase : world.phase i = .confirmingPath current bytes)
      (h : Validation writer.document (.error error)) :
      Step serde sidecar writer i world (world.enter i (.unlocking (.error error)))
  | confirmedPath {world : World ι} {current : AnnotationSet} {bytes : Bytes}
      (hphase : world.phase i = .confirmingPath current bytes)
      (h : Validation writer.document (.ok ())) :
      Step serde sidecar writer i world (world.enter i (.creating current bytes 0))
  | collided {world : World ι} {current : AnnotationSet} {bytes : Bytes} {attempts : Nat}
      (hphase : world.phase i = .creating current bytes attempts)
      (hattempts : attempts < maxTempFileAttempts) :
      Step serde sidecar writer i world (world.enter i (.creating current bytes (attempts + 1)))
  | created {world : World ι} {current : AnnotationSet} {bytes : Bytes} {attempts : Nat}
      {name : String} {process sequence : Nat}
      (hphase : world.phase i = .creating current bytes attempts)
      (hattempts : attempts < maxTempFileAttempts) (hname : sidecar.fileName = some name)
      (hnew : world.files (temporaryPath sidecar name process sequence) = none) :
      Step serde sidecar writer i world
        ((world.write (temporaryPath sidecar name process sequence) (some [])).enter i
          (.writing current bytes (temporaryPath sidecar name process sequence)))
  | createFailed {world : World ι} {current : AnnotationSet} {bytes : Bytes} {attempts : Nat}
      (hphase : world.phase i = .creating current bytes attempts) (operation : String)
      (path : FilePath) (source : IoErrorKind) :
      Step serde sidecar writer i world
        (world.enter i (.unlocking (.error (.io operation path source))))
  | written {world : World ι} {current : AnnotationSet} {bytes : Bytes} {temporary : FilePath}
      (hphase : world.phase i = .writing current bytes temporary) :
      Step serde sidecar writer i world
        ((world.write temporary (some bytes)).enter i (.replacing current bytes temporary))
  | writeFailed {world : World ι} {current : AnnotationSet} {bytes : Bytes}
      {temporary : FilePath} (hphase : world.phase i = .writing current bytes temporary)
      (part : Bytes) (source : IoErrorKind) :
      Step serde sidecar writer i world
        ((world.write temporary (some part)).enter i (.removing temporary
          (.io "write annotation sidecar temporary file" temporary source)))
  | renamed {world : World ι} {current : AnnotationSet} {bytes : Bytes} {temporary : FilePath}
      (hphase : world.phase i = .replacing current bytes temporary) :
      Step serde sidecar writer i world
        (((world.write sidecar (world.files temporary)).write temporary none).enter i
          (.unlocking (.ok ⟨current.revision, writer.annotations.revision⟩)))
  | renameFailed {world : World ι} {current : AnnotationSet} {bytes : Bytes}
      {temporary : FilePath} (hphase : world.phase i = .replacing current bytes temporary)
      (source : IoErrorKind) :
      Step serde sidecar writer i world (world.enter i (.removing temporary
        (.io "atomically replace annotation sidecar" sidecar source)))
  | removed {world : World ι} {temporary : FilePath} {error : StoreError}
      (hphase : world.phase i = .removing temporary error) (content : Option Bytes)
      (hcontent : content = none ∨ content = world.files temporary) :
      Step serde sidecar writer i world
        ((world.write temporary content).enter i (.unlocking (.error error)))
  | unlocked {world : World ι} {result : Except StoreError SaveReceipt}
      (hphase : world.phase i = .unlocking result) :
      Step serde sidecar writer i world { world.enter i (.finished result) with lock := none }

def AnyStep (serde : Serde) (sidecar : FilePath) (writers : ι → Writer) (before after : World ι) :
    Prop :=
  ∃ i, Step serde sidecar (writers i) i before after

/-- No call has begun. -/
structure Initial (world : World ι) : Prop where
  phase : ∀ i, world.phase i = .start
  lock : world.lock = none

end

/-- The revision and the records of a sidecar, where a missing one is empty. -/
def Contents (serde : Serde) : Option Bytes → Nat → List Annotation → Prop
  | none, revision, records => revision = 0 ∧ records = []
  | some bytes, revision, records => ∃ path identity set,
    decodeSidecar serde path bytes identity = .ok set ∧ set.revision = revision ∧
      set.records = records

def Current (serde : Serde) (sidecar : FilePath) (writer : Writer) (file : Option Bytes)
    (current : AnnotationSet) : Prop :=
  match file with
  | none => current = .new writer.document.identity.pageCount
  | some bytes => decodeSidecar serde sidecar bytes writer.document.identity = .ok current

/-- A result that is no I/O error. -/
def NotIo {α : Type} (result : Except StoreError α) : Prop :=
  ∀ operation path source, result ≠ .error (.io operation path source)

theorem NotIo.bind {α β : Type} {x : Except StoreError α} {f : α → Except StoreError β}
    (hx : NotIo x) (hf : ∀ a, NotIo (f a)) : NotIo (x >>= f) := by
  intro operation path source h
  rcases bind_eq_error.mp h with h | ⟨a, -, h⟩
  · exact hx _ _ _ h
  · exact hf a _ _ _ h

theorem notIo_ok {α : Type} (a : α) : NotIo (.ok a : Except StoreError α) := by
  intro _ _ _ h
  cases h

theorem notIo_ensure {condition : Prop} [Decidable condition] {error : StoreError}
    (h : ∀ operation path source, error ≠ .io operation path source) :
    NotIo (ensure condition error) := by
  intro operation path source herror
  exact h _ _ _ (ensure_eq_error.mp herror).2

theorem notIo_okOr {α : Type} {value : Option α} {error : StoreError}
    (h : ∀ operation path source, error ≠ .io operation path source) :
    NotIo (okOr value error) := by
  intro operation path source herror
  cases value with
  | none => exact h _ _ _ (Except.error.inj herror)
  | some a => cases herror

theorem notIo_fromAnnotations {α : Type} (result : Except AnnotationError α) :
    NotIo (fromAnnotations result) := by
  cases result <;> simp [NotIo, fromAnnotations, Except.mapError]

theorem notIo_ofJson {α : Type} (path : FilePath) (result : Except String α) :
    NotIo (ofJson path result) := by
  cases result <;> simp [NotIo, ofJson, Except.mapError]

theorem notIo_collect {α β : Type} {f : α → Except StoreError β} (hf : ∀ a, NotIo (f a))
    (as : List α) : NotIo (collect f as) := by
  induction as with
  | nil => exact notIo_ok _
  | cons a rest ih => exact (hf a).bind fun b => ih.bind fun bs => notIo_ok _

theorem notIo_intoPosition (stored : StoredPosition) : NotIo stored.intoPosition :=
  (notIo_okOr (by simp)).bind fun _ => (notIo_okOr (by simp)).bind fun _ => notIo_ok _

theorem notIo_intoRestored (stored : StoredAnnotation) : NotIo stored.intoRestored :=
  (notIo_intoPosition _).bind fun _ => (notIo_intoPosition _).bind fun _ =>
    (notIo_fromAnnotations _).bind fun _ => notIo_ok _

theorem notIo_new (byteLen : Nat) (seconds : Int) (nanos pageCount : Nat) :
    NotIo (DocumentIdentity.new byteLen seconds nanos pageCount) := by
  unfold DocumentIdentity.new
  split <;> simp [NotIo]

theorem notIo_decodeDigest (encoded : String) : NotIo (decodeDigest encoded) := by
  refine (notIo_ensure (by simp)).bind fun _ => (notIo_okOr (by simp)).bind fun bytes => ?_
  split <;> simp [NotIo]

theorem notIo_intoIdentity (stored : StoredDocumentIdentity) (requireDigest : Bool) :
    NotIo (stored.intoIdentity requireDigest) := by
  refine (notIo_okOr (by simp)).bind fun pageCount => ?_
  split
  · exact (notIo_decodeDigest _).bind fun _ => (notIo_new _ _ _ _).bind fun _ => notIo_ok _
  · exact (notIo_ensure (by simp)).bind fun _ => notIo_new _ _ _ _

theorem notIo_decodeRead (serde : Serde) (path : FilePath) (size : Nat) (bytes : Bytes)
    (identity : DocumentIdentity) : NotIo (decodeRead serde path size bytes identity) := by
  refine (notIo_ensure (by simp)).bind fun _ => (notIo_ensure (by simp)).bind fun _ =>
    (notIo_ofJson _ _).bind fun _ => (notIo_ensure (by simp)).bind fun _ =>
    (notIo_ofJson _ _).bind fun stored => ?_
  exact (notIo_intoIdentity _ _).bind fun _ => (notIo_ensure (by simp)).bind fun _ =>
    (notIo_collect notIo_intoRestored _).bind fun _ => notIo_fromAnnotations _

theorem current_of_readCurrent {serde : Serde} {sidecar : FilePath} {writer : Writer} {size : Nat}
    {file : Option Bytes} {current : AnnotationSet}
    (h : readCurrent serde sidecar writer size file = .ok current) :
    Current serde sidecar writer file current := by
  cases file with
  | none => exact (Except.ok.inj h).symm
  | some bytes =>
    have hread : decodeRead serde sidecar size bytes writer.document.identity = .ok current := by
      have hnot := notIo_decodeRead serde sidecar size bytes writer.document.identity
      unfold readCurrent orEmpty at h
      split at h
      · exact absurd ‹_› (hnot _ _ _)
      · exact h
    simp only [decodeRead, unit_bind_eq_ok, ensure_eq_ok] at hread
    obtain ⟨-, hle, hdecode⟩ := hread
    have htake : bytes.take (maxSidecarBytes + 1) = bytes := by
      rw [List.length_take] at hle
      exact List.take_of_length_le (by omega)
    rwa [htake] at hdecode

end KeyReader.Sidecar
