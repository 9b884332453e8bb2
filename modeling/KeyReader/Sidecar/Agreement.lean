import KeyReader.Sidecar.RoundTrip
import KeyReader.Sidecar.Store

/-! The two stores side by side.  The sidecar always holds the encoding of what the store in memory
holds, so the answers differ only where a call sees the next id, which the sidecar does not keep. -/

namespace KeyReader.Sidecar

open Annotations Checked Option

/-- A call of a store's operations. -/
inductive Call
  | load
  | compareAndSave (expectedRevision : Nat) (annotations : AnnotationSet)

inductive Answer
  | loaded (result : Except StoreError AnnotationSet)
  | saved (result : Except StoreError SaveReceipt)
  deriving DecidableEq

def StoreError.SameVariant : StoreError → StoreError → Prop
  | .conflict left, .conflict right => left.ctorIdx = right.ctorIdx
  | left, right => left.ctorIdx = right.ctorIdx

def SameResult {α : Type} : Except StoreError α → Except StoreError α → Prop
  | .ok a, .ok b => a = b
  | .error left, .error right => left.SameVariant right
  | _, _ => False

def Answer.Agrees : Answer → Answer → Prop
  | .loaded left, .loaded right => SameResult left right
  | .saved left, .saved right => SameResult left right
  | _, _ => False

theorem sameResult_refl {α : Type} (result : Except StoreError α) : SameResult result result := by
  cases result with
  | ok a => rfl
  | error e => cases e <;> rfl

namespace JsonSidecarStore

def answer (serde : Serde) (document : DocumentKey) (disk : Disk) : Call → Answer × Disk
  | .load => (.loaded (load serde disk document), disk)
  | .compareAndSave expectedRevision annotations =>
    let (result, disk) := compareAndSave serde disk document expectedRevision annotations
    (.saved result, disk)

def answers (serde : Serde) (document : DocumentKey) (disk : Disk) : List Call → List Answer
  | [] => []
  | call :: calls =>
    let (first, disk) := answer serde document disk call
    first :: answers serde document disk calls

end JsonSidecarStore

namespace MemoryAnnotationStore

def answer (document : DocumentKey) (store : MemoryAnnotationStore) :
    Call → Answer × MemoryAnnotationStore
  | .load => (.loaded (store.load document), store)
  | .compareAndSave expectedRevision annotations =>
    let (result, store) := store.compareAndSave document expectedRevision annotations
    (.saved result, store)

def answers (document : DocumentKey) (store : MemoryAnnotationStore) : List Call → List Answer
  | [] => []
  | call :: calls =>
    let (first, store) := answer document store call
    first :: answers document store calls

def stored (store : MemoryAnnotationStore) (document : DocumentKey) : Option AnnotationSet :=
  (store.entries document.sourcePath).map (·.annotations)

end MemoryAnnotationStore

/-- A call does not see the next id of the stored set: a load does, and so does a save of the
stored set, as it is or as a restore gives it, over itself. -/
def Call.SeesNextId (stored : AnnotationSet) : Call → Prop
  | .load => True
  | .compareAndSave expectedRevision annotations =>
    expectedRevision = stored.revision ∧ (annotations = stored ∨ annotations = stored.restored)

def SeenNextIdsRestored (document : DocumentKey) (store : MemoryAnnotationStore) : List Call → Prop
  | [] => True
  | call :: calls =>
    (∀ set, store.stored document = some set → call.SeesNextId set → set.restored = set) ∧
      SeenNextIdsRestored document (store.answer document call).2 calls

/-- A save brings a set that the operations built, and the encoding of a set that passes the checks
meets no limit. -/
def Call.Admissible (serde : Serde) (document : DocumentKey) : Call → Prop
  | .load => True
  | .compareAndSave _ annotations => annotations.Reachable ∧
    (validateSnapshot document.identity annotations = .ok () →
      ∃ bytes, encodeSidecar serde document.identity annotations = .ok bytes)

@[simp] theorem revalidateFile_fromPdf (path : FilePath) (pdf : Pdf) (pageCount : Nat) :
    revalidateFile pdf (.fromPdf path pdf pageCount) = .ok () := by
  simp [revalidateFile, DocumentKey.fromPdf, DocumentIdentity.fromFile,
    DocumentIdentity.fromFileMetadata, DocumentIdentity.sameMetadataRevision]

structure Mirrors (serde : Serde) (document : DocumentKey) (disk : JsonSidecarStore.Disk)
    (store : MemoryAnnotationStore) : Prop where
  valid : revalidateFile disk.pdf document = .ok ()
  missing : store.entries document.sourcePath = none → disk.sidecar = none
  present : ∀ entry, store.entries document.sourcePath = some entry →
    entry.identity = document.identity ∧ entry.annotations.WellFormed ∧
      ∃ bytes, disk.sidecar = some bytes ∧
        encodeSidecar serde document.identity entry.annotations = .ok bytes

section

variable {serde : Serde} {document : DocumentKey} {disk : JsonSidecarStore.Disk}
  {store : MemoryAnnotationStore}

variable {bytes : Bytes} {set : AnnotationSet}

theorem loadOrEmpty_of_encode (hserde : serde.ReadsBack) (path : FilePath)
    {identity : DocumentIdentity} (hset : set.Valid)
    (h : encodeSidecar serde identity set = .ok bytes) :
    loadOrEmpty serde path (some bytes) identity = .ok set.restored := by
  obtain ⟨-, stored, -, -, hle⟩ := encodeSidecar_eq_ok.mp h
  have htake : bytes.take (maxSidecarBytes + 1) = bytes :=
    List.take_of_length_le (hle.trans (Nat.le_succ _))
  have hdecode := decodeSidecar_encodeSidecar hserde path hset identity.sameRevision_self h
  simp only [loadOrEmpty, loadAt, decodeRead, ensure, hle, if_true, htake, ok_bind, hdecode,
    orEmpty]

theorem Mirrors.loadOrEmpty (h : Mirrors serde document disk store) (hserde : serde.ReadsBack)
    (path : FilePath) : Sidecar.loadOrEmpty serde path disk.sidecar document.identity =
      .ok ((store.stored document).elim (.new document.identity.pageCount)
        AnnotationSet.restored) := by
  cases hentry : store.entries document.sourcePath with
  | none =>
    rw [h.missing hentry]
    simp [MemoryAnnotationStore.stored, hentry, Sidecar.loadOrEmpty, loadAt, orEmpty]
  | some entry =>
    obtain ⟨-, hwell, bytes, hbytes, hencode⟩ := h.present entry hentry
    rw [hbytes, loadOrEmpty_of_encode hserde path hwell.toValid hencode]
    simp [MemoryAnnotationStore.stored, hentry]

theorem Mirrors.entry (h : Mirrors serde document disk store) :
    store.entry document = .ok (store.entries document.sourcePath) := by
  cases hentry : store.entries document.sourcePath with
  | none => simp [MemoryAnnotationStore.entry, hentry]
  | some entry =>
    obtain ⟨hidentity, -⟩ := h.present entry hentry
    simp [MemoryAnnotationStore.entry, hentry, hidentity, ensure]

variable {name : String}

theorem Mirrors.load_agrees_iff (h : Mirrors serde document disk store) (hserde : serde.ReadsBack)
    (hname : document.sourcePath.fileName = some name) :
    SameResult (JsonSidecarStore.load serde disk document) (store.load document) ↔
      ∀ set, store.stored document = some set → set.restored = set := by
  have hjson : JsonSidecarStore.load serde disk document =
      .ok ((store.stored document).elim (.new document.identity.pageCount)
        AnnotationSet.restored) := by
    simp only [JsonSidecarStore.load, h.valid, ok_bind, sidecarPath, hname, okOr,
      h.loadOrEmpty hserde]
  have hmemory : store.load document =
      .ok ((store.stored document).getD (.new document.identity.pageCount)) := by
    rw [MemoryAnnotationStore.load, h.entry, ok_bind, MemoryAnnotationStore.stored]
    cases store.entries document.sourcePath <;> rfl
  rw [hjson, hmemory]
  cases store.stored document with
  | none | some set => simp [SameResult]

/-- The set that a save finds on the disk. -/
def current (store : MemoryAnnotationStore) (document : DocumentKey) : AnnotationSet :=
  (store.stored document).elim (.new document.identity.pageCount) AnnotationSet.restored

variable {annotations : AnnotationSet} {expected : Nat}

theorem Mirrors.planSave (h : Mirrors serde document disk store) (hserde : serde.ReadsBack)
    (hname : document.sourcePath.fileName = some name)
    (hvalid : validateSnapshot document.identity annotations = .ok ())
    (hbytes : encodeSidecar serde document.identity annotations = .ok bytes) :
    JsonSidecarStore.planSave serde disk document expected annotations =
      (checkRevisions expected annotations (current store document)).map
        fun _ => (bytes, ⟨(current store document).revision, annotations.revision⟩) := by
  simp only [JsonSidecarStore.planSave, hvalid, h.valid, ok_bind, sidecarPath, hname, okOr,
    h.loadOrEmpty hserde, hbytes, ← current.eq_def]
  cases checkRevisions expected annotations (current store document) <;> rfl

/-- The three checks of a save, when `differs` says that the snapshot is not the current set. -/
def verdict (expected current attempted : Nat) (differs : Prop) [Decidable differs] :
    Except StoreError SaveReceipt := do
  ensure (current = expected) (.conflict (.revisionMismatch expected current))
  ensure (¬attempted < current) (.revisionRegression current attempted)
  ensure (¬(attempted = current ∧ differs)) (.revisionNotAdvanced current attempted)
  .ok ⟨current, attempted⟩

variable {attempted : Nat}

theorem sameResult_verdict_iff {current : Nat} {p q : Prop} [Decidable p] [Decidable q] :
    SameResult (verdict expected current attempted p) (verdict expected current attempted q) ↔
        (expected = current → attempted = current → (p ↔ q)) := by
  by_cases hexpected : expected = current
  · by_cases hattempted : attempted = current
    · by_cases hp : p <;> by_cases hq : q <;>
        simp [verdict, ensure, hexpected, hattempted, hp, hq, SameResult, StoreError.SameVariant]
    · by_cases hlt : attempted < current <;>
        simp [verdict, ensure, hexpected, hattempted, hlt, SameResult, StoreError.SameVariant]
  · simp [verdict, ensure, hexpected, Ne.symm hexpected, SameResult, StoreError.SameVariant]

theorem checkRevisions_map (expected : Nat) (annotations current : AnnotationSet) :
    (checkRevisions expected annotations current).map
        (fun _ => (⟨current.revision, annotations.revision⟩ : SaveReceipt)) =
      verdict expected current.revision annotations.revision (annotations ≠ current) := by
  simp only [checkRevisions, verdict, ensure]
  repeat' split
  all_goals rfl

theorem Mirrors.checkSave (h : Mirrors serde document disk store) (expected : Nat)
    (annotations : AnnotationSet) : store.checkSave document expected annotations =
      (validateSnapshot document.identity annotations >>= fun _ =>
        verdict expected (current store document).revision annotations.revision
          ((store.stored document).any (· ≠ annotations))) := by
  rw [MemoryAnnotationStore.checkSave, h.entry, validateSnapshot, current,
    MemoryAnnotationStore.stored]
  by_cases hcount : document.identity.pageCount = annotations.pageCount
  · cases store.entries document.sourcePath <;> simp [ensure, hcount, verdict] <;> rfl
  · simp [ensure, hcount, Ne.symm hcount]

theorem Mirrors.validateSnapshot_stored (h : Mirrors serde document disk store)
    (hstored : store.stored document = some set) :
    validateSnapshot document.identity set = .ok () := by
  obtain ⟨entry, hentry, rfl⟩ := map_eq_some_iff.mp hstored
  obtain ⟨-, -, bytes, -, hencode⟩ := h.present entry hentry
  exact (encodeSidecar_eq_ok.mp hencode).1

theorem verdict_agrees_iff (hannotations : annotations.WellFormed)
    (hpages : document.identity.pageCount = annotations.pageCount) : SameResult
        (verdict expected (current store document).revision annotations.revision
          (annotations ≠ current store document))
        (verdict expected (current store document).revision annotations.revision
          ((store.stored document).any (· ≠ annotations))) ↔
      ∀ set, store.stored document = some set →
        (Call.compareAndSave expected annotations).SeesNextId set → set.restored = set := by
  rw [sameResult_verdict_iff]
  unfold current
  cases store.stored document with
  | none =>
    refine iff_of_true (fun _ hzero => ?_) (by simp)
    have hnew : annotations = AnnotationSet.new document.identity.pageCount := by
      rw [hpages]
      exact hannotations.unchanged hzero
    simp [hnew]
  | some set =>
    simp only [elim_some, AnnotationSet.restored_revision, any_some,
      decide_eq_true_eq, some.injEq, forall_eq', Call.SeesNextId]
    constructor
    · rintro h ⟨hexpected, rfl | rfl⟩
      · have hiff := h hexpected rfl
        by_contra hne
        exact hiff.mp (Ne.symm hne) rfl
      · have hiff := h hexpected rfl
        by_contra hne
        exact hiff.mpr (Ne.symm hne) rfl
    · intro h hexpected _
      rw [not_iff_not]
      constructor
      · rintro rfl
        exact (h ⟨hexpected, .inr rfl⟩).symm
      · rintro rfl
        exact (h ⟨hexpected, .inl rfl⟩).symm

section

variable (h : Mirrors serde document disk store)

include h

theorem Mirrors.save_eq (hserde : serde.ReadsBack)
    (hname : document.sourcePath.fileName = some name) (expected : Nat)
    (annotations : AnnotationSet) (hvalid : validateSnapshot document.identity annotations = .ok ())
    (hbytes : encodeSidecar serde document.identity annotations = .ok bytes) :
    JsonSidecarStore.compareAndSave serde disk document expected annotations =
        (match verdict expected (current store document).revision annotations.revision
            (annotations ≠ current store document) with
        | .ok receipt => (.ok receipt, { disk with sidecar := some bytes })
        | .error error => (.error error, disk)) ∧
      store.compareAndSave document expected annotations =
        (match verdict expected (current store document).revision annotations.revision
            ((store.stored document).any (· ≠ annotations)) with
        | .ok receipt => (.ok receipt, ⟨Function.update store.entries document.sourcePath
            (some ⟨document.identity, annotations⟩)⟩)
        | .error error => (.error error, store)) := by
  constructor
  · rw [JsonSidecarStore.compareAndSave, h.planSave hserde hname hvalid hbytes,
      ← checkRevisions_map]
    cases checkRevisions expected annotations (current store document) <;> rfl
  · have hcheck := h.checkSave expected annotations
    rw [hvalid, ok_bind] at hcheck
    unfold MemoryAnnotationStore.compareAndSave
    generalize store.checkSave document expected annotations = result at hcheck ⊢
    subst hcheck
    rfl

theorem Mirrors.save_invalid (expected : Nat) {error : StoreError}
    (hvalid : validateSnapshot document.identity annotations = .error error) :
    JsonSidecarStore.compareAndSave serde disk document expected annotations =
        (.error error, disk) ∧
      store.compareAndSave document expected annotations = (.error error, store) := by
  constructor
  · simp only [JsonSidecarStore.compareAndSave, JsonSidecarStore.planSave, hvalid, error_bind]
  · simp only [MemoryAnnotationStore.compareAndSave, h.checkSave, hvalid, error_bind]

theorem Mirrors.replace (hannotations : annotations.WellFormed)
    (hbytes : encodeSidecar serde document.identity annotations = .ok bytes) :
    Mirrors serde document { disk with sidecar := some bytes }
      ⟨Function.update store.entries document.sourcePath
        (some ⟨document.identity, annotations⟩)⟩ where
  valid := h.valid
  missing := by simp
  present := by
    intro entry hentry
    simp only [Function.update_self, some.injEq] at hentry
    subst hentry
    exact ⟨rfl, hannotations, bytes, rfl, hbytes⟩

theorem Mirrors.sidecar_eq (hstored : store.stored document = some set)
    (hsame : annotations = set ∨ annotations = set.restored)
    (hbytes : encodeSidecar serde document.identity annotations = .ok bytes) :
    { disk with sidecar := some bytes } = disk := by
  obtain ⟨entry, hentry, rfl⟩ := map_eq_some_iff.mp hstored
  obtain ⟨-, -, found, hfound, hencode⟩ := h.present entry hentry
  have hencode' : encodeSidecar serde document.identity annotations = .ok found := by
    rcases hsame with rfl | rfl <;> exact hencode
  rw [← Except.ok.inj (hencode'.symm.trans hbytes), ← hfound]

end

theorem verdict_eq_ok {current : Nat} {differs : Prop} [Decidable differs] {receipt : SaveReceipt}
    (h : verdict expected current attempted differs = .ok receipt) :
    current = expected ∧ ¬attempted < current ∧ ¬(attempted = current ∧ differs) := by
  simp only [verdict, unit_bind_eq_ok, ensure_eq_ok] at h
  exact ⟨h.1, h.2.1, h.2.2.1⟩

theorem verdict_eq_error {current : Nat} {differs : Prop} [Decidable differs] {error : StoreError}
    (h : verdict expected current attempted differs = .error error) (hexpected : current = expected)
    (hlt : ¬attempted < current) : attempted = current ∧ differs := by
  by_contra hdiffers
  simp [verdict, ensure, hexpected] at h
  simp_all

section

variable (h : Mirrors serde document disk store)

include h

variable (hserde : serde.ReadsBack)

include hserde

variable (hname : document.sourcePath.fileName = some name)

include hname

/-- Every save leaves the encoding of the entry in memory on the disk. -/
theorem Mirrors.save
    (hcall : (Call.compareAndSave expected annotations).Admissible serde document) :
    Mirrors serde document
      (JsonSidecarStore.compareAndSave serde disk document expected annotations).2
      (store.compareAndSave document expected annotations).2 := by
  obtain ⟨hreachable, hencodes⟩ := hcall
  have hwell := hreachable.wellFormed
  cases hvalid : validateSnapshot document.identity annotations with
  | error error =>
    obtain ⟨hjson, hmemory⟩ := h.save_invalid expected hvalid
    rw [hjson, hmemory]
    exact h
  | ok u =>
    obtain ⟨bytes, hbytes⟩ := hencodes hvalid
    obtain ⟨hjson, hmemory⟩ := h.save_eq hserde hname expected annotations hvalid hbytes
    rw [hjson, hmemory]
    cases hj : verdict expected (current store document).revision annotations.revision
        (annotations ≠ current store document) with
    | ok receipt =>
      cases hm : verdict expected (current store document).revision annotations.revision
          ((store.stored document).any (· ≠ annotations)) with
      | ok receipt => exact h.replace hwell hbytes
      | error error =>
        -- The snapshot is the restored form of the stored set, which it differs from.
        obtain ⟨hexpected, hlt, hsame⟩ := verdict_eq_ok hj
        obtain ⟨hrevision, hdiffers⟩ := verdict_eq_error hm hexpected hlt
        obtain ⟨set, hset⟩ : ∃ set, store.stored document = some set := by
          cases hset : store.stored document with
          | none => simp [hset] at hdiffers
          | some set => exact ⟨set, rfl⟩
        have heq : annotations = set.restored := by
          by_contra hne
          refine hsame ⟨hrevision, ?_⟩
          simpa [current, hset] using hne
        rw [h.sidecar_eq hset (.inr heq) hbytes]
        exact h
    | error error =>
      cases hm : verdict expected (current store document).revision annotations.revision
          ((store.stored document).any (· ≠ annotations)) with
      | ok receipt =>
        -- The snapshot is the stored set, which a restore does not give.
        obtain ⟨hexpected, hlt, hsame⟩ := verdict_eq_ok hm
        obtain ⟨hrevision, hdiffers⟩ := verdict_eq_error hj hexpected hlt
        cases hset : store.stored document with
        | none =>
          have hcurrent : current store document = .new document.identity.pageCount := by
            simp [current, hset]
          rw [hcurrent] at hrevision hdiffers
          rw [(validateSnapshot_eq_ok.mp hvalid).1] at hdiffers
          exact absurd (hwell.unchanged hrevision) hdiffers
        | some set =>
          have heq : annotations = set := by
            by_contra hne
            refine hsame ⟨hrevision, ?_⟩
            simpa [hset] using Ne.symm hne
          have hreplace := h.replace hwell hbytes
          rw [h.sidecar_eq hset (.inl heq) hbytes] at hreplace
          exact hreplace
      | error error => exact h

theorem Mirrors.answer_agrees_iff {call : Call} (hcall : call.Admissible serde document) :
    (JsonSidecarStore.answer serde document disk call).1.Agrees
        (MemoryAnnotationStore.answer document store call).1 ↔
      ∀ set, store.stored document = some set → call.SeesNextId set → set.restored = set := by
  cases call with
  | load =>
    simp only [Call.SeesNextId, true_imp_iff]
    exact h.load_agrees_iff hserde hname
  | compareAndSave expected annotations =>
    obtain ⟨hreachable, hencodes⟩ := hcall
    simp only [JsonSidecarStore.answer, MemoryAnnotationStore.answer, Answer.Agrees]
    cases hvalid : validateSnapshot document.identity annotations with
    | error error =>
      obtain ⟨hjson, hmemory⟩ := h.save_invalid expected hvalid
      rw [hjson, hmemory]
      refine iff_of_true (sameResult_refl _) ?_
      -- A stored set, as it is or restored, passes the check that `annotations` fails.
      rintro set hset ⟨-, rfl | rfl⟩
      · rw [h.validateSnapshot_stored hset] at hvalid
        cases hvalid
      · have hstored := h.validateSnapshot_stored hset
        have hrestored : validateSnapshot document.identity set.restored = .ok () := hstored
        rw [hrestored] at hvalid
        cases hvalid
    | ok u =>
      obtain ⟨bytes, hbytes⟩ := hencodes hvalid
      obtain ⟨hjson, hmemory⟩ := h.save_eq hserde hname expected annotations hvalid hbytes
      rw [hjson, hmemory, ← verdict_agrees_iff hreachable.wellFormed
        (validateSnapshot_eq_ok.mp hvalid).1]
      cases verdict expected (current store document).revision annotations.revision
          (annotations ≠ current store document) <;>
        cases verdict expected (current store document).revision annotations.revision
          ((store.stored document).any (· ≠ annotations)) <;> rfl

theorem Mirrors.answer {call : Call} (hcall : call.Admissible serde document) :
    Mirrors serde document (JsonSidecarStore.answer serde document disk call).2
      (MemoryAnnotationStore.answer document store call).2 := by
  cases call with
  | load => exact h
  | compareAndSave expected annotations => exact h.save hserde hname hcall

theorem Mirrors.answers_agree_iff {calls : List Call}
    (hcalls : ∀ call ∈ calls, call.Admissible serde document) :
    List.Forall₂ Answer.Agrees (JsonSidecarStore.answers serde document disk calls)
        (MemoryAnnotationStore.answers document store calls) ↔
      SeenNextIdsRestored document store calls := by
  induction calls generalizing disk store with
  | nil => exact iff_of_true .nil trivial
  | cons call calls ih =>
    obtain ⟨hcall, hcalls⟩ := List.forall_mem_cons.mp hcalls
    simp only [JsonSidecarStore.answers, MemoryAnnotationStore.answers, List.forall₂_cons,
      SeenNextIdsRestored]
    rw [h.answer_agrees_iff hserde hname hcall, ih (h.answer hserde hname hcall) hcalls]

end

theorem mirrors_new (serde : Serde) (path : FilePath) (pdf : Pdf) (pageCount : Nat) :
    Mirrors serde (.fromPdf path pdf pageCount) ⟨pdf, none⟩ .new where
  valid := revalidateFile_fromPdf path pdf pageCount
  missing := fun _ => rfl
  present := by simp [MemoryAnnotationStore.new]

end

/-- On one PDF that does not change, with nothing stored at first, the two stores answer every
sequence of calls alike exactly when no call sees a next id that a restore changes. -/
theorem stores_agree_iff {serde : Serde} (hserde : serde.ReadsBack) {path : FilePath}
    {name : String} (hname : path.fileName = some name) (pdf : Pdf) (pageCount : Nat)
    {calls : List Call}
    (hcalls : ∀ call ∈ calls, call.Admissible serde (.fromPdf path pdf pageCount)) :
    List.Forall₂ Answer.Agrees
        (JsonSidecarStore.answers serde (.fromPdf path pdf pageCount) ⟨pdf, none⟩ calls)
        (MemoryAnnotationStore.answers (.fromPdf path pdf pageCount) .new calls) ↔
      SeenNextIdsRestored (.fromPdf path pdf pageCount) .new calls :=
  (mirrors_new serde path pdf pageCount).answers_agree_iff hserde hname hcalls

def onePagePdf : Pdf where
  byteLen := 42
  modifiedUnixSeconds := 1700000000
  modifiedNanos := 12
  sha256 := zeroDigest
  nanos_lt := onePage.nanos_lt

def paper : DocumentKey := .fromPdf { directory := "", fileName := some "paper.pdf" } onePagePdf 1

/-- A save of a set whose last highlight was deleted, and the same save again. -/
def saveTwice : List Call :=
  [.compareAndSave 0 ((AnnotationSet.new 1).run addThenDelete).1,
    .compareAndSave 2 ((AnnotationSet.new 1).run addThenDelete).1]

theorem saveTwice_admissible : ∀ call ∈ saveTwice,
    call.Admissible (Serde.single deletedSidecar deletedText) paper := by
  have hset : ((AnnotationSet.new 1).run addThenDelete).1.Reachable := (AnnotationSet.Reachable.new 1).run _
  intro call hcall
  simp only [saveTwice, List.mem_cons, List.not_mem_nil, or_false] at hcall
  rcases hcall with rfl | rfl <;> exact ⟨hset, fun _ => ⟨_, encodeSidecar_addThenDelete⟩⟩

/-- The store in memory accepts the second save and the sidecar store refuses it. -/
theorem not_agree_saveTwice : (Serde.single deletedSidecar deletedText).ReadsBack ∧
      (∀ call ∈ saveTwice, call.Admissible (Serde.single deletedSidecar deletedText) paper) ∧
      ¬List.Forall₂ Answer.Agrees
        (JsonSidecarStore.answers (Serde.single deletedSidecar deletedText) paper
          ⟨onePagePdf, none⟩ saveTwice)
        (MemoryAnnotationStore.answers paper .new saveTwice) := by
  refine ⟨Serde.readsBack_single _ _, saveTwice_admissible, ?_⟩
  have hjson : JsonSidecarStore.answers (Serde.single deletedSidecar deletedText) paper
      ⟨onePagePdf, none⟩ saveTwice =
        [.saved (.ok ⟨0, 2⟩), .saved (.error (.revisionNotAdvanced 2 2))] := by
    decide +kernel
  have hmemory : MemoryAnnotationStore.answers paper .new saveTwice =
      [.saved (.ok ⟨0, 2⟩), .saved (.ok ⟨2, 2⟩)] := by
    decide +kernel
  rw [hjson, hmemory]
  simp [Answer.Agrees, SameResult]

theorem stores_agree_iff_saveTwice : List.Forall₂ Answer.Agrees
        (JsonSidecarStore.answers (Serde.single deletedSidecar deletedText) paper
          ⟨onePagePdf, none⟩ saveTwice)
        (MemoryAnnotationStore.answers paper .new saveTwice) ↔
      SeenNextIdsRestored paper .new saveTwice :=
  stores_agree_iff (Serde.readsBack_single _ _) rfl onePagePdf 1 saveTwice_admissible

end KeyReader.Sidecar
