import KeyReader.Sidecar.Agreement
import KeyReader.Sidecar.Writers

/-! Compare-and-swap.  A writer that holds the lock knows the current sidecar until it replaces it,
so every replacement raises the stored revision or keeps the content, and of the writers that
expect one revision and bring a later one at most one succeeds. -/

namespace KeyReader.Sidecar

open Annotations Checked

variable {bytes : Bytes} {path : FilePath} {serde : Serde} {set : AnnotationSet}

theorem decodeSidecar_eq_ok {expected : DocumentIdentity}
    (h : decodeSidecar serde path bytes expected = .ok set) :
    ∃ stored identity records, serde.fromSlice bytes = .ok stored ∧
      stored.document.intoIdentity (stored.schemaVersion == sidecarSchemaVersion) = .ok identity ∧
      collect StoredAnnotation.intoRestored stored.annotations = .ok records ∧
      AnnotationSet.restore identity.pageCount stored.revision records = .ok set := by
  obtain ⟨probe, -, h⟩ := bind_eq_ok.mp h
  obtain ⟨-, h⟩ := unit_bind_eq_ok.mp h
  obtain ⟨stored, hstored, h⟩ := bind_eq_ok.mp h
  obtain ⟨identity, hidentity, h⟩ := bind_eq_ok.mp h
  obtain ⟨-, h⟩ := unit_bind_eq_ok.mp h
  obtain ⟨records, hrecords, h⟩ := bind_eq_ok.mp h
  refine ⟨stored, identity, records, ?_, hidentity, hrecords, fromAnnotations_eq_ok.mp h⟩
  cases hslice : serde.fromSlice bytes with
  | ok found =>
    rw [hslice] at hstored
    exact congrArg _ (Except.ok.inj hstored)
  | error message =>
    rw [hslice] at hstored
    cases hstored

theorem decodeSidecar_unique {path' : FilePath} {expected expected' : DocumentIdentity}
    {set' : AnnotationSet} (h : decodeSidecar serde path bytes expected = .ok set)
    (h' : decodeSidecar serde path' bytes expected' = .ok set') : set = set' := by
  obtain ⟨stored, identity, records, hstored, hidentity, hrecords, hset⟩ := decodeSidecar_eq_ok h
  obtain ⟨stored', identity', records', hstored', hidentity', hrecords', hset'⟩ :=
    decodeSidecar_eq_ok h'
  cases hstored.symm.trans hstored'
  cases hidentity.symm.trans hidentity'
  cases hrecords.symm.trans hrecords'
  exact Except.ok.inj (hset.symm.trans hset')

variable {file : Option Bytes}

theorem contents_unique {revision revision' : Nat} {records records' : List Annotation}
    (h : Contents serde file revision records) (h' : Contents serde file revision' records') :
    revision = revision' ∧ records = records' := by
  cases file with
  | none =>
    obtain ⟨rfl, rfl⟩ := h
    obtain ⟨rfl, rfl⟩ := h'
    exact ⟨rfl, rfl⟩
  | some bytes =>
    obtain ⟨_, _, set, hset, rfl, rfl⟩ := h
    obtain ⟨_, _, set', hset', rfl, rfl⟩ := h'
    obtain rfl := decodeSidecar_unique hset hset'
    exact ⟨rfl, rfl⟩

variable {current : AnnotationSet} {sidecar : FilePath} {writer : Writer}

theorem Current.contents (h : Current serde sidecar writer file current) :
    Contents serde file current.revision current.records := by
  cases file with
  | none =>
    rw [show current = .new writer.document.identity.pageCount from h]
    exact ⟨rfl, rfl⟩
  | some bytes => exact ⟨_, _, current, h, rfl, rfl⟩

theorem Current.sorted (h : Current serde sidecar writer file current) :
    current.records.Pairwise annotationOrder := by
  cases file with
  | none =>
    rw [show current = .new writer.document.identity.pageCount from h]
    exact .nil
  | some bytes =>
    obtain ⟨_, _, _, -, -, -, hrestore⟩ := decodeSidecar_eq_ok h
    exact (AnnotationSet.valid_restore hrestore).sorted

theorem contents_of_encode (hserde : serde.ReadsBack) {identity : DocumentIdentity}
    (h : encodeSidecar serde identity set = .ok bytes) :
    Contents serde (some bytes) set.revision (set.records.insertionSort annotationOrder) := by
  obtain ⟨hvalid, stored, hstored, hbytes, -⟩ := encodeSidecar_eq_ok.mp h
  obtain ⟨hschema, -⟩ := fromParts_eq_ok hstored
  obtain ⟨hpages, hset⟩ := validateSnapshot_eq_ok.mp hvalid
  have hrestore := AnnotationSet.restore_ok_iff.mpr ⟨AnnotationSet.validate_ok_iff.mp hset, rfl⟩
  have hdecode := decodeSidecar_of_toVecPretty hserde memoryPath identity hschema hbytes
  rw [restore_fromParts hstored identity.sameRevision_self, hpages] at hdecode
  exact ⟨_, _, _, hdecode.trans (fromAnnotations_eq_ok.mpr hrestore), rfl, rfl⟩

/-- `after` is a later sidecar than `before`: its revision is higher, or its content the same. -/
def Newer (serde : Serde) (before after : Option Bytes) : Prop :=
  ∀ revision records, Contents serde before revision records →
    ∃ revision' records', Contents serde after revision' records' ∧ revision ≤ revision' ∧
      (revision = revision' → records = records')

theorem Newer.refl (serde : Serde) (file : Option Bytes) : Newer serde file file :=
  fun revision records h => ⟨revision, records, h, le_rfl, fun _ => rfl⟩

theorem Newer.trans {a b c : Option Bytes} (hab : Newer serde a b) (hbc : Newer serde b c) :
    Newer serde a c := by
  intro revision records h
  obtain ⟨revision', records', h', hle, heq⟩ := hab revision records h
  obtain ⟨revision'', records'', h'', hle', heq'⟩ := hbc revision' records' h'
  refine ⟨revision'', records'', h'', hle.trans hle', fun hsame => ?_⟩
  rw [heq (by omega), heq' (by omega)]

theorem prepare_eq_ok (h : prepare serde writer current = .ok bytes) :
    current.revision = writer.expectedRevision ∧ current.revision ≤ writer.annotations.revision ∧
      (current.revision = writer.annotations.revision → writer.annotations = current) ∧
      encodeSidecar serde writer.document.identity writer.annotations = .ok bytes := by
  obtain ⟨hcheck, hencode⟩ := unit_bind_eq_ok.mp h
  simp only [checkRevisions, unit_bind_eq_ok, ensure_eq_ok] at hcheck
  obtain ⟨hexpected, hlt, hsame⟩ := hcheck
  refine ⟨hexpected, Nat.le_of_not_lt hlt, fun heq => ?_, hencode⟩
  by_contra hne
  exact hsame ⟨heq.symm, hne⟩

theorem newer_of_prepare (hserde : serde.ReadsBack)
    (hcurrent : Current serde sidecar writer file current)
    (hprepare : prepare serde writer current = .ok bytes) : Newer serde file (some bytes) := by
  obtain ⟨-, hle, hsame, hencode⟩ := prepare_eq_ok hprepare
  intro revision records h
  obtain ⟨rfl, rfl⟩ := contents_unique h hcurrent.contents
  refine ⟨_, _, contents_of_encode hserde hencode, hle, fun heq => ?_⟩
  rw [hsame heq, hcurrent.sorted.insertionSort_eq]

def Phase.Knows (serde : Serde) (sidecar : FilePath) (writer : Writer)
    (files : FilePath → Option Bytes) : Phase → Prop
  | confirming current bytes | confirmingPath current bytes | creating current bytes _ =>
    Current serde sidecar writer (files sidecar) current ∧ prepare serde writer current = .ok bytes
  | writing current bytes temporary =>
    Current serde sidecar writer (files sidecar) current ∧
      prepare serde writer current = .ok bytes ∧ temporary ≠ sidecar
  | replacing current bytes temporary =>
    Current serde sidecar writer (files sidecar) current ∧
      prepare serde writer current = .ok bytes ∧ temporary ≠ sidecar ∧
      files temporary = some bytes
  | removing temporary _ => temporary ≠ sidecar
  | _ => True

theorem Phase.knows_of_not_holding {files : FilePath → Option Bytes} {phase : Phase}
    (h : ¬phase.Holding) : phase.Knows serde sidecar writer files := by
  cases phase <;> simp_all [Phase.Holding, Phase.Knows]

theorem temporaryPath_ne {target : FilePath} {name : String} (hname : target.fileName = some name)
    (process sequence : Nat) : temporaryPath target name process sequence ≠ target := by
  intro h
  have hfile := congrArg FilePath.fileName h
  rw [hname, temporaryPath, Option.some.injEq] at hfile
  have hlength := congrArg String.length hfile
  simp only [String.length_append] at hlength
  have : ".tmp-".length = 5 := rfl
  omega

section

variable {ι : Type} {world : World ι}

@[simp] theorem World.write_lock (path : FilePath) (content : Option Bytes) :
    (world.write path content).lock = world.lock := rfl

@[simp] theorem World.write_files_self (path : FilePath) (content : Option Bytes) :
    (world.write path content).files path = content := by
  simp [World.write]

theorem World.write_files_of_ne {path' : FilePath} (content : Option Bytes) (h : path' ≠ path) :
    (world.write path content).files path' = world.files path' := by
  simp [World.write, h]

end

section

variable {ι : Type} [DecidableEq ι] {serde : Serde} {sidecar : FilePath} {writers : ι → Writer}
  {writer : Writer} {world after : World ι} {i j : ι}

@[simp] theorem World.enter_files (phase : Phase) : (world.enter i phase).files = world.files := rfl

@[simp] theorem World.enter_lock (phase : Phase) : (world.enter i phase).lock = world.lock := rfl

@[simp] theorem World.enter_phase_self (phase : Phase) : (world.enter i phase).phase i = phase := by
  simp [World.enter]

theorem Step.phase_of_ne (h : Step serde sidecar writer i world after) (hj : j ≠ i) :
    after.phase j = world.phase j := by
  cases h <;> simp [World.enter, World.write, hj]

theorem Step.files_of_not_holding (h : Step serde sidecar writer i world after)
    (hi : ¬(world.phase i).Holding) : after.files = world.files := by
  cases h <;> simp_all [Phase.Holding, World.enter]

structure Inv (serde : Serde) (sidecar : FilePath) (writers : ι → Writer) (world : World ι) :
    Prop where
  lock : ∀ i, (world.phase i).Holding ↔ world.lock = some i
  knows : ∀ i, (world.phase i).Knows serde sidecar (writers i) world.files

omit [DecidableEq ι] in
theorem Initial.inv (h : Initial world) : Inv serde sidecar writers world where
  lock i := by simp [h.phase, h.lock, Phase.Holding]
  knows i := by simp [h.phase, Phase.Knows]

section

variable (h : Step serde sidecar writer i world after)

include h

theorem Step.lock (hlock : ∀ j, (world.phase j).Holding ↔ world.lock = some j) (j : ι) :
    (after.phase j).Holding ↔ after.lock = some j := by
  by_cases hj : j = i
  · subst hj
    have hown := hlock j
    cases h <;> simp_all [Phase.Holding]
  · rw [h.phase_of_ne hj, hlock j]
    have hown := hlock i
    cases h <;> simp_all [Phase.Holding, Ne.symm hj]

theorem Step.files_cases (hknows : (world.phase i).Knows serde sidecar writer world.files) :
    after.files sidecar = world.files sidecar ∨
      ∃ current bytes, Current serde sidecar writer (world.files sidecar) current ∧
        prepare serde writer current = .ok bytes ∧ after.files sidecar = some bytes ∧
        after.phase i = .unlocking (.ok ⟨current.revision, writer.annotations.revision⟩) := by
  cases h with
  | created hphase hattempts hname hnew =>
    exact .inl (World.write_files_of_ne _ (temporaryPath_ne hname _ _).symm)
  | written hphase | writeFailed hphase part source =>
    rw [hphase] at hknows
    exact .inl (World.write_files_of_ne _ hknows.2.2.symm)
  | removed hphase content hcontent =>
    rw [hphase] at hknows
    exact .inl (World.write_files_of_ne _ (Ne.symm hknows))
  | renamed hphase =>
    rw [hphase] at hknows
    obtain ⟨hcurrent, hprepare, htemporary, hbytes⟩ := hknows
    refine .inr ⟨_, _, hcurrent, hprepare, ?_, World.enter_phase_self _⟩
    rw [World.enter_files, World.write_files_of_ne _ htemporary.symm, World.write_files_self,
      hbytes]
  | _ => exact .inl rfl

/-- The writer that takes a step knows the files after it. -/
theorem Step.knows (hknows : (world.phase i).Knows serde sidecar writer world.files) :
    (after.phase i).Knows serde sidecar writer after.files := by
  cases h with
  | prepared hphase hread hprepare =>
    rw [World.enter_phase_self]
    exact ⟨current_of_readCurrent hread, hprepare⟩
  | confirmed hphase hvalid | confirmedPath hphase hvalid | collided hphase hattempts =>
    rw [hphase] at hknows
    rw [World.enter_phase_self]
    exact hknows
  | created hphase hattempts hname hnew =>
    rw [hphase] at hknows
    have hne := temporaryPath_ne hname
    rw [World.enter_phase_self, Phase.Knows, World.enter_files,
      World.write_files_of_ne _ (hne _ _).symm]
    exact ⟨hknows.1, hknows.2, hne _ _⟩
  | written hphase =>
    rw [hphase] at hknows
    rw [World.enter_phase_self, Phase.Knows, World.enter_files,
      World.write_files_of_ne _ hknows.2.2.symm, World.write_files_self]
    exact ⟨hknows.1, hknows.2.1, hknows.2.2, rfl⟩
  | writeFailed hphase part source =>
    rw [hphase] at hknows
    rw [World.enter_phase_self]
    exact hknows.2.2
  | renameFailed hphase source =>
    rw [hphase] at hknows
    rw [World.enter_phase_self]
    exact hknows.2.2.1
  | _ => simp [World.enter, Phase.Knows]

end

theorem Inv.step (h : Inv serde sidecar writers world)
    (hstep : AnyStep serde sidecar writers world after) : Inv serde sidecar writers after := by
  obtain ⟨i, hstep⟩ := hstep
  refine ⟨hstep.lock h.lock, fun j => ?_⟩
  by_cases hj : j = i
  · subst hj
    exact hstep.knows (h.knows j)
  · rw [hstep.phase_of_ne hj]
    by_cases hholding : (world.phase j).Holding
    · -- The lock is with `j`, so `i` changes no file.
      have hi : ¬(world.phase i).Holding := by
        rw [h.lock i, (h.lock j).mp hholding, Option.some.injEq]
        exact hj
      rw [hstep.files_of_not_holding hi]
      exact h.knows j
    · exact Phase.knows_of_not_holding hholding

theorem Inv.run (h : Inv serde sidecar writers world)
    (hrun : Relation.ReflTransGen (AnyStep serde sidecar writers) world after) :
    Inv serde sidecar writers after := by
  induction hrun with
  | refl => exact h
  | tail _ hstep ih => exact ih.step hstep

/-- The call has replaced the sidecar. -/
def Phase.Succeeded : Phase → Prop
  | unlocking (.ok _) | finished (.ok _) => True
  | _ => False

theorem Phase.succeeded_finished {result : Except StoreError SaveReceipt} :
    (finished result).Succeeded ↔ (unlocking result).Succeeded := by
  cases result <;> rfl

theorem Step.succeeded (h : Step serde sidecar writer i world after)
    (hj : (world.phase j).Succeeded) : (after.phase j).Succeeded := by
  by_cases hij : j = i
  · subst hij
    cases h with
    | unlocked hphase =>
      rw [hphase] at hj
      simpa [World.enter, Phase.succeeded_finished] using hj
    | _ => simp_all [Phase.Succeeded]
  · rwa [h.phase_of_ne hij]

theorem succeeded_run (hrun : Relation.ReflTransGen (AnyStep serde sidecar writers) world after)
    (hj : (world.phase j).Succeeded) : (after.phase j).Succeeded := by
  induction hrun with
  | refl => exact hj
  | tail _ hstep ih =>
    obtain ⟨i, hstep⟩ := hstep
    exact hstep.succeeded ih

theorem Step.succeeded_cases (h : Step serde sidecar writer i world after)
    (hknows : (world.phase i).Knows serde sidecar writer world.files)
    (hi : (after.phase i).Succeeded) :
    (world.phase i).Succeeded ∨
      ∃ current bytes, Current serde sidecar writer (world.files sidecar) current ∧
        prepare serde writer current = .ok bytes ∧ after.files sidecar = some bytes := by
  cases h with
  | renamed hphase =>
    rw [hphase] at hknows
    obtain ⟨hcurrent, hprepare, htemporary, hbytes⟩ := hknows
    refine .inr ⟨_, _, hcurrent, hprepare, ?_⟩
    rw [World.enter_files, World.write_files_of_ne _ htemporary.symm, World.write_files_self,
      hbytes]
  | unlocked hphase =>
    left
    rw [hphase]
    simpa [World.enter, Phase.succeeded_finished] using hi
  | _ => simp [World.enter, Phase.Succeeded] at hi

theorem Inv.newer_step (h : Inv serde sidecar writers world) (hserde : serde.ReadsBack)
    (hstep : AnyStep serde sidecar writers world after) :
    Newer serde (world.files sidecar) (after.files sidecar) := by
  obtain ⟨i, hstep⟩ := hstep
  rcases hstep.files_cases (h.knows i) with heq | ⟨current, bytes, hcurrent, hprepare, heq, -⟩
  · rw [heq]
    exact .refl serde _
  · rw [heq]
    exact newer_of_prepare hserde hcurrent hprepare

theorem Inv.newer_run (h : Inv serde sidecar writers world) (hserde : serde.ReadsBack)
    (hrun : Relation.ReflTransGen (AnyStep serde sidecar writers) world after) :
    Newer serde (world.files sidecar) (after.files sidecar) := by
  induction hrun with
  | refl => exact .refl serde _
  | tail hrun hstep ih => exact ih.trans ((h.run hrun).newer_step hserde hstep)

/-- What the successes so far mean: the sidecar has reached the revision of each, and no two of
them started from one revision. -/
structure Successes (serde : Serde) (sidecar : FilePath) (writers : ι → Writer)
    (world : World ι) : Prop where
  reached : ∀ i, (world.phase i).Succeeded → ∃ revision records,
    Contents serde (world.files sidecar) revision records ∧
      (writers i).annotations.revision ≤ revision
  apart : ∀ i j, i ≠ j → (world.phase i).Succeeded → (world.phase j).Succeeded →
    (writers i).expectedRevision = (writers j).expectedRevision →
    (writers i).expectedRevision < (writers i).annotations.revision →
    ¬(writers j).expectedRevision < (writers j).annotations.revision

omit [DecidableEq ι] in
theorem Initial.successes (h : Initial world) : Successes serde sidecar writers world where
  reached i hi := by simp [h.phase, Phase.Succeeded] at hi
  apart i j _ hi := by simp [h.phase, Phase.Succeeded] at hi

/-- A writer whose success begins found the revision that it expects, below that of every
earlier success. -/
theorem Successes.step (h : Successes serde sidecar writers world) (hserde : serde.ReadsBack)
    (hinv : Inv serde sidecar writers world) (hstep : AnyStep serde sidecar writers world after) :
    Successes serde sidecar writers after := by
  have hnewer := hinv.newer_step hserde hstep
  obtain ⟨i, hstep⟩ := hstep
  have hnew : (after.phase i).Succeeded → (world.phase i).Succeeded ∨
      ∃ current bytes, Current serde sidecar (writers i) (world.files sidecar) current ∧
        prepare serde (writers i) current = .ok bytes ∧ after.files sidecar = some bytes :=
    hstep.succeeded_cases (hinv.knows i)
  -- A success that was there before is still below the stored revision.
  have hold : ∀ j, (world.phase j).Succeeded → ∃ revision records,
      Contents serde (after.files sidecar) revision records ∧
        (writers j).annotations.revision ≤ revision := by
    intro j hj
    obtain ⟨revision, records, hcontents, hle⟩ := h.reached j hj
    obtain ⟨revision', records', hcontents', hle', -⟩ := hnewer revision records hcontents
    exact ⟨revision', records', hcontents', hle.trans hle'⟩
  -- The success that begins with this step meets no earlier one at its revision.
  have hapart : ∀ j, j ≠ i → (after.phase i).Succeeded → (world.phase j).Succeeded →
      (writers i).expectedRevision = (writers j).expectedRevision →
      (writers i).expectedRevision < (writers i).annotations.revision →
      ¬(writers j).expectedRevision < (writers j).annotations.revision := by
    intro j hji hi hj hexpected hlt hlt'
    rcases hnew hi with hi | ⟨current, bytes, hcurrent, hprepare, -⟩
    · exact h.apart i j (Ne.symm hji) hi hj hexpected hlt hlt'
    · obtain ⟨revision, records, hcontents, hle⟩ := h.reached j hj
      have hrevision := (contents_unique hcontents hcurrent.contents).1
      have hfound := (prepare_eq_ok hprepare).1
      omega
  have hother : ∀ j, j ≠ i → (after.phase j).Succeeded → (world.phase j).Succeeded := by
    intro j hji hj
    rwa [hstep.phase_of_ne hji] at hj
  constructor
  · intro j hj
    by_cases hji : j = i
    · subst hji
      rcases hnew hj with hj | ⟨current, bytes, -, hprepare, hbytes⟩
      · exact hold j hj
      · rw [hbytes]
        exact ⟨_, _, contents_of_encode hserde (prepare_eq_ok hprepare).2.2.2, le_rfl⟩
    · exact hold j (hother j hji hj)
  · intro j k hjk hj hk hexpected hlt hlt'
    by_cases hji : j = i
    · subst hji
      exact hapart k (Ne.symm hjk) hj (hother k (Ne.symm hjk) hk) hexpected hlt hlt'
    · by_cases hki : k = i
      · subst hki
        exact hapart j hjk hk (hother j hjk hj) hexpected.symm hlt' hlt
      · exact h.apart j k hjk (hother j hji hj) (hother k hki hk) hexpected hlt hlt'

theorem Successes.run (h : Successes serde sidecar writers world) (hserde : serde.ReadsBack)
    (hinv : Inv serde sidecar writers world)
    (hrun : Relation.ReflTransGen (AnyStep serde sidecar writers) world after) :
    Successes serde sidecar writers after := by
  induction hrun with
  | refl => exact h
  | tail hrun hstep ih => exact ih.step hserde (hinv.run hrun) hstep

/-- In every run of any number of writers: a later sidecar never has a lower revision nor another
content at the same revision, two writers that expect one revision and bring later ones do not both
succeed, and no step of a call that returns an error changes the sidecar. -/
theorem compareAndSave_interleaved (hserde : serde.ReadsBack) {initial : World ι}
    (hinitial : Initial initial)
    (hrun : Relation.ReflTransGen (AnyStep serde sidecar writers) initial world)
    (hlater : Relation.ReflTransGen (AnyStep serde sidecar writers) world after) :
    Newer serde (world.files sidecar) (after.files sidecar) ∧
      (∀ i j receipt receipt', i ≠ j → after.phase i = .finished (.ok receipt) →
        after.phase j = .finished (.ok receipt') →
        (writers i).expectedRevision = (writers j).expectedRevision →
        (writers i).expectedRevision < (writers i).annotations.revision →
        ¬(writers j).expectedRevision < (writers j).annotations.revision) ∧
      ∀ i next error, Step serde sidecar (writers i) i world next →
        Relation.ReflTransGen (AnyStep serde sidecar writers) next after →
        after.phase i = .finished (.error error) →
        next.files sidecar = world.files sidecar := by
  have hinv : Inv serde sidecar writers world := hinitial.inv.run hrun
  refine ⟨hinv.newer_run hserde hlater, ?_, ?_⟩
  · intro i j receipt receipt' hij hi hj
    have hsuccesses : Successes serde sidecar writers after :=
      hinitial.successes.run hserde hinitial.inv (hrun.trans hlater)
    exact hsuccesses.apart i j hij (by rw [hi]; trivial) (by rw [hj]; trivial)
  · intro i next error hstep hrest herror
    rcases hstep.files_cases (hinv.knows i) with heq | ⟨_, _, -, -, -, hphase⟩
    · exact heq
    · have hsucceeded : (after.phase i).Succeeded := succeeded_run hrest (by rw [hphase]; trivial)
      rw [herror] at hsucceeded
      exact hsucceeded.elim

end

/-- A writer of a document without annotations, and one that saves a set whose highlight was
deleted. -/
def twoWriters : Bool → Writer
  | false => ⟨paper, 0, .new 1⟩
  | true => ⟨paper, 0, ((AnnotationSet.new 1).run addThenDelete).1⟩

def emptyWorld : World Bool := ⟨fun _ => none, none, fun _ => .start⟩

theorem accept_emptyWorld : AnyStep (Serde.single deletedSidecar deletedText) onePagePath twoWriters
    emptyWorld (emptyWorld.enter true .opening) :=
  ⟨true, .accept rfl (by decide +kernel)⟩

theorem compareAndSave_interleaved_emptyWorld :
    Newer (Serde.single deletedSidecar deletedText) (emptyWorld.files onePagePath)
        ((emptyWorld.enter true .opening).files onePagePath) ∧
      (∀ i j receipt receipt', i ≠ j →
        (emptyWorld.enter true .opening).phase i = .finished (.ok receipt) →
        (emptyWorld.enter true .opening).phase j = .finished (.ok receipt') →
        (twoWriters i).expectedRevision = (twoWriters j).expectedRevision →
        (twoWriters i).expectedRevision < (twoWriters i).annotations.revision →
        ¬(twoWriters j).expectedRevision < (twoWriters j).annotations.revision) ∧
      ∀ i next error, Step (Serde.single deletedSidecar deletedText) onePagePath (twoWriters i) i
          emptyWorld next →
        Relation.ReflTransGen (AnyStep (Serde.single deletedSidecar deletedText) onePagePath
          twoWriters) next (emptyWorld.enter true .opening) →
        (emptyWorld.enter true .opening).phase i = .finished (.error error) →
        next.files onePagePath = emptyWorld.files onePagePath :=
  compareAndSave_interleaved (Serde.readsBack_single _ _) ⟨fun _ => rfl, rfl⟩ .refl
    (.single accept_emptyWorld)

end KeyReader.Sidecar
