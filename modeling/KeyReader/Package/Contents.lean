import KeyReader.Package.Source

/-! What the sources of packages hold, and that reading a source gives exactly its files. -/

namespace KeyReader.Package

open Checked OrderedMap

variable {ν : Type} {libraries : Libraries ν} {limits : PackageLimits} {root : String}

def ZipEntry.IsFile (path : PackagePath) (content : Bytes) (entry : Except String ZipEntry) :
    Prop :=
  ∃ found, entry = .ok found ∧ found.isDir = false ∧ fromUtf8 found.nameRaw = some path ∧
    found.stream.bytes = content

def ArchiveHasFile (libraries : Libraries ν) (bytes : Bytes) (path : PackagePath)
    (content : Bytes) : Prop :=
  ∃ archive, libraries.openZip bytes = .ok archive ∧
    ∃ entry ∈ archive.entries, ZipEntry.IsFile path content entry

/-- Every file was seen. -/
def ZipScan.Seen (scan : ZipScan) : Prop := ∀ path, scan.files.contains path → path ∈ scan.seen

theorem PackagePath.parse_eq_ok {value path : String} (h : PackagePath.parse value = .ok path) :
    path = value ∧ PackagePath.isValid value = true := by
  obtain ⟨hvalid, h⟩ := ensure_bind_eq_ok.mp h
  exact ⟨(Except.ok.inj h).symm, hvalid⟩

variable {path : PackagePath}

theorem readZipFile_eq_ok {scan next : ZipScan} {entry : ZipEntry}
    (h : readZipFile limits scan path entry = .ok next) :
    next.files = scan.files.insert path entry.stream.bytes ∧ next.seen = scan.seen := by
  unfold readZipFile at h
  obtain ⟨-, h⟩ := unit_bind_eq_ok.mp h
  obtain ⟨-, h⟩ := unit_bind_eq_ok.mp h
  obtain ⟨-, h⟩ := unit_bind_eq_ok.mp h
  obtain ⟨total, -, h⟩ := bind_eq_ok.mp h
  obtain ⟨-, h⟩ := unit_bind_eq_ok.mp h
  obtain ⟨content, hcontent, h⟩ := bind_eq_ok.mp h
  obtain ⟨-, h⟩ := unit_bind_eq_ok.mp h
  cases h
  rw [readStreamBounded_eq_ok hcontent]
  exact ⟨rfl, rfl⟩

theorem scanZipEntry_eq_ok {scan next : ZipScan} {entry : Except String ZipEntry}
    (h : scanZipEntry limits scan entry = .ok next) :
    ∃ found path, entry = .ok found ∧ path ∉ scan.seen ∧ next.seen = path :: scan.seen ∧
      ((found.isDir = true ∧ next.files = scan.files) ∨
        (found.isDir = false ∧ fromUtf8 found.nameRaw = some path ∧
          next.files = scan.files.insert path found.stream.bytes)) := by
  unfold scanZipEntry at h
  obtain ⟨found, hentry, h⟩ := bind_eq_ok.mp h
  obtain ⟨raw, hraw, h⟩ := bind_eq_ok.mp h
  obtain ⟨path, hpath, h⟩ := bind_eq_ok.mp h
  obtain ⟨hfresh, h⟩ := ensure_bind_eq_ok.mp h
  obtain ⟨-, h⟩ := unit_bind_eq_ok.mp h
  have hfresh : path ∉ scan.seen := by simpa using hfresh
  refine ⟨found, path, mapError_eq_ok.mp hentry, hfresh, ?_⟩
  split at h
  · rename_i hdir
    cases h
    exact ⟨rfl, .inl ⟨hdir, rfl⟩⟩
  · rename_i hdir
    obtain ⟨hfiles, hseen⟩ := readZipFile_eq_ok h
    refine ⟨hseen, .inr ⟨Bool.eq_false_iff.mpr hdir, ?_, hfiles⟩⟩
    have hname : path = raw := by
      rw [canonicalArchivePath, if_neg (by simp [hdir])] at hpath
      exact (PackagePath.parse_eq_ok hpath).1
    rw [hname]
    exact okOr_eq_ok.mp hraw

theorem ZipScan.Seen.step {scan next : ZipScan} {entry : Except String ZipEntry} (h : scan.Seen)
    (hnext : scanZipEntry limits scan entry = .ok next) : next.Seen := by
  obtain ⟨found, path, -, -, hseen, hcases⟩ := scanZipEntry_eq_ok hnext
  intro other hother
  rw [hseen, List.mem_cons]
  rcases hcases with ⟨-, hfiles⟩ | ⟨-, -, hfiles⟩
  · rw [hfiles] at hother
    exact .inr (h other hother)
  · rw [hfiles, contains_eq_isSome, getElem?_insert] at hother
    split at hother
    · rename_i heq
      exact .inl heq.symm
    · rw [← contains_eq_isSome] at hother
      exact .inr (h other hother)

/-- The files read of some entries are the files among them. -/
theorem files_scanZip {entries : List (Except String ZipEntry)} {start final : ZipScan}
    (hseen : start.Seen) (h : entries.foldlM (scanZipEntry limits) start = .ok final)
    (path : PackagePath) (content : Bytes) :
    final.files[path]? = some content ↔ start.files[path]? = some content ∨
      ∃ entry ∈ entries, ZipEntry.IsFile path content entry := by
  induction entries generalizing start with
  | nil =>
    cases h
    simp
  | cons entry entries ih =>
    obtain ⟨middle, hfirst, h⟩ := bind_eq_ok.mp h
    rw [ih (hseen.step hfirst) h]
    simp only [List.mem_cons, exists_eq_or_imp, ← or_assoc]
    refine or_congr_left ?_
    obtain ⟨found, own, rfl, hfresh, -, hcases⟩ := scanZipEntry_eq_ok hfirst
    rcases hcases with ⟨hdir, hfiles⟩ | ⟨hdir, hname, hfiles⟩
    · rw [hfiles]
      refine (or_iff_left ?_).symm
      rintro ⟨other, heq, hfile, -⟩
      cases heq
      rw [hdir] at hfile
      cases hfile
    · have hnone : start.files[own]? = none := by
        cases hsome : start.files[own]? with
        | none => rfl
        | some old =>
          have hcontains : start.files.contains own := by rw [contains_eq_isSome, hsome]; rfl
          exact absurd (hseen own hcontains) hfresh
      rw [hfiles, getElem?_insert]
      split
      · rename_i heq
        subst heq
        rw [hnone]
        constructor
        · intro hcontent
          exact .inr ⟨found, rfl, hdir, hname, Option.some.inj hcontent⟩
        · rintro (hcontent | ⟨other, heq, -, -, rfl⟩)
          · cases hcontent
          · cases heq
            rfl
      · rename_i hne
        refine (or_iff_left ?_).symm
        rintro ⟨other, heq, -, hother, -⟩
        cases heq
        exact hne (Option.some.inj (hname.symm.trans hother))

variable {files : Files}

theorem files_readZip {bytes : Bytes} (h : readZip libraries limits bytes = .ok files)
    (path : PackagePath) (content : Bytes) :
    files[path]? = some content ↔ ArchiveHasFile libraries bytes path content := by
  unfold readZip at h
  obtain ⟨archive, harchive, h⟩ := bind_eq_ok.mp h
  obtain ⟨-, h⟩ := unit_bind_eq_ok.mp h
  obtain ⟨audited, -, h⟩ := bind_eq_ok.mp h
  obtain ⟨-, h⟩ := unit_bind_eq_ok.mp h
  obtain ⟨scan, hscan, h⟩ := bind_eq_ok.mp h
  cases h
  have harchive := mapError_eq_ok.mp harchive
  have hstart : (⟨∅, [], 0⟩ : ZipScan).Seen := by
    intro other hother
    simp at hother
  rw [files_scanZip hstart hscan]
  constructor
  · rintro (hcontent | hentry)
    · simp at hcontent
    · exact ⟨archive, harchive, hentry⟩
  · rintro ⟨other, hother, hentry⟩
    cases harchive.symm.trans hother
    exact .inr hentry

inductive Node.HasFile : Node → List Bytes → Bytes → Prop
  | file {length : Nat} {stream : Stream} : HasFile (.file length stream) [] stream.bytes
  | entry {entries : List (Bytes × Node)} {name : Bytes} {node : Node} {names : List Bytes}
      {content : Bytes} : (name, node) ∈ entries → HasFile node names content →
      HasFile (.directory entries) (name :: names) content

def pathOf (names : List Bytes) : Option PackagePath :=
  (names.mapM fromUtf8).map fun segments => "/".intercalate segments

def Node.Holds (names : List Bytes) (path : PackagePath) (content : Bytes) (node : Node) : Prop :=
  ∃ below, node.HasFile below content ∧ pathOf (names ++ below) = some path

/-- A file has been read, or is in a directory that is still pending. -/
def DirectoryScan.Holds (path : PackagePath) (content : Bytes) (scan : DirectoryScan) : Prop :=
  scan.files[path]? = some content ∨
    ∃ directory ∈ scan.pending, directory.node.Holds directory.names path content

theorem mapM_okOr {α β ε : Type} {f : α → Option β} {error : ε} {items : List α} {results : List β}
    (h : items.mapM (fun a => okOr (f a) error) = .ok results) :
    items.mapM f = some results := by
  induction items generalizing results with
  | nil =>
    cases h
    rfl
  | cons a items ih =>
    rw [List.mapM_cons] at h ⊢
    obtain ⟨b, hb, h⟩ := bind_eq_ok.mp h
    obtain ⟨rest, hrest, h⟩ := bind_eq_ok.mp h
    cases h
    rw [okOr_eq_ok.mp hb, ih hrest]
    rfl

variable {names : List Bytes}

theorem pathOf_of_canonical {logical : PackagePath}
    (h : canonicalRelativePath libraries names = .ok logical) : pathOf names = some logical := by
  obtain ⟨segments, hsegments, h⟩ := bind_eq_ok.mp h
  rw [pathOf, mapM_okOr hsegments, (PackagePath.parse_eq_ok h).1]
  rfl

variable {next scan : DirectoryScan}

theorem readDirectoryFile_eq_ok {logical : PackagePath} {length : Nat} {stream : Stream}
    (h : readDirectoryFile libraries limits root scan names logical length stream = .ok next) :
    scan.files[logical]? = none ∧ next.files = scan.files.insert logical stream.bytes ∧
      next.pending = scan.pending := by
  unfold readDirectoryFile at h
  obtain ⟨-, h⟩ := unit_bind_eq_ok.mp h
  obtain ⟨total, -, h⟩ := bind_eq_ok.mp h
  obtain ⟨content, hcontent, h⟩ := bind_eq_ok.mp h
  obtain ⟨hfresh, h⟩ := ensure_bind_eq_ok.mp h
  cases h
  rw [readStreamBounded_eq_ok hcontent]
  rw [contains_eq_isSome] at hfresh
  exact ⟨by simpa using hfresh, rfl, rfl⟩

variable {content : Bytes}

theorem Node.holds_file {length : Nat} {stream : Stream} :
    (Node.file length stream).Holds names path content ↔
      pathOf names = some path ∧ stream.bytes = content := by
  constructor
  · rintro ⟨below, hfile, hpath⟩
    cases hfile
    rw [List.append_nil] at hpath
    exact ⟨hpath, rfl⟩
  · rintro ⟨hpath, rfl⟩
    exact ⟨[], .file, by rwa [List.append_nil]⟩

theorem Node.holds_directory {entries : List (Bytes × Node)} :
    (Node.directory entries).Holds names path content ↔
      ∃ entry ∈ entries, entry.2.Holds (names ++ [entry.1]) path content := by
  constructor
  · rintro ⟨below, hfile, hpath⟩
    cases hfile with
    | entry hentry hfile =>
      exact ⟨_, hentry, _, hfile, by rwa [List.append_assoc, List.singleton_append]⟩
  · rintro ⟨⟨name, node⟩, hentry, below, hfile, hpath⟩
    exact ⟨name :: below, .entry hentry hfile,
      by rwa [List.append_assoc, List.singleton_append] at hpath⟩

theorem holds_scanDirectoryEntry {directory : List Bytes} {entry : Bytes × Node}
    (h : scanDirectoryEntry libraries limits root directory scan entry = .ok next)
    (path : PackagePath) (content : Bytes) : next.Holds path content ↔
      scan.Holds path content ∨ entry.2.Holds (directory ++ [entry.1]) path content := by
  unfold scanDirectoryEntry at h
  obtain ⟨-, h⟩ := unit_bind_eq_ok.mp h
  split at h
  · cases h
  obtain ⟨logical, hlogical, h⟩ := bind_eq_ok.mp h
  have hpath := pathOf_of_canonical hlogical
  split at h
  · cases h
  · rename_i length stream heq
    obtain ⟨hfresh, hfiles, hpending⟩ := readDirectoryFile_eq_ok h
    have hfresh : scan.files[logical]? = none := hfresh
    have hfiles : next.files = scan.files.insert logical stream.bytes := hfiles
    have hpending : next.pending = scan.pending := hpending
    rw [heq, Node.holds_file, hpath, Option.some.injEq, DirectoryScan.Holds, DirectoryScan.Holds,
      hfiles, hpending, getElem?_insert]
    split
    · rename_i hsame
      subst hsame
      simp [hfresh, or_comm]
    · rename_i hne
      simp [hne]
  · cases h
  · cases h
    simp only [DirectoryScan.Holds, List.mem_cons, exists_eq_or_imp, or_assoc]
    exact or_congr_right or_comm

theorem holds_readEntries {directory : Pending}
    (h : readEntries libraries limits root directory scan = .ok next) : next.Holds path content ↔
      scan.Holds path content ∨ directory.node.Holds directory.names path content := by
  unfold readEntries at h
  split at h
  · rename_i entries heq
    have hadds := foldlM_adds (f := scanDirectoryEntry libraries limits root directory.names)
      (fun _ _ _ hnext => holds_scanDirectoryEntry hnext path content) h
    rw [hadds, heq, Node.holds_directory]
    simp only [sortedEntries, List.mem_insertionSort]
  · cases h
  · cases h

theorem files_walk (h : walk libraries limits root scan = .ok files) (path : PackagePath)
    (content : Bytes) : files[path]? = some content ↔ scan.Holds path content := by
  induction scan using walk.induct libraries limits root with
  | case1 scan hpending =>
    rw [walk] at h
    split at h
    · cases h
      simp [DirectoryScan.Holds, hpending]
    · rename_i hcons
      rw [hpending] at hcons
      cases hcons
  | case2 scan directory pending hpending failure hread =>
    rw [walk] at h
    split at h
    · rename_i hnil
      rw [hpending] at hnil
      cases hnil
    · rename_i hcons
      obtain ⟨rfl, rfl⟩ := List.cons.inj (hpending.symm.trans hcons)
      rw [hread] at h
      cases h
  | case3 scan directory pending hpending next hread ih =>
    rw [walk] at h
    split at h
    · rename_i hnil
      rw [hpending] at hnil
      cases hnil
    · rename_i hcons
      obtain ⟨rfl, rfl⟩ := List.cons.inj (hpending.symm.trans hcons)
      rw [hread] at h
      rw [ih h, holds_readEntries hread]
      simp only [DirectoryScan.Holds, hpending, List.mem_cons, exists_eq_or_imp, or_assoc]
      exact or_congr_right or_comm

theorem files_readDirectory {node : Node} (h : readDirectory libraries limits root node = .ok files)
    (path : PackagePath) (content : Bytes) :
    files[path]? = some content ↔ node.Holds [] path content := by
  rw [files_walk h]
  simp [DirectoryScan.Holds]

end KeyReader.Package
