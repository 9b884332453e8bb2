import KeyReader.Package.Format
import Mathlib.Algebra.Order.BigOperators.Group.List
import Mathlib.Algebra.Order.Ring.Nat
import Mathlib.Data.List.Sort

/-! The sources of a package: the reading of an archive and of a development directory into the
contents of their files. -/

namespace KeyReader.Package

open Ascii Checked Machine Std List

/-- The contents of the files of a source by their paths. -/
abbrev Files := ExtTreeMap String Bytes

/-- `read_stream_bounded`. -/
def readStreamBounded (stream : Stream) (maximum : Nat) (path : String) : Load Bytes :=
  let limit := saturatingAdd maximum 1
  match stream.failure with
  | some message =>
    if stream.bytes.length < limit then .error (.error (.io path message))
    else .error (.error (.fileTooLarge path limit maximum))
  | none => do
    let output := stream.bytes.take limit
    check (output.length ≤ maximum) (.fileTooLarge path output.length maximum)
    .ok output

def checkFileSize (path : String) (actual maximum : Nat) : Load Unit :=
  check (actual ≤ maximum) (.fileTooLarge path actual maximum)

def checkedTotal (current additional maximum : Nat) : Load Nat := do
  let actual := saturatingAdd current additional
  check (actual ≤ maximum) (.totalSizeLimit actual maximum)
  .ok actual

theorem readStreamBounded_eq_ok {stream : Stream} {maximum : Nat} {path : String} {output : Bytes}
    (h : readStreamBounded stream maximum path = .ok output) : output = stream.bytes := by
  unfold readStreamBounded at h
  dsimp only at h
  split at h
  · split at h <;> cases h
  · obtain ⟨hle, h⟩ := ensure_bind_eq_ok.mp h
    rw [← Except.ok.inj h]
    apply take_of_length_le
    have hbound := stream.length_le
    rw [length_take] at hle
    unfold saturatingAdd at hle ⊢
    omega

def canonicalArchivePath (raw : String) (directory : Bool) : Load PackagePath :=
  let raw := if directory ∧ endsWith "/" raw then String.ofList raw.toList.dropLast else raw
  PackagePath.parse raw

/-- `u16::from_le_bytes` of two bytes of a header. -/
def u16At (header : Bytes) (offset : Nat) : Nat :=
  (header.getD offset 0).toNat + 256 * (header.getD (offset + 1) 0).toNat

def centralHeaderSignature : Bytes := [0x50, 0x4b, 0x01, 0x02]

/-- `audit_central_directory` from a cursor, with the paths seen.  Its fuel is the length of the
archive: each entry moves the cursor on. -/
def auditCentralDirectory (archive : Bytes) (maximumEntries : Nat) :
    Nat → Nat → List PackagePath → Load (List PackagePath)
  | 0, _, seen => .ok seen
  | fuel + 1, cursor, seen =>
    if (archive.drop cursor).take 4 ≠ centralHeaderSignature then .ok seen
    else do
      let headerEnd := cursor + 46
      let header := (archive.drop cursor).take 46
      check (headerEnd ≤ archive.length) (.invalidArchive "truncated central directory header")
      let nameEnd := headerEnd + u16At header 28
      check (nameEnd ≤ archive.length) (.invalidArchive "truncated central directory name")
      let rawName ← okOr (fromUtf8 ((archive.drop headerEnd).take (u16At header 28)))
        (.error (.unsafePath "<non-UTF-8>"))
      let path ← canonicalArchivePath rawName (endsWith "/" rawName)
      check (¬seen.contains path) (.duplicatePath path)
      check (seen.length + 1 ≤ maximumEntries) (.entryLimit (seen.length + 1) maximumEntries)
      let next := nameEnd + u16At header 30 + u16At header 32
      check (next ≤ archive.length) (.invalidArchive "truncated central directory entry")
      auditCentralDirectory archive maximumEntries fuel next (seen ++ [path])

def compressionRatioExceeded (uncompressed compressed maximum : Nat) : Bool :=
  0 < uncompressed ∧ (compressed = 0 ∨ min (compressed * maximum) u64Max < uncompressed)

/-- What has been read of an archive: the files, the paths of all entries, and the total size. -/
structure ZipScan where
  files : Files
  seen : List PackagePath
  total : Nat

/-- The content of an entry that is not a directory. -/
def readZipFile (limits : PackageLimits) (scan : ZipScan) (path : PackagePath) (entry : ZipEntry) :
    Load ZipScan := do
  check (entry.encrypted = false) (.encryptedEntry path)
  check (entry.compression ≠ .other) (.unsupportedCompression path)
  checkFileSize path entry.size limits.maximumFileBytes
  let total ← checkedTotal scan.total entry.size limits.maximumTotalUncompressedBytes
  check (compressionRatioExceeded entry.size entry.compressedSize limits.maximumCompressionRatio =
    false) (.compressionRatio path)
  let content ← readStreamBounded entry.stream limits.maximumFileBytes path
  check (content.length = entry.size) (.truncatedEntry path)
  .ok { scan with files := scan.files.insert path content, total }

def scanZipEntry (limits : PackageLimits) (scan : ZipScan) (entry : Except String ZipEntry) :
    Load ZipScan := do
  let entry ← entry.mapError fun message => Failure.error (.invalidArchive message)
  let rawName ← okOr (fromUtf8 entry.nameRaw) (.error (.unsafePath "<non-UTF-8>"))
  let path ← canonicalArchivePath rawName entry.isDir
  check (¬scan.seen.contains path) (.duplicatePath path)
  let scan := { scan with seen := path :: scan.seen }
  check (entry.isSymlink = false ∧ (entry.isDir = true ∨ entry.isFile = true)) (.symlinkEntry path)
  if entry.isDir then .ok scan else readZipFile limits scan path entry

def readZip {ν : Type} (libraries : Libraries ν) (limits : PackageLimits) (bytes : Bytes) :
    Load Files := do
  let archive ← (libraries.openZip bytes).mapError fun message =>
    Failure.error (.invalidArchive message)
  check (archive.centralDirectoryStart ≤ bytes.length)
    (.invalidArchive "central directory offset is invalid")
  let _ ← auditCentralDirectory bytes limits.maximumEntries (bytes.length + 1)
    archive.centralDirectoryStart []
  check (archive.entries.length ≤ limits.maximumEntries)
    (.entryLimit archive.entries.length limits.maximumEntries)
  let scan ← archive.entries.foldlM (scanZipEntry limits) ⟨∅, [], 0⟩
  .ok scan.files

/-- What a path of the file system leads to, symbolic links not followed.  The names of a directory
are bytes. -/
inductive Node
  /-- Its metadata cannot be read. -/
  | unreadable (message : String)
  | file (length : Nat) (stream : Stream)
  | directory (entries : List (Bytes × Node))
  /-- A directory whose entries cannot be read. -/
  | unlisted (message : String)
  | symlink
  /-- Neither a file nor a directory. -/
  | special

mutual

/-- The number of nodes. -/
def Node.weight : Node → Nat
  | .directory entries => 1 + Node.weights entries
  | .unreadable _ => 1
  | .file _ _ => 1
  | .unlisted _ => 1
  | .symlink => 1
  | .special => 1

def Node.weights : List (Bytes × Node) → Nat
  | [] => 0
  | (_, node) :: entries => node.weight + Node.weights entries

end

theorem Node.weights_eq_sum (entries : List (Bytes × Node)) :
    Node.weights entries = (entries.map (·.2.weight)).sum := by
  induction entries with
  | nil => rfl
  | cons entry entries ih =>
    obtain ⟨name, node⟩ := entry
    rw [Node.weights, ih, map_cons, sum_cons]

/-- A directory still to be read: the names that lead to it, and the node. -/
structure Pending where
  names : List Bytes
  node : Node

/-- What has been read of a directory: the files, the directories still to be read, the number of
entries seen and the total size. -/
structure DirectoryScan where
  files : Files
  pending : List Pending
  seen : Nat
  total : Nat

def DirectoryScan.weight (scan : DirectoryScan) : Nat := (scan.pending.map (·.node.weight)).sum

section
variable {ν : Type} (libraries : Libraries ν) (limits : PackageLimits) (root : String)

/-- `display_path` of the path below the root that names lead to. -/
def displayPath (names : List Bytes) : String :=
  names.foldl (fun path name => path ++ "/" ++ libraries.fromUtf8Lossy name) root

/-- `canonical_relative_path`. -/
def canonicalRelativePath (names : List Bytes) : Load PackagePath := do
  let segments ← names.mapM fun name => okOr (fromUtf8 name)
    (.error (.unsafePath ("/".intercalate (names.map libraries.fromUtf8Lossy))))
  PackagePath.parse ("/".intercalate segments)

def readDirectoryFile (scan : DirectoryScan) (names : List Bytes) (logical : PackagePath)
    (length : Nat) (stream : Stream) : Load DirectoryScan := do
  checkFileSize logical length limits.maximumFileBytes
  let total ← checkedTotal scan.total length limits.maximumTotalUncompressedBytes
  let content ← readStreamBounded stream limits.maximumFileBytes (displayPath libraries root names)
  check (¬scan.files.contains logical) (.duplicatePath logical)
  .ok { scan with files := scan.files.insert logical content, total }

def scanDirectoryEntry (directory : List Bytes) (scan : DirectoryScan) (entry : Bytes × Node) :
    Load DirectoryScan := do
  let names := directory ++ [entry.1]
  let scan := { scan with seen := saturatingAdd scan.seen 1 }
  check (scan.seen ≤ limits.maximumEntries) (.entryLimit scan.seen limits.maximumEntries)
  match entry.2 with
  | .unreadable message => .error (.error (.io (displayPath libraries root names) message))
  | node => do
    let logical ← canonicalRelativePath libraries names
    match node with
    | .symlink => .error (.error (.symlinkEntry logical))
    | .file length stream => readDirectoryFile libraries limits root scan names logical length stream
    | .special => .error (.error (.sourceType (displayPath libraries root names)))
    | directory => .ok { scan with pending := ⟨names, directory⟩ :: scan.pending }

/-- `entries.sort_by_key(fs::DirEntry::file_name)`. -/
def sortedEntries (entries : List (Bytes × Node)) : List (Bytes × Node) :=
  entries.insertionSort fun left right => left.1 ≤ right.1

def readEntries (directory : Pending) (scan : DirectoryScan) : Load DirectoryScan :=
  match directory.node with
  | .directory entries =>
    (sortedEntries entries).foldlM (scanDirectoryEntry libraries limits root directory.names) scan
  | .unlisted message => .error (.error (.io (displayPath libraries root directory.names) message))
  -- only directories are pending: the listing of anything else fails
  | _ => .error (.error (.io (displayPath libraries root directory.names) "Not a directory"))

variable {libraries limits root} {next scan : DirectoryScan}

theorem weight_readDirectoryFile {names : List Bytes} {logical : PackagePath} {length : Nat}
    {stream : Stream}
    (h : readDirectoryFile libraries limits root scan names logical length stream = .ok next) :
    next.weight = scan.weight := by
  unfold readDirectoryFile at h
  obtain ⟨-, h⟩ := unit_bind_eq_ok.mp h
  obtain ⟨total, -, h⟩ := bind_eq_ok.mp h
  obtain ⟨content, -, h⟩ := bind_eq_ok.mp h
  obtain ⟨-, h⟩ := unit_bind_eq_ok.mp h
  cases h
  rfl

theorem weight_scanDirectoryEntry {directory : List Bytes} {entry : Bytes × Node}
    (h : scanDirectoryEntry libraries limits root directory scan entry = .ok next) :
    next.weight ≤ scan.weight + entry.2.weight := by
  unfold scanDirectoryEntry at h
  obtain ⟨-, h⟩ := unit_bind_eq_ok.mp h
  split at h
  · cases h
  obtain ⟨logical, -, h⟩ := bind_eq_ok.mp h
  split at h
  · cases h
  · rw [weight_readDirectoryFile h]
    exact Nat.le_add_right ..
  · cases h
  · cases h
    rw [DirectoryScan.weight, map_cons, sum_cons, Nat.add_comm]
    exact le_rfl

theorem weight_scanEntries {directory : List Bytes} {entries : List (Bytes × Node)}
    (h : entries.foldlM (scanDirectoryEntry libraries limits root directory) scan = .ok next) :
    next.weight ≤ scan.weight + (entries.map (·.2.weight)).sum := by
  induction entries generalizing scan with
  | nil =>
    cases h
    exact le_rfl
  | cons entry entries ih =>
    obtain ⟨middle, hentry, h⟩ := bind_eq_ok.mp h
    have hfirst := weight_scanDirectoryEntry hentry
    have hrest := ih h
    rw [map_cons, sum_cons]
    omega

theorem weight_readEntries {directory : Pending}
    (h : readEntries libraries limits root directory scan = .ok next) :
    next.weight < scan.weight + directory.node.weight := by
  unfold readEntries at h
  split at h
  · rename_i entries heq
    have hsum : ((sortedEntries entries).map (·.2.weight)).sum = Node.weights entries := by
      rw [Node.weights_eq_sum]
      exact ((perm_insertionSort _ entries).map _).sum_eq
    have hweight := weight_scanEntries h
    rw [heq, Node.weight]
    omega
  · cases h
  · cases h

variable (libraries limits root)

/-- The loop of `read_directory`. -/
def walk (scan : DirectoryScan) : Load Files :=
  match _hpending : scan.pending with
  | [] => .ok scan.files
  | directory :: pending =>
    match _hread : readEntries libraries limits root directory { scan with pending } with
    | .error failure => .error failure
    | .ok next => walk next
termination_by scan.weight
decreasing_by
  have hless := weight_readEntries _hread
  have hweight : scan.weight = directory.node.weight + (pending.map (·.node.weight)).sum := by
    rw [DirectoryScan.weight, _hpending, map_cons, sum_cons]
  rw [hweight, Nat.add_comm]
  exact hless

def readDirectory (node : Node) : Load Files :=
  walk libraries limits root ⟨∅, [⟨[], node⟩], 0, 0⟩

end

end KeyReader.Package
