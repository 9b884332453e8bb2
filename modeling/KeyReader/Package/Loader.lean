import KeyReader.Framing
import KeyReader.Package.Source

/-! The loader of extension packages: the files of a source take their roles, their contents are
hashed, and the signature over the hash is verified. -/

namespace KeyReader.Package

open Ascii Checked Extension Machine Std
open KeyReader.Utf8 (isWhitespace)

structure PackageBlob where
  path : PackagePath
  bytes : Bytes
  sha256 : Sha256Digest

/-- A validated package, owned by the memory. -/
structure LoadedPackage where
  source : PackageSourceKind
  manifest : PackageManifest
  manifestBlob : PackageBlob
  ui : Option PackageBlob
  component : Option PackageBlob
  assets : ExtTreeMap PackagePath PackageBlob
  contentSha256 : Sha256Digest
  archiveSha256 : Option Sha256Digest
  signature : Option VerifiedPackageSignature

structure PackageLoader where
  limits : PackageLimits
  signaturePolicy : SignaturePolicy

/-- `b"KEYEXT-CONTENT-V1\0"`. -/
def contentHeader : Bytes :=
  [75, 69, 89, 69, 88, 84, 45, 67, 79, 78, 84, 69, 78, 84, 45, 86, 49, 0]

def pathBytes (path : String) : Bytes := path.toUTF8.data.toList

/-- Decoding of bytes among which some texts are known. -/
def decodeKnown (texts : List String) (bytes : Bytes) : Option String :=
  match texts.find? (pathBytes · = bytes) with
  | some text => some text
  | none => fromUtf8 bytes

theorem fromUtf8_eq_decodeKnown (texts : List String) (bytes : Bytes) :
    fromUtf8 bytes = decodeKnown texts bytes := by
  unfold decodeKnown
  split
  · rename_i text h
    obtain rfl : pathBytes text = bytes := by simpa using List.find?_some h
    exact dif_pos text.isValidUTF8
  · rfl

/-- The path of a file and its content, each after its length. -/
def contentEntry (file : String × Bytes) : Bytes :=
  Framing.framed 8 (pathBytes file.1) ++ Framing.framed 8 file.2

/-- The bytes that `canonical_content_hash` hashes. -/
def canonicalContent (files : List (String × Bytes)) : Load Bytes := do
  ensure (∀ file ∈ files, (pathBytes file.1).length ≤ u64Max) (.panic "package path length is bounded")
  ensure (∀ file ∈ files, file.2.length ≤ u64Max) (.panic "package file length is bounded")
  .ok (contentHeader ++ files.flatMap contentEntry)

section
variable {ν : Type}

mutual

/-- The number of nodes once `value` is counted too, if it is bounded. -/
def jsonVisit (limits : ValidationLimits) : Json ν → Nat → Nat → Option Nat
  | value, depth, nodes =>
    let nodes := saturatingAdd nodes 1
    if limits.maximumValueDepth < depth ∨ limits.maximumValueNodes < nodes then none
    else match value with
      | .string value =>
        if value.utf8ByteSize ≤ limits.maximumStringBytes then some nodes else none
      | .array values =>
        if values.length ≤ limits.maximumListItems then
          jsonVisitList limits values (depth + 1) nodes
        else none
      | .object fields =>
        if fields.length ≤ limits.maximumListItems then
          jsonVisitFields limits fields (depth + 1) nodes
        else none
      | .null => some nodes
      | .bool _ => some nodes
      | .number _ => some nodes

def jsonVisitList (limits : ValidationLimits) : List (Json ν) → Nat → Nat → Option Nat
  | [], _, nodes => some nodes
  | value :: values, depth, nodes =>
    (jsonVisit limits value depth nodes).bind (jsonVisitList limits values depth)

def jsonVisitFields (limits : ValidationLimits) : List (String × Json ν) → Nat → Nat → Option Nat
  | [], _, nodes => some nodes
  | (key, value) :: fields, depth, nodes =>
    if key.utf8ByteSize ≤ limits.maximumStringBytes then
      (jsonVisit limits value depth nodes).bind (jsonVisitFields limits fields depth)
    else none

end

def jsonIsBounded (value : Json ν) (limits : ValidationLimits) : Bool :=
  (jsonVisit limits value 1 0).isSome

def validateUi (libraries : Libraries ν) (limits : PackageLimits) (bytes : Bytes) : Load Unit := do
  let value ← (libraries.jsonFromSlice bytes).mapError fun message =>
    Failure.error (.invalidUi message)
  check (jsonIsBounded value limits.manifestValidation = true)
    (.invalidUi "UI JSON exceeds structural limits")

def validateComponent (bytes : Bytes) : Load Unit :=
  check (8 ≤ bytes.length ∧ bytes.take 4 = [0, 97, 115, 109])
    (.invalidComponent "component does not have WebAssembly magic/version bytes")

/-- `Path::extension` of a path in a package. -/
def fileExtension (path : PackagePath) : Option String :=
  let name := (path.toList.splitOn '/').getLastD []
  let reversed := name.reverse
  let before := (reversed.dropWhile (· ≠ '.')).drop 1
  if before = [] then none else some (String.ofList (reversed.takeWhile (· ≠ '.')).reverse)

def contains (text part : String) : Bool := part.toList <:+: text.toList

def safeSvg (bytes : Bytes) : Bool :=
  match fromUtf8 bytes with
  | none => false
  | some source =>
    let lower := lower source
    let trimmed := String.ofList (lower.toList.dropWhile isWhitespace)
    (startsWith "<svg" trimmed || startsWith "<?xml" trimmed) &&
      ["<script", "<!doctype", "<!entity", "javascript:", "href=\"http:", "href=\"https:",
        "href='http:", "href='https:"].all fun part => !contains lower part

def assetIsValid (libraries : Libraries ν) (extension : String) (bytes : Bytes) : Bool :=
  if extension = "png" then bytes.take 8 = [0x89, 0x50, 0x4e, 0x47, 0x0d, 0x0a, 0x1a, 0x0a]
  else if extension = "jpg" ∨ extension = "jpeg" then bytes.take 3 = [0xff, 0xd8, 0xff]
  else if extension = "webp" then
    12 ≤ bytes.length ∧ bytes.take 4 = [0x52, 0x49, 0x46, 0x46] ∧
      (bytes.drop 8).take 4 = [0x57, 0x45, 0x42, 0x50]
  else if extension = "json" then (libraries.jsonFromSlice bytes).isOk
  else if extension = "toml" then (fromUtf8 bytes).any libraries.isToml
  else if extension = "svg" then safeSvg bytes
  else false

def validateAsset (libraries : Libraries ν) (path : PackagePath) (bytes : Bytes) : Load Unit := do
  let extension ← okOr ((fileExtension path).map lower)
    (.error (.invalidAsset path "asset has no supported extension"))
  check (assetIsValid libraries extension bytes = true)
    (.invalidAsset path "unsupported extension or malformed content")

end

def entrypointPaths : ExtensionEntrypoint → Option PackagePath × Option PackagePath
  | .declarative ui => (some ui, none)
  | .wasmComponent component _ ui => (ui, some component)
  | .nativeBuiltin _ ui => (ui, none)

def checkDeclared (files : Files) (maximum : Nat) (validate : Bytes → Load Unit) :
    Option PackagePath → Load Unit
  | none => .ok ()
  | some path => do
    let bytes ← okOr files[path]? (.error (.missingEntrypointFile path))
    checkFileSize path bytes.length maximum
    validate bytes

/-- The files that are neither the manifest nor declared have to be assets. -/
def assetPaths (files : Files) (ui component : Option PackagePath) : Load (List PackagePath) :=
  let paths := files.keys.filter fun path =>
    path ≠ manifestPath ∧ ui ≠ some path ∧ component ≠ some path
  match paths.find? fun path => !startsWith "assets/" path with
  | some path => .error (.error (.unexpectedFile path))
  | none => .ok paths

/-- `files.remove` of a file that has to be there. -/
def takeFile (files : Files) (path : PackagePath) (message : String) : Load (Bytes × Files) := do
  let bytes ← okOr files[path]? (.panic message)
  .ok (bytes, files.erase path)

section
variable {ν : Type} (libraries : Libraries ν)

def newBlob (path : PackagePath) (bytes : Bytes) : PackageBlob :=
  ⟨path, bytes, libraries.sha256 bytes⟩

def takeDeclared (files : Files) (message : String) :
    Option PackagePath → Load (Option PackageBlob × Files)
  | none => .ok (none, files)
  | some path => do
    let (bytes, files) ← takeFile files path message
    .ok (some (newBlob libraries path bytes), files)

def takeAsset (assets : ExtTreeMap PackagePath PackageBlob × Files) (path : PackagePath) :
    Load (ExtTreeMap PackagePath PackageBlob × Files) := do
  ensure (PackagePath.isValid path = true) (.panic "validated package path")
  let (bytes, files) ← takeFile assets.2 path "asset exists"
  .ok (assets.1.insert path (newBlob libraries path bytes), files)

namespace PackageLoader

variable (loader : PackageLoader) (verifier : SignatureVerifier)

def requiresSignature : PackageSourceKind → Bool
  | .keyextArchive => loader.signaturePolicy.requireSignedArchives
  | .developmentDirectory => !loader.signaturePolicy.allowUnsignedDevelopmentDirectories

def verifySignature (bytes : Option Bytes) (source : PackageSourceKind)
    (contentSha256 : Sha256Digest) : Load (Option VerifiedPackageSignature) :=
  match bytes with
  | none => do
    check (loader.requiresSignature source = false) .signatureRequired
    .ok none
  | some bytes => do
    let metadata ← (SignatureMetadata.parse libraries bytes).mapError fun message =>
      Failure.error (.invalidSignatureMetadata message)
    check (metadata.signedContentHash = contentSha256) .signatureHashMismatch
    let signer ← (verifier metadata contentSha256).mapError fun error =>
      Failure.error (.signatureRejected error)
    check (signer.keyId = metadata.keyId) (.signatureRejected .invalidSignature)
    .ok (some ⟨metadata, signer⟩)

variable [Platform]

section

variable (files : Files)

def readManifest : Load PackageManifest := do
  let bytes ← okOr files[manifestPath]? (.error .missingManifest)
  checkFileSize manifestPath bytes.length loader.limits.maximumManifestBytes
  let text ← okOr (fromUtf8 bytes) (.error (.invalidManifest "manifest is not UTF-8"))
  let manifest ← (libraries.manifestFromToml text).mapError fun message =>
    Failure.error (.invalidManifest message)
  let errors := manifest.toExtensionManifest.validate loader.limits.manifestValidation
  check (errors = []) (.manifestValidation errors)
  .ok manifest

def checkFiles (ui component : Option PackagePath) : Load (List PackagePath) := do
  check (¬(ui = component ∧ ui ≠ none)) (.invalidComponent "UI and component paths must differ")
  checkDeclared files loader.limits.maximumUiBytes (validateUi libraries loader.limits) ui
  checkDeclared files loader.limits.maximumComponentBytes validateComponent component
  let assets ← assetPaths files ui component
  check (assets.length ≤ loader.limits.maximumAssets)
    (.assetLimit assets.length loader.limits.maximumAssets)
  assets.forM fun path => do
    let bytes ← okOr files[path]? (.panic "collected package path exists")
    checkFileSize path bytes.length loader.limits.maximumAssetBytes
    validateAsset libraries path bytes
  .ok assets

def assemble (source : PackageSourceKind) (archiveSha256 : Option Sha256Digest)
    (manifest : PackageManifest) (assetPaths : List PackagePath) (contentSha256 : Sha256Digest)
    (signature : Option VerifiedPackageSignature) : Load LoadedPackage := do
  let (bytes, files) ← takeFile files manifestPath "manifest exists"
  let (uiPath, componentPath) := entrypointPaths manifest.entrypoint
  let (ui, files) ← takeDeclared libraries files "declared UI exists" uiPath
  let (component, files) ← takeDeclared libraries files "declared component exists" componentPath
  let (assets, _) ← assetPaths.foldlM (takeAsset libraries) (∅, files)
  .ok { source, manifest, manifestBlob := newBlob libraries manifestPath bytes, ui, component
        assets, contentSha256, archiveSha256, signature }

/-- `build_loaded` without `signature.toml`, whose content is given. -/
def buildUnsigned (signatureBytes : Option Bytes) (source : PackageSourceKind)
    (archiveSha256 : Option Sha256Digest) : Load LoadedPackage := do
  let manifest ← loader.readManifest libraries files
  let (uiPath, componentPath) := entrypointPaths manifest.entrypoint
  let assetPaths ← loader.checkFiles libraries files uiPath componentPath
  let content ← canonicalContent files.toList
  let contentSha256 := libraries.sha256 content
  let signature ← loader.verifySignature libraries verifier signatureBytes source contentSha256
  assemble libraries files source archiveSha256 manifest assetPaths contentSha256 signature

def buildLoaded (source : PackageSourceKind)
    (archiveSha256 : Option Sha256Digest) : Load LoadedPackage := do
  let signatureBytes := files[signaturePath]?
  check (signatureBytes.all (·.length ≤ loader.limits.maximumSignatureBytes)) (.fileTooLarge
    signaturePath (signatureBytes.elim 0 (·.length)) loader.limits.maximumSignatureBytes)
  loader.buildUnsigned libraries verifier (files.erase signaturePath) signatureBytes source
    archiveSha256

end

/-- The node at a path, which `path` displays, as an archive. -/
def loadKeyext (path : String) (node : Node) : Load LoadedPackage :=
  match node with
  | .unreadable message => .error (.error (.io path message))
  | .symlink => .error (.error (.sourceIsSymlink path))
  | .file length stream => do
    check (length ≤ loader.limits.maximumArchiveBytes)
      (.archiveTooLarge length loader.limits.maximumArchiveBytes)
    let bytes ← readStreamBounded stream loader.limits.maximumArchiveBytes path
    let files ← readZip libraries loader.limits bytes
    loader.buildLoaded libraries verifier files .keyextArchive (some (libraries.sha256 bytes))
  | _ => .error (.error (.sourceType path))

/-- The node at a path, which `path` displays, as a directory. -/
def loadDevelopmentDirectory (path : String) (node : Node) : Load LoadedPackage :=
  match node with
  | .unreadable message => .error (.error (.io path message))
  | .symlink => .error (.error (.sourceIsSymlink path))
  | .file _ _ => .error (.error (.sourceType path))
  | .special => .error (.error (.sourceType path))
  | directory => do
    let files ← readDirectory libraries loader.limits path directory
    loader.buildLoaded libraries verifier files .developmentDirectory none

def load (kind : PackageSourceKind) (path : String) (node : Node) : Load LoadedPackage :=
  match kind with
  | .keyextArchive => loader.loadKeyext libraries verifier path node
  | .developmentDirectory => loader.loadDevelopmentDirectory libraries verifier path node

end PackageLoader

end

end KeyReader.Package
