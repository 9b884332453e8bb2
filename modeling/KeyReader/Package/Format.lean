import KeyReader.Ascii
import KeyReader.Checked
import KeyReader.Extension.Host
import KeyReader.Hex
import KeyReader.Json

/-! The format of extension packages: the limits and errors of the loader, the paths in a package,
and the metadata of a signature.  What other libraries do is given. -/

namespace KeyReader.Package

open Ascii Checked Extension

abbrev Bytes := List UInt8

structure Sha256Digest where
  bytes : Bytes
  length_eq : bytes.length = 32
  deriving DecidableEq

def Sha256Digest.toHex (digest : Sha256Digest) : String :=
  String.ofList (digest.bytes.flatMap Hex.encodeByte)

structure PackageLimits where
  maximumArchiveBytes : Nat
  maximumEntries : Nat
  maximumFileBytes : Nat
  maximumTotalUncompressedBytes : Nat
  maximumCompressionRatio : Nat
  maximumManifestBytes : Nat
  maximumUiBytes : Nat
  maximumComponentBytes : Nat
  maximumAssets : Nat
  maximumAssetBytes : Nat
  maximumSignatureBytes : Nat
  manifestValidation : ValidationLimits

def PackageLimits.default : PackageLimits where
  maximumArchiveBytes := 64 * 1024 * 1024
  maximumEntries := 512
  maximumFileBytes := 32 * 1024 * 1024
  maximumTotalUncompressedBytes := 96 * 1024 * 1024
  maximumCompressionRatio := 200
  maximumManifestBytes := 1024 * 1024
  maximumUiBytes := 4 * 1024 * 1024
  maximumComponentBytes := 32 * 1024 * 1024
  maximumAssets := 256
  maximumAssetBytes := 16 * 1024 * 1024
  maximumSignatureBytes := 32 * 1024
  manifestValidation := .default

structure SignaturePolicy where
  requireSignedArchives : Bool
  allowUnsignedDevelopmentDirectories : Bool

def SignaturePolicy.default : SignaturePolicy := ⟨true, false⟩

inductive PackageSourceKind
  | keyextArchive
  | developmentDirectory
  deriving DecidableEq

inductive SignatureVerificationError
  | unsupportedAlgorithm (algorithm : String)
  | unknownKey (key : String)
  | invalidSignature
  | policyDenied (message : String)
  deriving DecidableEq

inductive PackageError
  | io (path message : String)
  | sourceIsSymlink (path : String)
  | sourceType (path : String)
  | archiveTooLarge (actual maximum : Nat)
  | invalidArchive (message : String)
  | entryLimit (actual maximum : Nat)
  | unsafePath (path : String)
  | duplicatePath (path : String)
  | symlinkEntry (path : String)
  | encryptedEntry (path : String)
  | unsupportedCompression (path : String)
  | fileTooLarge (path : String) (actual maximum : Nat)
  | totalSizeLimit (actual maximum : Nat)
  | compressionRatio (path : String)
  | truncatedEntry (path : String)
  | missingManifest
  | invalidManifest (message : String)
  | manifestValidation (errors : List ValidationError)
  | unexpectedFile (path : String)
  | missingEntrypointFile (path : String)
  | invalidUi (message : String)
  | invalidComponent (message : String)
  | assetLimit (actual maximum : Nat)
  | invalidAsset (path reason : String)
  | signatureRequired
  /-- The metadata are malformed. -/
  | invalidSignatureMetadata (message : String)
  | signatureHashMismatch
  | signatureRejected (error : SignatureVerificationError)
  deriving DecidableEq

/-- The end of a load that gives no package: an error, or the failure of an `expect`. -/
inductive Failure
  | error (error : PackageError)
  | panic (message : String)
  deriving DecidableEq

abbrev Load := Except Failure

/-- Goes on when `condition` holds, and otherwise returns the error. -/
def check (condition : Prop) [Decidable condition] (error : PackageError) : Load Unit :=
  ensure condition (.error error)

abbrev PackagePath := String

def PackagePath.isValid (value : String) : Bool :=
  !value.isEmpty && value.utf8ByteSize ≤ 1024 && !startsWith "/" value && !endsWith "/" value &&
    !value.toList.contains '\\' && !value.toList.contains (Char.ofNat 0) &&
    (value.toList.splitOn '/').all fun segment =>
      segment ≠ [] && segment ≠ ['.'] && segment ≠ ['.', '.']

def PackagePath.parse (value : String) : Load PackagePath := do
  check (PackagePath.isValid value = true) (.unsafePath value)
  .ok value

def manifestPath : String := "manifest.toml"

def signaturePath : String := "signature.toml"

structure Publisher where
  id : String
  name : String

/-- The manifest of a package: what the host knows of it, and what is shown to the user. -/
structure PackageManifest extends ExtensionManifest where
  name : String
  description : String
  publisher : Publisher

structure RawSignature where
  schemaVersion : Nat
  algorithm : String
  keyId : String
  publisher : Option String
  signedContentSha256 : String
  signatureHex : String

structure SignatureMetadata where
  schemaVersion : Nat
  algorithm : String
  keyId : String
  publisher : Option String
  signedContentHash : Sha256Digest
  signature : Bytes

structure VerifiedSigner where
  keyId : String
  identity : String

structure VerifiedPackageSignature where
  metadata : SignatureMetadata
  signer : VerifiedSigner

/-- `SignatureVerifier::verify`. -/
abbrev SignatureVerifier :=
  SignatureMetadata → Sha256Digest → Except SignatureVerificationError VerifiedSigner

section

variable (value : String)

def canonicalToken (maximumBytes : Nat) : Bool :=
  !value.isEmpty && value.utf8ByteSize ≤ maximumBytes && value.toList.all fun character =>
    character.isLower || character.isDigit || ['-', '_'].contains character

def canonicalKeyId : Bool :=
  !value.isEmpty && value.utf8ByteSize ≤ 255 && value.toList.all fun character =>
    character.isAlphanum || ['.', ':', '/', '-', '_'].contains character

/-- `decode_hex` without its bound. -/
def decodePairs : List Char → Option Bytes
  | [] => some []
  | [_] => none
  | high :: low :: rest => do
    let h ← Hex.value high
    let l ← Hex.value low
    let bytes ← decodePairs rest
    some (UInt8.ofNat (16 * h + l) :: bytes)

def decodeHex (maximumBytes : Nat) : Option Bytes :=
  if value.utf8ByteSize % 2 ≠ 0 ∨ maximumBytes < value.utf8ByteSize / 2 then none
  else decodePairs value.toList

def decodeHex32 : Option Sha256Digest :=
  if value.utf8ByteSize ≠ 64 then none
  else (decodePairs value.toList).bind fun bytes =>
    if h : bytes.length = 32 then some ⟨bytes, h⟩ else none

end

inductive CompressionMethod
  | stored
  | deflated
  | other
  deriving DecidableEq

/-- What a reader gives: bytes, as many as a machine counts, and then the end or a failure. -/
structure Stream where
  bytes : Bytes
  failure : Option String
  length_le : bytes.length ≤ Machine.u64Max

/-- An entry of an archive, as the ZIP library shows it. -/
structure ZipEntry where
  nameRaw : Bytes
  isDir : Bool
  isFile : Bool
  isSymlink : Bool
  encrypted : Bool
  compression : CompressionMethod
  size : Nat
  compressedSize : Nat
  stream : Stream

structure ZipArchive where
  centralDirectoryStart : Nat
  /-- `by_index` for each index. -/
  entries : List (Except String ZipEntry)

/-- The libraries that the loader uses, with the JSON numbers of one of them. -/
structure Libraries (ν : Type) where
  openZip : Bytes → Except String ZipArchive
  sha256 : Bytes → Sha256Digest
  manifestFromToml : String → Except String PackageManifest
  signatureFromToml : String → Except String RawSignature
  isToml : String → Bool
  jsonFromSlice : Bytes → Except String (Json ν)
  fromUtf8Lossy : Bytes → String

/-- `str::from_utf8`. -/
def fromUtf8 (bytes : Bytes) : Option String := String.fromUTF8? ⟨bytes.toArray⟩

def SignatureMetadata.ofRaw (raw : RawSignature) : Except String SignatureMetadata := do
  ensure (raw.schemaVersion = 1) "unsupported signature metadata schema"
  ensure (canonicalToken raw.algorithm 64 = true) "signature algorithm is not canonical"
  ensure (canonicalKeyId raw.keyId = true) "signature key ID is not canonical"
  ensure (raw.publisher.all (fun publisher => !publisher.isEmpty && publisher.utf8ByteSize ≤ 255))
    "signature publisher is invalid"
  let signedContentHash ← okOr (decodeHex32 raw.signedContentSha256)
    "signed content SHA-256 must contain 64 hexadecimal characters"
  let signature ← okOr ((decodeHex raw.signatureHex 4096).filter (· ≠ []))
    "signature must be non-empty bounded hexadecimal data"
  .ok { schemaVersion := raw.schemaVersion, algorithm := raw.algorithm, keyId := raw.keyId
        publisher := raw.publisher, signedContentHash, signature }

def SignatureMetadata.parse {ν : Type} (libraries : Libraries ν) (bytes : Bytes) :
    Except String SignatureMetadata := do
  let source ← okOr (fromUtf8 bytes) "signature metadata is not UTF-8"
  let raw ← (libraries.signatureFromToml source).mapError fun _ => "invalid signature metadata TOML"
  SignatureMetadata.ofRaw raw

end KeyReader.Package
