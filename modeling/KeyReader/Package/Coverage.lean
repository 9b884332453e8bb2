import KeyReader.Extension.Operations
import KeyReader.Package.Contents
import KeyReader.Package.Loader

/-! A verified signature covers the whole package: the loaded files are those of the source, each in
one role, and the bytes that are hashed determine them. -/

namespace KeyReader.Package

open Checked Extension Machine OrderedMap Std Prod

variable {ν : Type} {libraries : Libraries ν}

theorem pathBytes_inj {path other : String} (h : pathBytes path = pathBytes other) :
    path = other := by
  apply String.toByteArray_inj.mp
  apply ByteArray.ext
  exact Array.toList_inj.mp h

theorem contentEntry_ne_nil (file : String × Bytes) : contentEntry file ≠ [] := by
  intro h
  exact Framing.framed_ne_nil (by decide) _ (List.append_eq_nil_iff.mp h).1

def IsCounted (file : String × Bytes) : Prop :=
  (pathBytes file.1).length ≤ u64Max ∧ file.2.length ≤ u64Max

theorem prefixed_contentEntry : Framing.Prefixed IsCounted contentEntry := by
  have hbound : ∀ n : Nat, n ≤ u64Max → n < 256 ^ 8 := by
    intro n hn
    have hmax : u64Max < 256 ^ 8 := by decide
    omega
  intro file other hfile hother rest more h
  rw [contentEntry, contentEntry, List.append_assoc, List.append_assoc] at h
  obtain ⟨hpath, h⟩ := Framing.prefixed_framed 8 (hbound _ hfile.1) (hbound _ hother.1) h
  obtain ⟨hbytes, hrest⟩ := Framing.prefixed_framed 8 (hbound _ hfile.2) (hbound _ hother.2) h
  exact ⟨Prod.ext (pathBytes_inj hpath) hbytes, hrest⟩

theorem canonicalContent_eq_ok {files : List (String × Bytes)} {content : Bytes} :
    canonicalContent files = .ok content ↔
      (∀ file ∈ files, IsCounted file) ∧ contentHeader ++ files.flatMap contentEntry = content := by
  unfold canonicalContent IsCounted
  rw [ensure_bind_eq_ok, ensure_bind_eq_ok, Except.ok.injEq]
  constructor
  · rintro ⟨hpaths, hfiles, h⟩
    exact ⟨fun file hfile => ⟨hpaths file hfile, hfiles file hfile⟩, h⟩
  · rintro ⟨hcounted, h⟩
    exact ⟨fun file hfile => (hcounted file hfile).1, fun file hfile => (hcounted file hfile).2, h⟩

theorem canonicalContent_inj {files other : Files} {content : Bytes}
    (hfiles : canonicalContent files.toList = .ok content)
    (hother : canonicalContent other.toList = .ok content) : files = other := by
  obtain ⟨hcounted, hcontent⟩ := canonicalContent_eq_ok.mp hfiles
  obtain ⟨hcounted', hcontent'⟩ := canonicalContent_eq_ok.mp hother
  have hentries := List.append_cancel_left (hcontent.trans hcontent'.symm)
  exact ExtTreeMap.toList_inj.mp
    (prefixed_contentEntry.flatMap_inj contentEntry_ne_nil hcounted hcounted' hentries)

/-- Files are split into those taken, each once, and the rest. -/
structure Splits (files : Files) (taken : List (String × Bytes)) (rest : Files) : Prop where
  nodup : (taken.map fst).Nodup
  mem : ∀ path bytes, files[path]? = some bytes ↔ (path, bytes) ∈ taken ∨ rest[path]? = some bytes
  apart : ∀ file ∈ taken, rest[file.1]? = none

theorem Splits.refl (files : Files) : Splits files [] files where
  nodup := List.nodup_nil
  mem path bytes := by simp
  apart file hfile := absurd hfile List.not_mem_nil

theorem takeFile_eq_ok {files rest : Files} {path : PackagePath} {message : String} {bytes : Bytes}
    (h : takeFile files path message = .ok (bytes, rest)) :
    files[path]? = some bytes ∧ rest = files.erase path := by
  obtain ⟨found, hfound, h⟩ := bind_eq_ok.mp h
  obtain ⟨rfl, rfl⟩ := mk.inj (Except.ok.inj h)
  exact ⟨okOr_eq_ok.mp hfound, rfl⟩

variable {taken : List (String × Bytes)}

theorem Splits.take {files rest next : Files} {path : PackagePath} {message : String}
    {bytes : Bytes} (h : Splits files taken rest)
    (htake : takeFile rest path message = .ok (bytes, next)) :
    Splits files (taken ++ [(path, bytes)]) next := by
  obtain ⟨hfound, rfl⟩ := takeFile_eq_ok htake
  refine ⟨?_, ?_, ?_⟩
  · rw [List.map_append, List.nodup_append]
    refine ⟨h.nodup, List.nodup_singleton _, ?_⟩
    rintro other hother _ hpath rfl
    obtain ⟨file, hfile, rfl⟩ := List.mem_map.mp hother
    rw [List.map_singleton, List.mem_singleton] at hpath
    have hnone := h.apart file hfile
    rw [hpath] at hnone
    cases hfound.symm.trans hnone
  · intro other content
    rw [h.mem, List.mem_append, List.mem_singleton, mk.injEq, getElem?_erase, or_assoc]
    refine or_congr_right ?_
    by_cases hsame : path = other
    · subst hsame
      rw [hfound, if_pos rfl, Option.some.injEq]
      simp [eq_comm]
    · rw [if_neg hsame]
      simp [Ne.symm hsame]
  · intro file hfile
    rw [getElem?_erase]
    split
    · rfl
    · rename_i hne
      rcases List.mem_append.mp hfile with hfile | hfile
      · exact h.apart file hfile
      · rw [List.mem_singleton.mp hfile] at hne
        exact absurd rfl hne

def PackageBlob.file (blob : PackageBlob) : String × Bytes := (blob.path, blob.bytes)

namespace LoadedPackage

/-- The manifest, the declared files, and the assets. -/
def declared (package : LoadedPackage) : List PackageBlob :=
  package.manifestBlob :: (package.ui.toList ++ package.component.toList)

def files (package : LoadedPackage) : List (String × Bytes) :=
  (package.declared ++ package.assets.toList.map (·.2)).map PackageBlob.file

end LoadedPackage

theorem Splits.takeDeclared {files rest next : Files} {message : String} {path : Option PackagePath}
    {blob : Option PackageBlob} (h : Splits files taken rest)
    (htake : takeDeclared libraries rest message path = .ok (blob, next)) :
    Splits files (taken ++ blob.toList.map PackageBlob.file) next ∧
      ∀ own, path = some own → ∃ bytes, (own, bytes) ∈ blob.toList.map PackageBlob.file := by
  cases path with
  | none =>
    obtain ⟨rfl, rfl⟩ := mk.inj (Except.ok.inj htake)
    refine ⟨?_, fun own hown => by cases hown⟩
    rw [Option.toList_none, List.map_nil, List.append_nil]
    exact h
  | some path =>
    obtain ⟨⟨bytes, remaining⟩, hfile, htake⟩ := bind_eq_ok.mp htake
    obtain ⟨rfl, rfl⟩ := mk.inj (Except.ok.inj htake)
    refine ⟨h.take hfile, fun own hown => ⟨bytes, ?_⟩⟩
    cases hown
    exact List.mem_singleton.mpr rfl

def IsAssets (libraries : Libraries ν) (assets : ExtTreeMap PackagePath PackageBlob)
    (taken : List (String × Bytes)) : Prop :=
  ∀ path blob, assets[path]? = some blob ↔
    ∃ bytes, (path, bytes) ∈ taken ∧ newBlob libraries path bytes = blob

theorem takeAssets {files rest : Files} {start : ExtTreeMap PackagePath PackageBlob}
    {assets : ExtTreeMap PackagePath PackageBlob × Files} {paths : List PackagePath}
    (h : Splits files taken rest) (hstart : IsAssets libraries start taken)
    (htake : paths.foldlM (takeAsset libraries) (start, rest) = .ok assets) :
    ∃ all, Splits files all assets.2 ∧ IsAssets libraries assets.1 all ∧
      (∀ file ∈ taken, file ∈ all) ∧ ∀ path ∈ paths, ∃ bytes, (path, bytes) ∈ all := by
  induction paths generalizing start rest taken with
  | nil =>
    cases htake
    exact ⟨taken, h, hstart, fun _ hfile => hfile, nofun⟩
  | cons path paths ih =>
    obtain ⟨⟨middle, remaining⟩, hfirst, htake⟩ := bind_eq_ok.mp htake
    obtain ⟨-, hfirst⟩ := ensure_bind_eq_ok.mp hfirst
    obtain ⟨⟨bytes, next⟩, hfile, hfirst⟩ := bind_eq_ok.mp hfirst
    obtain ⟨rfl, rfl⟩ := mk.inj (Except.ok.inj hfirst)
    have hmiddle : IsAssets libraries (start.insert path (newBlob libraries path bytes))
        (taken ++ [(path, bytes)]) := by
      intro other blob
      rw [getElem?_insert]
      split
      · rename_i hsame
        subst hsame
        constructor
        · intro hblob
          exact ⟨bytes, by simp, Option.some.inj hblob⟩
        · rintro ⟨content, hmem, rfl⟩
          rcases List.mem_append.mp hmem with hmem | hmem
          · have hnone := h.apart _ hmem
            rw [(takeFile_eq_ok hfile).1] at hnone
            cases hnone
          · rw [(mk.inj (List.mem_singleton.mp hmem)).2]
      · rename_i hne
        rw [hstart other blob]
        simp [Ne.symm hne]
    obtain ⟨all, hall, hassets, hkeeps, hpaths⟩ := ih (h.take hfile) hmiddle htake
    refine ⟨all, hall, hassets, fun file hmem => hkeeps file (by simp [hmem]), ?_⟩
    intro other hother
    rcases List.mem_cons.mp hother with rfl | hother
    · exact ⟨bytes, hkeeps _ (by simp)⟩
    · exact hpaths other hother

variable {assets : ExtTreeMap PackagePath PackageBlob}

section

variable (h : IsAssets libraries assets taken)

include h

theorem IsAssets.path {path : PackagePath} {blob : PackageBlob}
    (hblob : (path, blob) ∈ assets.toList) : blob.path = path := by
  obtain ⟨bytes, -, rfl⟩ := (h path blob).mp ((mem_toList_iff ..).mp hblob)
  rfl

theorem IsAssets.mem_files (path : PackagePath) (bytes : Bytes) :
    (path, bytes) ∈ (assets.toList.map (·.2)).map PackageBlob.file ↔ (path, bytes) ∈ taken := by
  simp only [List.mem_map, Prod.exists, exists_eq_right]
  constructor
  · rintro ⟨blob, ⟨own, hblob⟩, hfile⟩
    obtain ⟨content, hmem, rfl⟩ := (h own blob).mp ((mem_toList_iff ..).mp hblob)
    exact hfile ▸ hmem
  · intro hmem
    exact ⟨newBlob libraries path bytes,
      ⟨path, (mem_toList_iff ..).mpr ((h path _).mpr ⟨bytes, hmem, rfl⟩)⟩, rfl⟩

theorem IsAssets.paths :
    ((assets.toList.map (·.2)).map PackageBlob.file).map fst = assets.keys := by
  rw [← ExtTreeMap.map_fst_toList_eq_keys, List.map_map, List.map_map]
  apply List.map_congr_left
  rintro ⟨path, blob⟩ hblob
  exact h.path hblob

end

/-- Every file has a role. -/
def Covered (files : Files) (ui component : Option PackagePath) (assets : List PackagePath) : Prop :=
  ∀ path, (∃ bytes, files[path]? = some bytes) →
    path = manifestPath ∨ ui = some path ∨ component = some path ∨ path ∈ assets

theorem covered_of_assetPaths {files : Files} {ui component : Option PackagePath}
    {assets : List PackagePath} (h : assetPaths files ui component = .ok assets) :
    Covered files ui component assets := by
  unfold assetPaths at h
  dsimp only at h
  split at h
  · cases h
  · cases h
    rintro path ⟨bytes, hbytes⟩
    have hkey : path ∈ files.keys := by
      rw [ExtTreeMap.mem_keys, ← ExtTreeMap.contains_iff_mem, contains_eq_isSome, hbytes]
      rfl
    by_cases hrole : path ≠ manifestPath ∧ ui ≠ some path ∧ component ≠ some path
    · exact .inr (.inr (.inr (List.mem_filter.mpr ⟨hkey, decide_eq_true hrole⟩)))
    · tauto

/-- The package has the files that it was assembled from, each in one role. -/
theorem files_assemble {files : Files} {source : PackageSourceKind}
    {archiveSha256 : Option Sha256Digest} {manifest : PackageManifest}
    {assetPaths : List PackagePath} {contentSha256 : Sha256Digest}
    {signature : Option VerifiedPackageSignature} {package : LoadedPackage}
    (hcovered : Covered files (entrypointPaths manifest.entrypoint).1
      (entrypointPaths manifest.entrypoint).2 assetPaths)
    (h : PackageLoader.assemble libraries files source archiveSha256 manifest assetPaths
      contentSha256 signature =
      .ok package) :
    (package.files.map fst).Nodup ∧
      (∀ path bytes, (path, bytes) ∈ package.files ↔ files[path]? = some bytes) ∧
      package.contentSha256 = contentSha256 ∧ package.signature = signature := by
  obtain ⟨⟨bytes, afterManifest⟩, hmanifest, h⟩ := bind_eq_ok.mp h
  obtain ⟨⟨ui, afterUi⟩, hui, h⟩ := bind_eq_ok.mp h
  obtain ⟨⟨component, afterComponent⟩, hcomponent, h⟩ := bind_eq_ok.mp h
  obtain ⟨⟨assets, rest⟩, hassets, h⟩ := bind_eq_ok.mp h
  cases h
  have hfirst := (Splits.refl files).take hmanifest
  obtain ⟨hsecond, huiPath⟩ := hfirst.takeDeclared hui
  obtain ⟨hthird, hcomponentPath⟩ := hsecond.takeDeclared hcomponent
  have hempty : IsAssets libraries (∅ : ExtTreeMap PackagePath PackageBlob) [] := by
    intro path blob
    simp
  obtain ⟨all, hall, hblobs, -, hpaths⟩ := takeAssets (Splits.refl afterComponent) hempty hassets
  have hfiles : ∀ path content, (path, content) ∈
      ((newBlob libraries manifestPath bytes :: (ui.toList ++ component.toList)) ++
        assets.toList.map (·.2)).map PackageBlob.file ↔
      (path, content) ∈ [] ++ [(manifestPath, bytes)] ++ ui.toList.map PackageBlob.file ++
        component.toList.map PackageBlob.file ∨ (path, content) ∈ all := by
    intro path content
    rw [List.map_append, List.mem_append, hblobs.mem_files]
    simp [PackageBlob.file, newBlob, or_assoc]
  refine ⟨?_, ?_, rfl, rfl⟩
  · unfold LoadedPackage.files LoadedPackage.declared
    rw [List.map_append, List.map_append, hblobs.paths, List.nodup_append]
    refine ⟨by simpa [PackageBlob.file, newBlob] using hthird.nodup, ExtTreeMap.nodup_keys, ?_⟩
    rintro own hown _ hkey rfl
    obtain ⟨file, hfile, rfl⟩ := List.mem_map.mp hown
    have hapart := hthird.apart file (by simpa [PackageBlob.file, newBlob, or_assoc] using hfile)
    rw [ExtTreeMap.mem_keys, ← ExtTreeMap.contains_iff_mem, contains_eq_isSome,
      Option.isSome_iff_exists] at hkey
    obtain ⟨blob, hblob⟩ := hkey
    obtain ⟨content, hmem, -⟩ := (hblobs _ blob).mp hblob
    have hsome := (hall.mem _ _).mpr (.inl hmem)
    rw [hapart] at hsome
    cases hsome
  · intro path content
    refine (hfiles path content).trans ?_
    rw [hthird.mem, hall.mem]
    constructor
    · rintro (hmem | hmem)
      · exact .inl hmem
      · exact .inr (.inl hmem)
    · rintro (hmem | hmem | hrest)
      · exact .inl hmem
      · exact .inr hmem
      -- nothing is left over
      · exfalso
        have hsome := (hthird.mem path content).mpr (.inr ((hall.mem path content).mpr (.inr hrest)))
        have hleft := (hall.mem path content).mpr (.inr hrest)
        have hnone : ∀ file ∈ [] ++ [(manifestPath, bytes)] ++ ui.toList.map PackageBlob.file ++
            component.toList.map PackageBlob.file, file.1 ≠ path := by
          rintro file hfile rfl
          have hapart := hthird.apart file hfile
          rw [hleft] at hapart
          cases hapart
        rcases hcovered path ⟨content, hsome⟩ with rfl | hpath | hpath | hpath
        · exact hnone (manifestPath, bytes) (List.mem_append_left _ (List.mem_append_left _
            List.mem_cons_self)) rfl
        · obtain ⟨other, hother⟩ := huiPath path hpath
          exact hnone _ (List.mem_append_left _ (List.mem_append_right _ hother)) rfl
        · obtain ⟨other, hother⟩ := hcomponentPath path hpath
          exact hnone _ (List.mem_append_right _ hother) rfl
        · obtain ⟨other, hother⟩ := hpaths path hpath
          have hapart := hall.apart _ hother
          rw [hrest] at hapart
          cases hapart

namespace PackageLoader

variable {loader : PackageLoader} {verifier : SignatureVerifier}

theorem verifySignature_eq_ok {bytes : Option Bytes} {source : PackageSourceKind}
    {contentSha256 : Sha256Digest} {signature : Option VerifiedPackageSignature}
    (hrequired : loader.requiresSignature source = true)
    (h : loader.verifySignature libraries verifier bytes source contentSha256 = .ok signature) :
    ∃ metadata signer, verifier metadata contentSha256 = .ok signer ∧
      signature = some ⟨metadata, signer⟩ := by
  unfold verifySignature at h
  split at h
  · obtain ⟨hoptional, -⟩ := ensure_bind_eq_ok.mp h
    rw [hrequired] at hoptional
    cases hoptional
  · obtain ⟨metadata, -, h⟩ := bind_eq_ok.mp h
    obtain ⟨-, h⟩ := unit_bind_eq_ok.mp h
    obtain ⟨signer, hsigner, h⟩ := bind_eq_ok.mp h
    obtain ⟨-, h⟩ := unit_bind_eq_ok.mp h
    exact ⟨metadata, signer, mapError_eq_ok.mp hsigner, (Except.ok.inj h).symm⟩

theorem covered_of_checkFiles {files : Files} {ui component : Option PackagePath}
    {assets : List PackagePath} (h : loader.checkFiles libraries files ui component = .ok assets) :
    Covered files ui component assets := by
  obtain ⟨-, h⟩ := unit_bind_eq_ok.mp h
  obtain ⟨-, h⟩ := unit_bind_eq_ok.mp h
  obtain ⟨-, h⟩ := unit_bind_eq_ok.mp h
  obtain ⟨paths, hpaths, h⟩ := bind_eq_ok.mp h
  obtain ⟨-, h⟩ := unit_bind_eq_ok.mp h
  obtain ⟨-, h⟩ := unit_bind_eq_ok.mp h
  cases h
  exact covered_of_assetPaths hpaths

variable [Platform]

/-- What is known of a package whose files, without the signature, are `files`. -/
structure Built (libraries : Libraries ν) (verifier : SignatureVerifier) (files : Files)
    (package : LoadedPackage) : Prop where
  oneRole : (package.files.map fst).Nodup
  mem : ∀ path bytes, (path, bytes) ∈ package.files ↔ files[path]? = some bytes
  signed : ∃ content metadata signer, canonicalContent files.toList = .ok content ∧
    verifier metadata (libraries.sha256 content) = .ok signer ∧
    package.contentSha256 = libraries.sha256 content ∧ package.signature = some ⟨metadata, signer⟩

variable {package : LoadedPackage}

theorem built_of_buildLoaded {files : Files} {source : PackageSourceKind}
    {archiveSha256 : Option Sha256Digest} (hrequired : loader.requiresSignature source = true)
    (h : loader.buildLoaded libraries verifier files source archiveSha256 = .ok package) :
    Built libraries verifier (files.erase signaturePath) package := by
  obtain ⟨-, h⟩ := unit_bind_eq_ok.mp h
  obtain ⟨manifest, -, h⟩ := bind_eq_ok.mp h
  obtain ⟨assets, hassets, h⟩ := bind_eq_ok.mp h
  obtain ⟨content, hcontent, h⟩ := bind_eq_ok.mp h
  obtain ⟨signature, hsignature, h⟩ := bind_eq_ok.mp h
  obtain ⟨metadata, signer, hverified, rfl⟩ := verifySignature_eq_ok hrequired hsignature
  obtain ⟨hone, hmem, hhash, hsigned⟩ := files_assemble (covered_of_checkFiles hassets) h
  exact ⟨hone, hmem, content, metadata, signer, hcontent, hverified, hhash, hsigned⟩

def SourceHasFile (libraries : Libraries ν) (kind : PackageSourceKind) (node : Node)
    (path : PackagePath) (content : Bytes) : Prop :=
  match kind with
  | .keyextArchive => ∃ length stream, node = .file length stream ∧
      ArchiveHasFile libraries stream.bytes path content
  | .developmentDirectory => ∃ names, node.HasFile names content ∧ pathOf names = some path

theorem load_eq_ok {kind : PackageSourceKind} {path : String} {node : Node} (h : loader.load libraries verifier kind path node = .ok package) :
    ∃ files archiveSha256, loader.buildLoaded libraries verifier files kind archiveSha256 =
        .ok package ∧
      ∀ path content, files[path]? = some content ↔ SourceHasFile libraries kind node path content := by
  cases kind with
  | keyextArchive =>
    unfold load loadKeyext at h
    dsimp only at h
    split at h
    · cases h
    · cases h
    · rename_i length stream
      obtain ⟨-, h⟩ := unit_bind_eq_ok.mp h
      obtain ⟨bytes, hbytes, h⟩ := bind_eq_ok.mp h
      obtain ⟨files, hfiles, h⟩ := bind_eq_ok.mp h
      refine ⟨files, _, h, fun path content => ?_⟩
      rw [files_readZip hfiles, readStreamBounded_eq_ok hbytes]
      constructor
      · intro hfile
        exact ⟨length, stream, rfl, hfile⟩
      · rintro ⟨_, _, heq, hfile⟩
        cases heq
        exact hfile
    · cases h
  | developmentDirectory =>
    unfold load loadDevelopmentDirectory at h
    dsimp only at h
    split at h
    · cases h
    · cases h
    · cases h
    · cases h
    · obtain ⟨files, hfiles, h⟩ := bind_eq_ok.mp h
      exact ⟨files, _, h, fun path content => files_readDirectory hfiles path content⟩

structure Covers (libraries : Libraries ν) (verifier : SignatureVerifier)
    (kind : PackageSourceKind) (node : Node) (package : LoadedPackage) : Prop where
  files : ∀ path content, (path, content) ∈ package.files ↔
    SourceHasFile libraries kind node path content ∧ path ≠ signaturePath
  oneRole : (package.files.map fst).Nodup
  signed : ∃ (files : Files) (content : Bytes) (metadata : SignatureMetadata)
    (signer : VerifiedSigner),
    (∀ path bytes, files[path]? = some bytes ↔ (path, bytes) ∈ package.files) ∧
    canonicalContent files.toList = .ok content ∧
    verifier metadata (libraries.sha256 content) = .ok signer ∧
    package.contentSha256 = libraries.sha256 content ∧ package.signature = some ⟨metadata, signer⟩

theorem covers_of_load {kind : PackageSourceKind} {path : String} {node : Node} (hrequired : loader.requiresSignature kind = true)
    (h : loader.load libraries verifier kind path node = .ok package) :
    Covers libraries verifier kind node package := by
  obtain ⟨files, archiveSha256, hbuilt, hsource⟩ := load_eq_ok h
  have hbuilt := built_of_buildLoaded hrequired hbuilt
  refine ⟨fun own content => ?_, hbuilt.oneRole, ?_⟩
  · rw [hbuilt.mem, getElem?_erase, ← hsource]
    by_cases hsignature : signaturePath = own
    · simp [hsignature]
    · simp [hsignature, Ne.symm hsignature]
  · obtain ⟨content, metadata, signer, hcontent, hrest⟩ := hbuilt.signed
    exact ⟨_, content, metadata, signer, fun own bytes => (hbuilt.mem own bytes).symm, hcontent,
      hrest⟩

/-- A required signature covers the whole package, and the bytes whose hash is verified determine
the files. -/
theorem signature_covers (loader : PackageLoader) (libraries : Libraries ν)
    (verifier : SignatureVerifier) (kind : PackageSourceKind) (path : String) (node : Node)
    (package : LoadedPackage) (hrequired : loader.requiresSignature kind = true)
    (h : loader.load libraries verifier kind path node = .ok package) :
    Covers libraries verifier kind node package ∧
      ∀ (files other : Files) (content : Bytes), canonicalContent files.toList = .ok content →
        canonicalContent other.toList = .ok content → files = other :=
  ⟨covers_of_load hrequired h, fun _ _ _ => canonicalContent_inj⟩

namespace Signed

def manifestText : String :=
  "schema_version = 1\n" ++ "id = \"org.example.package\"\n" ++
    "name = \"Package\"\n" ++
    "version = \"1.0.0\"\n" ++
    "description = \"A panel\"\n" ++
    "license = \"MIT\"\n" ++
    "publisher = \x7b id = \"org.example\", name = \"Example\" \x7d\n" ++
    "compatibility = \x7b extension_api = \"^0.1\" \x7d\n" ++
    "entrypoint = \x7b kind = \"declarative\", ui = \"ui.json\" \x7d\n"

def uiText : String := "\x7b\"kind\":\"panel\"\x7d"

def digest : Sha256Digest :=
  ⟨[236, 56, 228, 132, 131, 45, 153, 226, 45, 135, 41, 145, 64, 143, 125, 44, 184, 163, 104,
    37, 218, 137, 125, 217, 4, 224, 25, 80, 83, 162, 237, 236], rfl⟩

def signatureText : String :=
  "schema_version = 1\n" ++ "algorithm = \"ed25519\"\n" ++
    "key_id = \"org.example/key\"\n" ++
    "signed_content_sha256 = \"" ++ digest.toHex ++ "\"\n" ++
    "signature_hex = \"00\"\n"

def manifest : PackageManifest where
  toExtensionManifest := { declarativeManifest "org.example.package" ⟨[], [], []⟩ with
    entrypoint := .declarative "ui.json" }
  name := "Package"
  description := "A panel"
  publisher := ⟨"org.example", "Example"⟩

def textLibraries : Libraries Unit where
  openZip _ := .error "invalid Zip archive"
  sha256 _ := digest
  manifestFromToml text := if text = manifestText then .ok manifest else .error "unknown text"
  signatureFromToml text :=
    if text = signatureText then
      .ok ⟨1, "ed25519", "org.example/key", none, digest.toHex, "00"⟩
    else .error "unknown text"
  isToml text := text = manifestText ∨ text = signatureText
  jsonFromSlice bytes :=
    if bytes = pathBytes uiText then .ok (.object [("kind", .string "panel")])
    else .error "unknown text"
  fromUtf8Lossy bytes := (fromUtf8 bytes).getD "?"

def keyVerifier : SignatureVerifier := fun metadata _ =>
  if metadata.keyId = "org.example/key" then .ok ⟨"org.example/key", "Example"⟩
  else .error (.unknownKey metadata.keyId)

def textFile (name text : String) (h : (pathBytes text).length ≤ u64Max) : Bytes × Node :=
  (pathBytes name, .file (pathBytes text).length ⟨pathBytes text, none, h⟩)

def directory : Node := .directory [textFile "manifest.toml" manifestText (by decide +kernel),
    textFile "signature.toml" signatureText (by decide +kernel),
    textFile "ui.json" uiText (by decide +kernel)]

def strictLoader : PackageLoader := ⟨.default, .default⟩

def package? : Load LoadedPackage :=
  letI := exactVersions
  strictLoader.load textLibraries keyVerifier .developmentDirectory "package" directory

omit [Platform] in
theorem package_isOk : package?.isOk = true := by
  simp only [package?, load, loadDevelopmentDirectory, buildLoaded, buildUnsigned, readManifest,
    verifySignature, SignatureMetadata.parse, fromUtf8_eq_decodeKnown [manifestText, signatureText]]
  decide +kernel

omit [Platform] in
theorem signature_covers_directory : ∃ package, package? = .ok package ∧
    Covers textLibraries keyVerifier .developmentDirectory directory package ∧
      ∀ (files other : Files) (content : Bytes), canonicalContent files.toList = .ok content →
        canonicalContent other.toList = .ok content → files = other := by
  let := exactVersions
  obtain ⟨package, h⟩ := exists_of_isOk package_isOk
  exact ⟨package, h, signature_covers strictLoader textLibraries keyVerifier .developmentDirectory
    "package" directory package (by decide) h⟩

end Signed

end PackageLoader

end KeyReader.Package
