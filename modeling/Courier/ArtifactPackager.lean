import Courier.Library.Indented
import Courier.ReceiptSigner

/-!
# Packed artifacts

A package is an archive of the files below a directory, with a manifest of their digests and the signed
manifest.  The archive is the list of its members; of two members with one name the later is read.
-/

namespace Courier.Packager

open Calendar Json Receipts Text

class Packing extends Surroundings where
  /-- `_bytes_sha256`. -/
  sha256 : Bytes → Str
  /-- `str(exc)`. -/
  describe : Exc → Str

/-- A packager's surroundings to evaluate examples on: the digest of bytes is their hexadecimal form. -/
@[reducible]
def Packing.plain : Packing where
  toSurroundings := Surroundings.plain
  sha256 raw := raw.flatMap fun b => [hexDigit (b.toNat / 16), hexDigit (b.toNat % 16)]
  describe _ := []

def isSafeRelPath (relPath : Str) : Bool :=
  if strip relPath = [] then false
  else
    let normalized := relPath.map fun c => if c = 92 then 47 else c
    if normalized.head? = some 47 ∨ 58 ∈ normalized then false
    else (normalized.splitOnP (· = 47)).all (· ≠ text "..")

/-- The members of an archive, in order. -/
abbrev Archive := List (Str × Bytes)

namespace Archive

def namelist (zf : Archive) : List Str :=
  zf.map Prod.fst

/-- `zf.read(name)`, of the last member with the name. -/
def read (zf : Archive) (name : Str) : Option Bytes :=
  zf.reverse.lookup name

end Archive

def manifestName : Str := text "manifest.json"

def signatureName : Str := text "signature.json"

/-- The name is that of a member the packager adds. -/
def Reserved (name : Str) : Prop :=
  name = manifestName ∨ name = signatureName

instance (name : Str) : Decidable (Reserved name) :=
  inferInstanceAs (Decidable (_ ∨ _))

/-! ### Packing -/

/-- A file below the source directory: what is read to take its digest, and what is read when it is packed. -/
structure SourceFile where
  rel : Str
  content : Bytes
  stored : Bytes
  deriving DecidableEq

/-- The files below the source directory, in the order of their paths. -/
structure Tree where
  files : List SourceFile
  distinct : (files.map SourceFile.rel).Nodup
  texts : ∀ f ∈ files, IsText f.rel

structure PackageSummary where
  packagePath : Str
  itemId : Str
  fileCount : Nat
  signature : Str
  deriving DecidableEq

structure ArtifactPackager where
  secretKey : Str

section

variable [Packing]

def Tree.filesMap (tree : Tree) : Members :=
  members (tree.files.map fun f => (f.rel, .str (Packing.sha256 f.content)))

/-- The manifest of a tree, with its keys in order. -/
def manifest (tree : Tree) (itemId : Str) (metadata : Members) (createdAt : DateTime) : Members :=
  [(text "created_at", .str (format createdAt)), (text "files", .obj tree.filesMap),
    (text "item_id", .str itemId), (text "metadata", .obj metadata)]

namespace ArtifactPackager

def signer (packager : ArtifactPackager) : ReceiptSigner where
  secretKey := packager.secretKey

/-- The archive of a tree and its signed manifest.  The keys of an object are written in their order. -/
def archive (packager : ArtifactPackager) (tree : Tree) (manifest : Members) (signedAt : DateTime) : Archive :=
  tree.files.map (fun f => (f.rel, f.stored)) ++
    [(manifestName, Bytes.ofAscii (dumpsIndented (.obj manifest))),
      (signatureName,
        Bytes.ofAscii (dumpsIndented (.obj (packager.signer.sign (.obj manifest) signedAt).toDict)))]

/-- `pack`, without the digest of the archive.  No metadata are empty metadata.  An archive has no member whose
name cannot be encoded. -/
def pack (packager : ArtifactPackager) (tree : Tree) (outputPath itemId : Str) (metadata : Option Members)
    (createdAt signedAt : DateTime) : Except Exc (Archive × PackageSummary) :=
  if ¬ ∀ f ∈ tree.files, isSafeRelPath f.rel = true then .error .valueError
  else
    let manifest := manifest tree itemId (metadata.getD []) createdAt
    if ¬ ∀ f ∈ tree.files, Encodable f.rel then .error .unicodeEncode
    else .ok (packager.archive tree manifest signedAt,
      { packagePath := outputPath
        itemId := itemId
        fileCount := tree.files.length
        signature := (packager.signer.sign (.obj manifest) signedAt).signature })

end ArtifactPackager

/-! ### Verifying -/

structure VerificationReport where
  isValid : Bool
  itemId : Json := .null
  verifiedFilesCount : Nat := 0
  errors : List Str := []
  deriving DecidableEq

/-- The value that a member of an archive encodes; texts with constants that are no JSON are left out. -/
def loadMember (raw : Bytes) : Except Exc Json :=
  match raw.decode.bind loads with
  | some value => .ok value
  | none => .error .valueError

/-- The members of a value that has to be an object. -/
def asDict : Json → Except Exc Members
  | .obj d => .ok d
  | _ => .error .attributeError

/-- The body of the loop over the files of the manifest. -/
def checkFile (zf : Archive) (acc : Nat × List Str) (entry : Str × Json) : Nat × List Str :=
  match zf.read entry.1 with
  | none => (acc.1, acc.2 ++ [text "MISSING_FILE: " ++ entry.1])
  | some fileBytes =>
      if .str (Packing.sha256 fileBytes) = entry.2 then (acc.1 + 1, acc.2)
      else (acc.1, acc.2 ++ [text "CONTENT_HASH_MISMATCH: " ++ entry.1])

/-- The part of `verify` in which nothing is caught, with the two members at hand. -/
def verifyManifest (activeSigner : ReceiptSigner) (zf : Archive) (manifestRaw sigRaw : Bytes) (now : DateTime) :
    Except Exc VerificationReport := do
  let manifestData ← loadMember manifestRaw
  let sigData ← loadMember sigRaw
  let manifestDict ← asDict manifestData
  let sigDict ← asDict sigData
  let sigObj ← SignedReceipt.fromDict sigDict
  let mismatch :=
    if sigObj.payload ≠ manifestData then
      [text "SIGNATURE_MISMATCH: Manifest payload does not match signed envelope"]
    else []
  let vRes ← activeSigner.verify sigObj now
  let refused := if !vRes.isValid then [text "SIGNATURE_MISMATCH: " ++ vRes.reason.name] else []
  let filesMap ← asDict ((manifestDict.lookup (text "files")).getD (.obj []))
  let checked := filesMap.foldl (checkFile zf) (0, mismatch ++ refused)
  return ⟨checked.2.isEmpty, get manifestDict (text "item_id"), checked.1, checked.2⟩

/-- What is found under the path of a package. -/
inductive Package where
  | missing
  | unreadable (why : Exc)
  | archive (zf : Archive)

namespace ArtifactPackager

def activeSigner (packager : ArtifactPackager) : Option Str → ReceiptSigner
  | some (c :: s) => { secretKey := c :: s }
  | _ => packager.signer

def verify (packager : ArtifactPackager) (packagePath : Str) (package : Package) (secretKey : Option Str)
    (now : DateTime) : VerificationReport :=
  let failed := fun errors => VerificationReport.mk false .null 0 errors
  match package with
  | .missing => failed [text "FILE_NOT_FOUND: " ++ packagePath]
  | .unreadable why => failed [text "ARCHIVE_READ_ERROR: " ++ Packing.describe why]
  | .archive zf =>
      let unsafePaths := zf.namelist.filter fun name => !isSafeRelPath name
      if unsafePaths ≠ [] then failed (unsafePaths.map (text "PATH_TRAVERSAL_DETECTED: " ++ ·))
      else match zf.read manifestName, zf.read signatureName with
      | some manifestRaw, some sigRaw =>
          match verifyManifest (packager.activeSigner secretKey) zf manifestRaw sigRaw now with
          | .ok report => report
          | .error why => failed [text "ARCHIVE_READ_ERROR: " ++ Packing.describe why]
      | _, _ => failed [text "MISSING_MANIFEST_OR_SIGNATURE"]

end ArtifactPackager

end

end Courier.Packager
