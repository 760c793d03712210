import Courier.Library.Agree
import Courier.Library.Base64
import Courier.Library.Indented
import Courier.Library.Loop
import Courier.Platform

/-!
# Delta patches

A patch describes a target file by copies from a base file, found by a search for its chunks, and data to insert.  Its
operations are performed into a temporary file, which replaces the destination if it has the digest of the target.
-/

namespace Courier.Delta

open Agree Base64 Json Text

/-- What ends the work on a patch. -/
inductive PatchError where
  | baseFileMismatch (message : Str)
  | targetCorrupt (message : Str)
  | invalidPatch (message : Str)
  | fileNotFound (message : Str)
  | keyError
  | other (why : Exc)
  deriving DecidableEq

class Surroundings where
  /-- The hexadecimal digest of bytes. -/
  sha256 : Bytes → Str
  /-- `int(value)` of a text or a float. -/
  toInt : Json → Except PatchError Int

/-- `int(value)`. -/
def pyInt [Surroundings] : Json → Except PatchError Int
  | .int i => .ok i
  | .bool b => .ok (if b then 1 else 0)
  | .str s => Surroundings.toInt (.str s)
  | .float literal => Surroundings.toInt (.float literal)
  | _ => .error (.other .typeError)

/-- `list(value)`. -/
def pyList : Json → Except PatchError (List Json)
  | .arr items => .ok items
  | .str s => .ok (s.map fun c => .str [c])
  | .obj d => .ok (d.map fun p => .str p.1)
  | _ => .error (.other .typeError)

/-- `data[key]`. -/
def item (data : Members) (key : Str) : Except PatchError Json :=
  if hasKey data key then .ok (get data key) else .error .keyError

/-- The position of an index of a slice of `n` elements. -/
def position (n : Nat) (i : Int) : Nat :=
  if i < 0 then (n + i).toNat else min i.toNat n

/-- `data[i:j]`. -/
def slice (data : Bytes) (i j : Int) : Bytes :=
  (data.take (position data.length j)).drop (position data.length i)

/-! ### Patches -/

structure DeltaPatch where
  baseSha256 : Str
  baseSize : Int
  targetSha256 : Str
  targetSize : Int
  chunkSize : Int
  operations : List Json

namespace DeltaPatch

def toDict (patch : DeltaPatch) : Members :=
  [(text "base_sha256", .str patch.baseSha256),
    (text "base_size", .int patch.baseSize),
    (text "target_sha256", .str patch.targetSha256),
    (text "target_size", .int patch.targetSize),
    (text "chunk_size", .int patch.chunkSize),
    (text "operations", .arr patch.operations)]

def toJson (patch : DeltaPatch) : Str :=
  dumpsIndented (.obj patch.toDict)

variable [Platform] [Surroundings]

def fromDict (data : Members) : Except PatchError DeltaPatch := do
  let baseSha256 ← item data (text "base_sha256")
  let baseSize ← pyInt (← item data (text "base_size"))
  let targetSha256 ← item data (text "target_sha256")
  let targetSize ← pyInt (← item data (text "target_size"))
  let chunkSize ← pyInt (if hasKey data (text "chunk_size") then get data (text "chunk_size") else .int 64)
  let operations ← pyList (← item data (text "operations"))
  return ⟨pyStr baseSha256, baseSize, pyStr targetSha256, targetSize, chunkSize, operations⟩

def fromJson (s : Str) : Except PatchError DeltaPatch :=
  match loads s with
  | some (.obj data) => fromDict data
  | some _ => .error (.other .typeError)
  | none => .error (.other .valueError)

end DeltaPatch

/-! ### Operations -/

def copyOp (offset length : Nat) : Json :=
  .obj [(text "type", .str (text "COPY")), (text "offset", .int offset), (text "length", .int length)]

def insertOp (data : Bytes) : Json :=
  .obj [(text "type", .str (text "INSERT")), (text "data_b64", .str (b64encode data))]

/-- The data of an operation. -/
def perform [Platform] [Surroundings] (base : Bytes) : Json → Except PatchError Bytes
  | .obj op => do
      let opType := get op (text "type")
      if opType = .str (text "COPY") then
        let offset ← pyInt (← item op (text "offset"))
        let length ← pyInt (← item op (text "length"))
        return slice base offset (offset + length)
      else if opType = .str (text "INSERT") then
        match ← item op (text "data_b64") with
        | .str s =>
            match b64decode s with
            | some data => return data
            | none => throw (.other .valueError)
        | _ => throw (.other .typeError)
      else throw (.invalidPatch (text "Unsupported patch operation: " ++ pyStr opType))
  | _ => .error (.other .attributeError)

/-! ### Making a patch -/

structure DeltaPatcher where
  chunkSize : Int

/-- The progress of `create_patch`: the position in the target, the bytes that are to be inserted, and the
operations. -/
structure Progress where
  pos : Nat := 0
  pendingInsert : Bytes := []
  operations : List Json := []

def Progress.flushInsert (s : Progress) : Progress :=
  if s.pendingInsert = [] then s
  else { s with pendingInsert := [], operations := s.operations ++ [insertOp s.pendingInsert] }

namespace DeltaPatcher

def init (chunkSize : Int) : DeltaPatcher :=
  ⟨max 8 chunkSize⟩

def ofCommandLine (chunkSize : Int) : DeltaPatcher :=
  { init 64 with chunkSize := chunkSize }

/-- The positions of the chunks: `range(0, base_size - chunk_size + 1, step)`. -/
def chunkStarts (patcher : DeltaPatcher) (base : Bytes) : List Nat :=
  let step := (max 1 (patcher.chunkSize / 2)).toNat
  let stop := ((base.length : Int) - patcher.chunkSize + 1).toNat
  (List.range ((stop + step - 1) / step)).map (· * step)

/-- The chunks of the base, each with the first position of it. -/
def chunkIndex (patcher : DeltaPatcher) (base : Bytes) : Dict Bytes Nat :=
  if (base.length : Int) < patcher.chunkSize then ∅
  else (patcher.chunkStarts base).foldl (fun index (i : Nat) =>
    let chunk := slice base i (i + patcher.chunkSize)
    if (index.get? chunk).isNone then index.set chunk i else index) ∅

variable (patcher : DeltaPatcher) (base target : Bytes)

def findChunk (pos : Nat) : Option Nat :=
  let block := slice target pos (pos + patcher.chunkSize)
  if (block.length : Int) = patcher.chunkSize then (patcher.chunkIndex base).get? block else none

/-- How long the match is, once it is extended. -/
def matchLength (pos baseOffset : Nat) : Nat :=
  let size := patcher.chunkSize.toNat
  size + agree (target.drop (pos + size)) (base.drop (baseOffset + size))

/-- One round of the loop over the target. -/
def advance (s : Progress) : Progress :=
  match patcher.findChunk base target s.pos with
  | some baseOffset =>
      let length := patcher.matchLength base target s.pos baseOffset
      { pos := s.pos + length
        pendingInsert := []
        operations := s.flushInsert.operations ++ [copyOp baseOffset length] }
  | none =>
      { s with pos := s.pos + 1, pendingInsert := s.pendingInsert ++ (target[s.pos]?).toList }

/-- The target is done. -/
def atEnd (s : Progress) : Bool :=
  target.length ≤ s.pos

/-- The operations of `create_patch`, if it has made them in so many rounds. -/
def operations (fuel : Nat) : Option (List Json) :=
  if base = target then some (if 0 < base.length then [copyOp 0 base.length] else [])
  else (Loop.run (atEnd target) (patcher.advance base target) fuel {}).map fun s => s.flushInsert.operations

/-- `create_patch`, for the bytes of the two files. -/
def createPatch [Surroundings] (fuel : Nat) : Option DeltaPatch :=
  (patcher.operations base target fuel).map fun operations =>
    ⟨Surroundings.sha256 base, base.length, Surroundings.sha256 target, target.length, patcher.chunkSize,
      operations⟩

end DeltaPatcher

/-! ### Applying a patch -/

/-- The files, by their paths. -/
abbrev Files := Str → Option Bytes

/-- What the system may fail to do. -/
inductive FileStep where
  | read
  | prepare
  | write (number : Nat)
  | close
  | replace

def writeAll [Platform] [Surroundings] (fails : FileStep → Bool) (base : Bytes) :
    Nat → List Json → Except PatchError Bytes
  | _, [] => if fails .close then .error (.other .environment) else .ok []
  | number, op :: operations => do
      let data ← perform base op
      if fails (.write number) then
        throw (.other .environment)
      let rest ← writeAll fails base (number + 1) operations
      return data ++ rest

/-- `apply_patch`: the path of the target, and the files.  The temporary file has the path `temp`. -/
def applyPatch [Platform] [Surroundings] (fails : FileStep → Bool) (temp : Str) (files : Files) (baseFile : Str)
    (patch : DeltaPatch) (targetFile : Str) : Except PatchError Str × Files :=
  match files baseFile with
  | none => (.error (.fileNotFound (text "Base file not found: " ++ baseFile)), files)
  | some base =>
      if fails .read then (.error (.other .environment), files)
      else if Surroundings.sha256 base ≠ patch.baseSha256 then
        (.error (.baseFileMismatch (text "Base file mismatch: expected " ++ patch.baseSha256 ++ text ", got " ++
          Surroundings.sha256 base)), files)
      else if fails .prepare then (.error (.other .environment), files)
      else
        let removed := Function.update files temp none
        match writeAll fails base 0 patch.operations with
        | .error e => (.error e, removed)
        | .ok data =>
            if Surroundings.sha256 data ≠ patch.targetSha256 then
              (.error (.targetCorrupt (text "Reconstructed target mismatch: expected " ++ patch.targetSha256 ++
                text ", got " ++ Surroundings.sha256 data)), removed)
            else if fails .replace then (.error (.other .environment), removed)
            else (.ok targetFile, Function.update removed targetFile (some data))

end Courier.Delta
