import Courier.Library.Dict
import Courier.Library.Escaped
import Courier.Library.Merkle
import Courier.Platform

/-!
# The result notary

A batch of results is notarised by a record that is stored: the keys and the digests of its items, and
the root of the hash tree over the digests.  A proof is to show that an item is in a batch: a path from
the digest of the item to the root.
-/

namespace Courier.Notary

open Merkle (Side)

class Surroundings where
  /-- The hexadecimal keyed digest of a text. -/
  hmac : Str → Str → Str
  /-- The file that the path of a batch names. -/
  batchFile : Str → Str

/-- The exceptions of the notary, with what their messages tell. -/
inductive NotaryError where
  | duplicateItem (batchId key : Str)
  | batchNotFound (batchId : Str)
  | itemNotFound (itemId batchId : Str)
  | indexError
  | otherRoot
  | badSignature
  | unicodeEncode
  | typeError
  deriving DecidableEq

/-- An item of a batch: an object as a JSON reader gives it. -/
structure Item where
  members : Members
  wf : (Json.obj members).wf = true
  plain : (Json.obj members).EveryText Json.PlainText

structure NotaryBatchRecord where
  batchId : Str
  rootHash : Str
  itemCount : Int
  leafHashes : List Str
  itemKeys : List Str
  timestamp : Str
  signature : Str
  deriving DecidableEq

structure MerkleProof where
  batchId : Str
  itemId : Str
  leafHash : Str
  rootHash : Str
  proofPath : List (Str × Str)
  notarySignature : Str
  deriving DecidableEq

/-- `record.canonical_bytes()`, before it is encoded. -/
def NotaryBatchRecord.canonicalBytes (r : NotaryBatchRecord) : Str :=
  (Json.obj [
    (text "batch_id", .str r.batchId),
    (text "item_count", .int r.itemCount),
    (text "item_keys", .arr (r.itemKeys.map .str)),
    (text "leaf_hashes", .arr (r.leafHashes.map .str)),
    (text "root_hash", .str r.rootHash),
    (text "timestamp", .str r.timestamp)]).dumpsAscii

/-- A record as it is read from the file it was written to. -/
def NotaryBatchRecord.readBack (r : NotaryBatchRecord) : NotaryBatchRecord where
  batchId := Json.fuse r.batchId
  rootHash := Json.fuse r.rootHash
  itemCount := r.itemCount
  leafHashes := r.leafHashes.map Json.fuse
  itemKeys := r.itemKeys.map Json.fuse
  timestamp := Json.fuse r.timestamp
  signature := Json.fuse r.signature

section Trees

variable [Platform]

/-- `_hash_pair`, of texts that can be encoded. -/
def hashPair (left right : Str) : Str :=
  Platform.sha256 (left ++ right)

/-- `_canonical_json_hash` of an object. -/
def canonicalJsonHash (members : Members) : Str :=
  Platform.sha256 (Json.obj members).dumpsAscii

/-- The levels of `MerkleTree`. -/
def treeLevels (leaves : List Str) : List (List Str) :=
  if leaves = [] then [[Platform.sha256 []]] else Merkle.levels hashPair leaves

/-- `MerkleTree.root`. -/
def treeRoot (leaves : List Str) : Str :=
  ((treeLevels leaves).getLast?.bind List.head?).getD (Platform.sha256 [])

/-- The loop of `MerkleTree.generate_proof`. -/
def siblings : List (List Str) → Nat → List (Str × Str)
  | level :: next :: levels, i =>
      (if i % 2 = 1 then (text "left", level.getD (i - 1) [])
        else (text "right", level.getD (i + 1) (level.getD i []))) :: siblings (next :: levels) (i / 2)
  | _, _ => []

def generateProof (leaves : List Str) (index : Nat) : Except NotaryError (List (Str × Str)) :=
  if index < leaves.length then .ok (siblings (treeLevels leaves) index) else .error .indexError

/-- The loop of `verify_inclusion_proof`: where the path leads to, if its directions are known. -/
def climbPath (current : Str) : List (Str × Str) → Except NotaryError (Option Str)
  | [] => .ok (some current)
  | (direction, sibling) :: path =>
      if direction = text "left" then
        if Text.Encodable (sibling ++ current) then climbPath (hashPair sibling current) path
        else .error .unicodeEncode
      else if direction = text "right" then
        if Text.Encodable (current ++ sibling) then climbPath (hashPair current sibling) path
        else .error .unicodeEncode
      else .ok none

/-- `hmac.compare_digest` of texts. -/
def compareDigest (a b : Str) : Except NotaryError Bool :=
  if (∀ c ∈ a, c < 128) ∧ ∀ c ∈ b, c < 128 then .ok (a = b) else .error .typeError

def verifyInclusionProof (leafHash : Str) (proof : List (Str × Str)) (root : Str) :
    Except NotaryError Bool := do
  match ← climbPath leafHash proof with
  | some reached => compareDigest reached root
  | none => return false

end Trees

section Batches

variable [Platform] [Surroundings]

/-- The records that are stored, by their files. -/
abbrev Log := Dict Str NotaryBatchRecord

/-- The name that an item itself bears. -/
def Item.ownKey (item : Item) : Option Str :=
  ((item.members.lookup (text "task_id")).or (item.members.lookup (text "id"))).map pyStr

/-- The name of an item that bears none. -/
def defaultKey (index : Nat) : Str :=
  text "item-" ++ Text.natDecimal index

def Item.key (item : Item) (index : Nat) : Str :=
  item.ownKey.getD (defaultKey index)

/-- The loop over the items: their keys, none of them twice. -/
def itemKeys (batchId : Str) : List Item → Nat → List Str → Except NotaryError (List Str)
  | [], _, seen => .ok seen
  | item :: items, index, seen =>
      if item.key index ∈ seen then .error (.duplicateItem batchId (item.key index))
      else itemKeys batchId items (index + 1) (seen ++ [item.key index])

def sign (secret : Option Str) (record : NotaryBatchRecord) : Option Str :=
  match secret with
  | some key => if key = [] then none else some (Surroundings.hmac key record.canonicalBytes)
  | none => none

def notarizeBatch (secret : Option Str) (batchId : Str) (items : List Item) (timestamp : Str)
    (log : Log) : Except NotaryError (NotaryBatchRecord × Log) := do
  let keys ← itemKeys batchId items 0 []
  let leafHashes := items.map fun item => canonicalJsonHash item.members
  let unsigned : NotaryBatchRecord :=
    ⟨batchId, treeRoot leafHashes, items.length, leafHashes, keys, timestamp, []⟩
  let record := { unsigned with signature := (sign secret unsigned).getD [] }
  return (record, log.set (Surroundings.batchFile batchId) record)

def getBatch (log : Log) (batchId : Str) : Except NotaryError NotaryBatchRecord :=
  match log.get? (Surroundings.batchFile batchId) with
  | some record => .ok record.readBack
  | none => .error (.batchNotFound batchId)

def generateItemProof (log : Log) (batchId itemId : Str) : Except NotaryError MerkleProof := do
  let record ← getBatch log batchId
  match record.itemKeys.idxOf? itemId with
  | none => .error (.itemNotFound itemId batchId)
  | some index =>
      let path ← generateProof record.leafHashes index
      return ⟨batchId, itemId, record.leafHashes.getD index [], record.rootHash, path,
        record.signature⟩

def verifyItemProof (secret : Option Str) (log : Log) (proof : MerkleProof) :
    Except NotaryError Bool := do
  if ← verifyInclusionProof proof.leafHash proof.proofPath proof.rootHash then
    let record ← getBatch log proof.batchId
    if proof.rootHash ≠ record.rootHash then
      .error .otherRoot
    else
      match sign secret record with
      | none => return true
      | some expected =>
          if ← compareDigest proof.notarySignature expected then return true
          else .error .badSignature
  else return false

/-- A batch that is to be notarised. -/
structure Batch where
  batchId : Str
  items : List Item
  timestamp : Str

def logAfter (secret : Option Str) (log : Log) (batch : Batch) : Log :=
  match notarizeBatch secret batch.batchId batch.items batch.timestamp log with
  | .ok (_, log') => log'
  | .error _ => log

def logOf (secret : Option Str) (batches : List Batch) : Log :=
  batches.foldl (logAfter secret) ∅

end Batches

end Courier.Notary
