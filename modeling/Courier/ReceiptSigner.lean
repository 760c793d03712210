import Courier.Library.Calendar
import Courier.Library.Loaded
import Courier.Platform

/-!
# Signed receipts

A receipt is a payload with the time at which it was signed and a keyed digest of both.  What was signed
determines the time and the payload (`message_injective`), if the payload is as a JSON reader gives it.
-/

namespace Courier.Receipts

open Calendar Json Text

/-- What the signer takes from its surroundings. -/
class Surroundings where
  /-- The hexadecimal digest of a message, keyed with a secret. -/
  hmac : Str → Str → Str
  /-- `datetime.strptime(ts, TIME_FORMAT)`, or nothing where it raises. -/
  strptime : Str → Option DateTime

/-- Surroundings to evaluate examples on: a short digest, and times that are read as they are
written. -/
@[reducible]
def Surroundings.plain : Surroundings where
  hmac secret s := Text.natDecimal ((secret ++ s).foldl (fun digest c => (31 * digest + c) % 2 ^ 61) 7)
  strptime s := (parse s).filter fun t => format t = s

/-- A text that is read under `TIME_FORMAT` has digits, dashes, colons and letters only. -/
def FormatOnly [Surroundings] : Prop :=
  ∀ s t, Surroundings.strptime s = some t → 123 ∉ s

theorem lt_of_mem_format {t : DateTime} {c : Nat} (h : c ∈ format t) :
  c < 123
  := by
  have hmonth := daysInMonth_le (isLeap t.year) t.month
  obtain ⟨-, hyear, -, hmonths, -, hday⟩ := t.date
  obtain ⟨hhour, hminute, hsecond, -⟩ := t.time
  simp only [format, digits4, digits2, List.mem_append, List.mem_cons, List.not_mem_nil, or_false] at h
  omega

theorem brace_notMem_format (t : DateTime) :
  123 ∉ format t
  := fun h => lt_irrefl _ (lt_of_mem_format h)

theorem plainText_format (t : DateTime) :
  PlainText (format t)
  := plainText_of_ascii fun _ hc => (lt_of_mem_format hc).trans (by decide)

theorem formatOnly_plain :
  @FormatOnly Surroundings.plain
  := by
  intro s t ht
  obtain ⟨-, hformat⟩ := Option.filter_eq_some_iff.mp ht
  rw [← of_decide_eq_true hformat]
  exact brace_notMem_format t

def canonicalJson (obj : Json) : Str :=
  dumpsAscii obj

structure SignedReceipt where
  payload : Json
  signedAt : Json
  signature : Str
  keyId : Json := .null
  deriving DecidableEq

namespace SignedReceipt

/-- `to_dict`, with its keys in order. -/
def toDict (receipt : SignedReceipt) : Members :=
  [(text "key_id", receipt.keyId), (text "payload", receipt.payload),
    (text "signature", .str receipt.signature), (text "signed_at", receipt.signedAt)]

def fromDict (data : Members) : Except Exc SignedReceipt :=
  match get data (text "signature") with
  | .str (c :: s) =>
      .ok ⟨(data.lookup (text "payload")).getD (.obj []),
        (data.lookup (text "signed_at")).getD (.str []), c :: s, get data (text "key_id")⟩
  | _ => .error .valueError

end SignedReceipt

inductive Reason where
  | valid
  | signatureMismatch
  | clockSkewExceeded
  | malformedReceipt
  deriving DecidableEq

/-- The reason as it is written. -/
def Reason.name : Reason → Str
  | .valid => text "VALID"
  | .signatureMismatch => text "SIGNATURE_MISMATCH"
  | .clockSkewExceeded => text "CLOCK_SKEW_EXCEEDED"
  | .malformedReceipt => text "MALFORMED_RECEIPT"

structure VerificationResult where
  isValid : Bool
  reason : Reason
  deriving DecidableEq

structure ReceiptSigner where
  secretKey : Str
  keyId : Json := .null
  maxSkewSec : Nat := 300

def message (payload : Json) (signedAt : Str) : Str :=
  signedAt ++ text ":" ++ canonicalJson payload

/-- The moments are not further apart than a number of seconds. -/
def within (seconds : Nat) (a b : DateTime) : Prop :=
  a.instant ≤ b.instant + 1000000 * seconds ∧ b.instant ≤ a.instant + 1000000 * seconds

instance (seconds : Nat) (a b : DateTime) : Decidable (within seconds a b) :=
  inferInstanceAs (Decidable (_ ∧ _))

namespace ReceiptSigner

variable [Surroundings]

def computeDigest (signer : ReceiptSigner) (payload : Json) (signedAt : Str) : Str :=
  Surroundings.hmac signer.secretKey (message payload signedAt)

def signatureOf (signer : ReceiptSigner) (payload : Json) (signedAt : Str) : Str :=
  text "hmac-sha256:" ++ signer.computeDigest payload signedAt

def sign (signer : ReceiptSigner) (payload : Json) (now : DateTime) : SignedReceipt :=
  ⟨payload, .str (format now), signer.signatureOf payload (format now), signer.keyId⟩

/-- `verify`, of a receipt.  Texts that are not ASCII are not compared. -/
def verify (signer : ReceiptSigner) (receipt : SignedReceipt) (now : DateTime) :
    Except Exc VerificationResult :=
  match receipt.signedAt with
  | .str signedAt =>
      match Surroundings.strptime signedAt with
      | none => .ok ⟨false, .malformedReceipt⟩
      | some rcptTime =>
          if ¬ within signer.maxSkewSec now rcptTime then .ok ⟨false, .clockSkewExceeded⟩
          else if ¬ ∀ c ∈ receipt.signature, c < 128 then .error .typeError
          else if receipt.signature = signer.signatureOf receipt.payload signedAt then .ok ⟨true, .valid⟩
          else .ok ⟨false, .signatureMismatch⟩
  | _ => .ok ⟨false, .malformedReceipt⟩

/-- `verify`, of a dictionary. -/
def verifyDict (signer : ReceiptSigner) (data : Members) (now : DateTime) :
    Except Exc VerificationResult :=
  match SignedReceipt.fromDict data with
  | .ok receipt => signer.verify receipt now
  | .error _ => .ok ⟨false, .malformedReceipt⟩

end ReceiptSigner

/-! ### What is verified -/

section

variable [Surroundings] {signer : ReceiptSigner} {receipt : SignedReceipt} {now : DateTime}
  {result : VerificationResult}

theorem verify_valid_iff :
  signer.verify receipt now = .ok ⟨true, .valid⟩ ↔
    ∃ signedAt t, receipt.signedAt = .str signedAt ∧ Surroundings.strptime signedAt = some t ∧
      within signer.maxSkewSec now t ∧ (∀ c ∈ receipt.signature, c < 128) ∧
      receipt.signature = signer.signatureOf receipt.payload signedAt
  := by
  unfold ReceiptSigner.verify
  constructor
  · intro h
    split at h
    · next signedAt hat =>
      split at h
      · cases h
      · next t ht =>
        split_ifs at h with hnear hascii hsignature
        · exact ⟨signedAt, t, hat, ht, hnear, hascii, hsignature⟩
        · cases h
        · cases h
    · cases h
  · rintro ⟨signedAt, t, hat, ht, hnear, hascii, hsignature⟩
    rw [hat]
    dsimp only
    rw [ht]
    dsimp only
    rw [if_neg (not_not.mpr hnear), if_neg (not_not.mpr hascii), if_pos hsignature]

theorem isValid_iff (h : signer.verify receipt now = .ok result) :
  result.isValid = true ↔ result = ⟨true, .valid⟩
  := by
  refine ⟨?_, by rintro rfl; rfl⟩
  intro hvalid
  unfold ReceiptSigner.verify at h
  split at h
  · split at h
    · cases h
      cases hvalid
    · split_ifs at h
      · cases h
        rfl
      · cases h
        cases hvalid
      · cases h
        cases hvalid
  · cases h
    cases hvalid

theorem isValid_dict_iff {data : Members} (h : signer.verifyDict data now = .ok result) :
  result.isValid = true ↔ result = ⟨true, .valid⟩
  := by
  unfold ReceiptSigner.verifyDict at h
  split at h
  · exact isValid_iff h
  · cases h
    simp

end

/-! ### What is signed -/

/-- The text that is signed determines the time, if it has no brace, and the payload, if it is an object of a JSON
reader. -/
theorem message_injective {d d' : Members} {signedAt signedAt' : Str} (hat : 123 ∉ signedAt)
    (hat' : 123 ∉ signedAt') (hgood : Good (.obj d)) (hgood' : Good (.obj d'))
    (h : message (.obj d) signedAt = message (.obj d') signedAt') :
  signedAt = signedAt' ∧ d = d'
  := by
  obtain ⟨s, hs⟩ := dumpsAscii_obj d
  obtain ⟨s', hs'⟩ := dumpsAscii_obj d'
  -- The first brace of the text is that of the payload.
  have hsplit : ∀ {a s : Str}, 123 ∉ a →
      (a ++ text ":" ++ 123 :: s).takeWhile (· ≠ 123) = a ++ text ":" ∧
      (a ++ text ":" ++ 123 :: s).dropWhile (· ≠ 123) = 123 :: s := by
    intro a s ha
    have hnone : ∀ c ∈ a ++ text ":", decide (c ≠ 123) = true := by
      intro c hc
      rw [decide_eq_true_eq]
      rintro rfl
      rcases List.mem_append.mp hc with hc | hc
      · exact ha hc
      · exact absurd hc (by decide)
    constructor
    · rw [List.takeWhile_append_of_pos hnone, List.takeWhile_cons_of_neg (by simp), List.append_nil]
    · rw [List.dropWhile_append_of_pos hnone, List.dropWhile_cons_of_neg (by simp)]
  simp only [message, canonicalJson, hs, hs'] at h
  obtain ⟨htake, hdrop⟩ := hsplit (s := s) hat
  obtain ⟨htake', hdrop'⟩ := hsplit (s := s') hat'
  rw [h] at htake hdrop
  have htimes := htake.symm.trans htake'
  have hobjects : dumpsAscii (.obj d) = dumpsAscii (.obj d') := by
    rw [hs, hs']
    exact hdrop.symm.trans hdrop'
  have hobj := dumpsAscii_injective hgood.1 hgood'.1 hgood.2 hgood'.2 hobjects
  exact ⟨List.append_cancel_right htimes, Json.obj.inj hobj⟩

end Courier.Receipts
