import Courier.Library.Indented
import Courier.Platform

/-!
# Recovery from a checkpoint

A verified result is written into the checkpoint of its workkey, and the recovery mode resumes from it
(`executeModeD`).  It compares the two hashes that a checkpoint records but takes neither anew, it lets either be
missing, and it asks any value for members; so a checkpoint is handled as it should be exactly if it is sound
(`recovers_iff`).
-/

namespace Courier.Continuation.Recovery

open Json Text

/-- What is taken from the surroundings: `hashlib.sha256(raw).hexdigest()`, what the reader makes of a text that is
JSON but for `NaN` and `Infinity`, the texts beyond its limits, its messages, and the equality of values. -/
class Interpreter where
  digest : Bytes → Str
  extended : Str → Option Json
  exceeds : Str → Bool
  message : Bytes → Str
  equal : Json → Json → Bool
  equal_str : ∀ s t, equal (.str s) (.str t) = true ↔ s = t

/-- `validate_workkey`; the `$` of its pattern also matches before a line feed at the end. -/
def isWorkkey (s : Str) : Bool :=
  let name := if s.getLast? = some 10 then s.dropLast else s
  name ≠ [] && name.all fun c =>
    (48 ≤ c && c ≤ 57) || (65 ≤ c && c ≤ 90) || (97 ≤ c && c ≤ 122) || c = 95 || c = 45

structure Workkey where
  text : Str
  valid : isWorkkey text = true

section Recovery

variable [Platform] [Interpreter]

/-- `json.loads(raw.decode("utf-8"))` -/
def reads (raw : Bytes) : Except Str Json :=
  match raw.decode with
  | none => .error (Interpreter.message raw)
  | some s =>
      match if Interpreter.exceeds s then none else (loads s).or (Interpreter.extended s) with
      | some v => .ok v
      | none => .error (Interpreter.message raw)

def canonicalJsonHash (data : Json) : Str :=
  Platform.sha256 (dumpsAscii data)

def hashed (result : Members) : Members :=
  result ++ [(text "result_hash", .str (canonicalJsonHash (.obj (members result))))]

def PASS : Json :=
  .str (text "PASS")

/-! ### The recovery mode -/

/-- A packet of the recovery mode, with what it names by default. -/
structure Packet where
  taskId : Json := .str (text "task-recovery")
  workkey : Workkey
  expectedCheckpointTaskId : Json := .null

/-- A result of the recovery mode. -/
def Packet.result (packet : Packet) (status : Json) (more : Members) : Members :=
  hashed ([(text "task_id", packet.taskId), (text "workkey", .str packet.workkey.text),
    (text "mode", .str (text "MODE_D_RECOVERY_RESUME")), (text "status", status)] ++ more)

def Packet.fail (packet : Packet) (error : Str) (rest : Members := [(text "restarted_from_zero", .bool true)]) :
    Members :=
  packet.result (.str (text "FAIL"))
    ([(text "error", .str error), (text "checkpoint_recovered", .bool false)] ++ rest)

/-- The two hashes of a checkpoint differ. -/
def Tampered (cpData details : Members) : Prop :=
  truthy (get cpData (text "result_hash")) = true ∧ truthy (get details (text "result_hash")) = true ∧
    Interpreter.equal (get cpData (text "result_hash")) (get details (text "result_hash")) = false

/-- The checkpoint is that of another workkey. -/
def Foreign (workkey : Workkey) (cpData details : Members) : Prop :=
  get cpData (text "workkey") ≠ .str workkey.text ∨
    get details (text "workkey") ∉ [.null, .str workkey.text]

/-- The checkpoint is that of another task than the packet expects. -/
def Packet.Misses (packet : Packet) (details : Members) : Prop :=
  truthy packet.expectedCheckpointTaskId = true ∧
    Interpreter.equal (get details (text "task_id")) packet.expectedCheckpointTaskId = false

def Failing (cpData details : Members) : Prop :=
  get cpData (text "status") ≠ PASS ∨ get details (text "status") ∉ [.null, PASS]

instance (cpData details : Members) : Decidable (Tampered cpData details) :=
  inferInstanceAs (Decidable (_ ∧ _))

omit [Platform] [Interpreter] in
instance (workkey : Workkey) (cpData details : Members) : Decidable (Foreign workkey cpData details) :=
  inferInstanceAs (Decidable (_ ∨ _))

instance (packet : Packet) (details : Members) : Decidable (packet.Misses details) :=
  inferInstanceAs (Decidable (_ ∧ _))

omit [Platform] [Interpreter] in
instance (cpData details : Members) : Decidable (Failing cpData details) :=
  inferInstanceAs (Decidable (_ ∨ _))

/-- The checks of a checkpoint with its details. -/
def recover (packet : Packet) (raw : Bytes) (cpData details : Members) : Members :=
  if Tampered cpData details then packet.fail (text "Checkpoint hash tampering detected")
  else if Foreign packet.workkey cpData details then
    packet.fail (text "Foreign checkpoint workkey mismatch: expected " ++ packet.workkey.text ++ text ", got " ++
      pyStr (get cpData (text "workkey")))
  else if packet.Misses details then
    packet.fail (text "Checkpoint task_id mismatch: expected " ++ pyStr packet.expectedCheckpointTaskId ++
      text ", got " ++ pyStr (get details (text "task_id")))
  else if Failing cpData details then
    packet.fail (text "Cannot recover non-passing checkpoint (status=" ++ pyStr (get cpData (text "status")) ++
      text ")")
      [(text "recovered_workkey", get cpData (text "workkey")), (text "recovered_status", get cpData (text "status")),
        (text "restarted_from_zero", .bool false)]
  else
    packet.result PASS [(text "checkpoint_recovered", .bool true),
      (text "recovered_workkey", get cpData (text "workkey")), (text "recovered_status", get cpData (text "status")),
      (text "next_workkey", get cpData (text "next_workkey")),
      (text "checkpoint_sha256", .str (Interpreter.digest raw)), (text "restarted_from_zero", .bool false)]

/-- `_execute_mode_d`, for the file of the workkey; it raises where a value that is no object is asked for members. -/
def executeModeD (packet : Packet) : Option Bytes → Option Members
  | none => some (packet.fail (text "Checkpoint file not found: " ++ packet.workkey.text ++ text ".checkpoint.json"))
  | some raw =>
      match reads raw with
      | .error ex => some (packet.fail (text "Corrupted checkpoint: " ++ ex))
      | .ok (.obj cpData) =>
          match (cpData.lookup (text "details")).getD (.obj []) with
          | .obj details => some (recover packet raw cpData details)
          | _ => none
      | .ok _ => none

/-! ### Results and checkpoints -/

def payload (result : Members) : Members :=
  result.filter (·.1 ≠ text "result_hash")

/-- `verify_result` for a workkey, of a result that is an object. -/
def verifyResult (result : Members) (expectedWorkkey : Workkey) : Bool :=
  get result (text "status") = PASS ∧ get result (text "workkey") ∈ [.null, .str expectedWorkkey.text] ∧
    truthy (get result (text "result_hash")) = true ∧
    get result (text "result_hash") = .str (canonicalJsonHash (.obj (payload result)))

/-- `checkpoint`: the object that it writes, with its keys in order. -/
def checkpointData (workkey : Workkey) (result : Members) (nextWorkkey : Option Workkey) (nowIso : Str) : Members :=
  [(text "created_at", .str nowIso), (text "details", .obj result), (text "mode", get result (text "mode")),
    (text "next_workkey", nextWorkkey.elim .null fun next => .str next.text),
    (text "result_hash", get result (text "result_hash")), (text "schema_version", .str (text "2.0")),
    (text "status", (result.lookup (text "status")).getD (.str (text "COMPLETED"))),
    (text "workkey", .str workkey.text)]

def checkpointText (workkey : Workkey) (result : Members) (nextWorkkey : Option Workkey) (nowIso : Str) : Str :=
  dumpsIndented (.obj (checkpointData workkey result nextWorkkey nowIso)) ++ [10]

/-! ### What is recovered -/

/-- The file is a checkpoint of a result that is verified for the workkey, under the hash of the result. -/
def Verified (workkey : Workkey) (raw : Bytes) : Prop :=
  ∃ cpData details, reads raw = .ok (.obj cpData) ∧ get cpData (text "details") = .obj details ∧
    get cpData (text "workkey") = .str workkey.text ∧ get cpData (text "status") = PASS ∧
    verifyResult details workkey = true ∧
    get cpData (text "result_hash") = get details (text "result_hash")

/-- A result is returned, and it has passed only if the file is verified. -/
def Honest (packet : Packet) (raw : Bytes) : Prop :=
  ∃ result, executeModeD packet (some raw) = some result ∧
    (get result (text "status") = PASS → Verified packet.workkey raw)

/-- If the file is read at all, it is an object with details that are one; and a checkpoint with the workkey, the task
and the status has details with their own hash, which it records, and with their status. -/
def Sound (packet : Packet) (raw : Bytes) : Prop :=
  ∀ v, reads raw = .ok v → ∃ cpData details, v = .obj cpData ∧
    (cpData.lookup (text "details")).getD (.obj []) = .obj details ∧
    (Tampered cpData details ∨ Foreign packet.workkey cpData details ∨ packet.Misses details ∨
      Failing cpData details ∨
      get details (text "status") = PASS ∧ truthy (get details (text "result_hash")) = true ∧
        get details (text "result_hash") = .str (canonicalJsonHash (.obj (payload details))) ∧
        get cpData (text "result_hash") = get details (text "result_hash"))

omit [Interpreter] in
theorem status_fail (packet : Packet) (error : Str) (rest : Members) :
  Json.get (packet.fail error rest) (text "status") ≠ PASS
  := by
  change Json.str (text "FAIL") ≠ PASS
  decide

theorem recover_status_iff (packet : Packet) (raw : Bytes) (cpData details : Members) :
  Json.get (recover packet raw cpData details) (text "status") = PASS ↔
    ¬ (Tampered cpData details ∨ Foreign packet.workkey cpData details ∨ packet.Misses details ∨
      Failing cpData details)
  := by
  unfold recover
  split_ifs with htampered hforeign hmisses hfailing
  · simp [status_fail, htampered]
  · simp [status_fail, hforeign]
  · simp [status_fail, hmisses]
  · simp [status_fail, hfailing]
  · simp only [htampered, hforeign, hmisses, hfailing, or_self, not_false_eq_true, iff_true]
    rfl

omit [Platform] [Interpreter] in
theorem get_details {cpData details : Members} {k : Str} (h : (cpData.lookup k).getD (.obj []) = .obj details) :
  Json.get cpData k = .obj details ∨ Json.get cpData k = .null ∧ details = []
  := by
  rw [Json.get]
  cases hlookup : cpData.lookup k with
  | none =>
    rw [hlookup] at h
    cases h
    exact .inr ⟨rfl, rfl⟩
  | some d =>
    rw [hlookup] at h
    exact .inl h

/-- The recovery mode handles a file as it should exactly if the file is sound. -/
theorem honest_iff (packet : Packet) (raw : Bytes) :
  Honest packet raw ↔ Sound packet raw
  := by
  cases hreads : reads raw with
  | error ex =>
    constructor
    · intro _ v hv
      cases hreads.symm.trans hv
    · intro _
      exact ⟨packet.fail (text "Corrupted checkpoint: " ++ ex), by simp [executeModeD, hreads],
        fun hpass => absurd hpass (status_fail _ _ _)⟩
  | ok v =>
    constructor
    · rintro ⟨result, hresult, hpass⟩ v' hv'
      cases hreads.symm.trans hv'
      simp only [executeModeD, hreads] at hresult
      split at hresult
      · rename_i heq
        cases heq
      · rename_i cpData heq
        cases heq
        split at hresult
        · rename_i details hdetails
          cases hresult
          refine ⟨cpData, details, rfl, hdetails, ?_⟩
          by_contra hnot
          simp only [not_or] at hnot
          obtain ⟨htampered, hforeign, hmisses, hfailing, hnot⟩ := hnot
          obtain ⟨cpData', details', hreads', hmember, -, -, hverified, hhash⟩ := hpass
            ((recover_status_iff ..).mpr (by simp [htampered, hforeign, hmisses, hfailing]))
          cases hreads.symm.trans hreads'
          obtain hsame | ⟨hnull, -⟩ := get_details hdetails
          · cases hsame.symm.trans hmember
            simp only [verifyResult, decide_eq_true_eq] at hverified
            exact hnot ⟨hverified.1, hverified.2.2.1, hverified.2.2.2, hhash⟩
          · cases hnull.symm.trans hmember
        · cases hresult
      · cases hresult
    · intro h
      obtain ⟨cpData, details, rfl, hdetails, hsound⟩ := h v hreads
      refine ⟨recover packet raw cpData details, by simp [executeModeD, hreads, hdetails], ?_⟩
      intro hpass
      rw [recover_status_iff] at hpass
      simp only [not_or] at hpass
      obtain ⟨htampered, hforeign, hmisses, hfailing⟩ := hpass
      simp only [htampered, hforeign, hmisses, hfailing, false_or] at hsound
      obtain ⟨hstatus, htruthy, hhash, hrecorded⟩ := hsound
      simp only [Foreign, Failing, not_or, not_not] at hforeign hfailing
      refine ⟨cpData, details, hreads, ?_, hforeign.1, hfailing.1, ?_, hrecorded⟩
      · obtain hsame | ⟨-, rfl⟩ := get_details hdetails
        · exact hsame
        · cases htruthy
      · simp only [verifyResult, decide_eq_true_eq]
        exact ⟨hstatus, hforeign.2, htruthy, hhash⟩

variable {result : Members} {workkey : Workkey} {nextWorkkey : Option Workkey} {nowIso : Str}

section

omit [Platform] [Interpreter]

theorem Workkey.lt_of_mem (workkey : Workkey) {c : Nat} (hc : c ∈ workkey.text) :
  c < 128
  := by
  have hvalid := workkey.valid
  simp only [isWorkkey, Bool.and_eq_true, List.all_eq_true] at hvalid
  have hname : ∀ d : Nat, ((48 ≤ d && d ≤ 57) || (65 ≤ d && d ≤ 90) || (97 ≤ d && d ≤ 122) || d = 95 || d = 45) = true →
      d < 128 := by
    intro d hd
    simp at hd
    omega
  obtain ⟨-, hall⟩ := hvalid
  split_ifs at hall with hlast
  · rw [← List.dropLast_append_getLast? 10 hlast, List.mem_append] at hc
    obtain hc | hc := hc
    · apply hname c (hall c hc)
    · rw [List.mem_singleton.mp hc]
      decide
  · apply hname c (hall c hc)

theorem reread_str {s : Str} (h : ∀ c ∈ s, c < 128) :
  (Json.str s).reread = .str s
  := congrArg Json.str (fuse_eq_self (hasPair_of_lt fun c hc => (h c hc).trans (by decide)))

theorem isText_of_lt {s : Str} (h : ∀ c ∈ s, c < 128) :
  IsText s
  := fun c hc => (h c hc).trans (by decide)

theorem fit_get {d : Members} (h : Fit.fitMembers d) (k : Str) :
  (Json.get d k).Fit
  := by
  rw [Json.get]
  cases hlookup : d.lookup k with
  | none => trivial
  | some v =>
    obtain ⟨before, after, rfl, -⟩ := List.lookup_eq_some_iff.mp hlookup
    exact (fitMembers_iff.mp h (k, v) (by simp)).2

end

/-- A result that is verified for a workkey, as a JSON reader gives it. -/
structure Accepted (workkey : Workkey) (result : Members) : Prop where
  fit : Fit.fitMembers result
  sorted : sortedKeys result = true
  verified : verifyResult result workkey = true

omit [Interpreter] in
theorem Accepted.reread (h : Accepted workkey result) (hhex : ∀ s, ∀ c ∈ Platform.sha256 s, c < 128) :
  Json.get result (text "status") = PASS ∧
  (result.lookup (text "status")).getD (.str (text "COMPLETED")) = PASS ∧
  (Json.get result (text "workkey")).reread ∈ [.null, .str workkey.text] ∧
  ∃ hash, Json.get result (text "result_hash") = .str hash ∧ ∀ c ∈ hash, c < 128
  := by
  have hverified := h.verified
  simp only [verifyResult, decide_eq_true_eq] at hverified
  obtain ⟨hstatus, hworkkey, -, hhash⟩ := hverified
  refine ⟨hstatus, ?_, ?_, _, hhash, hhex _⟩
  · cases hlookup : result.lookup (text "status") with
    | none => simp [Json.get, hlookup, PASS] at hstatus
    | some v => simpa [Json.get, hlookup] using hstatus
  · simp only [List.mem_cons, List.not_mem_nil, or_false] at hworkkey ⊢
    obtain hnull | hsame := hworkkey
    · exact .inl (by rw [hnull]; rfl)
    · exact .inr (by rw [hsame, reread_str fun c hc => workkey.lt_of_mem hc])

omit [Platform] [Interpreter] in
theorem next_reread (nextWorkkey : Option Workkey) :
  (nextWorkkey.elim Json.null fun next => .str next.text).Fit ∧
  (nextWorkkey.elim Json.null fun next => .str next.text).reread =
    nextWorkkey.elim .null fun next => .str next.text
  := by
  cases nextWorkkey with
  | none => exact ⟨trivial, rfl⟩
  | some next => exact ⟨isText_of_lt fun c hc => next.lt_of_mem hc, reread_str fun c hc => next.lt_of_mem hc⟩

theorem Accepted.reads (h : Accepted workkey result) (hhex : ∀ s, ∀ c ∈ Platform.sha256 s, c < 128)
    (hnow : IsText nowIso)
    (hlimits : Interpreter.exceeds (checkpointText workkey result nextWorkkey nowIso) = false) :
  reads (Bytes.ofAscii (checkpointText workkey result nextWorkkey nowIso)) =
    .ok (.obj (members (reread.rereadMembers (checkpointData workkey result nextWorkkey nowIso))))
  := by
  obtain ⟨-, hpass, -, hash, hhash, hascii⟩ := h.reread hhex
  have hdata : (Json.obj (checkpointData workkey result nextWorkkey nowIso)).Fit := by
    have htext : ∀ {t : Str}, (t.all fun c => decide (c < 128)) = true → IsText t := fun ht =>
      isText_of_lt fun c hc => by simpa using List.all_eq_true.mp ht c hc
    simp only [checkpointData, hpass, hhash]
    exact ⟨htext rfl, hnow, htext rfl, h.fit, htext rfl, fit_get h.fit _, htext rfl, (next_reread _).1, htext rfl,
      isText_of_lt hascii, htext rfl, htext rfl, htext rfl, htext rfl, htext rfl,
      isText_of_lt fun c hc => workkey.lt_of_mem hc, trivial⟩
  have hdecode := decode_dumpsIndented hdata [10] (by decide)
  have hloads := loads_of_denotes (prints_dumpsIndented hdata).denotes gap_nil (gap_newline 0)
  rw [List.nil_append] at hloads
  simp only [checkpointText] at hlimits ⊢
  simp only [Recovery.reads, hdecode, hlimits]
  simp [dumpsIndented, newline] at hloads ⊢
  rw [hloads]
  rfl

/-- Recovery from the checkpoint of a verified result passes, with the next workkey. -/
theorem Accepted.recover (h : Accepted workkey result) (hhex : ∀ s, ∀ c ∈ Platform.sha256 s, c < 128)
    (hnow : IsText nowIso)
    (hlimits : Interpreter.exceeds (checkpointText workkey result nextWorkkey nowIso) = false) (taskId : Json) :
  ∃ r, executeModeD { taskId, workkey } (some (Bytes.ofAscii (checkpointText workkey result nextWorkkey nowIso))) = some r ∧
    Json.get r (text "status") = PASS ∧
    Json.get r (text "next_workkey") = nextWorkkey.elim .null fun next => .str next.text
  := by
  obtain ⟨hstatus, hpass, hworkkey, hash, hhash, hascii⟩ := h.reread hhex
  have hreads := h.reads hhex hnow hlimits
  have hread : ∀ {d : Members}, sortedKeys d = true → ∀ k, (k.all fun c => decide (c < 128)) = true →
      Json.get (members (reread.rereadMembers d)) k = (Json.get d k).reread := fun hd k hk =>
    get_reread (fun c hc => by simpa using List.all_eq_true.mp hk c hc) hd
  have hget := hread (d := checkpointData workkey result nextWorkkey nowIso) rfl
  have hresult := hread h.sorted
  generalize members (reread.rereadMembers (checkpointData workkey result nextWorkkey nowIso)) = cpData at *
  have hmember : Json.get cpData (text "details") = .obj (members (reread.rereadMembers result)) := hget _ rfl
  generalize members (reread.rereadMembers result) = details at *
  have hlookup : (cpData.lookup (text "details")).getD (.obj []) = .obj details := by
    rw [Json.get] at hmember
    cases hlookup : cpData.lookup (text "details") with
    | none => simp [hlookup] at hmember
    | some v => simpa [hlookup] using hmember
  have hsame : Json.get cpData (text "result_hash") = .str hash ∧ Json.get details (text "result_hash") = .str hash := by
    refine ⟨?_, ?_⟩
    · rw [hget _ rfl, ← reread_str hascii, ← hhash]
      rfl
    · rw [hresult _ rfl, hhash, reread_str hascii]
  have hwk : Json.get cpData (text "workkey") = .str workkey.text := by
    rw [hget _ rfl, ← reread_str fun c hc => workkey.lt_of_mem hc]
    rfl
  have hcpStatus : Json.get cpData (text "status") = PASS := by
    rw [hget _ rfl]
    exact congrArg Json.reread hpass
  have hpassed : ¬ Tampered cpData details ∧ ¬ Foreign workkey cpData details ∧
      ¬ Packet.Misses { taskId, workkey } details ∧ ¬ Failing cpData details := by
    refine ⟨?_, ?_, ?_, ?_⟩
    · rintro ⟨-, -, hdiffers⟩
      rw [hsame.1, hsame.2, (Interpreter.equal_str _ _).mpr rfl] at hdiffers
      cases hdiffers
    · simpa only [Foreign, hwk, hresult (text "workkey") rfl, not_or, not_not, true_and] using hworkkey
    · rintro ⟨hexpected, -⟩
      cases hexpected
    · simp only [Failing, hcpStatus, hresult (text "status") rfl, hstatus, not_or, not_not, true_and]
      exact List.mem_cons_of_mem _ (List.mem_singleton.mpr rfl)
  obtain ⟨htampered, hforeign, hmisses, hfailing⟩ := hpassed
  refine ⟨Recovery.recover { taskId, workkey } (Bytes.ofAscii (checkpointText workkey result nextWorkkey nowIso)) cpData
    details, ?_, ?_, ?_⟩
  · simp only [executeModeD, hreads, hlookup]
  · rw [recover_status_iff]
    simp [htampered, hforeign, hmisses, hfailing]
  · rw [Recovery.recover, if_neg htampered, if_neg hforeign, if_neg hmisses, if_neg hfailing]
    exact (hget (text "next_workkey") rfl).trans (next_reread _).2

theorem recovers_iff (hhex : ∀ s, ∀ c ∈ Platform.sha256 s, c < 128) :
  (∀ packet raw, Honest packet raw ↔ Sound packet raw) ∧
  ∀ workkey result nextWorkkey nowIso taskId, Accepted workkey result → IsText nowIso →
    Interpreter.exceeds (checkpointText workkey result nextWorkkey nowIso) = false →
    ∃ r, executeModeD { taskId, workkey }
        (some (Bytes.ofAscii (checkpointText workkey result nextWorkkey nowIso))) = some r ∧
      Json.get r (text "status") = PASS ∧
      Json.get r (text "next_workkey") = nextWorkkey.elim .null fun next => .str next.text
  := by
  refine ⟨honest_iff, ?_⟩
  intro workkey result nextWorkkey nowIso taskId h hnow hlimits
  exact h.recover hhex hnow hlimits taskId

end Recovery

local instance platformPlain : Platform := Platform.plain

local instance interpreterPlain : Interpreter where
  digest _ := []
  extended _ := none
  exceeds _ := false
  message _ := []
  equal v w := decide (v = w)
  equal_str s t := by simp

private def workkey : Workkey :=
  ⟨text "WK_1", by decide⟩

private def passed : Members :=
  [(text "result_hash", .str (canonicalJsonHash (.obj [(text "status", PASS)]))), (text "status", PASS)]

theorem recovers_passed :
  ∃ r, executeModeD { workkey } (some (Bytes.ofAscii (checkpointText workkey passed none []))) = some r ∧
    Json.get r (text "status") = PASS ∧ Json.get r (text "next_workkey") = .null
  := by
  have hhex : ∀ s, ∀ c ∈ Platform.sha256 s, c < 128 := by
    intro s c hc
    have hdigit := isDigit_of_mem_natDecimal (show c ∈ natDecimal _ from hc)
    simp only [isDigit, Bool.and_eq_true, decide_eq_true_eq] at hdigit
    omega
  have hfit : Fit.fitMembers passed :=
    ⟨isText_of_lt (by decide), isText_of_lt (hhex _), isText_of_lt (by decide), isText_of_lt (by decide), trivial⟩
  exact (recovers_iff hhex).2 workkey passed none [] _ ⟨hfit, rfl, by decide +kernel⟩ (by simp [IsText]) rfl

private def bare : Bytes :=
  Bytes.ofAscii (dumpsAscii (.obj [(text "status", PASS), (text "workkey", .str (text "WK_1"))]))

theorem honest_fails :
  ¬ Honest { workkey } bare ∧ ¬ Honest { workkey } (Bytes.ofAscii (text "[]"))
  := by
  have hbare : reads bare = .ok (.obj [(text "status", PASS), (text "workkey", .str (text "WK_1"))]) := by
    decide +kernel
  refine ⟨?_, ?_⟩
  · rintro ⟨result, hresult, hpass⟩
    simp only [executeModeD, hbare] at hresult
    cases hresult
    obtain ⟨cpData, details, hreads, hdetails, -⟩ := hpass (by decide +kernel)
    cases hbare.symm.trans hreads
    cases hdetails
  · rintro ⟨result, hresult, -⟩
    have hnone : executeModeD { workkey } (some (Bytes.ofAscii (text "[]"))) = none := by decide +kernel
    cases hnone.symm.trans hresult

end Courier.Continuation.Recovery
