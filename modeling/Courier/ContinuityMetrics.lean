import Courier.Library.Encodings

/-!
# Metric verdicts

A verdict is sent as a JSON object that carries the digest of its own body.  The reader takes the digest again
and seals the verdict anew, from the values that it looked at.  It reproduces or rejects a text exactly when
the text is clean (`faithful_iff`); what the metrics themselves produce always comes back.
-/

namespace Courier.ContinuityMetrics

open Json (get)
open Text

/-- The digest, the texts beyond the limits of the interpreter, what is read of a text that is JSON but for `NaN` and
`Infinity`, and the float literals whose value is zero or one. -/
class Interpreter where
  sha256 : Bytes → Str
  exceeds : Str → Bool
  extended : Str → Option Json
  isFlag : Str → Bool

/-! ### Verdicts -/

def SCHEMA : Str :=
  text "courier.continuity_metrics.v1"

inductive Status where
  | measured
  | unmeasured
  | rejected
  deriving DecidableEq

def Status.value : Status → Str
  | .measured => text "measured"
  | .unmeasured => text "unmeasured"
  | .rejected => text "rejected"

def STATUSES : List Status :=
  [.measured, .unmeasured, .rejected]

/-- The counts of a verdict. -/
structure Counts where
  count : Option Nat
  successes : Option Nat
  measured : Option Nat
  classified : Nat
  deriving DecidableEq

structure MetricVerdict extends Counts where
  metric : Str
  status : Status
  reason : Str
  verified : Bool
  digest : Str
  deriving DecidableEq

/-- A count as a value. -/
def ofCount : Option Nat → Json
  | none => .null
  | some n => .int n

namespace MetricVerdict

variable (v : MetricVerdict)

/-- `_body`, with its keys in order. -/
def body : Json :=
  .obj [(text "classified", .int v.classified), (text "count", ofCount v.count),
    (text "measured", ofCount v.measured), (text "metric", .str v.metric), (text "reason", .str v.reason),
    (text "schema", .str SCHEMA), (text "status", .str v.status.value), (text "successes", ofCount v.successes)]

/-- `_payload`, with its keys in order. -/
def payload : Members :=
  [(text "classified", .int v.classified), (text "count", ofCount v.count), (text "digest", .str v.digest),
    (text "measured", ofCount v.measured), (text "metric", .str v.metric), (text "reason", .str v.reason),
    (text "schema", .str SCHEMA), (text "status", .str v.status.value), (text "successes", ofCount v.successes),
    (text "verified", .bool v.verified)]

def toJson : Str :=
  (Json.obj v.payload).dumps

end MetricVerdict

variable [Interpreter]

/-- `_digest`, or nothing where the body has no encoding and an exception is raised. -/
def digest (body : Json) : Option Str :=
  (Bytes.encode body.dumps).map Interpreter.sha256

/-- The digest of the body that the values make. -/
def bodyDigest (metric : Str) (status : Status) (reason : Str) (c : Counts) : Option Str :=
  digest (MetricVerdict.body ⟨c, metric, status, reason, false, []⟩)

/-- `_seal`. -/
def sealVerdict (metric : Str) (status : Status) (reason : Str) (c : Counts) : Option MetricVerdict :=
  (bodyDigest metric status reason c).map fun d => ⟨c, metric, status, reason, status = .measured, d⟩

def tampered (metric : Str) : Option MetricVerdict :=
  sealVerdict metric .rejected (text "tampered") ⟨none, none, none, 0⟩

/-- What the metrics return: `_measured` with the counts of a sample, or `_unmeasured` with a reason. -/
inductive Produced : MetricVerdict → Prop
  | measured {metric : Str} {c : Counts} {v : MetricVerdict} :
      sealVerdict metric .measured (text "measured") c = some v → Produced v
  | unmeasured {metric reason : Str} {v : MetricVerdict} :
      sealVerdict metric .unmeasured reason ⟨none, none, none, 0⟩ = some v → Produced v

/-! ### Reading -/

/-- The value has a hash. -/
def Hashable : Json → Prop
  | .arr _ | .obj _ => False
  | _ => True

instance : DecidablePred Hashable
  | .arr _ | .obj _ => .isFalse id
  | .null | .bool _ | .int _ | .float _ | .str _ => .isTrue trivial

def status? (value : Json) : Option Status :=
  STATUSES.find? fun status => value = .str status.value

/-- `_opt_int`, or nothing where it raises. -/
def optInt : Json → Option (Option Nat)
  | .null => some none
  | .int (.ofNat n) => some (some n)
  | _ => none

/-- The number of classified items, if it is one. -/
def classified? : Json → Option Nat
  | .int (.ofNat n) => some n
  | _ => none

/-- The value is in `{True, False}`. -/
def isFlag : Json → Bool
  | .bool _ => true
  | .int i => i = 0 ∨ i = 1
  | .float literal => Interpreter.isFlag literal
  | _ => false

/-- The four counts of an object, or nothing where one of them is not a count. -/
def counts (raw : Members) : Option Counts := do
  let count ← optInt (get raw (text "count"))
  let successes ← optInt (get raw (text "successes"))
  let measuredN ← optInt (get raw (text "measured"))
  let classified ← classified? (get raw (text "classified"))
  return ⟨count, successes, measuredN, classified⟩

/-- `_from_json` after the counts were read. -/
def check (raw : Members) (metric reason : Str) (status : Status) (c : Counts) : Option MetricVerdict := do
  let expected ← bodyDigest metric status reason c
  if get raw (text "digest") ≠ .str expected then tampered metric
  else if ¬ Hashable (get raw (text "verified")) then none
  else if isFlag (get raw (text "verified")) = false then tampered metric
  else if get raw (text "verified") = .bool true ∧ status ≠ .measured then tampered metric
  else match status with
    | .measured => sealVerdict metric .measured reason c
    | .unmeasured => sealVerdict metric .unmeasured reason ⟨none, none, none, c.classified⟩
    | .rejected => tampered metric

/-- `_from_json` of an object of the schema. -/
def fromObject (raw : Members) : Option MetricVerdict :=
  match get raw (text "metric") with
  | .str metric =>
      if ¬ Hashable (get raw (text "status")) then none
      else match status? (get raw (text "status")), get raw (text "reason") with
        | some status, .str reason =>
            match counts raw with
            | some c => check raw metric reason status c
            | none => tampered metric
        | _, _ => tampered (text "unknown")
  | _ => tampered (text "unknown")

/-- `json.loads(text)` where the limits of the interpreter allow it. -/
def loads (s : Str) : Option Json :=
  Json.loads s <|> Interpreter.extended s

/-- `_from_json`, or nothing where it raises. -/
def fromJson (s : Str) : Option MetricVerdict :=
  if Interpreter.exceeds s then none
  else match loads s with
    | some (.obj raw) =>
        if get raw (text "schema") = .str SCHEMA then fromObject raw else tampered (text "unknown")
    | _ => tampered (text "unknown")

/-! ### What the reader is for, and when it does it -/

/-- The reader returns a verdict, which is rejected or has the text's own fields and values. -/
def Faithful (s : Str) : Prop :=
  ∃ v, fromJson s = some v ∧ (v.status ≠ .rejected → loads s = some (.obj v.payload))

/-- The object has the ten fields and no other one, its flag says whether something was measured, and it has
counts only if something was. -/
def Exact (raw : Members) (status : Status) : Prop :=
  raw.map Prod.fst = [text "classified", text "count", text "digest", text "measured", text "metric",
      text "reason", text "schema", text "status", text "successes", text "verified"] ∧
    get raw (text "verified") = .bool (status = .measured) ∧
    (status = .unmeasured → ∀ k ∈ [text "count", text "successes", text "measured"], get raw k = .null)

structure Headed (raw : Members) (metric : Str) (status : Status) (reason : Str) : Prop where
  metric : get raw (text "metric") = .str metric
  status : get raw (text "status") = .str status.value
  reason : get raw (text "reason") = .str reason

def Passed (raw : Members) (metric reason : Str) (status : Status) (c : Counts) : Prop :=
  ∀ e, bodyDigest metric status reason c = some e → get raw (text "digest") = .str e →
    Hashable (get raw (text "verified")) ∧
      (isFlag (get raw (text "verified")) = true → status ≠ .rejected →
        (status = .unmeasured → get raw (text "verified") ≠ .bool true) → Exact raw status)

/-- What is looked up has a hash, what is digested has an encoding, and an object that passes the checks is exact. -/
structure Clean (raw : Members) : Prop where
  status : ∀ metric, get raw (text "metric") = .str metric → Hashable (get raw (text "status"))
  metric : ∀ metric status reason, Headed raw metric status reason → Encodable metric
  reason : ∀ metric status reason, Headed raw metric status reason → (counts raw).isSome → Encodable reason
  passed : ∀ metric status reason c, Headed raw metric status reason → counts raw = some c →
    Passed raw metric reason status c

def CleanText (s : Str) : Prop :=
  Interpreter.exceeds s = false ∧
    ∀ raw, loads s = some (.obj raw) → get raw (text "schema") = .str SCHEMA → Clean raw

/-! ### Encodings -/

section Encodings

omit [Interpreter]

theorem encodable_quote_iff {s : Str} :
  Encodable (Json.quote s) ↔ Encodable s
  := by
  constructor
  · intro h
    apply encodable_iff.mpr
    intro c hc
    by_contra hsurrogate
    rw [Bool.not_eq_false] at hsurrogate
    have hescape : Json.escape c = [c] := by
      simp only [isSurrogate, Bool.and_eq_true, decide_eq_true_eq] at hsurrogate
      unfold Json.escape
      repeat rw [if_neg (by omega)]
    have hin : c ∈ Json.quote s := by
      apply List.mem_cons_of_mem
      apply List.mem_append_left
      apply List.mem_flatMap.mpr
      exact ⟨c, hc, by rw [hescape]; exact List.mem_singleton_self c⟩
    rw [encodable_iff.mp h c hin] at hsurrogate
    cases hsurrogate
  · apply Json.encodable_quote

theorem encodable_ofCount (count : Option Nat) :
  Encodable (ofCount count).dumps
  := by
  cases count with
  | none => decide
  | some n =>
    rw [ofCount, Json.dumps]
    apply encodable_decimal

theorem encodable_status (status : Status) :
  Encodable status.value
  := by
  cases status <;> decide

theorem encodable_body (v : MetricVerdict) :
  Encodable v.body.dumps ↔ Encodable v.metric ∧ Encodable v.reason
  := by
  have hint : ∀ i : Int, Encodable (Json.int i).dumps := by
    intro i
    rw [Json.dumps]
    apply encodable_decimal
  have hstr : ∀ s, Encodable (Json.str s).dumps ↔ Encodable s := by
    intro s
    rw [Json.dumps]
    apply encodable_quote_iff
  have hstatus : Encodable v.status.value := encodable_status v.status
  have hschema : Encodable SCHEMA := by decide
  have hkeys : ∀ k ∈ [text "classified", text "count", text "measured", text "metric", text "reason",
      text "schema", text "status", text "successes"], Encodable k := by
    decide
  have hmarks : ∀ c ∈ [44, 58, 123, 125], isSurrogate c = false := by
    decide
  have hempty : Encodable [] := rfl
  simp only [List.forall_mem_cons] at hkeys hmarks
  rw [MetricVerdict.body, Json.dumps]
  simp only [Json.dumps.dumpsMembers, encodable_cons, encodable_append, encodable_quote_iff, encodable_ofCount,
    hint, hstr, hstatus, hschema, hkeys, hmarks, hempty, true_and, and_true]

end Encodings

/-! ### Seals -/

variable {raw : Members} {metric reason : Str} {status : Status} {c : Counts} {v : MetricVerdict}

theorem sealVerdict_eq_some :
  sealVerdict metric status reason c = some v ↔
    ∃ e, bodyDigest metric status reason c = some e ∧ v = ⟨c, metric, status, reason, status = .measured, e⟩
  := by
  simp only [sealVerdict, Option.map_eq_some_iff]
  exact exists_congr fun e => and_congr_right fun _ => eq_comm

theorem isSome_bodyDigest :
  (bodyDigest metric status reason c).isSome ↔ Encodable metric ∧ Encodable reason
  := by
  have hbody := encodable_body ⟨c, metric, status, reason, false, []⟩
  rw [← hbody, bodyDigest, digest, Option.isSome_map, Bytes.encode]
  split
  · next h => simp [h]
  · next h => simp [h]

/-- The verdict is right about the object that it was read of. -/
def Right (raw : Members) (verdict : Option MetricVerdict) : Prop :=
  ∃ v, verdict = some v ∧ (v.status ≠ .rejected → raw = v.payload)

theorem tampered_spec (raw : Members) (metric : Str) :
  (Right raw (tampered metric) ↔ Encodable metric) ∧
    ∀ v, tampered metric = some v → v.status = .rejected
  := by
  have hstatus : ∀ v, tampered metric = some v → v.status = .rejected := by
    intro v hv
    obtain ⟨e, -, rfl⟩ := sealVerdict_eq_some.mp hv
    rfl
  refine ⟨?_, hstatus⟩
  have hreason : Encodable (text "tampered") := by decide
  rw [← and_iff_left hreason (a := Encodable metric), ← isSome_bodyDigest, Option.isSome_iff_exists]
  constructor
  · rintro ⟨v, hv, -⟩
    obtain ⟨e, he, -⟩ := sealVerdict_eq_some.mp hv
    exact ⟨e, he⟩
  · rintro ⟨e, he⟩
    have hv := sealVerdict_eq_some.mpr ⟨e, he, rfl⟩
    exact ⟨_, hv, fun hne => absurd rfl hne⟩

/-! ### Objects -/

section Objects

omit [Interpreter]

theorem eq_of_get {d : Members} (hnodup : (d.map Prod.fst).Nodup) :
  ∀ {e : Members}, d.map Prod.fst = e.map Prod.fst → (∀ k ∈ d.map Prod.fst, get d k = get e k) → d = e
  := by
  induction d with
  | nil =>
    intro e hkeys _
    rw [List.map_eq_nil_iff.mp hkeys.symm]
  | cons p d ih =>
    intro e hkeys h
    obtain ⟨q, e, rfl, hkey, hrest⟩ := List.map_eq_cons_iff.mp hkeys.symm
    obtain ⟨hnew, hnodup⟩ := List.nodup_cons.mp hnodup
    have hvalue := h p.1 List.mem_cons_self
    have htail : d = e := by
      refine ih hnodup hrest.symm fun k hk => ?_
      have hget := h k (List.mem_cons_of_mem _ hk)
      have hne : k ≠ p.1 := by
        rintro rfl
        exact hnew hk
      unfold Json.get at hget ⊢
      rwa [List.lookup_cons, List.lookup_cons, hkey, beq_eq_false_iff_ne.mpr hne] at hget
    unfold Json.get at hvalue
    rw [List.lookup_cons, List.lookup_cons, hkey, beq_self_eq_true] at hvalue
    rw [htail, Prod.ext hkey.symm hvalue]

theorem optInt_eq_some {value : Json} {count : Option Nat} :
  optInt value = some count ↔ value = ofCount count
  := by
  constructor
  · intro h
    unfold optInt at h
    split at h <;> cases h <;> rfl
  · rintro rfl
    cases count <;> rfl

theorem classified?_eq_some {value : Json} {n : Nat} :
  classified? value = some n ↔ value = .int n
  := by
  constructor
  · intro h
    unfold classified? at h
    split at h <;> cases h
    rfl
  · rintro rfl
    rfl

theorem counts_eq_some :
  counts raw = some c ↔
    get raw (text "count") = ofCount c.count ∧ get raw (text "successes") = ofCount c.successes ∧
      get raw (text "measured") = ofCount c.measured ∧ get raw (text "classified") = .int c.classified
  := by
  simp only [counts, Option.bind_eq_bind, Option.bind_eq_some_iff, optInt_eq_some, classified?_eq_some,
    Option.pure_def, Option.some.injEq]
  constructor
  · rintro ⟨_, hcount, _, hsuccesses, _, hmeasured, _, hclassified, rfl⟩
    exact ⟨hcount, hsuccesses, hmeasured, hclassified⟩
  · rintro ⟨hcount, hsuccesses, hmeasured, hclassified⟩
    exact ⟨_, hcount, _, hsuccesses, _, hmeasured, _, hclassified, rfl⟩

theorem status?_eq_some {value : Json} :
  status? value = some status ↔ value = .str status.value
  := by
  constructor
  · intro h
    unfold status? at h
    have hfound := List.find?_some h
    exact of_decide_eq_true hfound
  · rintro rfl
    cases status <;> decide

end Objects

section Checked

variable {e : Str} (hschema : get raw (text "schema") = .str SCHEMA) (hheaded : Headed raw metric status reason)
  (hcounts : counts raw = some c) (hdigest : bodyDigest metric status reason c = some e)
  (hequal : get raw (text "digest") = .str e)

include hschema hheaded hcounts hdigest hequal

theorem right_measured (hmeasured : status = .measured) :
  Right raw (sealVerdict metric .measured reason c) ↔ Exact raw status
  := by
  subst hmeasured
  obtain ⟨hcount, hsuccesses, hmeasured, hclassified⟩ := counts_eq_some.mp hcounts
  rw [Right, sealVerdict_eq_some.mpr ⟨e, hdigest, rfl⟩]
  constructor
  · rintro ⟨_, ⟨⟩, hraw⟩
    rw [hraw (by rintro ⟨⟩)]
    exact ⟨rfl, rfl, by rintro ⟨⟩⟩
  · rintro ⟨hkeys, hverified, -⟩
    refine ⟨_, rfl, fun _ => eq_of_get (by rw [hkeys]; decide) hkeys ?_⟩
    rw [hkeys]
    simp only [List.forall_mem_cons]
    exact ⟨hclassified, hcount, hequal, hmeasured, hheaded.metric, hheaded.reason, hschema, hheaded.status,
      hsuccesses, hverified, by simp⟩

theorem right_unmeasured (hunmeasured : status = .unmeasured) :
  Right raw (sealVerdict metric .unmeasured reason ⟨none, none, none, c.classified⟩) ↔ Exact raw status
  := by
  subst hunmeasured
  obtain ⟨count, successes, measuredN, classified⟩ := c
  obtain ⟨hcount, hsuccesses, hmeasured, hclassified⟩ := counts_eq_some.mp hcounts
  constructor
  · rintro ⟨v, hv, hraw⟩
    obtain ⟨e', -, rfl⟩ := sealVerdict_eq_some.mp hv
    rw [hraw (by rintro ⟨⟩)]
    refine ⟨rfl, rfl, fun _ => ?_⟩
    simp only [List.forall_mem_cons]
    exact ⟨rfl, rfl, rfl, by simp⟩
  · rintro ⟨hkeys, hverified, hnull⟩
    have hnull := hnull rfl
    simp only [List.forall_mem_cons] at hnull
    obtain ⟨hnocount, hnosuccesses, hnomeasured, -⟩ := hnull
    -- the digest of the text is the one of the verdict only because the text has no counts
    have hnone : ∀ {c : Option Nat} {value : Json}, value = ofCount c → value = .null → c = none := by
      rintro (_ | n) _ rfl h
      · rfl
      · cases h
    obtain rfl := hnone hcount hnocount
    obtain rfl := hnone hsuccesses hnosuccesses
    obtain rfl := hnone hmeasured hnomeasured
    refine ⟨_, sealVerdict_eq_some.mpr ⟨e, hdigest, rfl⟩, fun _ => eq_of_get (by rw [hkeys]; decide) hkeys ?_⟩
    rw [hkeys]
    simp only [List.forall_mem_cons]
    exact ⟨hclassified, hcount, hequal, hmeasured, hheaded.metric, hheaded.reason, hschema, hheaded.status,
      hsuccesses, hverified, by simp⟩

end Checked

theorem right_check (hschema : get raw (text "schema") = .str SCHEMA) (hheaded : Headed raw metric status reason)
    (hcounts : counts raw = some c) :
  Right raw (check raw metric reason status c) ↔
    (Encodable metric ∧ Encodable reason) ∧ Passed raw metric reason status c
  := by
  have hbody := @isSome_bodyDigest _ metric reason status c
  unfold Passed
  cases hdigest : bodyDigest metric status reason c with
  | none =>
    rw [hdigest] at hbody
    unfold check
    rw [hdigest]
    constructor
    · rintro ⟨_, ⟨⟩, _⟩
    · rintro ⟨hencodable, -⟩
      cases hbody.mpr hencodable
  | some e =>
    obtain ⟨hmetric, hreason⟩ := hbody.mp (by rw [hdigest]; rfl)
    have htampered : Right raw (tampered metric) := (tampered_spec raw metric).1.mpr hmetric
    have hsome : ∀ {P : Str → Prop}, (∀ e', some e = some e' → P e') ↔ P e := by simp
    rw [and_iff_right ⟨hmetric, hreason⟩, hsome]
    unfold check
    rw [hdigest]
    simp only [Option.bind_eq_bind, Option.bind_some]
    split_ifs with hequal hhash hflag hforged
    · exact iff_of_true htampered fun h => absurd h hequal
    · refine iff_of_true htampered fun _ => ⟨hhash, fun h => ?_⟩
      rw [hflag] at h
      cases h
    · refine iff_of_true htampered fun _ => ⟨hhash, fun _ hstatus hunmeasured => ?_⟩
      cases status with
      | measured => exact absurd rfl hforged.2
      | unmeasured => exact absurd hforged.1 (hunmeasured rfl)
      | rejected => exact absurd rfl hstatus
    · have hequal := not_not.mp hequal
      rw [imp_iff_right hequal, and_iff_right hhash, imp_iff_right (by simpa using hflag)]
      cases status with
      | measured =>
        rw [imp_iff_right (by rintro ⟨⟩), imp_iff_right (by rintro ⟨⟩)]
        apply right_measured hschema hheaded hcounts hdigest hequal rfl
      | unmeasured =>
        rw [imp_iff_right (by rintro ⟨⟩), imp_iff_right]
        · apply right_unmeasured hschema hheaded hcounts hdigest hequal rfl
        · intro _ hverified
          exact hforged ⟨hverified, by rintro ⟨⟩⟩
      | rejected => exact iff_of_true htampered fun h => absurd rfl h
    · exact iff_of_false (by rintro ⟨_, ⟨⟩, _⟩) fun h => hhash (h (not_not.mp hequal)).1

omit [Interpreter] in
theorem encodable_unknown :
  Encodable (text "unknown")
  := by decide

theorem clean_of_unheaded
    (hhash : ∀ metric, get raw (text "metric") = .str metric → Hashable (get raw (text "status")))
    (hnone : ∀ metric status reason, ¬Headed raw metric status reason) :
  Clean raw
  := ⟨hhash, fun _ _ _ h => absurd h (hnone _ _ _), fun _ _ _ h => absurd h (hnone _ _ _),
    fun _ _ _ _ h => absurd h (hnone _ _ _)⟩

theorem clean_iff_of_headed (hheaded : Headed raw metric status reason) :
  Clean raw ↔ Encodable metric ∧ ((counts raw).isSome → Encodable reason) ∧
    ∀ c, counts raw = some c → Passed raw metric reason status c
  := by
  have honly : ∀ {m s r}, Headed raw m s r → m = metric ∧ s = status ∧ r = reason := by
    intro m s r h
    have hm := h.metric.symm.trans hheaded.metric
    have hs := (status?_eq_some.mpr h.status).symm.trans (status?_eq_some.mpr hheaded.status)
    have hr := h.reason.symm.trans hheaded.reason
    cases hm
    cases hs
    cases hr
    exact ⟨rfl, rfl, rfl⟩
  constructor
  · intro h
    exact ⟨h.metric _ _ _ hheaded, h.reason _ _ _ hheaded, fun c => h.passed _ _ _ c hheaded⟩
  · rintro ⟨hm, hr, hpassed⟩
    constructor
    · intro _ _
      rw [hheaded.status]
      trivial
    · intro m s r h
      obtain ⟨rfl, rfl, rfl⟩ := honly h
      exact hm
    · intro m s r h
      obtain ⟨rfl, rfl, rfl⟩ := honly h
      exact hr
    · intro m s r c h
      obtain ⟨rfl, rfl, rfl⟩ := honly h
      apply hpassed

theorem right_fromObject (hschema : get raw (text "schema") = .str SCHEMA) :
  Right raw (fromObject raw) ↔ Clean raw
  := by
  have hunknown : Right raw (tampered (text "unknown")) := (tampered_spec raw _).1.mpr encodable_unknown
  unfold fromObject
  split
  · next metric hmetric =>
    split_ifs with hhash
    · split
      · next status reason hstatus hreason =>
        have hheaded : Headed raw metric status reason := ⟨hmetric, status?_eq_some.mp hstatus, hreason⟩
        rw [clean_iff_of_headed hheaded]
        split
        · next c hcounts =>
          rw [right_check hschema hheaded hcounts, hcounts]
          simp [and_assoc]
        · next hcounts =>
          rw [(tampered_spec raw metric).1, hcounts]
          simp
      · next hnot =>
        apply iff_of_true hunknown
        apply clean_of_unheaded fun _ _ => hhash
        intro m s r h
        apply hnot s r (status?_eq_some.mpr h.status) h.reason
    · exact iff_of_false (by rintro ⟨_, ⟨⟩, _⟩) fun h => hhash (h.status metric hmetric)
  · next hnot =>
    apply iff_of_true hunknown
    apply clean_of_unheaded fun m h => absurd h (hnot m)
    intro m s r h
    apply hnot m h.metric

/-! ### Texts -/

omit [Interpreter] in
theorem wf_payload (v : MetricVerdict) :
  (Json.obj v.payload).wf = true
  := by
  obtain ⟨⟨count, successes, measuredN, _⟩, _⟩ := v
  cases count <;> cases successes <;> cases measuredN <;> rfl

/-- The reader gives back what the metrics produced, within the limits of the interpreter. -/
theorem fromJson_toJson (h : Produced v) :
  fromJson v.toJson = some v ↔ Interpreter.exceeds v.toJson = false
  := by
  have hloads : loads v.toJson = some (.obj v.payload) := by
    unfold loads MetricVerdict.toJson
    rw [Json.loads_dumps (wf_payload v)]
    rfl
  have hback : fromObject v.payload = some v := by
    have hcounts : counts v.payload = some v.toCounts :=
      counts_eq_some.mpr ⟨rfl, rfl, rfl, rfl⟩
    have hstatus : status? (get v.payload (text "status")) = some v.status := status?_eq_some.mpr rfl
    have hmetric : get v.payload (text "metric") = .str v.metric := rfl
    have hreason : get v.payload (text "reason") = .str v.reason := rfl
    have hhash : Hashable (get v.payload (text "status")) := trivial
    have hverified : get v.payload (text "verified") = .bool v.verified := rfl
    have hequal : get v.payload (text "digest") = .str v.digest := rfl
    unfold fromObject
    simp only [hmetric, hhash, hstatus, hreason, hcounts, not_true_eq_false, if_false]
    unfold check
    rw [hverified, hequal]
    cases h with
    | measured hseal =>
      obtain ⟨e, hdigest, rfl⟩ := sealVerdict_eq_some.mp hseal
      simpa [hdigest, Hashable, isFlag] using hseal
    | unmeasured hseal =>
      obtain ⟨e, hdigest, rfl⟩ := sealVerdict_eq_some.mp hseal
      simpa [hdigest, Hashable, isFlag] using hseal
  unfold fromJson
  rw [hloads]
  split_ifs with hexceeds
  · simp [hexceeds]
  · exact iff_of_true hback (by simpa using hexceeds)

theorem faithful_iff :
  (∀ v : MetricVerdict, Produced v → (fromJson v.toJson = some v ↔ Interpreter.exceeds v.toJson = false)) ∧
    ∀ s, Faithful s ↔ CleanText s
  := by
  refine ⟨fun v h => fromJson_toJson h, fun s => ?_⟩
  have hunknown : ∃ v, tampered (text "unknown") = some v ∧
      (v.status ≠ .rejected → loads s = some (.obj v.payload)) := by
    obtain ⟨v, hv, -⟩ := (tampered_spec [] _).1.mpr encodable_unknown
    exact ⟨v, hv, fun hne => absurd ((tampered_spec [] _).2 v hv) hne⟩
  unfold Faithful CleanText fromJson
  split_ifs with hexceeds
  · simp [hexceeds]
  · rw [and_iff_right (by simpa using hexceeds)]
    split
    · next raw hloads =>
      have hraw : ∀ {r}, loads s = some (.obj r) → r = raw := fun {r} h => by
        cases hloads.symm.trans h
        rfl
      split_ifs with hschema
      · have hobject := right_fromObject hschema
        constructor
        · rintro ⟨v, hv, hpayload⟩ r hr _
          obtain rfl := hraw hr
          exact hobject.mp ⟨v, hv, fun hne => (hraw (hpayload hne)).symm⟩
        · intro h
          obtain ⟨v, hv, hpayload⟩ := hobject.mpr (h raw hloads hschema)
          exact ⟨v, hv, fun hne => by rw [← hpayload hne, hloads]⟩
      · refine iff_of_true hunknown fun r hr h => absurd h ?_
        obtain rfl := hraw hr
        exact hschema
    · next hnot =>
      exact iff_of_true hunknown fun r hr => absurd hr (hnot r)

omit [Interpreter]

/-- Surroundings to evaluate an example on: the digest is the one of the example's body. -/
@[reducible]
def Interpreter.plain : Interpreter where
  sha256 _ := text "b18bb3c0b5aac8b9846af8d1233089c37bde0e16e1c4c2bef4a077640cd2f071"
  exceeds _ := false
  extended _ := none
  isFlag literal := literal ∈ [text "0.0", text "1.0"]

def noRelays : MetricVerdict :=
  ⟨⟨some 0, none, none, 0⟩, text "human_relays", .measured, text "measured", true,
    text "b18bb3c0b5aac8b9846af8d1233089c37bde0e16e1c4c2bef4a077640cd2f071"⟩

theorem faithful_fails :
  let _ := Interpreter.plain
  let altered : MetricVerdict := { noRelays with verified := false }
  Produced noRelays ∧ loads altered.toJson = some (.obj altered.payload) ∧
    fromJson altered.toJson = some noRelays ∧ ¬ Faithful altered.toJson
  := by
  intro interpreter altered
  have hloads : loads altered.toJson = some (.obj altered.payload) := by
    unfold loads MetricVerdict.toJson
    rw [Json.loads_dumps (wf_payload altered)]
    rfl
  have hread : fromJson altered.toJson = some noRelays := by
    unfold fromJson
    rw [hloads]
    decide +kernel
  have hsealed : sealVerdict (text "human_relays") .measured (text "measured") ⟨some 0, none, none, 0⟩ = some noRelays := by
    decide +kernel
  refine ⟨.measured hsealed, hloads, hread, ?_⟩
  rintro ⟨v, hv, hpayload⟩
  cases hread.symm.trans hv
  have hsame := hpayload (by rintro ⟨⟩)
  rw [hloads] at hsame
  revert hsame
  decide

end Courier.ContinuityMetrics
