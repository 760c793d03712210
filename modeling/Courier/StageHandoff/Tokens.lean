import Courier.Library.Checks
import Courier.Library.Loaded
import Courier.StageHandoff

/-!
# Tokens

What is signed of a token determines all of it but the signature (`eq_of_canonicalBytes`), what is
hashed all of it (`eq_of_toDict`), if the texts of the tokens are those a JSON reader gives.  A token
that is written and read back signs and hashes as before.
-/

namespace Courier.StageHandoff

open Json (PlainText IsText fuse plainText_of_ascii)

/-! ### What is signed and what is hashed -/

/-- A value as a JSON reader gives it. -/
structure Plain (v : Json) : Prop where
  wf : v.wf = true
  texts : v.EveryText PlainText

theorem plain_str {s : Str} :
  Plain (.str s) ↔ PlainText s
  :=
  ⟨fun h => h.texts, fun h => ⟨rfl, h⟩⟩

theorem plain_null :
  Plain .null
  :=
  ⟨rfl, trivial⟩

theorem StageType.value_injective :
  Function.Injective StageType.value
  := by
  intro a b
  cases a <;> cases b <;> decide

theorem StageType.plain_value (stage : StageType) :
  PlainText stage.value
  := by
  cases stage <;> decide

namespace StageWitnessToken

/-- The texts of the token are as a JSON reader gives them. -/
structure IsPlain (t : StageWitnessToken) : Prop where
  stageId : PlainText t.stageId
  workerId : PlainText t.workerId
  outputHash : PlainText t.outputHash
  timestamp : PlainText t.timestamp
  prevTokenHash : Plain t.prevTokenHash
  signature : PlainText t.signature

variable {t : StageWitnessToken}

theorem IsPlain.payload (h : t.IsPlain) :
  Plain (.obj t.payload)
  := by
  constructor
  · simp only [StageWitnessToken.payload, Json.wf, Json.wf.wfMembers, h.prevTokenHash.wf, Bool.and_true]
    rfl
  · refine ⟨?_, h.outputHash, ?_, h.prevTokenHash.texts, ?_, h.stageId, ?_, t.stageType.plain_value,
      ?_, h.timestamp, ?_, h.workerId, trivial⟩ <;> decide

theorem IsPlain.toDict (h : t.IsPlain) :
  Plain (.obj t.toDict)
  := by
  constructor
  · simp only [StageWitnessToken.toDict, Json.wf, Json.wf.wfMembers, h.prevTokenHash.wf, Bool.and_true]
    rfl
  · refine ⟨?_, h.outputHash, ?_, h.prevTokenHash.texts, ?_, h.signature, ?_, h.stageId, ?_,
      t.stageType.plain_value, ?_, h.timestamp, ?_, h.workerId, trivial⟩ <;> decide

theorem eq_of_canonicalBytes {u : StageWitnessToken} (ht : t.IsPlain) (hu : u.IsPlain)
    (h : t.canonicalBytes = u.canonicalBytes) :
  t = { u with signature := t.signature }
  := by
  have hpayload := Json.dumpsAscii_injective ht.payload.wf hu.payload.wf ht.payload.texts
    hu.payload.texts h
  simp only [payload, Json.obj.injEq, List.cons.injEq, Prod.mk.injEq, Json.str.injEq, true_and,
    and_true] at hpayload
  obtain ⟨houtput, hprev, hid, hstage, htime, hworker⟩ := hpayload
  cases t
  cases u
  simp_all [StageType.value_injective.eq_iff]

theorem eq_of_toDict {u : StageWitnessToken} (ht : t.IsPlain) (hu : u.IsPlain)
    (h : (Json.obj t.toDict).dumpsAscii = (Json.obj u.toDict).dumpsAscii) :
  t = u
  := by
  have hdict := Json.dumpsAscii_injective ht.toDict.wf hu.toDict.wf ht.toDict.texts hu.toDict.texts h
  simp only [toDict, Json.obj.injEq, List.cons.injEq, Prod.mk.injEq, Json.str.injEq, true_and,
    and_true] at hdict
  obtain ⟨houtput, hprev, hsignature, hid, hstage, htime, hworker⟩ := hdict
  cases t
  cases u
  simp_all [StageType.value_injective.eq_iff]

end StageWitnessToken

/-! ### Writing and reading back -/

/-- A null or a text as it is read from where it was written. -/
def fuseText : Json → Json
  | .str s => .str (fuse s)
  | v => v

def StageWitnessToken.readBack (t : StageWitnessToken) : StageWitnessToken where
  stageId := fuse t.stageId
  stageType := t.stageType
  workerId := fuse t.workerId
  outputHash := fuse t.outputHash
  timestamp := fuse t.timestamp
  prevTokenHash := fuseText t.prevTokenHash
  signature := fuse t.signature

def StageHandoffPipeline.readBack (p : StageHandoffPipeline) : StageHandoffPipeline where
  pipelineId := fuse p.pipelineId
  secretKey := p.secretKey
  currentStageIndex := p.currentStageIndex
  witnessChain := p.witnessChain.map StageWitnessToken.readBack
  isAborted := p.isAborted
  abortReason := fuseText p.abortReason

def IsLink (v : Json) : Prop :=
  v = .null ∨ ∃ s, IsText s ∧ v = .str s

variable {v : Json}

theorem IsLink.plain_fuseText (h : IsLink v) :
  Plain (fuseText v)
  := by
  rcases h with rfl | ⟨s, hs, rfl⟩
  · exact plain_null
  · exact plain_str.mpr (Json.plainText_fuse hs)

theorem IsLink.fuseText {v : Json} (h : IsLink v) :
  IsLink (fuseText v)
  := by
  rcases h with rfl | ⟨s, hs, rfl⟩
  · exact .inl rfl
  · exact .inr ⟨fuse s, Json.isText_fuse hs, rfl⟩

theorem IsLink.render (h : IsLink v) :
  v.wf = true ∧ (StageHandoff.fuseText v).wf = true ∧
    (StageHandoff.fuseText v).render Json.escapeAscii = v.render Json.escapeAscii
  := by
  rcases h with rfl | ⟨s, -, rfl⟩
  · exact ⟨rfl, rfl, rfl⟩
  · refine ⟨rfl, rfl, ?_⟩
    rw [StageHandoff.fuseText, Json.render, Json.render, Json.escapeAscii_fuse]

namespace StageWitnessToken

structure OfTexts (t : StageWitnessToken) : Prop where
  stageId : IsText t.stageId
  workerId : IsText t.workerId
  outputHash : IsText t.outputHash
  timestamp : IsText t.timestamp
  prevTokenHash : IsLink t.prevTokenHash
  signature : IsText t.signature

variable {t : StageWitnessToken}

theorem OfTexts.readBack (h : t.OfTexts) :
  t.readBack.OfTexts where
  stageId := Json.isText_fuse h.stageId
  workerId := Json.isText_fuse h.workerId
  outputHash := Json.isText_fuse h.outputHash
  timestamp := Json.isText_fuse h.timestamp
  prevTokenHash := h.prevTokenHash.fuseText
  signature := Json.isText_fuse h.signature

theorem OfTexts.isPlain_readBack (h : t.OfTexts) :
  t.readBack.IsPlain where
  stageId := Json.plainText_fuse h.stageId
  workerId := Json.plainText_fuse h.workerId
  outputHash := Json.plainText_fuse h.outputHash
  timestamp := Json.plainText_fuse h.timestamp
  prevTokenHash := h.prevTokenHash.plain_fuseText
  signature := Json.plainText_fuse h.signature

theorem OfTexts.canonicalBytes_readBack (h : t.OfTexts) :
  t.readBack.canonicalBytes = t.canonicalBytes
  := by
  obtain ⟨hwf, hwf', hrender⟩ := h.prevTokenHash.render
  have hpayload : (Json.obj t.payload).wf = true := by
    simp only [payload, Json.wf, Json.wf.wfMembers, hwf, Bool.and_true]
    rfl
  have hpayload' : (Json.obj t.readBack.payload).wf = true := by
    simp only [payload, StageWitnessToken.readBack, Json.wf, Json.wf.wfMembers, hwf', Bool.and_true]
    rfl
  rw [canonicalBytes, canonicalBytes, Json.dumpsAscii, Json.dumpsAscii,
    Json.dumpsAscii_eq_render hpayload, Json.dumpsAscii_eq_render hpayload']
  simp only [payload, StageWitnessToken.readBack, Json.render, Json.render.renderMembers, hrender,
    Json.escapeAscii_fuse]

theorem OfTexts.tokenHash_readBack [Platform] (h : t.OfTexts) :
  t.readBack.tokenHash = t.tokenHash
  := by
  obtain ⟨hwf, hwf', hrender⟩ := h.prevTokenHash.render
  have hdict : (Json.obj t.toDict).wf = true := by
    simp only [toDict, Json.wf, Json.wf.wfMembers, hwf, Bool.and_true]
    rfl
  have hdict' : (Json.obj t.readBack.toDict).wf = true := by
    simp only [toDict, StageWitnessToken.readBack, Json.wf, Json.wf.wfMembers, hwf', Bool.and_true]
    rfl
  rw [tokenHash, tokenHash, Json.dumpsAscii, Json.dumpsAscii,
    Json.dumpsAscii_eq_render hdict, Json.dumpsAscii_eq_render hdict']
  simp only [toDict, StageWitnessToken.readBack, Json.render, Json.render.renderMembers, hrender,
    Json.escapeAscii_fuse]

end StageWitnessToken

/-! ### Tokens that are read -/

section Platform

variable [Platform]

/-- No two texts have one digest, digests are ASCII, and `repr` makes plain texts of plain values. -/
structure Digests [Surroundings] : Prop where
  injective : Function.Injective Platform.sha256
  ascii : ∀ s, ∀ c ∈ Platform.sha256 s, c < 128
  hmac_ascii : ∀ key message, ∀ c ∈ Surroundings.hmac key message, c < 128
  output_ascii : ∀ output, ∀ c ∈ Surroundings.digest output, c < 128
  repr : ∀ v : Json, Plain v → PlainText (Platform.repr v)

theorem plainText_pyStr (hrepr : ∀ v : Json, Plain v → PlainText (Platform.repr v))
    (h : Plain v) :
  PlainText (pyStr v)
  := by
  cases v with
  | null => exact (by decide : PlainText (text "None"))
  | bool b =>
    cases b with
    | true => exact (by decide : PlainText (text "True"))
    | false => exact (by decide : PlainText (text "False"))
  | int i =>
    refine plainText_of_ascii fun c hc => ?_
    rcases Text.mem_decimal hc with rfl | hdigit
    · decide
    · simp only [Text.isDigit, Bool.and_eq_true, decide_eq_true_eq] at hdigit
      omega
  | float literal =>
    exact plainText_of_ascii fun c hc => lt_trans (Json.bounds_of_isFloat h.wf hc).2 (by decide)
  | str s => exact h.texts
  | arr items => exact hrepr _ h
  | obj d => exact hrepr _ h

variable {data : Json}

section

omit [Platform]

theorem Plain.index {key : Str} (h : Plain data)
    (hv : StageHandoff.index data key = .ok v) :
  Plain v
  := by
  cases data with
  | obj d =>
    cases hl : d.lookup key with
    | none =>
      rw [StageHandoff.index, hl] at hv
      cases hv
    | some w =>
      rw [StageHandoff.index, hl] at hv
      cases hv
      have hwf := h.wf
      simp only [Json.wf, Bool.and_eq_true] at hwf
      exact ⟨Json.wf_of_lookup hwf.2 hl, Json.everyText_of_lookup h.texts hl⟩
  | _ => cases hv

theorem Plain.get {d : Members} (h : Plain (.obj d)) (key : Str) :
  Plain (Json.get d key)
  := by
  refine ⟨Json.wf_get h.wf key, ?_⟩
  unfold Json.get
  cases hl : d.lookup key with
  | none => trivial
  | some v => exact Json.everyText_of_lookup h.texts hl

end

theorem StageWitnessToken.isPlain_of_fromDict
    (hrepr : ∀ v : Json, Plain v → PlainText (Platform.repr v)) {t : StageWitnessToken}
    (h : Plain data) (ht : fromDict data = .ok t) :
  t.IsPlain
  := by
  simp only [fromDict, Except.bind_eq_ok] at ht
  obtain ⟨stageId, hid, _, _, stage, _, workerId, hworker, output, houtput, time, htime, signature,
    hsignature, ht⟩ := ht
  cases ht
  have hprev : Plain (Json.get data.asMembers (text "prev_token_hash")) := by
    cases data with
    | obj d => exact h.get _
    | _ => exact plain_null
  exact ⟨plainText_pyStr hrepr (h.index hid), plainText_pyStr hrepr (h.index hworker),
    plainText_pyStr hrepr (h.index houtput), plainText_pyStr hrepr (h.index htime), hprev,
    plainText_pyStr hrepr (h.index hsignature)⟩

theorem StageHandoffPipeline.isPlain_of_fromDict [Surroundings]
    (hrepr : ∀ v : Json, Plain v → PlainText (Platform.repr v)) {key : Str}
    {p : StageHandoffPipeline} (h : Plain data) (hp : fromDict data key = .ok p) :
  p.secretKey = key ∧ ∀ t ∈ p.witnessChain, t.IsPlain
  := by
  cases data with
  | obj d =>
    simp only [fromDict, Except.bind_eq_ok] at hp
    obtain ⟨chain, hchain, pipelineId, hid, i, hi, hp⟩ := hp
    cases hp
    refine ⟨rfl, fun t ht => ?_⟩
    have hvalue : Plain ((d.lookup (text "witness_chain")).getD (.arr [])) := by
      cases hl : d.lookup (text "witness_chain") with
      | none => exact ⟨rfl, trivial⟩
      | some v => exact h.index (by rw [StageHandoff.index, hl]; rfl)
    unfold chainOf at hchain
    split at hchain
    · next items heq =>
      rw [heq] at hvalue
      obtain ⟨v, hv, hread⟩ := Except.mem_of_mapM_eq_ok hchain ht
      exact StageWitnessToken.isPlain_of_fromDict hrepr
        ⟨Json.wf_arr.mp hvalue.wf v hv, Json.everyText_of_mem hvalue.texts hv⟩ hread
    · cases hchain
      cases ht
    · cases hchain
      cases ht
    · cases hchain
  | _ => cases hp

end Platform

end Courier.StageHandoff
