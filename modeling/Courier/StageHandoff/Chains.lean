import Courier.StageHandoff.Tokens
import Mathlib.Logic.Equiv.List

/-!
# Witness chains

The pipelines that `create` and `advance` make, also through files, have genuine chains (`Honest.sound`).  One that is
rebuilt from any data is to be refused or to have a chain that was made for its name (`Proves`), which is so exactly
if it is aborted or its chain is fit (`proves_iff`).
-/

namespace Courier.StageHandoff

open Json (PlainText IsText fuse plainText_of_ascii)

section Platform

variable [Platform] [Surroundings]

/-! ### Genuine chains -/

def StageWitnessToken.Sealed (key : Str) (t : StageWitnessToken) : Prop :=
  t.signature = Surroundings.hmac key t.canonicalBytes

structure Placed (chain : List StageWitnessToken) : Prop where
  stages : chain.map StageWitnessToken.stageType <+: orderedStages
  linked : Linked StageWitnessToken.prevTokenHash (fun t => .str t.tokenHash) .null chain

structure Genuine (key : Str) (chain : List StageWitnessToken) : Prop extends Placed chain where
  signed : ∀ t ∈ chain, t.Sealed key

variable {chain : List StageWitnessToken} {t : StageWitnessToken}

omit [Surroundings] in
theorem placed_concat :
  Placed (chain ++ [t]) ↔ Placed chain ∧ orderedStages[chain.length]? = some t.stageType ∧
    t.prevTokenHash = StageHandoffPipeline.linkAfter chain
  := by
  have hstages : (chain ++ [t]).map StageWitnessToken.stageType <+: orderedStages ↔
      chain.map StageWitnessToken.stageType <+: orderedStages ∧
        orderedStages[chain.length]? = some t.stageType := by
    rw [List.map_append, List.map_singleton]
    constructor
    · intro h
      refine ⟨(List.prefix_append _ _).trans h, ?_⟩
      obtain ⟨rest, hrest⟩ := h
      rw [← hrest]
      simp
    · rintro ⟨⟨rest, hrest⟩, hstage⟩
      rw [← hrest] at hstage ⊢
      rw [List.getElem?_append_right (by simp), List.length_map, Nat.sub_self] at hstage
      cases rest with
      | nil => cases hstage
      | cons s rest =>
        cases hstage
        exact ⟨rest, by simp⟩
  constructor
  · intro h
    obtain ⟨hstage, hrest⟩ := hstages.mp h.stages
    obtain ⟨hlinked, hback⟩ := Linked.concat.mp h.linked
    exact ⟨⟨hstage, hlinked⟩, hrest, hback⟩
  · rintro ⟨h, hstage, hback⟩
    exact ⟨hstages.mpr ⟨h.stages, hstage⟩, Linked.concat.mpr ⟨h.linked, hback⟩⟩

variable {key : Str}

theorem genuine_concat :
  Genuine key (chain ++ [t]) ↔ Genuine key chain ∧ Placed (chain ++ [t]) ∧ t.Sealed key
  := by
  constructor
  · intro h
    exact ⟨⟨(placed_concat.mp h.toPlaced).1, fun u hu => h.signed u (by simp [hu])⟩, h.toPlaced,
      h.signed t (by simp)⟩
  · rintro ⟨h, hplaced, hsealed⟩
    refine ⟨hplaced, fun u hu => ?_⟩
    rcases List.mem_append.mp hu with hu | hu
    · exact h.signed u hu
    · rw [List.mem_singleton.mp hu]
      exact hsealed

theorem Genuine.take (h : Genuine key chain) (n : Nat) :
  Genuine key (chain.take n)
  := by
  refine ⟨⟨?_, ?_⟩, fun t ht => h.signed t (List.mem_of_mem_take ht)⟩
  · exact ((List.take_prefix n chain).map _).trans h.stages
  · have hlinked := h.linked
    rw [← List.take_append_drop n chain] at hlinked
    exact hlinked.of_append

omit [Surroundings] in
theorem Placed.length_le (h : Placed chain) :
  chain.length ≤ orderedStages.length
  := by
  simpa using h.stages.length_le

/-! ### Verification -/

structure Checkable (key : Str) (t : StageWitnessToken) : Prop where
  key : Text.Encodable key
  signature : ∀ c ∈ t.signature, c < 128

def Answered (x : Except PipelineError Unit) : Prop :=
  x = .ok () ∨ ∃ e, x = .error e ∧ e.IsHandoff

open StageHandoffPipeline (verifyFrom linkAfter)

variable {ts : List StageWitnessToken}

/-- The loop goes on if the token is genuine and can be checked; otherwise it raises, a handoff error unless the stages
are over or the token cannot be checked. -/
theorem verifyFrom_cons (hhmac : ∀ key message, ∀ c ∈ Surroundings.hmac key message, c < 128)
    (h : Genuine key chain) :
  (Genuine key (chain ++ [t]) ∧ Checkable key t ∧
    verifyFrom key chain.length (linkAfter chain) (t :: ts) =
      verifyFrom key (chain ++ [t]).length (linkAfter (chain ++ [t])) ts) ∨
  (¬ (Genuine key (chain ++ [t]) ∧ Checkable key t) ∧ ∃ e,
    verifyFrom key chain.length (linkAfter chain) (t :: ts) = .error e ∧
    (e.IsHandoff ↔ chain.length < orderedStages.length ∧
      (Placed (chain ++ [t]) → Checkable key t)))
  := by
  rw [genuine_concat, verifyFrom]
  cases hstage : orderedStages[chain.length]? with
  | none =>
    have hlength := List.getElem?_eq_none_iff.mp hstage
    refine .inr ⟨fun hgood => ?_, .indexError, rfl, ?_⟩
    · have hplaced := (placed_concat.mp hgood.1.2.1).2.1
      rw [hstage] at hplaced
      cases hplaced
    · simp only [PipelineError.IsHandoff, false_iff, not_and]
      omega
  | some expected =>
    have hlength := (List.getElem?_eq_some_iff.mp hstage).1
    by_cases hexpected : t.stageType = expected
    swap
    · refine .inr ⟨fun hgood => ?_, .outOfOrder chain.length expected t.stageType, ?_, ?_⟩
      · have hplaced := (placed_concat.mp hgood.1.2.1).2.1
        rw [hstage] at hplaced
        exact hexpected (Option.some.inj hplaced).symm
      · simp [hexpected]
      · simp only [PipelineError.IsHandoff, true_iff]
        refine ⟨hlength, fun hplaced => absurd (placed_concat.mp hplaced).2.1 ?_⟩
        rw [hstage]
        exact fun heq => hexpected (Option.some.inj heq).symm
    by_cases hlink : t.prevTokenHash = linkAfter chain
    swap
    · refine .inr ⟨fun hgood => hlink (placed_concat.mp hgood.1.2.1).2.2,
        .brokenLink chain.length (linkAfter chain) t.prevTokenHash, ?_, ?_⟩
      · simp [hexpected, hlink]
      · simp only [PipelineError.IsHandoff, true_iff]
        exact ⟨hlength, fun hplaced => absurd (placed_concat.mp hplaced).2.2 hlink⟩
    have hplaced : Placed (chain ++ [t]) :=
      placed_concat.mpr ⟨h.toPlaced, by rw [hstage, hexpected], hlink⟩
    by_cases hkey : Text.Encodable key
    swap
    · refine .inr ⟨fun hgood => hkey hgood.2.key, .unicodeEncode, ?_, ?_⟩
      · simp [hexpected, hlink, hkey]
      · simp only [PipelineError.IsHandoff, false_iff, not_and]
        exact fun _ hcheck => hkey (hcheck hplaced).key
    by_cases hascii : ∀ c ∈ t.signature, c < 128
    swap
    · refine .inr ⟨fun hgood => hascii hgood.2.signature, .typeError, ?_, ?_⟩
      · simp [hexpected, hlink, hkey, compareDigest, hascii]
      · simp only [PipelineError.IsHandoff, false_iff, not_and]
        exact fun _ hcheck => hascii (hcheck hplaced).signature
    have hcompare : compareDigest t.signature (Surroundings.hmac key t.canonicalBytes) =
        .ok (t.signature = Surroundings.hmac key t.canonicalBytes) :=
      if_pos ⟨hascii, hhmac key t.canonicalBytes⟩
    by_cases hsealed : t.Sealed key
    · refine .inl ⟨⟨h, hplaced, hsealed⟩, ⟨hkey, hascii⟩, ?_⟩
      have htrue : decide (t.signature = Surroundings.hmac key t.canonicalBytes) = true :=
        decide_eq_true hsealed
      simp only [hexpected, hlink, hkey, hcompare, htrue, ne_eq, not_true_eq_false, if_false,
        List.length_append, List.length_singleton]
      rw [linkAfter, Linked.lastLink_concat]
    · refine .inr ⟨fun hgood => hsealed hgood.1.2.2, .tampered t.stageType, ?_, ?_⟩
      · have hfalse : decide (t.signature = Surroundings.hmac key t.canonicalBytes) = false :=
          decide_eq_false hsealed
        simp only [hexpected, hlink, hkey, hcompare, hfalse, ne_eq, not_true_eq_false, if_false]
      · simp only [PipelineError.IsHandoff, true_iff]
        exact ⟨hlength, fun _ => ⟨hkey, hascii⟩⟩

theorem genuine_of_verifyFrom
    (hhmac : ∀ key message, ∀ c ∈ Surroundings.hmac key message, c < 128) (h : Genuine key chain)
    (hok : verifyFrom key chain.length (linkAfter chain) ts = .ok ()) :
  Genuine key (chain ++ ts)
  := by
  induction ts generalizing chain with
  | nil => rwa [List.append_nil]
  | cons t ts ih =>
    rcases verifyFrom_cons hhmac h with
      ⟨hgenuine, -, hnext⟩ | ⟨-, e, herror, -⟩
    · rw [hnext] at hok
      simpa using ih hgenuine hok
    · rw [herror] at hok
      cases hok

theorem answered_verifyFrom
    (hhmac : ∀ key message, ∀ c ∈ Surroundings.hmac key message, c < 128) (h : Genuine key chain) :
  Answered (verifyFrom key chain.length (linkAfter chain) ts) ↔
    (∀ l t rest, ts = l ++ t :: rest → Genuine key (chain ++ l) → Placed (chain ++ l ++ [t]) →
      Checkable key t) ∧
    (Genuine key ((chain ++ ts).take orderedStages.length) →
      (chain ++ ts).length ≤ orderedStages.length)
  := by
  induction ts generalizing chain with
  | nil =>
    simp only [verifyFrom, Answered, true_or, true_iff, List.append_nil]
    exact ⟨fun l t rest hl => by simp at hl, fun _ => h.toPlaced.length_le⟩
  | cons t ts ih =>
    rcases verifyFrom_cons hhmac h with
      ⟨hgenuine, hcheck, hnext⟩ | ⟨hbad, e, herror, hhandoff⟩
    · rw [hnext, ih hgenuine, List.append_assoc, List.singleton_append]
      refine and_congr_left fun _ => ⟨?_, ?_⟩
      · intro hrest l u rest heq hl hplaced
        cases l with
        | nil =>
          cases heq
          exact hcheck
        | cons v l =>
          cases heq
          exact hrest l u rest rfl (by simpa using hl) (by simpa using hplaced)
      · intro hall l u rest heq hl hplaced
        exact hall (t :: l) u rest (by rw [heq]; rfl) (by simpa using hl) (by simpa using hplaced)
    · have hanswered : Answered (verifyFrom key chain.length (linkAfter chain) (t :: ts)) ↔
          e.IsHandoff := by
        rw [herror]
        simp [Answered]
      have hnone : (Placed (chain ++ [t]) → Checkable key t) → ∀ l, ¬ Genuine key (chain ++ t :: l) := by
        intro hcheck l hgenuine
        rw [List.append_cons] at hgenuine
        have htake := hgenuine.take (chain ++ [t]).length
        rw [List.take_left] at htake
        exact hbad ⟨htake, hcheck htake.toPlaced⟩
      rw [hanswered, hhandoff]
      constructor
      · rintro ⟨hlength, hcheck⟩
        refine ⟨?_, ?_⟩
        · intro l u rest heq hl hplaced
          cases l with
          | nil =>
            cases heq
            exact hcheck (by simpa using hplaced)
          | cons v l =>
            cases heq
            exact absurd hl (hnone hcheck l)
        · intro hgenuine
          have hfit : chain.length < orderedStages.length := hlength
          obtain ⟨n, hn⟩ : ∃ n, orderedStages.length = chain.length + (n + 1) :=
            ⟨orderedStages.length - chain.length - 1, by omega⟩
          rw [hn, List.take_append, Nat.add_sub_cancel_left, List.take_of_length_le (by omega),
            List.take_succ_cons] at hgenuine
          exact absurd hgenuine (hnone hcheck _)
      · rintro ⟨hcheck, hshort⟩
        have hcheckT : Placed (chain ++ [t]) → Checkable key t := by
          intro hplaced
          exact hcheck [] t ts rfl (by simpa using h) (by simpa using hplaced)
        refine ⟨?_, hcheckT⟩
        by_contra hlength
        have heq : chain.length = orderedStages.length :=
          Nat.le_antisymm h.toPlaced.length_le (Nat.le_of_not_lt hlength)
        rw [← heq, List.take_left] at hshort
        have hlong := hshort h
        simp only [List.length_append, List.length_cons] at hlong
        omega

/-! ### Pipelines that are made -/

/-- The pipelines that are created with a key and advanced, also after they were written and read
back. -/
inductive Honest (key : Str) : StageHandoffPipeline → Prop
  | create {pipelineId : Str} (hid : IsText pipelineId) :
      Honest key (.create pipelineId key)
  | advance {p p' : StageHandoffPipeline} {t : StageWitnessToken} {workerId now : Str}
      {output : List Nat} (h : Honest key p) (hworker : IsText workerId) (hnow : IsText now)
      (hadvance : p.advance workerId output now = .ok (t, p')) : Honest key p'
  | fail {p : StageHandoffPipeline} (h : Honest key p) (reason : Str) :
      Honest key (p.fail (.str reason))
  | stored {p : StageHandoffPipeline} (h : Honest key p) : Honest key p.readBack

structure Sound (key : Str) (p : StageHandoffPipeline) : Prop where
  secretKey : p.secretKey = key
  pipelineId : IsText p.pipelineId
  currentStage : p.currentStageIndex = p.witnessChain.length
  genuine : Genuine key p.witnessChain
  own : ∀ t ∈ p.witnessChain, t.stageId = stageIdOf p.pipelineId t.stageType
  texts : ∀ t ∈ p.witnessChain, t.OfTexts

section

omit [Platform] [Surroundings]

theorem isText_of_ascii {s : Str} (h : ∀ c ∈ s, c < 128) :
  IsText s
  :=
  (plainText_of_ascii h).1

theorem fuse_of_ascii {s : Str} (h : ∀ c ∈ s, c < 128) :
  fuse s = s
  :=
  Json.fuse_eq_self (plainText_of_ascii h).2

theorem fuse_stageIdOf (pipelineId : Str) (stage : StageType) :
  fuse (stageIdOf pipelineId stage) = stageIdOf (fuse pipelineId) stage
  := by
  have hencodable : Text.Encodable (text "-" ++ stage.lower) := by
    cases stage <;> decide
  rw [stageIdOf, stageIdOf, List.append_assoc, List.append_assoc, Json.fuse_append hencodable]

theorem isText_stageIdOf {pipelineId : Str} (h : IsText pipelineId) (stage : StageType) :
  IsText (stageIdOf pipelineId stage)
  := by
  have hstage : IsText stage.lower := by cases stage <;> decide
  intro c hc
  rw [stageIdOf, List.append_assoc] at hc
  rcases List.mem_append.mp hc with hc | hc
  · exact h c hc
  · rcases List.mem_append.mp hc with hc | hc
    · exact (by decide : IsText (text "-")) c hc
    · exact hstage c hc

end

theorem Digests.isLink_linkAfter (h : Digests) (chain : List StageWitnessToken) :
  IsLink (linkAfter chain)
  := by
  unfold linkAfter lastLink
  cases chain.getLast? with
  | none => exact .inl rfl
  | some t => exact .inr ⟨t.tokenHash, isText_of_ascii (h.ascii _), rfl⟩

/-- What `advance` appends keeps a pipeline sound. -/
theorem Sound.advance (hd : Digests) {p p' : StageHandoffPipeline}
    {workerId now : Str} {output : List Nat} (h : Sound key p) (hworker : IsText workerId)
    (hnow : IsText now) (hadvance : p.advance workerId output now = .ok (t, p')) :
  Sound key p'
  := by
  unfold StageHandoffPipeline.advance at hadvance
  split at hadvance
  · cases hadvance
  split at hadvance
  · cases hadvance
  have hstageAt : stageAt p.currentStageIndex = orderedStages[p.witnessChain.length]? := by
    rw [h.currentStage, stageAt, if_pos (Int.natCast_nonneg _), Int.toNat_natCast]
  rw [hstageAt] at hadvance
  cases hstage : orderedStages[p.witnessChain.length]? with
  | none =>
    rw [hstage] at hadvance
    cases hadvance
  | some stage =>
    rw [hstage] at hadvance
    simp only at hadvance
    split at hadvance
    swap
    · cases hadvance
    cases hadvance
    have hsealed : (p.nextToken stage workerId output now).Sealed key := by
      rw [← h.secretKey]
      rfl
    refine ⟨h.secretKey, h.pipelineId, ?_, ?_, ?_, ?_⟩
    · simp [h.currentStage]
    · exact genuine_concat.mpr ⟨h.genuine, placed_concat.mpr ⟨h.genuine.toPlaced, hstage, rfl⟩, hsealed⟩
    · intro u hu
      rcases List.mem_append.mp hu with hu | hu
      · exact h.own u hu
      · rw [List.mem_singleton.mp hu]
        rfl
    · intro u hu
      rcases List.mem_append.mp hu with hu | hu
      · exact h.texts u hu
      · rw [List.mem_singleton.mp hu]
        exact ⟨isText_stageIdOf h.pipelineId stage, hworker, isText_of_ascii (hd.output_ascii _), hnow,
          hd.isLink_linkAfter _, isText_of_ascii (hd.hmac_ascii _ _)⟩

theorem Genuine.readBack (hd : Digests)
    (h : Genuine key chain) (htexts : ∀ t ∈ chain, t.OfTexts) :
  Genuine key (chain.map StageWitnessToken.readBack)
  := by
  have hback : ∀ t ∈ chain, fuseText t.prevTokenHash = t.prevTokenHash := by
    intro t ht
    rcases h.linked.back_eq ht with hstart | ⟨u, -, hu⟩
    · rw [hstart]
      rfl
    · rw [hu, fuseText, fuse_of_ascii (s := u.tokenHash) (hd.ascii _)]
  refine ⟨⟨?_, ?_⟩, ?_⟩
  · rw [List.map_map]
    exact h.stages
  · exact h.linked.map (fun t ht => by rw [(htexts t ht).tokenHash_readBack]) hback
  · intro u hu
    obtain ⟨t, ht, rfl⟩ := List.mem_map.mp hu
    have hsealed : t.signature = Surroundings.hmac key t.canonicalBytes := h.signed t ht
    have hfuse : t.readBack.signature = t.signature := by
      change fuse t.signature = t.signature
      rw [hsealed]
      exact fuse_of_ascii (hd.hmac_ascii _ _)
    rw [StageWitnessToken.Sealed, hfuse, (htexts t ht).canonicalBytes_readBack]
    exact hsealed

theorem Honest.sound (hd : Digests) {p : StageHandoffPipeline} (h : Honest key p) :
  Sound key p
  := by
  induction h with
  | create hid =>
    refine ⟨rfl, hid, rfl, ⟨⟨?_, trivial⟩, ?_⟩, ?_, ?_⟩
    · exact List.nil_prefix
    · exact fun t ht => nomatch ht
    · exact fun t ht => nomatch ht
    · exact fun t ht => nomatch ht
  | advance h hworker hnow hadvance ih => exact ih.advance hd hworker hnow hadvance
  | fail h reason ih => exact ⟨ih.secretKey, ih.pipelineId, ih.currentStage, ih.genuine, ih.own, ih.texts⟩
  | stored h ih =>
    refine ⟨ih.secretKey, Json.isText_fuse ih.pipelineId, ?_, ih.genuine.readBack hd ih.texts, ?_, ?_⟩
    · rw [StageHandoffPipeline.readBack, ih.currentStage, List.length_map]
    · intro u hu
      obtain ⟨t, ht, rfl⟩ := List.mem_map.mp hu
      change fuse t.stageId = stageIdOf (fuse _) t.stageType
      rw [ih.own t ht, fuse_stageIdOf]
    · intro u hu
      obtain ⟨t, ht, rfl⟩ := List.mem_map.mp hu
      exact (ih.texts t ht).readBack

/-! ### What a verified chain proves -/

def Unforged (key : Str) (made : StageHandoffPipeline → Prop) (chain : List StageWitnessToken) : Prop :=
  ∀ t ∈ chain, t.Sealed key → ∃ q, made q ∧ ∃ u ∈ q.witnessChain, u.canonicalBytes = t.canonicalBytes

def Proves (made : StageHandoffPipeline → Prop) (p : StageHandoffPipeline) : Prop :=
  Answered p.verifyChain ∧
    (p.verifyChain = .ok () → ∃ q, made q ∧ fuse q.pipelineId = p.pipelineId ∧
      p.witnessChain <+: q.witnessChain.map StageWitnessToken.readBack)

structure Fit (p : StageHandoffPipeline) : Prop where
  readable : ∀ l t rest, p.witnessChain = l ++ t :: rest → Genuine p.secretKey l → Placed (l ++ [t]) →
    Checkable p.secretKey t
  short : Genuine p.secretKey (p.witnessChain.take orderedStages.length) →
    p.witnessChain.length ≤ orderedStages.length
  own : Genuine p.secretKey p.witnessChain →
    ∀ t ∈ p.witnessChain, t.stageId = stageIdOf p.pipelineId t.stageType

theorem Sound.eq_readBack (hd : Digests) {q : StageHandoffPipeline} (h : Sound key q)
    {u : StageWitnessToken} (ht : t.IsPlain) (hsealed : t.Sealed key) (hu : u ∈ q.witnessChain)
    (hbytes : u.canonicalBytes = t.canonicalBytes) :
  t = u.readBack
  := by
  have htexts := h.texts u hu
  have hsigned : u.signature = Surroundings.hmac key u.canonicalBytes := h.genuine.signed u hu
  have hsignature : u.readBack.signature = t.signature := by
    change fuse u.signature = t.signature
    rw [hsealed, ← hbytes, hsigned]
    exact fuse_of_ascii (hd.hmac_ascii _ _)
  have heq := StageWitnessToken.eq_of_canonicalBytes ht htexts.isPlain_readBack
    (by rw [htexts.canonicalBytes_readBack, hbytes])
  rw [heq, ← hsignature]

theorem Genuine.made (hd : Digests) {key : Str} {made : StageHandoffPipeline → Prop}
    (hmade : ∀ q, made q → Honest key q) {chain : List StageWitnessToken} (h : Genuine key chain)
    (hplain : ∀ t ∈ chain, t.IsPlain) (hunforged : Unforged key made chain) (hne : chain ≠ []) :
  ∃ q, made q ∧ chain <+: q.witnessChain.map StageWitnessToken.readBack
  := by
  obtain rfl | ⟨l, t, rfl⟩ := List.eq_nil_or_concat chain
  · exact absurd rfl hne
  rw [List.concat_eq_append] at *
  have hlast : t ∈ l ++ [t] := by simp
  obtain ⟨q, hq, u, hu, hbytes⟩ := hunforged t hlast (h.signed t hlast)
  have hsound := (hmade q hq).sound hd
  have htu := hsound.eq_readBack hd (hplain t hlast) (h.signed t hlast) hu hbytes
  obtain ⟨a, b, hsplit⟩ := List.append_of_mem hu
  rw [← List.singleton_append, ← List.append_assoc] at hsplit
  have hgenuine : Genuine key (a ++ [u]) := by
    have htake := hsound.genuine.take (a ++ [u]).length
    rwa [hsplit, List.take_left] at htake
  have htexts : ∀ v ∈ a ++ [u], v.OfTexts := by
    intro v hv
    apply hsound.texts
    rw [hsplit]
    exact List.mem_append_left _ hv
  have hlength : l.length = a.length := by
    have hstage := (placed_concat.mp h.toPlaced).2.1
    have hstage' := (placed_concat.mp hgenuine.toPlaced).2.1
    have hsame : t.stageType = u.stageType := by
      rw [htu]
      rfl
    rw [hsame] at hstage
    have hbound := (List.getElem?_eq_some_iff.mp hstage).1
    exact (List.getElem?_inj hbound (by decide : orderedStages.Nodup)).mp (hstage.trans hstage'.symm)
  refine ⟨q, hq, ?_⟩
  have heq : l ++ [t] = (a ++ [u]).map StageWitnessToken.readBack := by
    refine Linked.unique (fun v hv w' hw' hhash => ?_) h.linked (hgenuine.readBack hd htexts).linked
      (by simp [hlength]) (by simp [htu])
    obtain ⟨w, hw, rfl⟩ := List.mem_map.mp hw'
    exact StageWitnessToken.eq_of_toDict (hplain v hv) (htexts w hw).isPlain_readBack
      (hd.injective (Json.str.inj hhash))
  rw [heq, hsplit]
  exact (List.prefix_append (a ++ [u]) b).map _

theorem Sound.stageId_of_initial {q : StageHandoffPipeline} (h : Sound key q)
    (hchain : chain <+: q.witnessChain.map StageWitnessToken.readBack) (ht : t ∈ chain) :
  t.stageId = stageIdOf (fuse q.pipelineId) t.stageType
  := by
  obtain ⟨u, hu, rfl⟩ := List.mem_map.mp (hchain.subset ht)
  change fuse u.stageId = stageIdOf (fuse q.pipelineId) u.stageType
  rw [h.own u hu, fuse_stageIdOf]

theorem verified_of_genuine
    (hhmac : ∀ key message, ∀ c ∈ Surroundings.hmac key message, c < 128) (h : Genuine key chain)
    (hall : Genuine key (chain ++ ts))
    (hanswered : Answered (verifyFrom key chain.length (linkAfter chain) ts)) :
  verifyFrom key chain.length (linkAfter chain) ts = .ok ()
  := by
  induction ts generalizing chain with
  | nil => rfl
  | cons t ts ih =>
    rw [List.append_cons] at hall
    rcases verifyFrom_cons hhmac h with
      ⟨hgenuine, -, hnext⟩ | ⟨hbad, e, herror, hhandoff⟩
    · rw [hnext] at hanswered ⊢
      exact ih hgenuine hall hanswered
    · rw [herror] at hanswered
      rcases hanswered with hok | ⟨e', he, hanswered⟩
      · cases hok
      · cases he
        have hgenuine := hall.take (chain ++ [t]).length
        rw [List.take_left] at hgenuine
        exact absurd ⟨hgenuine, (hhandoff.mp hanswered).2 hgenuine.toPlaced⟩ hbad

theorem proves_iff (hd : Digests) {made : StageHandoffPipeline → Prop} {data : Json} {key : Str}
    {p : StageHandoffPipeline} (hmade : ∀ q, made q → Honest key q) (hdata : Plain data)
    (hp : StageHandoffPipeline.fromDict data key = .ok p) (hunforged : Unforged key made p.witnessChain) :
  Proves made p ↔ p.isAborted = true ∨ Fit p
  := by
  obtain ⟨rfl, hplain⟩ := StageHandoffPipeline.isPlain_of_fromDict hd.repr hdata hp
  by_cases haborted : p.isAborted = true
  · have herror : p.verifyChain = .error (.aborted p.abortReason) := if_pos haborted
    refine iff_of_true ⟨.inr ⟨_, herror, trivial⟩, fun hok => ?_⟩ (.inl haborted)
    rw [herror] at hok
    cases hok
  by_cases hempty : p.witnessChain = []
  · have herror : p.verifyChain = .error .emptyChain := by
      rw [StageHandoffPipeline.verifyChain, if_neg haborted, if_pos hempty]
    refine iff_of_true ⟨.inr ⟨_, herror, trivial⟩, fun hok => ?_⟩ (.inr ⟨?_, ?_, ?_⟩)
    · rw [herror] at hok
      cases hok
    · intro l t rest heq
      rw [hempty] at heq
      simp at heq
    · simp [hempty]
    · simp [hempty]
  have hverify : p.verifyChain =
      verifyFrom p.secretKey ([] : List StageWitnessToken).length (linkAfter []) p.witnessChain := by
    rw [StageHandoffPipeline.verifyChain, if_neg haborted, if_neg hempty]
    rfl
  have hnil : Genuine p.secretKey [] := ⟨⟨List.nil_prefix, trivial⟩, fun t ht => nomatch ht⟩
  have hanswered : Answered (verifyFrom p.secretKey ([] : List StageWitnessToken).length
      (linkAfter []) p.witnessChain) ↔ _ := answered_verifyFrom hd.hmac_ascii hnil
  rw [← hverify] at hanswered
  simp only [List.nil_append] at hanswered
  constructor
  · rintro ⟨hanswer, hproves⟩
    obtain ⟨hreadable, hshort⟩ := hanswered.mp hanswer
    refine .inr ⟨hreadable, hshort, fun hgenuine t ht => ?_⟩
    have hok : p.verifyChain = .ok () := by
      rw [hverify] at hanswer ⊢
      exact verified_of_genuine hd.hmac_ascii hnil hgenuine hanswer
    obtain ⟨q, hq, hname, hchain⟩ := hproves hok
    rw [← hname]
    exact ((hmade q hq).sound hd).stageId_of_initial hchain ht
  · rintro (h | hfit)
    · exact absurd h haborted
    refine ⟨hanswered.mpr ⟨hfit.readable, hfit.short⟩, fun hok => ?_⟩
    have hgenuine : Genuine p.secretKey p.witnessChain := by
      rw [hverify] at hok
      exact genuine_of_verifyFrom hd.hmac_ascii hnil hok
    obtain ⟨q, hq, hchain⟩ := hgenuine.made hd hmade hplain hunforged hempty
    refine ⟨q, hq, ?_, hchain⟩
    obtain ⟨t, ht⟩ := List.exists_mem_of_ne_nil _ hempty
    have hstageId := ((hmade q hq).sound hd).stageId_of_initial hchain ht
    rw [hfit.own hgenuine t ht, stageIdOf, stageIdOf] at hstageId
    exact (List.append_cancel_right (List.append_cancel_right hstageId)).symm

end Platform

/-! ### A chain under another name, and chains that cannot be checked -/

section Example

def sampleToken (stage : StageType) (prevTokenHash : Json) (signature : Str) : StageWitnessToken where
  stageId := stageIdOf (text "pipe-1") stage
  stageType := stage
  workerId := text "w"
  outputHash := text "2689367b"
  timestamp := text "2026-07-01"
  prevTokenHash := prevTokenHash
  signature := signature

/-- The tokens of a pipeline that went through two of its stages. -/
def sampleChain : List StageWitnessToken :=
  [sampleToken .dispatch .null (text "461ad674"),
    sampleToken .workerA (.str (text "17e9f187")) (text "92f35196")]

def sampleHashes : List Str :=
  [text "17e9f187", text "690a2200"]

def tabledDigest (table : List (Str × Str)) (s : Str) : Str :=
  (table.lookup s).getD (List.replicate (Encodable.encode s) 48)

theorem tabledDigest_injective {table : List (Str × Str)} (hdistinct : (table.map Prod.snd).Nodup)
    (hzeros : ∀ p ∈ table, ∃ c ∈ p.2, c ≠ 48) :
  Function.Injective (tabledDigest table)
  := by
  have hmem : ∀ {s d : Str}, table.lookup s = some d → (s, d) ∈ table := by
    intro s d h
    exact List.lookup_eq_some_iff.mp h |>.elim fun l₁ ⟨l₂, heq, _⟩ => by simp [heq]
  have hnot : ∀ {s d : Str} {n : Nat}, table.lookup s = some d → d ≠ List.replicate n 48 := by
    rintro s d n h rfl
    obtain ⟨c, hc, hne⟩ := hzeros _ (hmem h)
    exact hne (List.eq_of_mem_replicate hc)
  intro s t hst
  unfold tabledDigest at hst
  cases hs : table.lookup s with
  | none =>
    cases ht : table.lookup t with
    | none =>
      rw [hs, ht, Option.getD_none, Option.getD_none] at hst
      have hlength := congrArg List.length hst
      rw [List.length_replicate, List.length_replicate] at hlength
      exact Encodable.encode_injective hlength
    | some d =>
      rw [hs, ht] at hst
      exact absurd hst.symm (hnot ht)
  | some d =>
    cases ht : table.lookup t with
    | none =>
      rw [hs, ht] at hst
      exact absurd hst (hnot hs)
    | some d' =>
      rw [hs, ht] at hst
      exact congrArg Prod.fst (List.inj_on_of_nodup_map hdistinct (hmem hs) (hmem ht) hst)

def sampleTable : List (Str × Str) :=
  List.zipWith (fun t digest => ((Json.obj t.toDict).dumpsAscii, digest)) sampleChain sampleHashes

local instance platformHandoff : Platform :=
  { Platform.plain with sha256 := tabledDigest sampleTable, repr := fun _ => text "..." }

local instance surroundingsHandoff : Surroundings where
  hmac key message :=
    if key = text "s3cret" then
      ((sampleChain.map fun t => (t.canonicalBytes, t.signature)).lookup message).getD []
    else []
  digest _ := text "2689367b"
  toInt v := .ok v.asInt

theorem digests_sample :
  Digests
  := by
  have hlookup : ∀ {table : List (Str × Str)} {s d : Str}, table.lookup s = some d → (s, d) ∈ table := by
    intro table s d h
    exact List.lookup_eq_some_iff.mp h |>.elim fun l₁ ⟨l₂, heq, _⟩ => by simp [heq]
  refine ⟨?_, ?_, ?_, ?_, ?_⟩
  · exact tabledDigest_injective (by decide +kernel) (by decide +kernel)
  · intro s c hc
    change c ∈ (sampleTable.lookup s).getD _ at hc
    cases hs : sampleTable.lookup s with
    | none =>
      rw [hs] at hc
      rw [List.eq_of_mem_replicate hc]
      decide
    | some d =>
      rw [hs] at hc
      exact (by decide +kernel : ∀ p ∈ sampleTable, ∀ c ∈ p.2, c < 128) _ (hlookup hs) c hc
  · intro key message c hc
    simp only [Surroundings.hmac] at hc
    split at hc
    · cases hs : (sampleChain.map fun t => (t.canonicalBytes, t.signature)).lookup message with
      | none =>
        rw [hs] at hc
        cases hc
      | some d =>
        rw [hs] at hc
        exact (by decide +kernel : ∀ p ∈ sampleChain.map fun t => (t.canonicalBytes, t.signature),
          ∀ c ∈ p.2, c < 128) _ (hlookup hs) c hc
    · cases hc
  · exact fun _ => (by decide : ∀ c ∈ text "2689367b", c < 128)
  · exact fun _ _ => (by decide : PlainText (text "..."))

def sampleAt (n : Nat) : StageHandoffPipeline where
  pipelineId := text "pipe-1"
  secretKey := text "s3cret"
  currentStageIndex := n
  witnessChain := sampleChain.take n

theorem honest_sampleAt :
  ∀ n ≤ 2, Honest (text "s3cret") (sampleAt n)
  | 0, _ => .create (by decide)
  | n + 1, h => by
    have hadvance : ∀ n < 2, ∃ t ∈ sampleChain,
        (sampleAt n).advance (text "w") (text "ok") (text "2026-07-01") =
          .ok (t, sampleAt (n + 1)) := by decide +kernel
    obtain ⟨t, -, ht⟩ := hadvance n h
    exact .advance (honest_sampleAt n (Nat.le_of_succ_le h)) (by decide) (by decide) ht

theorem plain_toDict {p : StageHandoffPipeline} (hid : PlainText p.pipelineId)
    (hreason : p.abortReason = .null)
    (htokens : ∀ t ∈ p.witnessChain,
      (PlainText t.stageId ∧ PlainText t.workerId ∧ PlainText t.outputHash ∧ PlainText t.timestamp ∧
        PlainText t.signature) ∧
      (t.prevTokenHash = .null ∨
        t.prevTokenHash = .str t.prevTokenHash.asStr ∧ PlainText t.prevTokenHash.asStr)) :
  Plain (.obj p.toDict)
  := by
  have hplain : ∀ t ∈ p.witnessChain, Plain (.obj t.toDict) := by
    intro t ht
    obtain ⟨⟨hid, hworker, houtput, htime, hsignature⟩, hprev⟩ := htokens t ht
    have hlink : Plain t.prevTokenHash := by
      rcases hprev with hprev | ⟨hprev, htext⟩
      · rw [hprev]
        exact plain_null
      · rw [hprev]
        exact plain_str.mpr htext
    exact StageWitnessToken.IsPlain.toDict ⟨hid, hworker, houtput, htime, hlink, hsignature⟩
  have hitems : Plain (.arr (p.witnessChain.map fun t => .obj t.toDict)) := by
    refine ⟨Json.wf_arr.mpr fun v hv => ?_, ?_⟩
    · obtain ⟨t, ht, rfl⟩ := List.mem_map.mp hv
      exact (hplain t ht).wf
    · change Json.EveryText.everyItem PlainText _
      generalize p.witnessChain = chain at hplain
      induction chain with
      | nil => trivial
      | cons t ts ih =>
        exact ⟨(hplain t (by simp)).texts, ih fun u hu => hplain u (by simp [hu])⟩
  constructor
  · have hwf := hitems.wf
    simp only [Json.wf] at hwf
    simp only [StageHandoffPipeline.toDict, hreason, Json.wf, Json.wf.wfMembers, hwf, Bool.and_true]
    rfl
  · rw [StageHandoffPipeline.toDict, hreason]
    refine ⟨?_, trivial, ?_, trivial, ?_, trivial, ?_, hid, ?_, hitems.texts, trivial⟩ <;> decide

theorem unforged_sample {chain : List StageWitnessToken}
    (h : ∀ t ∈ chain, ∃ u ∈ sampleChain, u.canonicalBytes = t.canonicalBytes) :
  Unforged (text "s3cret") (fun q => q = sampleAt 2) chain
  := by
  intro t ht _
  obtain ⟨u, hu, hbytes⟩ := h t ht
  exact ⟨sampleAt 2, rfl, u, hu, hbytes⟩

/-- The chain of the pipeline after two stages proves what it is to prove exactly if it is fit. -/
theorem proves_sample :
  (sampleAt 2).verifyChain = .ok () ∧
    (Proves (fun q => q = sampleAt 2) (sampleAt 2) ↔ (sampleAt 2).isAborted = true ∨ Fit (sampleAt 2))
  := by
  have hmade : ∀ q, q = sampleAt 2 → Honest (text "s3cret") q := by
    rintro q rfl
    exact honest_sampleAt 2 (by decide)
  have hplain : Plain (.obj (sampleAt 2).toDict) :=
    plain_toDict (by decide) rfl (by decide +kernel)
  have hread : StageHandoffPipeline.fromDict (.obj (sampleAt 2).toDict) (text "s3cret") =
      .ok (sampleAt 2) := by decide +kernel
  exact ⟨by decide +kernel,
    proves_iff digests_sample hmade hplain hread (unforged_sample (by decide +kernel))⟩

def stolen : StageHandoffPipeline :=
  { sampleAt 2 with pipelineId := text "pipe-2" }

def unreadable : StageHandoffPipeline :=
  { sampleAt 1 with witnessChain := (sampleChain.take 1).map fun t => { t with signature := text "é" } }

/-- The chain of the only pipeline is verified under another name, and not refused with a signature that is not ASCII.
-/
theorem not_proves :
  Digests ∧ (∀ q, q = sampleAt 2 → Honest (text "s3cret") q) ∧
    (∀ p ∈ [stolen, unreadable],
      Plain (.obj p.toDict) ∧
      StageHandoffPipeline.fromDict (.obj p.toDict) (text "s3cret") = .ok p ∧
      Unforged (text "s3cret") (fun q => q = sampleAt 2) p.witnessChain ∧
      ¬ Proves (fun q => q = sampleAt 2) p) ∧
    stolen.verifyChain = .ok () ∧ unreadable.verifyChain = .error .typeError
  := by
  have hstolen : stolen.verifyChain = .ok () := by decide +kernel
  have hunreadable : unreadable.verifyChain = .error .typeError := by decide +kernel
  refine ⟨digests_sample, ?_, ?_, hstolen, hunreadable⟩
  · rintro q rfl
    exact honest_sampleAt 2 (by decide)
  · simp only [List.forall_mem_cons, List.not_mem_nil, false_implies, implies_true, and_true]
    refine ⟨⟨?_, by decide +kernel, unforged_sample (by decide +kernel), ?_⟩,
      ⟨?_, by decide +kernel, unforged_sample (by decide +kernel), ?_⟩⟩
    · exact plain_toDict (by decide) rfl (by decide +kernel)
    · rintro ⟨-, hproves⟩
      obtain ⟨q, rfl, hname, -⟩ := hproves hstolen
      exact absurd hname (by decide +kernel)
    · exact plain_toDict (by decide) rfl (by decide +kernel)
    · rintro ⟨hok | ⟨e, he, hhandoff⟩, -⟩
      · rw [hunreadable] at hok
        cases hok
      · rw [hunreadable] at he
        cases he
        exact hhandoff

end Example

end Courier.StageHandoff
