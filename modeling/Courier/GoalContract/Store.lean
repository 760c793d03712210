import Courier.GoalContract.Terms
import Courier.Library.Indented
import Courier.Library.Split

/-!
# The store of contracts

Confirmed contracts are appended to a file of JSON lines with digests.  They are read back as long as no text has a
surrogate pair, which is escaped like the character it encodes; and fingerprints tell terms apart only if they differ
once pairs are fused (`roundTrips_iff`).
-/

namespace Courier.Goals

open Except Text Json

def MAX_FILE_BYTES : Nat := 1024 * 1024

section Store

variable [Platform]

def digest (record : Json) : Str :=
  Platform.sha256 (dumpsAscii record)

def envelope (c : GoalContract) : Json :=
  .obj [(text "contract", c.toRecord), (text "sha256", .str (digest c.toRecord))]

def parseEnvelope (line : Str) : Except GoalContractError GoalContract :=
  match loads line with
  | none => .error (text "record is not json")
  | some parsed => do
      let data ← objectOf parsed (text "stored record") [text "contract", text "sha256"]
      let _ ← objectOf (get data (text "contract")) (text "goal contract") RECORD_FIELDS
      if get data (text "sha256") = .str (digest (get data (text "contract"))) then
        GoalContract.fromRecord (get data (text "contract"))
      else .error (text "record was tampered")

namespace GoalContractStore

/-- `append`: the file with the contract.  A file that does not exist is like an empty one. -/
def append (file : Bytes) (contract : GoalContract) : Except GoalContractError Bytes :=
  if !contract.humanConfirmed then .error (text "only a confirmed contract can be stored")
  else
    let line := Bytes.ofAscii (dumpsAscii (envelope contract) ++ [10])
    if MAX_FILE_BYTES < line.length then .error (text "record exceeds 1 MiB")
    else if MAX_FILE_BYTES < file.length ∨ MAX_FILE_BYTES < file.length + line.length then
      .error (text "record file exceeds 1 MiB")
    else .ok (file ++ line)

def read (file : Bytes) : Except GoalContractError (List GoalContract) :=
  if MAX_FILE_BYTES < file.length then .error (text "record file exceeds 1 MiB")
  else if file = [] then .ok []
  else if file.getLast? ≠ some 10 then .error (text "record file is truncated")
  else match file.decode with
    | none => .error (text "record file is not utf-8")
    | some s =>
        let lines := (split [10] s).dropLast
        if lines = [] ∨ [] ∈ lines then .error (text "record file has an empty line")
        else lines.mapM parseEnvelope

/-- The file and the contracts that were appended to it, after one more call of `append`. -/
def appendTo (store : Bytes × List GoalContract) (contract : GoalContract) : Bytes × List GoalContract :=
  match append store.1 contract with
  | .ok file => (file, store.2 ++ [contract])
  | .error _ => store

def after (calls : List GoalContract) : Bytes × List GoalContract :=
  calls.foldl appendTo ([], [])

end GoalContractStore

/-! ### The lines of the file -/

def GoalContract.Typed (c : GoalContract) : Prop :=
  c.toRecord.Fit

structure GoalContract.Pairless (c : GoalContract) : Prop where
  terms : c.Plain
  confirmations : ∀ f ∈ c.confirmations, PlainText f.actorRef ∧ PlainText f.at_

omit [Platform] in
theorem wf_toRecord (c : GoalContract) :
  c.toRecord.wf = true
  := by
  have hcriteria : (Json.arr (c.acceptanceCriteria.map AcceptanceCriterion.toRecord)).wf = true := by
    rw [wf_arr]
    intro a ha
    obtain ⟨k, -, rfl⟩ := List.mem_map.mp ha
    rfl
  have hconfirmations : (Json.arr (c.confirmations.map Confirmation.toRecord)).wf = true := by
    rw [wf_arr]
    intro a ha
    obtain ⟨f, -, rfl⟩ := List.mem_map.mp ha
    rfl
  have hgates : c.gates.toRecord.wf = true := rfl
  have hsorted : (sortedKeys c.toRecord.asMembers) = true := rfl
  rw [GoalContract.toRecord, Json.wf, Bool.and_eq_true]
  refine ⟨hsorted, ?_⟩
  simp only [wf.wfMembers, wf_ofTexts, hcriteria, hconfirmations, hgates, Bool.and_self]
  rfl

variable {c : GoalContract}

omit [Platform] in
theorem GoalContract.Pairless.toRecord (h : c.Pairless) :
  c.toRecord.EveryText PlainText
  := by
  have hconfirmations : (Json.arr (c.confirmations.map Confirmation.toRecord)).EveryText PlainText := by
    apply everyItem_iff.mpr
    intro v hv
    obtain ⟨f, hf, rfl⟩ := List.mem_map.mp hv
    obtain ⟨hactor, hat⟩ := h.confirmations f hf
    have hkind : PlainText f.actorKind := by
      rw [f.human]
      decide
    exact ⟨by decide, hkind, by decide, hactor, by decide, hat, trivial⟩
  obtain ⟨hkey, hcriteria, hallowed, hscope, hrest⟩ := h.terms.termsRecord
  exact ⟨hkey, hcriteria, hallowed, hscope, by decide, hconfirmations, hrest⟩

theorem plainText_digest (hdigest : ∀ s, Bytes.Printable s → PlainText (Platform.sha256 s))
    (htyped : c.Typed) :
  PlainText (digest c.toRecord)
  := by
  apply hdigest
  rw [dumpsAscii, dumpsAscii_eq_render (wf_toRecord c)]
  exact printable_render htyped

theorem wf_envelope (c : GoalContract) :
  (envelope c).wf = true
  := by
  have hsorted : sortedKeys (envelope c).asMembers = true := rfl
  rw [envelope, Json.wf, Bool.and_eq_true]
  refine ⟨hsorted, ?_⟩
  simp only [wf.wfMembers, wf_toRecord, Bool.true_and, Bool.and_true]
  rfl

theorem dumpsAscii_envelope (c : GoalContract) :
  dumpsAscii (envelope c) = (envelope c).render escapeAscii
  := dumpsAscii_eq_render (wf_envelope c)

section Lines

variable (hdigest : ∀ s, Bytes.Printable s → PlainText (Platform.sha256 s))

include hdigest

theorem fit_envelope (htyped : c.Typed) :
  (envelope c).Fit
  := ⟨by decide, htyped, by decide, (plainText_digest hdigest htyped).1, trivial⟩

theorem printable_envelope (htyped : c.Typed) :
  Bytes.Printable (dumpsAscii (envelope c))
  := by
  rw [dumpsAscii_envelope]
  exact printable_render (fit_envelope hdigest htyped)

theorem loads_envelope (htyped : c.Typed) (h : c.Pairless) :
  loads (dumpsAscii (envelope c)) = some (envelope c)
  := by
  have hplain : (envelope c).EveryText PlainText :=
    ⟨by decide, h.toRecord, by decide, plainText_digest hdigest htyped, trivial⟩
  obtain ⟨hfit, hsame⟩ := fit_of_good (wf_envelope c) hplain
  rw [dumpsAscii_envelope, loads_render_reread hfit, hsame]

theorem parseEnvelope_envelope (hc : c.Made) (htyped : c.Typed) (h : c.Pairless) :
  parseEnvelope (dumpsAscii (envelope c)) = .ok c
  := by
  have hstored : objectOf (envelope c) (text "stored record") [text "contract", text "sha256"] =
      .ok (envelope c).asMembers := rfl
  have hcontract : get (envelope c).asMembers (text "contract") = c.toRecord := rfl
  have hsha : get (envelope c).asMembers (text "sha256") = .str (digest c.toRecord) := rfl
  have hobject : objectOf c.toRecord (text "goal contract") RECORD_FIELDS = .ok c.toRecord.asMembers := rfl
  rw [parseEnvelope, loads_envelope hdigest htyped h]
  dsimp only
  rw [hstored, ok_bind, hcontract, hobject, ok_bind, hsha, if_pos rfl]
  exact fromRecord_toRecord hc

end Lines

/-! ### What is read has no surrogate pairs -/

section Pairless

omit [Platform]

theorem objectOf_eq_ok {value : Json} {label : Str} {fields : List Str} {data : Members}
    (h : objectOf value label fields = .ok data) :
  value = .obj data
  := by
  unfold objectOf at h
  cases value with
  | obj members =>
    dsimp only at h
    split_ifs at h
    cases h
    rfl
  | _ => cases h

theorem everyText_get {p : Str → Prop} {d : Members} (h : EveryText.everyMember p d) (k : Str) :
  (get d k).EveryText p
  := by
  unfold Json.get
  cases hlookup : d.lookup k with
  | none => trivial
  | some v => exact everyText_of_lookup h hlookup

variable {record : Json}

theorem plain_of_criterion {k : AcceptanceCriterion}
    (h : AcceptanceCriterion.fromRecord record = .ok k) (hplain : record.EveryText PlainText) :
  k.Plain
  := by
  obtain ⟨data, hdata, hmake⟩ := bind_eq_ok.mp h
  obtain rfl := objectOf_eq_ok hdata
  obtain ⟨id, hid, hmake⟩ := bind_eq_ok.mp hmake
  obtain ⟨check, hcheck, hmake⟩ := bind_eq_ok.mp hmake
  obtain ⟨evidenceClass, hclass, hmake⟩ := bind_eq_ok.mp hmake
  cases hmake
  exact ⟨plain_of_textOf hid (everyText_get hplain _), plain_of_textOf hcheck (everyText_get hplain _),
    plain_of_textOf hclass (everyText_get hplain _)⟩

theorem plain_of_confirmation {f : Confirmation} (h : Confirmation.fromRecord record = .ok f)
    (hplain : record.EveryText PlainText) :
  PlainText f.actorRef ∧ PlainText f.at_
  := by
  obtain ⟨data, hdata, hmake⟩ := bind_eq_ok.mp h
  obtain rfl := objectOf_eq_ok hdata
  unfold Confirmation.make at hmake
  split_ifs at hmake
  obtain ⟨actorRef, hactor, hmake⟩ := bind_eq_ok.mp hmake
  obtain ⟨at_, hat, hmake⟩ := bind_eq_ok.mp hmake
  cases hmake
  exact ⟨plain_of_textOf hactor (everyText_get hplain _), plain_of_textOf hat (everyText_get hplain _)⟩

theorem everyText_asList {value : Json} {label : Str} {items : List Json} (h : asList value label = .ok items)
    (hplain : value.EveryText PlainText) :
  ∀ item ∈ items, item.EveryText PlainText
  := by
  unfold asList at h
  cases value with
  | arr items =>
    cases h
    exact everyItem_iff.mp hplain
  | _ => cases h

theorem pairless_of_fromRecord (h : GoalContract.fromRecord record = .ok c)
    (hplain : record.EveryText PlainText) :
  c.Pairless
  := by
  obtain ⟨data, hdata, hread⟩ := bind_eq_ok.mp h
  obtain rfl := objectOf_eq_ok hdata
  obtain ⟨items, hitems, hread⟩ := bind_eq_ok.mp hread
  obtain ⟨criteria, hcriteria, hread⟩ := bind_eq_ok.mp hread
  obtain ⟨gates, -, hread⟩ := bind_eq_ok.mp hread
  obtain ⟨recorded, hrecorded, hread⟩ := bind_eq_ok.mp hread
  obtain ⟨confirmations, hconfirmations, hbuild⟩ := bind_eq_ok.mp hread
  have hget := everyText_get (d := data) hplain
  obtain ⟨-, -, -, -, -, -, -, hsame⟩ := build_eq_ok hbuild
  refine ⟨plain_of_build hbuild ⟨hget _, hget _, hget _, hget _, hget _, hget _, ?_⟩, ?_⟩
  · intro k hk
    obtain ⟨item, hitem, hitem'⟩ := mem_of_mapM_eq_ok hcriteria hk
    exact plain_of_criterion hitem' (everyText_asList hitems (hget _) item hitem)
  · rw [hsame]
    intro f hf
    obtain ⟨item, hitem, hitem'⟩ := mem_of_mapM_eq_ok hconfirmations hf
    exact plain_of_confirmation hitem' (everyText_asList hrecorded (hget _) item hitem)

end Pairless

theorem pairless_of_parseEnvelope {line : Str} (hline : Decoded line)
    (h : parseEnvelope line = .ok c) :
  c.Pairless
  := by
  unfold parseEnvelope at h
  split at h
  · cases h
  · next parsed hloads =>
    have hgood := good_of_loads hline hloads
    obtain ⟨data, hdata, hstored⟩ := bind_eq_ok.mp h
    obtain rfl := objectOf_eq_ok hdata
    obtain ⟨members, -, hstored⟩ := bind_eq_ok.mp hstored
    split_ifs at hstored
    exact pairless_of_fromRecord hstored (everyText_get hgood.2 _)

/-! ### The file after calls -/

namespace GoalContractStore

def linesOf (stored : List GoalContract) : List Str :=
  stored.map fun c => dumpsAscii (envelope c)

structure Keeps (calls : List GoalContract) (store : Bytes × List GoalContract) : Prop where
  file : store.1 = Bytes.ofAscii ((linesOf store.2).flatMap (· ++ [10]))
  size : store.1.length ≤ MAX_FILE_BYTES
  called : store.2 ⊆ calls

theorem append_eq_ok {file file' : Bytes} (h : append file c = .ok file') :
  file' = file ++ Bytes.ofAscii (dumpsAscii (envelope c) ++ [10]) ∧ file'.length ≤ MAX_FILE_BYTES
  := by
  simp only [append] at h
  split_ifs at h with hconfirmed hline hfile
  cases h
  rw [not_or] at hfile
  exact ⟨rfl, by simpa using hfile.2⟩

theorem keeps_after (calls : List GoalContract) :
  Keeps calls (after calls)
  := by
  induction calls using List.reverseRecOn with
  | nil => exact ⟨rfl, Nat.zero_le _, List.Subset.refl _⟩
  | append_singleton calls c ih =>
    have hlast : after (calls ++ [c]) = appendTo (after calls) c := List.foldl_concat ..
    rw [hlast, appendTo]
    split
    · next file happend =>
      obtain ⟨rfl, hsize⟩ := append_eq_ok happend
      refine ⟨?_, hsize, ?_⟩
      · simp [ih.file, linesOf, Bytes.ofAscii]
      · intro d hd
        rcases List.mem_append.mp hd with hd | hd
        · exact List.mem_append_left _ (ih.called hd)
        · exact List.mem_append_right _ hd
    · exact ⟨ih.file, ih.size, fun d hd => List.mem_append_left _ (ih.called hd)⟩

theorem envelope_ne_nil (c : GoalContract) :
  dumpsAscii (envelope c) ≠ []
  := by
  rw [dumpsAscii_envelope, envelope, render]
  exact List.cons_ne_nil _ _

/-- The file is read line by line. -/
theorem read_eq (hdigest : ∀ s, Bytes.Printable s → PlainText (Platform.sha256 s)) {calls : List GoalContract}
    {store : Bytes × List GoalContract} (h : Keeps calls store) (htyped : ∀ c ∈ store.2, c.Typed) :
  read store.1 = (linesOf store.2).mapM parseEnvelope
  := by
  obtain ⟨file, stored⟩ := store
  have hfile : file = Bytes.ofAscii ((linesOf stored).flatMap (· ++ [10])) := h.file
  have hprintable : ∀ l ∈ linesOf stored, Bytes.Printable l := by
    intro l hl
    obtain ⟨c, hc, rfl⟩ := List.mem_map.mp hl
    exact printable_envelope hdigest (htyped c hc)
  have hdecode : file.decode = some ((linesOf stored).flatMap (· ++ [10])) := by
    rw [hfile]
    apply Bytes.decode_ofAscii
    intro c hc
    obtain ⟨l, hl, hc⟩ := List.mem_flatMap.mp hc
    rcases List.mem_append.mp hc with hc | hc
    · exact (hprintable l hl c hc).2.trans (by decide)
    · rw [List.mem_singleton.mp hc]
      decide
  have hsplit : (split [10] ((linesOf stored).flatMap (· ++ [10]))).dropLast = linesOf stored := by
    rw [split_lines fun l hl hc => absurd (hprintable l hl 10 hc).1 (by decide), List.dropLast_concat]
  have hempty : [] ∉ linesOf stored := by
    intro hmem
    obtain ⟨c, -, hc⟩ := List.mem_map.mp hmem
    exact envelope_ne_nil c hc
  rw [read, if_neg (not_lt.mpr h.size)]
  dsimp only
  by_cases hstored : stored = []
  · subst hstored
    have hnil : file = [] := hfile
    rw [if_pos hnil]
    rfl
  · have hsome : linesOf stored ≠ [] := fun hnil => hstored (List.map_eq_nil_iff.mp hnil)
    have hlast : file.getLast? = some 10 := by
      obtain ⟨first, last, rfl⟩ := (List.eq_nil_or_concat stored).resolve_left hstored
      rw [hfile]
      simp [linesOf, Bytes.ofAscii]
    have hne : file ≠ [] := by
      intro hnil
      rw [hnil] at hlast
      cases hlast
    rw [if_neg hne, if_neg (not_not.mpr hlast), hdecode]
    dsimp only
    rw [hsplit, if_neg (not_or.mpr ⟨hsome, hempty⟩)]

end GoalContractStore

/-! ### Terms and their encoding -/

section

omit [Platform]

theorem GoalContract.Typed.termsRecord (h : c.Typed) :
  c.termsRecord.Fit
  := by
  obtain ⟨hkey, hcriteria, hallowed, hscope, -, -, hrest⟩ := h
  exact ⟨hkey, hcriteria, hallowed, hscope, hrest⟩

theorem plainKeys_ofTexts (items : List Str) :
  (ofTexts items).PlainKeys
  := by
  apply plainItems_iff.mpr
  intro v hv
  obtain ⟨s, -, rfl⟩ := List.mem_map.mp hv
  trivial

theorem plainKeys_termsRecord (c : GoalContract) :
  c.termsRecord.PlainKeys
  := by
  have hcriteria : (Json.arr (c.acceptanceCriteria.map AcceptanceCriterion.toRecord)).PlainKeys := by
    apply plainItems_iff.mpr
    intro v hv
    obtain ⟨k, -, rfl⟩ := List.mem_map.mp hv
    exact ⟨by decide, trivial, by decide, trivial, by decide, trivial, trivial⟩
  have hgates : c.gates.toRecord.PlainKeys :=
    ⟨by decide, trivial, by decide, trivial, by decide, trivial, trivial⟩
  exact ⟨by decide, hcriteria, by decide, plainKeys_ofTexts _, by decide, plainKeys_ofTexts _, by decide,
    trivial, by decide, plainKeys_ofTexts _, by decide, hgates, by decide, trivial, by decide,
    plainKeys_ofTexts _, trivial⟩

end

theorem fingerprint_eq_iff (hsha : Function.Injective Platform.sha256) {d : GoalContract}
    (hc : c.Typed)
    (hd : d.Typed) :
  c.fingerprint = d.fingerprint ↔ c.termsRecord.reread = d.termsRecord.reread
  := by
  rw [GoalContract.fingerprint, GoalContract.fingerprint, hsha.eq_iff]
  exact dumpsAscii_eq_iff (wf_termsRecord c) (wf_termsRecord d) hc.termsRecord hd.termsRecord
    (plainKeys_termsRecord c) (plainKeys_termsRecord d)

/-! ### The round trip -/

open GoalContractStore in
/-- The contract and the file are read back, and a fingerprint depends on the terms, all of them and nothing else. -/
structure RoundTrips (c d : GoalContract) (calls : List GoalContract) : Prop where
  record : GoalContract.fromRecord c.toRecord = .ok c
  stored : read (after calls).1 = .ok (after calls).2
  alike : ∀ x y : Draft, x.build = .ok c → x.Alike y →
    ∃ c', y.build = .ok c' ∧ c'.fingerprint = c.fingerprint
  distinct : c.termsRecord ≠ d.termsRecord → c.fingerprint ≠ d.fingerprint

open GoalContractStore in
theorem read_after_iff (hdigest : ∀ s, Bytes.Printable s → PlainText (Platform.sha256 s))
    {calls : List GoalContract} (hcalls : ∀ e ∈ calls, e.Made ∧ e.Typed) :
  read (after calls).1 = .ok (after calls).2 ↔ ∀ e ∈ (after calls).2, e.Pairless
  := by
  have hkeeps := keeps_after calls
  have htyped : ∀ e ∈ (after calls).2, e.Typed := fun e he => (hcalls e (hkeeps.called he)).2
  rw [read_eq hdigest hkeeps htyped, linesOf, Except.mapM_eq_ok, List.forall₂_map_left_iff, List.forall₂_same]
  constructor
  · intro hall e he
    apply pairless_of_parseEnvelope _ (hall e he)
    intro c hc
    have hascii : c < 127 := (printable_envelope hdigest (htyped e he) c hc).2
    simp only [isSurrogate, Bool.and_eq_false_iff, decide_eq_false_iff_not]
    omega
  · intro hall e he
    exact parseEnvelope_envelope hdigest (hcalls e (hkeeps.called he)).1 (htyped e he) (hall e he)

open GoalContractStore in
/-- Records, file and fingerprints are right exactly if no contract has a surrogate pair, and fused terms differ as the
terms do. -/
theorem roundTrips_iff (hsha : Function.Injective Platform.sha256)
    (hdigest : ∀ s, Bytes.Printable s → PlainText (Platform.sha256 s)) {c d : GoalContract} (hc : c.Made)
    (hctyped : c.Typed) (hdtyped : d.Typed) {calls : List GoalContract}
    (hcalls : ∀ e ∈ calls, e.Made ∧ e.Typed) :
  RoundTrips c d calls ↔
    (∀ e ∈ (after calls).2, e.Pairless) ∧
      (c.termsRecord.reread = d.termsRecord.reread → c.termsRecord = d.termsRecord)
  := by
  have hsame := fingerprint_eq_iff hsha hctyped hdtyped
  constructor
  · intro h
    refine ⟨(read_after_iff hdigest hcalls).mp h.stored, ?_⟩
    intro hreread
    by_contra hne
    exact h.distinct hne (hsame.mpr hreread)
  · rintro ⟨hpairless, hfused⟩
    refine ⟨fromRecord_toRecord hc, (read_after_iff hdigest hcalls).mpr hpairless, ?_, ?_⟩
    · intro x y hbuild halike
      obtain ⟨c', hbuild', hterms⟩ := build_of_alike hbuild halike
      refine ⟨c', hbuild', ?_⟩
      rw [GoalContract.fingerprint, GoalContract.fingerprint, hterms]
    · intro hne heq
      exact hne (hfused (hsame.mp heq))

end Store

/-! ### Two goals in a file -/

section Example

/-- The platform with the digests of some texts; the digests of other texts are marked copies of them. -/
@[reducible]
def digestsOf (digests : List (Str × Str)) : Platform where
  sha256 s := (digests.lookup s).getD (35 :: s)
  repr := Platform.plain.repr
  decodeBytes := Platform.plain.decodeBytes
  tooDeep := Platform.plain.tooDeep

variable {digests : List (Str × Str)}

theorem mem_of_lookup {s digest : Str} (h : digests.lookup s = some digest) :
  (s, digest) ∈ digests
  := by
  obtain ⟨before, rest, rfl, -⟩ := List.lookup_eq_some_iff.mp h
  simp

theorem digestsOf_injective (hnodup : (digests.map Prod.snd).Nodup)
    (hmark : ∀ p ∈ digests, p.2.head? ≠ some 35) :
  Function.Injective (digestsOf digests).sha256
  := by
  intro s t hst
  change (digests.lookup s).getD (35 :: s) = (digests.lookup t).getD (35 :: t) at hst
  cases hs : digests.lookup s with
  | none =>
    cases ht : digests.lookup t with
    | none =>
      rw [hs, ht] at hst
      exact (List.cons.inj hst).2
    | some digest =>
      rw [hs, ht] at hst
      have hhead : digest.head? = some 35 := congrArg List.head? hst.symm
      exact absurd hhead (hmark _ (mem_of_lookup ht))
  | some digest =>
    rw [hs] at hst
    cases ht : digests.lookup t with
    | none =>
      rw [ht] at hst
      have hhead : digest.head? = some 35 := congrArg List.head? hst
      exact absurd hhead (hmark _ (mem_of_lookup hs))
    | some digest' =>
      rw [ht] at hst
      have hsame : digest = digest' := hst
      subst hsame
      exact congrArg Prod.fst (List.inj_on_of_nodup_map hnodup (mem_of_lookup hs) (mem_of_lookup ht) rfl)

theorem plainText_digestsOf (h : ∀ p ∈ digests, PlainText p.2) {s : Str}
    (hs : Bytes.Printable s) :
  PlainText ((digestsOf digests).sha256 s)
  := by
  change PlainText ((digests.lookup s).getD (35 :: s))
  cases hlookup : digests.lookup s with
  | none =>
    apply plainText_of_ascii
    intro c hc
    rcases List.mem_cons.mp hc with rfl | hc
    · decide
    · exact (hs c hc).2.trans (by decide)
  | some digest => exact h _ (mem_of_lookup hlookup)

theorem human_alice : text "human" = text "human" :=
  rfl

def confirmedGoal (endResult : Str) : GoalContract where
  goalId := text "g1"
  endResult := endResult
  allowedScope := [text "docs"]
  forbiddenScope := []
  constraints := []
  acceptanceCriteria := [⟨text "c1", text "report exists", text "deterministic"⟩]
  sideEffectLimits := []
  gates := ⟨true, false, false⟩
  confirmations := [⟨text "human", text "alice", text "2026-10-07T12:00:00Z", human_alice⟩]
  apart := by simp
  checkable := by simp
  unique := by simp

variable {endResult : Str}

theorem made_confirmedGoal (h : textOf (.str endResult) (text "end result") = .ok endResult) :
  (confirmedGoal endResult).Made
  where
  built := by
    refine ⟨(confirmedGoal endResult).draft, ?_⟩
    have hgoal : textOf (.str (text "g1")) (text "goal_id") = .ok (text "g1") := by decide
    have hallowed : normList (ofTexts [text "docs"]) (text "allowed scope") = .ok [text "docs"] := by decide
    have hnone : ∀ label, normList (ofTexts []) label = .ok [] := fun _ => rfl
    simp only [Draft.build, GoalContract.draft, confirmedGoal, hgoal, h, hallowed, hnone, ok_bind]
    rfl
  criteria := by
    intro k hk
    rw [confirmedGoal, List.mem_singleton] at hk
    subst hk
    exact ⟨.str (text "c1"), .str (text "report exists"), .str (text "deterministic"), by decide⟩
  confirmations := by
    intro f hf
    rw [confirmedGoal, List.mem_singleton] at hf
    subst hf
    exact ⟨.str (text "human"), .str (text "alice"), .str (text "2026-10-07T12:00:00Z"), by decide⟩

theorem typed_confirmedGoal (h : IsText endResult) :
  (confirmedGoal endResult).Typed
  := by
  have hcriteria : (Json.arr ((confirmedGoal endResult).acceptanceCriteria.map AcceptanceCriterion.toRecord)).Fit :=
    ⟨⟨by decide, show IsText (text "report exists") by decide, by decide,
      show IsText (text "deterministic") by decide, by decide, show IsText (text "c1") by decide, trivial⟩,
      trivial⟩
  have hconfirmations : (Json.arr ((confirmedGoal endResult).confirmations.map Confirmation.toRecord)).Fit :=
    ⟨⟨by decide, show IsText (text "human") by decide, by decide, show IsText (text "alice") by decide,
      by decide, show IsText (text "2026-10-07T12:00:00Z") by decide, trivial⟩, trivial⟩
  have hgates : (confirmedGoal endResult).gates.toRecord.Fit :=
    ⟨by decide, trivial, by decide, trivial, by decide, trivial, trivial⟩
  have hallowed : (ofTexts [text "docs"]).Fit := ⟨show IsText _ by decide, trivial⟩
  exact ⟨by decide, hcriteria, by decide, hallowed, by decide, hconfirmations, by decide, trivial, by decide, h,
    by decide, trivial, by decide, hgates, by decide, show IsText (text "g1") by decide, by decide, trivial, trivial⟩

theorem pairless_confirmedGoal (h : PlainText endResult) :
  (confirmedGoal endResult).Pairless
  where
  terms := {
    goalId := show PlainText (text "g1") by decide
    endResult := h
    allowedScope := by simp [confirmedGoal, show PlainText (text "docs") by decide]
    forbiddenScope := by simp [confirmedGoal]
    constraints := by simp [confirmedGoal]
    sideEffectLimits := by simp [confirmedGoal]
    acceptanceCriteria := by
      simp only [confirmedGoal, List.mem_singleton, forall_eq]
      exact ⟨by decide, by decide, by decide⟩ }
  confirmations := by
    simp only [confirmedGoal, List.mem_singleton, forall_eq]
    exact ⟨by decide, by decide⟩

deriving instance DecidableEq for GoalContract

section Plain

def reportGoal : GoalContract := confirmedGoal (text "ship the report")

def summaryGoal : GoalContract := confirmedGoal (text "ship the summary")

local instance platformStored : Platform :=
  digestsOf [
    (dumpsAscii reportGoal.termsRecord, reportDigest),
    (dumpsAscii reportGoal.toRecord, text "5883c39f4c6d70713a6d94beb7aeb15962c0af0ca035f154ea4d825ccd173356"),
    (dumpsAscii summaryGoal.termsRecord, text "0d461a61d93afbd3869defb38aa4c4bd5091dd9421b2105356bf5accbf5aa487"),
    (dumpsAscii summaryGoal.toRecord, text "c9c881bd488e0331dd373cf4256fe0000ac84130b26da660c8680f325a143d53")]

/-- Two goals are stored and read back. -/
theorem roundTrips_goals :
  (GoalContractStore.after [reportGoal, summaryGoal]).2 = [reportGoal, summaryGoal] ∧
    RoundTrips reportGoal summaryGoal [reportGoal, summaryGoal]
  := by
  have hstored : (GoalContractStore.after [reportGoal, summaryGoal]).2 = [reportGoal, summaryGoal] := by
    decide +kernel
  have hreport : reportGoal.Made ∧ reportGoal.Typed :=
    ⟨made_confirmedGoal (by decide), typed_confirmedGoal (by decide)⟩
  have hsummary : summaryGoal.Made ∧ summaryGoal.Typed :=
    ⟨made_confirmedGoal (by decide), typed_confirmedGoal (by decide)⟩
  refine ⟨hstored, ?_⟩
  apply (roundTrips_iff (digestsOf_injective (by decide) (by decide))
    (fun s => plainText_digestsOf (by decide)) hreport.1 hreport.2 hsummary.2 (by simp [hreport, hsummary])).mpr
  refine ⟨?_, ?_⟩
  · rw [hstored]
    simp only [List.forall_mem_cons, List.not_mem_nil, false_imp_iff, implies_true, and_true]
    exact ⟨pairless_confirmedGoal (by decide), pairless_confirmedGoal (by decide)⟩
  · intro hreread
    exact absurd hreread (by decide)

end Plain

section Paired

def pairedGoal : GoalContract := confirmedGoal pairedResult

def fusedGoal : GoalContract := confirmedGoal fusedResult

local instance platformPaired : Platform :=
  digestsOf [(dumpsAscii pairedGoal.termsRecord, fusedDigest),
    (dumpsAscii pairedGoal.toRecord, text "abfa30bfed397a91517f83723a8a51fcaafd35bca3cae3516d051bfbffea849d")]

theorem not_roundTrips_paired :
  pairedGoal.Made ∧ pairedGoal.Typed ∧ fusedGoal.Made ∧ fusedGoal.Typed ∧
    (GoalContractStore.after [pairedGoal]).2 = [pairedGoal] ∧
    GoalContractStore.read (GoalContractStore.after [pairedGoal]).1 = .ok [fusedGoal] ∧
    pairedGoal.termsRecord ≠ fusedGoal.termsRecord ∧ pairedGoal.fingerprint = fusedGoal.fingerprint ∧
    ¬RoundTrips pairedGoal fusedGoal [pairedGoal]
  := by
  have hfingerprint : pairedGoal.fingerprint = fusedGoal.fingerprint := by decide +kernel
  have hterms : pairedGoal.termsRecord ≠ fusedGoal.termsRecord := by decide
  refine ⟨made_confirmedGoal (by decide), typed_confirmedGoal (by decide), made_confirmedGoal (by decide),
    typed_confirmedGoal (by decide), by decide +kernel, by decide +kernel, hterms, hfingerprint, ?_⟩
  intro h
  exact h.distinct hterms hfingerprint

end Paired

end Example

end Courier.Goals
