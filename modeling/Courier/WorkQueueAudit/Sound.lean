import Courier.WorkQueue.Ledger
import Courier.WorkQueueAudit.Steps

/-!
# What a valid ledger makes of the items

A ledger that the auditor finds valid can be replayed, and the queue makes of every item what the
auditor tracks, up to the first release with a failing result.  The queue is done with the item
then, whereas the auditor lets it be claimed again.
-/

namespace Courier.WorkQueue

open Calendar Json Text

/-! ### Replay and report -/

/-- What a queue makes of a ledger, before leases expire, with a reader of JSON. -/
def replayWith (reader : Reader) (catalog : Catalog) (raw : Bytes) : Except Exc Items := do
  let events ← readLedger reader raw
  events.foldlM applyEvent catalog.items

theorem replay_eq (q : Queue) :
  q.replay = replayWith jsonLoads q.catalog q.ledger
  := rfl

def AuditReport.state (report : AuditReport) (itemId : Str) : Tracked :=
  (report.items.get? itemId).getD (.fresh itemId)

structure Agreement (report : AuditReport) (items : Items) : Prop where
  covered : ∀ id, (report.items.get? id).isSome → (items.get? id).isSome
  same : ∀ id item, items.get? id = some item → (report.state id).Matches item

/-! ### Claims and releases of an item -/

def turns (id : Str) (event : Members) : Bool :=
  get event (text "item_id") = .str id && get event (text "type") ≠ .str (text "RENEW")

def isFailure (event : Members) : Bool :=
  get event (text "type") = .str (text "RELEASE")
    && isFailedResult (get event (text "result")).asStr

def Repeats (event other : Members) : Prop :=
  get event (text "type") = .str (text "RELEASE") ∧
    get event (text "holder") = get other (text "holder") ∧
    strip (get event (text "result")).asStr = strip (get other (text "result")).asStr

/-- The first failing release among the claims and releases of an item is the last of them, but for
its repetition. -/
def Final (events : List Members) : Prop :=
  ∀ failure, events.find? isFailure = some failure →
    ∃ event, events.getLast? = some event ∧ Repeats event failure

/-! ### One item -/

/-- What the last claim or release of an item makes of it. -/
inductive Leaves (event : Members) (state : Tracked) : Prop
  | claimed (lease : Lease) :
      get event (text "type") = .str (text "CLAIM") → state.standing = .claimed lease →
      Leaves event state
  | released (result holder : Str) :
      get event (text "type") = .str (text "RELEASE") →
      get event (text "result") = .str result → get event (text "holder") = .str holder →
      state.standing = (if isFailedResult result then .blocked else .done) →
      state.result = some (strip result) → state.releasedBy = some holder →
      Leaves event state

/-- What the auditor and the queue make of an item after its claims and releases. -/
inductive Pursued (events : List Members) (state : Tracked) (item : Item) : Prop
  /-- They agree up to the first failing release. -/
  | together :
      events.find? isFailure = none → state.Matches item → item.status ≠ .blocked →
      (∀ result, item.result = some result → isFailedResult result = false) →
      Pursued events state item
  /-- The queue keeps the first failing release, the auditor goes on. -/
  | apart (failure last : Members) (result holder : Str) :
      events.find? isFailure = some failure → events.getLast? = some last →
      get failure (text "result") = .str result → get failure (text "holder") = .str holder →
      isFailedResult result = true →
      item.status = .blocked → item.lease = none → item.result = some (strip result) →
      item.releasedBy = some holder → Leaves last state →
      Pursued events state item

theorem isFailedResult_strip (result : Str) :
  isFailedResult (strip result) = isFailedResult result
  := by
  rw [isFailedResult, strip_strip]
  rfl

/-- They agree exactly if the first failing release was final. -/
theorem Pursued.matches_iff {events : List Members} {state : Tracked} {item : Item}
    (h : Pursued events state item) :
  state.Matches item ↔ Final events
  := by
  cases h with
  | together hnone hmatches =>
    apply iff_of_true hmatches
    intro failure hfailure
    cases hnone.symm.trans hfailure
  | apart failure last result holder hfirst hlast hresult hholder hfailed hstatus hlease hitem hby hleaves =>
    have hfinal : Final events ↔ Repeats last failure := by
      constructor
      · intro hfinal
        obtain ⟨event, hevent, hrepeats⟩ := hfinal failure hfirst
        cases hlast.symm.trans hevent
        exact hrepeats
      · intro hrepeats failure' hfirst'
        cases hfirst.symm.trans hfirst'
        exact ⟨last, hlast, hrepeats⟩
    rw [hfinal]
    cases hleaves with
    | claimed lease htype hstanding =>
      apply iff_of_false
      · intro hmatches
        have hstatus' := hmatches.status
        rw [hstatus, hstanding] at hstatus'
        cases hstatus'
      · intro hrepeats
        have htype' := htype.symm.trans hrepeats.1
        revert htype'
        decide
    | released result' holder' htype hresult' hholder' hstanding hstate hstateby =>
      constructor
      · intro hmatches
        have hsame := hmatches.result
        have hsameby := hmatches.releasedBy
        rw [hitem, hstate] at hsame
        rw [hby, hstateby] at hsameby
        cases hsameby
        refine ⟨htype, hholder'.trans hholder.symm, ?_⟩
        rw [hresult, hresult']
        exact (Option.some.inj hsame).symm
      · rintro ⟨-, hsameby, hsame⟩
        rw [hresult, hresult'] at hsame
        rw [hholder, hholder'] at hsameby
        cases hsameby
        have hfailed' : isFailedResult result' = true := by
          rw [← isFailedResult_strip] at hfailed ⊢
          have hsame : strip result' = strip result := hsame
          rw [hsame, hfailed]
        rw [if_pos hfailed'] at hstanding
        refine ⟨?_, ?_, ?_, ?_, ?_⟩
        · rw [hstatus, hstanding]
          rfl
        · rw [hlease, hstanding]
          rfl
        · rw [hlease, hstanding]
          rfl
        · rw [hitem, hstate]
          exact congrArg some hsame.symm
        · rw [hby, hstateby]

/-! ### One event -/

variable {event : Members} {env : Envelope} {events : List Members} {state state' : Tracked}
  {item : Item}

theorem isFailure_of_claim (h : get event (text "type") = .str (text "CLAIM")) :
  isFailure event = false
  := by
  rw [isFailure, h]
  rfl

theorem isFailure_of_release {result : Str} (h : get event (text "type") = .str (text "RELEASE"))
    (hget : get event (text "result") = .str result) :
  isFailure event = isFailedResult result
  := by
  rw [isFailure, h, hget]
  rfl

theorem find?_concat_of_some {failure : Members} (h : events.find? isFailure = some failure)
    (more : List Members) :
  (events ++ more).find? isFailure = some failure
  := by
  rw [List.find?_append, h]
  rfl

theorem find?_concat_of_none (h : events.find? isFailure = none) (hevent : isFailure event = false) :
  (events ++ [event]).find? isFailure = none
  := by
  rw [List.find?_append, h]
  simp [hevent]

/-- A clean event while the auditor and the queue agree and the item is open. -/
theorem pursued_open (henv : envelope event = .ok env) (hstep : Step event env state state')
    (hnone : events.find? isFailure = none) (hmatches : state.Matches item) (hopen : ¬ item.Closed)
    (hresult : ∀ result, item.result = some result → isFailedResult result = false) :
  ∃ item', applyTo item event = .ok item' ∧ item'.id = item.id ∧
    Pursued (events ++ if env.kind = .renew then [] else [event]) state' item'
  := by
  obtain ⟨item', happly, hmatches', hid⟩ := applyTo_of_step henv hstep hmatches hopen
  obtain ⟨hkind, -, -, hholder, -⟩ := get_of_envelope henv
  have htype := type_of_kind hkind
  refine ⟨item', happly, hid, ?_⟩
  have hkept : state'.result = state.result →
      ∀ result, item'.result = some result → isFailedResult result = false := by
    intro hsame result hitem'
    apply hresult
    rw [hmatches.result, ← hsame, ← hmatches'.result, hitem']
  cases hstep with
  | taken hclaim =>
    rw [hclaim] at htype ⊢
    refine .together (find?_concat_of_none hnone (isFailure_of_claim htype)) hmatches' ?_ (hkept rfl)
    rw [hmatches'.status]
    exact Status.noConfusion
  | retaken hclaim _ _ _ hstanding =>
    rw [hclaim] at htype ⊢
    refine .together (find?_concat_of_none hnone (isFailure_of_claim htype)) hmatches' ?_ (hkept rfl)
    rw [hmatches'.status, hstanding]
    exact Status.noConfusion
  | renewed hrenew =>
    rw [if_pos hrenew, List.append_nil]
    refine .together hnone hmatches' ?_ (hkept rfl)
    rw [hmatches'.status]
    exact Status.noConfusion
  | @released result lease hrelease hget _ hstanding hsame =>
    rw [hrelease] at htype ⊢
    have hfailure := isFailure_of_release htype hget
    by_cases hfailed : isFailedResult result = true
    · obtain ⟨hstatus, hlease, -, hresult', hby⟩ := hmatches'
      rw [if_pos hfailed] at hstatus hlease
      have hlease : item'.lease = none := by simpa [Standing.lease] using hlease
      refine .apart event event result env.holder ?_ (by simp) hget hholder hfailed hstatus hlease
        hresult' hby (.released result env.holder htype hget hholder rfl rfl rfl)
      rw [List.find?_append, hnone]
      simp [hfailure, hfailed]
    · have hfailed := eq_false_of_ne_true hfailed
      refine .together (find?_concat_of_none hnone (hfailure.trans hfailed)) hmatches' ?_ ?_
      · rw [hmatches'.status, if_neg (by simp [hfailed])]
        exact Status.noConfusion
      · intro result' hresult'
        cases hmatches'.result.symm.trans hresult'
        rw [isFailedResult_strip, hfailed]
  | rereleased _ _ _ hstanding =>
    refine absurd ?_ hopen
    rcases hstanding with hdone | hblocked
    · exact .inl (by rw [hmatches.status, hdone]; rfl)
    · exact .inr (by rw [hmatches.status, hblocked]; rfl)

theorem pursued_done (henv : envelope event = .ok env) (hstep : Step event env state state')
    (hnone : events.find? isFailure = none) (hmatches : state.Matches item)
    (hdone : item.status = .done)
    (hresult : ∀ result, item.result = some result → isFailedResult result = false) :
  Pursued (events ++ if env.kind = .renew then [] else [event]) state' item
  := by
  have hstanding : state.standing = .done := by
    have hstatus := hmatches.status
    rw [hdone] at hstatus
    cases hstate : state.standing with
    | done => rfl
    | _ =>
      rw [hstate] at hstatus
      cases hstatus
  have htype := type_of_kind (get_of_envelope henv).1
  cases hstep with
  | taken _ _ _ _ hnot => exact absurd hstanding hnot
  | retaken _ _ _ _ hclaimed | renewed _ _ _ hclaimed | released _ _ _ hclaimed =>
    cases hstanding.symm.trans hclaimed
  | @rereleased result hrelease hget _ _ _ hsame =>
    rw [hrelease] at htype ⊢
    refine .together (find?_concat_of_none hnone ?_) hmatches (by simp [hdone]) hresult
    rw [isFailure_of_release htype hget, ← isFailedResult_strip]
    exact hresult _ (hmatches.result.trans hsame)

theorem leaves_step {last : Members} (henv : envelope event = .ok env)
    (hstep : Step event env state state') (hlast : events.getLast? = some last)
    (h : Leaves last state) :
  ∃ last', (events ++ if env.kind = .renew then [] else [event]).getLast? = some last' ∧
    Leaves last' state'
  := by
  obtain ⟨hkind, -, -, hholder, -⟩ := get_of_envelope henv
  have htype := type_of_kind hkind
  cases hstep with
  | taken hclaim =>
    rw [hclaim] at htype ⊢
    exact ⟨event, by simp, .claimed _ htype rfl⟩
  | retaken hclaim _ _ _ hstanding =>
    rw [hclaim] at htype ⊢
    exact ⟨event, by simp, .claimed _ htype hstanding⟩
  | renewed hrenew _ _ hstanding =>
    rw [if_pos hrenew, List.append_nil]
    refine ⟨last, hlast, ?_⟩
    cases h with
    | claimed lease htype' => exact .claimed _ htype' rfl
    | released result holder _ _ _ hreleased =>
      rw [hstanding] at hreleased
      split_ifs at hreleased
  | @released result lease hrelease hget =>
    rw [hrelease] at htype ⊢
    exact ⟨event, by simp, .released result env.holder htype hget hholder rfl rfl rfl⟩
  | @rereleased result hrelease hget _ hstanding hby hsame =>
    rw [hrelease] at htype ⊢
    refine ⟨event, by simp, .released result env.holder htype hget hholder ?_ hsame hby⟩
    cases h with
    | claimed lease _ hclaimed => simp [hclaimed] at hstanding
    | released result' holder' _ _ _ hreleased hsame' =>
      rw [hreleased, ← isFailedResult_strip, ← isFailedResult_strip result,
        Option.some.inj (hsame'.symm.trans hsame)]

theorem pursued_step (henv : envelope event = .ok env) (hstep : Step event env state state')
    (h : Pursued events state item) :
  ∃ item', (if item.status = .done ∨ item.status = .blocked then .ok item
      else applyTo item event) = .ok item' ∧ item'.id = item.id ∧
    Pursued (events ++ if env.kind = .renew then [] else [event]) state' item'
  := by
  cases h with
  | together hnone hmatches hunblocked hresult =>
    by_cases hdone : item.status = .done
    · rw [if_pos (.inl hdone)]
      exact ⟨item, rfl, rfl, pursued_done henv hstep hnone hmatches hdone hresult⟩
    · have hopen : ¬ (item.status = .done ∨ item.status = .blocked) :=
        fun hclosed => hclosed.elim hdone hunblocked
      rw [if_neg hopen]
      exact pursued_open henv hstep hnone hmatches hopen hresult
  | apart failure last result holder hfirst hlast hget hholder hfailed hstatus hlease hitem hby hleaves =>
    obtain ⟨last', hlast', hleaves'⟩ := leaves_step henv hstep hlast hleaves
    rw [if_pos (.inr hstatus)]
    exact ⟨item, rfl, rfl, .apart failure last' result holder (find?_concat_of_some hfirst _) hlast'
      hget hholder hfailed hstatus hlease hitem hby hleaves'⟩

/-! ### The ledger -/

/-- What is known after some events without violations. -/
structure Sound (events : List Members) (log : Log) (items : Items) : Prop where
  clean : log.violations = []
  keyed : Keyed items
  pursued : ∀ id item, items.get? id = some item →
    Pursued (events.filter (turns id)) (log.state id) item
  covered : ∀ id, (log.items.get? id).isSome → (items.get? id).isSome

variable {log log' : Log} {items : Items}

theorem Sound.counted (h : Sound events log items)
    (hviolations : log'.violations = log.violations) (hitems : log'.items = log.items) :
  Sound events log' items
  := by
  refine ⟨hviolations.trans h.clean, h.keyed, ?_, ?_⟩
  · intro id item hitem
    rw [Log.state, hitems]
    exact h.pursued id item hitem
  · intro id hid
    rw [hitems] at hid
    exact h.covered id hid

theorem Pursued.pending {itemId : Str} (h : Pursued events (log.state itemId) item) :
  Pursued events (log.pending event itemId) item
  := by
  cases h with
  | together hnone hmatches hunblocked hresult =>
    obtain ⟨hstatus, hholder, hexpires, hsame, hby⟩ := hmatches
    exact .together hnone ⟨hstatus, hholder, hexpires, hsame, hby⟩ hunblocked hresult
  | apart failure last result holder hfirst hlast hget hholder hfailed hstatus hlease hitem hby hleaves =>
    refine .apart failure last result holder hfirst hlast hget hholder hfailed hstatus hlease hitem
      hby ?_
    cases hleaves with
    | claimed lease htype hstanding => exact .claimed lease htype hstanding
    | released result' holder' htype hget' hholder' hstanding hstate hstateby =>
      exact .released result' holder' htype hget' hholder' hstanding hstate hstateby

theorem applyEvent_of_item {id : Str} {item' : Item} (hkeyed : Keyed items)
    (hid : get event (text "item_id") = .str id) (hitem : items.get? id = some item)
    (hsame : item'.id = item.id) (happly : (if item.status = .done ∨ item.status = .blocked then
      .ok item else applyTo item event) = .ok item') :
  ∃ items', applyEvent items event = .ok items' ∧ Keyed items' ∧
    ∀ j, items'.get? j = if j = id then some item' else items.get? j
  := by
  have hkey := hkeyed id item hitem
  simp only [applyEvent, hid, eventItem, Except.ok_bind, hitem]
  split_ifs at happly ⊢ with hclosed
  · cases happly
    refine ⟨items, rfl, hkeyed, ?_⟩
    intro j
    split_ifs with hj
    · rw [hj, hitem]
    · rfl
  · rw [happly, Except.ok_bind]
    have hget : ∀ j, (items.set item'.id item').get? j =
        if j = id then some item' else items.get? j := by
      intro j
      rw [Dict.get?_set, hsame, hkey]
    refine ⟨_, rfl, ?_, hget⟩
    intro j other hother
    rw [hget] at hother
    split_ifs at hother with hj
    · cases hother
      rw [hsame, hkey, hj]
    · exact hkeyed j other hother

theorem turns_concat {id : Str} (henv : envelope event = .ok env) :
  (events ++ [event]).filter (turns id) = events.filter (turns id) ++
    if env.itemId = id then (if env.kind = .renew then [] else [event]) else []
  := by
  obtain ⟨hkind, hid, -⟩ := get_of_envelope henv
  have htype := type_of_kind hkind
  rw [List.filter_append]
  congr 1
  have hturns : turns id event = (decide (env.itemId = id) && decide (env.kind ≠ .renew)) := by
    have hname : ∀ kind : Kind,
        decide (Json.str kind.name ≠ .str (text "RENEW")) = decide (kind ≠ .renew) := by
      intro kind
      cases kind <;> decide
    rw [turns, hid, htype, hname]
    simp only [Json.str.injEq]
  rw [List.filter_singleton, hturns]
  by_cases hitem : env.itemId = id <;> by_cases hrenew : env.kind = .renew <;> simp [hitem, hrenew]

/-- A clean event of an item that the queue knows is applied. -/
theorem Sound.concat {log : Log} {items : Items} {scopes : Dict Str (List Str)}
    (h : Sound events log items) (hclean : (auditEvent scopes log event).violations = [])
    (hknown : ∀ id, get event (text "item_id") = .str id → (items.get? id).isSome) :
  ∃ items', applyEvent items event = .ok items' ∧
    Sound (events ++ [event]) (auditEvent scopes log event) items' ∧
    ∀ id, (items'.get? id).isSome = (items.get? id).isSome
  := by
  obtain ⟨-, env, henv, -, htransition⟩ := clean_auditEvent.mp hclean
  obtain ⟨-, hid, -⟩ := get_of_envelope henv
  obtain ⟨item, hitem⟩ := Option.isSome_iff_exists.mp (hknown _ hid)
  have hstep := step_of_clean htransition
  obtain ⟨item', happly, hsame, hpursued⟩ := pursued_step henv hstep (h.pursued _ _ hitem).pending
  obtain ⟨items', hitems, hkeyed, hget⟩ := applyEvent_of_item h.keyed hid hitem hsame happly
  obtain ⟨hlog, -⟩ := items_auditEvent scopes log henv
  refine ⟨items', hitems, ⟨hclean, hkeyed, ?_, ?_⟩, ?_⟩
  · intro j other hother
    rw [hget] at hother
    rw [turns_concat henv, Log.state, hlog, Dict.get?_set]
    by_cases hj : j = env.itemId
    · rw [if_pos hj] at hother ⊢
      cases hother
      rw [if_pos hj.symm, hj]
      exact hpursued
    · rw [if_neg hj] at hother ⊢
      rw [if_neg (Ne.symm hj), List.append_nil]
      exact h.pursued j other hother
  · intro j hj
    rw [hlog, Dict.get?_set] at hj
    rw [hget]
    split_ifs at hj ⊢
    · rfl
    · exact h.covered j hj
  · intro j
    rw [hget]
    split_ifs with hj
    · rw [hj, hitem]
      rfl
    · rfl

variable {reader : Reader} {scopes : Dict Str (List Str)}

theorem readLine_of_clean
    {line : Bytes} (h : auditLine reader scopes log line = .ok log') (hclean : log'.violations = []) :
  log.violations = [] ∧ ((line.blank = true ∧ log' = { log with totalLines := log.totalLines + 1 }) ∨
    line.blank = false ∧ ∃ event, readLine reader line = .ok event ∧
      log' = auditEvent scopes { log with
        totalLines := log.totalLines + 1
        eventsCount := log.eventsCount + 1 } event)
  := by
  have hflag : ∀ (log : Log) fault event, (log.flag [fault] event).violations ≠ [] := by
    simp [Log.flag]
  unfold auditLine at h
  dsimp only at h
  split_ifs at h with hblank
  · cases h
    exact ⟨hclean, .inl ⟨hblank, rfl⟩⟩
  · rw [Bool.not_eq_true] at hblank
    split at h
    · cases h
      exact absurd hclean (hflag _ _ _)
    · next s hs =>
      split at h
      · cases h
        exact absurd hclean (hflag _ _ _)
      · cases h
      · next event hevent =>
        cases h
        obtain ⟨hclean', env, henv, -⟩ := clean_auditEvent.mp hclean
        refine ⟨hclean', .inr ⟨hblank, event, ?_, rfl⟩⟩
        have htype := type_of_kind (get_of_envelope henv).1
        rw [readLine, hs]
        simp only [hevent]
        rw [if_pos]
        rw [htype]
        cases env.kind with
        | claim => exact .inl rfl
        | renew => exact .inr (.inl rfl)
        | release => exact .inr (.inr rfl)
      · cases h
        exact absurd hclean (hflag _ _ _)

theorem readLines_of_clean {lines : List Bytes}
    (h : lines.foldlM (auditLine reader scopes) log = .ok log')
    (hclean : log'.violations = []) :
  log.violations = [] ∧ ∃ events, readLines reader lines = .ok events
  := by
  induction lines generalizing log with
  | nil =>
    cases h
    exact ⟨hclean, [], rfl⟩
  | cons line lines ih =>
    obtain ⟨log₁, hline, hlines⟩ := Except.bind_eq_ok.mp h
    obtain ⟨hclean₁, events, hevents⟩ := ih hlines
    obtain ⟨hclean₀, ⟨hblank, -⟩ | ⟨hblank, event, hevent, -⟩⟩ := readLine_of_clean hline hclean₁
    · exact ⟨hclean₀, events, by rw [readLines, if_pos hblank, hevents]⟩
    · refine ⟨hclean₀, event :: events, ?_⟩
      rw [readLines, if_neg (by simp [hblank]), hevent, Except.ok_bind, hevents]
      rfl

theorem sound_lines {lines : List Bytes} {more : List Members}
    (h : lines.foldlM (auditLine reader scopes) log = .ok log') (hclean : log'.violations = [])
    (hmore : readLines reader lines = .ok more) (hsound : Sound events log items)
    (hknown : ∀ event ∈ more, ∀ id, get event (text "item_id") = .str id →
      (items.get? id).isSome) :
  ∃ items', more.foldlM applyEvent items = .ok items' ∧ Sound (events ++ more) log' items'
  := by
  induction lines generalizing log events items more with
  | nil =>
    cases h
    cases hmore
    refine ⟨items, rfl, ?_⟩
    rw [List.append_nil]
    exact hsound
  | cons line lines ih =>
    obtain ⟨log₁, hline, hlines⟩ := Except.bind_eq_ok.mp h
    obtain ⟨hclean₁, -⟩ := readLines_of_clean hlines hclean
    obtain ⟨-, ⟨hblank, rfl⟩ | ⟨hblank, event, hevent, rfl⟩⟩ := readLine_of_clean hline hclean₁
    · rw [readLines, if_pos hblank] at hmore
      exact ih hlines hmore (hsound.counted rfl rfl) hknown
    · rw [readLines, if_neg (by simp [hblank]), hevent, Except.ok_bind] at hmore
      obtain ⟨later, hlater, heq⟩ := Except.bind_eq_ok.mp hmore
      cases heq
      have hcounted : Sound events (Log.mk log.violations log.items log.prevCreatedAt
          log.lastCreatedAt (log.totalLines + 1) (log.eventsCount + 1)) items :=
        hsound.counted rfl rfl
      obtain ⟨items₁, happly, hsound₁, hsame⟩ := hcounted.concat hclean₁ (hknown event (by simp))
      obtain ⟨items', hitems, hsound'⟩ := ih hlines hlater hsound₁ (by
        intro later' hmem id hid
        rw [hsame]
        exact hknown later' (List.mem_cons_of_mem _ hmem) id hid)
      refine ⟨items', ?_, ?_⟩
      · rw [List.foldlM_cons, happly, Except.ok_bind, hitems]
      · rwa [List.append_assoc] at hsound'

theorem sound_start {catalog : Catalog}
    (hready : ∀ id item, catalog.items.get? id = some item → item.status = .ready) :
  Sound [] {} catalog.items
  := by
  refine ⟨rfl, catalog.keyed, ?_, by simp⟩
  intro id item hitem
  obtain ⟨-, hseed⟩ := catalog.seeds id item hitem
  have hstatus := hready id item hitem
  have hlease : item.lease = none := by
    have hleased := hseed.leased
    simpa [hstatus] using hleased
  refine .together rfl ⟨hstatus, ?_, ?_, hseed.result, hseed.releasedBy⟩ (by simp [hstatus]) ?_
  · rw [hlease]
    rfl
  · rw [hlease]
    rfl
  · intro result hresult
    rw [hseed.result] at hresult
    cases hresult

/-- A valid ledger is replayed, and the replay is what the report says exactly if the first failing release of every
item was final. -/
theorem agreement_iff {reader : Reader} {scopes : Dict Str (List Str)} {raw : Bytes}
    {report : AuditReport} {catalog : Catalog} (haudit : audit reader scopes raw = .ok report)
    (hvalid : report.valid = true)
    (hready : ∀ id item, catalog.items.get? id = some item → item.status = .ready)
    (hknown : ∀ events, readLedger reader raw = .ok events → ∀ event ∈ events, ∀ id,
      get event (text "item_id") = .str id → (catalog.items.get? id).isSome) :
  ∃ events items, readLedger reader raw = .ok events ∧ replayWith reader catalog raw = .ok items ∧
    (Agreement report items ↔
      ∀ id, (items.get? id).isSome → Final (events.filter (turns id)))
  := by
  unfold audit at haudit
  split_ifs at haudit with hlarge
  · cases haudit
    cases hvalid
  · obtain ⟨log, hlines, heq⟩ := Except.bind_eq_ok.mp haudit
    cases heq
    have hclean : log.violations = [] := by simpa [Log.report] using hvalid
    obtain ⟨-, events, hread⟩ := readLines_of_clean hlines hclean
    have hledger : readLedger reader raw = .ok events := by
      rw [readLedger, if_neg hlarge, hread]
    obtain ⟨items, hitems, hsound⟩ := sound_lines hlines hclean hread (sound_start hready)
      (hknown events hledger)
    refine ⟨events, items, hledger, ?_, ?_⟩
    · rw [replayWith, hledger, Except.ok_bind, hitems]
    · constructor
      · rintro ⟨-, hsame⟩ id hid
        obtain ⟨item, hitem⟩ := Option.isSome_iff_exists.mp hid
        exact (hsound.pursued id item hitem).matches_iff.mp (hsame id item hitem)
      · intro hfinal
        refine ⟨hsound.covered, ?_⟩
        intro id item hitem
        apply (hsound.pursued id item hitem).matches_iff.mpr
        exact hfinal id (by rw [hitem]; rfl)

section Example

def reclaimed : Bytes :=
  ledgerLine (leaseEvent (text "CLAIM") (text "alpha") (text "ann") (text "local")
      (text "2026-07-30T13:00:00Z") (text "2026-07-30T12:00:00Z")) ++
    ledgerLine (releaseEvent (text "alpha") (text "ann") (text "FAILED tests")
      (text "2026-07-30T12:10:00Z")) ++
    ledgerLine (leaseEvent (text "CLAIM") (text "alpha") (text "bob") (text "local")
      (text "2026-07-30T13:20:00Z") (text "2026-07-30T12:20:00Z"))

theorem valid_reclaimed :
  ∃ report, audit jsonLoads ∅ reclaimed = .ok report ∧ report.valid = true
  := by
  have hvalid : (audit jsonLoads ∅ reclaimed).toOption.any AuditReport.valid = true := by
    decide +kernel
  cases haudit : audit jsonLoads ∅ reclaimed with
  | error why =>
    rw [haudit] at hvalid
    cases hvalid
  | ok report =>
    rw [haudit] at hvalid
    exact ⟨report, rfl, hvalid⟩

theorem agreement_of_reclaimed :
  ∃ report events items, audit jsonLoads ∅ reclaimed = .ok report ∧
    readLedger jsonLoads reclaimed = .ok events ∧
    replayWith jsonLoads lone reclaimed = .ok items ∧
    (Agreement report items ↔
      ∀ id, (items.get? id).isSome → Final (events.filter (turns id)))
  := by
  obtain ⟨report, haudit, hvalid⟩ := valid_reclaimed
  have hread : (readLedger jsonLoads reclaimed).toOption.any (fun events =>
      events.all fun event => get event (text "item_id") = .str (text "alpha")) = true := by
    decide +kernel
  have hready : ∀ id item, lone.items.get? id = some item → item.status = .ready := by
    intro id item hitem
    have hvalues : ∀ v ∈ lone.items.values, v.status = .ready := by decide
    exact hvalues item (Dict.mem_values.mpr ⟨id, hitem⟩)
  have hknown : ∀ events, readLedger jsonLoads reclaimed = .ok events → ∀ event ∈ events, ∀ id,
      get event (text "item_id") = .str id → (lone.items.get? id).isSome := by
    intro events hevents event hmem id hid
    rw [hevents] at hread
    have hall : ∀ event ∈ events, get event (text "item_id") = .str (text "alpha") := by
      simpa [Except.toOption] using hread
    cases hid.symm.trans (hall event hmem)
    decide
  obtain ⟨events, items, hevents, hitems, hiff⟩ := agreement_iff haudit hvalid hready hknown
  exact ⟨report, events, items, haudit, hevents, hitems, hiff⟩

theorem not_agreement :
  (audit jsonLoads ∅ reclaimed).toOption.any (fun report => report.valid &&
      (report.state (text "alpha")).standing =
        .claimed ⟨text "bob", text "local", text "2026-07-30T13:20:00Z"⟩) = true ∧
    (replayWith jsonLoads lone reclaimed).toOption.any (fun items =>
      (items.get? (text "alpha")).any fun item => item.status = .blocked
        && item.result = some (text "FAILED tests") && item.releasedBy = some (text "ann")) = true
  := by
  constructor <;> decide +kernel

end Example

end Courier.WorkQueue
