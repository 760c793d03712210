import Courier.WorkQueue.Recomputed
import Courier.WorkQueueAudit.Sound

/-!
# The ledgers of the queue, audited

The auditor takes a lease as active in the second in which it expires and knows nothing of the leases of the seeds.
But for a claim in that second, and for items that were never claimed in the ledger, it finds no violation in what the
queue writes.
-/

namespace Courier.WorkQueue

open Calendar Json Text

/-! ### Use of a queue -/

def Queue.serve (q : Queue) (calls : List (Call × DateTime)) : Queue :=
  calls.foldl (fun q call => (q.call call.1 call.2).2) q

def Scheduled (calls : List (Call × DateTime)) : Prop :=
  (∀ call ∈ calls, call.1.Typed) ∧ calls.Pairwise fun a b => a.2.instant ≤ b.2.instant

def Taken (q : Queue) (id : Str) : Prop :=
  ∃ events, readLedger jsonLoads q.ledger = .ok events ∧ ∃ event ∈ events,
    get event (text "type") = .str (text "CLAIM") ∧ get event (text "item_id") = .str id

/-- A lease that was taken in the ledger expires in the very second of a moment. -/
def Lapses (q : Queue) (t : DateTime) (id : Str) : Prop :=
  Taken q id ∧ ∃ items item lease expires, q.replay = .ok items ∧ items.get? id = some item ∧
    item.lease = some lease ∧ parse lease.expiresAt = some expires ∧
    expires.instant = t.floor.instant

def Overlap (catalog : Catalog) (id other : Str) : Prop :=
  ∃ a b, catalog.items.get? id = some a ∧ catalog.items.get? other = some b ∧
    scopesOverlap a.filesScope b.filesScope = true

/-- A claim does not come in the second in which a lease expires, and only claimed items are renewed or released. -/
def Timely (q : Queue) (t : DateTime) : Call → Prop
  | .claim (.str id) .. => ¬ Lapses q t id ∧ ∀ other, Overlap q.catalog id other → ¬ Lapses q t other
  | .renew (.str id) .. | .release (.str id) .. => Taken q id
  | _ => True

def Queue.Answers (q : Queue) (call : Call) (t : DateTime) : Prop :=
  ∃ reply, (q.call call t).1 = .ok reply ∧ reply.idempotent = false

def Punctual (q : Queue) : List (Call × DateTime) → Prop
  | [] => True
  | (call, t) :: calls => (q.Answers call t → Timely q t call) ∧ Punctual (q.call call t).2 calls

/-! ### The entries of the queue, as the auditor reads them -/

namespace Entry

def kind : Entry → Kind
  | claim .. => .claim
  | renew .. => .renew
  | release .. => .release

def holder : Entry → Str
  | claim _ holder .. | renew _ holder .. | release _ holder .. => holder

def Claims (id : Str) (e : Entry) : Prop :=
  e.kind = .claim ∧ e.itemId = id

variable {e : Entry}

theorem get_reread (h : e.Lawful) :
  get e.reread (text "type") = .str e.kind.name ∧
    get e.reread (text "item_id") = .str e.itemId ∧
    get e.reread (text "holder") = .str e.holder ∧ createdAtRaw e.reread = .str (stamp e.moment)
  := by
  rw [reread_eq h]
  cases e <;> exact ⟨rfl, rfl, rfl, rfl⟩

theorem envelope_reread (h : e.Lawful) :
  envelope e.reread = .ok ⟨e.kind, e.itemId, e.holder, e.moment.floor⟩
  := by
  have htime : ∀ t : DateTime, parseTime (.str (stamp t)) = some t.floor := parse_stamp
  have htokens : isToken e.itemId = true ∧ isToken e.holder = true := by
    cases e with
    | claim | renew => exact ⟨h.1, h.2.1⟩
    | release => exact ⟨h.1, h.2.1⟩
  have hkind : kind? (.str e.kind.name) = some e.kind := by cases e.kind <;> decide
  obtain ⟨htype, hitem, hholder, hcreated⟩ := get_reread h
  rw [envelope, htype, hkind]
  simp only [hitem, hholder, token?, htokens.1, htokens.2, if_true, hcreated, htime]

theorem type_reread (h : e.Lawful) :
  get e.reread (text "type") = .str (text "CLAIM") ↔ e.kind = .claim
  := by
  have hname : ∀ kind : Kind, Json.str kind.name = .str (text "CLAIM") ↔ kind = .claim := by
    intro kind
    cases kind <;> decide
  rw [(get_reread h).1, hname]

end Entry

variable {q : Queue} {entries : List Entry} {t : DateTime}

variable {id : Str}

theorem taken_iff (h : Serving q entries) :
  Taken q id ↔ ∃ e ∈ entries, e.Claims id
  := by
  constructor
  · rintro ⟨events, hevents, event, hmem, htype, hid⟩
    cases (readLedger_of_serving h).symm.trans hevents
    obtain ⟨e, he, rfl⟩ := List.mem_map.mp hmem
    have hitem := (Entry.get_reread (h.lawful e he)).2.1
    exact ⟨e, he, (Entry.type_reread (h.lawful e he)).mp htype, Json.str.inj (hitem.symm.trans hid)⟩
  · rintro ⟨e, he, hkind, hid⟩
    have hitem := (Entry.get_reread (h.lawful e he)).2.1
    refine ⟨_, readLedger_of_serving h, e.reread, List.mem_map.mpr ⟨e, he, rfl⟩,
      (Entry.type_reread (h.lawful e he)).mpr hkind, ?_⟩
    rw [hitem, ← hid]

def auditEntry (scopes : Dict Str (List Str)) (log : Log) (e : Entry) : Log :=
  auditEvent scopes { log with
    totalLines := log.totalLines + 1
    eventsCount := log.eventsCount + 1 } e.reread

def auditEntries (scopes : Dict Str (List Str)) (entries : List Entry) : Log :=
  entries.foldl (auditEntry scopes) {}

theorem auditLine_of_readLine {reader : Reader} {scopes : Dict Str (List Str)} {log : Log}
    {line : Bytes} {event : Members} (hblank : line.blank = false)
    (h : readLine reader line = .ok event) :
  auditLine reader scopes log line = .ok (auditEvent scopes { log with
    totalLines := log.totalLines + 1
    eventsCount := log.eventsCount + 1 } event)
  := by
  unfold readLine at h
  unfold auditLine
  dsimp only
  rw [if_neg (by simp [hblank])]
  cases hs : line.decode with
  | none =>
    simp only [hs] at h
    cases h
  | some s =>
    simp only [hs] at h
    simp only
    cases hvalue : reader s with
    | error why =>
      simp only [hvalue] at h
      cases why <;> cases h
    | ok value =>
      simp only [hvalue] at h
      cases value with
      | obj members =>
        simp only at h ⊢
        split_ifs at h
        cases h
        rfl
      | _ => cases h

theorem foldlM_lines {scopes : Dict Str (List Str)} {log : Log} (h : ∀ e ∈ entries, e.Lawful) :
  (entries.map fun e => Bytes.ofAscii (dumpsAscii (.obj (texts e.event)))).foldlM
    (auditLine jsonLoads scopes) log = .ok (entries.foldl (auditEntry scopes) log)
  := by
  induction entries generalizing log with
  | nil => rfl
  | cons e entries ih =>
    rw [List.map_cons, List.foldlM_cons,
      auditLine_of_readLine (blank_line e.event) (Entry.readLine_line (h e (by simp))),
      Except.ok_bind, ih fun f hf => h f (List.mem_cons_of_mem _ hf)]
    rfl

theorem audit_of_serving (h : Serving q entries) (scopes : Dict Str (List Str)) :
  audit jsonLoads scopes q.ledger = .ok (auditEntries scopes entries).report
  := by
  rw [audit, if_neg (not_lt.mpr h.small), splitLines_of_serving h, foldlM_lines h.lawful]
  rfl

variable {e : Entry}

theorem clean_of_concat {scopes : Dict Str (List Str)}
    (h : (auditEntries scopes (entries ++ [e])).violations = []) :
  (auditEntries scopes entries).violations = []
  := by
  rw [auditEntries, List.foldl_concat] at h
  exact (clean_auditEvent.mp h).1

/-! ### What the auditor tracks -/

def Catalog.scopes (catalog : Catalog) : Dict Str (List Str) :=
  catalog.items.map Item.filesScope

/-- What is known of an auditor that found no violation in the entries so far. -/
structure Tracks (catalog : Catalog) (entries : List Entry) (log : Log) (t : DateTime) : Prop where
  clean : log.violations = []
  previous : ∀ previous, log.prevCreatedAt = some previous → previous.instant ≤ t.floor.instant
  tracked : ∀ id, (∃ e ∈ entries, e.Claims id) → (log.items.get? id).isSome ∧
    ∃ item, (after catalog entries).get? id = some item ∧ (log.state id).Matches item
  untracked : ∀ id, (¬ ∃ e ∈ entries, e.Claims id) → log.items.get? id = none

theorem le_floor {s : Str} {u : DateTime} (h : parse s = some u) (hle : u.instant ≤ t.instant) :
  u.instant ≤ t.floor.instant
  := by
  have hmicro := t.time.2.2.2
  rw [← floor_of_parse h] at hle ⊢
  rw [DateTime.instant_floor, DateTime.instant] at hle
  rw [DateTime.instant_floor, DateTime.instant_floor]
  omega

variable {log : Log}

variable {catalog : Catalog}

theorem clean_entry (h : Tracks catalog entries log t)
    (he : e.Lawful) (hmoment : e.moment = t) (scopes : Dict Str (List Str)) :
  (auditEntry scopes log e).violations = [] ↔
    (transition scopes log.items e.reread ⟨e.kind, e.itemId, e.holder, t.floor⟩
      (log.pending e.reread e.itemId)).2 = []
  := by
  have henv := Entry.envelope_reread he
  rw [hmoment] at henv
  have hchronology : chronologyFaults { log with
      totalLines := log.totalLines + 1
      eventsCount := log.eventsCount + 1 } e.reread t.floor = [] := by
    unfold chronologyFaults
    split
    · next previous hprevious => rw [if_neg (not_lt.mpr (h.previous previous hprevious))]
    · rfl
  rw [auditEntry, clean_auditEvent]
  constructor
  · rintro ⟨-, env, henv', -, htransition⟩
    cases henv.symm.trans henv'
    exact htransition
  · intro htransition
    exact ⟨h.clean, _, henv, hchronology, htransition⟩

theorem Tracks.state_of_untracked (h : Tracks catalog entries log t)
    (hid : ¬ ∃ e ∈ entries, e.Claims id) :
  log.state id = .fresh id
  := by
  rw [Log.state, h.untracked id hid]
  rfl

theorem lapses_iff (hserving : Serving q entries) (h : Tracks q.catalog entries log t) (id : Str)
    (hunheld : ∀ item, (after q.catalog entries).get? id = some item → held item t = false) :
  (∃ lease, (log.state id).standing = .claimed lease ∧ activeAt lease t.floor = true) ↔
    Lapses q t id
  := by
  rw [Lapses, taken_iff hserving, replay_of_serving hserving]
  constructor
  · rintro ⟨lease, hstanding, hactive⟩
    have htaken : ∃ e ∈ entries, e.Claims id := by
      by_contra hnot
      rw [h.state_of_untracked hnot] at hstanding
      cases hstanding
    obtain ⟨-, item, hitem, hmatches⟩ := h.tracked id htaken
    obtain ⟨hstatus, -, hexpires, -, -⟩ := hmatches
    rw [hstanding] at hstatus hexpires
    obtain ⟨own, hown, hsame⟩ := Option.map_eq_some_iff.mp hexpires
    obtain ⟨expires, hparse, hle⟩ := (Option.any_eq_true _ _).mp hactive
    rw [← hsame] at hparse
    refine ⟨htaken, _, item, own, expires, rfl, hitem, hown, hparse, ?_⟩
    have hover := hunheld item hitem
    simp only [held, show item.status = .claimed from hstatus, hown, hparse, Option.any_some,
      decide_eq_false_iff_not, not_lt] at hover
    exact le_antisymm (le_floor hparse hover) (by simpa using hle)
  · rintro ⟨htaken, _, item, own, expires, ⟨⟩, hitem, hown, hparse, hsame⟩
    obtain ⟨-, item', hitem', hmatches⟩ := h.tracked id htaken
    cases hitem.symm.trans hitem'
    have hexpires := hmatches.expiresAt
    rw [hown] at hexpires
    obtain ⟨lease, hlease, hexpiry⟩ := Option.map_eq_some_iff.mp hexpires.symm
    have hstanding : (log.state id).standing = .claimed lease := by
      cases hstate : (log.state id).standing with
      | claimed lease' =>
        rw [hstate] at hlease
        cases hlease
        rfl
      | _ =>
        rw [hstate] at hlease
        cases hlease
    refine ⟨lease, hstanding, ?_⟩
    simp [activeAt, hexpiry, hparse, hsame]

variable {item : Item}

theorem not_lapses_of_held (hserving : Serving q entries)
    (hitem : (after q.catalog entries).get? id = some item) (hheld : held item t = true) :
  ¬ Lapses q t id
  := by
  rintro ⟨-, items, item', lease, expires, hitems, hitem', hlease, hparse, hsame⟩
  cases (replay_of_serving hserving).symm.trans hitems
  cases hitem.symm.trans hitem'
  obtain ⟨-, own, hown, expires', hparse', hlt⟩ := lease_of_held hheld
  cases hlease.symm.trans hown
  cases hparse.symm.trans hparse'
  have hfloor := (DateTime.instant_bounds t).1
  omega

theorem filesScope_after (catalog : Catalog) (entries : List Entry) (id : Str) :
  ((after catalog entries).get? id).map Item.filesScope =
    (catalog.items.get? id).map Item.filesScope
  := by
  induction entries using List.reverseRecOn with
  | nil => rfl
  | append_singleton entries e ih =>
    rw [get?_after_concat]
    split_ifs
    · rw [Option.map_map, ← ih]
      cases (after catalog entries).get? id <;> simp
    · exact ih

/-! ### Claims -/

variable {scopes : Dict Str (List Str)} {items : Dict Str Tracked}

variable {n : Nat} {expires : DateTime}

theorem expiryFaults_ttlFaults (event : Members)
    (hadd : t.addSeconds n = some expires) (hpos : 1 ≤ n) (hmax : n ≤ MAX_TTL_SECONDS) :
  expiryFaults event t.floor expires.floor = [] ∧ ttlFaults t.floor expires.floor = []
  := by
  obtain ⟨hseconds, -⟩ := DateTime.seconds_addSeconds hadd
  constructor
  · rw [expiryFaults, if_neg]
    rw [DateTime.instant_floor, DateTime.instant_floor, hseconds]
    omega
  · rw [ttlFaults, if_neg]
    rw [DateTime.seconds_floor, DateTime.seconds_floor, hseconds]
    omega

theorem clean_claimStep {env : Envelope} {host expiresAt : Str} {state : Tracked}
    (hdone : state.standing ≠ .done)
    (hfresh : ∀ lease, state.standing = .claimed lease → activeAt lease env.createdAt = true →
      lease.expiresAt ≠ expiresAt) :
  (claimStep env host expiresAt state).2 = [] ↔
    ¬ ∃ lease, state.standing = .claimed lease ∧ activeAt lease env.createdAt = true
  := by
  unfold claimStep
  cases hstate : state.standing with
  | unclaimed | blocked => simp
  | done => exact absurd hstate hdone
  | claimed lease =>
    simp only [Standing.claimed.injEq, exists_eq_left']
    split_ifs with hactive hsame
    · exact absurd hsame.2 (hfresh lease hstate hactive)
    · simp [hactive]
    · simp [hactive]

theorem clean_conflicts {env : Envelope} {scope : List Str}
    (hscope : scopes.get? env.itemId = some scope) :
  conflicts scopes items env = [] ↔ ∀ other state lease scope', items.get? other = some state →
    other ≠ env.itemId → state.standing = .claimed lease → activeAt lease env.createdAt = true →
    scopes.get? other = some scope' → scopesOverlap scope scope' = false
  := by
  simp only [conflicts, hscope, List.map_eq_nil_iff, List.filter_eq_nil_iff]
  constructor
  · intro h other state lease scope' hstate hne hstanding hactive hscope'
    have hentry := h (other, state) (Dict.get?_eq_some.mp hstate)
    simpa [hne, hstanding, hactive, hscope'] using hentry
  · rintro h ⟨other, state⟩ hmem hentry
    simp only [ne_eq, decide_not, Bool.and_eq_true, Bool.not_eq_true', decide_eq_false_iff_not]
      at hentry
    obtain ⟨hne, hentry⟩ := hentry
    split at hentry
    · next lease hstanding =>
      simp only [Bool.and_eq_true, Option.any_eq_true] at hentry
      obtain ⟨hactive, scope', hscope', hoverlap⟩ := hentry
      rw [h other state lease scope' (Dict.get?_eq_some.mpr hmem) hne hstanding hactive hscope']
        at hoverlap
      cases hoverlap
    · cases hentry

variable {itemId : Str}

theorem clean_auditClaim {name machine : Str}
    {state : Tracked} (he : (Entry.claim itemId name machine expires t).Lawful)
    (hadd : t.addSeconds n = some expires) (hpos : 1 ≤ n) (hmax : n ≤ MAX_TTL_SECONDS) :
  ((auditClaim scopes items (Entry.claim itemId name machine expires t).reread
      ⟨.claim, itemId, name, t.floor⟩ state).2 = [] ↔
    (claimStep ⟨.claim, itemId, name, t.floor⟩ machine (stamp expires) state).2 = [] ∧
      conflicts scopes items ⟨.claim, itemId, name, t.floor⟩ = []) ∧
  (auditClaim scopes items (Entry.claim itemId name machine expires t).reread
      ⟨.claim, itemId, name, t.floor⟩ state).1 =
    (claimStep ⟨.claim, itemId, name, t.floor⟩ machine (stamp expires) state).1
  := by
  have hget : get (Entry.claim itemId name machine expires t).reread (text "host") = .str machine ∧
      get (Entry.claim itemId name machine expires t).reread (text "expires_at") =
        .str (stamp expires) := by
    rw [Entry.reread_eq he]
    exact ⟨rfl, rfl⟩
  obtain ⟨hexpiry, httl⟩ := expiryFaults_ttlFaults
    (Entry.claim itemId name machine expires t).reread hadd hpos hmax
  have htime : parseTime (.str (stamp expires)) = some expires.floor := parse_stamp expires
  unfold auditClaim
  simp only [hget.1, hget.2, token?, he.2.2, if_true, htime, hexpiry, httl, asStr, List.nil_append,
    List.append_eq_nil_iff, and_self]

theorem Tracks.open_of_claim (h : Tracks catalog entries log t)
    {old : Item}
    (hold : (after catalog entries).get? itemId = some old) (hunheld : held old t = false)
    (hstatus : old.status = .ready ∨ old.status = .claimed) (hadd : t.addSeconds n = some expires)
    (hpos : 1 ≤ n) :
  (log.state itemId).standing ≠ .done ∧ ∀ lease, (log.state itemId).standing = .claimed lease →
    activeAt lease t.floor = true → lease.expiresAt ≠ stamp expires
  := by
  by_cases htaken : ∃ e ∈ entries, e.Claims itemId
  · obtain ⟨-, item, hitem, hmatches⟩ := h.tracked itemId htaken
    cases hold.symm.trans hitem
    obtain ⟨hsame, -, hexpires, -, -⟩ := hmatches
    constructor
    · intro hdone
      rw [hdone] at hsame
      rw [show old.status = .done from hsame] at hstatus
      simp at hstatus
    · intro lease hstanding _ hexpiry
      rw [hstanding] at hsame hexpires
      obtain ⟨own, hown, hsame'⟩ := Option.map_eq_some_iff.mp hexpires
      rw [held_fresh hpos hadd hsame hown (hsame'.trans hexpiry)] at hunheld
      cases hunheld
  · rw [h.state_of_untracked htaken]
    exact ⟨Standing.noConfusion, fun _ => Standing.noConfusion⟩

/-- A claim that the queue has admitted has no violations exactly if it is timely. -/
theorem clean_claim (hserving : Serving q entries) (h : Tracks q.catalog entries log t)
    {name machine : Str} {prs : Prs} {current : Item}
    (he : (Entry.claim itemId name machine expires t).Lawful)
    (hadd : t.addSeconds n = some expires) (hpos : 1 ≤ n) (hmax : n ≤ MAX_TTL_SECONDS)
    (hcurrent : ((after q.catalog entries).map (expire t)).get? itemId = some current)
    (hheld : held current t = false)
    (hadmissible : admissible prs t ((after q.catalog entries).map (expire t)) current = true)
    {holder ttl host : Json} :
  (auditEntry q.catalog.scopes log (.claim itemId name machine expires t)).violations = [] ↔
    Timely q t (.claim (.str itemId) holder ttl host prs)
  := by
  have hclaimable : claimableStatus current t = true := by
    simp only [admissible, Bool.and_eq_true] at hadmissible
    exact hadmissible.1.1
  obtain ⟨old, hold, hunheld, hstatus, hcurrentEq⟩ :=
    open_of_claimable hserving.lawful hcurrent hheld hclaimable
  have hscopeOf := filesScope_after q.catalog entries itemId
  rw [hold] at hscopeOf
  obtain ⟨seed, hseed, hscope⟩ := Option.map_eq_some_iff.mp hscopeOf.symm
  have hscopes : ∀ id, q.catalog.scopes.get? id = (q.catalog.items.get? id).map Item.filesScope :=
    fun id => Dict.get?_map _ _ _
  have hlapses := lapses_iff hserving h itemId (by
    intro item hitem
    cases hold.symm.trans hitem
    exact hunheld)
  obtain ⟨hdone, hfresh⟩ := h.open_of_claim hold hunheld hstatus hadd hpos
  have hscope' : q.catalog.scopes.get? itemId = some seed.filesScope := by
    rw [hscopes, hseed, Option.map_some]
  have hchecks : (auditEntry q.catalog.scopes log (.claim itemId name machine expires t)).violations =
      [] ↔ (claimStep ⟨.claim, itemId, name, t.floor⟩ machine (stamp expires)
        (log.pending (Entry.claim itemId name machine expires t).reread itemId)).2 = [] ∧
      conflicts q.catalog.scopes log.items ⟨.claim, itemId, name, t.floor⟩ = [] :=
    (clean_entry h he rfl _).trans (clean_auditClaim he hadd hpos hmax).1
  have hstep : (claimStep ⟨.claim, itemId, name, t.floor⟩ machine (stamp expires)
      (log.pending (Entry.claim itemId name machine expires t).reread itemId)).2 = [] ↔
      ¬ Lapses q t itemId := by
    rw [clean_claimStep]
    · exact not_congr hlapses
    · exact hdone
    · exact hfresh
  rw [hchecks, hstep, clean_conflicts hscope']
  constructor
  · rintro ⟨hown, hothers⟩
    refine ⟨hown, ?_⟩
    rintro other ⟨a, b, ha, hb, hoverlap⟩ hlapse
    by_cases hne : other = itemId
    · exact hown (hne ▸ hlapse)
    have htracked := h.tracked other ((taken_iff hserving).mp hlapse.1)
    obtain ⟨hsome, item, hitem, -⟩ := htracked
    have hunheld' : held item t = false := by
      by_contra hheld'
      exact not_lapses_of_held hserving hitem (eq_true_of_ne_false hheld') hlapse
    obtain ⟨lease, hstanding, hactive⟩ := (lapses_iff hserving h other (by
      intro item' hitem'
      cases hitem.symm.trans hitem'
      exact hunheld')).mpr hlapse
    have hstate : log.items.get? other = some (log.state other) := by
      obtain ⟨state, hstate⟩ := Option.isSome_iff_exists.mp hsome
      rw [Log.state, hstate]
      rfl
    cases hseed.symm.trans ha
    have hapart := hothers other _ lease b.filesScope hstate hne hstanding hactive (by
      rw [hscopes, hb, Option.map_some])
    rw [hapart] at hoverlap
    cases hoverlap
  · rintro ⟨hown, hothers⟩
    refine ⟨hown, ?_⟩
    intro other state lease scope' hstate hne hstanding hactive hscope''
    rw [hscopes] at hscope''
    obtain ⟨b, hb, rfl⟩ := Option.map_eq_some_iff.mp hscope''
    have htaken : ∃ e ∈ entries, e.Claims other := by
      by_contra hnot
      rw [h.untracked other hnot] at hstate
      cases hstate
    obtain ⟨-, item, hitem, -⟩ := h.tracked other htaken
    have hsame : item.filesScope = b.filesScope := by
      have hscope := filesScope_after q.catalog entries other
      rw [hitem, hb] at hscope
      exact Option.some.inj hscope
    by_cases hheld' : held item t = true
    · have hapart := apart_of_admissible (keyed_after q.catalog entries) hcurrent hadmissible hne
        hitem hheld'
      rw [hcurrentEq, hsame] at hapart
      rw [hscope]
      exact hapart
    · by_contra hoverlap
      apply hothers other ⟨seed, b, hseed, hb, eq_true_of_ne_false hoverlap⟩
      apply (lapses_iff hserving h other (by
        intro item' hitem'
        cases hitem.symm.trans hitem'
        exact eq_false_of_ne_true hheld')).mp
      refine ⟨lease, ?_, hactive⟩
      rw [Log.state, hstate]
      exact hstanding

/-! ### Renewals and releases -/

variable {lease : Lease}

theorem Tracks.claimed_of_held (h : Tracks catalog entries log t)
    (htaken : ∃ e ∈ entries, e.Claims id)
    (hitem : (after catalog entries).get? id = some item) (hheld : held item t = true)
    (hlease : item.lease = some lease) :
  ∃ lease', (log.state id).standing = .claimed lease' ∧ lease'.holder = lease.holder ∧
    lease'.expiresAt = lease.expiresAt
  := by
  obtain ⟨-, item', hitem', hmatches⟩ := h.tracked id htaken
  cases hitem.symm.trans hitem'
  obtain ⟨hstatus, hholder, hexpires, -, -⟩ := hmatches
  rw [(lease_of_held hheld).1] at hstatus
  rw [hlease] at hholder hexpires
  cases hstanding : (log.state id).standing with
  | claimed lease' =>
    rw [hstanding] at hholder hexpires
    exact ⟨lease', rfl, (Option.some.inj hholder).symm, (Option.some.inj hexpires).symm⟩
  | _ =>
    rw [hstanding] at hstatus
    cases hstatus

/-- A renewal that the queue has admitted has no violations exactly if the item was claimed in the
ledger. -/
theorem clean_renew (hserving : Serving q entries) (h : Tracks q.catalog entries log t)
    (he : (Entry.renew itemId lease.holder lease.host expires t).Lawful)
    (hitem : (after q.catalog entries).get? itemId = some item) (hheld : held item t = true)
    (hlease : item.lease = some lease) (hadd : t.addSeconds n = some expires) (hpos : 1 ≤ n)
    (hmax : n ≤ MAX_TTL_SECONDS) (scopes : Dict Str (List Str)) :
  (auditEntry scopes log (.renew itemId lease.holder lease.host expires t)).violations = [] ↔
    Taken q itemId
  := by
  have hget : get (Entry.renew itemId lease.holder lease.host expires t).reread
      (text "expires_at") = .str (stamp expires) := by
    rw [Entry.reread_eq he]
    rfl
  obtain ⟨hexpiry, -⟩ := expiryFaults_ttlFaults
    (Entry.renew itemId lease.holder lease.host expires t).reread hadd hpos hmax
  have htime : parseTime (.str (stamp expires)) = some expires.floor := parse_stamp expires
  have hchecks : (auditEntry scopes log (.renew itemId lease.holder lease.host expires t)).violations =
      [] ↔ (renewStep ⟨.renew, itemId, lease.holder, t.floor⟩ (stamp expires)
        (log.pending (Entry.renew itemId lease.holder lease.host expires t).reread itemId)).2 = [] := by
    apply (clean_entry h he rfl scopes).trans
    show (auditRenew _ ⟨.renew, itemId, lease.holder, t.floor⟩ _).2 = [] ↔ _
    unfold auditRenew
    simp only [hget, htime, hexpiry, List.nil_append, asStr, Entry.itemId]
  rw [hchecks, taken_iff hserving]
  constructor
  · intro hclean
    by_contra hnot
    have hfresh : (log.pending (Entry.renew itemId lease.holder lease.host expires t).reread
        itemId).standing = .unclaimed := by
      rw [Log.pending, h.state_of_untracked hnot]
      rfl
    rw [renewStep, hfresh] at hclean
    cases hclean
  · intro htaken
    obtain ⟨lease', hstanding, hholder, hexpires⟩ := h.claimed_of_held htaken hitem hheld hlease
    obtain ⟨-, own, hown, u, hparse, hlt⟩ := lease_of_held hheld
    cases hown.symm.trans hlease
    have hpending : (log.pending (Entry.renew itemId lease.holder lease.host expires t).reread
        itemId).standing = .claimed lease' := hstanding
    have hfloor := (DateTime.instant_bounds t).1
    rw [renewStep, hpending]
    simp only [hholder, ne_eq, not_true_eq_false, if_false, hexpires, hparse]
    rw [if_neg (by omega)]

theorem clean_release (hserving : Serving q entries) (h : Tracks q.catalog entries log t)
    {verdict : Str}
    (he : (Entry.release itemId lease.holder verdict t).Lawful)
    (hitem : (after q.catalog entries).get? itemId = some item) (hheld : held item t = true)
    (hlease : item.lease = some lease) (scopes : Dict Str (List Str)) :
  (auditEntry scopes log (.release itemId lease.holder verdict t)).violations = [] ↔ Taken q itemId
  := by
  have hget : get (Entry.release itemId lease.holder verdict t).reread (text "result") =
      .str (fuse verdict) := by
    rw [Entry.reread_eq he]
    rfl
  have hchecks : (auditEntry scopes log (.release itemId lease.holder verdict t)).violations =
      [] ↔ (releaseStep ⟨.release, itemId, lease.holder, t.floor⟩ (fuse verdict)
        (log.pending (Entry.release itemId lease.holder verdict t).reread itemId)).2 = [] := by
    apply (clean_entry h he rfl scopes).trans
    show (auditRelease _ ⟨.release, itemId, lease.holder, t.floor⟩ _).2 = [] ↔ _
    unfold auditRelease
    simp only [hget, isResult_fuse he.2.2.1, if_true, Entry.itemId]
  rw [hchecks, taken_iff hserving]
  constructor
  · intro hclean
    by_contra hnot
    have hfresh : (log.pending (Entry.release itemId lease.holder verdict t).reread
        itemId).standing = .unclaimed := by
      rw [Log.pending, h.state_of_untracked hnot]
      rfl
    rw [releaseStep, hfresh] at hclean
    cases hclean
  · intro htaken
    obtain ⟨lease', hstanding, hholder, -⟩ := h.claimed_of_held htaken hitem hheld hlease
    have hpending : (log.pending (Entry.release itemId lease.holder verdict t).reread
        itemId).standing = .claimed lease' := hstanding
    rw [releaseStep, hpending]
    simp only [hholder, ne_eq, not_true_eq_false, if_false]

/-! ### One more entry -/

variable {call : Call} {reply : Reply}

theorem lawful_of_serves {items : Items}
    (h : Serves items t call reply (some e)) :
  e.moment = t ∧ reply.idempotent = false
  := by
  cases h <;> exact ⟨rfl, rfl⟩

theorem idempotent_of_serves {items : Items}
    (h : Serves items t call reply none) :
  reply.idempotent = true
  := by
  cases h <;> rfl

theorem clean_of_serves (hserving : Serving q entries) (h : Tracks q.catalog entries log t)
    (he : e.Lawful)
    (hserves : Serves ((after q.catalog entries).map (expire t)) t call reply (some e)) :
  (auditEntry q.catalog.scopes log e).violations = [] ↔ Timely q t call
  := by
  cases hserves with
  | claimed hitem hholder hhost httl hcurrent hheld hadmissible hadd =>
    obtain ⟨rfl, -⟩ := token_of_required hitem
    obtain ⟨hpos, hmax⟩ := ttl_of_required httl
    exact clean_claim hserving h he hadd hpos hmax hcurrent hheld hadmissible
  | renewed hitem hholder httl hcurrent hheld hlease hadd =>
    obtain ⟨rfl, -⟩ := token_of_required hitem
    obtain ⟨hpos, hmax⟩ := ttl_of_required httl
    exact clean_renew hserving h he (get?_of_held hcurrent hheld) hheld hlease hadd hpos hmax _
  | released hitem hholder hresult hcurrent hheld hlease =>
    obtain ⟨rfl, -⟩ := token_of_required hitem
    exact clean_release hserving h he (get?_of_held hcurrent hheld) hheld hlease _

theorem open_of_serves (hserving : Serving q entries)
    (hserves : Serves ((after q.catalog entries).map (expire t)) t call reply (some e)) :
  ∃ old, (after q.catalog entries).get? e.itemId = some old ∧ ¬ old.Closed
  := by
  have hopen : ∀ old : Item, held old t = true → ¬ old.Closed := by
    intro old hheld hclosed
    rw [Item.Closed, (lease_of_held hheld).1] at hclosed
    simp at hclosed
  cases hserves with
  | claimed hitem hholder hhost httl hcurrent hheld hadmissible hadd =>
    have hclaimable := hadmissible
    simp only [admissible, Bool.and_eq_true] at hclaimable
    obtain ⟨old, hold, -, hstatus, -⟩ :=
      open_of_claimable hserving.lawful hcurrent hheld hclaimable.1.1
    refine ⟨old, hold, ?_⟩
    rintro (hdone | hblocked)
    · simp [hdone] at hstatus
    · simp [hblocked] at hstatus
  | renewed hitem hholder httl hcurrent hheld hlease hadd =>
    exact ⟨_, get?_of_held hcurrent hheld, hopen _ hheld⟩
  | released hitem hholder hresult hcurrent hheld hlease =>
    exact ⟨_, get?_of_held hcurrent hheld, hopen _ hheld⟩

theorem matches_of_clean {old : Item}
    (h : Tracks catalog entries log t) (hlawful : ∀ e ∈ entries, e.Lawful) (he : e.Lawful)
    (hold : (after catalog entries).get? e.itemId = some old) (hopen : ¬ old.Closed)
    (hclaims : ∃ f ∈ entries ++ [e], f.Claims e.itemId)
    (hclean : (transition scopes log.items e.reread ⟨e.kind, e.itemId, e.holder, e.moment.floor⟩
      (log.pending e.reread e.itemId)).2 = []) :
  (transition scopes log.items e.reread ⟨e.kind, e.itemId, e.holder, e.moment.floor⟩
    (log.pending e.reread e.itemId)).1.Matches (e.act old)
  := by
  have hstep := step_of_clean hclean
  have hact : e.act old = e.applyTo old := if_neg hopen
  by_cases htaken : ∃ f ∈ entries, f.Claims e.itemId
  · obtain ⟨-, item, hitem, hstatus, hholder, hexpires, hresult, hby⟩ := h.tracked _ htaken
    cases hold.symm.trans hitem
    obtain ⟨item', happly, hmatches, -⟩ := applyTo_of_step (Entry.envelope_reread he) hstep
      ⟨hstatus, hholder, hexpires, hresult, hby⟩ hopen
    cases (Entry.applyTo_reread he old).symm.trans happly
    rw [hact]
    exact hmatches
  · obtain ⟨f, hf, hkind, -⟩ : ∃ f ∈ [e], f.Claims e.itemId := by
      obtain ⟨f, hf, hclaims⟩ := hclaims
      rcases List.mem_append.mp hf with hf | hf
      · exact absurd ⟨f, hf, hclaims⟩ htaken
      · exact ⟨f, hf, hclaims⟩
    cases List.mem_singleton.mp hf
    obtain ⟨hresult, hby⟩ : old.result = none ∧ old.releasedBy = none := by
      rcases (proper_after hlawful hold).closed with hdone | hblocked | hnone
      · exact absurd (.inl hdone) hopen
      · exact absurd (.inr hblocked) hopen
      · exact hnone
    have hpending : (log.pending e.reread e.itemId).Matches
        { old with status := .ready, lease := none } := by
      rw [Log.pending, h.state_of_untracked htaken]
      exact ⟨rfl, rfl, rfl, hresult, hby⟩
    obtain ⟨item', happly, hmatches, -⟩ := applyTo_of_step (Entry.envelope_reread he) hstep hpending
      (by simp [Item.Closed])
    cases (Entry.applyTo_reread he _).symm.trans happly
    rw [hact]
    cases e with
    | claim => exact hmatches
    | renew | release => cases hkind

/-- The auditor goes on to track what the queue makes of its items. -/
theorem Tracks.concat (hserving : Serving q entries) (h : Tracks q.catalog entries log t)
    {call : Call} {reply : Reply} {e : Entry} (he : e.Lawful)
    (hserves : Serves ((after q.catalog entries).map (expire t)) t call reply (some e))
    (hclean : (auditEntry q.catalog.scopes log e).violations = []) :
  Tracks q.catalog (entries ++ [e]) (auditEntry q.catalog.scopes log e) t
  := by
  obtain ⟨hmoment, -⟩ := lawful_of_serves hserves
  obtain ⟨old, hold, hopen⟩ := open_of_serves hserving hserves
  have htimely := (clean_of_serves hserving h he hserves).mp hclean
  have hclaims : ∃ f ∈ entries ++ [e], f.Claims e.itemId := by
    cases hserves with
    | claimed => exact ⟨_, by simp, rfl, rfl⟩
    | renewed hitem | released hitem =>
      obtain ⟨rfl, -⟩ := token_of_required hitem
      obtain ⟨f, hf, hclaims⟩ := (taken_iff hserving).mp htimely
      exact ⟨f, List.mem_append_left _ hf, hclaims⟩
  have hother : ∀ id, id ≠ e.itemId →
      ((∃ f ∈ entries ++ [e], f.Claims id) ↔ ∃ f ∈ entries, f.Claims id) := by
    intro id hid
    constructor
    · rintro ⟨f, hf, hclaims⟩
      rcases List.mem_append.mp hf with hf | hf
      · exact ⟨f, hf, hclaims⟩
      · cases List.mem_singleton.mp hf
        exact absurd hclaims.2.symm hid
    · rintro ⟨f, hf, hclaims⟩
      exact ⟨f, List.mem_append_left _ hf, hclaims⟩
  have htransition := (clean_entry h he hmoment q.catalog.scopes).mp hclean
  rw [← hmoment] at htransition
  have hmatches := matches_of_clean h hserving.lawful he hold hopen hclaims htransition
  obtain ⟨hitems, hprevious⟩ := items_auditEvent q.catalog.scopes { log with
    totalLines := log.totalLines + 1
    eventsCount := log.eventsCount + 1 } (Entry.envelope_reread he)
  have hget : ∀ id, (auditEntry q.catalog.scopes log e).items.get? id = if id = e.itemId then
      some (transition q.catalog.scopes log.items e.reread ⟨e.kind, e.itemId, e.holder, e.moment.floor⟩
        (log.pending e.reread e.itemId)).1 else log.items.get? id := by
    intro id
    rw [auditEntry, hitems, Dict.get?_set]
    rfl
  constructor
  · exact hclean
  · intro previous hsome
    rw [auditEntry, hprevious] at hsome
    cases hsome
    rw [hmoment]
  · intro id hid
    by_cases hsame : id = e.itemId
    · subst hsame
      refine ⟨by rw [hget, if_pos rfl]; rfl, e.act old, ?_, ?_⟩
      · rw [get?_after_concat, if_pos rfl, hold, Option.map_some]
      · rw [Log.state, hget, if_pos rfl]
        exact hmatches
    · obtain ⟨hsome, item, hitem, hmatches'⟩ := h.tracked id ((hother id hsame).mp hid)
      refine ⟨by rw [hget, if_neg hsame]; exact hsome, item, ?_, ?_⟩
      · rw [get?_after_concat, if_neg hsame, hitem]
      · rw [Log.state, hget, if_neg hsame]
        exact hmatches'
  · intro id hid
    by_cases hsame : id = e.itemId
    · exact absurd (hsame ▸ hclaims) hid
    · rw [hget, if_neg hsame]
      exact h.untracked id fun hclaims' => hid ((hother id hsame).mpr hclaims')

/-! ### Runs -/

theorem Tracks.later {t' : DateTime} (h : Tracks catalog entries log t)
    (hle : t.instant ≤ t'.instant) :
  Tracks catalog entries log t'
  := by
  refine ⟨h.clean, ?_, h.tracked, h.untracked⟩
  intro previous hprevious
  apply (h.previous previous hprevious).trans
  have hmicro := t'.time.2.2.2
  rw [DateTime.instant, DateTime.instant] at hle
  rw [DateTime.instant_floor, DateTime.instant_floor]
  omega

theorem tracks_start (catalog : Catalog) (t : DateTime) :
  Tracks catalog [] {} t
  := by
  refine ⟨rfl, ?_, ?_, fun _ _ => rfl⟩
  · rintro previous ⟨⟩
  · rintro id ⟨f, hf, -⟩
    cases hf

/-- The calls that are still to come leave no violation exactly if there was none and they are
timely. -/
theorem clean_serve {calls : List (Call × DateTime)} (hserving : Serving q entries)
    (htracks : (auditEntries q.catalog.scopes entries).violations = [] →
      Tracks q.catalog entries (auditEntries q.catalog.scopes entries) t)
    (htyped : ∀ call ∈ calls, call.1.Typed) (hmoments : ∀ call ∈ calls, t.instant ≤ call.2.instant)
    (hsorted : calls.Pairwise fun a b => a.2.instant ≤ b.2.instant) :
  ∃ entries', Serving (q.serve calls) entries' ∧
    ((auditEntries q.catalog.scopes entries').violations = [] ↔
      (auditEntries q.catalog.scopes entries).violations = [] ∧ Punctual q calls)
  := by
  induction calls generalizing q entries t with
  | nil => exact ⟨entries, hserving, by simp [Punctual]⟩
  | cons head calls ih =>
    obtain ⟨call, moment⟩ := head
    have hle := hmoments (call, moment) (by simp)
    have hcall := htyped (call, moment) (by simp)
    obtain ⟨hfirst, hrest⟩ := List.pairwise_cons.mp hsorted
    have htyped' : ∀ c ∈ calls, c.1.Typed := fun c hc => htyped c (List.mem_cons_of_mem _ hc)
    have hidle : (q.call call moment).2 = q → ¬ q.Answers call moment →
        ∃ entries', Serving (q.serve ((call, moment) :: calls)) entries' ∧
          ((auditEntries q.catalog.scopes entries').violations = [] ↔
            (auditEntries q.catalog.scopes entries).violations = [] ∧
              Punctual q ((call, moment) :: calls)) := by
      intro hsame hanswers
      obtain ⟨entries', hserving', hiff⟩ := ih hserving (fun hclean => (htracks hclean).later hle)
        htyped' hfirst hrest
      refine ⟨entries', ?_, ?_⟩
      · rw [Queue.serve, List.foldl_cons]
        dsimp only
        rw [hsame]
        exact hserving'
      · rw [hiff, Punctual, hsame]
        simp [hanswers]
    cases hreply : (q.call call moment).1 with
    | error why =>
      apply hidle (unchanged_of_call hserving hcall hreply)
      rintro ⟨reply, hanswer, -⟩
      rw [hreply] at hanswer
      cases hanswer
    | ok reply =>
      obtain ⟨entry, hserves, hserving₁, hcatalog⟩ := serves_of_call hserving hcall hreply
      cases entry with
      | none =>
        have hidem := idempotent_of_serves hserves
        apply hidle (idle_of_call hserving hcall hreply hidem)
        rintro ⟨reply', hanswer, hnot⟩
        cases hreply.symm.trans hanswer
        rw [hidem] at hnot
        cases hnot
      | some e =>
        have he : e.Lawful := hserving₁.lawful e (by simp)
        have hanswers : q.Answers call moment := ⟨reply, hreply, (lawful_of_serves hserves).2⟩
        have hone : (auditEntries q.catalog.scopes (entries ++ [e])).violations = [] ↔
            (auditEntries q.catalog.scopes entries).violations = [] ∧ Timely q moment call := by
          constructor
          · intro hclean
            have hbefore := clean_of_concat hclean
            rw [auditEntries, List.foldl_concat] at hclean
            exact ⟨hbefore, (clean_of_serves hserving ((htracks hbefore).later hle) he
              hserves).mp hclean⟩
          · rintro ⟨hbefore, htimely⟩
            rw [auditEntries, List.foldl_concat]
            exact (clean_of_serves hserving ((htracks hbefore).later hle) he hserves).mpr htimely
        have htracks₁ : (auditEntries (q.call call moment).2.catalog.scopes
            (entries ++ [e])).violations = [] → Tracks (q.call call moment).2.catalog
              (entries ++ [e]) (auditEntries (q.call call moment).2.catalog.scopes
                (entries ++ [e])) moment := by
          rw [hcatalog]
          intro hclean
          have hbefore := (htracks (clean_of_concat hclean)).later hle
          rw [auditEntries, List.foldl_concat] at hclean ⊢
          exact hbefore.concat hserving he hserves hclean
        obtain ⟨entries', hserving', hiff⟩ := ih hserving₁ htracks₁ htyped' hfirst hrest
        refine ⟨entries', hserving', ?_⟩
        rw [hcatalog] at hiff
        rw [hiff, Option.toList_some, hone, Punctual]
        simp [hanswers, and_assoc]

/-- The auditor finds no violation in what the queue writes, from the first call on, exactly if
every call that is answered is timely. -/
theorem clean_iff_punctual {catalog : Catalog} {calls : List (Call × DateTime)}
    (h : Scheduled calls) :
  (∃ report, audit jsonLoads catalog.scopes (Queue.serve ⟨catalog, []⟩ calls).ledger = .ok report ∧
    report.violations = []) ↔ Punctual ⟨catalog, []⟩ calls
  := by
  obtain ⟨htyped, hsorted⟩ := h
  have hstart : ∃ t : DateTime, ∀ call ∈ calls, t.instant ≤ call.2.instant := by
    cases calls with
    | nil => exact ⟨⟨1, 1, 1, 0, 0, 0, 0, by decide, by decide⟩, by simp⟩
    | cons head calls =>
      refine ⟨head.2, ?_⟩
      intro call hcall
      rcases List.mem_cons.mp hcall with rfl | hcall
      · exact le_refl _
      · exact (List.pairwise_cons.mp hsorted).1 call hcall
  obtain ⟨t, ht⟩ := hstart
  obtain ⟨entries, hserving, hiff⟩ := clean_serve (serving_nil catalog)
    (fun _ => tracks_start catalog t) htyped ht hsorted
  rw [audit_of_serving hserving]
  constructor
  · rintro ⟨report, hreport, hclean⟩
    cases hreport
    exact (hiff.mp hclean).2
  · intro hpunctual
    exact ⟨_, rfl, hiff.mpr ⟨rfl, hpunctual⟩⟩

section Example

theorem isDate_pastNoon : IsDate 2026 7 30 := by
  decide

theorem time_pastNoon : 12 < 24 ∧ 0 < 60 ∧ 0 < 60 ∧ 500000 < 1000000 := by
  decide

def pastNoon : DateTime :=
  ⟨2026, 7, 30, 12, 0, 0, 500000, isDate_pastNoon, time_pastNoon⟩

def minuteLater : DateTime :=
  ⟨2026, 7, 30, 12, 1, 0, 500000, isDate_pastNoon, by decide⟩

def minuteBy (holder : Str) : Call :=
  .claim (.str (text "alpha")) (.str holder) (.int 60) (.str (text "local")) {}

def takeover : List (Call × DateTime) :=
  [(minuteBy (text "ann"), pastNoon), (minuteBy (text "bob"), minuteLater)]

/-- The calls are in order. -/
theorem punctual_of_takeover :
  (∃ report, audit jsonLoads lone.scopes (Queue.serve ⟨lone, []⟩ takeover).ledger = .ok report ∧
    report.violations = []) ↔ Punctual ⟨lone, []⟩ takeover
  := by
  apply clean_iff_punctual
  refine ⟨by rintro _ (_ | ⟨_, _ | ⟨_, ⟨⟩⟩⟩) <;> trivial, ?_⟩
  refine .cons ?_ (.cons (by simp) .nil)
  rintro _ (_ | ⟨_, ⟨⟩⟩)
  decide

/-- The auditor takes the takeover for a second claim of an item that is held. -/
theorem not_accepted :
  (audit jsonLoads lone.scopes (Queue.serve ⟨lone, []⟩ takeover).ledger).toOption.map
    (fun report => report.violations.map AuditViolation.fault) =
      some [.duplicateClaim (text "alpha") (text "ann") (text "2026-07-30T12:01:00Z")]
  := by
  decide +kernel

end Example

end Courier.WorkQueue
