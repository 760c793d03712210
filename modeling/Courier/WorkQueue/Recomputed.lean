import Courier.Library.Run
import Courier.WorkQueue.Calls

/-!
# What the queue answers is what it replays

After an answered call the items that are recomputed from the catalog and the ledger are those
from before, but for the item of the call, which is as the answer says.  The items that are listed
as ready are those a claim of which is admitted.
-/

namespace Courier.WorkQueue

open Calendar Json Program Run Text

/-! ### Queues in use -/

structure Usage where
  queue : Queue
  moment : DateTime

def Usage.Start (usage : Usage) : Prop :=
  usage.queue.ledger = []

def Usage.Move (usage usage' : Usage) : Prop :=
  ∃ call moment, usage.moment.instant ≤ moment.instant ∧ call.Typed ∧
    usage' = ⟨(usage.queue.call call moment).2, moment⟩

def Usage.Reached : Usage → Prop :=
  Reachable Usage.Start Usage.Move

variable {q : Queue} {entries : List Entry} {moment : DateTime}

variable {call : Call}

theorem serving_call (h : Serving q entries) (htyped : call.Typed) :
  ∃ entries', Serving (q.call call moment).2 entries'
  := by
  cases hreply : (q.call call moment).1 with
  | ok reply =>
    obtain ⟨entry, -, hserving, -⟩ := serves_of_call h htyped hreply
    exact ⟨_, hserving⟩
  | error why =>
    rw [unchanged_of_call h htyped hreply]
    exact ⟨entries, h⟩

theorem serving_of_reached {usage : Usage} (h : usage.Reached) :
  ∃ entries, Serving usage.queue entries
  := by
  apply h.invariant (I := fun usage => ∃ entries, Serving usage.queue entries)
  · rintro ⟨⟨catalog, ledger⟩, moment⟩ rfl
    exact ⟨[], serving_nil catalog⟩
  · rintro usage _ ⟨entries, hserving⟩ ⟨call, moment, -, htyped, rfl⟩
    exact serving_call hserving htyped

/-! ### Answers -/

def Call.names : Call → Json
  | claim item .. | renew item .. | release item .. => item

def Reports (item : Item) : Call → Reply → Prop
  | _, .claimed view | _, .renewed view =>
      item.id = view.itemId ∧ item.status = view.status ∧
        item.lease = some ⟨view.holder, view.host, view.expiresAt⟩ ∧
        item.result = none ∧ item.releasedBy = none
  | .release _ holder _, .released view =>
      item.id = view.itemId ∧ item.status = view.status ∧ item.lease = none ∧
        item.result = some view.result ∧ ∃ name, holder = .str name ∧ item.releasedBy = some name
  | _, .released _ => False

/-- The answer is that nothing was left to do. -/
def Reply.idempotent : Reply → Bool
  | .claimed view | .renewed view => view.idempotent
  | .released view => view.idempotent

/-- The result of a release has no high surrogate that a low one directly follows. -/
def Call.Plain : Call → Prop
  | release _ _ (.str result) => hasPair (strip result) = false
  | _ => True

variable {item : Item} {n : Nat}

theorem held_fresh {expires : DateTime} {lease : Lease} (hn : 1 ≤ n)
    (hadd : moment.addSeconds n = some expires) (hstatus : item.status = .claimed)
    (hlease : item.lease = some lease) (hexpires : lease.expiresAt = stamp expires) :
  held item moment = true
  := by
  obtain ⟨hseconds, -⟩ := DateTime.seconds_addSeconds hadd
  have hmicro := moment.time.2.2.2
  simp only [held, hstatus, hlease, hexpires, parse_stamp, Option.any_some, decide_eq_true_eq]
  rw [DateTime.instant_floor, hseconds, DateTime.instant]
  omega

variable {ttl : Json}

theorem ttl_of_required (h : requireTtl ttl = .ok n) :
  1 ≤ n ∧ n ≤ MAX_TTL_SECONDS
  := by
  cases ttl with
  | int value =>
    rw [requireTtl] at h
    split_ifs at h with hbounds
    cases h
    omega
  | _ => cases h

theorem open_of_held (hproper : item.Proper) (hheld : held item moment = true) :
  item.result = none ∧ item.releasedBy = none
  := by
  have hstatus := (lease_of_held hheld).1
  rcases hproper.closed with hdone | hblocked | hopen
  · simp [hdone] at hstatus
  · simp [hblocked] at hstatus
  · exact hopen

theorem expire_of_held (h : held item moment = true) :
  expire moment item = item
  := by
  rw [expire, if_neg (by simp [h])]

theorem expire_of_unclaimed (h : item.status ≠ .claimed) :
  expire moment item = item
  := by
  rw [expire, if_neg (by simp [h])]

theorem get?_recomputed (catalog : Catalog) (entries : List Entry) (e : Entry) (id : Str) :
  ((after catalog (entries ++ [e])).map (expire moment)).get? id =
    if id = e.itemId then ((after catalog entries).get? id).map fun old => expire moment (e.act old)
    else ((after catalog entries).map (expire moment)).get? id
  := by
  rw [Dict.get?_map, get?_after_concat, Dict.get?_map]
  split_ifs
  · rw [Option.map_map]
    rfl
  · rfl

structure Recomputed (items later : Items) (call : Call) (reply : Reply) : Prop where
  /-- Only the item of the call may change. -/
  others : ∀ id, call.names ≠ .str id → later.get? id = items.get? id
  /-- The item of the call is as the answer says. -/
  reported : call.Plain → ∃ id item, call.names = .str id ∧ later.get? id = some item ∧
    Reports item call reply

variable {reply : Reply}

theorem recomputed_entry {catalog : Catalog} {e : Entry} {old : Item}
    (hnames : call.names = .str e.itemId) (hold : (after catalog entries).get? e.itemId = some old)
    (hreports : call.Plain → Reports (expire moment (e.act old)) call reply) :
  Recomputed ((after catalog entries).map (expire moment))
    ((after catalog (entries ++ (some e).toList)).map (expire moment)) call reply
  := by
  rw [Option.toList_some]
  constructor
  · intro id hid
    rw [get?_recomputed, if_neg]
    rintro rfl
    exact hid hnames
  · intro hplain
    refine ⟨e.itemId, _, hnames, ?_, hreports hplain⟩
    rw [get?_recomputed, if_pos rfl, hold, Option.map_some]

/-- An answer says what is recomputed. -/
theorem recomputed_of_serves {catalog : Catalog} (hlawful : ∀ e ∈ entries, e.Lawful)
    {entry : Option Entry}
    (h : Serves ((after catalog entries).map (expire moment)) moment call reply entry) :
  Recomputed ((after catalog entries).map (expire moment))
    ((after catalog (entries ++ entry.toList)).map (expire moment)) call reply
  := by
  have hkeyed := keyed_after catalog entries
  cases h with
  | @heldAlready _ _ _ _ _ current lease itemId hitem hholder hcurrent hheld hlease =>
    obtain ⟨rfl, -⟩ := token_of_required hitem
    have hold := get?_of_held hcurrent hheld
    have hopen := open_of_held (proper_after hlawful hold) hheld
    rw [Option.toList_none, List.append_nil]
    refine ⟨fun _ _ => rfl, fun _ => ⟨itemId, current, rfl, hcurrent, rfl, ?_, hlease, hopen⟩⟩
    exact (lease_of_held hheld).1
  | @claimed _ _ _ _ _ current itemId name machine n expires hitem hholder hhost httl hcurrent hheld
    hadmissible hadd =>
    obtain ⟨rfl, -⟩ := token_of_required hitem
    have hclaimable : claimableStatus current moment = true := by
      simp only [admissible, Bool.and_eq_true] at hadmissible
      exact hadmissible.1.1
    obtain ⟨old, hold, -, hstatus, rfl⟩ := open_of_claimable hlawful hcurrent hheld hclaimable
    apply recomputed_entry rfl hold
    intro _
    rw [Entry.act_claim hstatus, expire_of_held]
    · refine ⟨rfl, rfl, rfl, ?_⟩
      rcases (proper_after hlawful hold).closed with hdone | hblocked | hopen
      · simp [hdone] at hstatus
      · simp [hblocked] at hstatus
      · exact hopen
    · exact held_fresh (ttl_of_required httl).1 hadd rfl rfl rfl
  | @renewed _ _ _ current lease itemId n expires hitem hholder httl hcurrent hheld hlease hadd =>
    obtain ⟨rfl, -⟩ := token_of_required hitem
    have hold := get?_of_held hcurrent hheld
    have hstatus := (lease_of_held hheld).1
    have hopen := open_of_held (proper_after hlawful hold) hheld
    apply recomputed_entry rfl hold
    intro _
    rw [Entry.act_renew hstatus hlease, expire_of_held]
    · exact ⟨rfl, hstatus, rfl, hopen⟩
    · exact held_fresh (ttl_of_required httl).1 hadd hstatus rfl rfl
  | @releasedAlready _ _ _ current itemId name verdict hitem hholder hresult hcurrent hstatus hsame
    hby =>
    obtain ⟨rfl, -⟩ := token_of_required hitem
    obtain ⟨rfl, -⟩ := token_of_required hholder
    rw [Option.toList_none, List.append_nil]
    refine ⟨fun _ _ => rfl, fun _ => ⟨itemId, current, rfl, hcurrent, ?_⟩⟩
    rw [Dict.get?_map] at hcurrent
    obtain ⟨old, hold, rfl⟩ := Option.map_eq_some_iff.mp hcurrent
    have hunclaimed : old.status ≠ .claimed := by
      intro hclaimed
      unfold expire at hstatus
      split_ifs at hstatus <;> simp [hclaimed] at hstatus
    rw [expire_of_unclaimed hunclaimed] at hsame hby ⊢
    have hlease : old.lease = none := by
      have hleased := (proper_after hlawful hold).leased
      simpa [hunclaimed] using hleased
    exact ⟨hkeyed itemId old hold, rfl, hlease, hsame, name, rfl, hby⟩
  | @released _ _ _ current lease itemId verdict hitem hholder hresult hcurrent hheld hlease =>
    obtain ⟨rfl, -⟩ := token_of_required hitem
    obtain ⟨rfl, -⟩ := token_of_required hholder
    obtain ⟨s, rfl, rfl, -⟩ := result_of_required hresult
    have hold := get?_of_held hcurrent hheld
    have hstatus := (lease_of_held hheld).1
    apply recomputed_entry rfl hold
    intro hplain
    have hfuse : fuse (strip s) = strip s := fuse_eq_self hplain
    rw [Entry.act_release hstatus hlease, expire_of_unclaimed, hfuse, strip_strip]
    · exact ⟨hkeyed itemId current hold, rfl, rfl, rfl, _, rfl, rfl⟩
    · unfold targetStatus
      split_ifs <;> simp

/-! ### Ready items -/

theorem listReady_of_serving (h : Serving q entries) (prs : Prs) (moment : DateTime) :
  ∃ views, listReady prs moment q = .ok views q ∧ ∀ id, (∃ view ∈ views, view.id = id) ↔
    ∃ item, ((after q.catalog entries).map (expire moment)).get? id = some item ∧
      admissible prs moment ((after q.catalog entries).map (expire moment)) item = true
  := by
  have hwp : wp (listReady prs moment) (fun views q' => q' = q ∧ ∀ view, view ∈ views ↔
      ∃ id item, ((after q.catalog entries).map (expire moment)).get? id = some item ∧
        admissible prs moment ((after q.catalog entries).map (expire moment)) item = true ∧
        publicView item = view) (fun _ _ => False) q := by
    simp only [listReady, wp_bind, wp_effective h, wp_pure, true_and, List.mem_mergeSort,
      List.mem_map, List.mem_filter, Dict.mem_values]
    intro view
    constructor
    · rintro ⟨item, ⟨⟨id, hitem⟩, hadmissible⟩, hview⟩
      exact ⟨id, item, hitem, hadmissible, hview⟩
    · rintro ⟨id, item, hitem, hadmissible, hview⟩
      exact ⟨item, ⟨⟨id, hitem⟩, hadmissible⟩, hview⟩
  obtain ⟨views, q', heq, hq, hviews⟩ := returns_of_wp hwp
  rw [hq] at heq
  refine ⟨views, heq, ?_⟩
  have hkey : ∀ id item, ((after q.catalog entries).map (expire moment)).get? id = some item →
      item.id = id := by
    intro id item hitem
    rw [Dict.get?_map] at hitem
    obtain ⟨old, hold, rfl⟩ := Option.map_eq_some_iff.mp hitem
    rw [← keyed_after q.catalog entries id old hold]
    unfold expire
    split_ifs <;> rfl
  intro id
  constructor
  · rintro ⟨view, hview, rfl⟩
    obtain ⟨id, item, hitem, hadmissible, rfl⟩ := (hviews view).mp hview
    rw [publicView, hkey id item hitem]
    exact ⟨item, hitem, hadmissible⟩
  · rintro ⟨item, hitem, hadmissible⟩
    exact ⟨publicView item, (hviews _).mpr ⟨id, item, hitem, hadmissible, rfl⟩, hkey id item hitem⟩

theorem claim_answered (h : Serving q entries) {prs : Prs} {itemId name machine : Str}
    {expires : DateTime} (hholder : isToken name = true)
    (hhost : isToken machine = true) (httl : requireTtl ttl = .ok n)
    (hitem : ((after q.catalog entries).map (expire moment)).get? itemId = some item)
    (hadmissible : admissible prs moment ((after q.catalog entries).map (expire moment)) item = true)
    (hadd : moment.addSeconds n = some expires)
    (hfits : q.ledger.length + (ledgerLine
      (Entry.claim itemId name machine expires moment).event).length ≤ MAX_LEDGER_BYTES) :
  ∃ reply, (q.call (.claim (.str itemId) (.str name) ttl (.str machine) prs) moment).1 = .ok reply
  := by
  obtain ⟨old, hold, hsame⟩ := Option.map_eq_some_iff.mp ((Dict.get?_map _ _ _).symm.trans hitem)
  have htoken : isToken itemId = true := by
    rw [← keyed_after q.catalog entries itemId old hold]
    exact (proper_after h.lawful hold).token
  obtain ⟨hclaimable, hdeps, hblocked⟩ : claimableStatus item moment = true ∧
      depsMet item ((after q.catalog entries).map (expire moment)) prs.done prs.drafts = true ∧
      blockedByScope item (((after q.catalog entries).map (expire moment)).values.filter
        fun other => held other moment) (prs.openFiles.map norm) = false := by
    simpa [admissible, Bool.and_eq_true, and_assoc] using hadmissible
  have hunheld : held item moment = false := by
    by_contra hheld
    obtain ⟨hstatus, -⟩ := lease_of_held (eq_true_of_ne_false hheld)
    simp [claimableStatus, hstatus, hheld] at hclaimable
  have hwp : wp (perform moment (.claim (.str itemId) (.str name) ttl (.str machine) prs))
      (fun _ _ => True) (fun _ _ => False) q := by
    rw [perform, wp_map]
    simp only [claim, requireToken, htoken, hholder, hhost, if_true, wp_bind, wp_lift, httl,
      wp_effective h]
    refine ⟨?_, by simp⟩
    rintro _ ⟨⟩
    refine ⟨?_, by simp⟩
    rintro _ ⟨⟩
    refine ⟨?_, by simp⟩
    rintro _ ⟨⟩
    refine ⟨?_, by simp⟩
    rintro _ ⟨⟩
    have hadmit : (!claimableStatus item moment || !depsMet item
        ((after q.catalog entries).map (expire moment)) prs.done prs.drafts) = false := by
      simp [hclaimable, hdeps]
    have hroom := not_lt.mpr hfits
    rw [Entry.event] at hroom
    rw [hitem]
    dsimp only
    rw [if_neg (by simp [hunheld])]
    simp only [wp_bind, wp_refuseIf, hadmit, hblocked, Bool.false_eq_true, if_false, wp_lift,
      stampAfter, hadd]
    refine ⟨?_, by simp⟩
    rintro _ ⟨⟩
    simp only [append, wp_bind, wp_get]
    rw [if_neg hroom]
    exact ⟨fun _ _ => trivial, by simp [claimView, leaseOf]⟩
  obtain ⟨reply, q', heq, -⟩ := returns_of_wp hwp
  exact ⟨reply, by rw [Queue.call, heq]⟩

theorem claim_iff (h : Serving q entries) {prs : Prs} {id name machine : Str}
    (hholder : isToken name = true) (hhost : isToken machine = true) (httl : requireTtl ttl = .ok n)
    (hother : ∀ item lease, ((after q.catalog entries).map (expire moment)).get? id = some item →
      held item moment = true → item.lease = some lease → lease.holder ≠ name) :
  (∃ reply, (q.call (.claim (.str id) (.str name) ttl (.str machine) prs) moment).1 = .ok reply) ↔
    (∃ item, ((after q.catalog entries).map (expire moment)).get? id = some item ∧
      admissible prs moment ((after q.catalog entries).map (expire moment)) item = true) ∧
    ∃ expires, moment.addSeconds n = some expires ∧ q.ledger.length +
      (ledgerLine (Entry.claim id name machine expires moment).event).length ≤ MAX_LEDGER_BYTES
  := by
  constructor
  · rintro ⟨reply, hreply⟩
    have htyped : (Call.claim (.str id) (.str name) ttl (.str machine) prs).Typed := trivial
    obtain ⟨entry, hserves, hserving, hcatalog⟩ := serves_of_call h htyped hreply
    cases hserves with
    | heldAlready hitem hname hcurrent hheld hlease =>
      obtain ⟨hname, -⟩ := token_of_required hname
      obtain ⟨hitem, -⟩ := token_of_required hitem
      cases hname
      cases hitem
      exact absurd rfl (hother _ _ hcurrent hheld hlease)
    | @claimed _ _ _ _ _ current itemId name' machine' m expires hitem hname hmachine hm hcurrent hheld
      hadmissible hadd =>
      obtain ⟨hname, -⟩ := token_of_required hname
      obtain ⟨hitem, -⟩ := token_of_required hitem
      obtain ⟨hmachine, -⟩ := token_of_required hmachine
      cases hname
      cases hitem
      cases hmachine
      cases httl.symm.trans hm
      refine ⟨⟨current, hcurrent, hadmissible⟩, expires, hadd, ?_⟩
      have hsmall := hserving.small
      rw [hserving.ledger, Option.toList_some, List.flatMap_append, ← h.ledger] at hsmall
      simpa using hsmall
  · rintro ⟨⟨item, hitem, hadmissible⟩, expires, hadd, hfits⟩
    exact claim_answered h hholder hhost httl hitem hadmissible hadd hfits

/-! ### Answers and replay -/

/-- What the answers of the queue at a moment have to do with what is recomputed from the catalog
and the ledger. -/
structure Usage.Faithful (usage : Usage) (t : DateTime) : Prop where
  /-- What is recomputed after an answered call is what was, but for what the answer says. -/
  answered : ∀ call reply, call.Typed → (usage.queue.call call t).1 = .ok reply →
    ∃ items later, effective t usage.queue = .ok items usage.queue ∧
      effective t (usage.queue.call call t).2 = .ok later (usage.queue.call call t).2 ∧
      Recomputed items later call reply
  /-- A call that has nothing left to do appends nothing. -/
  idle : ∀ call reply, call.Typed → (usage.queue.call call t).1 = .ok reply →
    reply.idempotent = true → (usage.queue.call call t).2 = usage.queue
  /-- A refused call appends nothing. -/
  refused : ∀ call why, call.Typed → (usage.queue.call call t).1 = .error why →
    (usage.queue.call call t).2 = usage.queue
  /-- An item is listed as ready exactly if a claim by a holder that does not hold it is admitted:
  it is answered if the lease ends within the calendar and there is room in the ledger. -/
  ready : ∀ prs, ∃ items views, effective t usage.queue = .ok items usage.queue ∧
    listReady prs t usage.queue = .ok views usage.queue ∧
    ∀ id name machine ttl n, isToken name = true → isToken machine = true →
      requireTtl ttl = .ok n →
      (∀ item lease, items.get? id = some item → held item t = true → item.lease = some lease →
        lease.holder ≠ name) →
      ((∃ reply, (usage.queue.call (.claim (.str id) (.str name) ttl (.str machine) prs) t).1 =
          .ok reply) ↔
        (∃ view ∈ views, view.id = id) ∧
        ∃ expires, t.addSeconds n = some expires ∧ usage.queue.ledger.length +
          (ledgerLine (leaseEvent (text "CLAIM") id name machine (stamp expires) (stamp t))).length ≤
            MAX_LEDGER_BYTES)

theorem idle_of_call (h : Serving q entries) (htyped : call.Typed)
    (hreply : (q.call call moment).1 = .ok reply) (hidle : reply.idempotent = true) :
  (q.call call moment).2 = q
  := by
  obtain ⟨entry, hserves, hserving, hcatalog⟩ := serves_of_call h htyped hreply
  have hledger : entry = none → (q.call call moment).2 = q := by
    rintro rfl
    have hsame : (q.call call moment).2.ledger = q.ledger := by
      rw [hserving.ledger, h.ledger, Option.toList_none, List.append_nil]
    generalize (q.call call moment).2 = q' at *
    cases q
    cases q'
    cases hcatalog
    cases hsame
    rfl
  cases hserves with
  | heldAlready | releasedAlready => exact hledger rfl
  | claimed | renewed | released => cases hidle

/-- An answer says what is recomputed from the catalog and the ledger, a refused call appends nothing, and what is
listed as ready can be claimed. -/
theorem faithful_of_reached {usage : Usage} (h : usage.Reached) (t : DateTime) :
  usage.Faithful t
  := by
  obtain ⟨entries, hserving⟩ := serving_of_reached h
  constructor
  · intro call reply htyped hreply
    obtain ⟨entry, hserves, hserving', hcatalog⟩ := serves_of_call hserving htyped hreply
    refine ⟨_, _, effective_of_serving hserving, effective_of_serving hserving', ?_⟩
    rw [hcatalog]
    exact recomputed_of_serves hserving.lawful hserves
  · intro call reply htyped hreply hidle
    exact idle_of_call hserving htyped hreply hidle
  · intro call why htyped hwhy
    exact unchanged_of_call hserving htyped hwhy
  · intro prs
    obtain ⟨views, hviews, hready⟩ := listReady_of_serving hserving prs t
    refine ⟨_, views, effective_of_serving hserving, hviews, ?_⟩
    intro id name machine ttl n hname hmachine httl hother
    rw [hready, claim_iff hserving hname hmachine httl hother]
    rfl

section Example

def lastSecond : DateTime :=
  ⟨9999, 12, 31, 23, 59, 59, 0, by decide, by decide⟩

def lastDay : DateTime :=
  ⟨9999, 12, 31, 0, 0, 0, 0, by decide, by decide⟩

def claimAlpha : Call :=
  .claim (.str (text "alpha")) (.str (text "ann")) (.int 60) (.str (text "local")) {}

def releaseAlpha : Call :=
  .release (.str (text "alpha")) (.str (text "ann")) (.str [0xD83D, 0xDE00])

/-- The only item was claimed. -/
theorem faithful_of_claim :
  Usage.Faithful ⟨(Queue.call ⟨lone, []⟩ claimAlpha lastDay).2, lastDay⟩ lastSecond
  := by
  apply faithful_of_reached
  apply Reachable.move (s := Usage.mk ⟨lone, []⟩ lastDay)
  · exact Reachable.start rfl
  · exact ⟨claimAlpha, lastDay, le_refl _, trivial, rfl⟩

def readyIds (q : Queue) (t : DateTime) : List Str :=
  match listReady {} t q with
  | .ok views _ => views.map PublicView.id
  | .error _ _ => []

def refusal (q : Queue) (call : Call) (t : DateTime) : Option Exc :=
  match (q.call call t).1 with
  | .ok _ => none
  | .error why => some why

def reportedResult (q : Queue) (call : Call) (t : DateTime) : Option Str :=
  match (q.call call t).1 with
  | .ok (.released view) => some view.result
  | _ => none

def recomputedResult (q : Queue) (id : Str) (t : DateTime) : Option Str :=
  match effective t q with
  | .ok items _ => (items.get? id).bind Item.result
  | .error _ _ => none

/-- At the end of the calendar an item is listed as ready and its claim raises, and two surrogates
of a result are recomputed as one character. -/
theorem not_faithful :
  readyIds ⟨lone, []⟩ lastSecond = [text "alpha"] ∧
    refusal ⟨lone, []⟩ claimAlpha lastSecond = some .overflowError ∧
    reportedResult (Queue.call ⟨lone, []⟩ claimAlpha lastDay).2 releaseAlpha lastDay =
      some [0xD83D, 0xDE00] ∧
    recomputedResult ((Queue.call ⟨lone, []⟩ claimAlpha lastDay).2.call releaseAlpha lastDay).2
      (text "alpha") lastDay = some [0x1F600]
  := by
  decide +kernel

end Example

end Courier.WorkQueue
