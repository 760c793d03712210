import Courier.Library.Run
import Courier.WorkQueue.Calls

/-!
# Mutual exclusion of the work queue

At every moment at most one holder holds an item, as far as the answers of the queue say, and no
two items whose scopes overlap are held.  Leases expire by themselves; an item whose lease has
expired is held again only by a claim, which finds out whether it is free at its moment.
-/

namespace Courier.WorkQueue

open Calendar Json Program Run Text

/-! ### Runs -/

abbrev Grants := Str → Str → Option Str

/-- A queue in use: the moment of the last call, what the holders were granted, and who was the
last to claim each item. -/
structure Site where
  queue : Queue
  moment : DateTime
  grants : Grants
  claimant : Str → Option Str

/-- What a holder knows after an answer. -/
def Grants.note (grants : Grants) : Call → Reply → Grants
  | _, .claimed view | _, .renewed view => fun item holder =>
      if item = view.itemId ∧ holder = view.holder then some view.expiresAt else grants item holder
  | .release _ (.str releaser) _, .released view => fun item holder =>
      if item = view.itemId ∧ holder = releaser then none else grants item holder
  | _, _ => grants

def claimantAfter (claimant : Str → Option Str) : Reply → Str → Option Str
  | .claimed view => fun item =>
      if item = view.itemId ∧ view.idempotent = false then some view.holder else claimant item
  | _ => claimant

def Site.after (site : Site) (call : Call) (moment : DateTime) : Site :=
  match site.queue.call call moment with
  | (.ok reply, queue) =>
      ⟨queue, moment, site.grants.note call reply, claimantAfter site.claimant reply⟩
  | (.error _, queue) => ⟨queue, moment, site.grants, site.claimant⟩

def seedHolder (catalog : Catalog) (item : Str) : Option Lease :=
  (catalog.items.get? item).bind Item.lease

/-- A queue that was not used yet. -/
def Site.fresh (catalog : Catalog) (moment : DateTime) : Site where
  queue := ⟨catalog, []⟩
  moment := moment
  grants := fun item holder =>
    (seedHolder catalog item).bind fun lease =>
      if lease.holder = holder then some lease.expiresAt else none
  claimant := fun item => (seedHolder catalog item).map Lease.holder

def Exclusive (moment : DateTime) (items : Items) : Prop :=
  ∀ i j a b, i ≠ j → items.get? i = some a → items.get? j = some b → held a moment = true →
    held b moment = true → scopesOverlap a.filesScope b.filesScope = false

def Site.Start (site : Site) : Prop :=
  ∃ catalog moment, site = Site.fresh catalog moment ∧ Exclusive moment catalog.items

def Site.Move (site site' : Site) : Prop :=
  ∃ call moment, site.moment.instant ≤ moment.instant ∧ call.Typed ∧ site' = site.after call moment

def Site.Reached : Site → Prop :=
  Reachable Site.Start Site.Move

def Site.Holds (site : Site) (item holder : Str) (moment : DateTime) : Prop :=
  ∃ expiresAt expires, site.grants item holder = some expiresAt ∧ parse expiresAt = some expires ∧
    moment.instant < expires.instant

/-! ### The invariant -/

def Item.Leased (item : Item) (lease : Lease) : Prop :=
  item.status = .claimed ∧ item.lease = some lease

structure Site.Sound (site : Site) (entries : List Entry) : Prop where
  serving : Serving site.queue entries
  exclusive : Exclusive site.moment (WorkQueue.after site.queue.catalog entries)
  granted : ∀ item holder expiresAt expires, site.grants item holder = some expiresAt →
    parse expiresAt = some expires → site.moment.instant < expires.instant →
    ∃ it lease, (WorkQueue.after site.queue.catalog entries).get? item = some it ∧
      it.Leased lease ∧ lease.holder = holder ∧ lease.expiresAt = expiresAt
  leaseOf : ∀ id it lease, (WorkQueue.after site.queue.catalog entries).get? id = some it →
    it.lease = some lease → site.claimant id = some lease.holder
  releaser : ∀ id it holder, (WorkQueue.after site.queue.catalog entries).get? id = some it →
    it.releasedBy = some holder → site.claimant id = some holder

variable {site : Site} {entries : List Entry} {moment t : DateTime} {items : Items}

theorem held_earlier {item : Item} (hle : moment.instant ≤ t.instant) (h : held item t = true) :
  held item moment = true
  := by
  obtain ⟨hstatus, lease, hlease, expires, hparse, hlt⟩ := lease_of_held h
  simp only [held, hstatus, hlease, hparse, Option.any_some, decide_eq_true_eq]
  omega

theorem held_of_leased {item : Item} {lease : Lease} {expires : DateTime} (h : item.Leased lease)
    (hparse : parse lease.expiresAt = some expires) (hlt : moment.instant < expires.instant) :
  held item moment = true
  := by
  simp [held, h.1, h.2, hparse, hlt]

theorem Exclusive.later (h : Exclusive moment items) (hle : moment.instant ≤ t.instant) :
  Exclusive t items
  := fun i j a b hij ha hb hheld hheld' =>
    h i j a b hij ha hb (held_earlier hle hheld) (held_earlier hle hheld')

theorem Site.Sound.later (h : site.Sound entries) (hle : site.moment.instant ≤ t.instant) :
  { site with moment := t }.Sound entries
  := by
  refine ⟨h.serving, h.exclusive.later hle, ?_, h.leaseOf, h.releaser⟩
  intro item holder expiresAt expires hgrant hparse hlt
  exact h.granted item holder expiresAt expires hgrant hparse (lt_of_le_of_lt hle hlt)

theorem exclusive_expire (h : Exclusive t items) :
  Exclusive t (items.map (expire t))
  := by
  intro i j a b hij ha hb hheld hheld'
  exact h i j a b hij (get?_of_held ha hheld) (get?_of_held hb hheld') hheld hheld'

theorem exclusive_of_one {items' : Items} (h : Exclusive moment items) (id : Str) {a : Item}
    (hold : ∀ j, j ≠ id → items'.get? j = items.get? j) (ha : items'.get? id = some a)
    (hapart : ∀ j b, j ≠ id → items.get? j = some b → held a moment = true →
      held b moment = true → scopesOverlap a.filesScope b.filesScope = false) :
  Exclusive moment items'
  := by
  intro i j b c hij hb hc hheld hheld'
  by_cases hi : i = id
  · subst hi
    cases ha.symm.trans hb
    rw [hold j (Ne.symm hij)] at hc
    exact hapart j c (Ne.symm hij) hc hheld hheld'
  · rw [hold i hi] at hb
    by_cases hj : j = id
    · subst hj
      cases ha.symm.trans hc
      rw [scopesOverlap_comm]
      exact hapart i b hij hb hheld' hheld
    · rw [hold j hj] at hc
      exact h i j b c hij hb hc hheld hheld'

theorem Site.Sound.change (h : site.Sound entries) {e : Entry} {old : Item} {q : Queue}
    {grants : Grants} {claimant : Str → Option Str} (hserving : Serving q (entries ++ [e]))
    (hcatalog : q.catalog = site.queue.catalog)
    (hold : (WorkQueue.after site.queue.catalog entries).get? e.itemId = some old)
    (hapart : ∀ j b, j ≠ e.itemId →
      (WorkQueue.after site.queue.catalog entries).get? j = some b →
      held (e.act old) site.moment = true → held b site.moment = true →
      scopesOverlap (e.act old).filesScope b.filesScope = false)
    (hgrants : ∀ item, item ≠ e.itemId → grants item = site.grants item)
    (hgranted : ∀ holder expiresAt expires, grants e.itemId holder = some expiresAt →
      parse expiresAt = some expires → site.moment.instant < expires.instant →
      ∃ lease, (e.act old).Leased lease ∧ lease.holder = holder ∧ lease.expiresAt = expiresAt)
    (hclaimant : ∀ item, item ≠ e.itemId → claimant item = site.claimant item)
    (hlease : ∀ lease, (e.act old).lease = some lease → claimant e.itemId = some lease.holder)
    (hreleaser : ∀ holder, (e.act old).releasedBy = some holder →
      claimant e.itemId = some holder) :
  Site.Sound ⟨q, site.moment, grants, claimant⟩ (entries ++ [e])
  := by
  have hget : ∀ id, (WorkQueue.after q.catalog (entries ++ [e])).get? id =
      if id = e.itemId then some (e.act old)
      else (WorkQueue.after site.queue.catalog entries).get? id := by
    intro id
    rw [hcatalog, get?_after_concat]
    split_ifs with hid
    · rw [hid, hold, Option.map_some]
    · rfl
  refine ⟨hserving, ?_, ?_, ?_, ?_⟩
  · apply exclusive_of_one h.exclusive e.itemId
    · intro j hj
      rw [hget, if_neg hj]
    · rw [hget, if_pos rfl]
    · exact hapart
  · intro item holder expiresAt expires hgrant hparse hlt
    dsimp only at hgrant ⊢
    by_cases hitem : item = e.itemId
    · subst hitem
      obtain ⟨lease, hleased, hholder, hexpires⟩ := hgranted holder expiresAt expires hgrant hparse hlt
      exact ⟨_, lease, by rw [hget, if_pos rfl], hleased, hholder, hexpires⟩
    · rw [hgrants item hitem] at hgrant
      obtain ⟨it, lease, hit, hleased⟩ := h.granted item holder expiresAt expires hgrant hparse hlt
      exact ⟨it, lease, by rw [hget, if_neg hitem, hit], hleased⟩
  · intro id it lease hit hleased
    dsimp only at hit ⊢
    rw [hget] at hit
    split_ifs at hit with hid
    · cases hit
      rw [hid]
      exact hlease lease hleased
    · rw [hclaimant id hid]
      exact h.leaseOf id it lease hit hleased
  · intro id it holder hit hreleased
    dsimp only at hit ⊢
    rw [hget] at hit
    split_ifs at hit with hid
    · cases hit
      rw [hid]
      exact hreleaser holder hreleased
    · rw [hclaimant id hid]
      exact h.releaser id it holder hit hreleased

/-- Nothing was appended, and what a holder is newly granted is a lease that is there. -/
theorem Site.Sound.same (h : site.Sound entries) {q : Queue} {grants : Grants} (hserving : Serving q entries)
    (hcatalog : q.catalog = site.queue.catalog)
    (hgranted : ∀ item holder expiresAt, grants item holder = some expiresAt →
      site.grants item holder = some expiresAt ∨
        ∃ it lease, (WorkQueue.after site.queue.catalog entries).get? item = some it ∧
          it.Leased lease ∧ lease.holder = holder ∧ lease.expiresAt = expiresAt) :
  Site.Sound ⟨q, site.moment, grants, site.claimant⟩ entries
  := by
  refine ⟨hserving, ?_, ?_, ?_, ?_⟩ <;> simp only [hcatalog]
  · exact h.exclusive
  · intro item holder expiresAt expires hgrant hparse hlt
    rcases hgranted item holder expiresAt hgrant with hbefore | hleased
    · exact h.granted item holder expiresAt expires hbefore hparse hlt
    · exact hleased
  · exact h.leaseOf
  · exact h.releaser

/-- No other holder has a grant for an item that is leased. -/
theorem Site.Sound.holder_of_grant (h : site.Sound entries) {item holder expiresAt : Str} {expires : DateTime}
    {it : Item} {lease : Lease} (hgrant : site.grants item holder = some expiresAt)
    (hparse : parse expiresAt = some expires) (hlt : site.moment.instant < expires.instant)
    (hold : (WorkQueue.after site.queue.catalog entries).get? item = some it) (hlease : it.lease = some lease) :
  holder = lease.holder
  := by
  obtain ⟨it', lease', hit, hleased, hholder, -⟩ := h.granted item holder expiresAt expires hgrant hparse hlt
  cases hit.symm.trans hold
  cases hleased.2.symm.trans hlease
  exact hholder.symm

/-- What an answered call leaves is known again. -/
theorem Site.Sound.answered (h : site.Sound entries) {call : Call} {reply : Reply}
    {entry : Option Entry} {q : Queue}
    (hserves : Serves ((WorkQueue.after site.queue.catalog entries).map (expire site.moment))
      site.moment call reply entry)
    (hserving : Serving q (entries ++ entry.toList)) (hcatalog : q.catalog = site.queue.catalog) :
  Site.Sound ⟨q, site.moment, site.grants.note call reply, claimantAfter site.claimant reply⟩
    (entries ++ entry.toList)
  := by
  have hkeyed := keyed_after site.queue.catalog entries
  have hlawful := h.serving.lawful
  cases hserves with
  | @heldAlready _ _ _ _ _ current lease itemId hitem hholder hcurrent hheld hlease =>
    have hcurrent := get?_of_held hcurrent hheld
    rw [Option.toList_none, List.append_nil] at hserving ⊢
    simp only [claimantAfter, Bool.true_eq_false, and_false, if_false]
    apply h.same hserving hcatalog
    intro item holder expiresAt hgrant
    simp only [Grants.note] at hgrant
    split_ifs at hgrant with hsame
    · obtain ⟨rfl, rfl⟩ := hsame
      cases hgrant
      refine .inr ⟨current, lease, ?_, ⟨(lease_of_held hheld).1, hlease⟩, rfl, rfl⟩
      rw [hkeyed itemId current hcurrent, hcurrent]
    · exact .inl hgrant
  | @claimed _ _ _ _ _ current itemId name machine n expires hitem hholder hhost httl hcurrent hheld
    hadmissible hadd =>
    have hclaimable : claimableStatus current site.moment = true := by
      simp only [admissible, Bool.and_eq_true] at hadmissible
      exact hadmissible.1.1
    obtain ⟨old, hold, hunheld, hstatus, rfl⟩ := open_of_claimable hlawful hcurrent hheld hclaimable
    have hid : old.id = itemId := hkeyed itemId old hold
    have hact := Entry.act_claim hstatus itemId name machine expires site.moment
    apply h.change hserving hcatalog hold
    · intro j b hj hb _ hbheld
      have hdisjoint := apart_of_admissible hkeyed hcurrent hadmissible hj hb hbheld
      rwa [Entry.act_filesScope]
    · intro item hne
      simp [Grants.note, hid, show item ≠ itemId from hne]
    · intro holder expiresAt expires' hgrant hparse hlt
      simp only [Grants.note, hid, Entry.itemId, true_and] at hgrant
      rw [hact]
      split_ifs at hgrant with hsame
      · cases hgrant
        exact ⟨_, ⟨rfl, rfl⟩, hsame.symm, rfl⟩
      · obtain ⟨it, lease, hit, hleased, -, rfl⟩ :=
          h.granted itemId holder expiresAt expires' hgrant hparse hlt
        cases hit.symm.trans hold
        rw [held_of_leased hleased hparse hlt] at hunheld
        cases hunheld
    · intro item hne
      simp [claimantAfter, hid, show item ≠ itemId from hne]
    · intro lease hlease
      rw [hact] at hlease
      cases hlease
      simp [claimantAfter, hid, Entry.itemId]
    · intro holder hreleased
      rw [hact] at hreleased
      rcases (proper_after hlawful hold).closed with hdone | hblocked | ⟨-, hnone⟩
      · simp [hdone] at hstatus
      · simp [hblocked] at hstatus
      · simp [hnone] at hreleased
  | @renewed _ _ _ current lease itemId n expires hitem hholder httl hcurrent hheld hlease hadd =>
    have hold := get?_of_held hcurrent hheld
    have hid : current.id = itemId := hkeyed itemId current hold
    have hstatus := (lease_of_held hheld).1
    have hact := Entry.act_renew hstatus hlease itemId lease.host expires site.moment
    apply h.change hserving hcatalog hold
    · intro j b hj hb _ hbheld
      rw [Entry.act_filesScope]
      exact h.exclusive itemId j current b (Ne.symm hj) hold hb hheld hbheld
    · intro item hne
      simp [Grants.note, hid, show item ≠ itemId from hne]
    · intro holder expiresAt expires' hgrant hparse hlt
      simp only [Grants.note, hid, Entry.itemId, true_and] at hgrant
      rw [hact]
      split_ifs at hgrant with hsame
      · cases hgrant
        exact ⟨_, ⟨hstatus, rfl⟩, hsame.symm, rfl⟩
      · exact absurd (h.holder_of_grant hgrant hparse hlt hold hlease) hsame
    · intro item hne
      rfl
    · intro lease' hlease'
      rw [hact] at hlease'
      cases hlease'
      exact h.leaseOf itemId current lease hold hlease
    · intro holder hreleased
      rw [hact] at hreleased
      exact h.releaser itemId current holder hold hreleased
  | @releasedAlready _ _ _ current itemId name verdict hitem hholder hresult hcurrent hstatus hsame
    hby =>
    rw [Option.toList_none, List.append_nil] at hserving ⊢
    obtain ⟨rfl, -⟩ := token_of_required hholder
    apply h.same hserving hcatalog
    intro item holder expiresAt hgrant
    simp only [Grants.note] at hgrant
    split_ifs at hgrant
    exact .inl hgrant
  | @released _ _ _ current lease itemId verdict hitem hholder hresult hcurrent hheld hlease =>
    have hold := get?_of_held hcurrent hheld
    have hstatus := (lease_of_held hheld).1
    obtain ⟨rfl, -⟩ := token_of_required hholder
    have hact := Entry.act_release hstatus hlease itemId verdict site.moment
    have hclaimant := h.leaseOf itemId current lease hold hlease
    apply h.change hserving hcatalog hold
    · intro j b hj hb hheld'
      rw [hact] at hheld'
      simp [held] at hheld'
    · intro item hne
      simp [Grants.note, show item ≠ itemId from hne]
    · intro holder expiresAt expires' hgrant hparse hlt
      simp only [Grants.note, Entry.itemId, true_and] at hgrant
      split_ifs at hgrant with hsame
      exact absurd (h.holder_of_grant hgrant hparse hlt hold hlease) hsame
    · intro item hne
      rfl
    · intro lease' hlease'
      rw [hact] at hlease'
      cases hlease'
    · intro holder hreleased
      rw [hact] at hreleased
      cases hreleased
      exact hclaimant

/-! ### Runs keep what is known -/

theorem sound_fresh {catalog : Catalog} (h : Exclusive moment catalog.items) :
  (Site.fresh catalog moment).Sound []
  := by
  refine ⟨serving_nil catalog, h, ?_, ?_, ?_⟩
  · intro item holder expiresAt expires hgrant hparse hlt
    simp only [Site.fresh, Option.bind_eq_some_iff, seedHolder] at hgrant
    obtain ⟨lease, ⟨it, hit, hlease⟩, hgrant⟩ := hgrant
    split_ifs at hgrant with hholder
    cases hgrant
    obtain ⟨-, hseed⟩ := catalog.seeds item it hit
    exact ⟨it, lease, hit, ⟨hseed.leased.mpr (by simp [hlease]), hlease⟩, hholder, rfl⟩
  · intro id it lease hit hlease
    have hit : catalog.items.get? id = some it := hit
    simp [Site.fresh, seedHolder, hit, hlease]
  · intro id it holder hit hreleased
    have hit : catalog.items.get? id = some it := hit
    rw [(catalog.seeds id it hit).2.releasedBy] at hreleased
    cases hreleased

theorem sound_of_reached (h : site.Reached) :
  ∃ entries, site.Sound entries
  := by
  apply h.invariant (I := fun site => ∃ entries, site.Sound entries)
  · rintro _ ⟨catalog, moment, rfl, hexclusive⟩
    exact ⟨[], sound_fresh hexclusive⟩
  · rintro site _ ⟨entries, hsound⟩ ⟨call, moment, hle, htyped, rfl⟩
    have hlater := hsound.later hle
    unfold Site.after
    split
    · next reply q heq =>
      have hanswer : (site.queue.call call moment).1 = .ok reply := by rw [heq]
      obtain ⟨entry, hserves, hserving, hcatalog⟩ := serves_of_call hsound.serving htyped hanswer
      rw [heq] at hserving hcatalog
      exact ⟨_, hlater.answered hserves hserving hcatalog⟩
    · next why q heq =>
      have hanswer : (site.queue.call call moment).1 = .error why := by rw [heq]
      have hsame := unchanged_of_call hsound.serving htyped hanswer
      rw [heq] at hsame
      dsimp only at hsame
      rw [hsame]
      exact ⟨entries, hlater⟩

/-! ### Mutual exclusion -/

structure Site.Guarded (site : Site) : Prop where
  /-- No two items that are held overlap. -/
  apart : ∀ t : DateTime, site.moment.instant ≤ t.instant →
    ∃ items, effective t site.queue = .ok items site.queue ∧ Exclusive t items
  /-- At most one holder holds an item, and the queue knows it as the holder. -/
  single : ∀ t : DateTime, site.moment.instant ≤ t.instant → ∀ item holder,
    site.Holds item holder t →
      (∃ items it lease, effective t site.queue = .ok items site.queue ∧
        items.get? item = some it ∧ held it t = true ∧ it.lease = some lease ∧
        lease.holder = holder) ∧
      ∀ other, site.Holds item other t → other = holder
  /-- Who is not the last to have claimed an item neither renews nor releases it. -/
  outlived : ∀ t : DateTime, site.moment.instant ≤ t.instant → ∀ item holder claimant ttl result,
    site.claimant item = some claimant → holder ≠ claimant →
    (∃ why, (site.queue.call (.renew (.str item) (.str holder) ttl) t).1 = .error why) ∧
      ((Call.release (.str item) (.str holder) result).Typed →
        ∃ why, (site.queue.call (.release (.str item) (.str holder) result) t).1 = .error why)

theorem Site.Sound.claimant_of_answer (h : site.Sound entries) {call : Call} {reply : Reply}
    {item holder : Str}
    (hcall : (∃ ttl, call = .renew (.str item) (.str holder) ttl) ∨
      ∃ result, call = .release (.str item) (.str holder) result)
    (htyped : call.Typed) (hreply : (site.queue.call call moment).1 = .ok reply) :
  site.claimant item = some holder
  := by
  obtain ⟨entry, hserves, -⟩ := serves_of_call h.serving htyped hreply
  cases hserves with
  | heldAlready | claimed => simp at hcall
  | @renewed _ _ _ current lease itemId _ _ hitem hholder _ hcurrent hheld hlease =>
    obtain ⟨rfl, -⟩ := token_of_required hitem
    obtain ⟨rfl, -⟩ := token_of_required hholder
    obtain ⟨_, hcall⟩ | ⟨_, hcall⟩ := hcall
    · cases hcall
      exact h.leaseOf _ current lease (get?_of_held hcurrent hheld) hlease
    · cases hcall
  | @releasedAlready _ _ _ current itemId name _ hitem hholder _ hcurrent hstatus _ hby =>
    obtain ⟨rfl, -⟩ := token_of_required hitem
    obtain ⟨rfl, -⟩ := token_of_required hholder
    obtain ⟨_, hcall⟩ | ⟨_, hcall⟩ := hcall
    · cases hcall
    · cases hcall
      rw [Dict.get?_map] at hcurrent
      obtain ⟨old, hold, rfl⟩ := Option.map_eq_some_iff.mp hcurrent
      apply h.releaser _ old _ hold
      unfold expire at hby
      split_ifs at hby <;> exact hby
  | @released _ _ _ current lease itemId _ hitem hholder _ hcurrent hheld hlease =>
    obtain ⟨rfl, -⟩ := token_of_required hitem
    obtain ⟨rfl, -⟩ := token_of_required hholder
    obtain ⟨_, hcall⟩ | ⟨_, hcall⟩ := hcall
    · cases hcall
    · cases hcall
      exact h.leaseOf _ current lease (get?_of_held hcurrent hheld) hlease

theorem Site.Sound.known (h : site.Sound entries) (hle : site.moment.instant ≤ t.instant)
    {item holder : Str} (hholds : site.Holds item holder t) :
  ∃ it lease, ((WorkQueue.after site.queue.catalog entries).map (expire t)).get? item = some it ∧
    held it t = true ∧ it.lease = some lease ∧ lease.holder = holder
  := by
  obtain ⟨expiresAt, expires, hgrant, hparse, hlt⟩ := hholds
  obtain ⟨it, lease, hit, hleased, hholder, rfl⟩ :=
    h.granted item holder expiresAt expires hgrant hparse (lt_of_le_of_lt hle hlt)
  have hheld := held_of_leased hleased hparse hlt
  refine ⟨it, lease, ?_, hheld, hleased.2, hholder⟩
  rw [Dict.get?_map, hit, Option.map_some, expire, if_neg (by simp [hheld])]

/-- At nondecreasing moments no two held items overlap, an item has at most one holder, and who was outlived by a claim
of another neither renews nor releases it. -/
theorem guarded_of_reached (h : site.Reached) :
  site.Guarded
  := by
  obtain ⟨entries, hsound⟩ := sound_of_reached h
  constructor
  · intro t hle
    exact ⟨_, effective_of_serving hsound.serving, exclusive_expire (hsound.exclusive.later hle)⟩
  · intro t hle item holder hholds
    obtain ⟨it, lease, hit, hheld, hlease, hholder⟩ := hsound.known hle hholds
    refine ⟨⟨_, it, lease, effective_of_serving hsound.serving, hit, hheld, hlease, hholder⟩, ?_⟩
    intro other hother
    obtain ⟨it', lease', hit', -, hlease', hholder'⟩ := hsound.known hle hother
    cases hit'.symm.trans hit
    cases hlease'.symm.trans hlease
    exact hholder'.symm.trans hholder
  · intro t hle item holder claimant ttl result hclaimant hne
    have hrefused : ∀ call : Call, call.Typed →
        ((∃ ttl, call = .renew (.str item) (.str holder) ttl) ∨
          ∃ result, call = .release (.str item) (.str holder) result) →
        ∃ why, (site.queue.call call t).1 = .error why := by
      intro call htyped hcall
      cases hanswer : (site.queue.call call t).1 with
      | error why => exact ⟨why, rfl⟩
      | ok reply =>
        have hsame := hsound.claimant_of_answer hcall htyped hanswer
        exact absurd (Option.some.inj (hsame.symm.trans hclaimant)) hne
    exact ⟨hrefused _ trivial (.inl ⟨ttl, rfl⟩), fun htyped => hrefused _ htyped (.inr ⟨result, rfl⟩)⟩

section Example

/-- Two items that share a file. -/
def sharing : Catalog :=
  .unclaimed [(text "alpha", [text "core/queue.py"]), (text "beta", [text "core/"])] (by decide)
    (by decide) (by decide)

def noon : DateTime :=
  ⟨2026, 7, 30, 12, 0, 0, 500000, by decide, by decide⟩

def claimFor (item holder : Str) : Call :=
  .claim (.str item) (.str holder) (.int 60) (.str (text "local")) {}

/-- One of the two items was claimed. -/
theorem guarded_of_claim :
  ((Site.fresh sharing noon).after (claimFor (text "alpha") (text "ann")) noon).Guarded
  := by
  apply guarded_of_reached
  apply Reachable.move (s := Site.fresh sharing noon)
  · apply Reachable.start
    refine ⟨sharing, noon, rfl, ?_⟩
    intro i j a b _ ha _ hheld
    have hready : ∀ v ∈ sharing.items.values, held v noon = false := by decide
    rw [hready a (Dict.mem_values.mpr ⟨i, ha⟩)] at hheld
    cases hheld
  · exact ⟨claimFor (text "alpha") (text "ann"), noon, le_refl _, trivial, rfl⟩

example : ((Site.fresh sharing noon).after (claimFor (text "alpha") (text "ann")) noon).grants
    (text "alpha") (text "ann") = some (text "2026-07-30T12:01:00Z") := by
  decide +kernel

end Example

end Courier.WorkQueue
