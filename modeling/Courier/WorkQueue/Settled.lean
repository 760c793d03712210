import Courier.WorkQueue.Recomputed

/-!
# What becomes of an item

Whatever a queue in use has written to its ledger was accepted: when it was written, its item was
open to it.  So an item is released at most once, the result says what becomes of it, and nothing is
written of it from then on.
-/

namespace Courier.WorkQueue

open Calendar Json Run Text

/-! ### Accepted entries -/

def Entry.Fits (item : Item) : Entry → Prop
  | claim .. => item.status = .ready ∨ item.status = .claimed
  | renew _ holder .. | release _ holder .. =>
      item.status = .claimed ∧ ∃ lease, item.lease = some lease ∧ lease.holder = holder

inductive Accepted (catalog : Catalog) : List Entry → Prop
  | nil : Accepted catalog []
  | concat {entries : List Entry} {e : Entry} {old : Item} :
      Accepted catalog entries → (after catalog entries).get? e.itemId = some old → e.Fits old →
      Accepted catalog (entries ++ [e])

variable {e : Entry} {item : Item}

theorem Entry.Fits.open (h : e.Fits item) :
  item.status ≠ .done ∧ item.status ≠ .blocked
  := by
  cases e with
  | claim =>
    rcases h with hready | hclaimed
    · simp [hready]
    · simp [hclaimed]
  | renew | release => simp [h.1]

variable {catalog : Catalog} {entries : List Entry} {moment : DateTime}

theorem fits_of_serves (hlawful : ∀ e ∈ entries, e.Lawful) {call : Call} {reply : Reply}
    (h : Serves ((after catalog entries).map (expire moment)) moment call reply (some e)) :
  ∃ old, (after catalog entries).get? e.itemId = some old ∧ e.Fits old
  := by
  cases h with
  | claimed hitem hholder hhost httl hcurrent hheld hadmissible hadd =>
    simp only [admissible, Bool.and_eq_true] at hadmissible
    obtain ⟨old, hold, -, hstatus, -⟩ :=
      open_of_claimable hlawful hcurrent hheld hadmissible.1.1
    exact ⟨old, hold, hstatus⟩
  | renewed hitem hholder httl hcurrent hheld hlease hadd =>
    exact ⟨_, get?_of_held hcurrent hheld, (lease_of_held hheld).1, _, hlease, rfl⟩
  | released hitem hholder hresult hcurrent hheld hlease =>
    exact ⟨_, get?_of_held hcurrent hheld, (lease_of_held hheld).1, _, hlease, rfl⟩

theorem accepted_of_reached {usage : Usage} (h : usage.Reached) :
  ∃ entries, Serving usage.queue entries ∧ Accepted usage.queue.catalog entries
  := by
  apply h.invariant (I := fun usage =>
    ∃ entries, Serving usage.queue entries ∧ Accepted usage.queue.catalog entries)
  · rintro ⟨⟨catalog, ledger⟩, moment⟩ rfl
    exact ⟨[], serving_nil catalog, .nil⟩
  · rintro usage _ ⟨entries, hserving, haccepted⟩ ⟨call, moment, -, htyped, rfl⟩
    cases hreply : (usage.queue.call call moment).1 with
    | error why =>
      rw [unchanged_of_call hserving htyped hreply]
      exact ⟨entries, hserving, haccepted⟩
    | ok reply =>
      obtain ⟨entry, hserves, hserving', hcatalog⟩ := serves_of_call hserving htyped hreply
      refine ⟨_, hserving', ?_⟩
      rw [hcatalog]
      cases entry with
      | none => simpa using haccepted
      | some e =>
        obtain ⟨old, hold, hfits⟩ := fits_of_serves hserving.lawful hserves
        exact .concat haccepted hold hfits

/-! ### What entries keep -/

@[simp]
theorem Entry.act_dependsOn (e : Entry) (item : Item) :
  (e.act item).dependsOn = item.dependsOn
  := by
  unfold act
  split_ifs
  · rfl
  · cases e with
    | claim => rfl
    | renew | release =>
      simp only [applyTo]
      split
      · split <;> rfl
      · rfl

theorem dependsOn_after (catalog : Catalog) (entries : List Entry) (id : Str) :
  ((after catalog entries).get? id).map Item.dependsOn =
    (catalog.items.get? id).map Item.dependsOn
  := by
  induction entries using List.reverseRecOn with
  | nil => rfl
  | append_singleton entries e ih =>
    rw [get?_after_concat]
    split_ifs
    · rw [Option.map_map, ← ih]
      congr 1
      funext item
      exact e.act_dependsOn item
    · exact ih

variable {id : Str} {seed : Item}

theorem exists_after (h : catalog.items.get? id = some seed)
    (entries : List Entry) :
  ∃ item, (after catalog entries).get? id = some item ∧ item.dependsOn = seed.dependsOn
  := by
  have hdepends := dependsOn_after catalog entries id
  rw [h, Option.map_some] at hdepends
  obtain ⟨item, hitem, heq⟩ := Option.map_eq_some_iff.mp hdepends
  exact ⟨item, hitem, heq⟩

theorem exists_seed (h : (after catalog entries).get? id = some item) :
  ∃ seed, catalog.items.get? id = some seed ∧ seed.dependsOn = item.dependsOn
  := by
  have hdepends := dependsOn_after catalog entries id
  rw [h, Option.map_some] at hdepends
  obtain ⟨seed, hseed, heq⟩ := Option.map_eq_some_iff.mp hdepends.symm
  exact ⟨seed, hseed, heq⟩

/-! ### Releases -/

def Entry.Releases (id result : Str) : Entry → Prop
  | release itemId _ r _ => itemId = id ∧ fuse r = result
  | _ => False

variable {result : Str}

theorem Entry.Releases.itemId_eq (h : e.Releases id result) :
  e.itemId = id
  := by
  cases e with
  | claim | renew => exact h.elim
  | release => exact h.1

theorem Entry.Releases.status_act (h : e.Releases id result) (hfits : e.Fits item) :
  (e.act item).status = targetStatus result
  := by
  cases e with
  | claim | renew => exact h.elim
  | release itemId holder r moment =>
    obtain ⟨-, rfl⟩ := h
    obtain ⟨hstatus, lease, hlease, rfl⟩ := hfits
    rw [act_release hstatus hlease]

theorem Entry.Fits.status_act (h : e.Fits item)
    (hnot : ∀ result, ¬e.Releases e.itemId result) :
  (e.act item).status = .claimed
  := by
  cases e with
  | claim => rw [act_claim h]
  | renew =>
    obtain ⟨hstatus, lease, hlease, rfl⟩ := h
    rw [act_renew hstatus hlease]
    exact hstatus
  | release itemId holder r moment => exact absurd ⟨rfl, rfl⟩ (hnot (fuse r))

theorem targetStatus_closed (result : Str) :
  targetStatus result = .done ∨ targetStatus result = .blocked
  := by
  unfold targetStatus
  split_ifs
  · exact .inr rfl
  · exact .inl rfl

theorem targetStatus_eq_done :
  targetStatus result = .done ↔ isFailedResult result = false
  := by
  unfold targetStatus
  split_ifs with hfailed
  · simp [hfailed]
  · simpa using hfailed

theorem Entry.Fits.status_ne (h : e.Fits item) (result : Str) :
  item.status ≠ targetStatus result
  := by
  intro hstatus
  rcases targetStatus_closed result with hclosed | hclosed
  · exact h.open.1 (hstatus.trans hclosed)
  · exact h.open.2 (hstatus.trans hclosed)

theorem Accepted.status_released (h : Accepted catalog entries) (he : e ∈ entries)
    (hreleases : e.Releases id result) :
  ∃ item, (after catalog entries).get? id = some item ∧ item.status = targetStatus result
  := by
  induction h with
  | nil => cases he
  | @concat entries f old haccepted hold hfits ih =>
    rw [get?_after_concat]
    rcases List.mem_append.mp he with he | he
    · obtain ⟨item, hitem, hstatus⟩ := ih he
      have hne : id ≠ f.itemId := by
        rintro rfl
        obtain rfl := Option.some.inj (hold.symm.trans hitem)
        exact hfits.status_ne result hstatus
      rw [if_neg hne]
      exact ⟨item, hitem, hstatus⟩
    · obtain rfl := List.mem_singleton.mp he
      obtain rfl := hreleases.itemId_eq
      rw [if_pos rfl, hold, Option.map_some]
      exact ⟨_, rfl, hreleases.status_act hfits⟩

theorem Accepted.unreleased (h : Accepted catalog entries) {f : Entry} {old : Item}
    (hold : (after catalog entries).get? f.itemId = some old) (hfits : f.Fits old) :
  ∀ e ∈ entries, ∀ result, ¬e.Releases f.itemId result
  := by
  intro e he result hreleases
  obtain ⟨item, hitem, hstatus⟩ := h.status_released he hreleases
  obtain rfl := Option.some.inj (hold.symm.trans hitem)
  exact hfits.status_ne result hstatus

theorem Accepted.status_unreleased (h : Accepted catalog entries)
    (hnot : ∀ e ∈ entries, ∀ result, ¬e.Releases id result)
    (hitem : (after catalog entries).get? id = some item)
    (hseed : catalog.items.get? id = some seed) :
  item.status = .done ↔ seed.status = .done
  := by
  induction h generalizing item with
  | nil =>
    obtain rfl := Option.some.inj (hitem.symm.trans hseed)
    rfl
  | @concat entries f old haccepted hold hfits ih =>
    have hbefore : ∀ e ∈ entries, ∀ result, ¬e.Releases id result :=
      fun e he => hnot e (List.mem_append_left _ he)
    rw [get?_after_concat] at hitem
    split_ifs at hitem with hid
    · subst hid
      rw [hold, Option.map_some] at hitem
      obtain rfl := Option.some.inj hitem
      have hclaimed := hfits.status_act (hnot f (List.mem_concat_self ..))
      have hseedOpen : seed.status ≠ .done := fun hdone =>
        hfits.open.1 ((ih hbefore hold).mpr hdone)
      simp [hclaimed, hseedOpen]
    · exact ih hbefore hitem

theorem Accepted.seed_of_released (h : Accepted catalog entries) (he : e ∈ entries)
    (hreleases : e.Releases id result)
    (hseed : catalog.items.get? id = some seed) :
  seed.status ≠ .done
  := by
  induction h with
  | nil => cases he
  | @concat entries f old haccepted hold hfits ih =>
    rcases List.mem_append.mp he with he | he
    · exact ih he
    · obtain rfl := List.mem_singleton.mp he
      obtain rfl := hreleases.itemId_eq
      intro hdone
      exact hfits.open.1 ((haccepted.status_unreleased (haccepted.unreleased hold hfits) hold hseed).mpr
        hdone)

theorem Accepted.done_iff (h : Accepted catalog entries)
    (hseeds : ∀ id seed, catalog.items.get? id = some seed → seed.status ≠ .done)
    (hitem : (after catalog entries).get? id = some item) :
  item.status = .done ↔ ∃ e ∈ entries, ∃ result, e.Releases id result ∧ isFailedResult result = false
  := by
  constructor
  · intro hdone
    by_contra hnone
    by_cases hreleased : ∃ e ∈ entries, ∃ result, e.Releases id result
    · obtain ⟨e, he, result, hreleases⟩ := hreleased
      obtain ⟨other, hother, hstatus⟩ := h.status_released he hreleases
      obtain rfl := Option.some.inj (hitem.symm.trans hother)
      exact hnone ⟨e, he, result, hreleases, targetStatus_eq_done.mp (hstatus.symm.trans hdone)⟩
    · have hnot : ∀ e ∈ entries, ∀ result, ¬e.Releases id result := fun e he result hreleases =>
        hreleased ⟨e, he, result, hreleases⟩
      obtain ⟨seed, hseed, -⟩ := exists_seed hitem
      exact hseeds id seed hseed ((h.status_unreleased hnot hitem hseed).mp hdone)
  · rintro ⟨e, he, result, hreleases, hfailed⟩
    obtain ⟨other, hother, hstatus⟩ := h.status_released he hreleases
    obtain rfl := Option.some.inj (hitem.symm.trans hother)
    exact hstatus.trans (targetStatus_eq_done.mpr hfailed)

end Courier.WorkQueue
