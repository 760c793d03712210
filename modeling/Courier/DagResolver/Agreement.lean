import Courier.DagResolver.Readiness
import Courier.WorkQueue.Settled

/-!
# What the resolver and the queue hold to be finished

The resolver and the queue read the same ledger.  They agree exactly if no item was done from the start, no release is
a failure for one of them only, and an item that waits for something else than items also waits for an item that is
not done.
-/

namespace Courier.DagResolver

open Calendar Json Run Text WorkQueue

/-! ### The ledger as the resolver reads it -/

def noteEntry (completed : Finset Str) : Entry → Finset Str
  | .claim itemId .. => completed.erase itemId
  | .renew .. => completed
  | .release itemId _ result _ =>
      if completes (.str (fuse result)) then insert itemId completed else completed.erase itemId

def completedAfter (entries : List Entry) : Finset Str :=
  entries.foldl noteEntry ∅

theorem get_status (e : Entry) :
  get (texts e.event) (text "status") = .null
  := by
  cases e <;> rfl

variable {e : Entry}

theorem note_reread (h : e.Lawful) (completed : Finset Str) :
  note completed e.reread = noteEntry completed e
  := by
  have hne : e.itemId ≠ [] := by
    intro hnil
    have htoken : isToken e.itemId = true := by
      cases e with
      | claim | renew | release => exact h.1
    rw [hnil] at htoken
    cases htoken
  have hdone : ¬Json.null = .str (text "DONE") := by decide
  rw [Entry.reread_eq h]
  have hstatus := get_status e.fused
  cases e with
  | claim itemId holder host expires moment =>
    obtain ⟨hitem, -, -, -, -, htype⟩ := Entry.get_leaseEvent (text "CLAIM") itemId holder host
      (stamp expires) (stamp moment)
    have hkind : ¬Json.str (text "CLAIM") = .str (text "RELEASE") := by decide
    simp only [Entry.fused, Entry.event] at hstatus
    simp only [Entry.fused, Entry.event, note, hitem, hstatus, htype, hdone, hkind, if_false, if_true,
      noteEntry]
    exact if_neg hne
  | renew itemId holder host expires moment =>
    obtain ⟨hitem, -, -, -, -, htype⟩ := Entry.get_leaseEvent (text "RENEW") itemId holder host
      (stamp expires) (stamp moment)
    have hkind : ¬Json.str (text "RENEW") = .str (text "RELEASE") := by decide
    have hclaim : ¬Json.str (text "RENEW") = .str (text "CLAIM") := by decide
    simp only [Entry.fused, Entry.event] at hstatus
    simp only [Entry.fused, Entry.event, note, hitem, hstatus, htype, hdone, hkind, hclaim, if_false,
      noteEntry, ite_self]
  | release itemId holder result moment =>
    obtain ⟨hitem, -, hresult, -, htype⟩ := Entry.get_releaseEvent itemId holder (fuse result)
      (stamp moment)
    simp only [Entry.fused, Entry.event] at hstatus
    simp only [Entry.fused, Entry.event, note, hitem, hstatus, htype, hresult, hdone, if_false, if_true,
      noteEntry]
    exact if_neg hne

theorem noteLine_entry (h : e.Lawful) (completed : Finset Str) :
  noteLine jsonLoads completed (dumpsAscii (.obj (texts e.event))) = noteEntry completed e
  := by
  obtain ⟨s, hs⟩ := dumpsAscii_obj (texts e.event)
  rw [noteLine, strip_dumpsAscii_obj, Entry.loads_line h, if_neg (by simp [hs])]
  exact note_reread h completed

theorem loadCompleted_of_serving {q : Queue} {entries : List Entry} (h : Serving q entries) :
  loadCompletedFromLedger jsonLoads q.ledger = some (completedAfter entries)
  := by
  have hfold : ∀ (entries : List Entry) (completed : Finset Str), (∀ e ∈ entries, e.Lawful) →
      (entries.map fun e => Bytes.ofAscii (dumpsAscii (.obj (texts e.event)))).foldlM
        (fun completed line => line.decode.map (noteLine jsonLoads completed)) completed =
      some (entries.foldl noteEntry completed) := by
    intro entries
    induction entries with
    | nil => exact fun _ _ => rfl
    | cons e entries ih =>
      intro completed hlawful
      have he := hlawful e (List.mem_cons_self ..)
      rw [List.map_cons, List.foldlM_cons, Entry.decode_line he, Option.map_some,
        noteLine_entry he]
      exact ih _ fun f hf => hlawful f (List.mem_cons_of_mem _ hf)
  rw [loadCompletedFromLedger, splitLines_of_serving h]
  exact hfold entries ∅ h.lawful

/-! ### Completed and done -/

variable {catalog : Catalog} {entries : List Entry}

variable {id : Str}

theorem mem_noteEntry_of_ne {completed : Finset Str} (h : id ≠ e.itemId) :
  id ∈ noteEntry completed e ↔ id ∈ completed
  := by
  cases e with
  | claim itemId holder host expires moment =>
    have hne : id ≠ itemId := h
    simp [noteEntry, hne]
  | renew => rfl
  | release itemId holder result moment =>
    have hne : id ≠ itemId := h
    rw [noteEntry]
    split_ifs
    · simp [hne]
    · simp [hne]

variable {result : Str}

theorem mem_noteEntry_of_releases {completed : Finset Str}
    (h : e.Releases id result) :
  id ∈ noteEntry completed e ↔ completes (.str result) = true
  := by
  cases e with
  | claim | renew => exact h.elim
  | release itemId holder r moment =>
    obtain ⟨rfl, rfl⟩ := h
    rw [noteEntry]
    split_ifs with hcompletes
    · simp [hcompletes]
    · simp [hcompletes]

theorem not_mem_completedAfter (h : ∀ e ∈ entries, ∀ result, ¬e.Releases id result) :
  id ∉ completedAfter entries
  := by
  induction entries using List.reverseRecOn with
  | nil => simp [completedAfter]
  | append_singleton entries e ih =>
    have hbefore := ih fun f hf => h f (List.mem_append_left _ hf)
    have hnot := h e (List.mem_concat_self ..)
    rw [completedAfter, List.foldl_concat, ← completedAfter]
    by_cases hid : id = e.itemId
    · cases e with
      | claim itemId holder host expires moment =>
        have heq : id = itemId := hid
        simp [noteEntry, heq]
      | renew => exact hbefore
      | release itemId holder r moment => exact absurd ⟨hid.symm, rfl⟩ (hnot (fuse r))
    · rw [mem_noteEntry_of_ne hid]
      exact hbefore

theorem mem_completedAfter (h : WorkQueue.Accepted catalog entries) (he : e ∈ entries)
    (hreleases : e.Releases id result) :
  id ∈ completedAfter entries ↔ completes (.str result) = true
  := by
  induction h with
  | nil => cases he
  | @concat entries f old haccepted hold hfits ih =>
    rw [completedAfter, List.foldl_concat, ← completedAfter]
    rcases List.mem_append.mp he with he | he
    · have hne : id ≠ f.itemId := by
        rintro rfl
        exact haccepted.unreleased hold hfits e he result hreleases
      rw [mem_noteEntry_of_ne hne]
      exact ih he
    · obtain rfl := List.mem_singleton.mp he
      exact mem_noteEntry_of_releases hreleases

/-! ### Agreement -/

def onItems (items : Items) (item : Item) : Item :=
  { item with dependsOn := item.dependsOn.filter fun dep => (items.get? dep).isSome }

/-- The resolver derives as completed what the queue holds to be done, and reports as unblocked what depends on that
only. -/
def Agrees (q : Queue) : Prop :=
  ∃ items completed, q.replay = .ok items ∧
    loadCompletedFromLedger jsonLoads q.ledger = some completed ∧
    (∀ id, id ∈ completed ↔ ∃ item, items.get? id = some item ∧ item.status = .done) ∧
    ∀ id item, items.get? id = some item → ∀ moment donePrs draftPrs,
      (∀ pr ∈ draftPrs, items.get? pr = none) →
      (Unblocked (evaluateReadiness (loadItems q.catalog) completed) id ↔
        depsMet (onItems items item) (items.map (expire moment)) donePrs draftPrs = true)

def Released (ledger : Bytes) (id result : Str) : Prop :=
  ∃ events, readLedger jsonLoads ledger = .ok events ∧ ∃ event ∈ events,
    get event (text "type") = .str (text "RELEASE") ∧ get event (text "item_id") = .str id ∧
      get event (text "result") = .str result

def disputed (result : Str) : Bool :=
  startsWith (upper (strip result)) (text "BLOCK") || startsWith (upper (strip result)) (text "REJECT")

theorem disputed_iff (h : isResult result = true) :
  (completes (.str result) = true ↔ isFailedResult result = false) ↔ disputed result = false
  := by
  have hnorm : upper (strip result) ≠ [] := by
    simp only [isResult, Bool.and_eq_true, Bool.not_eq_true'] at h
    have hblank := blank_strip h.1.1
    intro hnil
    cases hstrip : strip result with
    | nil => simp [hstrip, blank] at hblank
    | cons c s =>
      rw [hstrip, upper, List.flatMap_cons, List.append_eq_nil_iff] at hnil
      have hpoint := hnil.1
      unfold upperPoint at hpoint
      split at hpoint
      · cases hpoint
      · split at hpoint <;> cases hpoint
  rw [completes, isFailedResult, disputed]
  generalize upper (strip result) = norm at hnorm ⊢
  obtain ⟨c, s, rfl⟩ := List.exists_cons_of_ne_nil hnorm
  simp only [startsWith, text]
  grind

theorem released_iff {q : Queue} (h : Serving q entries) :
  Released q.ledger id result ↔ ∃ e ∈ entries, e.Releases id result
  := by
  have hread : ∀ e ∈ entries, (get e.reread (text "type") = .str (text "RELEASE") ∧
      get e.reread (text "item_id") = .str id ∧ get e.reread (text "result") = .str result) ↔
        e.Releases id result := by
    intro e he
    rw [Entry.reread_eq (h.lawful e he)]
    cases e with
    | claim itemId holder host expires moment =>
      obtain ⟨-, -, -, -, -, htype⟩ := Entry.get_leaseEvent (text "CLAIM") itemId holder host
        (stamp expires) (stamp moment)
      have hkind : ¬Json.str (text "CLAIM") = .str (text "RELEASE") := by decide
      simp only [Entry.fused, Entry.event, htype, hkind, false_and, Entry.Releases]
    | renew itemId holder host expires moment =>
      obtain ⟨-, -, -, -, -, htype⟩ := Entry.get_leaseEvent (text "RENEW") itemId holder host
        (stamp expires) (stamp moment)
      have hkind : ¬Json.str (text "RENEW") = .str (text "RELEASE") := by decide
      simp only [Entry.fused, Entry.event, htype, hkind, false_and, Entry.Releases]
    | release itemId holder r moment =>
      obtain ⟨hitem, -, hresult, -, htype⟩ := Entry.get_releaseEvent itemId holder (fuse r)
        (stamp moment)
      simp only [Entry.fused, Entry.event, htype, hitem, hresult, true_and, Json.str.injEq,
        Entry.Releases]
  constructor
  · rintro ⟨events, hevents, event, hmem, hevent⟩
    obtain rfl := Except.ok.inj ((readLedger_of_serving h).symm.trans hevents)
    obtain ⟨e, he, rfl⟩ := List.mem_map.mp hmem
    exact ⟨e, he, (hread e he).mp hevent⟩
  · rintro ⟨e, he, hreleases⟩
    exact ⟨_, readLedger_of_serving h, e.reread, List.mem_map_of_mem he, (hread e he).mpr hreleases⟩

theorem finished_iff (h : WorkQueue.Accepted catalog entries) (hlawful : ∀ e ∈ entries, e.Lawful) :
  (∀ id, id ∈ completedAfter entries ↔
      ∃ item, (after catalog entries).get? id = some item ∧ item.status = .done) ↔
    (∀ id seed, catalog.items.get? id = some seed → seed.status ≠ .done) ∧
    ∀ e ∈ entries, ∀ id result, e.Releases id result → disputed result = false
  := by
  have hresult : ∀ e ∈ entries, ∀ id result, e.Releases id result → isResult result = true := by
    intro e he id result hreleases
    cases e with
    | claim | renew => exact hreleases.elim
    | release itemId holder r moment =>
      obtain ⟨-, rfl⟩ := hreleases
      exact isResult_fuse (hlawful _ he).2.2.1
  -- What is done of a released item is what its result says.
  have hdone : ∀ e ∈ entries, ∀ id result, e.Releases id result →
      ((∃ item, (after catalog entries).get? id = some item ∧ item.status = .done) ↔
        isFailedResult result = false) := by
    intro e he id result hreleases
    obtain ⟨item, hitem, hstatus⟩ := h.status_released he hreleases
    rw [← targetStatus_eq_done, ← hstatus]
    constructor
    · rintro ⟨other, hother, hother'⟩
      obtain rfl := Option.some.inj (hitem.symm.trans hother)
      exact hother'
    · exact fun hitem' => ⟨item, hitem, hitem'⟩
  constructor
  · intro hagree
    constructor
    · intro id seed hseed hstart
      have hnot : ∀ e ∈ entries, ∀ result, ¬e.Releases id result := fun e he result hreleases =>
        h.seed_of_released he hreleases hseed hstart
      obtain ⟨item, hitem, -⟩ := exists_after hseed entries
      have hstatus := (h.status_unreleased hnot hitem hseed).mpr hstart
      exact not_mem_completedAfter hnot ((hagree id).mpr ⟨item, hitem, hstatus⟩)
    · intro e he id result hreleases
      rw [← disputed_iff (hresult e he id result hreleases), ← mem_completedAfter h he hreleases,
        hagree, hdone e he id result hreleases]
  · rintro ⟨hseeds, hresults⟩ id
    by_cases hreleased : ∃ e ∈ entries, ∃ result, e.Releases id result
    · obtain ⟨e, he, result, hreleases⟩ := hreleased
      rw [hdone e he id result hreleases, mem_completedAfter h he hreleases]
      exact (disputed_iff (hresult e he id result hreleases)).mpr (hresults e he id result hreleases)
    · have hnot : ∀ e ∈ entries, ∀ result, ¬e.Releases id result := fun e he result hreleases =>
        hreleased ⟨e, he, result, hreleases⟩
      constructor
      · intro hin
        exact absurd hin (not_mem_completedAfter hnot)
      · rintro ⟨item, hitem, hstatus⟩
        obtain ⟨seed, hseed, -⟩ := exists_seed hitem
        exact absurd ((h.status_unreleased hnot hitem hseed).mp hstatus) (hseeds id seed hseed)

theorem depsMet_onItems {items : Items} {item : Item} {moment : DateTime} {donePrs draftPrs : List Str}
    (hdrafts : ∀ pr ∈ draftPrs, items.get? pr = none) :
  depsMet (onItems items item) (items.map (expire moment)) donePrs draftPrs = true ↔
    ∀ d ∈ item.dependsOn, ∀ other, items.get? d = some other → other.status = .done
  := by
  have hexpire : ∀ other : Item, (expire moment other).status = .done ↔ other.status = .done := by
    intro other
    unfold expire
    split_ifs with hexpired
    · simp [hexpired.1]
    · rfl
  simp only [depsMet, onItems, List.all_eq_true, List.mem_filter, and_imp, Dict.get?_map]
  apply forall₂_congr
  intro d hd
  cases hother : items.get? d with
  | none => simp
  | some other =>
    have hdraft : d ∉ draftPrs := by
      intro hin
      rw [hdrafts d hin] at hother
      cases hother
    simp [hdraft, hexpire]

theorem mem_loadItems {item : Item} (h : (after catalog entries).get? id = some item) :
  (id, item.dependsOn) ∈ (loadItems catalog).entries
  := by
  obtain ⟨seed, hseed, heq⟩ := exists_seed h
  rw [loadItems, ← Dict.get?_eq_some, Dict.get?_map, hseed, Option.map_some, heq]

theorem unblocked_agree_iff (h : WorkQueue.Accepted catalog entries)
    (hseeds : ∀ id seed, catalog.items.get? id = some seed → seed.status ≠ .done)
    (hagree : ∀ id, id ∈ completedAfter entries ↔
      ∃ item, (after catalog entries).get? id = some item ∧ item.status = .done) :
  (∀ id item, (after catalog entries).get? id = some item → ∀ moment donePrs draftPrs,
      (∀ pr ∈ draftPrs, (after catalog entries).get? pr = none) →
      (Unblocked (evaluateReadiness (loadItems catalog) (completedAfter entries)) id ↔
        depsMet (onItems (after catalog entries) item) ((after catalog entries).map (expire moment))
          donePrs draftPrs = true)) ↔
    ∀ id seed, catalog.items.get? id = some seed →
      (∃ dep ∈ seed.dependsOn, catalog.items.get? dep = none) →
      ∃ dep ∈ seed.dependsOn, (catalog.items.get? dep).isSome ∧
        ∀ result, (∃ e ∈ entries, e.Releases dep result) → isFailedResult result = true
  := by
  constructor
  · rintro hall id seed hseed ⟨dep, hdep, hnone⟩
    obtain ⟨item, hitem, hdepends⟩ := exists_after hseed entries
    by_contra hwaits
    have hdone : ∀ d ∈ item.dependsOn, ∀ other, (after catalog entries).get? d = some other →
        other.status = .done := by
      intro d hd other hother
      by_contra hopen
      rw [h.done_iff hseeds hother] at hopen
      obtain ⟨seed', hseed', -⟩ := exists_seed hother
      refine hwaits ⟨d, hdepends ▸ hd, by simp [hseed'], ?_⟩
      rintro result ⟨e, he, hreleases⟩
      by_contra hfailed
      exact hopen ⟨e, he, result, hreleases, by simpa using hfailed⟩
    have hready := hall id item hitem ⟨1, 1, 1, 0, 0, 0, 0, by decide, by decide⟩ [] [] (by simp)
    rw [depsMet_onItems (by simp), unblocked_iff (mem_loadItems hitem)] at hready
    obtain ⟨other, hother, -⟩ := (hagree dep).mp (hready.mpr hdone dep (hdepends ▸ hdep))
    obtain ⟨seed', hseed', -⟩ := exists_seed hother
    rw [hnone] at hseed'
    cases hseed'
  · intro hwaits id item hitem moment donePrs draftPrs hdrafts
    rw [unblocked_iff (mem_loadItems hitem), depsMet_onItems hdrafts]
    constructor
    · intro hcompleted d hd other hother
      obtain ⟨other', hother', hdone⟩ := (hagree d).mp (hcompleted d hd)
      obtain rfl := Option.some.inj (hother.symm.trans hother')
      exact hdone
    · intro hdone d hd
      obtain ⟨seed, hseed, hdepends⟩ := exists_seed hitem
      cases hknown : catalog.items.get? d with
      | some seed' =>
        obtain ⟨other, hother, -⟩ := exists_after hknown entries
        exact (hagree d).mpr ⟨other, hother, hdone d hd other hother⟩
      | none =>
        obtain ⟨dep, hdep, hsome, hfailed⟩ :=
          hwaits id seed hseed ⟨d, hdepends ▸ hd, hknown⟩
        obtain ⟨seed', hseed'⟩ := Option.isSome_iff_exists.mp hsome
        obtain ⟨other, hother, -⟩ := exists_after hseed' entries
        obtain ⟨e, he, result, hreleases, hresult⟩ :=
          (h.done_iff hseeds hother).mp (hdone dep (hdepends ▸ hdep) other hother)
        rw [hfailed result ⟨e, he, hreleases⟩] at hresult
        cases hresult

theorem agrees_iff {usage : Usage} (h : usage.Reached) :
  Agrees usage.queue ↔
    (∀ id seed, usage.queue.catalog.items.get? id = some seed → seed.status ≠ .done) ∧
    (∀ id result, Released usage.queue.ledger id result → disputed result = false) ∧
    ∀ id seed, usage.queue.catalog.items.get? id = some seed →
      (∃ dep ∈ seed.dependsOn, usage.queue.catalog.items.get? dep = none) →
      ∃ dep ∈ seed.dependsOn, (usage.queue.catalog.items.get? dep).isSome ∧
        ∀ result, Released usage.queue.ledger dep result → isFailedResult result = true
  := by
  obtain ⟨entries, hserving, haccepted⟩ := accepted_of_reached h
  generalize usage.queue = q at hserving haccepted ⊢
  have hfinished := finished_iff haccepted hserving.lawful
  have hreleased : (∀ id result, Released q.ledger id result → disputed result = false) ↔
      ∀ e ∈ entries, ∀ id result, e.Releases id result → disputed result = false := by
    simp only [released_iff hserving]
    constructor
    · exact fun hall e he id result hreleases => hall id result ⟨e, he, hreleases⟩
    · rintro hall id result ⟨e, he, hreleases⟩
      exact hall e he id result hreleases
  rw [← and_assoc, hreleased]
  simp only [released_iff hserving]
  constructor
  · rintro ⟨items, completed, hitems, hcompleted, hagree, hready⟩
    obtain rfl := Except.ok.inj ((replay_of_serving hserving).symm.trans hitems)
    obtain rfl := Option.some.inj ((loadCompleted_of_serving hserving).symm.trans hcompleted)
    have hfair := hfinished.mp hagree
    exact ⟨hfair, (unblocked_agree_iff haccepted hfair.1 hagree).mp hready⟩
  · rintro ⟨hfair, hwaits⟩
    have hagree := hfinished.mpr hfair
    exact ⟨_, _, replay_of_serving hserving, loadCompleted_of_serving hserving, hagree,
      (unblocked_agree_iff haccepted hfair.1 hagree).mpr hwaits⟩

section Example

def releasedWith (result : Str) : Usage :=
  ⟨((Queue.call ⟨lone, []⟩ claimAlpha lastDay).2.call
    (.release (.str (text "alpha")) (.str (text "ann")) (.str result)) lastDay).2, lastDay⟩

theorem reached_releasedWith (h : IsText result) :
  (releasedWith result).Reached
  := by
  apply Reachable.move (s := Usage.mk (Queue.call ⟨lone, []⟩ claimAlpha lastDay).2 lastDay)
  · apply Reachable.move (s := Usage.mk ⟨lone, []⟩ lastDay)
    · exact Reachable.start rfl
    · exact ⟨claimAlpha, lastDay, le_refl _, trivial, rfl⟩
  · exact ⟨.release (.str (text "alpha")) (.str (text "ann")) (.str result), lastDay, le_refl _, h, rfl⟩

/-- A release with a result that both take for a success. -/
theorem agrees_of_passed :
  Agrees (releasedWith (text "tests pass")).queue
  := by
  apply (agrees_iff (reached_releasedWith (by decide))).mpr
  have hseeds : ∀ item ∈ lone.items.values, item.status ≠ .done ∧ item.dependsOn = [] := by decide
  have hcatalog : (releasedWith (text "tests pass")).queue.catalog.items = lone.items := by
    decide +kernel
  have hresults : ((readLedger jsonLoads (releasedWith (text "tests pass")).queue.ledger).toOption.all
      fun events => events.all fun event => !disputed (get event (text "result")).asStr) = true := by
    decide +kernel
  rw [hcatalog]
  refine ⟨?_, ?_, ?_⟩
  · exact fun id seed hseed => (hseeds seed (Dict.mem_values.mpr ⟨id, hseed⟩)).1
  · rintro id result ⟨events, hevents, event, hmem, -, -, hresult⟩
    rw [hevents] at hresults
    have hall := List.all_eq_true.mp hresults event hmem
    rw [hresult] at hall
    simpa [asStr] using hall
  · rintro id seed hseed ⟨dep, hdep, -⟩
    rw [(hseeds seed (Dict.mem_values.mpr ⟨id, hseed⟩)).2] at hdep
    cases hdep

def statusOf (q : Queue) (id : Str) : Option Status :=
  q.replay.toOption.bind fun items => (items.get? id).map Item.status

theorem not_agrees :
  ((releasedWith (text "BLOCKED: review")).Reached ∧
    ¬Agrees (releasedWith (text "BLOCKED: review")).queue) ∧
  (releasedWith (text "REJECTED")).Reached ∧ ¬Agrees (releasedWith (text "REJECTED")).queue
  := by
  have hdiffer : ∀ q : Queue, (∃ completed, loadCompletedFromLedger jsonLoads q.ledger = some completed ∧
      (text "alpha" ∈ completed ↔ statusOf q (text "alpha") ≠ some .done)) → ¬Agrees q := by
    rintro q ⟨completed, hcompleted, hstatus⟩ ⟨items, completed', hitems, hcompleted', hagree, -⟩
    obtain rfl := Option.some.inj (hcompleted.symm.trans hcompleted')
    have hsame : statusOf q (text "alpha") = some .done ↔
        ∃ item, items.get? (text "alpha") = some item ∧ item.status = .done := by
      rw [statusOf, hitems]
      exact Option.map_eq_some_iff
    rw [hagree, ← hsame] at hstatus
    exact not_iff_self hstatus.symm
  refine ⟨⟨reached_releasedWith (by decide), hdiffer _ ⟨{text "alpha"}, ?_, ?_⟩⟩,
    reached_releasedWith (by decide), hdiffer _ ⟨∅, ?_, ?_⟩⟩
  all_goals decide +kernel

end Example

end Courier.DagResolver
