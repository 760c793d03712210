import Courier.Library.Denoted
import Courier.WorkQueue

/-!
# The ledger that the queue writes

What the queue appends is read back as it was written, but for the surrogate pairs of a result,
which are fused.  So the ledger of a queue is a list of entries, and its replay changes one item
for each of them.
-/

namespace Courier.WorkQueue

open Calendar Json Program Text

/-! ### Entries -/

/-- What the queue appends to the ledger, at a moment. -/
inductive Entry where
  | claim (itemId holder host : Str) (expires moment : DateTime)
  | renew (itemId holder host : Str) (expires moment : DateTime)
  | release (itemId holder result : Str) (moment : DateTime)

namespace Entry

def event : Entry → List (Str × Str)
  | claim itemId holder host expires moment =>
      leaseEvent (text "CLAIM") itemId holder host (stamp expires) (stamp moment)
  | renew itemId holder host expires moment =>
      leaseEvent (text "RENEW") itemId holder host (stamp expires) (stamp moment)
  | release itemId holder result moment => releaseEvent itemId holder result (stamp moment)

def reread (e : Entry) : Members :=
  texts (fuseAll e.event)

def itemId : Entry → Str
  | claim itemId .. | renew itemId .. | release itemId .. => itemId

def moment : Entry → DateTime
  | claim _ _ _ _ moment | renew _ _ _ _ moment | release _ _ _ moment => moment

def Lawful : Entry → Prop
  | claim itemId holder host _ _ | renew itemId holder host _ _ =>
      isToken itemId = true ∧ isToken holder = true ∧ isToken host = true
  | release itemId holder result _ =>
      isToken itemId = true ∧ isToken holder = true ∧ isResult result = true ∧ IsText result

/-- What an entry makes of an item that is neither done nor blocked. -/
def applyTo (item : Item) : Entry → Item
  | claim _ holder host expires _ =>
      { item with status := .claimed, lease := some ⟨holder, host, stamp expires⟩ }
  | renew _ holder _ expires _ =>
      match item.status, item.lease with
      | .claimed, some lease =>
          if lease.holder = holder then
            { item with lease := some { lease with expiresAt := stamp expires } }
          else item
      | _, _ => item
  | release _ holder result _ =>
      match item.status, item.lease with
      | .claimed, some lease =>
          if lease.holder = holder then
            { item with
              status := targetStatus (fuse result)
              lease := none
              result := some (strip (fuse result))
              releasedBy := some holder }
          else item
      | _, _ => item

def act (e : Entry) (item : Item) : Item :=
  if item.status = .done ∨ item.status = .blocked then item else e.applyTo item

def apply (items : Items) (e : Entry) : Items :=
  match items.get? e.itemId with
  | none => items
  | some item => if item.status = .done ∨ item.status = .blocked then items
      else items.set item.id (e.act item)

end Entry

/-! ### Texts of the ledger -/

variable {s : Str} {c : Nat}

theorem lt_of_mem_token (h : isToken s = true) (hc : c ∈ s) :
  c < 127
  := by
  simp only [isToken, Bool.and_eq_true, List.all_eq_true] at h
  have hchar := h.1.2 c hc
  simp only [isDigit, Bool.or_eq_true, Bool.and_eq_true, decide_eq_true_eq] at hchar
  omega

theorem lt_of_mem_stamp {t : DateTime} (hc : c ∈ stamp t) :
  c < 127
  := by
  obtain ⟨-, hyear, -, hmonth, -, hday⟩ := t.date
  have hday : t.day ≤ 31 := hday.trans (daysInMonth_le _ _)
  obtain ⟨hhour, hminute, hsecond, -⟩ := t.time
  simp only [stamp, format, digits4, digits2, List.cons_append, List.nil_append, List.mem_cons,
    List.not_mem_nil, or_false] at hc
  omega

theorem fuse_ascii (h : ∀ c ∈ s, c < 127) :
  fuse s = s
  := fuse_eq_self (hasPair_of_lt fun c hc => (h c hc).trans (by decide))

theorem isText_ascii (h : ∀ c ∈ s, c < 127) :
  IsText s
  := fun c hc => (h c hc).trans (by decide)

@[simp]
theorem fuse_stamp (t : DateTime) :
  fuse (stamp t) = stamp t
  := fuse_ascii fun _ hc => lt_of_mem_stamp hc

theorem fuse_token (h : isToken s = true) :
  fuse s = s
  := fuse_ascii fun _ hc => lt_of_mem_token h hc

theorem isText_token (h : isToken s = true) :
  IsText s
  := isText_ascii fun _ hc => lt_of_mem_token h hc

theorem isText_stamp (t : DateTime) :
  IsText (stamp t)
  := isText_ascii fun _ hc => lt_of_mem_stamp hc

@[simp]
theorem isStamp_stamp (t : DateTime) :
  isStamp (stamp t) = true
  := isStamp_of_parse (parse_format t)

@[simp]
theorem parse_stamp (t : DateTime) :
  parse (stamp t) = some t.floor
  := parse_format t

theorem lt_of_isSpace (h : isSpace c = true) :
  c < 0x10000
  := by
  simp only [isSpace, Bool.or_eq_true, Bool.and_eq_true, decide_eq_true_eq] at h
  omega

theorem isResult_fuse (h : isResult s = true) :
  isResult (fuse s) = true
  := by
  simp only [isResult, Bool.and_eq_true, Bool.not_eq_true', decide_eq_true_eq,
    List.any_eq_false] at h ⊢
  obtain ⟨⟨hblank, hlength⟩, hline⟩ := h
  refine ⟨⟨?_, (length_fuse_le s).trans hlength⟩, ?_⟩
  · by_contra hspaces
    have hall : ∀ c ∈ fuse s, isSpace c = true := by simpa [blank] using hspaces
    rw [fuse_eq_self_of_lt fun c hc => lt_of_isSpace (hall c hc)] at hspaces
    exact hspaces hblank
  · intro c hc
    rcases mem_fuse hc with hc | hc
    · exact hline c hc
    · simp only [Bool.or_eq_true, decide_eq_true_eq]
      omega

namespace Entry

def fused : Entry → Entry
  | release itemId holder result moment => release itemId holder (fuse result) moment
  | e => e

variable {e : Entry}

theorem reread_eq (h : e.Lawful) :
  e.reread = texts e.fused.event
  := by
  cases e with
  | claim itemId holder host expires moment | renew itemId holder host expires moment =>
    obtain ⟨hitem, hholder, hhost⟩ := h
    simp [reread, fused, event, leaseEvent, fuseAll, fuse_token hitem, fuse_token hholder,
      fuse_token hhost, fuse_ascii (s := text "CLAIM") (by decide),
      fuse_ascii (s := text "RENEW") (by decide)]
  | release itemId holder result moment =>
    obtain ⟨hitem, hholder, -⟩ := h
    simp [reread, fused, event, releaseEvent, fuseAll, fuse_token hitem, fuse_token hholder,
      fuse_ascii (s := text "RELEASE") (by decide)]

theorem event_texts (h : e.Lawful) :
  ∀ q ∈ e.event, IsText q.1 ∧ hasPair q.1 = false ∧ IsText q.2
  := by
  have hkey : ∀ key ∈ [text "at", text "expires_at", text "holder", text "host", text "item_id",
      text "result", text "type"], IsText key ∧ hasPair key = false := by decide
  cases e with
  | claim itemId holder host expires moment | renew itemId holder host expires moment =>
    obtain ⟨hitem, hholder, hhost⟩ := h
    intro q hq
    simp only [event, leaseEvent, List.mem_cons, List.not_mem_nil, or_false] at hq
    rcases hq with rfl | rfl | rfl | rfl | rfl | rfl <;>
      refine ⟨(hkey _ (by simp)).1, (hkey _ (by simp)).2, ?_⟩
    · exact isText_stamp _
    · exact isText_stamp _
    · exact isText_token hholder
    · exact isText_token hhost
    · exact isText_token hitem
    · exact isText_ascii (by decide)
  | release itemId holder result moment =>
    obtain ⟨hitem, hholder, -, hresult⟩ := h
    intro q hq
    simp only [event, releaseEvent, List.mem_cons, List.not_mem_nil, or_false] at hq
    rcases hq with rfl | rfl | rfl | rfl | rfl <;>
      refine ⟨(hkey _ (by simp)).1, (hkey _ (by simp)).2, ?_⟩
    · exact isText_stamp _
    · exact isText_token hholder
    · exact isText_token hitem
    · exact hresult
    · exact isText_ascii (by decide)

theorem sortedKeys_event (e : Entry) :
  sortedKeys (texts e.event) = true
  := by
  cases e <;> rfl

theorem decode_line (h : e.Lawful) :
  (Bytes.ofAscii (dumpsAscii (.obj (texts e.event)))).decode = some (dumpsAscii (.obj (texts e.event)))
  := by
  have htexts := event_texts h
  exact Bytes.decode_ascii
    (printable_dumpsAscii e.sortedKeys_event fun q hq => ⟨(htexts q hq).1, (htexts q hq).2.2⟩)

theorem loads_line (h : e.Lawful) :
  jsonLoads (dumpsAscii (.obj (texts e.event))) = .ok (.obj e.reread)
  := by
  simp only [jsonLoads, loads_dumpsAscii e.sortedKeys_event (event_texts h)]
  rfl

theorem readLine_line (h : e.Lawful) :
  readLine jsonLoads (Bytes.ofAscii (dumpsAscii (.obj (texts e.event)))) = .ok e.reread
  := by
  rw [readLine, decode_line h]
  simp only [loads_line h]
  rw [if_pos]
  cases e with
  | claim => exact .inl rfl
  | renew => exact .inr (.inl rfl)
  | release => exact .inr (.inr rfl)

theorem get_leaseEvent (type itemId holder host expiresAt at_ : Str) :
  get (texts (leaseEvent type itemId holder host expiresAt at_)) (text "item_id") = .str itemId ∧
  get (texts (leaseEvent type itemId holder host expiresAt at_)) (text "holder") = .str holder ∧
  get (texts (leaseEvent type itemId holder host expiresAt at_)) (text "host") = .str host ∧
  get (texts (leaseEvent type itemId holder host expiresAt at_)) (text "expires_at") =
    .str expiresAt ∧
  get (texts (leaseEvent type itemId holder host expiresAt at_)) (text "at") = .str at_ ∧
  get (texts (leaseEvent type itemId holder host expiresAt at_)) (text "type") = .str type
  := ⟨rfl, rfl, rfl, rfl, rfl, rfl⟩

theorem get_releaseEvent (itemId holder result at_ : Str) :
  get (texts (releaseEvent itemId holder result at_)) (text "item_id") = .str itemId ∧
  get (texts (releaseEvent itemId holder result at_)) (text "holder") = .str holder ∧
  get (texts (releaseEvent itemId holder result at_)) (text "result") = .str result ∧
  get (texts (releaseEvent itemId holder result at_)) (text "at") = .str at_ ∧
  get (texts (releaseEvent itemId holder result at_)) (text "type") = .str (text "RELEASE")
  := ⟨rfl, rfl, rfl, rfl, rfl⟩

@[simp]
theorem applyTo_id (item : Item) (e : Entry) :
  (e.applyTo item).id = item.id
  := by
  cases e with
  | claim => rfl
  | renew | release =>
    simp only [applyTo]
    split
    · split <;> rfl
    · rfl

@[simp]
theorem applyTo_filesScope (item : Item) (e : Entry) :
  (e.applyTo item).filesScope = item.filesScope
  := by
  cases e with
  | claim => rfl
  | renew | release =>
    simp only [applyTo]
    split
    · split <;> rfl
    · rfl

/-- What a lawful entry that is read back makes of an item. -/
theorem applyTo_reread (h : e.Lawful) (item : Item) :
  WorkQueue.applyTo item e.reread = .ok (e.applyTo item)
  := by
  rw [reread_eq h]
  cases e with
  | claim itemId holder host expires moment =>
    obtain ⟨hitem, hholder, hhost⟩ := h
    obtain ⟨-, hget₂, hget₃, hget₄, -, hget₆⟩ := get_leaseEvent (text "CLAIM") itemId holder host
      (stamp expires) (stamp moment)
    simp only [fused, event, WorkQueue.applyTo, hget₂, hget₃, hget₄, hget₆, if_true]
    rw [if_pos ⟨hholder, hhost, isStamp_stamp expires⟩]
    rfl
  | renew itemId holder host expires moment =>
    obtain ⟨-, hget₂, hget₃, hget₄, -, hget₆⟩ := get_leaseEvent (text "RENEW") itemId holder host
      (stamp expires) (stamp moment)
    have hnot : ¬ Json.str (text "RENEW") = .str (text "CLAIM") := by decide
    simp only [fused, event, WorkQueue.applyTo, hget₂, hget₃, hget₄, hget₆, hnot, if_true,
      if_false, applyTo]
    cases hstatus : item.status <;> cases hlease : item.lease <;> try rfl
    next lease =>
      dsimp only
      by_cases hsame : lease.holder = holder
      · have htime : timeMatches (.str (stamp expires)) = true := isStamp_stamp expires
        rw [if_neg (by simp [hsame]), if_pos htime, if_pos hsame]
        rfl
      · rw [if_pos (by simpa using Ne.symm hsame), if_neg hsame]
  | release itemId holder result moment =>
    obtain ⟨hitem, hholder, hresult, -⟩ := h
    obtain ⟨-, hget₂, hget₃, -, hget₅⟩ := get_releaseEvent itemId holder (fuse result)
      (stamp moment)
    have hclaim : ¬ Json.str (text "RELEASE") = .str (text "CLAIM") := by decide
    have hrenew : ¬ Json.str (text "RELEASE") = .str (text "RENEW") := by decide
    simp only [fused, event, WorkQueue.applyTo, hget₂, hget₃, hget₅, hclaim, hrenew,
      if_false, applyTo]
    cases hstatus : item.status <;> cases hlease : item.lease <;> try rfl
    next lease =>
      dsimp only
      by_cases hsame : lease.holder = holder
      · rw [if_neg (by simp [isResult_fuse hresult]), if_neg (by simp [eventToken, hholder, hsame]),
          if_pos hsame, hsame]
      · rw [if_neg (by simp [isResult_fuse hresult]), if_neg hsame, if_pos]
        exact .inr (by simpa using Ne.symm hsame)

theorem applyEvent_reread (h : e.Lawful) (items : Items) :
  applyEvent items e.reread = .ok (e.apply items)
  := by
  have hitem : get e.reread (text "item_id") = .str e.itemId := by
    rw [reread_eq h]
    cases e <;> rfl
  simp only [applyEvent, hitem, eventItem, Except.ok_bind, apply]
  cases items.get? e.itemId with
  | none => rfl
  | some item =>
    dsimp only
    split
    · rfl
    · next hopen =>
      rw [applyTo_reread h, Except.ok_bind, applyTo_id, act, if_neg hopen]
      rfl

end Entry

/-! ### The replay -/

structure Serving (q : Queue) (entries : List Entry) : Prop where
  ledger : q.ledger = entries.flatMap fun e => ledgerLine e.event
  lawful : ∀ e ∈ entries, e.Lawful
  small : q.ledger.length ≤ MAX_LEDGER_BYTES

def after (catalog : Catalog) (entries : List Entry) : Items :=
  entries.foldl Entry.apply catalog.items

theorem blank_line (event : List (Str × Str)) :
  (Bytes.ofAscii (dumpsAscii (.obj (texts event)))).blank = false
  := by
  obtain ⟨s, hs⟩ := dumpsAscii_obj (texts event)
  rw [hs]
  exact Bytes.blank_ofAscii (by decide)

variable {entries : List Entry}

theorem readLines_entries (h : ∀ e ∈ entries, e.Lawful) :
  readLines jsonLoads (entries.map fun e => Bytes.ofAscii (dumpsAscii (.obj (texts e.event)))) =
    .ok (entries.map Entry.reread)
  := by
  induction entries with
  | nil => rfl
  | cons e entries ih =>
    rw [List.map_cons, readLines, blank_line, if_neg (by simp),
      Entry.readLine_line (h e (by simp)), ih fun f hf => h f (List.mem_cons_of_mem _ hf)]
    rfl

variable {q : Queue}

theorem splitLines_of_serving (h : Serving q entries) :
  q.ledger.splitLines = entries.map fun e => Bytes.ofAscii (dumpsAscii (.obj (texts e.event)))
  := by
  have hprintable : ∀ s ∈ entries.map fun e => dumpsAscii (.obj (texts e.event)),
      Bytes.Printable s := by
    intro s hs
    obtain ⟨e, he, rfl⟩ := List.mem_map.mp hs
    have htexts := Entry.event_texts (h.lawful e he)
    exact printable_dumpsAscii e.sortedKeys_event fun q hq => ⟨(htexts q hq).1, (htexts q hq).2.2⟩
  have hwritten := Bytes.splitLines_written hprintable
  rw [List.flatMap_map, List.map_map] at hwritten
  rw [h.ledger]
  exact hwritten

theorem readLedger_of_serving (h : Serving q entries) :
  readLedger jsonLoads q.ledger = .ok (entries.map Entry.reread)
  := by
  rw [readLedger, if_neg (not_lt.mpr h.small), splitLines_of_serving h, readLines_entries h.lawful]

theorem foldlM_entries (h : ∀ e ∈ entries, e.Lawful) (items : Items) :
  (entries.map Entry.reread).foldlM applyEvent items = .ok (entries.foldl Entry.apply items)
  := by
  induction entries generalizing items with
  | nil => rfl
  | cons e entries ih =>
    rw [List.map_cons, List.foldlM_cons, Entry.applyEvent_reread (h e (by simp)),
      Except.ok_bind, ih fun f hf => h f (List.mem_cons_of_mem _ hf)]
    rfl

theorem replay_of_serving (h : Serving q entries) :
  q.replay = .ok (after q.catalog entries)
  := by
  rw [Queue.replay, readLedger_of_serving h, Except.ok_bind, foldlM_entries h.lawful]
  rfl

/-! ### Items of the replay -/

def Keyed (items : Items) : Prop :=
  ∀ id item, items.get? id = some item → item.id = id

@[simp]
theorem Entry.act_id (e : Entry) (item : Item) :
  (e.act item).id = item.id
  := by
  unfold act
  split_ifs
  · rfl
  · exact applyTo_id item e

@[simp]
theorem Entry.act_filesScope (e : Entry) (item : Item) :
  (e.act item).filesScope = item.filesScope
  := by
  unfold act
  split_ifs
  · rfl
  · exact applyTo_filesScope item e

variable {item : Item}

theorem Entry.act_claim (h : item.status = .ready ∨ item.status = .claimed)
    (itemId holder host : Str) (expires moment : DateTime) :
  (Entry.claim itemId holder host expires moment).act item =
    { item with status := .claimed, lease := some ⟨holder, host, stamp expires⟩ }
  := by
  unfold act
  rw [if_neg (by rcases h with hs | hs <;> simp [hs])]
  rfl

theorem Entry.act_renew {lease : Lease} (hstatus : item.status = .claimed)
    (hlease : item.lease = some lease) (itemId host : Str) (expires moment : DateTime) :
  (Entry.renew itemId lease.holder host expires moment).act item =
    { item with lease := some { lease with expiresAt := stamp expires } }
  := by
  unfold act
  rw [if_neg (by simp [hstatus])]
  simp [applyTo, hstatus, hlease]

theorem Entry.act_release {lease : Lease} (hstatus : item.status = .claimed)
    (hlease : item.lease = some lease) (itemId result : Str) (moment : DateTime) :
  (Entry.release itemId lease.holder result moment).act item =
    { item with
      status := targetStatus (fuse result)
      lease := none
      result := some (strip (fuse result))
      releasedBy := some lease.holder }
  := by
  unfold act
  rw [if_neg (by simp [hstatus])]
  simp [applyTo, hstatus, hlease]

theorem Entry.get?_apply {items : Items} (h : Keyed items) (e : Entry) (id : Str) :
  (e.apply items).get? id = if id = e.itemId then (items.get? id).map e.act else items.get? id
  := by
  unfold apply
  cases hitem : items.get? e.itemId with
  | none =>
    dsimp only
    split_ifs with hid
    · rw [hid, hitem]
      rfl
    · rfl
  | some item =>
    dsimp only
    have hkey := h _ _ hitem
    split_ifs with hclosed hid hid
    · rw [hid, hitem, Option.map_some, act, if_pos hclosed]
    · rfl
    · rw [Dict.get?_set, hkey, if_pos hid, hid, hitem]
      rfl
    · rw [Dict.get?_set, hkey, if_neg hid]

theorem Entry.keyed_apply {items : Items} (h : Keyed items) (e : Entry) :
  Keyed (e.apply items)
  := by
  intro id item hitem
  rw [e.get?_apply h] at hitem
  split_ifs at hitem
  · obtain ⟨old, hold, rfl⟩ := Option.map_eq_some_iff.mp hitem
    rw [e.act_id, h id old hold]
  · exact h id item hitem

theorem Catalog.keyed (catalog : Catalog) :
  Keyed catalog.items
  := fun id item hitem => (catalog.seeds id item hitem).1

theorem keyed_after (catalog : Catalog) (entries : List Entry) :
  Keyed (after catalog entries)
  := by
  induction entries using List.reverseRecOn with
  | nil => exact catalog.keyed
  | append_singleton entries e ih =>
    rw [after, List.foldl_concat]
    exact e.keyed_apply ih

theorem get?_after_concat (catalog : Catalog) (entries : List Entry) (e : Entry) (id : Str) :
  (after catalog (entries ++ [e])).get? id =
    if id = e.itemId then ((after catalog entries).get? id).map e.act
    else (after catalog entries).get? id
  := by
  rw [after, List.foldl_concat, ← after]
  exact e.get?_apply (keyed_after catalog entries) id

/-- What the replay keeps of an item. -/
structure Item.Proper (item : Item) : Prop where
  token : isToken item.id = true
  leased : item.status = .claimed ↔ item.lease.isSome
  lease : ∀ lease, item.lease = some lease →
    isToken lease.holder = true ∧ isToken lease.host = true ∧ isStamp lease.expiresAt = true
  closed : item.status = .done ∨ item.status = .blocked ∨ item.result = none ∧ item.releasedBy = none

theorem Entry.proper_act {e : Entry} (he : e.Lawful) (h : item.Proper) :
  (e.act item).Proper
  := by
  unfold act
  split_ifs with hclosed
  · exact h
  · have hopen : item.result = none ∧ item.releasedBy = none := by
      rcases h.closed with hdone | hblocked | hopen
      · exact absurd (.inl hdone) hclosed
      · exact absurd (.inr hblocked) hclosed
      · exact hopen
    cases e with
    | claim itemId holder host expires moment =>
      refine ⟨h.token, by simp [applyTo], ?_, .inr (.inr hopen)⟩
      rintro _ ⟨⟩
      exact ⟨he.2.1, he.2.2, isStamp_stamp expires⟩
    | renew itemId holder host expires moment =>
      simp only [applyTo]
      split
      · next lease hstatus hlease =>
        split_ifs
        · refine ⟨h.token, by simp [hstatus], ?_, .inr (.inr hopen)⟩
          rintro _ ⟨⟩
          obtain ⟨hholder, hhost, -⟩ := h.lease lease hlease
          exact ⟨hholder, hhost, isStamp_stamp expires⟩
        · exact h
      · exact h
    | release itemId holder result moment =>
      simp only [applyTo]
      split
      · split_ifs
        · refine ⟨h.token, ?_, by simp, ?_⟩
          · unfold targetStatus
            split_ifs <;> simp
          · unfold targetStatus
            split_ifs
            · exact .inr (.inl rfl)
            · exact .inl rfl
        · exact h
      · exact h

theorem proper_after {catalog : Catalog} (h : ∀ e ∈ entries, e.Lawful)
    {id : Str} (hitem : (after catalog entries).get? id = some item) :
  item.Proper
  := by
  induction entries using List.reverseRecOn generalizing item with
  | nil =>
    obtain ⟨-, hseed⟩ := catalog.seeds id item hitem
    exact ⟨hseed.token, hseed.leased, hseed.lease, .inr (.inr ⟨hseed.result, hseed.releasedBy⟩)⟩
  | append_singleton entries e ih =>
    have hlawful : ∀ f ∈ entries, f.Lawful := fun f hf => h f (List.mem_append_left _ hf)
    rw [get?_after_concat] at hitem
    split_ifs at hitem
    · obtain ⟨old, hold, rfl⟩ := Option.map_eq_some_iff.mp hitem
      exact Entry.proper_act (h e (by simp)) (ih hlawful hold)
    · exact ih hlawful hitem

theorem serving_nil (catalog : Catalog) :
  Serving ⟨catalog, []⟩ []
  := ⟨rfl, by simp, Nat.zero_le _⟩

theorem Serving.concat {q : Queue} {entries : List Entry} (h : Serving q entries) {e : Entry}
    (he : e.Lawful) (hfits : q.ledger.length + (ledgerLine e.event).length ≤ MAX_LEDGER_BYTES) :
  Serving { q with ledger := q.ledger ++ ledgerLine e.event } (entries ++ [e])
  := by
  refine ⟨by simp [h.ledger], ?_, by simpa using hfits⟩
  intro f hf
  rcases List.mem_append.mp hf with hf | hf
  · exact h.lawful f hf
  · rw [List.mem_singleton.mp hf]
    exact he

end Courier.WorkQueue
