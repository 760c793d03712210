import Courier.WorkQueue.Ledger

/-!
# What a call does

A call of the queue is refused and leaves the ledger as it is, or it is answered, and appends at
most one entry.  `Serves` says all that an answer stands for: what was checked of the items as
they are at the moment of the call, and the entry.
-/

namespace Courier.WorkQueue

open Calendar Json Program Text

/-! ### Calls -/

inductive Call where
  | claim (item holder ttl host : Json) (prs : Prs)
  | renew (item holder ttl : Json)
  | release (item holder result : Json)

/-- An answer of the queue. -/
inductive Reply where
  | claimed (view : ClaimView)
  | renewed (view : ClaimView)
  | released (view : ReleaseView)

def perform (moment : DateTime) : Call → Action Reply
  | .claim item holder ttl host prs => .claimed <$> claim item holder ttl host prs moment
  | .renew item holder ttl => .renewed <$> renew item holder ttl moment
  | .release item holder result => .released <$> release item holder result moment

def Queue.call (q : Queue) (call : Call) (moment : DateTime) : Except Exc Reply × Queue :=
  match perform moment call q with
  | .ok reply q' => (.ok reply, q')
  | .error why q' => (.error why, q')

def Call.Typed : Call → Prop
  | release _ _ (.str result) => IsText result
  | _ => True

inductive Serves (items : Items) (moment : DateTime) : Call → Reply → Option Entry → Prop
  | heldAlready {item holder ttl host : Json} {prs : Prs} {current : Item} {lease : Lease}
      {itemId : Str} :
      requireToken .item item = .ok itemId → requireToken .holder holder = .ok lease.holder →
      items.get? itemId = some current → held current moment = true →
      current.lease = some lease →
      Serves items moment (.claim item holder ttl host prs)
        (.claimed ⟨current.id, .claimed, lease.holder, lease.host, lease.expiresAt, true⟩) none
  | claimed {item holder ttl host : Json} {prs : Prs} {current : Item} {itemId name machine : Str}
      {n : Nat} {expires : DateTime} :
      requireToken .item item = .ok itemId → requireToken .holder holder = .ok name →
      requireToken .host host = .ok machine → requireTtl ttl = .ok n →
      items.get? itemId = some current → held current moment = false →
      admissible prs moment items current = true → moment.addSeconds n = some expires →
      Serves items moment (.claim item holder ttl host prs)
        (.claimed ⟨current.id, .claimed, name, machine, stamp expires, false⟩)
        (some (.claim itemId name machine expires moment))
  | renewed {item holder ttl : Json} {current : Item} {lease : Lease} {itemId : Str} {n : Nat}
      {expires : DateTime} :
      requireToken .item item = .ok itemId → requireToken .holder holder = .ok lease.holder →
      requireTtl ttl = .ok n → items.get? itemId = some current → held current moment = true →
      current.lease = some lease → moment.addSeconds n = some expires →
      Serves items moment (.renew item holder ttl)
        (.renewed ⟨current.id, .claimed, lease.holder, lease.host, stamp expires, false⟩)
        (some (.renew itemId lease.holder lease.host expires moment))
  | releasedAlready {item holder result : Json} {current : Item} {itemId name verdict : Str} :
      requireToken .item item = .ok itemId → requireToken .holder holder = .ok name →
      requireResult result = .ok verdict → items.get? itemId = some current →
      current.status = .done ∨ current.status = .blocked → current.result = some verdict →
      current.releasedBy = some name →
      Serves items moment (.release item holder result)
        (.released ⟨itemId, current.status, verdict, true⟩) none
  | released {item holder result : Json} {current : Item} {lease : Lease}
      {itemId verdict : Str} :
      requireToken .item item = .ok itemId → requireToken .holder holder = .ok lease.holder →
      requireResult result = .ok verdict → items.get? itemId = some current →
      held current moment = true → current.lease = some lease →
      Serves items moment (.release item holder result)
        (.released ⟨itemId, targetStatus verdict, verdict, false⟩)
        (some (.release itemId lease.holder verdict moment))

/-! ### The steps of a call -/

variable {q : Queue} {entries : List Entry} {moment : DateTime}

theorem wp_effective (h : Serving q entries) {normal : Items → Queue → Prop}
    {raised : Exc → Queue → Prop} :
  wp (effective moment) normal raised q ↔
    normal ((after q.catalog entries).map (expire moment)) q
  := by
  simp [effective, wp_bind, replay_of_serving h]

theorem effective_of_serving (h : Serving q entries) :
  effective moment q = .ok ((after q.catalog entries).map (expire moment)) q
  := by
  have hwp : wp (effective moment) (fun items q' =>
      items = (after q.catalog entries).map (expire moment) ∧ q' = q) (fun _ _ => False) q :=
    (wp_effective h).mpr ⟨rfl, rfl⟩
  obtain ⟨_, _, heq, rfl, rfl⟩ := returns_of_wp hwp
  exact heq

theorem wp_append (h : Serving q entries) {e : Entry} (he : e.Lawful) {raised : Exc → Queue → Prop}
    {normal : Unit → Queue → Prop}
    (hnormal : ∀ q', Serving q' (entries ++ [e]) → q'.catalog = q.catalog → normal () q')
    (hraised : raised (.refused .ledgerTooLarge) q) :
  wp (append e.event) normal raised q
  := by
  simp only [append, wp_bind, wp_get]
  split_ifs with hlarge
  · exact hraised
  · exact hnormal _ (h.concat he (not_lt.mp hlarge)) rfl

/-- What a call comes to: an answer with at most one entry, or a refusal that changes nothing. -/
def Answers (q : Queue) (entries : List Entry) (moment : DateTime) (call : Call) (m : Action Reply) :
    Prop :=
  wp m (fun reply q' => ∃ entry, Serves ((after q.catalog entries).map (expire moment)) moment call
      reply entry ∧ Serving q' (entries ++ entry.toList) ∧ q'.catalog = q.catalog)
    (fun _ q' => q' = q) q

theorem token_of_required {code : Code} {value : Json} {s : Str}
    (h : requireToken code value = .ok s) :
  value = .str s ∧ isToken s = true
  := by
  cases value with
  | str t =>
    rw [requireToken] at h
    split_ifs at h with htoken
    cases h
    exact ⟨rfl, htoken⟩
  | _ => cases h

theorem lease_of_held {item : Item} (h : held item moment = true) :
  item.status = .claimed ∧ ∃ lease, item.lease = some lease ∧
    ∃ expires, parse lease.expiresAt = some expires ∧ moment.instant < expires.instant
  := by
  unfold held at h
  split at h
  · next lease hstatus hlease =>
    obtain ⟨expires, hparse, hlt⟩ := (Option.any_eq_true _ _).mp h
    exact ⟨hstatus, lease, hlease, expires, hparse, by simpa using hlt⟩
  · cases h

theorem get?_of_held {items : Items} {id : Str} {item : Item}
    (hitem : (items.map (expire moment)).get? id = some item) (hheld : held item moment = true) :
  items.get? id = some item
  := by
  rw [Dict.get?_map] at hitem
  obtain ⟨old, hold, rfl⟩ := Option.map_eq_some_iff.mp hitem
  unfold expire at hheld ⊢
  split_ifs at hheld ⊢ with hexpired
  · simp [held] at hheld
  · exact hold

theorem open_of_claimable {catalog : Catalog} (hlawful : ∀ e ∈ entries, e.Lawful) {id : Str}
    {current : Item}
    (hcurrent : ((after catalog entries).map (expire moment)).get? id = some current)
    (hheld : held current moment = false) (hclaimable : claimableStatus current moment = true) :
  ∃ old, (after catalog entries).get? id = some old ∧ held old moment = false ∧
    (old.status = .ready ∨ old.status = .claimed) ∧
    current = { old with status := .ready, lease := none }
  := by
  rw [Dict.get?_map] at hcurrent
  obtain ⟨old, hold, rfl⟩ := Option.map_eq_some_iff.mp hcurrent
  have hproper := proper_after hlawful hold
  refine ⟨old, hold, ?_⟩
  unfold expire at hheld hclaimable ⊢
  split_ifs at hheld hclaimable ⊢ with hexpired
  · exact ⟨by simpa using hexpired.2, .inr hexpired.1, rfl⟩
  · have hready : old.status = .ready := by
      simp only [claimableStatus, hheld, Bool.or_eq_true, decide_eq_true_eq, Bool.and_eq_true]
        at hclaimable
      rcases hclaimable with hready | ⟨hclaimed, -⟩
      · exact hready
      · exact absurd ⟨hclaimed, by simp [hheld]⟩ hexpired
    have hlease : old.lease = none := by
      have hleased := hproper.leased
      rw [hready] at hleased
      simpa using hleased
    refine ⟨hheld, .inl hready, ?_⟩
    cases old
    cases hready
    cases hlease
    rfl

theorem apart_of_admissible {items : Items} {prs : Prs} {id j : Str} {current b : Item}
    (hkeyed : Keyed items) (hcurrent : (items.map (expire moment)).get? id = some current)
    (hadmissible : admissible prs moment (items.map (expire moment)) current = true)
    (hj : j ≠ id) (hb : items.get? j = some b) (hheld : held b moment = true) :
  scopesOverlap current.filesScope b.filesScope = false
  := by
  have hsame : expire moment b = b := by
    unfold expire
    rw [if_neg (by simp [hheld])]
  have hoccupied : b ∈ (items.map (expire moment)).values.filter fun other => held other moment := by
    refine List.mem_filter.mpr ⟨Dict.mem_values.mpr ⟨j, ?_⟩, hheld⟩
    rw [Dict.get?_map, hb, Option.map_some, hsame]
  have hid : current.id = id := by
    rw [Dict.get?_map] at hcurrent
    obtain ⟨old, hold, rfl⟩ := Option.map_eq_some_iff.mp hcurrent
    rw [← hkeyed id old hold]
    unfold expire
    split_ifs <;> rfl
  simp only [admissible, blockedByScope, Bool.and_eq_true, Bool.not_eq_true', Bool.or_eq_false_iff,
    List.any_eq_false] at hadmissible
  have hblocked := hadmissible.2.1 b hoccupied
  rw [hkeyed j b hb, hid] at hblocked
  simpa [hj] using hblocked

theorem result_of_required {value : Json} {verdict : Str} (h : requireResult value = .ok verdict) :
  ∃ s, value = .str s ∧ verdict = strip s ∧ isResult verdict = true
  := by
  cases value with
  | str s =>
    rw [requireResult] at h
    split_ifs at h with hresult
    cases h
    refine ⟨s, rfl, rfl, ?_⟩
    simp only [isResult, Bool.and_eq_true, Bool.not_eq_true', decide_eq_true_eq,
      List.any_eq_false] at hresult ⊢
    obtain ⟨⟨hblank, hlength⟩, hline⟩ := hresult
    exact ⟨⟨blank_strip hblank, (length_strip_le s).trans hlength⟩,
      fun c hc => hline c (mem_of_mem_strip hc)⟩
  | _ => cases h

theorem stamp_of_after {n : Nat} {s : Str} (h : stampAfter moment n = .ok s) :
  ∃ expires, moment.addSeconds n = some expires ∧ stamp expires = s
  := by
  unfold stampAfter at h
  split at h
  · next expires hadd => exact ⟨expires, hadd, Except.ok.inj h⟩
  · cases h

/-- The checks of `claim`. -/
theorem answers_claim (h : Serving q entries) (item holder ttl host : Json) (prs : Prs) :
  Answers q entries moment (.claim item holder ttl host prs)
    (.claimed <$> claim item holder ttl host prs moment)
  := by
  rw [Answers, wp_map]
  simp only [claim, wp_bind, wp_lift, wp_effective h]
  refine ⟨?_, fun _ _ => trivial⟩
  intro itemId hitem
  refine ⟨?_, fun _ _ => trivial⟩
  intro name hholder
  refine ⟨?_, fun _ _ => trivial⟩
  intro machine hhost
  refine ⟨?_, fun _ _ => trivial⟩
  intro n httl
  split
  · simp
  · next current hcurrent =>
    split_ifs with hheld
    · obtain ⟨-, lease, hlease, -⟩ := lease_of_held hheld
      simp only [leaseOf, claimView, hlease, wp_bind, wp_lift, wp_refuseIf, Except.ok_bind]
      refine ⟨?_, fun _ _ => trivial⟩
      rintro _ ⟨⟩
      split_ifs with hsame
      refine ⟨?_, fun _ _ => trivial⟩
      rintro _ ⟨⟩
      have hsame : lease.holder = name := by simpa using hsame
      exact ⟨none, .heldAlready hitem (hsame ▸ hholder) hcurrent hheld hlease, by simpa, trivial⟩
    · simp only [wp_bind, wp_refuseIf, wp_lift]
      split_ifs with hclaimable hblocked
      refine ⟨?_, fun _ _ => trivial⟩
      intro expiresAt hexpires
      obtain ⟨expires, hadd, rfl⟩ := stamp_of_after hexpires
      have hadmissible : admissible prs moment ((after q.catalog entries).map (expire moment))
          current = true := by
        simp only [admissible, Bool.and_eq_true, Bool.not_eq_true']
        simp only [Bool.or_eq_true, Bool.not_eq_true', not_or, Bool.not_eq_false] at hclaimable
        exact ⟨hclaimable, by simpa using hblocked⟩
      apply wp_append h (e := .claim itemId name machine expires moment)
        ⟨(token_of_required hitem).2, (token_of_required hholder).2, (token_of_required hhost).2⟩
      · intro q' hserving hcatalog
        have hserves := Serves.claimed hitem hholder hhost httl hcurrent (by simpa using hheld)
          hadmissible hadd
        constructor
        · rintro _ ⟨⟩
          exact ⟨_, hserves, hserving, hcatalog⟩
        · rintro _ ⟨⟩
      · trivial

theorem answers_renew (h : Serving q entries) (item holder ttl : Json) :
  Answers q entries moment (.renew item holder ttl) (.renewed <$> renew item holder ttl moment)
  := by
  rw [Answers, wp_map]
  simp only [renew, wp_bind, wp_lift, wp_effective h]
  refine ⟨?_, fun _ _ => trivial⟩
  intro itemId hitem
  refine ⟨?_, fun _ _ => trivial⟩
  intro name hholder
  refine ⟨?_, fun _ _ => trivial⟩
  intro n httl
  split
  · simp
  · next current hcurrent =>
    simp only [wp_bind, wp_refuseIf, wp_lift]
    split_ifs with hheld
    have hheld : held current moment = true := by simpa using hheld
    obtain ⟨-, lease, hlease, -⟩ := lease_of_held hheld
    rw [leaseOf, hlease]
    refine ⟨?_, fun _ _ => trivial⟩
    rintro _ ⟨⟩
    split_ifs with hsame
    obtain rfl : lease.holder = name := by simpa using hsame
    refine ⟨?_, fun _ _ => trivial⟩
    intro expiresAt hexpires
    obtain ⟨expires, hadd, rfl⟩ := stamp_of_after hexpires
    apply wp_append h (e := .renew itemId lease.holder lease.host expires moment)
      ⟨(token_of_required hitem).2, (token_of_required hholder).2, ?_⟩
    · intro q' hserving hcatalog
      have hserves := Serves.renewed hitem hholder httl hcurrent hheld hlease hadd
      constructor
      · rintro _ ⟨⟩
        exact ⟨_, hserves, hserving, hcatalog⟩
      · rintro _ ⟨⟩
    · trivial
    · exact ((proper_after h.lawful (get?_of_held hcurrent hheld)).lease lease hlease).2.1

theorem answers_release (h : Serving q entries) (item holder result : Json)
    (htyped : (Call.release item holder result).Typed) :
  Answers q entries moment (.release item holder result)
    (.released <$> release item holder result moment)
  := by
  rw [Answers, wp_map]
  simp only [release, wp_bind, wp_lift, wp_effective h]
  refine ⟨?_, fun _ _ => trivial⟩
  intro itemId hitem
  refine ⟨?_, fun _ _ => trivial⟩
  intro name hholder
  refine ⟨?_, fun _ _ => trivial⟩
  intro verdict hresult
  split
  · simp
  · next current hcurrent =>
    split_ifs with hover
    · obtain ⟨hstatus, hsame, hby⟩ := hover
      exact ⟨none, .releasedAlready hitem hholder hresult hcurrent hstatus hsame hby, by simpa, rfl⟩
    · simp only [wp_bind, wp_refuseIf, wp_lift]
      split_ifs with hdone hblocked hheld
      have hheld : held current moment = true := by simpa using hheld
      obtain ⟨-, lease, hlease, -⟩ := lease_of_held hheld
      rw [leaseOf, hlease]
      refine ⟨?_, fun _ _ => trivial⟩
      rintro _ ⟨⟩
      split_ifs with hsame
      obtain rfl : lease.holder = name := by simpa using hsame
      apply wp_append h (e := .release itemId lease.holder verdict moment)
        ⟨(token_of_required hitem).2, (token_of_required hholder).2, ?_⟩
      · intro q' hserving hcatalog
        exact ⟨_, .released hitem hholder hresult hcurrent hheld hlease, hserving, hcatalog⟩
      · trivial
      · obtain ⟨s, rfl, rfl, hverdict⟩ := result_of_required hresult
        exact ⟨hverdict, fun c hc => htyped c (mem_of_mem_strip hc)⟩

theorem answers (h : Serving q entries) {call : Call} (htyped : call.Typed) :
  Answers q entries moment call (perform moment call)
  := by
  cases call with
  | claim item holder ttl host prs => exact answers_claim h item holder ttl host prs
  | renew item holder ttl => exact answers_renew h item holder ttl
  | release item holder result => exact answers_release h item holder result htyped

theorem serves_of_call (h : Serving q entries) {call : Call} (htyped : call.Typed) {reply : Reply}
    (hreply : (q.call call moment).1 = .ok reply) :
  ∃ entry, Serves ((after q.catalog entries).map (expire moment)) moment call reply entry ∧
    Serving (q.call call moment).2 (entries ++ entry.toList) ∧
    (q.call call moment).2.catalog = q.catalog
  := by
  have hanswers : Answers q entries moment call (perform moment call) := answers h htyped
  unfold Answers wp at hanswers
  unfold Queue.call at hreply ⊢
  split at hanswers
  · next r q' heq =>
    rw [heq] at hreply ⊢
    cases hreply
    exact hanswers
  · next heq =>
    rw [heq] at hreply
    cases hreply

theorem unchanged_of_call (h : Serving q entries) {call : Call} (htyped : call.Typed) {why : Exc}
    (hwhy : (q.call call moment).1 = .error why) :
  (q.call call moment).2 = q
  := by
  have hanswers : Answers q entries moment call (perform moment call) := answers h htyped
  unfold Answers wp at hanswers
  unfold Queue.call at hwhy ⊢
  split at hanswers
  · next heq =>
    rw [heq] at hwhy
    cases hwhy
  · next heq =>
    rw [heq]
    exact hanswers

end Courier.WorkQueue
