import Courier.Outbox.Passes

/-!
# Restarts of the outbox

Whatever the journal, a restart refuses every outbox with a result in it that the worker left.  An outbox of
valid entries is resumed as it should be as long as no line of the journal is torn or continued, and no effect
key is mistaken for a dispatch id (`restart_gate`). -/

namespace Courier.Outbox

open Text

/-! ### Runs -/

structure World.Valid (world : World) : Prop where
  files : ∀ outbox, world.outbox = some outbox →
    ∀ file ∈ outbox.entries, ∃ entry, readEntry file = .ok entry ∧ entry.Valid
  journal : world.journal.Sound

def Event.Valid : Event → Prop
  | .place name content => ∃ entry, readEntry (name, some content) = .ok entry ∧ entry.Valid
  | _ => True

/-- Nothing tears or continues a line of the journal, and no entry is taken for another that is confirmed,
or may be in the same pass. -/
def World.Fit (world : World) : Event → Prop
  | .place _ _ => True
  | .confirm key id _ cut =>
      (nonBlank key).isSome → (nonBlank id).isSome → cut.Clean world.journal.ended
  | .resume fates => ∀ outbox entries confirmed, world.outbox = some outbox →
      readEntries outbox = .ok entries → loadConfirmedKeys world.journal = .ok confirmed →
      Pass.Clean entries fates { journal := world.journal, confirmed } ∧
        ∀ entry ∈ entries, ∀ key id,
          (world.journal.Confirms key id ∨
            ∃ other ∈ entries, other.effectKey = key ∧ other.dispatchId = .str id) →
          entry.Apart world.journal key id
  | .cleanup _ => ∀ outbox entries, world.outbox = some outbox → readEntries outbox = .ok entries →
      ∀ entry ∈ entries, ∀ key id, world.journal.Confirms key id → entry.Apart world.journal key id

structure World.Restarts (world : World) : Prop where
  resumes : ∀ fates, (∀ fate ∈ fates, ∃ timestamp, fate = .done timestamp) →
    (glob (world.outbox.getD ∅)).length ≤ fates.length →
    ∃ report, (resumeOutbox world.outbox world.journal fates).ending = .returned report
  cleans : ∀ outbox time, world.outbox = some outbox → (glob outbox).length ≤ time →
    ∃ ids, (cleanupConfirmed outbox world.journal time).ending = .returned ids

theorem World.Valid.entries {world : World} (h : world.Valid) {outbox : Files}
    (houtbox : world.outbox = some outbox) :
  ∃ entries, readEntries outbox = .ok entries ∧ (∀ entry ∈ entries, entry.Valid) ∧
    entries.length = (glob outbox).length
  := by
  obtain ⟨entries, hread, hvalid⟩ := readEntries_of_all (h.files outbox houtbox)
  refine ⟨entries, hread, hvalid, ?_⟩
  rw [← (Except.mapM_eq_ok.mp hread).length_eq, sortedGlob, (List.perm_insertionSort _ _).length_eq]

theorem World.Valid.restarts {world : World} (h : world.Valid) (hintact : world.journal.Intact) :
  world.Restarts
  := by
  obtain ⟨confirmed, hload⟩ := load_of_intact h.journal hintact
  constructor
  · intro fates hdone hlength
    cases houtbox : world.outbox with
    | none => exact ⟨{}, rfl⟩
    | some outbox =>
      obtain ⟨entries, hread, hvalid, hcount⟩ := h.entries houtbox
      simp only [resumeOutbox, hread, hload]
      apply resumeEntries_returns hvalid hdone
      rw [houtbox] at hlength
      exact hcount ▸ hlength
  · intro outbox time houtbox hlength
    obtain ⟨entries, hread, hvalid, hcount⟩ := h.entries houtbox
    simp only [cleanupConfirmed, hread, hload]
    exact (cleanupEntries_spec h.journal (keys_of_load h.journal hload).2 hvalid time outbox []).2.1
      (hcount ▸ hlength)

theorem World.Valid.resume {world : World} (h : world.Valid) (fates : List Fate) :
  (resumeOutbox world.outbox world.journal fates).journal.Sound ∧
    ∀ act ∈ (resumeOutbox world.outbox world.journal fates).acts, act.NoReplay
  := by
  cases houtbox : world.outbox with
  | none => exact ⟨h.journal, by simp [resumeOutbox]⟩
  | some outbox =>
    obtain ⟨entries, hread, hvalid, -⟩ := h.entries houtbox
    simp only [resumeOutbox, hread]
    cases hload : loadConfirmedKeys world.journal with
    | error e => exact ⟨h.journal, by simp⟩
    | ok confirmed =>
      have hkeys := (keys_of_load h.journal hload).2
      apply resumeEntries_covers hvalid
      exact ⟨h.journal, fun key id hconfirms => (hkeys _).mpr ⟨key, id, hconfirms, .inl rfl⟩⟩

theorem World.Valid.cleanup {world : World} (h : world.Valid) {outbox : Files}
    (houtbox : world.outbox = some outbox) (time : Nat) :
  (∀ file ∈ (cleanupConfirmed outbox world.journal time).outbox.entries, file ∈ outbox.entries) ∧
    ∀ act ∈ (cleanupConfirmed outbox world.journal time).acts, act.NoReplay
  := by
  obtain ⟨entries, hread, hvalid, -⟩ := h.entries houtbox
  simp only [cleanupConfirmed, hread]
  cases hload : loadConfirmedKeys world.journal with
  | error e => exact ⟨fun file hfile => hfile, by simp⟩
  | ok confirmed =>
    obtain ⟨hfiles, -, hacts⟩ :=
      cleanupEntries_spec h.journal (keys_of_load h.journal hload).2 hvalid time outbox []
    refine ⟨hfiles, ?_⟩
    intro act hact
    obtain ⟨e, -, rfl, -⟩ := hacts act hact
    trivial

theorem World.Valid.step {world : World} (h : world.Valid) {e : Event} (he : e.Valid) :
  (world.step e).Valid ∧ ∀ act ∈ world.acts e, act.NoReplay
  := by
  cases e with
  | place name content =>
    refine ⟨⟨?_, h.journal⟩, by simp [World.acts]⟩
    intro outbox houtbox file hfile
    cases houtbox
    obtain ⟨k, v⟩ := file
    rw [← Dict.get?_eq_some, Dict.get?_set] at hfile
    split at hfile
    · next heq =>
      subst heq
      cases hfile
      exact he
    · rw [Dict.get?_eq_some] at hfile
      cases hold : world.outbox with
      | none =>
        rw [hold] at hfile
        cases hfile
      | some old =>
        rw [hold] at hfile
        exact h.files old hold _ hfile
  | confirm key id timestamp cut =>
    refine ⟨?_, by simp [World.acts]⟩
    simp only [World.step]
    split
    · exact h
    · next j hrecord =>
      refine ⟨h.files, ?_⟩
      obtain ⟨k, i, -, -, hk, hi, rfl⟩ := recordConfirmation_ok hrecord
      exact h.journal.append hk hi timestamp cut
  | resume fates =>
    obtain ⟨hsound, hacts⟩ := h.resume fates
    exact ⟨⟨h.files, hsound⟩, hacts⟩
  | cleanup time =>
    cases houtbox : world.outbox with
    | none =>
      refine ⟨?_, by simp [World.acts, houtbox]⟩
      constructor
      · intro outbox houtbox'
        simp [World.step, houtbox] at houtbox'
      · exact h.journal
    | some outbox =>
      obtain ⟨hfiles, hacts⟩ := h.cleanup houtbox time
      refine ⟨⟨?_, h.journal⟩, by simpa [World.acts, houtbox] using hacts⟩
      intro outbox' houtbox' file hfile
      simp only [World.step, houtbox, Option.map_some, Option.some.injEq] at houtbox'
      subst houtbox'
      exact h.files outbox houtbox file (hfiles file hfile)

/-- A fit step tears no line, and skips or deletes only what is confirmed. -/
theorem World.Valid.fit {world : World} (h : world.Valid) (hintact : world.journal.Intact) {e : Event}
    (he : e.Valid) (hfit : world.Fit e) :
  (world.step e).journal.Intact ∧ ∀ act ∈ world.acts e, act.Kept
  := by
  cases e with
  | place name content => exact ⟨hintact, by simp [World.acts]⟩
  | confirm key id timestamp cut =>
    refine ⟨?_, by simp [World.acts]⟩
    simp only [World.step]
    split
    · exact hintact
    · next j hrecord =>
      obtain ⟨k, i, hkey, hid, -, -, rfl⟩ := recordConfirmation_ok hrecord
      exact hintact.append (hfit (by simp [hkey]) (by simp [hid])) _
  | resume fates =>
    cases houtbox : world.outbox with
    | none => exact ⟨by simpa [World.step, resumeOutbox, houtbox] using hintact,
      by simp [World.acts, resumeOutbox, houtbox]⟩
    | some outbox =>
      obtain ⟨entries, hread, hvalid, -⟩ := h.entries houtbox
      obtain ⟨confirmed, hload⟩ := load_of_intact h.journal hintact
      obtain ⟨hclean, hapart⟩ := hfit outbox entries confirmed houtbox hread hload
      have hkeys := (keys_of_load h.journal hload).2
      have hbacked : Pass.Backed entries world.journal { journal := world.journal, confirmed } :=
        { intact := hintact
          kept := fun _ _ hconfirms => hconfirms
          confirmed := fun v hv => (hkeys v).mp hv
          seen := by simp
          source := fun _ _ hconfirms => .inl hconfirms }
      obtain ⟨hlines, hskips⟩ :=
        resumeEntries_backed (fun _ he => he) hvalid hapart hbacked hclean
      have heq : resumeOutbox world.outbox world.journal fates =
          resumeEntries entries fates { journal := world.journal, confirmed } := by
        simp only [resumeOutbox, houtbox, hread, hload]
      refine ⟨?_, ?_⟩
      · simp only [World.step, heq]
        exact hlines
      · simp only [World.acts, heq]
        exact hskips
  | cleanup time =>
    cases houtbox : world.outbox with
    | none => exact ⟨hintact, by simp [World.acts, houtbox]⟩
    | some outbox =>
      refine ⟨hintact, ?_⟩
      obtain ⟨entries, hread, hvalid, -⟩ := h.entries houtbox
      obtain ⟨confirmed, hload⟩ := load_of_intact h.journal hintact
      have hkeys := (keys_of_load h.journal hload).2
      have hapart := hfit outbox entries houtbox hread
      obtain ⟨-, -, hacts⟩ := cleanupEntries_spec h.journal hkeys hvalid time outbox []
      intro act hact
      simp only [World.acts, houtbox, cleanupConfirmed, hread, hload] at hact
      obtain ⟨entry, hentry, rfl, hmem | hmem⟩ := hacts act hact
      · obtain ⟨key, id, hconfirms, hv⟩ := (hkeys _).mp hmem
        exact confirmed_of_apart (.inl rfl) hv hconfirms (fun _ _ hc => hc)
          (hapart entry hentry key id hconfirms)
      · obtain ⟨key, id, hconfirms, hv⟩ := (hkeys _).mp hmem
        exact confirmed_of_apart (.inr rfl) hv hconfirms (fun _ _ hc => hc)
          (hapart entry hentry key id hconfirms)

def Ending.Corrupt {α : Type} : Ending α → Prop
  | .raised e => e.IsCorruptEntry
  | _ => False

theorem addTruthy_error {confirmed : List Json} {data : Members} {key : Str} {e : Raised}
    (h : addTruthy confirmed data key = .error e) :
  e = .typeError
  := by
  simp only [addTruthy] at h
  split at h
  · split at h
    · cases h
    · cases h
      rfl
  · cases h

theorem load_not_corrupt {j : Journal} {e : Raised} (h : loadConfirmedKeys j = .error e) :
  ¬ e.IsCorruptEntry
  := by
  have key : ∀ (lines : List (Option Json)) (confirmed : List Json),
      lines.foldlM addLine confirmed = .error e → ¬ e.IsCorruptEntry := by
    intro lines
    induction lines with
    | nil => exact fun confirmed hnil => nomatch hnil
    | cons line lines ih =>
      rintro confirmed hcons ⟨corrupt, name, rfl⟩
      rw [List.foldlM_cons] at hcons
      cases hline : addLine confirmed line with
      | ok confirmed' =>
        rw [hline] at hcons
        exact ih confirmed' hcons ⟨corrupt, name, rfl⟩
      | error e' =>
        rw [hline] at hcons
        cases hcons
        unfold addLine at hline
        split at hline
        · cases hline
        · next data =>
          cases hfirst : addTruthy confirmed data (text "effect_key") with
          | error e' =>
            rw [hfirst] at hline
            cases hline
            cases addTruthy_error hfirst
          | ok confirmed' =>
            rw [hfirst] at hline
            cases addTruthy_error hline
        · cases hline
  exact key j.lines [] h

section Restart

variable [Platform]

theorem Delivered.corrupt_iff {outbox : Files} (h : Delivered outbox) (j : Journal) (fates : List Fate)
    (time : Nat) :
  (¬ (resumeOutbox (some outbox) j fates).ending.Corrupt ∧
      ¬ (cleanupConfirmed outbox j time).ending.Corrupt) ↔ outbox = ∅
  := by
  obtain ⟨hempty, hread⟩ | ⟨hne, name, hread⟩ := h.readEntries
  · simp only [hempty, iff_true]
    subst hempty
    simp only [resumeOutbox, cleanupConfirmed, hread]
    cases hload : loadConfirmedKeys j with
    | error e => exact ⟨load_not_corrupt hload, load_not_corrupt hload⟩
    | ok confirmed => exact ⟨fun hcorrupt => hcorrupt, fun hcorrupt => hcorrupt⟩
  · simp only [hne, iff_false, not_and]
    intro hresume
    simp only [resumeOutbox, hread] at hresume
    exact absurd ⟨_, _, rfl⟩ hresume

/-- The gate processes the outbox the worker left exactly if it is empty.  Over valid entries it replays nothing; and
without torn lines and mistaken entries it can be restarted and skips or deletes only what is confirmed. -/
theorem restart_gate :
  (∀ outbox, Delivered outbox → ∀ j fates time,
    ((¬ (resumeOutbox (some outbox) j fates).ending.Corrupt ∧
      ¬ (cleanupConfirmed outbox j time).ending.Corrupt) ↔ outbox = ∅)) ∧
  ∀ events : List Event, (∀ e ∈ events, e.Valid) →
    Run.Along World.step (fun world e => ∀ act ∈ world.acts e, act.NoReplay) {} events ∧
    (Run.Along World.step World.Fit {} events →
      (∀ first, first <+: events → (first.foldl World.step {}).Restarts) ∧
      Run.Along World.step (fun world e => ∀ act ∈ world.acts e, act.Kept) {} events)
  := by
  refine ⟨fun outbox h => h.corrupt_iff, fun events hvalid => ?_⟩
  have hstart : World.Valid {} := ⟨fun outbox h => (nomatch h), fun line h => (nomatch h)⟩
  have hevent : ∀ first e, first ++ [e] <+: events → e.Valid :=
    fun first e hinit => hvalid e (hinit.subset (by simp))
  have hworld : ∀ first, first <+: events → (first.foldl World.step {}).Valid :=
    Run.along_of (p := fun _ e => e.Valid) (fun _ _ h he => (h.step he).1) hstart hevent
  refine ⟨?_, fun hfit => ?_⟩
  · intro first e hinit
    have hfirst := hworld first ((List.prefix_append first [e]).trans hinit)
    exact (hfirst.step (hevent first e hinit)).2
  · have hboth : ∀ first, first <+: events → (first.foldl World.step {}).Valid ∧
        (first.foldl World.step {}).journal.Intact := by
      apply Run.along_of (I := fun world : World => world.Valid ∧ world.journal.Intact)
        (p := fun world e => e.Valid ∧ world.Fit e)
      · rintro world e ⟨h, hintact⟩ ⟨he, hfits⟩
        exact ⟨(h.step he).1, (h.fit hintact he hfits).1⟩
      · exact ⟨hstart, by simp [Journal.Intact]⟩
      · exact fun first e hinit => ⟨hevent first e hinit, hfit first e hinit⟩
    refine ⟨fun first hinit => ?_, fun first e hinit => ?_⟩
    · obtain ⟨h, hintact⟩ := hboth first hinit
      exact h.restarts hintact
    · obtain ⟨h, hintact⟩ := hboth first ((List.prefix_append first [e]).trans hinit)
      exact (h.fit hintact (hevent first e hinit) (hfit first e hinit)).2

end Restart

/-! ### A result, a torn line and a mistaken key -/

section Example

local instance platformOutbox : Platform := Platform.plain

def entryOf (effectKey dispatchId : String) : Members :=
  [(text "dispatch_id", .str (text dispatchId)), (text "effect_key", .str (text effectKey))]

theorem entryOf_valid {name effectKey dispatchId : String} (hkey : blank (text effectKey) = false)
    (hid : blank (text dispatchId) = false) :
  (Event.place (text name) (.obj (entryOf effectKey dispatchId))).Valid
  := by
  have hread : readEntry (text name, some (.obj (entryOf effectKey dispatchId))) =
      .ok ⟨text name, entryOf effectKey dispatchId, text effectKey, rfl, hkey⟩ := by
    simp only [readEntry]
    split
    · next s heq =>
      cases heq
      rw [dif_pos hkey]
    · next hnot => exact absurd rfl (hnot (text effectKey))
  refine ⟨_, hread, .inr ⟨text dispatchId, rfl⟩, text dispatchId, ?_, hid⟩
  have htruthy : (Json.str (text dispatchId)).truthy = true := by
    simpa [Json.truthy] using ne_nil_of_not_blank hid
  exact if_pos htruthy

def calmEvents : List Event :=
  [.place (text "a.json") (.obj (entryOf "k1" "d1")), .resume [.done (text "1.5")], .cleanup 1]

def calmEntry : Entry :=
  ⟨text "a.json", entryOf "k1" "d1", text "k1", rfl, rfl⟩

theorem calmEvents_fit :
  Run.Along World.step World.Fit {} calmEvents
  := by
  have hread : readEntries ((∅ : Files).set (text "a.json") (some (.obj (entryOf "k1" "d1")))) =
      .ok [calmEntry] := by
    decide +kernel
  refine Run.along_cons.mpr ⟨trivial, Run.along_cons.mpr ⟨?_, Run.along_cons.mpr ⟨?_, ?_⟩⟩⟩
  · intro outbox entries confirmed houtbox hentries hload
    cases houtbox
    cases hread.symm.trans hentries
    cases hload
    refine ⟨⟨rfl, fun pass' _ => trivial⟩, ?_⟩
    intro entry hentry key id hsource _
    obtain rfl := List.mem_singleton.mp hentry
    obtain ⟨timestamp, hmem⟩ | ⟨other, hother, rfl, -⟩ := hsource
    · cases hmem
    · obtain rfl := List.mem_singleton.mp hother
      exact .inl (.inl rfl)
  · intro outbox entries houtbox hentries entry hentry key id hconfirms _
    cases houtbox
    cases hread.symm.trans hentries
    obtain rfl := List.mem_singleton.mp hentry
    obtain ⟨timestamp, hmem⟩ := hconfirms
    obtain ⟨rfl, -⟩ := confirmation_injective (Option.some.inj (List.mem_singleton.mp hmem))
    exact .inl (.inl rfl)
  · intro first e hinit
    simp at hinit

/-- The gate can be restarted after an entry was left, run and removed. -/
theorem restart_gate_calm :
  (calmEvents.foldl World.step {}).Restarts ∧ (calmEvents.foldl World.step {}).outbox = some ∅
  := by
  have hvalid : ∀ e ∈ calmEvents, e.Valid := by
    intro e he
    simp only [calmEvents, List.mem_cons, List.not_mem_nil, or_false] at he
    rcases he with rfl | rfl | rfl
    · exact entryOf_valid (by decide) (by decide)
    · trivial
    · trivial
  exact ⟨((restart_gate.2 calmEvents hvalid).2 calmEvents_fit).1 calmEvents List.prefix_rfl,
    by decide +kernel⟩

def leftResult : Members :=
  Worker.buildSpecFailurePayload (text "d-1") (text "r-d-1") (text "spec-invalid: claim carries no task_id")

def leftOutbox : Files :=
  (∅ : Files).set (text "d-1.json") (some (.obj leftResult))

def tornEvents : List Event :=
  [.place (text "a.json") (.obj (entryOf "k1" "d1")), .resume [.cut .torn (text "1.5")]]

def mistakenEvents : List Event :=
  [.place (text "a.json") (.obj (entryOf "k1" "x")), .place (text "b.json") (.obj (entryOf "x" "d2"))]

/-- A failure that was written is refused; after a kill in a confirmation `resume_outbox` no longer succeeds; and an
entry is skipped for the confirmation of another. -/
theorem gate_refuses :
  (outboxWrite ∅ leftResult = .ok leftOutbox ∧ Delivered leftOutbox ∧
    (resumeOutbox (some leftOutbox) {} []).ending.Corrupt ∧
    (cleanupConfirmed leftOutbox {} 1).ending.Corrupt) ∧
  ((∀ e ∈ tornEvents, e.Valid) ∧ ¬ (tornEvents.foldl World.step {}).Restarts) ∧
  (∀ e ∈ mistakenEvents, e.Valid) ∧
    ∃ entry j, .skipped entry j ∈ (mistakenEvents.foldl World.step {}).acts
        (.resume [.done (text "1.5"), .done (text "2.5")]) ∧ ¬ entry.Confirmed j
  := by
  have hwrite : outboxWrite ∅ leftResult = .ok leftOutbox := by decide +kernel
  refine ⟨⟨hwrite, .failure _ _ _ .empty hwrite, ⟨_, _, rfl⟩, ⟨_, _, rfl⟩⟩, ⟨?_, ?_⟩, ?_, ?_⟩
  · intro e he
    simp only [tornEvents, List.mem_cons, List.not_mem_nil, or_false] at he
    rcases he with rfl | rfl
    · exact entryOf_valid (by decide) (by decide)
    · trivial
  · intro h
    obtain ⟨report, hreport⟩ := h.resumes [.done (text "2.5")] (by simp) (by decide +kernel)
    cases hreport
  · intro e he
    simp only [mistakenEvents, List.mem_cons, List.not_mem_nil, or_false] at he
    rcases he with rfl | rfl
    · exact entryOf_valid (by decide) (by decide)
    · exact entryOf_valid (by decide) (by decide)
  · refine ⟨⟨text "b.json", entryOf "x" "d2", text "x", rfl, rfl⟩,
      Journal.append {} (confirmation (text "k1") (text "x") (text "1.5")) .whole, ?_, ?_⟩
    · decide +kernel
    · rintro ⟨key, id, ⟨timestamp, hmem⟩, howns⟩
      obtain ⟨rfl, rfl⟩ := confirmation_injective (Option.some.inj (List.mem_singleton.mp hmem))
      rcases howns with hkey | hid
      · exact absurd hkey (by decide)
      · exact absurd (Json.str.inj hid) (by decide)

end Example

end Courier.Outbox
