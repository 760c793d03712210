import Courier.Outbox.Journal

/-!
# Passes over the outbox

Whatever happens during a pass over valid entries, no entry is run whose effect key has a confirmation in
the journal (`resumeEntries_covers`).  A pass that writes cleanly skips only what is confirmed, if no entry is
taken for another (`resumeEntries_backed`), and so does a cleanup (`cleanupEntries_spec`). -/

namespace Courier.Outbox

open Text

/-! ### Entries -/

def Entry.Valid (entry : Entry) : Prop :=
  (Json.get entry.data (text "dispatch_id") = .null ∨
      ∃ s, Json.get entry.data (text "dispatch_id") = .str s) ∧
    ∃ id, entry.dispatchId = .str id ∧ blank id = false

def Entry.Owns (entry : Entry) (key id : Str) : Prop :=
  key = entry.effectKey ∨ .str id = entry.dispatchId

def Entry.MistakenFor (entry : Entry) (key id : Str) : Prop :=
  id = entry.effectKey ∨ .str key = entry.dispatchId

def Entry.Confirmed (entry : Entry) (j : Journal) : Prop :=
  ∃ key id, j.Confirms key id ∧ entry.Owns key id

def Entry.Apart (entry : Entry) (j : Journal) (key id : Str) : Prop :=
  entry.MistakenFor key id → entry.Owns key id ∨ entry.Confirmed j

def Entry.Open (entry : Entry) (j : Journal) : Prop :=
  ¬ ∃ id, j.Confirms entry.effectKey id

/-- What is run was not confirmed. -/
def Act.NoReplay : Act → Prop
  | .ran entry j => entry.Open j
  | _ => True

def Act.Kept : Act → Prop
  | .ran _ _ => True
  | .skipped entry j => entry.Confirmed j
  | .deleted entry j => entry.Confirmed j

theorem isIn_str (s : Str) (confirmed : List Json) :
  isIn (.str s) confirmed = .ok (decide (.str s ∈ confirmed))
  := rfl

theorem isDone_eq {entry : Entry} (hvalid : entry.Valid) (pass : Pass) :
  pass.isDone entry = .ok (decide (.str entry.effectKey ∈ pass.confirmed ∨
    entry.dispatchId ∈ pass.confirmed ∨ entry.effectKey ∈ pass.seen))
  := by
  obtain ⟨-, id, hid, -⟩ := hvalid
  rw [Pass.isDone, hid, isIn_str, isIn_str, Except.ok_bind]
  by_cases hkey : Json.str entry.effectKey ∈ pass.confirmed
  · simp [hkey, pure, Except.pure]
  · simp [hkey, pure, Except.pure, Bool.decide_or]

/-! ### Never twice -/

structure Pass.Covers (pass : Pass) : Prop where
  sound : pass.journal.Sound
  covers : ∀ key id, pass.journal.Confirms key id → .str key ∈ pass.confirmed

theorem execute_cases {entry : Entry} {id : Str} (hid : entry.dispatchId = .str id)
    (hblank : blank id = false) (pass : Pass) (fate : Fate) :
  (∃ stopped timestamp cut, pass.execute entry fate = .error stopped ∧ stopped.acts = [] ∧
      (cut ≠ .nothing → fate = .cut cut timestamp) ∧
      stopped.journal = pass.journal.append (confirmation entry.effectKey id timestamp) cut ∧
      ∀ timestamp, fate ≠ .done timestamp) ∨
    ∃ timestamp pass', fate = .done timestamp ∧ pass.execute entry fate = .ok pass' ∧
      pass'.journal = pass.journal.append (confirmation entry.effectKey id timestamp) .whole ∧
      pass'.confirmed = .str id :: .str entry.effectKey :: pass.confirmed ∧
      pass'.seen = entry.effectKey :: pass.seen
  := by
  cases fate with
  | killed => exact .inl ⟨_, [], .nothing, rfl, rfl, by simp, rfl, by simp⟩
  | raises => exact .inl ⟨_, [], .nothing, rfl, rfl, by simp, rfl, by simp⟩
  | cut c timestamp =>
    simp only [Pass.execute, hid, recordConfirmation_eq entry.notBlank hblank]
    exact .inl ⟨_, timestamp, c, rfl, rfl, fun _ => rfl, rfl, by simp⟩
  | done timestamp =>
    simp only [Pass.execute, hid, recordConfirmation_eq entry.notBlank hblank]
    exact .inr ⟨timestamp, _, rfl, rfl, rfl, rfl, rfl⟩

/-- A pass runs no entry whose effect key is confirmed, and leaves a sound journal. -/
theorem resumeEntries_covers {entries : List Entry} (hvalid : ∀ entry ∈ entries, entry.Valid)
    {fates : List Fate} {pass : Pass} (h : pass.Covers) :
  (resumeEntries entries fates pass).journal.Sound ∧
    ∀ act ∈ (resumeEntries entries fates pass).acts, act.NoReplay
  := by
  induction entries generalizing fates pass with
  | nil => exact ⟨h.sound, by simp [resumeEntries]⟩
  | cons entry entries ih =>
    have hrest : ∀ e ∈ entries, e.Valid := fun e he => hvalid e (List.mem_cons_of_mem _ he)
    have hentry := hvalid entry (by simp)
    obtain ⟨id, hid, hblank⟩ := hentry.2
    cases fates with
    | nil => exact ⟨h.sound, by simp [resumeEntries]⟩
    | cons fate fates =>
      rw [resumeEntries, isDone_eq hentry]
      split
      · next heq => cases heq
      · have hcovers : (pass.skip entry).Covers := ⟨h.sound, h.covers⟩
        have hskip := @ih hrest fates _ hcovers
        refine ⟨hskip.1, ?_⟩
        intro act hact
        rcases List.mem_cons.mp hact with rfl | hact
        · trivial
        · exact hskip.2 act hact
      · next heq =>
        have hopen : entry.Open pass.journal := by
          rintro ⟨i, hconfirms⟩
          have hin := h.covers _ _ hconfirms
          simp [hin] at heq
        obtain ⟨stopped, timestamp, cut, hexec, hacts, -, hjournal, -⟩ |
          ⟨timestamp, pass', -, hexec, hjournal, hconfirmed, -⟩ := execute_cases hid hblank pass fate
        · rw [hexec]
          refine ⟨?_, ?_⟩
          · change stopped.journal.Sound
            rw [hjournal]
            exact h.sound.append entry.notBlank hblank timestamp cut
          · intro act hact
            change act ∈ _ :: stopped.acts at hact
            rw [hacts, List.mem_singleton] at hact
            subst hact
            exact hopen
        · rw [hexec]
          have hcovers : pass'.Covers := by
            constructor
            · rw [hjournal]
              exact h.sound.append entry.notBlank hblank timestamp .whole
            · intro k i hconfirms
              rw [hjournal] at hconfirms
              rw [hconfirmed]
              obtain hbefore | ⟨rfl, -⟩ := confirms_append hconfirms
              · exact List.mem_cons_of_mem _ (List.mem_cons_of_mem _ (h.covers k i hbefore))
              · simp
          have hmore := @ih hrest fates _ hcovers
          refine ⟨hmore.1, ?_⟩
          intro act hact
          rcases List.mem_cons.mp hact with rfl | hact
          · exact hopen
          · exact hmore.2 act hact

/-! ### Steady passes -/

/-- What happens to an entry that is run leaves no torn line. -/
def Fate.Clean (ended : Bool) : Fate → Prop
  | .killed => True
  | .raises => True
  | .cut c _ => c.Clean ended
  | .done _ => ended = true

/-- Every line a pass writes is written cleanly. -/
def Pass.Clean : List Entry → List Fate → Pass → Prop
  | entry :: entries, fate :: fates, pass =>
      match pass.isDone entry with
      | .error _ => True
      | .ok true => Pass.Clean entries fates (pass.skip entry)
      | .ok false => fate.Clean pass.journal.ended ∧
          ∀ pass', pass.execute entry fate = .ok pass' → Pass.Clean entries fates pass'
  | _, _, _ => True

/-- What a pass over the entries `all` that began with the journal `j` knows. -/
structure Pass.Backed (all : List Entry) (j : Journal) (pass : Pass) : Prop where
  intact : pass.journal.Intact
  kept : ∀ key id, j.Confirms key id → pass.journal.Confirms key id
  confirmed : ∀ v ∈ pass.confirmed,
    ∃ key id, pass.journal.Confirms key id ∧ (v = .str key ∨ v = .str id)
  seen : ∀ key ∈ pass.seen, ∃ id, pass.journal.Confirms key id
  source : ∀ key id, pass.journal.Confirms key id →
    j.Confirms key id ∨ ∃ entry ∈ all, entry.effectKey = key ∧ entry.dispatchId = .str id

theorem confirmed_of_apart {entry : Entry} {j j' : Journal} {v : Json} {key id : Str}
    (hentry : v = .str entry.effectKey ∨ v = entry.dispatchId) (hv : v = .str key ∨ v = .str id)
    (hconfirms : j'.Confirms key id) (hkept : ∀ k i, j.Confirms k i → j'.Confirms k i)
    (hapart : entry.Apart j key id) :
  entry.Confirmed j'
  := by
  have hcases : entry.Owns key id ∨ entry.MistakenFor key id := by
    rcases hentry with rfl | rfl
    · rcases hv with hv | hv
      · exact .inl (.inl (Json.str.inj hv).symm)
      · exact .inr (.inl (Json.str.inj hv).symm)
    · rcases hv with hv | hv
      · exact .inr (.inr hv.symm)
      · exact .inl (.inr hv.symm)
  rcases hcases with howns | hmistaken
  · exact ⟨key, id, hconfirms, howns⟩
  · rcases hapart hmistaken with howns | ⟨k, i, hbefore, howns⟩
    · exact ⟨key, id, hconfirms, howns⟩
    · exact ⟨k, i, hkept k i hbefore, howns⟩

theorem Pass.Backed.skip {all : List Entry} {j : Journal} {pass : Pass} (h : pass.Backed all j)
    (entry : Entry) :
  (pass.skip entry).Backed all j
  where
  intact := h.intact
  kept := h.kept
  confirmed := h.confirmed
  seen := h.seen
  source := h.source

theorem Pass.Backed.run {all : List Entry} {j : Journal} {pass pass' : Pass} (h : pass.Backed all j)
    {entry : Entry} (hentry : entry ∈ all) {id timestamp : Str} (hid : entry.dispatchId = .str id)
    (hended : pass.journal.ended = true)
    (hjournal : pass'.journal = pass.journal.append (confirmation entry.effectKey id timestamp) .whole)
    (hconfirmed : pass'.confirmed = .str id :: .str entry.effectKey :: pass.confirmed)
    (hseen : pass'.seen = entry.effectKey :: pass.seen) :
  pass'.Backed all j
  := by
  have hclean : Cut.whole.Clean pass.journal.ended := hended
  have hkept : ∀ k i, pass.journal.Confirms k i → pass'.journal.Confirms k i := by
    intro k i hconfirms
    rw [hjournal]
    exact confirms_of_clean hclean hconfirms
  have hnew : pass'.journal.Confirms entry.effectKey id := by
    rw [hjournal]
    exact confirms_whole hended timestamp
  constructor
  · rw [hjournal]
    exact h.intact.append hclean _
  · exact fun k i hconfirms => hkept k i (h.kept k i hconfirms)
  · intro v hv
    rw [hconfirmed] at hv
    rcases List.mem_cons.mp hv with rfl | hv
    · exact ⟨entry.effectKey, id, hnew, .inr rfl⟩
    · rcases List.mem_cons.mp hv with rfl | hv
      · exact ⟨entry.effectKey, id, hnew, .inl rfl⟩
      · obtain ⟨k, i, hconfirms, hki⟩ := h.confirmed v hv
        exact ⟨k, i, hkept k i hconfirms, hki⟩
  · intro key hkey
    rw [hseen] at hkey
    rcases List.mem_cons.mp hkey with rfl | hkey
    · exact ⟨id, hnew⟩
    · obtain ⟨i, hconfirms⟩ := h.seen key hkey
      exact ⟨i, hkept key i hconfirms⟩
  · intro k i hconfirms
    rw [hjournal] at hconfirms
    obtain hbefore | ⟨rfl, rfl⟩ := confirms_append hconfirms
    · exact h.source k i hbefore
    · exact .inr ⟨entry, hentry, rfl, hid⟩

/-- A steady pass skips no entry that is not confirmed, and leaves no torn line. -/
theorem resumeEntries_backed {all entries : List Entry} (hall : ∀ entry ∈ entries, entry ∈ all)
    (hvalid : ∀ entry ∈ entries, entry.Valid) {j : Journal}
    (hapart : ∀ entry ∈ all, ∀ key id,
      (j.Confirms key id ∨ ∃ other ∈ all, other.effectKey = key ∧ other.dispatchId = .str id) →
      entry.Apart j key id)
    {fates : List Fate} {pass : Pass} (h : pass.Backed all j) (hclean : Pass.Clean entries fates pass) :
  (resumeEntries entries fates pass).journal.Intact ∧
    ∀ act ∈ (resumeEntries entries fates pass).acts, act.Kept
  := by
  induction entries generalizing fates pass with
  | nil => exact ⟨h.intact, by simp [resumeEntries]⟩
  | cons entry entries ih =>
    have hmem : ∀ e ∈ entries, e ∈ all := fun e he => hall e (List.mem_cons_of_mem _ he)
    have hrest : ∀ e ∈ entries, e.Valid := fun e he => hvalid e (List.mem_cons_of_mem _ he)
    have hentry := hvalid entry (by simp)
    obtain ⟨id, hid, hblank⟩ := hentry.2
    cases fates with
    | nil => exact ⟨h.intact, by simp [resumeEntries]⟩
    | cons fate fates =>
      rw [resumeEntries]
      rw [Pass.Clean] at hclean
      rw [isDone_eq hentry] at hclean ⊢
      split
      · next heq => cases heq
      · next heq =>
        rw [heq] at hclean
        have hskip := ih hmem hrest (h.skip entry) hclean
        refine ⟨hskip.1, ?_⟩
        intro act hact
        rcases List.mem_cons.mp hact with rfl | hact
        · have hdone := of_decide_eq_true (Except.ok.inj heq)
          rcases hdone with hkey | hid' | hseen
          · obtain ⟨k, i, hconfirms, hki⟩ := h.confirmed _ hkey
            exact confirmed_of_apart (.inl rfl) hki hconfirms h.kept
              (hapart entry (hall entry (by simp)) k i (h.source k i hconfirms))
          · obtain ⟨k, i, hconfirms, hki⟩ := h.confirmed _ hid'
            exact confirmed_of_apart (.inr rfl) hki hconfirms h.kept
              (hapart entry (hall entry (by simp)) k i (h.source k i hconfirms))
          · obtain ⟨i, hconfirms⟩ := h.seen _ hseen
            exact ⟨entry.effectKey, i, hconfirms, .inl rfl⟩
        · exact hskip.2 act hact
      · next heq =>
        rw [heq] at hclean
        obtain ⟨hfate, hgoing⟩ := hclean
        obtain ⟨stopped, timestamp, cut, hexec, hacts, hcut, hjournal, -⟩ |
          ⟨timestamp, pass', rfl, hexec, hjournal, hconfirmed, hseen⟩ :=
            execute_cases hid hblank pass fate
        · rw [hexec]
          have hwrite : cut.Clean pass.journal.ended := by
            by_cases hnothing : cut = .nothing
            · subst hnothing
              trivial
            · rw [hcut hnothing] at hfate
              exact hfate
          refine ⟨?_, ?_⟩
          · change stopped.journal.Intact
            rw [hjournal]
            exact h.intact.append hwrite _
          · intro act hact
            change _ ∈ _ :: stopped.acts at hact
            rw [hacts, List.mem_singleton] at hact
            subst hact
            trivial
        · rw [hexec]
          have hmore := ih hmem hrest
            (h.run (hall entry (by simp)) hid hfate hjournal hconfirmed hseen) (hgoing pass' hexec)
          refine ⟨hmore.1, ?_⟩
          intro act hact
          rcases List.mem_cons.mp hact with rfl | hact
          · trivial
          · exact hmore.2 act hact

/-! ### Complete passes -/

theorem resumeEntries_returns {entries : List Entry} (hvalid : ∀ entry ∈ entries, entry.Valid)
    {fates : List Fate} (hdone : ∀ fate ∈ fates, ∃ timestamp, fate = .done timestamp)
    (hlength : entries.length ≤ fates.length) (pass : Pass) :
  ∃ report, (resumeEntries entries fates pass).ending = .returned report
  := by
  induction entries generalizing fates pass with
  | nil => exact ⟨pass.report, rfl⟩
  | cons entry entries ih =>
    have hrest : ∀ e ∈ entries, e.Valid := fun e he => hvalid e (List.mem_cons_of_mem _ he)
    have hentry := hvalid entry (by simp)
    obtain ⟨id, hid, hblank⟩ := hentry.2
    cases fates with
    | nil => simp at hlength
    | cons fate fates =>
      have hmore : ∀ f ∈ fates, ∃ timestamp, f = .done timestamp :=
        fun f hf => hdone f (List.mem_cons_of_mem _ hf)
      have hle : entries.length ≤ fates.length := by simpa using hlength
      rw [resumeEntries, isDone_eq hentry]
      split
      · next heq => cases heq
      · exact ih hrest hmore hle (pass.skip entry)
      · obtain ⟨stopped, -, -, -, -, -, -, hnot⟩ | ⟨-, pass', -, hexec, -⟩ :=
          execute_cases hid hblank pass fate
        · obtain ⟨timestamp, hfate⟩ := hdone fate (by simp)
          exact absurd hfate (hnot timestamp)
        · rw [hexec]
          exact ih hrest hmore hle pass'

/-! ### Cleaning up -/

theorem Journal.Sound.not_blank {j : Journal} (h : j.Sound) {key id : Str} (hconfirms : j.Confirms key id) :
  blank key = false ∧ blank id = false
  := by
  obtain ⟨timestamp, hmem⟩ := hconfirms
  obtain hnone | ⟨k, i, ts, hk, hi, heq⟩ := h _ hmem
  · cases hnone
  · obtain ⟨rfl, rfl⟩ := confirmation_injective (Option.some.inj heq)
    exact ⟨hk, hi⟩

section Cleanup

variable {entry : Entry} (hvalid : entry.Valid)

include hvalid in
theorem givenId_cases :
  entry.givenId = .null ∨ entry.givenId = .str [] ∨ entry.givenId = entry.dispatchId
  := by
  unfold Entry.givenId Entry.dispatchId
  rcases hvalid.1 with hnull | ⟨s, hs⟩
  · split
    · exact .inl hnull
    · rw [hnull]
      exact .inr (.inr rfl)
  · have hhas : Json.hasKey entry.data (text "dispatch_id") = true := by
      unfold Json.get at hs
      unfold Json.hasKey
      cases hlookup : entry.data.lookup (text "dispatch_id") with
      | none =>
        rw [hlookup] at hs
        cases hs
      | some v => rfl
    rw [if_pos hhas, hs]
    cases s with
    | nil => exact .inr (.inl rfl)
    | cons c s => exact .inr (.inr rfl)

include hvalid in
theorem isConfirmed_eq {j : Journal} (hsound : j.Sound) {confirmed : List Json} (hkeys : j.Keys confirmed) :
  isConfirmed confirmed entry =
    .ok (decide (.str entry.effectKey ∈ confirmed ∨ entry.dispatchId ∈ confirmed ∧
      entry.givenId = entry.dispatchId))
  := by
  have hgiven : isIn entry.givenId confirmed =
      .ok (decide (entry.dispatchId ∈ confirmed ∧ entry.givenId = entry.dispatchId)) := by
    obtain ⟨id, hid, hblank⟩ := hvalid.2
    have hne : id ≠ [] := ne_nil_of_not_blank hblank
    rcases givenId_cases hvalid with hnull | hempty | hsame
    · have hnot : Json.null ∉ confirmed := by
        intro hmem
        obtain ⟨k, i, -, hki | hki⟩ := (hkeys _).mp hmem
        · cases hki
        · cases hki
      simp [isIn, hnull, hashable, hnot, hid]
    · have hnot : Json.str [] ∉ confirmed := by
        intro hmem
        obtain ⟨k, i, hconfirms, hki⟩ := (hkeys _).mp hmem
        obtain ⟨hk, hi⟩ := hsound.not_blank hconfirms
        rcases hki with hki | hki
        · cases hki
          cases hk
        · cases hki
          cases hi
      simp [isIn, hempty, hashable, hnot, hid, Ne.symm hne]
    · simp [isIn, hsame, hid, hashable]
  rw [isConfirmed, isIn_str, Except.ok_bind, hgiven]
  by_cases hkey : Json.str entry.effectKey ∈ confirmed
  · simp [hkey, pure, Except.pure]
  · simp [hkey]

end Cleanup

/-- What is removed is confirmed; nothing is added to the outbox; and with enough time the loop
returns. -/
theorem cleanupEntries_spec {j : Journal} (hsound : j.Sound) {confirmed : List Json}
    (hkeys : j.Keys confirmed) {entries : List Entry} (hvalid : ∀ entry ∈ entries, entry.Valid)
    (time : Nat) (outbox : Files) (removed : List Json) :
  (∀ file ∈ (cleanupEntries j confirmed entries time outbox removed).outbox.entries,
      file ∈ outbox.entries) ∧
    (entries.length ≤ time →
      ∃ ids, (cleanupEntries j confirmed entries time outbox removed).ending = .returned ids) ∧
    ∀ act ∈ (cleanupEntries j confirmed entries time outbox removed).acts,
      ∃ entry ∈ entries, act = .deleted entry j ∧
        (.str entry.effectKey ∈ confirmed ∨ entry.dispatchId ∈ confirmed)
  := by
  induction entries generalizing time outbox removed with
  | nil =>
    refine ⟨fun file hfile => hfile, fun _ => ⟨removed, rfl⟩, ?_⟩
    simp [cleanupEntries]
  | cons entry entries ih =>
    have hrest : ∀ e ∈ entries, e.Valid := fun e he => hvalid e (List.mem_cons_of_mem _ he)
    cases time with
    | zero =>
      refine ⟨fun file hfile => hfile, fun hle => ?_, ?_⟩
      · simp at hle
      · simp [cleanupEntries]
    | succ time =>
      rw [cleanupEntries, isConfirmed_eq (hvalid entry (by simp)) hsound hkeys]
      split
      · next heq => cases heq
      · obtain ⟨hfiles, hreturns, hacts⟩ := ih hrest time outbox removed
        refine ⟨hfiles, fun hle => hreturns (by simpa using hle), ?_⟩
        intro act hact
        obtain ⟨e, he, hact⟩ := hacts act hact
        exact ⟨e, List.mem_cons_of_mem _ he, hact⟩
      · next heq =>
        obtain ⟨hfiles, hreturns, hacts⟩ :=
          ih hrest time (outbox.erase entry.name) (removed ++ [entry.givenId])
        refine ⟨?_, fun hle => hreturns (by simpa using hle), ?_⟩
        · intro file hfile
          exact (List.mem_filter.mp (hfiles file hfile)).1
        · intro act hact
          rcases List.mem_cons.mp hact with rfl | hact
          · have hdone := of_decide_eq_true (Except.ok.inj heq)
            exact ⟨entry, by simp, rfl, hdone.imp id And.left⟩
          · obtain ⟨e, he, hact⟩ := hacts act hact
            exact ⟨e, List.mem_cons_of_mem _ he, hact⟩

end Courier.Outbox
