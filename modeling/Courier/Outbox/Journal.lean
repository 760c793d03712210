import Courier.Outbox

/-!
# What a restart reads

A result that the worker left has no effect key, so a restart refuses its outbox (`Delivered.readEntries`).  The lines
of the journal are confirmations, or were torn (`Journal.Sound`); without a torn line the keys and ids of its
confirmations are loaded (`keys_of_load`).
-/

namespace Courier.Outbox

open Text

/-! ### Reading the outbox -/

theorem ne_nil_of_not_blank {s : Str} (h : blank s = false) :
  s ≠ []
  := by
  rintro rfl
  cases h

theorem readEntry_noEffectKey {name : Str} {data : Members}
    (h : Json.get data (text "effect_key") = .null) :
  readEntry (name, some (.obj data)) = .error (.restart (.entry .noEffectKey name))
  := by
  simp only [readEntry]
  split
  · next heq =>
    rw [h] at heq
    cases heq
  · rfl

variable {outbox : Files}

theorem mem_sortedGlob {file : Str × Option Json} :
  file ∈ sortedGlob outbox ↔ file ∈ outbox.entries ∧ endsWith file.1 (text ".json") = true
  := by
  rw [sortedGlob, (List.perm_insertionSort _ _).mem_iff, glob, List.mem_filter]

theorem readEntries_of_all {P : Entry → Prop}
    (h : ∀ file ∈ outbox.entries, ∃ entry, readEntry file = .ok entry ∧ P entry) :
  ∃ entries, readEntries outbox = .ok entries ∧ ∀ entry ∈ entries, P entry
  := by
  have key : ∀ files : List (Str × Option Json), (∀ file ∈ files, file ∈ outbox.entries) →
      ∃ entries, files.mapM readEntry = .ok entries ∧ ∀ entry ∈ entries, P entry := by
    intro files
    induction files with
    | nil => exact fun _ => ⟨[], rfl, by simp⟩
    | cons file files ih =>
      intro hmem
      obtain ⟨entry, hentry, hP⟩ := h file (hmem file (by simp))
      obtain ⟨entries, hentries, hall⟩ := ih fun f hf => hmem f (List.mem_cons_of_mem _ hf)
      refine ⟨entry :: entries, ?_, ?_⟩
      · rw [List.mapM_cons, hentry, Except.ok_bind, hentries]
        rfl
      · intro e he
        rcases List.mem_cons.mp he with rfl | he
        · exact hP
        · exact hall e he
  exact key _ fun file hfile => (mem_sortedGlob.mp hfile).1

/-! ### Delivered results -/

section Delivered

variable [Platform]

theorem buildResultPayload_effectKey (result : Worker.ExecutionResult) (report : Option Members)
    (home : Option (List Str)) :
  Json.get (Worker.buildResultPayload result report home) (text "effect_key") = .null
  := by
  unfold Worker.buildResultPayload
  generalize result.judged report = judged
  obtain ⟨outcome, retryable, reason⟩ := judged
  apply Json.get_members_of_notMem
  rw [List.map_append, List.mem_append, not_or]
  constructor
  · simp only [List.map_cons, List.map_nil]
    decide
  · by_cases hsuccess : outcome = text "success"
    · simp [hsuccess]
    · rw [if_pos hsuccess, List.map_cons, List.mem_cons, not_or]
      have hretryable : text "effect_key" ≠ text "retryable" := by decide
      refine ⟨hretryable, ?_⟩
      cases reason with
      | none => simp
      | some reason =>
        by_cases hempty : reason = []
        · simp [hempty]
        · simp only [hempty, if_false, List.map_cons, List.map_nil]
          decide

section

omit [Platform]

theorem buildSpecFailurePayload_effectKey (dispatchId resultId reason : Str) :
  Json.get (Worker.buildSpecFailurePayload dispatchId resultId reason) (text "effect_key") = .null
  := by
  apply Json.get_members_of_notMem
  simp only [List.map_cons, List.map_nil]
  decide

theorem outboxWrite_eq {outbox' : Files} {payload : Members}
    (h : outboxWrite outbox payload = .ok outbox') :
  ∃ id, outbox' = outbox.set (fileName id) (some (.obj payload))
  := by
  simp only [outboxWrite, Except.bind_eq_ok] at h
  obtain ⟨id, -, _, -, _, -, hset⟩ := h
  cases hset
  exact ⟨id, rfl⟩

end

/-- A file that a restart comes to and refuses. -/
def Refused (name : Str) (content : Option Json) : Prop :=
  endsWith name (text ".json") = true ∧
    ∃ data, content = some (.obj data) ∧ Json.get data (text "effect_key") = .null

omit [Platform] in
theorem refused_write {outbox' : Files} {payload : Members}
    (hall : ∀ name content, outbox.get? name = some content → Refused name content)
    (hkey : Json.get payload (text "effect_key") = .null) (h : outboxWrite outbox payload = .ok outbox') :
  ∀ name content, outbox'.get? name = some content → Refused name content
  := by
  obtain ⟨id, rfl⟩ := outboxWrite_eq h
  intro name content hget
  rw [Dict.get?_set] at hget
  split at hget
  · next heq =>
    cases hget
    subst heq
    refine ⟨?_, payload, rfl, hkey⟩
    rw [endsWith, List.isSuffixOf_iff_suffix]
    exact List.suffix_append id _
  · exact hall name content hget

theorem Delivered.refused {outbox : Files} (h : Delivered outbox) :
  ∀ name content, outbox.get? name = some content → Refused name content
  := by
  induction h with
  | empty =>
    intro name content hget
    cases hget
  | result result report home _ hwrite ih =>
    exact refused_write ih (buildResultPayload_effectKey result report home) hwrite
  | failure id resultId reason _ hwrite ih =>
    exact refused_write ih (buildSpecFailurePayload_effectKey id resultId reason) hwrite
  | remove removed _ ih =>
    intro name content hget
    rw [Dict.get?_erase] at hget
    split at hget
    · cases hget
    · exact ih name content hget

theorem Delivered.readEntries {outbox : Files} (h : Delivered outbox) :
  (outbox = ∅ ∧ readEntries outbox = .ok []) ∨
    outbox ≠ ∅ ∧ ∃ name, readEntries outbox = .error (.restart (.entry .noEffectKey name))
  := by
  by_cases hempty : outbox = ∅
  · subst hempty
    exact .inl ⟨rfl, rfl⟩
  · right
    refine ⟨hempty, ?_⟩
    have hne : sortedGlob outbox ≠ [] := by
      intro hnil
      apply hempty
      apply Dict.ext
      apply List.eq_nil_iff_forall_not_mem.mpr
      rintro ⟨name, content⟩ hmem
      have hrefused := h.refused name content (Dict.get?_eq_some.mpr hmem)
      have hglob : (name, content) ∈ sortedGlob outbox := mem_sortedGlob.mpr ⟨hmem, hrefused.1⟩
      rw [hnil] at hglob
      cases hglob
    obtain ⟨⟨name, content⟩, rest, hfiles⟩ := List.exists_cons_of_ne_nil hne
    have hmem : (name, content) ∈ sortedGlob outbox := by simp [hfiles]
    obtain ⟨-, data, rfl, hkey⟩ :=
      h.refused name content (Dict.get?_eq_some.mpr (mem_sortedGlob.mp hmem).1)
    refine ⟨name, ?_⟩
    rw [Outbox.readEntries, hfiles, List.mapM_cons, readEntry_noEffectKey hkey]
    rfl

end Delivered

/-! ### Confirmations -/

def Journal.Confirms (j : Journal) (key id : Str) : Prop :=
  ∃ timestamp, some (confirmation key id timestamp) ∈ j.lines

def Journal.Sound (j : Journal) : Prop :=
  ∀ line ∈ j.lines, line = none ∨ ∃ key id timestamp,
    blank key = false ∧ blank id = false ∧ line = some (confirmation key id timestamp)

def Journal.Intact (j : Journal) : Prop :=
  none ∉ j.lines

theorem confirmation_keys (key id timestamp : Str) :
  ∃ data, confirmation key id timestamp = .obj data ∧ Json.get data (text "effect_key") = .str key ∧
    Json.get data (text "dispatch_id") = .str id
  := ⟨_, rfl, rfl, rfl⟩

variable {timestamp : Str}

theorem confirmation_injective {key id key' id' timestamp' : Str}
    (h : confirmation key id timestamp = confirmation key' id' timestamp') :
  key = key' ∧ id = id'
  := by
  obtain ⟨data, hdata, hkey, hid⟩ := confirmation_keys key id timestamp
  obtain ⟨data', hdata', hkey', hid'⟩ := confirmation_keys key' id' timestamp'
  rw [hdata, hdata'] at h
  cases h
  rw [hkey] at hkey'
  rw [hid] at hid'
  cases hkey'
  cases hid'
  exact ⟨rfl, rfl⟩

theorem addLine_confirmation {key id : Str} (hkey : blank key = false) (hid : blank id = false)
    (timestamp : Str) (confirmed : List Json) :
  addLine confirmed (some (confirmation key id timestamp)) = .ok (.str id :: .str key :: confirmed)
  := by
  obtain ⟨data, hdata, hgetKey, hgetId⟩ := confirmation_keys key id timestamp
  have hk : (Json.str key).truthy = true := by simpa [Json.truthy] using ne_nil_of_not_blank hkey
  have hi : (Json.str id).truthy = true := by simpa [Json.truthy] using ne_nil_of_not_blank hid
  rw [hdata]
  simp only [addLine, addTruthy, hgetKey, hgetId, hk, hi, hashable, if_true, Except.ok_bind]

def Journal.Keys (j : Journal) (confirmed : List Json) : Prop :=
  ∀ v, v ∈ confirmed ↔ ∃ key id, j.Confirms key id ∧ (v = .str key ∨ v = .str id)

theorem mem_addLines (lines : List (Option Json))
    (hsound : Journal.Sound { lines }) :
  ∀ {confirmed confirmed' : List Json}, lines.foldlM addLine confirmed = .ok confirmed' →
    none ∉ lines ∧ ∀ v, v ∈ confirmed' ↔
      v ∈ confirmed ∨ ∃ key id, Journal.Confirms { lines } key id ∧ (v = .str key ∨ v = .str id)
  := by
  induction lines with
  | nil =>
    intro confirmed confirmed' h
    cases h
    simp [Journal.Confirms]
  | cons line lines ih =>
    intro confirmed confirmed' h
    rw [List.foldlM_cons, Except.bind_eq_ok] at h
    obtain ⟨added, hline, hrest⟩ := h
    obtain ⟨hnone, hmem⟩ := ih (fun l hl => hsound l (List.mem_cons_of_mem _ hl)) hrest
    obtain rfl | ⟨key, id, timestamp, hkey, hid, rfl⟩ := hsound line (by simp)
    · cases hline
    rw [addLine_confirmation hkey hid] at hline
    cases hline
    refine ⟨by simpa using hnone, fun v => ?_⟩
    rw [hmem v]
    constructor
    · rintro (hv | ⟨k, i, ⟨ts, hts⟩, hv⟩)
      · simp only [List.mem_cons] at hv
        rcases hv with hv | hv | hv
        · exact .inr ⟨key, id, ⟨timestamp, by simp⟩, .inr hv⟩
        · exact .inr ⟨key, id, ⟨timestamp, by simp⟩, .inl hv⟩
        · exact .inl hv
      · exact .inr ⟨k, i, ⟨ts, List.mem_cons_of_mem _ hts⟩, hv⟩
    · rintro (hv | ⟨k, i, ⟨ts, hts⟩, hv⟩)
      · left
        simp [hv]
      · rcases List.mem_cons.mp hts with heq | hts
        · obtain ⟨rfl, rfl⟩ := confirmation_injective (Option.some.inj heq)
          left
          rcases hv with rfl | rfl
          · simp
          · simp
        · exact .inr ⟨k, i, ⟨ts, hts⟩, hv⟩

theorem keys_of_load {j : Journal} (hsound : j.Sound) {confirmed : List Json}
    (h : loadConfirmedKeys j = .ok confirmed) :
  j.Intact ∧ j.Keys confirmed
  := by
  obtain ⟨hnone, hmem⟩ := mem_addLines j.lines hsound h
  refine ⟨hnone, fun v => ?_⟩
  rw [hmem v]
  simp [Journal.Confirms]

theorem load_of_intact {j : Journal} (hsound : j.Sound) (hintact : j.Intact) :
  ∃ confirmed, loadConfirmedKeys j = .ok confirmed
  := by
  have key : ∀ (lines : List (Option Json)) (confirmed : List Json), (∀ line ∈ lines, line ∈ j.lines) →
      ∃ confirmed', lines.foldlM addLine confirmed = .ok confirmed' := by
    intro lines
    induction lines with
    | nil => exact fun confirmed _ => ⟨confirmed, rfl⟩
    | cons line lines ih =>
      intro confirmed hmem
      obtain rfl | ⟨k, i, timestamp, hkey, hid, rfl⟩ := hsound line (hmem line (by simp))
      · exact absurd (hmem none (by simp)) hintact
      · rw [List.foldlM_cons, addLine_confirmation hkey hid]
        exact ih _ fun l hl => hmem l (List.mem_cons_of_mem _ hl)
  exact key j.lines [] fun line hline => hline

/-! ### Appending a confirmation -/

section Append

variable {j : Journal} {key id : Str} (hkey : blank key = false) (hid : blank id = false)

include hkey hid in
theorem recordConfirmation_eq (timestamp : Str) (cut : Cut) :
  recordConfirmation j (.str key) (.str id) timestamp cut =
    .ok (j.append (confirmation key id timestamp) cut)
  := by
  simp [recordConfirmation, nonBlank, hkey, hid]

variable {cut : Cut}

theorem recordConfirmation_ok {j j' : Journal} {effectKey dispatchId : Json}
    (h : recordConfirmation j effectKey dispatchId timestamp cut = .ok j') :
  ∃ key id, nonBlank effectKey = some key ∧ nonBlank dispatchId = some id ∧ blank key = false ∧
    blank id = false ∧ j' = j.append (confirmation key id timestamp) cut
  := by
  have hblank : ∀ {v : Json} {s : Str}, nonBlank v = some s → blank s = false := by
    intro v s hv
    cases v with
    | str t =>
      simp only [nonBlank] at hv
      split at hv
      · cases hv
      · next hnot =>
        cases hv
        simpa using hnot
    | _ => cases hv
  unfold recordConfirmation at h
  split at h
  · cases h
  · cases h
  · next key id hkey hid =>
    cases h
    exact ⟨key, id, hkey, hid, hblank hkey, hblank hid, rfl⟩

theorem mem_put {line l : Option Json} (h : l ∈ j.put line) :
  l ∈ j.lines ∨ l = line ∨ l = none
  := by
  unfold Journal.put at h
  split at h
  · rcases List.mem_append.mp h with h | h
    · exact .inl h
    · exact .inr (.inl (List.mem_singleton.mp h))
  · rcases List.mem_append.mp h with h | h
    · exact .inl (List.mem_of_mem_dropLast h)
    · exact .inr (.inr (List.mem_singleton.mp h))

theorem mem_append {line : Json} {l : Option Json} (h : l ∈ (j.append line cut).lines) :
  l ∈ j.lines ∨ l = some line ∨ l = none
  := by
  cases cut with
  | nothing => exact .inl h
  | torn =>
    rcases mem_put h with h | h | h
    · exact .inl h
    · exact .inr (.inr h)
    · exact .inr (.inr h)
  | unended => exact mem_put h
  | whole => exact mem_put h

include hkey hid in
theorem Journal.Sound.append (h : j.Sound) (timestamp : Str) (cut : Cut) :
  (j.append (confirmation key id timestamp) cut).Sound
  := by
  intro line hline
  rcases mem_append hline with hline | hline | hline
  · exact h line hline
  · exact .inr ⟨key, id, timestamp, hkey, hid, hline⟩
  · exact .inl hline

theorem confirms_append {k i : Str}
    (h : (j.append (confirmation key id timestamp) cut).Confirms k i) :
  j.Confirms k i ∨ k = key ∧ i = id
  := by
  obtain ⟨ts, hmem⟩ := h
  rcases Outbox.mem_append hmem with hmem | hmem | hmem
  · exact .inl ⟨ts, hmem⟩
  · exact .inr (confirmation_injective (Option.some.inj hmem))
  · cases hmem

/-- The part of a line that is written neither tears it nor continues another. -/
def Cut.Clean (ended : Bool) : Cut → Prop
  | .nothing => True
  | .torn => False
  | .unended => ended = true
  | .whole => ended = true

theorem lines_append (hclean : cut.Clean j.ended) (line : Json) :
  (j.append line cut).lines = j.lines ∨
    cut ≠ .nothing ∧ (j.append line cut).lines = j.lines ++ [some line]
  := by
  cases cut with
  | nothing => exact .inl rfl
  | torn => cases hclean
  | unended =>
    right
    refine ⟨by simp, ?_⟩
    simp only [Cut.Clean] at hclean
    simp [Journal.append, Journal.put, hclean]
  | whole =>
    right
    refine ⟨by simp, ?_⟩
    simp only [Cut.Clean] at hclean
    simp [Journal.append, Journal.put, hclean]

theorem Journal.Intact.append (h : j.Intact) (hclean : cut.Clean j.ended) (line : Json) :
  (j.append line cut).Intact
  := by
  unfold Journal.Intact at h ⊢
  rcases lines_append hclean line with heq | ⟨-, heq⟩
  · rwa [heq]
  · rw [heq]
    simpa using h

theorem confirms_of_clean (hclean : cut.Clean j.ended) {line : Json} {k i : Str}
    (h : j.Confirms k i) :
  (j.append line cut).Confirms k i
  := by
  obtain ⟨ts, hmem⟩ := h
  refine ⟨ts, ?_⟩
  rcases lines_append hclean line with heq | ⟨-, heq⟩
  · rwa [heq]
  · rw [heq]
    exact List.mem_append_left _ hmem

theorem confirms_whole (hended : j.ended = true) (timestamp : Str) :
  (j.append (confirmation key id timestamp) .whole).Confirms key id
  := ⟨timestamp, by simp [Journal.append, Journal.put, hended]⟩

end Append

end Courier.Outbox
