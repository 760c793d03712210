import Courier.Coordination.Torn
import Courier.Library.Fences

/-!
# Events in comments

An event is written into the body of a comment as a block of JSON between fences, and the blocks of a body
are found again by splitting it at the fences.  An event is read back from its comment exactly if no text of
it has a fence or a surrogate pair.
-/

namespace Courier.Coordination

open Json Text

def ticks : Str :=
  text "```"

def eventFence : Str :=
  text "```json"

def blockOf (part : Str) : Str :=
  strip ((split ticks part).headD [])

def eventOf (part : Str) : Option RebuiltEvent :=
  match loads (blockOf part) with
  | some (.obj data) =>
      if hasKey data (text "event_type") && hasKey data (text "mission_id") then fromDict data else none
  | _ => none

def extractEventsFromBody (body : Str) : List RebuiltEvent :=
  if !occurs eventFence body then []
  else ((split eventFence body).drop 1).filterMap eventOf

def renderEventBody (event : CoordinationEvent) : Str :=
  text "Coordination Event:\n" ++ eventFence ++ [10] ++ (Json.obj event.toDict).dumpsIndented ++ [10] ++ ticks

namespace CoordinationEvent

def Fenceless (e : CoordinationEvent) : Prop :=
  ∀ s ∈ e.texts, ¬ticks <:+: s

instance (e : CoordinationEvent) : Decidable e.Fenceless :=
  inferInstanceAs (Decidable (∀ s ∈ e.texts, _))

def body (e : CoordinationEvent) (after : Str) : Str :=
  newline 1 ++ (layout.layoutMembers escapeAscii 1 e.toDict ++ (newline 0 ++ 125 :: after))

theorem dumpsIndented_toDict (e : CoordinationEvent) (after : Str) :
  (Json.obj e.toDict).dumpsIndented ++ after = 123 :: e.body after
  := by
  simp [dumpsIndented, toDict, layout, body]

theorem renderEventBody_eq (e : CoordinationEvent) :
  renderEventBody e = text "Coordination Event:\n" ++ eventFence ++ 10 :: 123 :: e.body (10 :: ticks)
  := by
  rw [renderEventBody, ← dumpsIndented_toDict]
  simp

theorem mem_sorted_iff (e : CoordinationEvent) (p : Str × Json) :
  p ∈ e.sorted ↔ p ∈ e.toDict
  := by
  have hnodup : (e.toDict.map Prod.fst).Nodup := show fields.Nodup by decide
  rw [← members_toDict]
  exact (perm_members hnodup).mem_iff

theorem flat_toDict (e : CoordinationEvent) :
  FlatMembers e.toDict
  := fun p hp => e.flat_sorted p ((e.mem_sorted_iff p).mpr hp)

theorem fit_toDict {e : CoordinationEvent} (h : e.Typed) :
  Fit.fitMembers e.toDict
  := by
  rw [fitMembers_iff]
  exact fun p hp => fitMembers_iff.mp (fit_sorted h) p ((e.mem_sorted_iff p).mpr hp)

theorem bare_toDict (e : CoordinationEvent) :
  ∀ p ∈ e.toDict, ∀ c ∈ p.1, Bare c ∧ c ≠ 96
  := by
  have hfields : ∀ k ∈ fields, ∀ c ∈ k, Bare c ∧ c ≠ 96 := by decide
  have hkeys : e.toDict.map Prod.fst = fields := rfl
  intro p hp
  exact hfields p.1 (hkeys ▸ List.mem_map_of_mem hp)

theorem everyText_optional {p : Str → Prop} (s : Option Str) :
  (optional s).EveryText p ↔ ∀ t, s = some t → p t
  := by
  cases s <;> simp [optional, EveryText]

theorem everyItem_texts {p : Str → Prop} (l : List Str) :
  EveryText.everyItem p (l.map .str) ↔ ∀ s ∈ l, p s
  := by
  induction l with
  | nil => simp [EveryText.everyItem]
  | cons s l ih => simp [EveryText.everyItem, EveryText, ih]

theorem everyText_toDict (e : CoordinationEvent) :
  (∀ p ∈ e.toDict, p.2.EveryText fun s => ¬ticks <:+: s) ↔ e.Fenceless
  := by
  have hagent : ¬ticks <:+: e.agentId.value := by cases e.agentId <;> decide
  have hhost : ¬ticks <:+: e.hostId.value := by cases e.hostId <;> decide
  have htype : ¬ticks <:+: e.eventType.value := by cases e.eventType <;> decide
  have hstatus : ¬ticks <:+: e.status.value := by cases e.status <;> decide
  rw [Fenceless, forall_mem_texts]
  simp only [toDict, List.forall_mem_cons, EveryText, everyText_optional, everyItem_texts, hagent, hhost,
    htype, hstatus, not_false_eq_true, true_and]
  simp only [List.not_mem_nil, false_imp_iff, implies_true, and_true]
  tauto

/-! ### Fences in the block -/

theorem fence_ticks :
  Fence ticks
  := ⟨text "``", rfl, by decide⟩

theorem fence_eventFence :
  Fence eventFence
  := ⟨text "``json", rfl, by decide⟩

theorem ticks_infix_eventFence :
  ticks <:+: eventFence
  := ⟨[], text "json", rfl⟩

variable {e : CoordinationEvent}

theorem ticks_notInfix_body (e : CoordinationEvent) (after : Str) :
  ¬ticks <:+: e.body after ↔ e.Fenceless ∧ ¬ticks <:+: after
  := by
  rw [body, fence_infix_newline fence_ticks,
    fence_notInfix_layoutMembers fence_ticks 1 (by simp [toDict]) e.flat_toDict e.bare_toDict,
    everyText_toDict, fence_infix_newline fence_ticks, fence_infix_cons fence_ticks (by decide)]

theorem fenced_body (e : CoordinationEvent) :
  Fenced eventFence (10 :: 123 :: e.body (10 :: ticks))
  := by
  have hticks : Fenced eventFence ticks := by
    intro a b heq
    have hlength := congrArg List.length heq
    simp only [List.length_append] at hlength
    change 3 = a.length + 7 + b.length at hlength
    omega
  have hend := (hticks.cons fence_eventFence (c := 10) (by decide)).cons fence_eventFence (c := 125) (by decide)
  obtain ⟨hgoes, hline, -⟩ := fenced_newline fence_eventFence 0 hend
  have hmembers := fencedMembers_layout fence_eventFence 1 (by simp [toDict]) e.flat_toDict e.bare_toDict
    hgoes hline
  obtain ⟨-, hbody, -⟩ := fenced_newline fence_eventFence 1 hmembers
  exact (hbody.cons fence_eventFence (by decide)).cons fence_eventFence (by decide)

theorem split_renderEventBody (e : CoordinationEvent) :
  extractEventsFromBody (renderEventBody e) =
    (split eventFence (10 :: 123 :: e.body (10 :: ticks))).filterMap eventOf
  := by
  have hfence : eventFence <:+: renderEventBody e := by
    rw [renderEventBody_eq]
    exact ⟨_, _, rfl⟩
  have hoccurs : occurs eventFence (renderEventBody e) = true := decide_eq_true hfence
  rw [extractEventsFromBody, hoccurs, renderEventBody_eq, split_first (by decide) (by decide)]
  rfl

/-! ### Reading the block -/

theorem body_append (e : CoordinationEvent) (after : Str) :
  e.body after = e.body [] ++ after
  := by
  simp [body]

theorem strip_block (e : CoordinationEvent) :
  strip (10 :: 123 :: e.body [] ++ [10]) = 123 :: e.body []
  := by
  have hbrace : e.body [] = newline 1 ++ (layout.layoutMembers escapeAscii 1 e.toDict ++ newline 0) ++ [125] := by
    simp [body]
  rw [strip, List.cons_append, List.cons_append, List.dropWhile_cons_of_pos rfl,
    List.dropWhile_cons_of_neg (by decide), ← List.cons_append, List.rdropWhile_concat_pos _ _ _ rfl, hbrace,
    ← List.cons_append, List.rdropWhile_concat_neg _ _ _ (by decide)]

theorem eventOf_block (h : e.Typed) (hfence : e.Fenceless) :
  eventOf (10 :: 123 :: e.body (10 :: ticks)) = some e.fused.rebuilt
  := by
  have hticks : ¬ticks <:+: 10 :: 123 :: e.body [] := by
    rw [fence_infix_cons fence_ticks (by decide), fence_infix_cons fence_ticks (by decide), ticks_notInfix_body]
    exact ⟨hfence, by decide⟩
  have hfirst : ¬ticks <:+: 10 :: 123 :: e.body [] ++ [10] ++ ticks.dropLast := by
    rw [List.append_assoc, List.singleton_append, infix_iff_of_notMem (by decide), not_or]
    exact ⟨hticks, by decide⟩
  have hblock : blockOf (10 :: 123 :: e.body (10 :: ticks)) = 123 :: e.body [] := by
    have hsplit := split_first (by decide) hfirst []
    have hrest : 10 :: 123 :: e.body [] ++ [10] ++ ticks ++ [] = 10 :: 123 :: e.body (10 :: ticks) := by
      rw [e.body_append (10 :: ticks)]
      simp
    rw [hrest] at hsplit
    rw [blockOf, hsplit, List.headD_cons]
    exact strip_block e
  have hloads : loads (123 :: e.body []) = some (.obj e.fused.sorted) := by
    have hread := loads_dumpsIndented_reread (v := .obj e.toDict) (fit_toDict h)
    have heq := e.dumpsIndented_toDict []
    rw [List.append_nil] at heq
    rw [← heq, hread, reread, rereadMembers_toDict, members_toDict]
  have hkeys : (hasKey e.fused.sorted (text "event_type") && hasKey e.fused.sorted (text "mission_id")) = true :=
    rfl
  rw [eventOf, hblock, hloads]
  simp only [hkeys, if_true]
  exact fromDict_sorted e.fused

theorem extractEventsFromBody_of_fenceless (h : e.Typed) (hfence : e.Fenceless) :
  extractEventsFromBody (renderEventBody e) = [e.fused.rebuilt]
  := by
  have hnone : ¬eventFence <:+: 10 :: 123 :: e.body (10 :: ticks) := by
    have hticks : ¬ticks <:+: 10 :: 123 :: e.body [] := by
      rw [fence_infix_cons fence_ticks (by decide), fence_infix_cons fence_ticks (by decide), ticks_notInfix_body]
      exact ⟨hfence, by decide⟩
    have hrest : 10 :: 123 :: e.body (10 :: ticks) = 10 :: 123 :: e.body [] ++ 10 :: ticks := by
      rw [e.body_append (10 :: ticks)]
      simp
    rw [hrest, infix_iff_of_notMem (by decide), not_or]
    exact ⟨fun hoccurs => hticks (ticks_infix_eventFence.trans hoccurs), by decide⟩
  rw [split_renderEventBody, split_of_not_infix hnone, List.filterMap_cons, eventOf_block h hfence]
  rfl

theorem strip_open (s : Str) :
  ∃ t, strip (10 :: 123 :: s) = 123 :: t ∧ t <+: s
  := by
  have hstrip : strip (10 :: 123 :: s) = (123 :: s).rdropWhile isSpace := by
    rw [strip, List.dropWhile_cons_of_pos rfl, List.dropWhile_cons_of_neg (by decide)]
  have hstart := List.rdropWhile_prefix isSpace (123 :: s)
  rw [hstrip]
  cases hdrop : (123 :: s).rdropWhile isSpace with
  | nil =>
    have hspace := List.rdropWhile_eq_nil_iff.mp hdrop 123 (List.mem_cons_self ..)
    exact absurd hspace (by decide)
  | cons c t =>
    rw [hdrop] at hstart
    obtain ⟨rfl, ht⟩ := List.cons_prefix_cons.mp hstart
    exact ⟨t, rfl, ht⟩

theorem loads_strip_cut (h : e.Typed) {s : Str} (hs : s <+: 10 :: 123 :: e.body [])
    (hne : s ≠ 10 :: 123 :: e.body []) :
  loads (strip s) = none
  := by
  match s with
  | [] => rfl
  | [c] =>
    obtain ⟨rfl, -⟩ := List.cons_prefix_cons.mp hs
    rfl
  | c :: d :: s =>
    obtain ⟨rfl, hbrace⟩ := List.cons_prefix_cons.mp hs
    obtain ⟨rfl, hbody⟩ := List.cons_prefix_cons.mp hbrace
    obtain ⟨t, hstrip, ht⟩ := strip_open s
    obtain ⟨u, hu⟩ := ht.trans hbody
    have hcut : u ≠ [] := by
      rintro rfl
      rw [List.append_nil] at hu
      subst hu
      exact hne (by rw [hbody.eq_of_length_le ht.length_le])
    have hdenotes := (printsMembers_layout (P := fun _ => True) (by simp) trivial 1 0 (by simp [toDict])
      (fit_toDict h)).denotes
    rw [rereadMembers_toDict] at hdenotes
    have hloads := loads_cut_record behind_nil (gap_newline 1) hdenotes e.fused.flat_toDict hu hcut
    rw [hstrip, ← List.append_nil t]
    exact hloads

theorem eventOf_cut (h : e.Typed) {part : Str} (hpart : part <+: 10 :: 123 :: e.body (10 :: ticks))
    (hfence : ¬e.Fenceless) :
  eventOf part = none
  := by
  obtain ⟨first, more, hsplit, hstart, hfirst, -⟩ := split_cases (show ticks ≠ [] by decide) part
  have hoccurs : ticks <:+: 10 :: 123 :: e.body [] := by
    by_contra hnone
    rw [fence_infix_cons fence_ticks (by decide), fence_infix_cons fence_ticks (by decide),
      ticks_notInfix_body] at hnone
    exact hfence hnone.1
  have hwhole : 10 :: 123 :: e.body [] <+: 10 :: 123 :: e.body (10 :: ticks) := by
    rw [e.body_append (10 :: ticks)]
    exact ⟨10 :: ticks, rfl⟩
  have hcut : first <+: 10 :: 123 :: e.body [] := by
    rcases List.prefix_or_prefix_of_prefix (hstart.trans hpart) hwhole with hcut | hlonger
    · exact hcut
    · exact absurd (hoccurs.trans hlonger.isInfix) hfirst
  have hne : first ≠ 10 :: 123 :: e.body [] := by
    rintro rfl
    exact hfirst hoccurs
  rw [eventOf, blockOf, hsplit, List.headD_cons, loads_strip_cut h hcut hne]

theorem eventOf_inside {b part : Str} (hinside : Inside b) (hpart : part <+: b) :
  eventOf part = none
  := by
  obtain ⟨first, more, hsplit, hstart, -⟩ := split_cases (show ticks ≠ [] by decide) part
  rw [eventOf, blockOf, hsplit, List.headD_cons]
  split
  · next data hloads =>
    obtain rfl := hinside.eq_nil (hstart.trans hpart) hloads
    rfl
  · rfl

theorem extractEventsFromBody_of_fence (h : e.Typed) (hfence : ¬e.Fenceless) :
  extractEventsFromBody (renderEventBody e) = []
  := by
  obtain ⟨first, more, hsplit, hstart, -, hmore⟩ :=
    split_cases (show eventFence ≠ [] by decide) (10 :: 123 :: e.body (10 :: ticks))
  rw [split_renderEventBody, hsplit, List.filterMap_eq_nil_iff]
  intro part hpart
  rcases List.mem_cons.mp hpart with rfl | hpart
  · exact eventOf_cut h hstart hfence
  · obtain ⟨a, b, heq, hb⟩ := hmore part hpart
    exact eventOf_inside (e.fenced_body a b heq) hb

end CoordinationEvent

/-- An event is read back from its comment and from its record exactly if no text of it has a surrogate pair
or three backticks in a row. -/
theorem extractEventsFromBody_renderEventBody_iff (e : CoordinationEvent) (h : e.Typed) :
  (extractEventsFromBody (renderEventBody e) = [e.rebuilt] ∧ readEvents (recordLine e) = .ok [e.rebuilt]) ↔
    e.Plain ∧ e.Fenceless
  := by
  have hrecord : readEvents (recordLine e) = .ok [e.fused.rebuilt] := by
    have hread : readEvents (Bytes.ofAscii (fileText [e] [])) = .ok [e.fused.rebuilt] :=
      readEvents_whole (by simpa using h)
    rw [e.recordLine_eq]
    simpa [fileText] using hread
  have hsame : [e.fused.rebuilt] = [e.rebuilt] ↔ e.Plain := by
    rw [← e.fused_eq_self_iff, List.singleton_inj, CoordinationEvent.rebuilt_injective.eq_iff]
  rw [hrecord, Except.ok.injEq, hsame]
  by_cases hfence : e.Fenceless
  · rw [CoordinationEvent.extractEventsFromBody_of_fenceless h hfence, hsame]
    simp [hfence]
  · rw [CoordinationEvent.extractEventsFromBody_of_fence h hfence]
    simp [hfence]

/-- A report about a pull request whose evidence is so much. -/
def reportEvent (evidenceRef : Str) : CoordinationEvent where
  eventId := text "e1"
  missionId := text "m1"
  agentId := .codexMac
  hostId := .macLocal
  eventType := .final
  status := .done
  dependsOn := [text "m0"]
  head := some (text "abc123")
  evidenceRef := evidenceRef
  createdAt := text "2026-10-08T00:00:00Z"
  payloadHash := text "hash"
  nextAction := some (text "merge \"main\"\nand `rerun`")

/-- The report is read back when there is no fence in it. -/
theorem extract_report :
  extractEventsFromBody (renderEventBody (reportEvent (text "ci/12"))) = [(reportEvent (text "ci/12")).rebuilt]
  := ((extractEventsFromBody_renderEventBody_iff _ (by decide)).mpr ⟨by decide, by decide⟩).1

/-- A report that quotes a block of code is lost. -/
theorem not_extract_report :
  ¬∀ e : CoordinationEvent, e.Typed → extractEventsFromBody (renderEventBody e) = [e.rebuilt]
  := by
  intro h
  have hread := h (reportEvent (text "log: ```ok```")) (by decide)
  rw [CoordinationEvent.extractEventsFromBody_of_fence (by decide) (by decide)] at hread
  cases hread

end Courier.Coordination
