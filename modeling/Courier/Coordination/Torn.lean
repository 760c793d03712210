import Courier.Coordination.Store
import Courier.Library.Cut

/-!
# Torn records

A write that is cut off leaves the start of a record, and the next one goes on directly behind it.  So the lines are
whole records as long as no write was torn, and behind a torn one everything is one line, which is no record any more.
-/

namespace Courier.Coordination

open Json Text

/-! ### Records -/

namespace CoordinationEvent

def record (e : CoordinationEvent) : Str :=
  (Json.obj (members e.toDict)).dumpsSpaced.flatMap asciiPoint

theorem recordLine_eq (e : CoordinationEvent) :
  recordLine e = Bytes.ofAscii (e.record ++ [10])
  := rfl

theorem length_recordLine (e : CoordinationEvent) :
  (recordLine e).length = e.record.length + 1
  := by
  rw [recordLine_eq, Bytes.ofAscii, List.length_map, List.length_append, List.length_singleton]

theorem flat_optional (s : Option Str) :
  (optional s).Flat
  := by
  cases s <;> trivial

theorem flat_texts (l : List Str) :
  Flat.flatItems (l.map .str)
  := by
  induction l with
  | nil => trivial
  | cons s l ih => exact ⟨trivial, ih⟩

theorem flat_sorted (e : CoordinationEvent) :
  FlatMembers e.sorted
  := by
  simp only [FlatMembers, sorted, List.forall_mem_cons, flat_optional, true_and]
  exact ⟨trivial, trivial, flat_texts _, trivial, trivial, trivial, trivial, trivial, trivial, trivial,
    by simp⟩

variable {e : CoordinationEvent}

theorem record_spec (h : e.Typed) :
  Record e.record e.fused.sorted
  := by
  rw [record, members_toDict, ← rereadMembers_sorted]
  exact record_dumpsSpaced (c := 97) (by decide) (fit_sorted h) e.flat_sorted

theorem printable_record (h : e.Typed) :
  Bytes.Printable e.record
  := by
  rw [record, members_toDict]
  exact printable_dumpsSpaced (v := .obj _) (fit_sorted h)

theorem readRecord_record (h : e.Typed) :
  readRecord e.record = some e.fused.rebuilt
  := by
  have hloads := loads_dumpsSpaced (v := .obj e.sorted) (fit_sorted h)
  rw [reread, rereadMembers_sorted, members_sorted] at hloads
  apply readRecord_of_loads
  rw [record, members_toDict, hloads]

theorem record_ne_nil (h : e.Typed) :
  e.record ≠ []
  := by
  obtain ⟨c, t, heq, -⟩ := (record_spec h).denotes
  rw [heq]
  exact List.cons_ne_nil _ _

theorem blank_record (h : e.Typed) :
  blank e.record = false
  := by
  obtain ⟨c, t, heq, -⟩ := (record_spec h).denotes
  rw [heq]
  rfl

end CoordinationEvent

/-! ### Reading -/

theorem endsLine_of_printable {s : Str} (h : Bytes.Printable s) :
  ∀ c ∈ s, endsLine c = false
  := by
  intro c hc
  obtain ⟨hlow, hhigh⟩ := h c hc
  simp only [endsLine, Bool.or_eq_false_iff, Bool.and_eq_false_iff, decide_eq_false_iff_not]
  omega

def fileText (done : List CoordinationEvent) (tail : Str) : Str :=
  done.flatMap (fun e => e.record ++ [10]) ++ tail

theorem fileText_cons (e : CoordinationEvent) (done : List CoordinationEvent) (tail : Str) :
  fileText (e :: done) tail = e.record ++ 10 :: fileText done tail
  := by
  simp [fileText]

theorem fileText_concat (done : List CoordinationEvent) (e : CoordinationEvent) :
  fileText (done ++ [e]) [] = fileText done (e.record ++ [10])
  := by
  simp [fileText]

variable {done : List CoordinationEvent}

theorem lines_fileText (h : ∀ e ∈ done, e.Typed) (tail : Str) :
  lines (fileText done tail) = done.map CoordinationEvent.record ++ lines tail
  := by
  induction done with
  | nil => rfl
  | cons e done ih =>
    obtain ⟨he, hdone⟩ := List.forall_mem_cons.mp h
    rw [fileText_cons, lines_line (endsLine_of_printable (CoordinationEvent.printable_record he)),
      ih hdone, List.map_cons, List.cons_append]

theorem ascii_fileText (h : ∀ e ∈ done, e.Typed) {tail : Str}
    (htail : ∀ c ∈ tail, c = 10 ∨ 32 ≤ c ∧ c < 127) :
  ∀ c ∈ fileText done tail, c = 10 ∨ 32 ≤ c ∧ c < 127
  := by
  induction done with
  | nil => exact htail
  | cons e done ih =>
    obtain ⟨he, hdone⟩ := List.forall_mem_cons.mp h
    intro c hc
    rw [fileText_cons, List.mem_append, List.mem_cons] at hc
    rcases hc with hc | rfl | hc
    · exact .inr (CoordinationEvent.printable_record he c hc)
    · exact .inl rfl
    · exact ih hdone c hc

theorem readEvents_ofAscii {s : Str} (h : ∀ c ∈ s, c = 10 ∨ 32 ≤ c ∧ c < 127) :
  readEvents (Bytes.ofAscii s) = readLines (!endsWith s [10]) ((lines s).length - 1) 0 (lines s)
  := by
  have hdecode : Bytes.decode (Bytes.ofAscii s) = some s := by
    apply Bytes.decode_ofAscii
    intro c hc
    rcases h c hc with rfl | hc
    · decide
    · omega
  have hnewlines : newlines s = s := by
    apply newlines_eq_self
    intro hreturn
    rcases h 13 hreturn with heq | hlow
    · cases heq
    · omega
  simp only [readEvents, hdecode, hnewlines]
  split
  · next hnil =>
    subst hnil
    rfl
  · rfl

theorem readLines_cons {torn : Bool} {last index : Nat} {line : Str} {rest : List Str} {event : RebuiltEvent}
    (hblank : blank line = false) (h : readRecord line = some event) :
  readLines torn last index (line :: rest) = (readLines torn last (index + 1) rest).map (event :: ·)
  := by
  rw [readLines, hblank, h]
  rfl

theorem readLines_records (h : ∀ e ∈ done, e.Typed) (torn : Bool) (last : Nat)
    (rest : List Str) (index : Nat) :
  readLines torn last index (done.map CoordinationEvent.record ++ rest) =
    (readLines torn last (index + done.length) rest).map (done.map (fun e => e.fused.rebuilt) ++ ·)
  := by
  induction done generalizing index with
  | nil =>
    rw [List.map_nil, List.nil_append, List.length_nil, Nat.add_zero]
    cases readLines torn last index rest <;> rfl
  | cons e done ih =>
    obtain ⟨he, hdone⟩ := List.forall_mem_cons.mp h
    rw [List.map_cons, List.cons_append, readLines_cons (CoordinationEvent.blank_record he)
      (CoordinationEvent.readRecord_record he), ih hdone, List.length_cons, Nat.add_assoc, Nat.add_comm 1]
    cases readLines torn last (index + (done.length + 1)) rest <;> rfl

theorem readEvents_whole (h : ∀ e ∈ done, e.Typed) :
  readEvents (Bytes.ofAscii (fileText done [])) = .ok (done.map fun e => e.fused.rebuilt)
  := by
  rw [readEvents_ofAscii (ascii_fileText h (by simp)), lines_fileText h, readLines_records h]
  simp [lines, linesFrom, readLines, Except.map]

theorem endsWith_fileText (done : List CoordinationEvent) {tail : Str} (h : Bytes.Printable tail)
    (hne : tail ≠ []) :
  endsWith (fileText done tail) [10] = false
  := by
  rw [endsWith, Bool.eq_false_iff, ne_eq, List.isSuffixOf_iff_suffix]
  rintro ⟨before, heq⟩
  have hlast : tail.getLast? = some 10 := by
    rw [← List.getLast?_append_of_ne_nil _ hne, ← fileText, ← heq, List.getLast?_concat]
  have hnewline := h 10 (List.mem_of_getLast? hlast)
  omega

theorem readEvents_torn (h : ∀ e ∈ done, e.Typed) {tail : Str}
    (htail : Bytes.Printable tail) (hne : tail ≠ []) (hblank : blank tail = false) :
  readEvents (Bytes.ofAscii (fileText done tail)) =
    .ok (done.map (fun e => e.fused.rebuilt) ++ (readRecord tail).toList)
  := by
  rw [readEvents_ofAscii (ascii_fileText h fun c hc => .inr (htail c hc)), lines_fileText h,
    readLines_records h, lines_last (endsLine_of_printable htail) hne, endsWith_fileText done htail hne]
  cases hread : readRecord tail with
  | none => simp [readLines, hblank, hread, Except.map]
  | some event => simp [readLines, hblank, hread, Except.map]

theorem readEvents_corrupt (h : ∀ e ∈ done, e.Typed) {line : Str}
    (hline : Bytes.Printable line) (hblank : blank line = false) (hread : readRecord line = none) :
  readEvents (Bytes.ofAscii (fileText done (line ++ [10]))) = .error (.corrupt (done.length + 1))
  := by
  have hascii : ∀ c ∈ line ++ [10], c = 10 ∨ 32 ≤ c ∧ c < 127 := by
    intro c hc
    rcases List.mem_append.mp hc with hc | hc
    · exact .inr (hline c hc)
    · exact .inl (List.mem_singleton.mp hc)
  have hends : endsWith (fileText done (line ++ [10])) [10] = true := by
    rw [endsWith, List.isSuffixOf_iff_suffix]
    exact ⟨fileText done line, by simp [fileText]⟩
  rw [readEvents_ofAscii (ascii_fileText h hascii), lines_fileText h, readLines_records h,
    lines_line (endsLine_of_printable hline), hends]
  simp [readLines, hblank, hread, Except.map]

/-! ### Runs of writes -/

/-- A call of `write_event`, of which so many bytes are written. -/
structure Write where
  event : CoordinationEvent
  bytes : Nat

namespace Write

def Completed (w : Write) : Prop :=
  (recordLine w.event).length ≤ w.bytes

instance (w : Write) : Decidable w.Completed :=
  inferInstanceAs (Decidable (_ ≤ _))

def Torn (w : Write) : Prop :=
  0 < w.bytes ∧ w.bytes < (recordLine w.event).length

instance (w : Write) : Decidable w.Torn :=
  inferInstanceAs (Decidable (_ ∧ _))

end Write

def fileAfter (run : List Write) : Bytes :=
  run.foldl (fun file w => writeEvent file w.event w.bytes) []

def completed (run : List Write) : List CoordinationEvent :=
  (run.filter fun w => w.Completed).map Write.event

def ReadsCompleted (run : List Write) : Prop :=
  readEvents (fileAfter run) = .ok ((completed run).map CoordinationEvent.rebuilt)

instance (run : List Write) : Decidable (ReadsCompleted run) :=
  inferInstanceAs (Decidable (_ = _))

def Survives (run : List Write) : Prop :=
  ∀ earlier, earlier <+: run → ReadsCompleted earlier

/-- No completed write is behind a torn one or has surrogate pairs, and no first torn write breaks off at the newline.
-/
def Intact (earlier : List Write) (w : Write) : Prop :=
  (w.Completed → w.event.Plain ∧ ∀ x ∈ earlier, ¬x.Torn) ∧
    (w.bytes + 1 = (recordLine w.event).length → ∃ x ∈ earlier, x.Torn)

instance (earlier : List Write) (w : Write) : Decidable (Intact earlier w) :=
  inferInstanceAs (Decidable (_ ∧ _))

theorem fileAfter_concat (run : List Write) (w : Write) :
  fileAfter (run ++ [w]) = writeEvent (fileAfter run) w.event w.bytes
  := by
  rw [fileAfter, List.foldl_concat]
  rfl

theorem completed_concat (run : List Write) (w : Write) :
  completed (run ++ [w]) = if w.Completed then completed run ++ [w.event] else completed run
  := by
  rw [completed, List.filter_append, List.map_append]
  split
  · next h => simp [completed, h]
  · next h => simp [completed, h]

/-- After a run the file has the completed events and behind them what is left of the torn writes, of
which nothing is read. -/
structure After (run : List Write) (tail : Str) : Prop where
  typed : ∀ e ∈ completed run, e.Typed
  plain : ∀ e ∈ completed run, e.Plain
  file : fileAfter run = Bytes.ofAscii (fileText (completed run) tail)
  printable : Bytes.Printable tail
  pieces : Pieces tail
  unread : loads tail = none
  empty : tail = [] ↔ ∀ w ∈ run, ¬w.Torn

theorem after_nil :
  After [] []
  where
  typed := by simp [completed]
  plain := by simp [completed]
  file := rfl
  printable := by simp [Bytes.Printable]
  pieces := .nil
  unread := rfl
  empty := by simp

theorem map_rebuilt_fused (h : ∀ e ∈ done, e.Plain) :
  done.map (fun e => e.fused.rebuilt) = done.map CoordinationEvent.rebuilt
  := by
  apply List.map_congr_left
  intro e he
  rw [(CoordinationEvent.fused_eq_self_iff e).mpr (h e he)]

theorem blank_of_pieces {tail : Str} (h : Pieces tail) (hne : tail ≠ []) :
  blank tail = false
  := by
  rcases h.behind.brace with rfl | ⟨t, rfl⟩
  · exact absurd rfl hne
  · rfl

variable {run : List Write} {tail : Str} {w : Write}

theorem After.readsCompleted (h : After run tail) :
  ReadsCompleted run
  := by
  rw [ReadsCompleted, h.file, ← map_rebuilt_fused h.plain]
  by_cases hne : tail = []
  · subst hne
    exact readEvents_whole h.typed
  · rw [readEvents_torn h.typed h.printable hne (blank_of_pieces h.pieces hne), readRecord, h.unread]
    simp

theorem writeEvent_ofAscii (s : Str) (e : CoordinationEvent) (bytes : Nat) :
  writeEvent (Bytes.ofAscii s) e bytes = Bytes.ofAscii (s ++ (e.record ++ [10]).take bytes)
  := by
  simp only [writeEvent, e.recordLine_eq, Bytes.ofAscii, List.map_append, List.map_take]

theorem After.file_of_completed (h : After run tail) (hcompleted : w.Completed) :
  fileAfter (run ++ [w]) = Bytes.ofAscii (fileText (completed run) (tail ++ w.event.record ++ [10]))
  := by
  rw [Write.Completed, CoordinationEvent.length_recordLine] at hcompleted
  rw [fileAfter_concat, h.file, writeEvent_ofAscii, List.take_of_length_le (by simpa using hcompleted)]
  simp only [fileText, List.append_assoc]

theorem After.file_of_torn (h : After run tail) (htorn : w.Torn) :
  fileAfter (run ++ [w]) =
    Bytes.ofAscii (fileText (completed run) (tail ++ w.event.record.take w.bytes))
  := by
  have hbytes := htorn.2
  rw [CoordinationEvent.length_recordLine] at hbytes
  rw [fileAfter_concat, h.file, writeEvent_ofAscii, List.take_append_of_le_length (by omega)]
  simp only [fileText, List.append_assoc]

theorem After.torn_piece (h : After run tail) (hw : w.event.Typed) (htorn : w.Torn) :
  Record (w.event.record.take w.bytes ++ w.event.record.drop w.bytes) w.event.fused.sorted ∧
    w.event.record.take w.bytes ≠ [] ∧ Bytes.Printable (tail ++ w.event.record.take w.bytes)
  := by
  have hrecord := CoordinationEvent.record_spec hw
  refine ⟨by rwa [List.take_append_drop], ?_, ?_⟩
  · have hbytes := htorn.1
    have hne := CoordinationEvent.record_ne_nil hw
    simp only [ne_eq, List.take_eq_nil_iff, not_or]
    exact ⟨by omega, hne⟩
  · intro c hc
    rcases List.mem_append.mp hc with hc | hc
    · exact h.printable c hc
    · exact CoordinationEvent.printable_record hw c (List.mem_of_mem_take hc)

theorem After.not_readsCompleted_of_torn (h : After run tail) (hw : w.event.Typed) (hcompleted : w.Completed)
    (hne : tail ≠ []) :
  ¬ReadsCompleted (run ++ [w])
  := by
  have hrecord : Record (w.event.record ++ []) w.event.fused.sorted := by
    rw [List.append_nil]
    exact CoordinationEvent.record_spec hw
  have hrecordne := CoordinationEvent.record_ne_nil hw
  have hloads := h.pieces.loads_concat hne hrecord hrecordne
  have hprintable : Bytes.Printable (tail ++ w.event.record) := by
    intro c hc
    rcases List.mem_append.mp hc with hc | hc
    · exact h.printable c hc
    · exact CoordinationEvent.printable_record hw c hc
  have hblank := blank_of_pieces (h.pieces.concat hrecord hrecordne) (by simp [hne])
  rw [ReadsCompleted, h.file_of_completed hcompleted,
    readEvents_corrupt h.typed hprintable hblank (by rw [readRecord, hloads])]
  rintro ⟨⟩

theorem After.plain_of_readsCompleted (h : After run []) (hw : w.event.Typed) (hcompleted : w.Completed)
    (hread : ReadsCompleted (run ++ [w])) :
  w.event.Plain
  := by
  have htyped : ∀ e ∈ completed run ++ [w.event], e.Typed := by
    simpa [or_imp, forall_and] using ⟨h.typed, hw⟩
  rw [ReadsCompleted, h.file_of_completed hcompleted, completed_concat, if_pos hcompleted, List.nil_append,
    ← fileText_concat, readEvents_whole htyped, List.map_append, List.map_append] at hread
  have hlast := List.append_inj_right' (Except.ok.inj hread) rfl
  rw [← CoordinationEvent.fused_eq_self_iff]
  exact CoordinationEvent.rebuilt_injective (List.singleton_inj.mp hlast)

theorem After.not_readsCompleted_of_newline (h : After run []) (hw : w.event.Typed)
    (hbytes : w.bytes + 1 = (recordLine w.event).length) :
  ¬ReadsCompleted (run ++ [w])
  := by
  have hrecordne := CoordinationEvent.record_ne_nil hw
  have hlength := List.length_pos_iff.mpr hrecordne
  rw [CoordinationEvent.length_recordLine] at hbytes
  have htorn : w.Torn := by
    rw [Write.Torn, CoordinationEvent.length_recordLine]
    omega
  have hcompleted : ¬w.Completed := not_le.mpr htorn.2
  have hfile := h.file_of_torn htorn
  rw [List.take_of_length_le (by omega), List.nil_append] at hfile
  rw [ReadsCompleted, hfile, completed_concat, if_neg hcompleted,
    readEvents_torn h.typed (CoordinationEvent.printable_record hw) hrecordne
      (CoordinationEvent.blank_record hw), CoordinationEvent.readRecord_record hw]
  intro hread
  have hsame := congrArg List.length (Except.ok.inj hread)
  simp at hsame

theorem After.intact_of_readsCompleted (h : After run tail) (hw : w.event.Typed)
    (hread : ReadsCompleted (run ++ [w])) :
  Intact run w
  := by
  by_cases hempty : tail = []
  · subst hempty
    refine ⟨fun hcompleted => ⟨h.plain_of_readsCompleted hw hcompleted hread, h.empty.mp rfl⟩, ?_⟩
    intro hbytes
    exact absurd hread (h.not_readsCompleted_of_newline hw hbytes)
  · refine ⟨fun hcompleted => absurd hread (h.not_readsCompleted_of_torn hw hcompleted hempty), ?_⟩
    intro _
    by_contra hnone
    exact hempty (h.empty.mpr fun x hx htorn => hnone ⟨x, hx, htorn⟩)

theorem After.concat (h : After run tail) (hw : w.event.Typed) (hintact : Intact run w) :
  ∃ tail', After (run ++ [w]) tail'
  := by
  by_cases hcompleted : w.Completed
  · obtain ⟨hplain, hnone⟩ := hintact.1 hcompleted
    obtain rfl := h.empty.mpr hnone
    have hdone : completed (run ++ [w]) = completed run ++ [w.event] := by
      rw [completed_concat, if_pos hcompleted]
    refine ⟨[], ?_, ?_, ?_, h.printable, .nil, h.unread, ?_⟩
    · simpa [hdone, or_imp, forall_and] using ⟨h.typed, hw⟩
    · simpa [hdone, or_imp, forall_and] using ⟨h.plain, hplain⟩
    · rw [h.file_of_completed hcompleted, hdone, fileText_concat, List.nil_append]
    · have hwhole : ¬w.Torn := fun htorn => absurd htorn.2 (not_lt.mpr hcompleted)
      simpa [or_imp, forall_and, hwhole] using hnone
  · have hdone : completed (run ++ [w]) = completed run := by rw [completed_concat, if_neg hcompleted]
    by_cases htorn : w.Torn
    · obtain ⟨hrecord, hne, hprintable⟩ := h.torn_piece hw htorn
      refine ⟨tail ++ w.event.record.take w.bytes, hdone ▸ h.typed, hdone ▸ h.plain, ?_, hprintable,
        h.pieces.concat hrecord hne, ?_, ?_⟩
      · rw [h.file_of_torn htorn, hdone]
      · by_cases hempty : tail = []
        · subst hempty
          have hcut : w.event.record.drop w.bytes ≠ [] := by
            intro hwhole
            have hlength := List.drop_eq_nil_iff.mp hwhole
            have hbytes := htorn.2
            rw [CoordinationEvent.length_recordLine] at hbytes
            obtain ⟨x, hx, htorn'⟩ := hintact.2 (by rw [CoordinationEvent.length_recordLine]; omega)
            exact h.empty.mp rfl x hx htorn'
          have hloads := loads_pieces hrecord hne .nil
          rwa [if_neg fun hwhole => hcut hwhole.1, List.append_nil] at hloads
        · exact h.pieces.loads_concat hempty hrecord hne
      · simp [hne, or_imp, forall_and, htorn]
    · have hbytes : w.bytes = 0 := by
        simp only [Write.Completed, Write.Torn] at hcompleted htorn
        omega
      refine ⟨tail, hdone ▸ h.typed, hdone ▸ h.plain, ?_, h.printable, h.pieces, h.unread, ?_⟩
      · rw [hdone, fileAfter_concat, hbytes, writeEvent, List.take_zero, List.append_nil, h.file]
      · simp [or_imp, forall_and, htorn, h.empty]

theorem after_of_intact (h : ∀ w ∈ run, w.event.Typed)
    (hintact : ∀ earlier w, earlier ++ [w] <+: run → Intact earlier w) :
  ∃ tail, After run tail
  := by
  induction run using List.reverseRecOn with
  | nil => exact ⟨[], after_nil⟩
  | append_singleton run w ih =>
    have hlast : run <+: run ++ [w] := List.prefix_append ..
    obtain ⟨tail, hafter⟩ := ih (fun x hx => h x (List.mem_append_left _ hx))
      fun earlier x hx => hintact earlier x (hx.trans hlast)
    exact hafter.concat (h w (by simp)) (hintact run w (List.prefix_refl _))

/-- The completed events are read at any time exactly if no completed write is behind a torn one or has surrogate pairs,
and no first torn write breaks off at the newline. -/
theorem survives_iff (run : List Write) (h : ∀ w ∈ run, w.event.Typed) :
  Survives run ↔ ∀ earlier w, earlier ++ [w] <+: run → Intact earlier w
  := by
  constructor
  · intro hsurvives
    induction run using List.reverseRecOn with
    | nil =>
      intro earlier w hstart
      simp at hstart
    | append_singleton run last ih =>
      have hlast : run <+: run ++ [last] := List.prefix_append ..
      have hbefore := ih (fun w hw => h w (List.mem_append_left _ hw))
        fun earlier hearlier => hsurvives earlier (hearlier.trans hlast)
      intro earlier w hstart
      rcases List.prefix_concat_iff.mp hstart with heq | hstart
      · obtain ⟨rfl, hw⟩ := List.append_inj' heq rfl
        obtain rfl := List.singleton_inj.mp hw
        obtain ⟨tail, hafter⟩ := after_of_intact (fun x hx => h x (List.mem_append_left _ hx)) hbefore
        exact hafter.intact_of_readsCompleted (h w (by simp)) (hsurvives _ (List.prefix_refl _))
      · exact hbefore earlier w hstart
  · intro hintact earlier hstart
    obtain ⟨tail, hafter⟩ := after_of_intact (fun w hw => h w (hstart.subset hw))
      fun before w hbefore => hintact before w (hbefore.trans hstart)
    exact hafter.readsCompleted

def tornRun (bytes : Nat) : List Write :=
  [⟨.plain (text "e1") (text "m1") .codexMac .started .working (text "2026-10-08T00:00:00Z"), bytes⟩,
    ⟨.plain (text "e2") (text "m1") .codexMac .final .done (text "2026-10-08T01:00:00Z"), 1000⟩]

/-- The report alone, and a start of work behind it that is cut off. -/
theorem survives_reverse_tornRun :
  Survives (tornRun 5).reverse
  := by
  rw [survives_iff _ (by decide)]
  intro earlier w hstart
  rcases earlier with _ | ⟨x, _ | ⟨y, earlier⟩⟩
  · simp [tornRun, List.cons_prefix_cons] at hstart
    subst hstart
    decide +kernel
  · simp [tornRun, List.cons_prefix_cons] at hstart
    obtain ⟨rfl, rfl⟩ := hstart
    decide +kernel
  · simp [tornRun, List.cons_prefix_cons] at hstart

/-- The report is merged with the start that was cut off, and no event is read any more. -/
theorem not_survives :
  ¬∀ run : List Write, (∀ w ∈ run, w.event.Typed) → Survives run
  := by
  intro h
  have hread := h (tornRun 5) (by decide) _ (List.prefix_refl _)
  revert hread
  decide +kernel

end Courier.Coordination
