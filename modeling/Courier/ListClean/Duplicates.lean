import Courier.Library.Groups
import Courier.ListClean.Reported
import Mathlib.Data.List.GetD

/-!
# Duplicates of a cleaned list

Rows with the same cells are exact duplicates, and rows with the same name and postal code as an earlier row
are possible ones.  The findings name the rows of both kinds and no others, and every row of the list has its
row in the result (`duplicatesMarked`). -/

namespace Courier.ListClean

open Text hiding upper lower isDigit
open CharTables Groups

/-! ### Keys -/

def blank (row : List Str) : Bool :=
  row.all fun cell => strip cell = []

def exactKey (row : List Str) : Option (List Str) :=
  if blank row then none else some row

variable {row : List Str}

theorem exactKey_eq_some {cells : List Str} :
  exactKey row = some cells ↔ blank row = false ∧ row = cells
  := by
  unfold exactKey
  split <;> simp [*]

theorem exactGroups_eq (rows : List (List Str)) :
  exactGroups rows = positionsBy exactKey rows
  := by
  unfold exactGroups positionsBy exactKey blank
  congr 1
  funext groups row
  split <;> rfl

section Keys

variable [CharTables]

def firstColumn (columns : List Column) (kind : Kind) : Option Nat :=
  (columns.map Column.kind).findIdx? (· = kind)

def duplicateKey (nameAt plzAt : Option Nat) (row : List Str) : Option (List Str × Str) :=
  match nameAt, plzAt with
  | some nameAt, some plzAt =>
      let key := nameKey (row.getD nameAt [])
      let plz := strip (row.getD plzAt [])
      if key = [] ∨ plz = [] then none else some (key, plz)
  | _, _ => none

variable {key : List Str × Str}

theorem not_blank_of_key {nameAt plzAt : Option Nat}
    (h : duplicateKey nameAt plzAt row = some key) :
  blank row = false
  := by
  unfold duplicateKey at h
  split at h
  · next nameAt plzAt =>
    dsimp only at h
    split at h
    · cases h
    · next hnot =>
      by_contra hblank
      rw [Bool.not_eq_false, blank, List.all_eq_true] at hblank
      apply hnot
      right
      rw [List.getD_eq_getElem?_getD]
      cases hcell : row[plzAt]? with
      | none => rfl
      | some cell => simpa using hblank cell (List.mem_of_getElem? hcell)
  · cases h

theorem fuzzyGroups_eq (nameAt plzAt : Option Nat) (rows : List (List Str)) :
  fuzzyGroups nameAt plzAt rows = positionsBy (duplicateKey nameAt plzAt) rows
  := by
  unfold fuzzyGroups positionsBy
  split
  · next nameAt plzAt =>
    congr 1
    funext groups row
    split
    · next hblank =>
      cases hkey : duplicateKey (some nameAt) (some plzAt) row.1 with
      | none => rfl
      | some key =>
        have hnot := not_blank_of_key hkey
        rw [blank, hblank] at hnot
        cases hnot
    · simp only [duplicateKey]
      split <;> rfl
  · next hnone =>
    have hkey : ∀ row, duplicateKey nameAt plzAt row = none := by
      intro row
      unfold duplicateKey
      split
      · next nameAt plzAt => exact absurd rfl (hnone nameAt plzAt rfl)
      · rfl
    simp only [hkey]
    induction rows.zipIdx with
    | nil => rfl
    | cons row rest ih => exact ih

/-! ### Members of groups -/

def Duplicated (rows : List (List Str)) (i : Nat) : Prop :=
  ∃ row, rows[i]? = some row ∧ blank row = false ∧ ∃ j, j ≠ i ∧ rows[j]? = some row

def exactMembers (rows : List (List Str)) : List (List Nat) :=
  (exactGroups rows).values.filter fun group => 2 ≤ group.length

def possibleMembers (nameAt plzAt : Option Nat) (rows : List (List Str)) : List (List Nat) :=
  (fuzzyGroups nameAt plzAt rows).values.filterMap (fuzzyMembers rows (exactMembers rows))

variable {i : Nat}

section

omit [CharTables]

theorem two_le_length_iff {members : List Nat} (hnodup : members.Nodup) (hi : i ∈ members) :
  2 ≤ members.length ↔ ∃ j ∈ members, j ≠ i
  := by
  match members with
  | [] => cases hi
  | [j] =>
    obtain rfl := List.mem_singleton.mp hi
    simp
  | j :: j' :: rest =>
    refine iff_of_true (by simp) ?_
    by_cases hj : j = i
    · refine ⟨j', by simp, ?_⟩
      rintro rfl
      exact (List.nodup_cons.mp hnodup).1 (by simp [hj])
    · exact ⟨j, by simp, hj⟩

theorem exactMembers_eq (rows : List (List Str)) :
  exactMembers rows = (positionsBy exactKey rows).values.filterMap
    (Option.guard fun group => decide (2 ≤ group.length))
  := by
  rw [List.filterMap_eq_filter, exactMembers, exactGroups_eq]

theorem mem_exactMembers {rows : List (List Str)} :
  i ∈ (exactMembers rows).flatten ↔ Duplicated rows i
  := by
  rw [exactMembers_eq, mem_flatten]
  have hnodup : ∀ cells, (positionsOf exactKey rows cells).Nodup := fun cells =>
    (sorted_positionsOf exactKey rows cells).imp Nat.ne_of_lt
  constructor
  · rintro ⟨cells, chosen, hchosen, -, hi⟩
    obtain ⟨hlength, rfl⟩ : 2 ≤ _ ∧ _ = chosen := by simpa [Option.guard] using hchosen
    obtain ⟨j, hj, hne⟩ := (two_le_length_iff (hnodup cells) hi).mp hlength
    obtain ⟨row, hrow, hkey⟩ := mem_positionsOf.mp hi
    obtain ⟨other, hother, hkey'⟩ := mem_positionsOf.mp hj
    obtain ⟨hblank, rfl⟩ := exactKey_eq_some.mp hkey
    obtain ⟨-, rfl⟩ := exactKey_eq_some.mp hkey'
    exact ⟨other, hrow, hblank, j, hne, hother⟩
  · rintro ⟨row, hrow, hblank, j, hne, hother⟩
    have hkey := exactKey_eq_some.mpr ⟨hblank, rfl⟩
    have hi : i ∈ positionsOf exactKey rows row := mem_positionsOf.mpr ⟨row, hrow, hkey⟩
    have hj : j ∈ positionsOf exactKey rows row := mem_positionsOf.mpr ⟨row, hother, hkey⟩
    have hlength := (two_le_length_iff (hnodup row) hi).mpr ⟨j, hj, hne⟩
    exact ⟨row, _, Option.guard_eq_some_iff.mpr ⟨rfl, by simpa using hlength⟩, List.ne_nil_of_mem hi, hi⟩

end

variable {nameAt plzAt : Option Nat} {rows : List (List Str)}

theorem fuzzyMembers_eq {first : Nat} {later : List Nat}
    (h : positionsOf (duplicateKey nameAt plzAt) rows key = first :: later) :
  fuzzyMembers rows (exactMembers rows) (first :: later) =
    if later.filter (fun i => rows.getD i [] ≠ rows.getD first []) = [] then none
    else some (first :: later.filter fun i => rows.getD i [] ≠ rows.getD first [])
  := by
  have hothers : (later.filter fun i =>
      !((exactMembers rows).any (fun members => members.contains i) &&
        rows.getD i [] = rows.getD first [])) =
      later.filter fun i => rows.getD i [] ≠ rows.getD first [] := by
    refine List.filter_congr fun i hi => ?_
    by_cases hsame : rows.getD i [] = rows.getD first []
    · have hsorted := sorted_positionsOf (duplicateKey nameAt plzAt) rows key
      rw [h] at hsorted
      have hlt := List.rel_of_pairwise_cons hsorted hi
      obtain ⟨row, hrow, hkey⟩ := mem_positionsOf.mp (h ▸ List.mem_cons_of_mem first hi)
      obtain ⟨row', hrow', -⟩ := mem_positionsOf.mp (h ▸ List.mem_cons_self (a := first) (l := later))
      have hrows : row = row' := by simpa [hrow, hrow'] using hsame
      have hduplicated : Duplicated rows i :=
        ⟨row, hrow, not_blank_of_key hkey, first, by omega, by rw [hrow', hrows]⟩
      obtain ⟨members, hmembers, hmem⟩ := List.mem_flatten.mp (mem_exactMembers.mpr hduplicated)
      have hany : ((exactMembers rows).any fun members => members.contains i) = true :=
        List.any_eq_true.mpr ⟨members, hmembers, by simpa using hmem⟩
      rw [hany, decide_eq_true hsame, decide_eq_false (not_not_intro hsame)]
      rfl
    · rw [decide_eq_false hsame, decide_eq_true hsame, Bool.and_false]
      rfl
  exact congrArg (fun others => if others = [] then none else some (first :: others)) hothers

omit [CharTables] in
theorem fuzzyMembers_sublist {exact : List (List Nat)} {group chosen : List Nat}
    (h : fuzzyMembers rows exact group = some chosen) :
  chosen.Sublist group
  := by
  cases group with
  | nil => cases h
  | cons first later =>
    obtain ⟨-, hchosen⟩ := Option.ite_none_left_eq_some.mp h
    cases hchosen
    exact List.filter_sublist.cons_cons first

theorem mem_possibleMembers :
  i ∈ (possibleMembers nameAt plzAt rows).flatten ↔
    ∃ key first later, positionsOf (duplicateKey nameAt plzAt) rows key = first :: later ∧
      ∃ j ∈ later, rows.getD j [] ≠ rows.getD first [] ∧ (i = j ∨ i = first)
  := by
  rw [possibleMembers, fuzzyGroups_eq, mem_flatten]
  constructor
  · rintro ⟨key, chosen, hchosen, hne, hi⟩
    cases hpositions : positionsOf (duplicateKey nameAt plzAt) rows key with
    | nil => exact absurd hpositions hne
    | cons first later =>
      rw [hpositions, fuzzyMembers_eq hpositions] at hchosen
      refine ⟨key, first, later, hpositions, ?_⟩
      split at hchosen
      · cases hchosen
      · next hothers =>
        cases hchosen
        rcases List.mem_cons.mp hi with rfl | hi
        · obtain ⟨j, hj⟩ := List.exists_mem_of_ne_nil _ hothers
          obtain ⟨hlater, hdiffers⟩ := List.mem_filter.mp hj
          exact ⟨j, hlater, by simpa using hdiffers, .inr rfl⟩
        · obtain ⟨hlater, hdiffers⟩ := List.mem_filter.mp hi
          exact ⟨i, hlater, by simpa using hdiffers, .inl rfl⟩
  · rintro ⟨key, first, later, hpositions, j, hj, hdiffers, hi⟩
    have hmem : j ∈ later.filter fun i => rows.getD i [] ≠ rows.getD first [] :=
      List.mem_filter.mpr ⟨hj, decide_eq_true hdiffers⟩
    refine ⟨key, first :: later.filter (fun i => rows.getD i [] ≠ rows.getD first []), ?_,
      by simp [hpositions], ?_⟩
    · rw [hpositions, fuzzyMembers_eq hpositions, if_neg (List.ne_nil_of_mem hmem)]
    · rcases hi with rfl | rfl
      · exact List.mem_cons_of_mem _ hmem
      · exact List.mem_cons_self

/-! ### Findings of duplicates -/

def Finding.mark (f : Finding) : Reason × Int :=
  (f.reason, f.row)

def marksOf (numbers : List Int) (reason : Reason) (marked : List Nat) : List (Reason × Int) :=
  marked.map fun i => (reason, numbers.getD i 0)

section

omit [CharTables]

theorem addDuplicateFindings_marks (numbers : List Int) (rows : List (List Str)) (nameAt : Option Nat)
    (nameHeader : Str) (fuzzy : Bool) (marks : Marks) (group : List Nat) :
  (addDuplicateFindings numbers rows nameAt nameHeader fuzzy marks group).findings.map Finding.mark =
    marks.findings.map Finding.mark ++
      marksOf numbers (if fuzzy then .fuzzyDuplicate else .exactDuplicate) group
  := by
  have hmembers : ∀ (members : List (Nat × Nat)) (step : Marks → Nat × Nat → Marks) (marks : Marks),
      (∀ marks member, (step marks member).findings.map Finding.mark = marks.findings.map Finding.mark ++
        marksOf numbers (if fuzzy then .fuzzyDuplicate else .exactDuplicate) [member.1]) →
      (members.foldl step marks).findings.map Finding.mark = marks.findings.map Finding.mark ++
        marksOf numbers (if fuzzy then .fuzzyDuplicate else .exactDuplicate) (members.map Prod.fst) := by
    intro members step marks hstep
    induction members generalizing marks with
    | nil => simp [marksOf]
    | cons member members ih =>
      rw [List.foldl_cons, ih, hstep]
      simp [marksOf]
  unfold addDuplicateFindings
  rw [hmembers]
  · rw [List.zipIdx_map_fst]
  · intro marks member
    simp [Finding.mark, marksOf]

theorem foldl_marks (numbers : List Int) (rows : List (List Str)) (nameAt : Option Nat)
    (nameHeader : Str) (fuzzy : Bool) (marks : Marks) (groups : List (List Nat)) :
  (groups.foldl (addDuplicateFindings numbers rows nameAt nameHeader fuzzy) marks).findings.map
      Finding.mark =
    marks.findings.map Finding.mark ++
      marksOf numbers (if fuzzy then .fuzzyDuplicate else .exactDuplicate) groups.flatten
  := by
  induction groups generalizing marks with
  | nil => simp [marksOf]
  | cons group groups ih =>
    rw [List.foldl_cons, ih, addDuplicateFindings_marks]
    simp [marksOf]

end

theorem markDuplicates_marks (rows : List (List Str)) (numbers : List Int) (columns : List Column)
    (marks : Marks) :
  (markDuplicates rows numbers columns marks).findings.map Finding.mark =
    marks.findings.map Finding.mark ++ marksOf numbers .exactDuplicate (exactMembers rows).flatten ++
      marksOf numbers .fuzzyDuplicate
        (possibleMembers (firstColumn columns .name) (firstColumn columns .plz) rows).flatten
  := by
  unfold markDuplicates
  dsimp only
  rw [foldl_marks, foldl_marks]
  rfl

def Reason.isDuplicate : Reason → Bool
  | .exactDuplicate | .fuzzyDuplicate => true
  | _ => false

omit [CharTables] in
theorem mem_unique {α : Type} [DecidableEq α] {items : List α} {a : α} (h : a ∈ unique items) :
  a ∈ items
  := by
  have hgrows : ∀ (rest ordered : List α),
      a ∈ rest.foldl (fun ordered item => if item ∈ ordered then ordered else ordered ++ [item]) ordered →
      a ∈ ordered ∨ a ∈ rest := by
    intro rest
    induction rest with
    | nil => exact fun ordered hmem => .inl hmem
    | cons b rest ih =>
      intro ordered hmem
      rw [List.foldl_cons] at hmem
      rcases ih _ hmem with hmem | hmem
      · split at hmem
        · exact .inl hmem
        · rcases List.mem_append.mp hmem with hmem | hmem
          · exact .inl hmem
          · exact .inr (List.mem_singleton.mp hmem ▸ List.mem_cons_self)
      · exact .inr (List.mem_cons_of_mem b hmem)
  exact (hgrows items [] h).resolve_left List.not_mem_nil

theorem emailIssue_not_duplicate {s : Str} {issue : Reason} (h : emailIssue s = some issue) :
  issue.isDuplicate = false
  := by
  unfold emailIssue at h
  repeat' split at h
  all_goals cases h
  all_goals rfl

theorem normalizeKind_reasons (kind : Kind) (s : Str) :
  ∀ reason ∈ (normalizeKind kind s).reasons, reason.isDuplicate = false
  := by
  cases kind with
  | name =>
    simp only [normalizeKind, normalizeName]
    repeat' split
    all_goals simp [Reason.isDuplicate]
  | phone =>
    simp only [normalizeKind, normalizePhone, flagged]
    repeat' split
    all_goals simp [Reason.isDuplicate]
  | email =>
    simp only [normalizeKind, normalizeEmail]
    split
    · simp
    · split
      · next issue hissue => simp [flagged, emailIssue_not_duplicate hissue]
      · split <;> simp [flagged, Reason.isDuplicate]
  | street =>
    simp only [normalizeKind, normalizeStreet, streetName, respelled]
    repeat' split
    all_goals simp [Reason.isDuplicate]
  | plz =>
    simp only [normalizeKind, normalizePlz, flagged]
    repeat' split
    all_goals simp [Reason.isDuplicate]
  | city => simp [normalizeKind]
  | other => simp [normalizeKind]

theorem normalizeCell_reasons (kind : Kind) (s : Str) :
  ∀ reason ∈ (normalizeCell kind s).reasons, reason.isDuplicate = false
  := by
  intro reason hmem
  unfold normalizeCell at hmem
  split at hmem
  · obtain rfl := List.mem_singleton.mp hmem
    rfl
  · rcases List.mem_append.mp (mem_unique hmem) with hmem | hspace
    · rcases List.mem_append.mp hmem with hrules | hcase
      · exact normalizeKind_reasons kind _ reason hrules
      · obtain rfl := List.mem_singleton.mp (List.mem_ite_nil_right.mp hcase).2
        rfl
    · obtain rfl := List.mem_singleton.mp (List.mem_ite_nil_right.mp hspace).2
      rfl

theorem row_findings_not_duplicate {headers : List Str} {number : Int} {f : Finding}
    (h : f ∈ (reportOf headers row number).findings) :
  f.reason.isDuplicate = false
  := by
  rcases mem_row_findings.mp h with ⟨-, rfl⟩ | ⟨i, header, -, hf⟩
  · rfl
  · obtain ⟨reason, hreason, rfl⟩ := List.mem_map.mp hf
    rcases List.mem_append.mp hreason with hreason | hmissing
    · exact normalizeCell_reasons _ _ reason hreason
    · obtain rfl := List.mem_singleton.mp (List.mem_ite_nil_right.mp hmissing).2
      rfl

/-! ### Marked rows -/

structure Finds (result : CleanResult) (reason : Reason) (marked : List Nat) : Prop where
  nodup : marked.Nodup
  lt : ∀ i ∈ marked, i < result.rowNumbers.length
  perm : ((result.findings.filter fun f => f.reason = reason).map Finding.row).Perm
    (marked.map fun i => result.rowNumbers.getD i 0)
  found : result.rowNumbers.Nodup → ∀ i < result.rowNumbers.length,
    (i ∈ marked ↔ ∃ f ∈ result.findings, f.reason = reason ∧ f.row = result.rowNumbers.getD i 0)

section

omit [CharTables]

theorem Finds.of_perm {result : CleanResult} {reason : Reason} {marked : List Nat} (hnodup : marked.Nodup)
    (hlt : ∀ i ∈ marked, i < result.rowNumbers.length)
    (hperm : ((result.findings.filter fun f => f.reason = reason).map Finding.row).Perm
      (marked.map fun i => result.rowNumbers.getD i 0)) :
  Finds result reason marked
  := by
  refine ⟨hnodup, hlt, hperm, fun hnumbers i hi => ?_⟩
  have hmem : ∀ number, (∃ f ∈ result.findings, f.reason = reason ∧ f.row = number) ↔
      ∃ j ∈ marked, result.rowNumbers.getD j 0 = number := by
    intro number
    have hiff := hperm.mem_iff (a := number)
    simpa [and_assoc] using hiff
  rw [hmem]
  constructor
  · exact fun hmarked => ⟨i, hmarked, rfl⟩
  · rintro ⟨j, hj, hsame⟩
    have hjlt := hlt j hj
    rw [List.getD_eq_getElem _ _ hjlt, List.getD_eq_getElem _ _ hi] at hsame
    rwa [(hnumbers.getElem_inj_iff).mp hsame] at hj

theorem filter_marksOf (numbers : List Int) (reason other : Reason) (marked : List Nat) :
  ((marksOf numbers reason marked).filter fun mark => mark.1 = other).map Prod.snd =
    if reason = other then marked.map fun i => numbers.getD i 0 else []
  := by
  rw [marksOf, List.filter_map, List.map_map]
  split_ifs with hsame
  · simp [Function.comp_def, hsame]
  · simp [Function.comp_def, hsame]

end

theorem cleanRows_finds (headers : List Str) (rows : List (List Str)) (numbers : List Int) (reason : Reason)
    (hreason : reason.isDuplicate = true) :
  (((cleanRows headers rows numbers).findings.filter fun f => f.reason = reason).map Finding.row).Perm
    ((if .exactDuplicate = reason then
        (exactMembers ((rowReports headers rows numbers).map RowReport.output)).flatten.map
          fun i => numbers.getD i 0
      else []) ++
    if .fuzzyDuplicate = reason then
      (possibleMembers (firstColumn (columnsOf headers) .name) (firstColumn (columnsOf headers) .plz)
        ((rowReports headers rows numbers).map RowReport.output)).flatten.map fun i => numbers.getD i 0
    else [])
  := by
  have hmarks := markDuplicates_marks ((rowReports headers rows numbers).map RowReport.output) numbers
    (columnsOf headers)
    { findings := headerFindings headers ++ (rowReports headers rows numbers).flatMap RowReport.findings
      notes := (rowReports headers rows numbers).map RowReport.notes }
  have hearlier : ((headerFindings headers ++ (rowReports headers rows numbers).flatMap
      RowReport.findings).map Finding.mark).filter (fun mark => mark.1 = reason) = [] := by
    rw [List.filter_eq_nil_iff]
    intro mark hmark hsame
    obtain ⟨f, hf, rfl⟩ := List.mem_map.mp hmark
    have hnot : f.reason.isDuplicate = false := by
      rcases List.mem_append.mp hf with hf | hf
      · obtain ⟨i, header, -, -, rfl⟩ := mem_headerFindings.mp hf
        rfl
      · obtain ⟨report, hreport, hf⟩ := List.mem_flatMap.mp hf
        obtain ⟨r, hget⟩ := List.mem_iff_getElem?.mp hreport
        obtain ⟨row, number, -, -, rfl⟩ := rowReports_get.mp hget
        exact row_findings_not_duplicate hf
    have heq : f.reason = reason := of_decide_eq_true hsame
    rw [heq, hreason] at hnot
    cases hnot
  have hrows : ∀ findings : List Finding, (findings.filter fun f => f.reason = reason).map Finding.row =
      ((findings.map Finding.mark).filter fun mark => mark.1 = reason).map Prod.snd := by
    intro findings
    rw [List.filter_map, List.map_map]
    rfl
  rw [hrows]
  refine (((List.perm_insertionSort _ _).map Finding.mark).filter _).map Prod.snd |>.trans ?_
  rw [hmarks, List.append_assoc, List.filter_append, hearlier, List.nil_append, List.filter_append,
    List.map_append, filter_marksOf, filter_marksOf]

/-! ### What is marked of a table -/

def normalizedRow (headers row : List Str) : List Str :=
  (headers.zip (fit row headers.length)).map fun cell =>
    (normalizeCell (fieldForHeader (collapse cell.1)) cell.2).value

theorem output_eq_normalizedRow (headers row : List Str) (number : Int) :
  (reportOf headers row number).output = normalizedRow headers row
  := by
  apply List.ext_getElem?
  intro i
  by_cases hi : i < headers.length
  · have hheader := List.getElem?_eq_getElem hi
    have hzip : (headers.zip (fit row headers.length))[i]? = some (headers[i], row.getD i []) :=
      List.getElem?_zip_eq_some.mpr ⟨hheader, fit_get row hi⟩
    rw [output_get hheader, normalizedRow, List.getElem?_map, hzip]
    rfl
  · rw [List.getElem?_eq_none (by rw [length_output]; omega),
      List.getElem?_eq_none (by simp [normalizedRow, length_fit]; omega)]

theorem outputs_eq {headers : List Str} {rows : List (List Str)} {numbers : List Int}
    (hlength : numbers.length = rows.length) :
  (rowReports headers rows numbers).map RowReport.output = rows.map (normalizedRow headers)
  := by
  apply List.ext_getElem?
  intro r
  by_cases hr : r < rows.length
  · have hrow := List.getElem?_eq_getElem hr
    have hnumber := List.getElem?_eq_getElem (hlength ▸ hr)
    rw [List.getElem?_map, rowReports_get.mpr ⟨_, _, hrow, hnumber, rfl⟩, List.getElem?_map, hrow]
    exact congrArg some (output_eq_normalizedRow headers _ _)
  · rw [List.getElem?_eq_none (by simp [rowReports]; omega), List.getElem?_eq_none (by simp; omega)]

def HasKey (headers : List Str) (rows : List (List Str)) (key : List Str × Str) (i : Nat) : Prop :=
  ∃ row, rows[i]? = some row ∧ duplicateKey (firstColumn (columnsOf headers) .name)
    (firstColumn (columnsOf headers) .plz) row = some key

def IsFirst (headers : List Str) (rows : List (List Str)) (key : List Str × Str) (i : Nat) : Prop :=
  HasKey headers rows key i ∧ ∀ j < i, ¬ HasKey headers rows key j

structure PossibleDuplicates (headers : List Str) (rows : List (List Str)) (marked : List Nat) : Prop where
  keyed : ∀ i ∈ marked, ∃ key, HasKey headers rows key i
  later : ∀ key first i, IsFirst headers rows key first → first < i → HasKey headers rows key i →
    (i ∈ marked ↔ rows.getD i [] ≠ rows.getD first [])
  first : ∀ key first, IsFirst headers rows key first →
    (first ∈ marked ↔ ∃ i, first < i ∧ HasKey headers rows key i ∧ i ∈ marked)

theorem hasKey_iff {headers : List Str} {rows : List (List Str)} :
  HasKey headers rows key i ↔ i ∈ positionsOf (duplicateKey (firstColumn (columnsOf headers) .name)
    (firstColumn (columnsOf headers) .plz)) rows key
  := mem_positionsOf.symm

theorem IsFirst.positions {headers : List Str} {rows : List (List Str)}
    {first : Nat} (h : IsFirst headers rows key first) :
  ∃ later, positionsOf (duplicateKey (firstColumn (columnsOf headers) .name)
    (firstColumn (columnsOf headers) .plz)) rows key = first :: later
  := by
  rw [positionsOf_eq_cons]
  refine ⟨hasKey_iff.mp h.1, fun j hj => ?_⟩
  by_contra hlt
  exact h.2 j (by omega) (hasKey_iff.mpr hj)

theorem possibleDuplicates (headers : List Str) (rows : List (List Str)) :
  PossibleDuplicates headers rows (possibleMembers (firstColumn (columnsOf headers) .name)
    (firstColumn (columnsOf headers) .plz) rows).flatten
  := by
  have hsame : ∀ {key key' i}, HasKey headers rows key i → HasKey headers rows key' i → key = key' := by
    rintro key key' i ⟨row, hrow, hkey⟩ ⟨row', hrow', hkey'⟩
    rw [hrow] at hrow'
    cases hrow'
    exact Option.some.inj (hkey.symm.trans hkey')
  have hmarked : ∀ {key first later i}, positionsOf (duplicateKey (firstColumn (columnsOf headers) .name)
      (firstColumn (columnsOf headers) .plz)) rows key = first :: later → HasKey headers rows key i →
      (i ∈ (possibleMembers (firstColumn (columnsOf headers) .name)
        (firstColumn (columnsOf headers) .plz) rows).flatten ↔
      ∃ j ∈ later, rows.getD j [] ≠ rows.getD first [] ∧ (i = j ∨ i = first)) := by
    intro key first later i hpositions hkey
    rw [mem_possibleMembers]
    constructor
    · rintro ⟨key', first', later', hpositions', j, hj, hdiffers, hi⟩
      have hkey' : HasKey headers rows key' i := by
        rw [hasKey_iff, hpositions']
        rcases hi with rfl | rfl
        · exact List.mem_cons_of_mem _ hj
        · exact List.mem_cons_self
      obtain rfl := hsame hkey hkey'
      rw [hpositions] at hpositions'
      cases hpositions'
      exact ⟨j, hj, hdiffers, hi⟩
    · exact fun h => ⟨key, first, later, hpositions, h⟩
  refine ⟨?_, ?_, ?_⟩
  · intro i hi
    obtain ⟨key, first, later, hpositions, j, hj, -, hi⟩ := mem_possibleMembers.mp hi
    refine ⟨key, ?_⟩
    rw [hasKey_iff, hpositions]
    rcases hi with rfl | rfl
    · exact List.mem_cons_of_mem _ hj
    · exact List.mem_cons_self
  · intro key first i hfirst hlt hkey
    obtain ⟨later, hpositions⟩ := hfirst.positions
    rw [hmarked hpositions hkey]
    have hlater : i ∈ later := by
      have hmem := hasKey_iff.mp hkey
      rw [hpositions] at hmem
      exact (List.mem_cons.mp hmem).resolve_left (by omega)
    constructor
    · rintro ⟨j, -, hdiffers, rfl | rfl⟩
      · exact hdiffers
      · omega
    · exact fun hdiffers => ⟨i, hlater, hdiffers, .inl rfl⟩
  · intro key first hfirst
    obtain ⟨later, hpositions⟩ := hfirst.positions
    have hsorted := sorted_positionsOf (duplicateKey (firstColumn (columnsOf headers) .name)
      (firstColumn (columnsOf headers) .plz)) rows key
    rw [hpositions] at hsorted
    rw [hmarked hpositions hfirst.1]
    constructor
    · rintro ⟨j, hj, hdiffers, -⟩
      have hkey : HasKey headers rows key j := by
        rw [hasKey_iff, hpositions]
        exact List.mem_cons_of_mem _ hj
      exact ⟨j, List.rel_of_pairwise_cons hsorted hj, hkey,
        (hmarked hpositions hkey).mpr ⟨j, hj, hdiffers, .inl rfl⟩⟩
    · rintro ⟨i, hlt, hkey, hi⟩
      obtain ⟨j, hj, hdiffers, -⟩ := (hmarked hpositions hkey).mp hi
      exact ⟨j, hj, hdiffers, .inr rfl⟩

def rowIds (rows : List (List Str)) (rowNumbers : Option (List Int)) : List Int :=
  rowNumbers.getD ((List.range rows.length).map fun i => (i : Int) + 2)

structure DuplicatesMarked (headers : List Str) (rows : List (List Str)) (numbers : List Int)
    (result : CleanResult) : Prop where
  rowNumbers : result.rowNumbers = numbers
  length : result.rows.length = rows.length
  kept : ∀ (i : Nat) (row : List Str), rows[i]? = some row → ∃ number rest, numbers[i]? = some number ∧
    result.rows[i]? = some (normalizedRow headers row ++ rest ++ [decimal number])
  exact : ∃ marked, Finds result .exactDuplicate marked ∧
    ∀ i, i ∈ marked ↔ Duplicated (rows.map (normalizedRow headers)) i
  possible : ∃ marked, Finds result .fuzzyDuplicate marked ∧
    PossibleDuplicates headers (rows.map (normalizedRow headers)) marked

section Table

variable {headers : List Str} {rows : List (List Str)} {numbers : List Int}

theorem cleanRows_kept (headers : List Str) (hlength : numbers.length = rows.length)
    (hrow : rows[i]? = some row) :
  ∃ number rest, numbers[i]? = some number ∧ (cleanRows headers rows numbers).rows[i]? =
    some (normalizedRow headers row ++ rest ++ [decimal number])
  := by
  have hi : i < numbers.length := by
    rw [hlength]
    exact (List.getElem?_eq_some_iff.mp hrow).1
  have hnumber := List.getElem?_eq_getElem hi
  obtain ⟨hint, hget⟩ := rows_shape headers hlength hrow hnumber
  rw [output_eq_normalizedRow] at hget
  have hlast : ∀ overflow : List Str, normalizedRow headers row ++ overflow ++ [hint, decimal numbers[i]] =
      normalizedRow headers row ++ (overflow ++ [hint]) ++ [decimal numbers[i]] := by
    simp
  rw [hlast] at hget
  exact ⟨_, _, hnumber, hget⟩

theorem length_cleanRows (hlength : numbers.length = rows.length) :
  (cleanRows headers rows numbers).rows.length = rows.length
  := by
  apply Nat.le_antisymm
  · simp only [cleanRows, rowReports, List.length_zipWith]
    omega
  · by_contra hlt
    have hr : (cleanRows headers rows numbers).rows.length < rows.length := by omega
    obtain ⟨number, rest, -, hget⟩ := cleanRows_kept headers hlength (List.getElem?_eq_getElem hr)
    rw [List.getElem?_eq_none (Nat.le_refl _)] at hget
    cases hget

theorem cleanRows_exact (hlength : numbers.length = rows.length) :
  Finds (cleanRows headers rows numbers) .exactDuplicate
    (exactMembers (rows.map (normalizedRow headers))).flatten
  := by
  refine .of_perm ?_ ?_ ?_
  · rw [exactMembers_eq]
    refine nodup_flatten fun hchosen => ?_
    rw [← (Option.guard_eq_some_iff.mp hchosen).1]
  · intro i hi
    obtain ⟨row, hrow, -⟩ := mem_exactMembers.mp hi
    have hlt := (List.getElem?_eq_some_iff.mp hrow).1
    rw [List.length_map] at hlt
    exact hlt.trans_eq hlength.symm
  · have hfinds := cleanRows_finds headers rows numbers .exactDuplicate rfl
    rw [outputs_eq hlength, if_pos rfl, if_neg (by decide), List.append_nil] at hfinds
    exact hfinds

theorem cleanRows_possible (hlength : numbers.length = rows.length) :
  Finds (cleanRows headers rows numbers) .fuzzyDuplicate
    (possibleMembers (firstColumn (columnsOf headers) .name) (firstColumn (columnsOf headers) .plz)
      (rows.map (normalizedRow headers))).flatten
  := by
  refine .of_perm ?_ ?_ ?_
  · rw [possibleMembers, fuzzyGroups_eq]
    exact nodup_flatten fuzzyMembers_sublist
  · intro i hi
    obtain ⟨key, hkey⟩ := (possibleDuplicates headers (rows.map (normalizedRow headers))).keyed i hi
    obtain ⟨row, hrow, -⟩ := hkey
    have hlt := (List.getElem?_eq_some_iff.mp hrow).1
    rw [List.length_map] at hlt
    exact hlt.trans_eq hlength.symm
  · have hfinds := cleanRows_finds headers rows numbers .fuzzyDuplicate rfl
    rw [outputs_eq hlength, if_neg (by decide), if_pos rfl, List.nil_append] at hfinds
    exact hfinds

end Table

theorem duplicatesMarked {headers : List Str} {rows : List (List Str)} {rowNumbers : Option (List Int)}
    {maxRows : Int} {result : CleanResult} (h : cleanTable headers rows rowNumbers maxRows = .ok result) :
  DuplicatesMarked headers rows (rowIds rows rowNumbers) result
  := by
  simp only [cleanTable, Except.bind_unit_eq_ok, Except.check_eq_ok] at h
  obtain ⟨-, -, -, hlength, heq⟩ := h
  cases heq
  have hlength : (rowIds rows rowNumbers).length = rows.length := hlength
  change DuplicatesMarked headers rows _ (cleanRows headers rows (rowIds rows rowNumbers))
  exact
    { rowNumbers := rfl
      length := length_cleanRows hlength
      kept := fun _ _ hrow => cleanRows_kept headers hlength hrow
      exact := ⟨_, cleanRows_exact hlength, fun _ => mem_exactMembers⟩
      possible := ⟨_, cleanRows_possible hlength, possibleDuplicates headers _⟩ }

end Keys

section Example

local instance duplicateTables : CharTables := CharTables.ascii

def threeRows : List (List Str) :=
  [[text "Eva Kern", text "10115"], [text "Kern Eva", text "10115"], [text "eva kern", text "10115"]]

/-- A row twice, and the same name in another order. -/
theorem duplicatesMarked_names :
  ∃ result, cleanTable [text "Name", text "PLZ"] threeRows none 2000 = .ok result ∧
    result.findings.map (fun f => (f.row, f.reason)) = [(2, .exactDuplicate), (2, .fuzzyDuplicate),
      (3, .fuzzyDuplicate), (4, .exactDuplicate), (4, .inconsistentCase)] ∧
    DuplicatesMarked [text "Name", text "PLZ"] threeRows [2, 3, 4] result
  := by
  have hclean : cleanTable [text "Name", text "PLZ"] threeRows none 2000 =
      .ok (cleanRows [text "Name", text "PLZ"] threeRows [2, 3, 4]) := by
    decide +kernel
  exact ⟨_, hclean, by decide +kernel, duplicatesMarked hclean⟩

end Example

end Courier.ListClean
