import Courier.ListClean.Cells

/-!
# What is reported of a cleaned list

Every finding that shows a change is about a cell that was changed that way, and what stands in a row past the
header is kept.  Every change is reported exactly if no cell changes silently (`reported_iff`). -/

namespace Courier.ListClean

open Text hiding upper lower isDigit
open CharTables

/-! ### Duplicates -/

/-- Findings are added that show no change, and no row of notes. -/
def Marks.Extends (marks marks' : Marks) : Prop :=
  ∃ added, marks'.findings = marks.findings ++ added ∧ (∀ f ∈ added, f.before = f.after) ∧
    marks'.notes.length = marks.notes.length

theorem Marks.Extends.refl (marks : Marks) :
  marks.Extends marks
  := ⟨[], by simp, by simp, rfl⟩

theorem Marks.Extends.trans {marks marks' marks'' : Marks} (h : marks.Extends marks')
    (h' : marks'.Extends marks'') :
  marks.Extends marks''
  := by
  obtain ⟨added, hfindings, hsame, hnotes⟩ := h
  obtain ⟨added', hfindings', hsame', hnotes'⟩ := h'
  refine ⟨added ++ added', ?_, ?_, hnotes'.trans hnotes⟩
  · rw [hfindings', hfindings, List.append_assoc]
  · intro f hf
    rcases List.mem_append.mp hf with hf | hf
    · exact hsame f hf
    · exact hsame' f hf

theorem Marks.Extends.foldl {α : Type} {step : Marks → α → Marks}
    (hstep : ∀ (marks : Marks) (a : α), marks.Extends (step marks a)) (items : List α) (marks : Marks) :
  marks.Extends (items.foldl step marks)
  := by
  induction items generalizing marks with
  | nil => exact .refl marks
  | cons a items ih => exact (hstep marks a).trans (ih (step marks a))

theorem addDuplicateFindings_extends (numbers : List Int) (rows : List (List Str)) (nameAt : Option Nat)
    (nameHeader : Str) (fuzzy : Bool) (marks : Marks) (group : List Nat) :
  marks.Extends (addDuplicateFindings numbers rows nameAt nameHeader fuzzy marks group)
  := by
  unfold addDuplicateFindings
  apply Marks.Extends.foldl
  intro marks member
  exact ⟨_, rfl, by simp, by simp⟩

section Report

variable [CharTables]

theorem markDuplicates_extends (rows : List (List Str)) (numbers : List Int) (columns : List Column)
    (marks : Marks) :
  marks.Extends (markDuplicates rows numbers columns marks)
  := by
  unfold markDuplicates
  exact Marks.Extends.trans
    (Marks.Extends.foldl (addDuplicateFindings_extends _ _ _ _ _) _ _)
    (Marks.Extends.foldl (addDuplicateFindings_extends _ _ _ _ _) _ _)

/-! ### Columns and cells -/

theorem length_columnsOf (headers : List Str) :
  (columnsOf headers).length = headers.length
  := by
  simp [columnsOf]

variable {i : Nat} {header : Str}

theorem columnsOf_get {headers : List Str} (h : headers[i]? = some header) :
  (columnsOf headers)[i]? =
    some { index := i, header := collapse header, kind := fieldForHeader (collapse header) }
  := by
  simp [columnsOf, h]

section

omit [CharTables]

theorem fit_get (row : List Str) {width : Nat} (h : i < width) :
  (fit row width)[i]? = some (row.getD i [])
  := by
  unfold fit
  by_cases hi : i < row.length
  · rw [List.getElem?_append_left (by simp; omega), List.getElem?_take_of_lt h]
    simp [hi]
  · rw [List.getElem?_append_right (by simp; omega), List.getElem?_replicate]
    have hlt : i - (row.take width).length < width - row.length := by
      rw [List.length_take]
      omega
    have hnone : row[i]? = none := List.getElem?_eq_none (by omega)
    rw [if_pos hlt, List.getD_eq_getElem?_getD, hnone]
    rfl

theorem length_fit (row : List Str) (width : Nat) :
  (fit row width).length = width
  := by
  simp [fit]
  omega

end

def requiredOf (headers : List Str) : List Kind :=
  requiredFields ((columnsOf headers).map Column.kind)

def columnOf (i : Nat) (header : Str) : Column where
  index := i
  header := collapse header
  kind := fieldForHeader (collapse header)

def cellsOf (headers row : List Str) (number : Int) : List CellReport :=
  ((columnsOf headers).zip (fit row (columnsOf headers).length)).map fun cell =>
    cleanCell (requiredOf headers) number cell.1 cell.2

def reportOf (headers row : List Str) (number : Int) : RowReport :=
  cleanRow (columnsOf headers) (requiredOf headers) (overflowHeader (headers.map collapse)) row number

variable {row : List Str} {number : Int}

theorem cellsOf_get {headers : List Str} {report : CellReport} :
  (cellsOf headers row number)[i]? = some report ↔ ∃ header, headers[i]? = some header ∧
    report = cleanCell (requiredOf headers) number (columnOf i header) (row.getD i [])
  := by
  rw [cellsOf, List.getElem?_map, length_columnsOf]
  by_cases hi : i < headers.length
  · have hheader := List.getElem?_eq_getElem hi
    have hzip : ((columnsOf headers).zip (fit row headers.length))[i]? =
        some (columnOf i headers[i], row.getD i []) :=
      List.getElem?_zip_eq_some.mpr ⟨columnsOf_get hheader, fit_get row hi⟩
    rw [hzip, hheader]
    simp [eq_comm]
  · have hnone : headers[i]? = none := List.getElem?_eq_none (by omega)
    have hzip : ((columnsOf headers).zip (fit row headers.length))[i]? = none := by
      apply List.getElem?_eq_none
      rw [List.length_zip, length_columnsOf, length_fit]
      omega
    rw [hzip, hnone]
    simp

theorem output_eq (headers row : List Str) (number : Int) :
  (reportOf headers row number).output = (cellsOf headers row number).map CellReport.value
  := rfl

theorem length_output (headers row : List Str) (number : Int) :
  (reportOf headers row number).output.length = headers.length
  := by
  rw [output_eq, cellsOf]
  simp [length_columnsOf, length_fit]

theorem output_get {headers : List Str}
    (h : headers[i]? = some header) :
  (reportOf headers row number).output[i]? =
    some (normalizeCell (fieldForHeader (collapse header)) (row.getD i [])).value
  := by
  rw [output_eq, List.getElem?_map, cellsOf_get.mpr ⟨header, h, rfl⟩]
  rfl

variable {f : Finding}

theorem mem_cell_findings {required : List Kind} {column : Column} {original : Str}
    (h : f ∈ (cleanCell required number column original).findings) :
  f.row = number ∧ f.column = column.header ∧ f.before = original ∧
    f.after = (normalizeCell column.kind original).value
  := by
  obtain ⟨reason, -, rfl⟩ := List.mem_map.mp h
  exact ⟨rfl, rfl, rfl, rfl⟩

theorem cell_findings_eq_nil {required : List Kind} {column : Column} {original : Str}
    (hchanged : (normalizeCell column.kind original).value ≠ original) :
  (cleanCell required number column original).findings = [] ↔ Silent column.kind original
  := by
  simp only [cleanCell, List.map_eq_nil_iff, List.append_eq_nil_iff]
  constructor
  · rintro ⟨hreasons, -⟩
    exact silent_iff.mpr ⟨hchanged, hreasons⟩
  · intro h
    refine ⟨(silent_iff.mp h).2, ?_⟩
    rw [if_neg]
    rintro ⟨-, hblank⟩
    exact h.not_blank hblank

/-- The findings of a row are the ones of its cells, and the one of the cells past the header. -/
theorem mem_row_findings {headers : List Str} :
  f ∈ (reportOf headers row number).findings ↔
    ((reportOf headers row number).overflow ≠ [] ∧
      f = finding number (overflowHeader (headers.map collapse)) .extraColumns
        (reportOf headers row number).overflow (reportOf headers row number).overflow
        (overflowHeader (headers.map collapse))
        (some (overflowMessage (reportOf headers row number).overflow))) ∨
    ∃ i header, headers[i]? = some header ∧
      f ∈ (cleanCell (requiredOf headers) number (columnOf i header) (row.getD i [])).findings
  := by
  have hcells : f ∈ (cellsOf headers row number).flatMap CellReport.findings ↔
      ∃ i header, headers[i]? = some header ∧
        f ∈ (cleanCell (requiredOf headers) number (columnOf i header) (row.getD i [])).findings := by
    rw [List.mem_flatMap]
    constructor
    · rintro ⟨report, hmem, hf⟩
      obtain ⟨i, hget⟩ := List.mem_iff_getElem?.mp hmem
      obtain ⟨header, hheader, rfl⟩ := cellsOf_get.mp hget
      exact ⟨i, header, hheader, hf⟩
    · rintro ⟨i, header, hheader, hf⟩
      exact ⟨_, List.mem_of_getElem? (cellsOf_get.mpr ⟨header, hheader, rfl⟩), hf⟩
  rw [← hcells]
  change f ∈ (if (reportOf headers row number).overflow ≠ [] then _ else _) ++ _ ↔ _
  rw [List.mem_append]
  by_cases hover : (reportOf headers row number).overflow ≠ []
  · rw [if_pos hover, List.mem_singleton]
    exact or_congr (and_iff_right hover).symm Iff.rfl
  · rw [if_neg hover]
    have hnot : ¬ ((reportOf headers row number).overflow ≠ [] ∧
        f = finding number (overflowHeader (headers.map collapse)) .extraColumns
          (reportOf headers row number).overflow (reportOf headers row number).overflow
          (overflowHeader (headers.map collapse))
          (some (overflowMessage (reportOf headers row number).overflow))) := fun h => hover h.1
    rw [or_iff_right hnot, or_iff_right (List.not_mem_nil)]
    exact Iff.rfl

/-! ### Tables -/

section Table

variable {headers : List Str} {rows : List (List Str)} {numbers : List Int}

variable {r : Nat}

theorem rowReports_get {report : RowReport} :
  (rowReports headers rows numbers)[r]? = some report ↔ ∃ row number, rows[r]? = some row ∧
    numbers[r]? = some number ∧ report = reportOf headers row number
  := by
  rw [rowReports, List.getElem?_zipWith_eq_some]
  constructor
  · rintro ⟨row, number, hrow, hnumber, heq⟩
    exact ⟨row, number, hrow, hnumber, heq.symm⟩
  · rintro ⟨row, number, hrow, hnumber, heq⟩
    exact ⟨row, number, hrow, hnumber, heq.symm⟩

omit [CharTables] in
theorem mem_headerFindings :
  f ∈ headerFindings headers ↔ ∃ i header, headers[i]? = some header ∧ header ≠ collapse header ∧
    f = finding 1 (collapse header) .whitespace header (collapse header) (cellName i 1) none
  := by
  rw [headerFindings, List.mem_filterMap]
  constructor
  · rintro ⟨⟨header, i⟩, hmem, hf⟩
    have hget := List.mem_zipIdx_iff_getElem?.mp hmem
    simp only at hf hget
    split at hf
    · next hne =>
      cases hf
      exact ⟨i, header, hget, hne, rfl⟩
    · cases hf
  · rintro ⟨i, header, hget, hne, rfl⟩
    exact ⟨(header, i), List.mem_zipIdx_iff_getElem?.mpr hget, if_pos hne⟩

theorem mem_findings (headers : List Str) (rows : List (List Str)) (numbers : List Int) :
  ∃ added : List Finding, (∀ g ∈ added, g.before = g.after) ∧
    ∀ f, f ∈ (cleanRows headers rows numbers).findings ↔ f ∈ headerFindings headers ∨
      (∃ (r : Nat) (row : List Str) (number : Int), rows[r]? = some row ∧ numbers[r]? = some number ∧
        f ∈ (reportOf headers row number).findings) ∨ f ∈ added
  := by
  obtain ⟨added, hfindings, hsame, -⟩ := markDuplicates_extends
    ((rowReports headers rows numbers).map RowReport.output) numbers (columnsOf headers)
    { findings := headerFindings headers ++ (rowReports headers rows numbers).flatMap RowReport.findings
      notes := (rowReports headers rows numbers).map RowReport.notes }
  refine ⟨added, hsame, fun f => ?_⟩
  have hrows : f ∈ (rowReports headers rows numbers).flatMap RowReport.findings ↔
      ∃ (r : Nat) (row : List Str) (number : Int), rows[r]? = some row ∧ numbers[r]? = some number ∧
        f ∈ (reportOf headers row number).findings := by
    rw [List.mem_flatMap]
    constructor
    · rintro ⟨report, hmem, hf⟩
      obtain ⟨r, hget⟩ := List.mem_iff_getElem?.mp hmem
      obtain ⟨row, number, hrow, hnumber, rfl⟩ := rowReports_get.mp hget
      exact ⟨r, row, number, hrow, hnumber, hf⟩
    · rintro ⟨r, row, number, hrow, hnumber, hf⟩
      exact ⟨_, List.mem_of_getElem? (rowReports_get.mpr ⟨row, number, hrow, hnumber, rfl⟩), hf⟩
  simp only [cleanRows]
  rw [(List.perm_insertionSort _ _).mem_iff, hfindings, List.mem_append, List.mem_append, hrows,
    or_assoc]

def Overflows (headers : List Str) (rows : List (List Str)) (numbers : List Int) : Prop :=
  ∃ report ∈ rowReports headers rows numbers, report.overflow ≠ []

theorem any_overflow_iff :
  ((rowReports headers rows numbers).any fun report => report.overflow ≠ []) = true ↔
    Overflows headers rows numbers
  := by
  simp [Overflows]

theorem rows_shape (headers : List Str) (hlength : numbers.length = rows.length)
    (hrow : rows[r]? = some row) (hnumber : numbers[r]? = some number) :
  ∃ hint, (cleanRows headers rows numbers).rows[r]? = some ((reportOf headers row number).output ++
    (if (rowReports headers rows numbers).any fun report => report.overflow ≠ [] then
      [(reportOf headers row number).overflow] else []) ++ [hint, decimal number])
  := by
  obtain ⟨-, -, -, hnotes⟩ := markDuplicates_extends
    ((rowReports headers rows numbers).map RowReport.output) numbers (columnsOf headers)
    { findings := headerFindings headers ++ (rowReports headers rows numbers).flatMap RowReport.findings
      notes := (rowReports headers rows numbers).map RowReport.notes }
  have hr : r < rows.length := (List.getElem?_eq_some_iff.mp hrow).1
  have hreports : (rowReports headers rows numbers).length = rows.length := by
    simp [rowReports, hlength]
  have hreport : (rowReports headers rows numbers)[r]? = some (reportOf headers row number) :=
    rowReports_get.mpr ⟨row, number, hrow, hnumber, rfl⟩
  simp only [cleanRows]
  rw [List.length_map, hreports] at hnotes
  have hnote := List.getElem?_eq_getElem (hnotes.symm ▸ hr)
  have hzip := List.getElem?_zip_eq_some (z := (_, number)).mpr ⟨hnote, hnumber⟩
  rw [List.getElem?_zipWith_eq_some.mpr ⟨_, _, hreport, hzip, rfl⟩]
  exact ⟨_, rfl⟩

theorem rows_get (headers : List Str) (hlength : numbers.length = rows.length)
    (hrow : rows[r]? = some row) (hnumber : numbers[r]? = some number) :
  ∃ rest, (cleanRows headers rows numbers).rows[r]? =
    some ((reportOf headers row number).output ++ rest) ∧
    (Overflows headers rows numbers → ∃ more, rest = (reportOf headers row number).overflow :: more)
  := by
  obtain ⟨hint, hget⟩ := rows_shape headers hlength hrow hnumber
  refine ⟨_, hget.trans (congrArg some (List.append_assoc _ _ _)), ?_⟩
  intro hover
  rw [if_pos (any_overflow_iff.mpr hover)]
  exact ⟨_, rfl⟩

theorem headers_get (h : headers[i]? = some header) :
  (cleanRows headers rows numbers).headers[i]? = some (collapse header)
  := by
  have hi : i < (headers.map collapse).length := by
    rw [List.length_map]
    exact (List.getElem?_eq_some_iff.mp h).1
  simp only [cleanRows, List.append_assoc]
  rw [List.getElem?_append_left hi, List.getElem?_map, h]
  rfl

theorem header_overflow (h : Overflows headers rows numbers) :
  (cleanRows headers rows numbers).headers[headers.length]? = some (overflowHeader (headers.map collapse))
  := by
  simp only [cleanRows, List.append_assoc]
  rw [if_pos (any_overflow_iff.mpr h), List.getElem?_append_right (by simp)]
  simp

end Table

/-! ### Cells past the header -/

section Overflow

section

omit [CharTables]

theorem rdropWhile_blank (p : Str → Bool) (cells : List Str) :
  ∃ dropped, cells = cells.rdropWhile p ++ dropped ∧ ∀ cell ∈ dropped, p cell = true
  := by
  induction cells using List.reverseRecOn with
  | nil => exact ⟨[], rfl, by simp⟩
  | append_singleton cells cell ih =>
    by_cases hcell : p cell = true
    · rw [List.rdropWhile_concat_pos _ _ _ hcell]
      obtain ⟨dropped, heq, hdropped⟩ := ih
      refine ⟨dropped ++ [cell], by rw [← List.append_assoc, ← heq], ?_⟩
      intro other hother
      rcases List.mem_append.mp hother with hother | hother
      · exact hdropped other hother
      · rwa [List.mem_singleton.mp hother]
    · rw [List.rdropWhile_concat_neg _ _ _ hcell]
      exact ⟨[], by simp, by simp⟩

theorem infix_intercalate {sep part : Str} :
  ∀ {parts : List Str}, part ∈ parts → part <:+: sep.intercalate parts
  | [], h => nomatch h
  | other :: parts, h => by
    by_cases hparts : parts = []
    · subst hparts
      obtain rfl := List.mem_singleton.mp h
      rw [List.intercalate_singleton]
    · rw [List.intercalate_cons_of_ne_nil hparts]
      rcases List.mem_cons.mp h with rfl | h
      · rw [List.append_assoc]
        exact (List.prefix_append part _).isInfix
      · exact (infix_intercalate h).trans (List.suffix_append _ _).isInfix

/-- A value past the header that no padding follows is kept in the overflow, which is not empty. -/
theorem infix_overflowText {extra start rest : List Str} {value : Str}
    (h : extra = start ++ value :: rest) (hkept : ∃ cell ∈ value :: rest, strip cell ≠ []) :
  overflowText extra ≠ [] ∧ value <:+: overflowText extra
  := by
  obtain ⟨dropped, heq, hdropped⟩ := rdropWhile_blank (fun cell => strip cell = []) extra
  obtain ⟨cell, hcell, hblank⟩ := hkept
  have hnotDropped : ∀ more, more ++ value :: rest ≠ dropped := by
    rintro more rfl
    exact hblank (by simpa using hdropped cell (List.mem_append_right more hcell))
  have hboth : value ∈ (extra.rdropWhile fun cell => strip cell = []) ∧
      cell ∈ extra.rdropWhile fun cell => strip cell = [] := by
    rw [h] at heq ⊢
    obtain ⟨more, hstart, hrest⟩ | ⟨more, hstart, hrest⟩ := List.append_eq_append_iff.mp heq
    · cases more with
      | nil => exact absurd hrest (hnotDropped [])
      | cons other more =>
        obtain ⟨rfl, hmore⟩ := List.cons.inj hrest
        rw [hstart]
        refine ⟨by simp, ?_⟩
        rw [hrest] at hcell
        rcases List.mem_append.mp hcell with hcell | hcell
        · exact List.mem_append_right start hcell
        · exact absurd (by simpa using hdropped cell hcell) hblank
    · exact absurd hrest.symm (hnotDropped more)
  have hall : ((extra.rdropWhile fun cell => strip cell = []).all fun cell => strip cell = []) = false := by
    rw [List.all_eq_false]
    exact ⟨cell, hboth.2, by simpa using hblank⟩
  simp only [overflowText]
  rw [if_neg (by simp [hall])]
  refine ⟨?_, infix_intercalate hboth.1⟩
  intro hnil
  have hcellNil : cell = [] := by
    have hinfix : cell <:+: (text " | ").intercalate _ := infix_intercalate hboth.2
    rw [hnil] at hinfix
    exact List.infix_nil.mp hinfix
  rw [hcellNil] at hblank
  exact hblank rfl

end

end Overflow

/-! ### What is reported -/

def Changed (headers : List Str) (rows : List (List Str)) (result : CleanResult) (row : Int)
    (column before after : Str) : Prop :=
  before ≠ after ∧
    ((row = 1 ∧ column = after ∧
        ∃ i : Nat, headers[i]? = some before ∧ result.headers[i]? = some after) ∨
      ∃ (r i : Nat) (input output : List Str), rows[r]? = some input ∧ result.rows[r]? = some output ∧
        result.rowNumbers[r]? = some row ∧ i < headers.length ∧ result.headers[i]? = some column ∧
        input.getD i [] = before ∧ output[i]? = some after)

def Complete (headers : List Str) (rows : List (List Str)) (result : CleanResult) : Prop :=
  ∀ row column before after, Changed headers rows result row column before after →
    ∃ f ∈ result.findings, f.row = row ∧ f.column = column ∧ f.before = before ∧ f.after = after

def Sound (headers : List Str) (rows : List (List Str)) (result : CleanResult) : Prop :=
  ∀ f ∈ result.findings, f.before ≠ f.after →
    Changed headers rows result f.row f.column f.before f.after

def Keeps (headers : List Str) (rows : List (List Str)) (result : CleanResult) : Prop :=
  ∀ (r : Nat) (input start rest : List Str) (value : Str), rows[r]? = some input →
    input.drop headers.length = start ++ value :: rest → (∃ cell ∈ value :: rest, strip cell ≠ []) →
    ∃ output cell, result.rows[r]? = some output ∧ output[headers.length]? = some cell ∧
      result.headers[headers.length]? = some (overflowHeader (headers.map collapse)) ∧ value <:+: cell

/-- What is reported of a cleaned table is all of its changes and nothing else, and nothing is lost. -/
structure Reported (headers : List Str) (rows : List (List Str)) (result : CleanResult) : Prop where
  complete : Complete headers rows result
  sound : Sound headers rows result
  keeps : Keeps headers rows result

/-- No cell changes silently. -/
def NoneSilent (headers : List Str) (rows : List (List Str)) : Prop :=
  ∀ row ∈ rows, ∀ (i : Nat) (header : Str), headers[i]? = some header →
    ¬ Silent (fieldForHeader (collapse header)) (row.getD i [])

section Table

variable {headers : List Str} {rows : List (List Str)} {numbers : List Int}

theorem cell_get (hlength : numbers.length = rows.length) {r : Nat} (hrow : rows[r]? = some row)
    (hnumber : numbers[r]? = some number)
    (hheader : headers[i]? = some header) :
  ∃ output, (cleanRows headers rows numbers).rows[r]? = some output ∧
    output[i]? = some (normalizeCell (fieldForHeader (collapse header)) (row.getD i [])).value
  := by
  obtain ⟨rest, hget, -⟩ := rows_get headers hlength hrow hnumber
  refine ⟨_, hget, ?_⟩
  have hi : i < headers.length := (List.getElem?_eq_some_iff.mp hheader).1
  rw [List.getElem?_append_left (by rwa [length_output])]
  exact output_get hheader

theorem cleanRows_sound (hlength : numbers.length = rows.length) :
  Sound headers rows (cleanRows headers rows numbers)
  := by
  intro f hf hne
  refine ⟨hne, ?_⟩
  obtain ⟨added, hsame, hmem⟩ := mem_findings headers rows numbers
  rcases (hmem f).mp hf with hf | ⟨r, row, number, hrow, hnumber, hf⟩ | hf
  · obtain ⟨i, header, hget, -, rfl⟩ := mem_headerFindings.mp hf
    exact .inl ⟨rfl, rfl, i, hget, headers_get hget⟩
  · rcases mem_row_findings.mp hf with ⟨-, rfl⟩ | ⟨i, header, hheader, hf⟩
    · exact absurd rfl hne
    · obtain ⟨hfrow, hcolumn, hbefore, hafter⟩ := mem_cell_findings hf
      obtain ⟨output, houtput, hcell⟩ := cell_get hlength hrow hnumber hheader
      refine .inr ⟨r, i, row, output, hrow, houtput, ?_, (List.getElem?_eq_some_iff.mp hheader).1, ?_, ?_, ?_⟩
      · rw [hfrow]
        exact hnumber
      · rw [hcolumn]
        exact headers_get hheader
      · exact hbefore.symm
      · rw [hafter]
        exact hcell
  · exact absurd (hsame f hf) hne

theorem cleanRows_keeps (hlength : numbers.length = rows.length) :
  Keeps headers rows (cleanRows headers rows numbers)
  := by
  intro r input start rest value hrow hdrop hkept
  have hr : r < numbers.length := by
    rw [hlength]
    exact (List.getElem?_eq_some_iff.mp hrow).1
  have hnumber := List.getElem?_eq_getElem hr
  obtain ⟨hne, hinfix⟩ := infix_overflowText hdrop hkept
  have hoverflow : (reportOf headers input numbers[r]).overflow =
      overflowText (input.drop headers.length) := by
    simp only [reportOf, cleanRow, length_columnsOf]
  have hover : Overflows headers rows numbers := by
    refine ⟨_, List.mem_of_getElem? (rowReports_get.mpr ⟨input, _, hrow, hnumber, rfl⟩), ?_⟩
    rw [hoverflow]
    exact hne
  obtain ⟨others, hget, hmore⟩ := rows_get headers hlength hrow hnumber
  obtain ⟨more, rfl⟩ := hmore hover
  refine ⟨_, (reportOf headers input numbers[r]).overflow, hget, ?_, header_overflow hover, ?_⟩
  · rw [List.getElem?_append_right (by rw [length_output]), length_output, Nat.sub_self]
    rfl
  · rw [hoverflow]
    exact hinfix

/-- Every change has a finding exactly if no cell changes silently. -/
theorem cleanRows_complete_iff (hlength : numbers.length = rows.length) :
  Complete headers rows (cleanRows headers rows numbers) ↔ NoneSilent headers rows
  := by
  obtain ⟨added, hsame, hmem⟩ := mem_findings headers rows numbers
  constructor
  · intro hcomplete row hrowMem i header hheader hsilent
    obtain ⟨r, hrow⟩ := List.mem_iff_getElem?.mp hrowMem
    have hr : r < numbers.length := by
      rw [hlength]
      exact (List.getElem?_eq_some_iff.mp hrow).1
    have hnumber := List.getElem?_eq_getElem hr
    obtain ⟨output, houtput, hcell⟩ := cell_get hlength hrow hnumber hheader
    obtain ⟨hchanged, -⟩ := silent_iff.mp hsilent
    have hthis : Changed headers rows (cleanRows headers rows numbers) numbers[r] (collapse header)
        (row.getD i []) (normalizeCell (fieldForHeader (collapse header)) (row.getD i [])).value :=
      ⟨Ne.symm hchanged, .inr ⟨r, i, row, output, hrow, houtput, hnumber,
        (List.getElem?_eq_some_iff.mp hheader).1, headers_get hheader, rfl, hcell⟩⟩
    obtain ⟨f, hf, -, hcolumn, hbefore, hafter⟩ := hcomplete _ _ _ _ hthis
    have hdiffer : f.before ≠ f.after := by
      rw [hbefore, hafter]
      exact Ne.symm hchanged
    rcases (hmem f).mp hf with hf | ⟨r', row', number', -, -, hf⟩ | hf
    · obtain ⟨i', header', -, hspace, rfl⟩ := mem_headerFindings.mp hf
      have hheaderText : header' = row.getD i [] := hbefore
      rw [hheaderText, hsilent.1] at hspace
      exact hspace rfl
    · rcases mem_row_findings.mp hf with ⟨-, rfl⟩ | ⟨i', header', -, hf⟩
      · exact hdiffer rfl
      · obtain ⟨-, hcolumn', hbefore', -⟩ := mem_cell_findings hf
        have hheaders : collapse header' = collapse header := hcolumn'.symm.trans hcolumn
        have htext : row'.getD i' [] = row.getD i [] := hbefore'.symm.trans hbefore
        have hkind : (columnOf i' header').kind = fieldForHeader (collapse header) := by
          rw [columnOf, hheaders]
        have hsilent' : Silent (columnOf i' header').kind (row'.getD i' []) := by
          rw [hkind, htext]
          exact hsilent
        have hnone : (cleanCell (requiredOf headers) number' (columnOf i' header')
            (row'.getD i' [])).findings = [] :=
          (cell_findings_eq_nil (silent_iff.mp hsilent').1).mpr hsilent'
        rw [hnone] at hf
        cases hf
    · exact hdiffer (hsame f hf)
  · rintro hnone row column before after ⟨hne, hheader | hcell⟩
    · obtain ⟨rfl, rfl, i, hbefore, hafter⟩ := hheader
      rw [headers_get hbefore] at hafter
      cases hafter
      refine ⟨_, (hmem _).mpr (.inl (mem_headerFindings.mpr ⟨i, before, hbefore, hne, rfl⟩)), ?_⟩
      exact ⟨rfl, rfl, rfl, rfl⟩
    · obtain ⟨r, i, input, output, hrow, houtput, hnumber, hi, hcolumn, rfl, hafter⟩ := hcell
      have hnumber : numbers[r]? = some row := hnumber
      have hheader := List.getElem?_eq_getElem hi
      rw [headers_get hheader] at hcolumn
      cases hcolumn
      obtain ⟨output', houtput', hcell⟩ := cell_get hlength hrow hnumber hheader
      rw [houtput] at houtput'
      cases houtput'
      rw [hafter] at hcell
      cases hcell
      have hchanged : (normalizeCell (columnOf i headers[i]).kind (input.getD i [])).value ≠
          input.getD i [] := Ne.symm hne
      have hsilent := hnone input (List.mem_of_getElem? hrow) i headers[i] hheader
      have hfindings : (cleanCell (requiredOf headers) row (columnOf i headers[i])
          (input.getD i [])).findings ≠ [] := by
        intro hnil
        exact hsilent ((cell_findings_eq_nil hchanged).mp hnil)
      obtain ⟨f, hf⟩ := List.exists_mem_of_ne_nil _ hfindings
      refine ⟨f, (hmem f).mpr (.inr (.inl ⟨r, input, row, hrow, hnumber, mem_row_findings.mpr
        (.inr ⟨i, headers[i], hheader, hf⟩)⟩)), ?_⟩
      exact mem_cell_findings hf

end Table

/-- All changes of a table that is cleaned are reported, nothing else is, and nothing is lost, exactly if no
cell changes silently. -/
theorem reported_iff {headers : List Str} {rows : List (List Str)} {rowNumbers : Option (List Int)}
    {maxRows : Int} {result : CleanResult} (h : cleanTable headers rows rowNumbers maxRows = .ok result) :
  Reported headers rows result ↔ NoneSilent headers rows
  := by
  simp only [cleanTable, Except.bind_unit_eq_ok, Except.check_eq_ok] at h
  obtain ⟨-, -, -, hlength, heq⟩ := h
  cases heq
  constructor
  · intro hreported
    exact (cleanRows_complete_iff hlength).mp hreported.complete
  · intro hnone
    exact ⟨(cleanRows_complete_iff hlength).mpr hnone, cleanRows_sound hlength, cleanRows_keeps hlength⟩

end Report

/-! ### A house number and a bracket -/

section Example

/-- The letters and digits of ASCII. -/
@[reducible]
def CharTables.ascii : CharTables where
  upper s := s.map fun c => if 97 ≤ c ∧ c ≤ 122 then c - 32 else c
  lower s := s.map fun c => if 65 ≤ c ∧ c ≤ 90 then c + 32 else c
  casefold s := s.map fun c => if 65 ≤ c ∧ c ≤ 90 then c + 32 else c
  isAlpha c := (65 ≤ c && c ≤ 90) || (97 ≤ c && c ≤ 122)
  isDigit := Text.isDigit
  isDecimal := Text.isDigit
  upper_ne_nil := by simp
  lower_ne_nil := by simp
  mem_upper := by
    intro s c hc hspecial
    obtain ⟨d, hd, rfl⟩ := List.mem_map.mp hc
    split at hspecial
    · next hlower =>
      obtain ⟨hlow, hhigh⟩ := hlower
      exfalso
      interval_cases d <;> revert hspecial <;> decide
    · next hnot => simpa [hnot] using hd
  mem_lower := by
    intro s c hc hspecial
    obtain ⟨d, hd, rfl⟩ := List.mem_map.mp hc
    split at hspecial
    · next hupper =>
      obtain ⟨hlow, hhigh⟩ := hupper
      exfalso
      interval_cases d <;> revert hspecial <;> decide
    · next hnot => simpa [hnot] using hd

local instance asciiTables : CharTables := CharTables.ascii

/-- A city that is in title case is reported as it is. -/
theorem reported_city :
  Reported [text "Ort"] [[text "Berlin"]] (cleanRows [text "Ort"] [[text "Berlin"]] [2])
  := by
  have hclean : cleanTable [text "Ort"] [[text "Berlin"]] none 2000 =
      .ok (cleanRows [text "Ort"] [[text "Berlin"]] [2]) := by
    decide +kernel
  apply (reported_iff hclean).mpr
  intro row hrow i header hheader hsilent
  obtain rfl := List.mem_singleton.mp hrow
  cases i with
  | zero =>
    cases hheader
    exact (silent_iff.mp hsilent).1 (by decide +kernel)
  | succ i => cases hheader

/-- A house number that is set apart from the name of its street, and a city in brackets that is written in
lower case, without a finding. -/
theorem unreported_cells :
  (∃ result, cleanTable [text "Strasse"] [[text "Hauptweg12"]] none 2000 = .ok result ∧
    result.rows = [[text "Hauptweg 12", [], text "2"]] ∧ result.findings = [] ∧
    ¬ Reported [text "Strasse"] [[text "Hauptweg12"]] result) ∧
  ∃ result, cleanTable [text "Ort"] [[text "(Berlin)"]] none 2000 = .ok result ∧
    result.rows = [[text "(berlin)", [], text "2"]] ∧ result.findings = [] ∧
    ¬ Reported [text "Ort"] [[text "(Berlin)"]] result
  := by
  have hsilent : ∀ (after : Str) (more : List Str) {header before : Str} {result : CleanResult},
      result.headers[0]? = some header → result.rows = [after :: more] → result.findings = [] →
      result.rowNumbers = [2] → before ≠ after → ¬ Reported [header] [[before]] result := by
    intro after more header before result hheader hrows hfindings hnumbers hne hreported
    obtain ⟨f, hf, -⟩ := hreported.complete 2 header before after
      ⟨hne, .inr ⟨0, 0, [before], after :: more, rfl, by rw [hrows]; rfl, by rw [hnumbers]; rfl, by simp,
        hheader, rfl, rfl⟩⟩
    rw [hfindings] at hf
    cases hf
  constructor
  · refine ⟨cleanRows [text "Strasse"] [[text "Hauptweg12"]] [2], by decide +kernel, by decide +kernel,
      by decide +kernel, ?_⟩
    exact hsilent (text "Hauptweg 12") [[], text "2"] (by decide +kernel)
      (by decide +kernel) (by decide +kernel) rfl (by decide)
  · refine ⟨cleanRows [text "Ort"] [[text "(Berlin)"]] [2], by decide +kernel, by decide +kernel,
      by decide +kernel, ?_⟩
    exact hsilent (text "(berlin)") [[], text "2"] (by decide +kernel)
      (by decide +kernel) (by decide +kernel) rfl (by decide)

end Example

end Courier.ListClean
