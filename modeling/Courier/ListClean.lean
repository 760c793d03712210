import Courier.Library.Checks
import Courier.Library.Dict
import Courier.Library.Words
import Mathlib.Data.List.Sort

/-!
# Clean lists

A list of customers or members has a header and rows.  It is cleaned cell by cell: the kind of a cell is given
by the header of its column, every kind has its own rules, and what is changed or unclear is listed as a finding
(`cleanTable`).  The letters and digits of Unicode are a parameter (`CharTables`). -/

namespace Courier.ListClean

open Text hiding upper lower isDigit

/-- The case mappings and classes of Unicode.  No mapping makes white space or a hyphen, or leaves nothing. -/
class CharTables where
  /-- `s.upper()`. -/
  upper : Str → Str
  /-- `s.lower()`. -/
  lower : Str → Str
  /-- `s.casefold()`. -/
  casefold : Str → Str
  /-- `ch.isalpha()`. -/
  isAlpha : Nat → Bool
  /-- `ch.isdigit()`. -/
  isDigit : Nat → Bool
  /-- A decimal digit, as `\d` matches it. -/
  isDecimal : Nat → Bool
  upper_ne_nil : ∀ s, s ≠ [] → upper s ≠ []
  lower_ne_nil : ∀ s, s ≠ [] → lower s ≠ []
  mem_upper : ∀ s c, c ∈ upper s → isSpace c = true ∨ c = 45 → c ∈ s
  mem_lower : ∀ s c, c ∈ lower s → isSpace c = true ∨ c = 45 → c ∈ s

open CharTables

/-! ### Kinds and reasons -/

/-- The kind of a column. -/
inductive Kind where
  | name
  | phone
  | email
  | street
  | plz
  | city
  | other
  deriving DecidableEq

/-- Why there is a finding. -/
inductive Reason where
  | whitespace
  | nameCommaOrder
  | phoneUnrecognized
  | phoneNormalized
  | emailComma
  | emailDoubleAt
  | emailAtWord
  | emailInvalid
  | emailNormalized
  | plzCountryPrefix
  | plzNot5Digits
  | streetSpelling
  | streetAbbreviation
  | inconsistentCase
  | formulaPreserved
  | emptyRequired
  | extraColumns
  | exactDuplicate
  | fuzzyDuplicate
  deriving DecidableEq

/-- The reason as it is written. -/
def Reason.value : Reason → Str
  | .whitespace => text "whitespace"
  | .nameCommaOrder => text "name_comma_order"
  | .phoneUnrecognized => text "phone_unrecognized"
  | .phoneNormalized => text "phone_normalized"
  | .emailComma => text "email_comma"
  | .emailDoubleAt => text "email_double_at"
  | .emailAtWord => text "email_at_word"
  | .emailInvalid => text "email_invalid"
  | .emailNormalized => text "email_normalized"
  | .plzCountryPrefix => text "plz_country_prefix"
  | .plzNot5Digits => text "plz_not_5_digits"
  | .streetSpelling => text "street_spelling"
  | .streetAbbreviation => text "street_abbreviation"
  | .inconsistentCase => text "inconsistent_case"
  | .formulaPreserved => text "formula_preserved"
  | .emptyRequired => text "empty_required"
  | .extraColumns => text "extra_columns"
  | .exactDuplicate => text "exact_duplicate"
  | .fuzzyDuplicate => text "fuzzy_duplicate"

/-- `DECISION_REASONS`. -/
def Reason.isDecision : Reason → Bool
  | .exactDuplicate | .fuzzyDuplicate | .emailInvalid | .emailComma | .emailDoubleAt | .emailAtWord
  | .plzNot5Digits | .streetSpelling | .emptyRequired | .phoneUnrecognized | .inconsistentCase
  | .extraColumns => true
  | _ => false

def headerFields : List (Str × Kind) :=
  [(text "name", .name), (text "namen", .name), (text "vollstaendiger name", .name),
    (text "telefon", .phone), (text "telefonnummer", .phone), (text "phone", .phone),
    (text "tel", .phone), (text "mobil", .phone), (text "mobile", .phone), (text "e-mail", .email),
    (text "email", .email), (text "mail", .email), (text "strasse", .street), (text "str.", .street),
    (text "street", .street), (text "plz", .plz), (text "postleitzahl", .plz), (text "zip", .plz),
    (text "postal code", .plz), (text "postcode", .plz), (text "ort", .city), (text "stadt", .city),
    (text "city", .city), (text "wohnort", .city)]

def requiredFields (present : List Kind) : List Kind :=
  (if .name ∈ present then [.name] else []) ++
    if .plz ∈ present then
      .plz :: ((if .street ∈ present then [.street] else []) ++ if .city ∈ present then [.city] else [])
    else if .email ∈ present ∧ .phone ∉ present ∧ .street ∉ present then [.email]
    else []

def unique {α : Type} [DecidableEq α] (items : List α) : List α :=
  items.foldl (fun ordered item => if item ∈ ordered then ordered else ordered ++ [item]) []

variable [CharTables]

def fieldForHeader (header : Str) : Kind :=
  let key := (casefold (collapse header)).flatMap fun c => if c = 0xDF then text "ss" else [c]
  (headerFields.lookup key).getD .other

def hintHeader (headers : List Str) : Str :=
  if text "hinweis" ∉ headers.map casefold then text "Hinweis" else text "Courier_Hinweis"

def idHeader (headers : List Str) : Str :=
  if casefold (text "original_row_id") ∉ headers.map casefold then text "original_row_id"
  else text "courier_original_row_id"

def overflowHeader (headers : List Str) : Str :=
  if casefold (text "Zusatzspalten") ∉ headers.map casefold then text "Zusatzspalten"
  else text "Zusatzspalten_overflow"

/-! ### Title case -/

/-- A part of a word in title case. -/
def titled : Str → Str
  | [] => []
  | c :: rest => upper [c] ++ lower rest

/-- A word in title case; a word with a digit is left as it is. -/
def titledToken (token : Str) : Str :=
  if token.any isDigit then token else [45].intercalate ((token.splitOn 45).map titled)

def titleCaseDe (s : Str) : Str :=
  spaced ((s.splitOn 32).map titledToken)

def oddLetters (part : Str) : Bool :=
  let letters := part.filter isAlpha
  letters ≠ [] && letters ≠ titled letters

def inconsistentTitle (collapsed : Str) : Bool :=
  (words collapsed).any fun token => !token.any isDigit && (token.splitOn 45).any oddLetters

/-! ### Names -/

def normalizeName (collapsed : Str) : Str × List Reason :=
  match collapsed.splitOn 44 with
  | [left, right] =>
      if strip left ≠ [] ∧ strip right ≠ [] ∧ collapsed.any isDigit = false then
        (titleCaseDe (strip right ++ 32 :: strip left), [.nameCommaOrder])
      else (titleCaseDe collapsed, [])
  | _ => (titleCaseDe collapsed, [])

/-! ### Phone numbers -/

/-- `s.isdigit()`. -/
def isDigits (s : Str) : Bool :=
  s ≠ [] && s.all isDigit

omit [CharTables] in
/-- `[\s./()\-–—]`. -/
def isPhoneSeparator (c : Nat) : Bool :=
  isSpace c || c ∈ [46, 47, 40, 41, 45, 0x2013, 0x2014]

def germanNational (compact : Str) : Option Str :=
  if (text "+").isPrefixOf compact then
    if isDigits (compact.drop 1) = false ∨ (text "+49").isPrefixOf compact = false then none
    else some (compact.drop 3)
  else if (text "0049").isPrefixOf compact ∧ isDigits (compact.drop 4) then some (compact.drop 4)
  else if (text "0").isPrefixOf compact ∧ isDigits (compact.drop 1) then some (compact.drop 1)
  else none

def formatGerman (national : Str) : Option Str :=
  if isDigits national = false ∨ national.length < 6 ∨ 13 < national.length then none
  else
    let area := if (text "1").isPrefixOf national then some 3
      else if national.take 2 ∈ [text "30", text "40", text "69", text "89"] then some 2
      else none
    match area with
    | none => some (text "+49 " ++ national)
    | some length =>
        if national.length ≤ length then none
        else some (text "+49 " ++ national.take length ++ 32 :: national.drop length)

/-- What a rule makes of a cell. -/
structure Normalized where
  value : Str
  reasons : List Reason := []
  messages : Dict Reason Str := ∅

omit [CharTables] in
/-- A cell that is left as it is, for one reason. -/
def flagged (collapsed : Str) (reason : Reason) (message : String) : Normalized :=
  { value := collapsed, reasons := [reason], messages := (∅ : Dict Reason Str).set reason (text message) }

def normalizePhone (collapsed : Str) : Normalized :=
  if collapsed = [] then { value := [] }
  else
    let compact := collapsed.filter fun c => !isPhoneSeparator c
    match (germanNational compact).bind formatGerman with
    | none => flagged collapsed .phoneUnrecognized "⚠ Telefonnummer nicht erkannt, unverändert gelassen"
    | some formatted =>
        if formatted = collapsed then { value := formatted }
        else { value := formatted, reasons := [.phoneNormalized] }

/-! ### Mail addresses -/

section

omit [CharTables]

/-- `[A-Za-z]`. -/
def isAsciiLetter (c : Nat) : Bool :=
  (65 ≤ c && c ≤ 90) || (97 ≤ c && c ≤ 122)

/-- `[A-Za-z0-9.\-]`. -/
def isDomainPoint (c : Nat) : Bool :=
  isAsciiLetter c || (48 ≤ c && c ≤ 57) || c = 46 || c = 45

/-- `[A-Za-z0-9._%+\-]`. -/
def isLocalPoint (c : Nat) : Bool :=
  isDomainPoint c || c = 95 || c = 37 || c = 43

/-- `_EMAIL.fullmatch`. -/
def matchesEmail (s : Str) : Bool :=
  match s.splitOn 64 with
  | [before, domain] =>
      let top := domain.rtakeWhile fun c => c ≠ 46
      let rest := domain.take (domain.length - top.length)
      before ≠ [] && before.all isLocalPoint && 2 ≤ top.length && top.all isAsciiLetter &&
        2 ≤ rest.length && rest.all isDomainPoint
  | _ => false

end

def emailIssue (s : Str) : Option Reason :=
  if occurs (text "(at)") (casefold s) ∨ occurs (text "(ät)") (casefold s) then some .emailAtWord
  else if 1 < s.count 64 then some .emailDoubleAt
  else if 44 ∈ s then some .emailComma
  else if matchesEmail s then none
  else some .emailInvalid

omit [CharTables] in
def issueMessage : Reason → String
  | .emailComma => "⚠ ungültig (Komma statt Punkt), Korrektur nur nach deinem OK"
  | .emailDoubleAt => "⚠ ungültig (doppeltes @)"
  | .emailAtWord => "⚠ „(at)“-Schreibweise, bitte bestätigen"
  | _ => "⚠ ungültige E-Mail, bitte prüfen"

def normalizeEmail (collapsed : Str) : Normalized :=
  if collapsed = [] then { value := [] }
  else match emailIssue collapsed with
    | some issue => flagged collapsed issue (issueMessage issue)
    | none =>
        if lower collapsed = collapsed then { value := collapsed }
        else flagged (lower collapsed) .emailNormalized "✅ klein geschrieben, Leerzeichen entfernt"

/-! ### Postal codes -/

/-- `\d{5}`. -/
def fiveDigits (s : Str) : Bool :=
  s.length = 5 && s.all isDecimal

/-- The group of `_PLZ_PREFIX.fullmatch`. -/
def prefixedPlz (s : Str) : Option Str :=
  match s with
  | c :: 45 :: digits => if (c = 68 ∨ c = 100) ∧ fiveDigits digits then some digits else none
  | c :: e :: 45 :: digits =>
      if (c = 68 ∨ c = 100) ∧ (e = 69 ∨ e = 101) ∧ fiveDigits digits then some digits else none
  | _ => none

def normalizePlz (collapsed : Str) : Normalized :=
  if collapsed = [] then { value := [] }
  else match prefixedPlz collapsed with
    | some digits => { value := digits, reasons := [.plzCountryPrefix] }
    | none =>
        if fiveDigits collapsed then { value := collapsed }
        else if collapsed.length = 4 ∧ collapsed.all isDecimal then
          flagged collapsed .plzNot5Digits
            "⚠ PLZ hat nur 4 Stellen (fehlt eine führende 0?). Bitte prüfen, wird nicht geraten"
        else flagged collapsed .plzNot5Digits
          "⚠ PLZ hat nicht genau 5 Stellen. Bitte prüfen, wird nicht geraten"

/-! ### Streets -/

/-- `(?:\s+)?(\d\S*)$`, with the group it captures. -/
def houseNumber (s : Str) : Option Str :=
  match s.dropWhile isSpace with
  | [] => none
  | c :: rest => if isDecimal c ∧ rest.all (fun d => !isSpace d) then some (c :: rest) else none

/-- The shortest start after which there is a house number, as `^(.*?)` finds it in a text without line
breaks. -/
def scanHouseNumber (before : Str) : Str → Option (Str × Str)
  | [] => none
  | c :: rest =>
      ((houseNumber (c :: rest)).map fun house => (before, house)).or
        (scanHouseNumber (before ++ [c]) rest)

def splitHouseNumber (s : Str) : Str × Str :=
  match scanHouseNumber [] s with
  | none => (s, [])
  | some (before, house) =>
      let name := before.rdropWhile isSpace
      if name = [] then (s, []) else (name, house)

def streetSuffix (name suffix : Str) : Option Str :=
  let lowered := lower name
  if lowered.length ≠ name.length ∨ endsWith lowered suffix = false then none
  else some (name.take (name.length - suffix.length))

def finishAbbreviation (stem : Str) : Str :=
  let stem := titleCaseDe stem
  if endsWith stem (text "-") then stem ++ text "Straße" else stem ++ text "straße"

/-- A street whose spelling was corrected. -/
def respelled (name stem : Str) : Normalized where
  value := titleCaseDe stem ++ text "straße"
  reasons := [.streetSpelling]
  messages := (∅ : Dict Reason Str).set .streetSpelling
    (text "⚠ Schreibweise „" ++ name ++ text "“ angepasst, bitte bestätigen")

def streetName (name : Str) : Normalized :=
  match streetSuffix name (text "sstrasse") with
  | some stem => respelled name stem
  | none =>
  match streetSuffix name (text "strasse") with
  | some stem => respelled name stem
  | none =>
  match streetSuffix name (text "str.") with
  | some stem => { value := finishAbbreviation stem, reasons := [.streetAbbreviation] }
  | none =>
  match (streetSuffix name (text "str")).filter fun _ => 3 < name.length with
  | some stem => { value := finishAbbreviation stem, reasons := [.streetAbbreviation] }
  | none => { value := titleCaseDe name }

def normalizeStreet (collapsed : Str) : Normalized :=
  if collapsed = [] then { value := [] }
  else
    let (name, house) := splitHouseNumber collapsed
    let street := streetName name
    { street with
      value := if house ≠ [] then strip (street.value ++ 32 :: house) else street.value }

/-! ### Cells -/

/-- The rules of a kind. -/
def normalizeKind (kind : Kind) (collapsed : Str) : Normalized :=
  match kind with
  | .name => { value := (normalizeName collapsed).1, reasons := (normalizeName collapsed).2 }
  | .phone => normalizePhone collapsed
  | .email => normalizeEmail collapsed
  | .plz => normalizePlz collapsed
  | .street => normalizeStreet collapsed
  | .city => { value := titleCaseDe collapsed }
  | .other => { value := collapsed }

def oddCase (kind : Kind) (collapsed value : Str) : Bool :=
  match kind with
  | .street => inconsistentTitle (splitHouseNumber collapsed).1
  | .name => inconsistentTitle collapsed
  | .city => inconsistentTitle collapsed
  | .email => value = lower collapsed && collapsed ≠ lower collapsed && collapsed.any isAlpha
  | _ => false

def normalizeCell (kind : Kind) (original : Str) : Normalized :=
  if (text "=").isPrefixOf (original.dropWhile isSpace) then
    { value := original, reasons := [.formulaPreserved] }
  else
    let collapsed := collapse original
    let normalized := normalizeKind kind collapsed
    let reasons := normalized.reasons ++
      (if oddCase kind collapsed normalized.value then [.inconsistentCase] else [])
    let reasons := reasons ++
      (if collapsed ≠ original ∧ .whitespace ∉ reasons then [.whitespace] else [])
    { normalized with reasons := unique reasons }

/-! ### Findings -/

structure Finding where
  row : Int
  column : Str
  reason : Reason
  before : Str
  after : Str
  message : Str
  deriving DecidableEq

section

omit [CharTables]

def defaultMessage : Reason → Str
  | .whitespace => text "Leerzeichen bereinigt"
  | .inconsistentCase => text "Groß-/Kleinschreibung vereinheitlicht"
  | .nameCommaOrder => text "Name von „Nachname, Vorname“ nach „Vorname Nachname“ gesetzt"
  | .phoneNormalized => text "Telefon auf +49 gesetzt"
  | .emailNormalized => text "✅ klein geschrieben, Leerzeichen entfernt"
  | .plzCountryPrefix => text "Länderkennzeichen vor der PLZ entfernt"
  | .streetAbbreviation => text "Straßenabkürzung erweitert"
  | .formulaPreserved => text "Formel unverändert gelassen"
  | .extraColumns => text "Zusätzliche Spaltenwerte bleiben erhalten"
  | .exactDuplicate => text "⚠ Dublette, du entscheidest"
  | .fuzzyDuplicate => text "⚠ mögliche Dublette (Name + PLZ), du entscheidest"
  | reason => reason.value

def finding (row : Int) (column : Str) (reason : Reason) (before after cell : Str)
    (message : Option Str) : Finding where
  row := row
  column := column
  reason := reason
  before := before
  after := after
  message :=
    let shown := message.getD (defaultMessage reason)
    if before ≠ after then
      cell ++ text ": \"" ++ before ++ text "\" → \"" ++ after ++ text "\" — " ++ shown
    else cell ++ text ": \"" ++ before ++ text "\" — " ++ shown

def lettersFrom : Nat → Nat → Str
  | 0, _ => []
  | fuel + 1, number =>
      if number = 0 then [] else lettersFrom fuel ((number - 1) / 26) ++ [65 + (number - 1) % 26]

/-- `_cell`. -/
def cellName (columnIndex : Nat) (row : Int) : Str :=
  lettersFrom (columnIndex + 1) (columnIndex + 1) ++ decimal row

end

/-! ### Rows -/

structure Column where
  index : Nat
  header : Str
  kind : Kind

/-- What is made of a cell, and what is said of it. -/
structure CellReport where
  value : Str
  findings : List Finding
  notes : List Str

/-- A cell of a row. -/
def cleanCell (required : List Kind) (number : Int) (column : Column) (original : Str) : CellReport :=
  let normalized := normalizeCell column.kind original
  let missing := column.kind ∈ required ∧ strip normalized.value = []
  let reasons := normalized.reasons ++ if missing then [.emptyRequired] else []
  let messages := if missing then
      normalized.messages.set .emptyRequired (text "⚠ Pflichtfeld " ++ column.header ++ text " ist leer")
    else normalized.messages
  { value := normalized.value
    findings := reasons.map fun reason => finding number column.header reason original normalized.value
      (cellName column.index number) (messages.get? reason)
    notes := (reasons.filter fun reason => reason.isDecision && reason ≠ .inconsistentCase).map
      fun reason => (messages.get? reason).getD (defaultMessage reason) }

section

omit [CharTables]

def fit (row : List Str) (width : Nat) : List Str :=
  row.take width ++ List.replicate (width - row.length) []

def overflowText (extra : List Str) : Str :=
  let cells := extra.rdropWhile fun cell => strip cell = []
  if cells.all fun cell => strip cell = [] then [] else (text " | ").intercalate cells

end

/-- What is made of a row, and what is said of it. -/
structure RowReport where
  output : List Str
  findings : List Finding
  notes : List Str
  overflow : Str

omit [CharTables] in
/-- The message of cells past the header. -/
def overflowMessage (overflow : Str) : Str :=
  text "⚠ Zusätzliche Spaltenwerte bleiben erhalten: " ++ overflow

def cleanRow (columns : List Column) (required : List Kind) (overflowHeader : Str) (row : List Str)
    (number : Int) : RowReport :=
  let width := columns.length
  let overflow := overflowText (row.drop width)
  let cells := (columns.zip (fit row width)).map fun cell => cleanCell required number cell.1 cell.2
  { output := cells.map CellReport.value
    findings :=
      (if overflow ≠ [] then
        [finding number overflowHeader .extraColumns overflow overflow overflowHeader
          (some (overflowMessage overflow))]
      else []) ++ cells.flatMap CellReport.findings
    notes := cells.flatMap CellReport.notes ++ if overflow ≠ [] then [overflowMessage overflow] else []
    overflow }

/-! ### Duplicates -/

def nameKey (name : Str) : List Str :=
  ((words name).map casefold).insertionSort (· ≤ ·)

section

omit [CharTables]

/-- `groups.setdefault(key, []).append(index)`. -/
def addTo {K : Type} [DecidableEq K] (groups : Dict K (List Nat)) (key : K) (index : Nat) :
    Dict K (List Nat) :=
  groups.set key ((groups.get? key).getD [] ++ [index])

/-- The rows by what is in them. -/
def exactGroups (rows : List (List Str)) : Dict (List Str) (List Nat) :=
  rows.zipIdx.foldl (fun groups row =>
    if row.1.all fun cell => strip cell = [] then groups else addTo groups row.1 row.2) ∅

end

/-- The rows by name and postal code. -/
def fuzzyGroups (nameAt plzAt : Option Nat) (rows : List (List Str)) :
    Dict (List Str × Str) (List Nat) :=
  match nameAt, plzAt with
  | some nameAt, some plzAt =>
      rows.zipIdx.foldl (fun groups row =>
        if row.1.all fun cell => strip cell = [] then groups
        else
          let key := nameKey (row.1.getD nameAt [])
          let plz := strip (row.1.getD plzAt [])
          if key = [] ∨ plz = [] then groups else addTo groups (key, plz) row.2) ∅
  | _, _ => ∅

/-- The findings so far, and the notes of each row. -/
structure Marks where
  findings : List Finding
  notes : List (List Str)

section

omit [CharTables]

/-- The message at the first row of a group. -/
def anchorMessage (anchorRow : Int) (otherRows : List Int) (fuzzy : Bool) : Str :=
  let label := if fuzzy then text " (Name + PLZ)" else []
  match otherRows with
  | [other] =>
      text "Zeile " ++ decimal other ++ text " = mögliche Dublette" ++ label ++ text " von Zeile " ++
        decimal anchorRow
  | _ =>
      (text ", ").intercalate (otherRows.map fun number => text "Zeile " ++ decimal number) ++
        text " = mögliche Dubletten" ++ label ++ text " von Zeile " ++ decimal anchorRow

def addDuplicateFindings (numbers : List Int) (rows : List (List Str)) (nameAt : Option Nat)
    (nameHeader : Str) (fuzzy : Bool) (marks : Marks) (group : List Nat) : Marks :=
  let rowAt := fun index => numbers.getD index 0
  let first := anchorMessage (rowAt (group.headD 0)) (group.tail.map rowAt) fuzzy
  let later := if fuzzy then text "⚠ mögliche Dublette (Name + PLZ), du entscheidest"
    else text "⚠ Dublette, du entscheidest"
  group.zipIdx.foldl (fun marks member =>
    let message := if member.2 = 0 then first else later
    let value := match nameAt with
      | some at_ => (rows.getD member.1 []).getD at_ []
      | none => []
    { findings := marks.findings ++
        [{ row := rowAt member.1, column := nameHeader
           reason := if fuzzy then .fuzzyDuplicate else .exactDuplicate
           before := value, after := value, message }]
      notes := marks.notes.modify member.1 (· ++ [message]) }) marks

/-- The rows of a group with one name and postal code that are no exact duplicates of its first row. -/
def fuzzyMembers (rows : List (List Str)) (exact : List (List Nat)) (group : List Nat) :
    Option (List Nat) :=
  let anchor := group.headD 0
  let others := group.tail.filter fun index =>
    !(exact.any (fun members => members.contains index) && rows.getD index [] = rows.getD anchor [])
  if others = [] then none else some (anchor :: others)

end

def markDuplicates (rows : List (List Str)) (numbers : List Int) (columns : List Column)
    (marks : Marks) : Marks :=
  let kinds := columns.map Column.kind
  let nameAt := kinds.findIdx? (· = .name)
  let plzAt := kinds.findIdx? (· = .plz)
  let exact := (exactGroups rows).values.filter fun group => 2 ≤ group.length
  let nameHeader := match nameAt with
    | some index => ((columns.map Column.header).getD index [])
    | none => []
  let fuzzy := (fuzzyGroups nameAt plzAt rows).values.filterMap (fuzzyMembers rows exact)
  let marks := exact.foldl (addDuplicateFindings numbers rows nameAt nameHeader false) marks
  fuzzy.foldl (addDuplicateFindings numbers rows nameAt nameHeader true) marks

/-! ### Tables -/

structure CleanResult where
  headers : List Str
  rows : List (List Str)
  findings : List Finding
  rowNumbers : List Int
  deriving DecidableEq

section

omit [CharTables]

/-- The order of findings. -/
def Finding.Le (a b : Finding) : Prop :=
  a.row < b.row ∨ a.row = b.row ∧ (a.column < b.column ∨ a.column = b.column ∧
    (a.reason.value < b.reason.value ∨ a.reason.value = b.reason.value ∧ a.message ≤ b.message))

instance (a b : Finding) : Decidable (a.Le b) :=
  inferInstanceAs (Decidable (_ ∨ _))

end

/-- The columns of a table. -/
def columnsOf (headers : List Str) : List Column :=
  (headers.map collapse).zipIdx.map fun header =>
    { index := header.2, header := header.1, kind := fieldForHeader header.1 }

omit [CharTables] in
def headerFindings (headers : List Str) : List Finding :=
  headers.zipIdx.filterMap fun header =>
    if header.1 ≠ collapse header.1 then
      some (finding 1 (collapse header.1) .whitespace header.1 (collapse header.1)
        (cellName header.2 1) none)
    else none

def rowReports (headers : List Str) (rows : List (List Str)) (numbers : List Int) : List RowReport :=
  let columns := columnsOf headers
  List.zipWith
    (cleanRow columns (requiredFields (columns.map Column.kind)) (overflowHeader (headers.map collapse)))
    rows numbers

/-- What is made of a table. -/
def cleanRows (headers : List Str) (rows : List (List Str)) (numbers : List Int) : CleanResult :=
  let columns := columnsOf headers
  let cleanHeaders := headers.map collapse
  let reports := rowReports headers rows numbers
  let marks := markDuplicates (reports.map RowReport.output) numbers columns
    { findings := headerFindings headers ++ reports.flatMap RowReport.findings
      notes := reports.map RowReport.notes }
  let keepOverflow := reports.any fun report => report.overflow ≠ []
  { headers := cleanHeaders ++ (if keepOverflow then [overflowHeader cleanHeaders] else []) ++
      [hintHeader cleanHeaders, idHeader cleanHeaders]
    rows := List.zipWith (fun report rest =>
        report.output ++ (if keepOverflow then [report.overflow] else []) ++
          [(text " · ").intercalate (unique rest.1), decimal rest.2])
      reports (marks.notes.zip numbers)
    findings := marks.findings.insertionSort Finding.Le
    rowNumbers := numbers }

def cleanTable (headers : List Str) (rows : List (List Str)) (rowNumbers : Option (List Int))
    (maxRows : Int) : Except Str CleanResult := do
  Except.check (1 ≤ maxRows) (text "max_rows muss mindestens 1 sein.")
  Except.check (headers.any fun cell => strip cell ≠ []) (text "Die Datei hat keine Kopfzeile.")
  Except.check ((rows.length : Int) ≤ maxRows)
    (text "Die Liste hat " ++ natDecimal rows.length ++ text " Datenzeilen. Das 39-€-Angebot gilt bis " ++
      decimal maxRows ++ text " Zeilen.")
  let numbers := rowNumbers.getD ((List.range rows.length).map fun i => (i : Int) + 2)
  Except.check (numbers.length = rows.length) (text "Zeilennummern passen nicht zur Liste.")
  return cleanRows headers rows numbers

end Courier.ListClean
