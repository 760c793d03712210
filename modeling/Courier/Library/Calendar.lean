import Courier.Library.Text

/-!
# Dates and times

A moment is a date of the proleptic Gregorian calendar and a time of day, to the microsecond.  Moments are compared by
their instants, and seconds are added by way of ordinals.  `format` writes a moment to the second, and `parse` reads
it back (`parse_format`).
-/

namespace Calendar

/-! ### Dates -/

def isLeap (year : Nat) : Bool :=
  year % 4 = 0 && (year % 100 ≠ 0 || year % 400 = 0)

def daysBeforeYear (year : Nat) : Nat :=
  365 * (year - 1) + (year - 1) / 4 - (year - 1) / 100 + (year - 1) / 400

def daysBeforeMonth (leap : Bool) (month : Nat) : Nat :=
  [0, 0, 31, 59, 90, 120, 151, 181, 212, 243, 273, 304, 334].getD month 0
    + if leap ∧ 2 < month then 1 else 0

def daysInMonth (leap : Bool) (month : Nat) : Nat :=
  if leap ∧ month = 2 then 29
  else [0, 31, 28, 31, 30, 31, 30, 31, 31, 30, 31, 30, 31].getD month 0

/-- The number of a date, where the first of January of the year 1 has the number 1. -/
def ordinal (year month day : Nat) : Nat :=
  daysBeforeYear year + daysBeforeMonth (isLeap year) month + day

/-- The ordinal of the last date. -/
def maxOrdinal : Nat := 3652059

/-- A date of the calendar. -/
def IsDate (year month day : Nat) : Prop :=
  1 ≤ year ∧ year ≤ 9999 ∧ 1 ≤ month ∧ month ≤ 12 ∧ 1 ≤ day ∧
    day ≤ daysInMonth (isLeap year) month

instance (year month day : Nat) : Decidable (IsDate year month day) :=
  inferInstanceAs (Decidable (_ ∧ _))

/-- The month and the day of a day of a year, counted from zero. -/
def monthOfDay (leap : Bool) (day : Nat) : Nat × Nat :=
  let month := (day + 50) / 32
  if daysBeforeMonth leap month ≤ day then (month, day - daysBeforeMonth leap month + 1)
  else (month - 1, day - daysBeforeMonth leap (month - 1) + 1)

/-- The date with an ordinal. -/
def ofOrdinal (n : Nat) : Nat × Nat × Nat :=
  let n400 := (n - 1) / 146097
  let r400 := (n - 1) % 146097
  let n100 := r400 / 36524
  let r100 := r400 % 36524
  let n4 := r100 / 1461
  let r4 := r100 % 1461
  let n1 := r4 / 365
  let year := 400 * n400 + 1 + 100 * n100 + 4 * n4 + n1
  if n1 = 4 ∨ n100 = 4 then (year - 1, 12, 31)
  else (year, monthOfDay (isLeap year) (r4 % 365))

theorem monthOfDay_spec (leap : Bool) {day : Nat} (h : day < if leap then 366 else 365) :
  1 ≤ (monthOfDay leap day).1 ∧ (monthOfDay leap day).1 ≤ 12 ∧ 1 ≤ (monthOfDay leap day).2 ∧
    (monthOfDay leap day).2 ≤ daysInMonth leap (monthOfDay leap day).1 ∧
    daysBeforeMonth leap (monthOfDay leap day).1 + (monthOfDay leap day).2 = day + 1
  := by
  have hall : ∀ leap : Bool, ∀ day ∈ List.range (if leap then 366 else 365),
      1 ≤ (monthOfDay leap day).1 ∧ (monthOfDay leap day).1 ≤ 12 ∧
        1 ≤ (monthOfDay leap day).2 ∧
        (monthOfDay leap day).2 ≤ daysInMonth leap (monthOfDay leap day).1 ∧
        daysBeforeMonth leap (monthOfDay leap day).1 + (monthOfDay leap day).2 = day + 1 := by
    decide +kernel
  exact hall leap day (List.mem_range.mpr h)

theorem isLeap_iff {a b c d : Nat} (hb : b ≤ 3) (hc : c ≤ 24) (hd : d ≤ 3) :
  isLeap (400 * a + 1 + 100 * b + 4 * c + d) = true ↔ d = 3 ∧ (c ≠ 24 ∨ b = 3)
  := by
  simp only [isLeap, Bool.and_eq_true, Bool.or_eq_true, decide_eq_true_eq]
  omega

theorem daysBeforeYear_eq {a b c d : Nat} (hb : b ≤ 3) (hc : c ≤ 24) (hd : d ≤ 3) :
  daysBeforeYear (400 * a + 1 + 100 * b + 4 * c + d) = 146097 * a + 36524 * b + 1461 * c + 365 * d
  := by
  unfold daysBeforeYear
  omega

theorem ofOrdinal_spec {n : Nat} (hpos : 1 ≤ n) (hmax : n ≤ maxOrdinal) :
  IsDate (ofOrdinal n).1 (ofOrdinal n).2.1 (ofOrdinal n).2.2 ∧
    ordinal (ofOrdinal n).1 (ofOrdinal n).2.1 (ofOrdinal n).2.2 = n
  := by
  obtain ⟨a, r400, hn, hr400⟩ : ∃ a r, n - 1 = a * 146097 + r ∧ r < 146097 :=
    ⟨_, _, (Nat.div_add_mod' _ _).symm, Nat.mod_lt _ (by omega)⟩
  obtain ⟨b, r100, hb, hr100⟩ : ∃ b r, r400 = b * 36524 + r ∧ r < 36524 :=
    ⟨_, _, (Nat.div_add_mod' _ _).symm, Nat.mod_lt _ (by omega)⟩
  obtain ⟨c, r4, hc, hr4⟩ : ∃ c r, r100 = c * 1461 + r ∧ r < 1461 :=
    ⟨_, _, (Nat.div_add_mod' _ _).symm, Nat.mod_lt _ (by omega)⟩
  obtain ⟨d, r1, hd, hr1⟩ : ∃ d r, r4 = d * 365 + r ∧ r < 365 :=
    ⟨_, _, (Nat.div_add_mod' _ _).symm, Nat.mod_lt _ (by omega)⟩
  have ha : (n - 1) / 146097 = a := by omega
  have ha' : (n - 1) % 146097 = r400 := by omega
  have hb' : r400 / 36524 = b := by omega
  have hb'' : r400 % 36524 = r100 := by omega
  have hc' : r100 / 1461 = c := by omega
  have hc'' : r100 % 1461 = r4 := by omega
  have hd' : r4 / 365 = d := by omega
  have hd'' : r4 % 365 = r1 := by omega
  simp only [ofOrdinal, ha, ha', hb', hb'', hc', hc'', hd', hd'']
  unfold maxOrdinal at hmax
  split_ifs with hlast
  · obtain ⟨b', c', hb₁, hc₁, hleap, hyear, hsum⟩ : ∃ b' c', b' ≤ 3 ∧ c' ≤ 24 ∧
        (c' ≠ 24 ∨ b' = 3) ∧
        400 * a + 1 + 100 * b + 4 * c + d - 1 = 400 * a + 1 + 100 * b' + 4 * c' + 3 ∧
        n = a * 146097 + b' * 36524 + c' * 1461 + 3 * 365 + 366 := by
      rcases hlast with rfl | rfl
      · exact ⟨b, c, by omega, by omega, by omega, by omega, by omega⟩
      · exact ⟨3, 24, by omega, by omega, by omega, by omega, by omega⟩
    have hisLeap := (isLeap_iff (a := a) hb₁ hc₁ (le_refl 3)).mpr ⟨rfl, hleap⟩
    rw [hyear]
    dsimp only
    refine ⟨⟨by omega, by omega, by omega, by omega, by omega, ?_⟩, ?_⟩
    · rw [hisLeap]
      decide
    · rw [ordinal, daysBeforeYear_eq hb₁ hc₁ (le_refl 3), hisLeap]
      simp only [daysBeforeMonth]
      norm_num
      omega
  · have hb₁ : b ≤ 3 := by omega
    have hd₁ : d ≤ 3 := by omega
    have hc₁ : c ≤ 24 := by omega
    obtain ⟨hm, hm', hday, hday', hsum⟩ := @monthOfDay_spec
      (isLeap (400 * a + 1 + 100 * b + 4 * c + d)) r1 (by split <;> omega)
    refine ⟨⟨by omega, by omega, hm, hm', hday, hday'⟩, ?_⟩
    dsimp only
    rw [ordinal, daysBeforeYear_eq hb₁ hc₁ hd₁]
    omega

/-! ### Moments -/

structure DateTime where
  year : Nat
  month : Nat
  day : Nat
  hour : Nat
  minute : Nat
  second : Nat
  microsecond : Nat
  date : IsDate year month day
  time : hour < 24 ∧ minute < 60 ∧ second < 60 ∧ microsecond < 1000000
  deriving DecidableEq

namespace DateTime

/-- The seconds up to a moment. -/
def seconds (t : DateTime) : Nat :=
  86400 * ordinal t.year t.month t.day + 3600 * t.hour + 60 * t.minute + t.second

/-- The microseconds up to a moment. -/
def instant (t : DateTime) : Nat :=
  1000000 * t.seconds + t.microsecond

/-- The moment without the fraction of its second. -/
def floor (t : DateTime) : DateTime :=
  { t with microsecond := 0, time := ⟨t.time.1, t.time.2.1, t.time.2.2.1, by omega⟩ }

@[simp]
theorem seconds_floor (t : DateTime) :
  t.floor.seconds = t.seconds
  := rfl

theorem instant_floor (t : DateTime) :
  t.floor.instant = 1000000 * t.seconds
  := by
  rw [instant, seconds_floor]
  apply Nat.add_zero

theorem instant_bounds (t : DateTime) :
  t.floor.instant ≤ t.instant ∧ t.instant < t.floor.instant + 1000000
  := by
  have hmicro := t.time.2.2.2
  rw [instant_floor, instant]
  omega

theorem one_le_ordinal (t : DateTime) :
  1 ≤ ordinal t.year t.month t.day
  := by
  have hday := t.date.2.2.2.2.1
  unfold ordinal
  omega

/-- `t + timedelta(seconds=n)`, unless it lies beyond the calendar. -/
def addSeconds (t : DateTime) (n : Nat) : Option DateTime :=
  let total := t.seconds + n
  if h : total / 86400 ≤ maxOrdinal then
    some {
      year := (ofOrdinal (total / 86400)).1
      month := (ofOrdinal (total / 86400)).2.1
      day := (ofOrdinal (total / 86400)).2.2
      hour := total % 86400 / 3600
      minute := total % 3600 / 60
      second := total % 60
      microsecond := t.microsecond
      date := by
        have hone := t.one_le_ordinal
        have hseconds : 86400 * ordinal t.year t.month t.day ≤ t.seconds := by
          unfold seconds
          omega
        exact (ofOrdinal_spec (by omega) h).1
      time := ⟨by omega, by omega, by omega, t.time.2.2.2⟩ }
  else none

theorem seconds_addSeconds {t u : DateTime} {n : Nat} (h : t.addSeconds n = some u) :
  u.seconds = t.seconds + n ∧ u.microsecond = t.microsecond
  := by
  have hone := t.one_le_ordinal
  have hseconds : 86400 * ordinal t.year t.month t.day ≤ t.seconds := by
    unfold seconds
    omega
  unfold addSeconds at h
  dsimp only at h
  split at h
  · next hmax =>
    cases h
    refine ⟨?_, rfl⟩
    rw [seconds]
    dsimp only
    rw [(ofOrdinal_spec (by omega) hmax).2]
    omega
  · cases h

end DateTime

/-! ### Stamps -/

/-- Two decimal digits. -/
def digits2 (n : Nat) : Str :=
  [48 + n / 10, 48 + n % 10]

/-- Four decimal digits. -/
def digits4 (n : Nat) : Str :=
  digits2 (n / 100) ++ digits2 (n % 100)

/-- The number two decimal digits denote. -/
def number2 (a b : Nat) : Nat :=
  10 * (a - 48) + (b - 48)

/-- `strftime("%Y-%m-%dT%H:%M:%SZ")`. -/
def format (t : DateTime) : Str :=
  digits4 t.year ++ 45 :: digits2 t.month ++ 45 :: digits2 t.day ++ 84 :: digits2 t.hour
    ++ 58 :: digits2 t.minute ++ 58 :: digits2 t.second ++ [90]

/-- The moment some numbers name, if they are a date and a time. -/
def moment? (year month day hour minute second : Nat) : Option DateTime :=
  if h : IsDate year month day ∧ hour < 24 ∧ minute < 60 ∧ second < 60 then
    some ⟨year, month, day, hour, minute, second, 0, h.1, h.2.1, h.2.2.1, h.2.2.2, by omega⟩
  else none

/-- A text of the form of a stamp: `[0-9]{4}-[0-9]{2}-[0-9]{2}T[0-9]{2}:[0-9]{2}:[0-9]{2}Z`. -/
def isStamp : Str → Bool
  | [y₁, y₂, y₃, y₄, 45, m₁, m₂, 45, d₁, d₂, 84, h₁, h₂, 58, n₁, n₂, 58, s₁, s₂, 90] =>
      [y₁, y₂, y₃, y₄, m₁, m₂, d₁, d₂, h₁, h₂, n₁, n₂, s₁, s₂].all Text.isDigit
  | _ => false

def parse (s : Str) : Option DateTime :=
  if isStamp s then
    match s with
    | [y₁, y₂, y₃, y₄, _, m₁, m₂, _, d₁, d₂, _, h₁, h₂, _, n₁, n₂, _, s₁, s₂, _] =>
        moment? (100 * number2 y₁ y₂ + number2 y₃ y₄) (number2 m₁ m₂) (number2 d₁ d₂)
          (number2 h₁ h₂) (number2 n₁ n₂) (number2 s₁ s₂)
    | _ => none
  else none

theorem isStamp_of_parse {s : Str} {t : DateTime} (h : parse s = some t) :
  isStamp s = true
  := by
  unfold parse at h
  split at h
  · assumption
  · cases h

theorem floor_of_parse {s : Str} {t : DateTime} (h : parse s = some t) :
  t.floor = t
  := by
  unfold parse at h
  split_ifs at h
  split at h
  · unfold moment? at h
    split_ifs at h
    cases h
    rfl
  · cases h

theorem daysInMonth_le (leap : Bool) (month : Nat) :
  daysInMonth leap month ≤ 31
  := by
  unfold daysInMonth
  split_ifs
  · omega
  · rcases lt_or_ge month 13 with hlt | hge
    · interval_cases month <;> decide
    · rw [List.getD_eq_getElem?_getD, List.getElem?_eq_none (by simpa using hge)]
      simp

/-- What is read back of a moment is the moment to the second. -/
theorem parse_format (t : DateTime) :
  parse (format t) = some t.floor
  := by
  obtain ⟨-, hyear, -, hmonth, -, hday⟩ := t.date
  obtain ⟨hhour, hminute, hsecond, -⟩ := t.time
  have hday : t.day ≤ 31 := hday.trans (daysInMonth_le _ _)
  have hnumber : ∀ n < 100, number2 (48 + n / 10) (48 + n % 10) = n := by
    intro n hn
    unfold number2
    omega
  have hcentury : 100 * (t.year / 100) + t.year % 100 = t.year := by omega
  have hdigits : isStamp (format t) = true := by
    show List.all _ _ = true
    simp only [List.all_cons, List.all_nil, Text.isDigit, Bool.and_eq_true, decide_eq_true_eq,
      and_true]
    omega
  unfold parse
  rw [if_pos hdigits]
  show moment? (100 * number2 _ _ + number2 _ _) (number2 _ _) (number2 _ _) (number2 _ _)
    (number2 _ _) (number2 _ _) = _
  rw [hnumber _ (by omega), hnumber _ (by omega), hnumber _ (by omega), hnumber _ (by omega),
    hnumber _ (by omega), hnumber _ (by omega), hnumber _ (by omega), hcentury, moment?,
    dif_pos ⟨t.date, hhour, hminute, hsecond⟩]
  rfl

attribute [irreducible] DateTime.addSeconds format parse

end Calendar
