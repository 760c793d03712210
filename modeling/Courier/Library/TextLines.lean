import Courier.Library.Text

/-!
# Lines of texts

The lines of a text as `str.splitlines` finds them, and the newlines of a file that is read as text.
-/

namespace Text

def endsLine (c : Nat) : Bool :=
  (10 ≤ c && c ≤ 13) || (28 ≤ c && c ≤ 30) || c = 0x85 || c = 0x2028 || c = 0x2029

/-- `s.splitlines()`, after the start of a line. -/
def linesFrom (current : Str) : Str → List Str
  | [] => if current = [] then [] else [current]
  | 13 :: 10 :: rest => current :: linesFrom [] rest
  | c :: rest => if endsLine c then current :: linesFrom [] rest else linesFrom (current ++ [c]) rest

/-- `s.splitlines()`. -/
def lines (s : Str) : List Str :=
  linesFrom [] s

/-- The text of a file: a carriage return is a newline, alone or with a newline behind it. -/
def newlines : Str → Str
  | [] => []
  | 13 :: 10 :: rest => 10 :: newlines rest
  | c :: rest => (if c = 13 then 10 else c) :: newlines rest

theorem newlines_eq_self {s : Str} (h : 13 ∉ s) :
  newlines s = s
  := by
  induction s with
  | nil => rfl
  | cons c s ih =>
    have hc : c ≠ 13 := fun hc => h (by simp [hc])
    rw [newlines, if_neg hc, ih fun hs => h (List.mem_cons_of_mem _ hs)]
    rintro rest rfl
    exact absurd rfl hc

theorem linesFrom_append {s : Str} (h : ∀ c ∈ s, endsLine c = false) (current rest : Str) :
  linesFrom current (s ++ rest) = linesFrom (current ++ s) rest
  := by
  induction s generalizing current with
  | nil => simp
  | cons c s ih =>
    have hc := h c (List.mem_cons_self ..)
    rw [List.cons_append, linesFrom, if_neg (by simp [hc]),
      ih fun d hd => h d (List.mem_cons_of_mem _ hd), List.append_assoc, List.singleton_append]
    rintro more rfl
    cases hc

theorem lines_line {s : Str} (h : ∀ c ∈ s, endsLine c = false) (rest : Str) :
  lines (s ++ 10 :: rest) = s :: lines rest
  := by
  have hnewline : endsLine 10 = true := rfl
  rw [lines, linesFrom_append h, List.nil_append, linesFrom, if_pos hnewline, lines]
  simp

theorem lines_last {s : Str} (h : ∀ c ∈ s, endsLine c = false) (hne : s ≠ []) :
  lines s = [s]
  := by
  have hlast := linesFrom_append h [] []
  rw [List.append_nil, List.nil_append] at hlast
  rw [lines, hlast, linesFrom, if_neg hne]

end Text
