import Mathlib.Algebra.Group.Nat.Defs
import Mathlib.Data.List.Basic

/-!
# Memory and circular regions

A region of `size` cells from `base` on is used in a circle: its cell `offset` is the one at `base + offset % size`,
and what goes over the end is written and read in two parts.  `window` is what stands in the region from an offset on.
-/

namespace Memory

variable {α : Type}

/-- The `n` cells from `i` on. -/
def slice (s : List α) (i n : Nat) : List α :=
  (s.drop i).take n

/-- The memory with the cells from `i` on replaced. -/
def splice (s : List α) (i : Nat) (cells : List α) : List α :=
  s.take i ++ cells ++ s.drop (i + cells.length)

variable {i n : Nat}

theorem length_slice {s : List α} (h : i + n ≤ s.length) :
  (slice s i n).length = n
  := by
  rw [slice, List.length_take, List.length_drop]
  omega

theorem length_splice {s : List α} {i : Nat} {cells : List α} (h : i + cells.length ≤ s.length) :
  (splice s i cells).length = s.length
  := by
  simp only [splice, List.length_append, List.length_take, List.length_drop]
  omega

theorem getElem?_slice (s : List α) (i n j : Nat) :
  (slice s i n)[j]? = if j < n then s[i + j]? else none
  := by
  rw [slice, List.getElem?_take]
  by_cases hj : j < n
  · rw [if_pos hj, if_pos hj, List.getElem?_drop]
  · rw [if_neg hj, if_neg hj]

theorem getElem?_splice {s : List α} {cells : List α} (h : i + cells.length ≤ s.length)
    (j : Nat) :
  (splice s i cells)[j]? = if i ≤ j ∧ j < i + cells.length then cells[j - i]? else s[j]?
  := by
  have htake : (s.take i).length = i := by
    rw [List.length_take]
    omega
  rw [splice, List.append_assoc]
  by_cases hbefore : j < i
  · rw [List.getElem?_append_left (by omega), List.getElem?_take, if_pos hbefore, if_neg (by omega)]
  · rw [List.getElem?_append_right (by omega), htake]
    by_cases hin : j < i + cells.length
    · rw [List.getElem?_append_left (by omega), if_pos (by omega)]
    · rw [List.getElem?_append_right (by omega), List.getElem?_drop, if_neg (by omega)]
      congr 1
      omega

theorem slice_splice_self {s : List α} {i : Nat} {cells : List α} (h : i + cells.length ≤ s.length) :
  slice (splice s i cells) i cells.length = cells
  := by
  apply List.ext_getElem?
  intro j
  rw [getElem?_slice, getElem?_splice h]
  by_cases hj : j < cells.length
  · rw [if_pos hj, if_pos (by omega), Nat.add_sub_cancel_left]
  · rw [if_neg hj, List.getElem?_eq_none (by omega)]

theorem slice_splice_within {s : List α} {i : Nat} {cells : List α} (h : i + cells.length ≤ s.length)
    {k n : Nat} (hk : k + n ≤ cells.length) :
  slice (splice s i cells) (i + k) n = slice cells k n
  := by
  apply List.ext_getElem?
  intro j
  rw [getElem?_slice, getElem?_slice, getElem?_splice h]
  by_cases hj : j < n
  · rw [if_pos hj, if_pos hj, if_pos (by omega)]
    congr 1
    omega
  · rw [if_neg hj, if_neg hj]

theorem slice_append (before cells after : List α) :
  slice (before ++ (cells ++ after)) before.length cells.length = cells
  := by
  rw [slice, List.drop_left, List.take_left]

variable {k : Nat}

theorem slice_splice_of_disjoint {s : List α} {cells : List α} (h : i + cells.length ≤ s.length)
    (hk : k + n ≤ i ∨ i + cells.length ≤ k) :
  slice (splice s i cells) k n = slice s k n
  := by
  apply List.ext_getElem?
  intro j
  rw [getElem?_slice, getElem?_slice, getElem?_splice h]
  by_cases hj : j < n
  · rw [if_pos hj, if_pos hj, if_neg (by omega)]
  · rw [if_neg hj, if_neg hj]

/-! ### Circular regions -/

/-- Put cells into a circular region. -/
def writeCircular (s : List α) (base size offset : Nat) (cells : List α) : List α :=
  if offset + cells.length ≤ size then splice s (base + offset) cells
  else splice (splice s (base + offset) (cells.take (size - offset))) base (cells.drop (size - offset))

/-- Read cells of a circular region. -/
def readCircular (s : List α) (base size offset n : Nat) : List α :=
  if offset + n ≤ size then slice s (base + offset) n
  else slice s (base + offset) (size - offset) ++ slice s base (n - (size - offset))

/-- What stands in a circular region from an offset on. -/
def window (s : List α) (base size offset n : Nat) : List (Option α) :=
  (List.range n).map fun i => s[base + (offset + i) % size]?

variable {s : List α} {base size offset : Nat} {cells : List α}

theorem mod_of_lt {offset size : Nat} (ho : offset < size) (hi : i < size) :
  (offset + i) % size = if offset + i < size then offset + i else offset + i - size
  := by
  by_cases h : offset + i < size
  · rw [if_pos h, Nat.mod_eq_of_lt h]
  · rw [if_neg h, Nat.mod_eq_sub_mod (by omega), Nat.mod_eq_of_lt (by omega)]

theorem window_mod (s : List α) (base size offset n : Nat) :
  window s base size (offset % size) n = window s base size offset n
  := by
  apply List.map_congr_left
  intro i _
  rw [Nat.mod_add_mod]

theorem window_add (s : List α) (base size offset m n : Nat) :
  window s base size offset (m + n) =
    window s base size offset m ++ window s base size (offset + m) n
  := by
  rw [window, List.range_add, List.map_append, List.map_map]
  simp only [window, Function.comp_def, Nat.add_assoc]

theorem length_window (s : List α) (base size offset n : Nat) :
  (window s base size offset n).length = n
  := by
  rw [window, List.length_map, List.length_range]

theorem length_readCircular (hbase : base + size ≤ s.length) (ho : offset < size)
    (hn : n ≤ size) :
  (readCircular s base size offset n).length = n
  := by
  rw [readCircular]
  by_cases hend : offset + n ≤ size
  · rw [if_pos hend, length_slice (by omega)]
  · rw [if_neg hend, List.length_append, length_slice (by omega), length_slice (by omega)]
    omega

/-- What stands in the region is what is read from it. -/
theorem readCircular_eq (hbase : base + size ≤ s.length) (ho : offset < size) (hn : n ≤ size)
    (h : window s base size offset n = cells.map some) :
  readCircular s base size offset n = cells
  := by
  have hlength : cells.length = n := by
    rw [← length_window s base size offset n, h, List.length_map]
  have hcell : ∀ i < n, s[base + (offset + i) % size]? = cells[i]? := by
    intro i hi
    have hi' := congrArg (fun l => l[i]?) h
    simp only [window, List.getElem?_map, List.getElem?_range hi, Option.map_some] at hi'
    have hmod := Nat.mod_lt (offset + i) (show 0 < size by omega)
    rw [List.getElem?_eq_getElem (by omega), List.getElem?_eq_getElem (by omega)] at hi' ⊢
    simpa using hi'
  apply List.ext_getElem?
  intro i
  by_cases hi : i < n
  · rw [← hcell i hi, mod_of_lt ho (by omega), readCircular]
    by_cases hend : offset + n ≤ size
    · rw [if_pos hend, getElem?_slice, if_pos hi, if_pos (by omega), Nat.add_assoc]
    · rw [if_neg hend]
      by_cases hfirst : i < size - offset
      · rw [List.getElem?_append_left (by rw [length_slice (by omega)]; omega), getElem?_slice,
          if_pos hfirst, if_pos (by omega), Nat.add_assoc]
      · rw [List.getElem?_append_right (by rw [length_slice (by omega)]; omega),
          length_slice (by omega), getElem?_slice, if_pos (by omega), if_neg (by omega)]
        congr 1
        omega
  · rw [List.getElem?_eq_none (by rw [length_readCircular hbase ho hn]; omega),
      List.getElem?_eq_none (by omega)]

/-- The cells that fit before the end of the region, when there are more. -/
theorem length_wrapped (hbase : base + size ≤ s.length) (ho : offset < size) (hend : ¬offset + cells.length ≤ size) :
  (cells.take (size - offset)).length = size - offset ∧
    (splice s (base + offset) (cells.take (size - offset))).length = s.length
  := by
  have hfirst : (cells.take (size - offset)).length = size - offset := by
    rw [List.length_take]
    omega
  exact ⟨hfirst, length_splice (by omega)⟩

theorem length_writeCircular (hbase : base + size ≤ s.length) (ho : offset < size)
    (hc : cells.length ≤ size) :
  (writeCircular s base size offset cells).length = s.length
  := by
  rw [writeCircular]
  by_cases hend : offset + cells.length ≤ size
  · rw [if_pos hend, length_splice (by omega)]
  · obtain ⟨hfirst, hlength⟩ := length_wrapped hbase ho hend
    rw [if_neg hend, length_splice (by rw [hlength, List.length_drop]; omega), hlength]

/-- A cell of the region after cells were put into it. -/
theorem getElem?_writeCircular (hbase : base + size ≤ s.length) (ho : offset < size)
    (hc : cells.length ≤ size) (hi : i < size) :
  (writeCircular s base size offset cells)[base + (offset + i) % size]? =
    if i < cells.length then cells[i]? else s[base + (offset + i) % size]?
  := by
  rw [mod_of_lt ho hi, writeCircular]
  by_cases hend : offset + cells.length ≤ size
  · rw [if_pos hend, getElem?_splice (by omega)]
    by_cases hin : i < cells.length
    · rw [if_pos (show offset + i < size by omega), if_pos (by omega), if_pos hin]
      congr 1
      omega
    · rw [if_neg hin]
      by_cases hpart : offset + i < size
      · rw [if_pos hpart, if_neg (by omega)]
      · rw [if_neg hpart, if_neg (by omega)]
  · obtain ⟨hfirst, hlength⟩ := length_wrapped hbase ho hend
    rw [if_neg hend, getElem?_splice (by rw [hlength, List.length_drop]; omega),
      getElem?_splice (by omega), hfirst, List.length_drop]
    by_cases hpart : offset + i < size
    · rw [if_pos hpart, if_neg (by omega), if_pos (by omega), if_pos (by omega), List.getElem?_take,
        if_pos (by omega)]
      congr 1
      omega
    · rw [if_neg hpart]
      by_cases hin : i < cells.length
      · rw [if_pos (by omega), if_pos (by omega), List.getElem?_drop]
        congr 1
        omega
      · rw [if_neg (by omega), if_neg (by omega), if_neg (by omega)]

theorem slice_writeCircular (hbase : base + size ≤ s.length) (ho : offset < size)
    (hc : cells.length ≤ size) (hk : k + n ≤ base) :
  slice (writeCircular s base size offset cells) k n = slice s k n
  := by
  rw [writeCircular]
  by_cases hend : offset + cells.length ≤ size
  · rw [if_pos hend, slice_splice_of_disjoint (by omega) (.inl (by omega))]
  · obtain ⟨hfirst, hlength⟩ := length_wrapped hbase ho hend
    rw [if_neg hend, slice_splice_of_disjoint (by rw [hlength, List.length_drop]; omega) (.inl hk),
      slice_splice_of_disjoint (by omega) (.inl (by omega))]

/-- Cells that are put behind the ones of a window extend it. -/
theorem window_writeCircular (hbase : base + size ≤ s.length) (ho : offset < size)
    (hc : n + cells.length ≤ size) :
  window (writeCircular s base size ((offset + n) % size) cells) base size offset (n + cells.length) =
    window s base size offset n ++ cells.map some
  := by
  have hpos : 0 < size := by omega
  have hhead : (offset + n) % size < size := Nat.mod_lt _ hpos
  have hcell : ∀ i < n + cells.length,
      (writeCircular s base size ((offset + n) % size) cells)[base + (offset + i) % size]? =
        if i < n then s[base + (offset + i) % size]? else cells[i - n]? := by
    intro i hi
    by_cases hold : i < n
    · -- a cell of the window lies before the new ones, or behind them
      have hplace : (offset + i) % size = ((offset + n) % size + (size - n + i)) % size := by
        rw [Nat.mod_add_mod, show offset + n + (size - n + i) = offset + i + size by omega,
          Nat.add_mod_right]
      rw [if_pos hold, hplace, getElem?_writeCircular hbase hhead (by omega) (by omega),
        if_neg (by omega)]
    · have hplace : (offset + i) % size = ((offset + n) % size + (i - n)) % size := by
        rw [Nat.mod_add_mod, show offset + n + (i - n) = offset + i by omega]
      rw [if_neg hold, hplace, getElem?_writeCircular hbase hhead (by omega) (by omega),
        if_pos (by omega)]
  apply List.ext_getElem?
  intro i
  by_cases hi : i < n + cells.length
  · simp only [window, List.getElem?_map, List.getElem?_range hi, Option.map_some, hcell i hi]
    by_cases hold : i < n
    · rw [List.getElem?_append_left (by simpa using hold), if_pos hold]
      simp [List.getElem?_range hold]
    · rw [List.getElem?_append_right (by simpa using hold), if_neg hold, List.length_map,
        List.length_range, List.getElem?_map]
      rw [List.getElem?_eq_getElem (by omega)]
      rfl
  · rw [List.getElem?_eq_none (by rw [length_window]; omega), List.getElem?_eq_none]
    rw [List.length_append, length_window, List.length_map]
    omega

theorem window_splice_of_le (h : i + cells.length ≤ base) (hs : i + cells.length ≤ s.length)
    (n : Nat) :
  window (splice s i cells) base size offset n = window s base size offset n
  := by
  apply List.map_congr_left
  intro j _
  rw [getElem?_splice hs, if_neg (by omega)]

/-! ### Numbers -/

/-- A number in `k` bytes, the highest first. -/
def bigEndian : Nat → Nat → List UInt8
  | 0, _ => []
  | k + 1, n => bigEndian k (n / 256) ++ [UInt8.ofNat (n % 256)]

/-- The number that bytes stand for. -/
def ofBytes (bytes : List UInt8) : Nat :=
  bytes.foldl (fun n b => n * 256 + b.toNat) 0

@[simp]
theorem length_bigEndian (k n : Nat) :
  (bigEndian k n).length = k
  := by
  induction k generalizing n with
  | zero => rfl
  | succ k ih => rw [bigEndian, List.length_append, ih, List.length_singleton]

theorem ofBytes_bigEndian (h : n < 256 ^ k) :
  ofBytes (bigEndian k n) = n
  := by
  induction k generalizing n with
  | zero =>
    obtain rfl : n = 0 := by simpa using h
    rfl
  | succ k ih =>
    have hbyte : (UInt8.ofNat (n % 256)).toNat = n % 256 := by
      rw [UInt8.toNat_ofNat']
      omega
    have hhigh : n / 256 < 256 ^ k := by
      rw [Nat.div_lt_iff_lt_mul (by decide), ← Nat.pow_succ]
      exact h
    have hrest := ih hhigh
    rw [ofBytes] at hrest
    rw [bigEndian, ofBytes, List.foldl_concat, hrest, hbyte]
    exact Nat.div_add_mod' n 256

end Memory
