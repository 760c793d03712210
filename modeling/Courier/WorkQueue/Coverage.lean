import Courier.Library.Patterns
import Courier.WorkQueue.Exclusion

/-!
# Coverage

Two scopes that cover a file in common should overlap.  The queue compares the texts of two entries; it misses a
pattern that crosses slashes into a directory whose name it does not spell out, and what `_norm` cuts off, and nothing
else (`sound_iff`).
-/

namespace Courier.WorkQueue

open Calendar Patterns

/-! ### Entries and files -/

/-- A character that the item schema allows in a scope. -/
def isScopePoint (c : Nat) : Bool :=
  (48 ≤ c && c ≤ 57) || (65 ≤ c && c ≤ 90) || (97 ≤ c && c ≤ 122) || c = 46 || c = 95 || c = 47
    || c = 42 || c = 63 || c = 45

/-- An entry of `files_scope` that the item schema and `_validate` let pass. -/
def isEntry (entry : Str) : Bool :=
  entry.all isScopePoint && 1 ≤ entry.length && entry.length ≤ 200
    && !Text.occurs (text "..") entry && !startsWith entry (text "/")

def isFilePath (path : Str) : Bool :=
  path ≠ [] && path.head? ≠ some 47 && path.getLast? ≠ some 47

def covers (entry path : Str) : Bool :=
  if wild entry then fnmatchcase path entry
  else if Text.endsWith entry [47] then startsWith path entry && path ≠ entry
  else path = entry

def OverlapSound (left right : Str) : Prop :=
  ∀ path, isFilePath path = true → covers left path = true → covers right path = true →
    scopesOverlap [left] [right] = true

/-! ### What is missed -/

def filled (pattern : Str) : Str :=
  pattern.map fun c => if c = 42 ∨ c = 63 then 120 else c

/-- It matches the file, or a start of it matches the directory and what is left of it names a file there. -/
def meets (pattern entry : Str) : Bool :=
  if Text.endsWith entry [47] then
    (List.range (pattern.length + 1)).any fun n =>
      (fnmatchcase entry (pattern.take n)
        || (pattern.drop n).head? = some 42 && fnmatchcase entry (pattern.take n ++ [42]))
      && isFilePath (entry ++ filled (pattern.drop n))
  else isFilePath entry && fnmatchcase entry pattern

/-- The pattern matches the other path, starts with it as a directory, or spells out a directory that it is in. -/
def seen (pattern entry : Str) : Bool :=
  fnmatchcase (norm entry) (norm pattern) || insideDir (norm entry) (norm pattern)
    || startsWith (norm entry) (literalPrefix (norm pattern) ++ [47])

/-- The first is a pattern that meets the second unseen, or the second is a directory of which `_norm` leaves nothing.
-/
def missed (entry other : Str) : Bool :=
  !wild other &&
    if wild entry then meets entry other && !seen entry other
    else Text.endsWith other [47] && norm other = [] && startsWith entry other && norm entry ≠ []

/-! ### Patterns of the schema -/

def token (c : Nat) : Token Nat :=
  if c = 42 then .star else if c = 63 then .any else .point c

def Bracketless (pattern : Str) : Prop :=
  91 ∉ pattern

theorem fnmatchFrom_iff {fuel : Nat} {pattern name : Str} (hfuel : pattern.length ≤ fuel)
    (h : Bracketless pattern) :
  fnmatchFrom fuel pattern name = true ↔ Matches (pattern.map token) name
  := by
  induction fuel generalizing pattern name with
  | zero =>
    obtain rfl := List.length_eq_zero_iff.mp (Nat.le_zero.mp hfuel)
    simp [fnmatchFrom]
  | succ fuel ih =>
    cases pattern with
    | nil => simp [fnmatchFrom]
    | cons c pattern =>
      have hfuel' : pattern.length ≤ fuel := Nat.le_of_succ_le_succ hfuel
      have hrest : Bracketless pattern := fun hmem => h (List.mem_cons_of_mem _ hmem)
      rw [List.map_cons]
      by_cases hstar : c = 42
      · obtain rfl := hstar
        have htails : ∀ rest, rest ∈ name.tails ↔ ∃ u, name = u ++ rest := by
          intro rest
          rw [List.mem_tails]
          exact ⟨fun ⟨u, hu⟩ => ⟨u, hu.symm⟩, fun ⟨u, hu⟩ => ⟨u, hu.symm⟩⟩
        simp only [fnmatchFrom, List.any_eq_true, token, if_true, matches_star_iff, htails,
          ih hfuel' hrest]
        exact ⟨fun ⟨t, ⟨u, hu⟩, ht⟩ => ⟨u, t, hu, ht⟩, fun ⟨u, t, hu, ht⟩ => ⟨t, ⟨u, hu⟩, ht⟩⟩
      · by_cases hany : c = 63
        · obtain rfl := hany
          have htoken : token 63 = .any := by decide
          cases name with
          | nil => simp [fnmatchFrom, htoken, matches_any_iff]
          | cons d name => simp [fnmatchFrom, htoken, matches_any_iff, ih hfuel' hrest]
        · have hbracket : c ≠ 91 := fun heq => h (heq ▸ List.mem_cons_self)
          have htoken : token c = .point c := by simp [token, hstar, hany]
          rw [htoken, matches_point_iff]
          have hpoint : fnmatchFrom (fuel + 1) (c :: pattern) name =
              (name.head? = some c && fnmatchFrom fuel pattern name.tail) := by
            rw [fnmatchFrom]
            · exact hstar
            · exact hany
            · exact hbracket
          rw [hpoint, Bool.and_eq_true, decide_eq_true_eq, ih hfuel' hrest]
          cases name with
          | nil => simp
          | cons d name =>
            simp only [List.head?_cons, Option.some.injEq, List.tail_cons, List.cons.injEq]
            exact ⟨fun ⟨hd, h⟩ => ⟨name, ⟨hd, rfl⟩, h⟩, fun ⟨t, ⟨hd, ht⟩, h⟩ => ⟨hd, ht ▸ h⟩⟩

theorem fnmatchcase_iff {pattern name : Str} (h : Bracketless pattern) :
  fnmatchcase name pattern = true ↔ Matches (pattern.map token) name
  := fnmatchFrom_iff (le_refl _) h

theorem map_token_of_plain {s : Str} (h : wild s = false) :
  s.map token = s.map .point
  := by
  apply List.map_congr_left
  intro c hc
  have hplain := List.any_eq_false.mp h c hc
  simp only [Bool.or_eq_true, decide_eq_true_eq, not_or] at hplain
  simp [token, hplain.1]

theorem fnmatchcase_plain {name entry : Str} (h : wild entry = false) :
  fnmatchcase name entry = true ↔ name = entry
  := by
  have hbrackets : Bracketless entry := by
    intro hmem
    have hplain := List.any_eq_false.mp h 91 hmem
    simp at hplain
  rw [fnmatchcase_iff hbrackets, map_token_of_plain h, matches_points]

/-! ### Normalized entries -/

def isLead (c : Nat) : Bool :=
  c = 46 || c = 47

/-- What an entry that passes the checks looks like. -/
structure Entered (entry : Str) : Prop where
  bracketless : Bracketless entry
  nonempty : entry ≠ []
  relative : entry.head? ≠ some 47
  norm_eq : norm entry = entry.dropWhile isLead

theorem entered_of_isEntry {entry : Str} (h : isEntry entry = true) :
  Entered entry
  := by
  simp only [isEntry, Bool.and_eq_true, Bool.not_eq_true', List.all_eq_true,
    decide_eq_true_eq] at h
  obtain ⟨⟨⟨⟨hpoints, hlength⟩, -⟩, -⟩, hslash⟩ := h
  have hnot : ∀ c, isScopePoint c = false → c ∉ entry := by
    intro c hc hmem
    rw [hpoints c hmem] at hc
    cases hc
  refine ⟨hnot 91 (by decide), ?_, ?_, ?_⟩
  · rintro rfl
    simp at hlength
  · intro hhead
    obtain ⟨rest, rfl⟩ := List.head?_eq_some_iff.mp hhead
    simp [startsWith, text] at hslash
  · have hsame : (entry.map fun c => if c = 92 then 47 else c) = entry := by
      conv_rhs => rw [← List.map_id entry]
      apply List.map_congr_left
      intro c hc
      have hne : c ≠ 92 := fun heq => hnot 92 (by decide) (heq ▸ hc)
      simp [hne]
    rw [norm, hsame]
    rfl

variable {a b c path : Str}

@[simp]
theorem wild_append (s t : Str) :
  wild (s ++ t) = (wild s || wild t)
  := List.any_append

theorem wild_of_lead {lead : Str} (h : ∀ c ∈ lead, isLead c = true) :
  wild lead = false
  := by
  rw [wild, List.any_eq_false]
  intro c hc
  have hlead := h c hc
  simp only [isLead, Bool.or_eq_true, decide_eq_true_eq] at hlead
  rcases hlead with rfl | rfl <;> decide

theorem Entered.split (h : Entered a) :
  ∃ lead, a = lead ++ norm a ∧ (∀ c ∈ lead, isLead c = true) ∧
    ∀ c, (norm a).head? = some c → isLead c = false
  := by
  refine ⟨a.takeWhile isLead, ?_, fun c hc => List.mem_takeWhile_imp hc, ?_⟩
  · rw [h.norm_eq, List.takeWhile_append_dropWhile]
  · intro c hc
    have hhead := List.head?_dropWhile_not isLead a
    rw [← h.norm_eq, hc] at hhead
    simpa using hhead

theorem Entered.wild_norm (h : Entered a) :
  wild (norm a) = wild a
  := by
  obtain ⟨lead, heq, hlead, -⟩ := h.split
  conv_rhs => rw [heq]
  rw [wild_append, wild_of_lead hlead, Bool.false_or]

/-! ### The directory that a pattern spells out -/

theorem splitSlash_ne_nil (s : Str) :
  splitSlash s ≠ []
  := by
  cases s with
  | nil => simp [splitSlash]
  | cons c s =>
    rw [splitSlash]
    split_ifs
    · simp
    · split <;> simp

theorem intercalate_splitSlash (s : Str) :
  List.intercalate [47] (splitSlash s) = s
  := by
  induction s with
  | nil => rfl
  | cons c s ih =>
    rw [splitSlash]
    split_ifs with hslash
    · rw [List.intercalate_cons_of_ne_nil (splitSlash_ne_nil s), ih, hslash]
      rfl
    · obtain ⟨part, parts, hparts⟩ := List.exists_cons_of_ne_nil (splitSlash_ne_nil s)
      rw [hparts] at ih ⊢
      cases parts with
      | nil =>
        rw [List.intercalate_singleton] at ih ⊢
        rw [ih]
      | cons next parts =>
        rw [List.intercalate_cons_of_ne_nil (List.cons_ne_nil _ _)] at ih ⊢
        rw [← ih]
        rfl

theorem intercalate_takeWhile {parts : List Str} (h : parts.any wild = true)
    (hne : (parts.takeWhile fun part => !wild part) ≠ []) :
  ∃ rest, List.intercalate [47] parts =
      List.intercalate [47] (parts.takeWhile fun part => !wild part) ++ 47 :: rest ∧
    wild (List.intercalate [47] (parts.takeWhile fun part => !wild part)) = false
  := by
  induction parts with
  | nil => exact absurd rfl hne
  | cons part parts ih =>
    cases hpart : wild part with
    | true => simp [hpart] at hne
    | false =>
      rw [List.any_cons, hpart, Bool.false_or] at h
      have hparts : parts ≠ [] := by
        rintro rfl
        cases h
      rw [List.intercalate_cons_of_ne_nil hparts, List.takeWhile_cons_of_pos (by simp [hpart])]
      by_cases hrest : (parts.takeWhile fun part => !wild part) = []
      · rw [hrest, List.intercalate_singleton]
        exact ⟨List.intercalate [47] parts, by simp, hpart⟩
      · obtain ⟨rest, heq, hplain⟩ := ih h hrest
        rw [List.intercalate_cons_of_ne_nil hrest]
        refine ⟨rest, ?_, ?_⟩
        · rw [heq]
          simp
        · rw [wild_append, wild_append, hpart, hplain]
          rfl

theorem any_wild_splitSlash (s : Str) :
  (splitSlash s).any wild = wild s
  := by
  induction s with
  | nil => rfl
  | cons c s ih =>
    have hcons : wild (c :: s) = (wild [c] || wild s) := wild_append [c] s
    rw [hcons, splitSlash]
    split_ifs with hslash
    · rw [List.any_cons, ih, hslash]
      rfl
    · obtain ⟨part, parts, hparts⟩ := List.exists_cons_of_ne_nil (splitSlash_ne_nil s)
      have hpart : wild (c :: part) = (wild [c] || wild part) := wild_append [c] part
      rw [hparts] at ih ⊢
      rw [List.any_cons, hpart, Bool.or_assoc, ← List.any_cons, ih]

theorem literalPrefix_spec (h : wild a = true) (hne : literalPrefix a ≠ []) :
  ∃ rest, a = literalPrefix a ++ 47 :: rest ∧ wild (literalPrefix a) = false
  := by
  have htaken : ((splitSlash a).takeWhile fun part => !wild part) ≠ [] := by
    intro hnil
    rw [literalPrefix, hnil] at hne
    exact hne rfl
  have hspec := intercalate_takeWhile ((any_wild_splitSlash a).trans h) htaken
  rwa [intercalate_splitSlash] at hspec

/-! ### The comparison of two entries -/

theorem normsOverlap_pattern (ha : wild a = true) (hb : wild b = false) :
  normsOverlap a b = (fnmatchcase b a || insideDir b a || startsWith b (literalPrefix a ++ [47]))
  := by
  have hne : a ≠ b := by
    rintro rfl
    rw [ha] at hb
    cases hb
  have hmatch : fnmatchcase a b = false := by
    rw [Bool.eq_false_iff]
    exact fun hmatch => hne ((fnmatchcase_plain hb).mp hmatch)
  have hinside : insideDir a b = false := by simp [insideDir, ha]
  simp only [normsOverlap, hne, hmatch, hinside, ha, hb]
  cases fnmatchcase b a <;> cases insideDir b a <;> simp

theorem normsOverlap_plain (ha : wild a = false) (hb : wild b = false) :
  normsOverlap a b = true ↔ a = b ∨ insideDir a b = true ∨ insideDir b a = true
  := by
  simp only [normsOverlap, fnmatchcase_plain ha, fnmatchcase_plain hb, ha, hb, eq_comm (a := b)]
  by_cases hsame : a = b
  · simp [hsame]
  · by_cases hinside : insideDir a b = true ∨ insideDir b a = true
    · simp [hsame, hinside]
    · simp [hsame, hinside]

theorem normsOverlap_patterns (ha : wild a = true) (hb : wild b = true)
    (h : literalPrefix a = [] ∨ literalPrefix b = [] ∨ literalPrefix a = literalPrefix b ∨
      startsWith (literalPrefix a) (literalPrefix b ++ [47]) = true ∨
      startsWith (literalPrefix b) (literalPrefix a ++ [47]) = true) :
  normsOverlap a b = true
  := by
  unfold normsOverlap
  split_ifs with hmatch hinside hfirst hsecond hboth hempty
  · rfl
  · rfl
  · exact absurd hb hfirst.2
  · exact absurd ha hsecond.2
  · rfl
  · rw [not_or] at hempty
    rcases h with h | h | h | h | h
    · exact absurd h hempty.1
    · exact absurd h hempty.2
    · simp [h]
    · simp [h]
    · simp [h]
  · exact absurd ⟨ha, hb⟩ hboth

/-- The queue sees every file that two patterns cover. -/
theorem overlap_of_patterns (ha : Entered a) (hb : Entered b) (hwa : wild a = true)
    (hwb : wild b = true) (hpa : Matches (a.map token) path) (hpb : Matches (b.map token) path) :
  normsOverlap (norm a) (norm b) = true
  := by
  rw [← ha.wild_norm] at hwa
  rw [← hb.wild_norm] at hwb
  apply normsOverlap_patterns hwa hwb
  by_cases hna : literalPrefix (norm a) = []
  · exact .inl hna
  by_cases hnb : literalPrefix (norm b) = []
  · exact .inr (.inl hnb)
  -- What is left of the path without its lead starts with both directories.
  have hstarts : ∀ {e : Str}, Entered e → wild (norm e) = true → literalPrefix (norm e) ≠ [] →
      Matches (e.map token) path →
      ∃ rest, path.dropWhile isLead = literalPrefix (norm e) ++ 47 :: rest := by
    intro e he hwild hne hmatch
    obtain ⟨lead, heq, hlead, hhead⟩ := he.split
    obtain ⟨rest, hrest, hplain⟩ := literalPrefix_spec hwild hne
    have hnorm : norm e = (literalPrefix (norm e) ++ [47]) ++ rest := by simpa using hrest
    have hdirectory : wild (literalPrefix (norm e) ++ [47]) = false := by
      rw [wild_append, hplain]
      rfl
    rw [heq, List.map_append, map_token_of_plain (wild_of_lead hlead)] at hmatch
    obtain ⟨left, rfl, hleft⟩ := (matches_points_append lead).mp hmatch
    rw [hnorm, List.map_append, map_token_of_plain hdirectory] at hleft
    obtain ⟨tail, rfl, -⟩ := (matches_points_append _).mp hleft
    refine ⟨tail, ?_⟩
    obtain ⟨c, start, hstart⟩ := List.exists_cons_of_ne_nil hne
    have hc : isLead c = false := by
      apply hhead c
      rw [hrest, hstart]
      rfl
    rw [List.dropWhile_append_of_pos hlead, hstart]
    simp [hc]
  obtain ⟨restA, hrestA⟩ := hstarts ha hwa hna hpa
  obtain ⟨restB, hrestB⟩ := hstarts hb hwb hnb hpb
  rw [hrestA] at hrestB
  rcases List.append_eq_append_iff.mp hrestB with ⟨more, hmore, heq⟩ | ⟨more, hmore, heq⟩
  · cases more with
    | nil => exact .inr (.inr (.inl (by simpa using hmore.symm)))
    | cons c more =>
      obtain ⟨rfl, -⟩ := List.cons.inj heq
      refine .inr (.inr (.inr (.inr ?_)))
      rw [hmore]
      simp [startsWith]
  · cases more with
    | nil => exact .inr (.inr (.inl (by simpa using hmore)))
    | cons c more =>
      obtain ⟨rfl, -⟩ := List.cons.inj heq
      refine .inr (.inr (.inr (.inl ?_)))
      rw [hmore]
      simp [startsWith]

/-! ### A pattern and an entry without wildcards -/

theorem isFilePath_iff :
  isFilePath path = true ↔ path ≠ [] ∧ path.head? ≠ some 47 ∧ path.getLast? ≠ some 47
  := by
  simp [isFilePath, and_assoc]

theorem covers_pattern (h : Entered a) (hwild : wild a = true) :
  covers a path = true ↔ Matches (a.map token) path
  := by
  rw [covers, if_pos hwild, fnmatchcase_iff h.bracketless]

theorem covers_directory (hplain : wild a = false) (hslash : Text.endsWith a [47] = true) :
  covers a path = true ↔ ∃ rest, path = a ++ rest ∧ rest ≠ []
  := by
  rw [covers, if_neg (by simp [hplain]), if_pos hslash]
  simp only [startsWith, Bool.and_eq_true, decide_eq_true_eq, List.isPrefixOf_iff_prefix]
  constructor
  · rintro ⟨⟨rest, rfl⟩, hne⟩
    exact ⟨rest, rfl, by simpa using hne⟩
  · rintro ⟨rest, rfl, hne⟩
    exact ⟨⟨rest, rfl⟩, by simpa using hne⟩

theorem covers_file (hplain : wild a = false) (hslash : Text.endsWith a [47] = false) :
  covers a path = true ↔ path = a
  := by
  rw [covers, if_neg (by simp [hplain]), if_neg (by simp [hslash]), decide_eq_true_eq]

theorem getLast?_of_endsWith (h : Text.endsWith a [47] = true) :
  a.getLast? = some 47
  := by
  obtain ⟨start, rfl⟩ := List.isSuffixOf_iff_suffix.mp h
  simp

theorem matches_filled_token (pattern : Str) :
  Matches (pattern.map token) (filled pattern)
  := by
  have hfilled : filled pattern = (pattern.map token).map (Token.filled 120) := by
    rw [filled, List.map_map]
    apply List.map_congr_left
    intro c _
    by_cases hstar : c = 42
    · simp [token, Token.filled, hstar]
    · by_cases hany : c = 63 <;> simp [token, Token.filled, hstar, hany]
  rw [hfilled]
  exact matches_filled 120 _

theorem isFilePath_filled {tail rest : Str} (hb : Entered b) (hpath : isFilePath (b ++ rest) = true)
    (hrest : rest ≠ []) (hmatch : Matches (tail.map token) rest) :
  isFilePath (b ++ filled tail) = true
  := by
  obtain ⟨-, -, hlast⟩ := isFilePath_iff.mp hpath
  obtain ⟨c, start, hstart⟩ := List.exists_cons_of_ne_nil hb.nonempty
  have htail : tail ≠ [] := by
    rintro rfl
    exact hrest (matches_nil_iff.mp hmatch)
  obtain ⟨before, last, rfl⟩ := (List.eq_nil_or_concat tail).resolve_left htail
  rw [isFilePath_iff]
  refine ⟨by simp [hstart], ?_, ?_⟩
  · have hhead := hb.relative
    rw [hstart] at hhead ⊢
    exact hhead
  · intro hslash
    simp only [filled, List.concat_eq_append, List.map_append, List.map_cons, List.map_nil,
      ← List.append_assoc, List.getLast?_concat, Option.some.injEq] at hslash
    split_ifs at hslash with hwild
    · cases hslash
    obtain rfl := hslash
    have hpoint : ((before.concat 47).map token).getLast? = some (.point 47) := by
      simp [token]
    have hends := hmatch.getLast? hpoint
    rw [List.getLast?_append, hends] at hlast
    exact hlast rfl

theorem meets_iff (ha : Entered a) (hb : Entered b) (hwa : wild a = true) (hwb : wild b = false) :
  meets a b = true ↔
    ∃ path, isFilePath path = true ∧ covers a path = true ∧ covers b path = true
  := by
  unfold meets
  split_ifs with hslash
  · simp only [covers_pattern ha hwa, covers_directory hwb hslash, List.any_eq_true, List.mem_range,
      Bool.and_eq_true, Bool.or_eq_true, decide_eq_true_eq]
    constructor
    · rintro ⟨n, -, hstart, hfile⟩
      refine ⟨_, hfile, ?_, _, rfl, ?_⟩
      · rcases hstart with hstart | ⟨hhead, hstart⟩
        · rw [fnmatchcase_iff fun hmem => ha.bracketless (List.mem_of_mem_take hmem)] at hstart
          have happend := hstart.append (matches_filled_token (a.drop n))
          rwa [← List.map_append, List.take_append_drop] at happend
        · obtain ⟨tail, htail⟩ := List.head?_eq_some_iff.mp hhead
          have hbracketless : Bracketless (a.take n ++ [42]) := by
            intro hmem
            rcases List.mem_append.mp hmem with hmem | hmem
            · exact ha.bracketless (List.mem_of_mem_take hmem)
            · simp at hmem
          rw [fnmatchcase_iff hbracketless, List.map_append] at hstart
          have happend := (hstart.absorb [120]).append (matches_filled_token tail)
          have hpattern : a.map token = (a.take n).map token ++ [token 42] ++ tail.map token := by
            conv_lhs => rw [← List.take_append_drop n a, htail]
            simp
          have hpath : b ++ filled (a.drop n) = b ++ [120] ++ filled tail := by
            rw [htail]
            simp [filled]
          rw [hpattern, hpath]
          exact happend
      · intro hnil
        rw [hnil, List.append_nil] at hfile
        exact (isFilePath_iff.mp hfile).2.2 (getLast?_of_endsWith hslash)
    · rintro ⟨_, hfile, hmatch, rest, rfl, hrest⟩
      obtain ⟨u, v, heq, hv, hu⟩ := hmatch.split
      obtain ⟨start, tail, rfl, rfl, rfl⟩ := List.map_eq_append_iff.mp heq
      have hbracketless : Bracketless start := fun hmem => ha.bracketless (List.mem_append_left _ hmem)
      refine ⟨start.length, by simp, ?_, ?_⟩
      · rw [List.take_left, List.drop_left]
        rcases hu with hu | ⟨hhead, hu⟩
        · exact .inl ((fnmatchcase_iff hbracketless).mpr hu)
        · refine .inr ⟨?_, ?_⟩
          · cases tail with
            | nil => cases hhead
            | cons c tail =>
              simp only [List.map_cons, List.head?_cons, Option.some.injEq, token] at hhead ⊢
              split_ifs at hhead with hstar
              exact hstar
          · rw [fnmatchcase_iff]
            · rw [List.map_append]
              exact hu
            · intro hmem
              rcases List.mem_append.mp hmem with hmem | hmem
              · exact hbracketless hmem
              · simp at hmem
      · rw [List.drop_left]
        exact isFilePath_filled hb hfile hrest hv
  · have hfile : Text.endsWith b [47] = false := by simpa using hslash
    simp only [covers_pattern ha hwa, covers_file hwb hfile, Bool.and_eq_true,
      fnmatchcase_iff ha.bracketless]
    constructor
    · rintro ⟨hpath, hmatch⟩
      exact ⟨b, hpath, hmatch, rfl⟩
    · rintro ⟨_, hpath, hmatch, rfl⟩
      exact ⟨hpath, hmatch⟩

/-! ### Two entries without wildcards -/

def Within (directory path : Str) : Prop :=
  Text.endsWith directory [47] = true ∧ startsWith path directory = true

theorem within_of_covers (hwa : wild a = false) (hwb : wild b = false)
    (ha : covers a path = true) (hb : covers b path = true) :
  a = b ∨ Within a b ∨ Within b a
  := by
  have hstarts : ∀ {s t : Str}, startsWith s t = true ↔ t <+: s := List.isPrefixOf_iff_prefix
  cases hsa : Text.endsWith a [47] with
  | true =>
    obtain ⟨rest, rfl, -⟩ := (covers_directory hwa hsa).mp ha
    cases hsb : Text.endsWith b [47] with
    | true =>
      obtain ⟨other, heq, -⟩ := (covers_directory hwb hsb).mp hb
      rcases List.prefix_or_prefix_of_prefix ⟨rest, rfl⟩ ⟨other, heq.symm⟩ with hab | hba
      · exact .inr (.inl ⟨hsa, hstarts.mpr hab⟩)
      · exact .inr (.inr ⟨hsb, hstarts.mpr hba⟩)
    | false =>
      rw [← (covers_file hwb hsb).mp hb]
      exact .inr (.inl ⟨hsa, hstarts.mpr ⟨rest, rfl⟩⟩)
  | false =>
    rw [(covers_file hwa hsa).mp ha] at hb
    cases hsb : Text.endsWith b [47] with
    | true =>
      obtain ⟨other, heq, -⟩ := (covers_directory hwb hsb).mp hb
      exact .inr (.inr ⟨hsb, hstarts.mpr ⟨other, heq.symm⟩⟩)
    | false => exact .inl ((covers_file hwb hsb).mp hb)

theorem exists_covered (ha : Entered a) (hwa : wild a = false) (hwb : wild b = false)
    (h : Within b a) :
  ∃ path, isFilePath path = true ∧ covers a path = true ∧ covers b path = true
  := by
  obtain ⟨hsb, hstarts⟩ := h
  obtain ⟨rest, heq⟩ := List.isPrefixOf_iff_prefix.mp hstarts
  cases hsa : Text.endsWith a [47] with
  | true =>
    refine ⟨a ++ [120], ?_, ?_, ?_⟩
    · obtain ⟨c, start, hstart⟩ := List.exists_cons_of_ne_nil ha.nonempty
      have hhead := ha.relative
      rw [hstart] at hhead ⊢
      rw [isFilePath_iff]
      refine ⟨by simp, hhead, ?_⟩
      rw [List.getLast?_concat]
      decide
    · exact (covers_directory hwa hsa).mpr ⟨[120], rfl, by simp⟩
    · rw [covers_directory hwb hsb, ← heq]
      exact ⟨rest ++ [120], by simp, by simp⟩
  | false =>
    have hrest : rest ≠ [] := by
      rintro rfl
      rw [List.append_nil] at heq
      rw [heq, hsa] at hsb
      cases hsb
    refine ⟨a, ?_, (covers_file hwa hsa).mpr rfl, ?_⟩
    · rw [isFilePath_iff]
      refine ⟨ha.nonempty, ha.relative, ?_⟩
      intro hlast
      obtain ⟨before, rfl⟩ := List.getLast?_eq_some_iff.mp hlast
      rw [Text.endsWith, List.isSuffixOf_iff_suffix.mpr ⟨before, rfl⟩] at hsa
      cases hsa
    · exact (covers_directory hwb hsb).mpr ⟨rest, heq.symm, hrest⟩

theorem insideDir_of_within (ha : Entered a) (hb : Entered b) (hwb : wild b = false)
    (h : Within b a) (hne : norm b ≠ []) :
  insideDir (norm b) (norm a) = true
  := by
  obtain ⟨hsb, hstarts⟩ := h
  obtain ⟨rest, heq⟩ := List.isPrefixOf_iff_prefix.mp hstarts
  have hnorm : norm a = norm b ++ rest := by
    rw [hb.norm_eq] at hne ⊢
    rw [ha.norm_eq, ← heq, List.dropWhile_append, if_neg (by simpa using hne)]
  have hslash : Text.endsWith (norm b) [47] = true := by
    obtain ⟨lead, hsplit, -⟩ := hb.split
    obtain ⟨before, last, hlast⟩ := (List.eq_nil_or_concat (norm b)).resolve_left hne
    have hends := getLast?_of_endsWith hsb
    rw [hsplit, hlast, List.concat_eq_append, ← List.append_assoc, List.getLast?_concat] at hends
    rw [hlast, Option.some.inj hends]
    exact List.isSuffixOf_iff_suffix.mpr ⟨before, by simp⟩
  have hwild : wild (norm b) = false := by rw [hb.wild_norm, hwb]
  rw [insideDir, hslash, hwild, hnorm]
  simp [startsWith]

theorem not_overlap_root (ha : Entered a) (hwa : wild a = false) (hna : norm a ≠ []) :
  normsOverlap (norm a) [] = false
  := by
  rw [Bool.eq_false_iff, Ne, normsOverlap_plain (by rw [ha.wild_norm, hwa]) (by decide)]
  obtain ⟨c, rest, hcons⟩ := List.exists_cons_of_ne_nil hna
  obtain ⟨-, -, -, hhead⟩ := ha.split
  rintro (h | h | h)
  · exact hna h
  · simp only [insideDir, hcons, startsWith, Bool.and_eq_true, Bool.or_eq_true, decide_eq_true_eq] at h
    obtain ⟨⟨hslash, -⟩, hempty | hstarts⟩ := h
    · cases rest with
      | nil =>
        have hlead := hhead c (by rw [hcons]; rfl)
        have hlast := getLast?_of_endsWith hslash
        simp only [List.getLast?_singleton, Option.some.injEq] at hlast
        rw [hlast] at hlead
        cases hlead
      | cons d rest => cases hempty
    · cases hstarts
  · have hroot : insideDir [] (norm a) = false := rfl
    rw [hroot] at h
    cases h

/-! ### What is missed and nothing else -/

theorem missed_plain (hwa : wild a = false) (hwb : wild b = false) :
  missed a b = true ↔ Within b a ∧ norm b = [] ∧ norm a ≠ []
  := by
  simp only [missed, hwa, hwb, Within, Bool.not_false, Bool.true_and, Bool.false_eq_true, if_false,
    Bool.and_eq_true, decide_eq_true_eq]
  tauto

theorem scopesOverlap_singleton (a b : Str) :
  scopesOverlap [a] [b] = normsOverlap (norm a) (norm b)
  := by
  simp [scopesOverlap, pathsOverlap]

theorem sound_comm :
  OverlapSound a b ↔ OverlapSound b a
  := by
  unfold OverlapSound
  rw [scopesOverlap_comm [a] [b]]
  exact ⟨fun h path hpath hb ha => h path hpath ha hb, fun h path hpath ha hb => h path hpath hb ha⟩

theorem sound_pattern_iff (ha : Entered a) (hb : Entered b) (hwa : wild a = true)
    (hwb : wild b = false) :
  OverlapSound a b ↔ missed a b = false ∧ missed b a = false
  := by
  have hother : missed b a = false := by simp [missed, hwa]
  have hmissed : missed a b = (meets a b && !seen a b) := by simp [missed, hwa, hwb]
  have hseen : scopesOverlap [a] [b] = seen a b := by
    rw [scopesOverlap_singleton, normsOverlap_pattern (by rw [ha.wild_norm, hwa])
      (by rw [hb.wild_norm, hwb])]
    rfl
  rw [hother, hmissed, OverlapSound, hseen]
  constructor
  · intro hsound
    refine ⟨?_, rfl⟩
    rw [Bool.eq_false_iff, Ne, Bool.and_eq_true, Bool.not_eq_true']
    rintro ⟨hmeets, hunseen⟩
    obtain ⟨path, hpath, hcovera, hcoverb⟩ := (meets_iff ha hb hwa hwb).mp hmeets
    rw [hsound path hpath hcovera hcoverb] at hunseen
    cases hunseen
  · rintro ⟨hnone, -⟩ path hpath hcovera hcoverb
    have hmeets := (meets_iff ha hb hwa hwb).mpr ⟨path, hpath, hcovera, hcoverb⟩
    simpa [hmeets] using hnone

theorem sound_plain_iff (ha : Entered a) (hb : Entered b) (hwa : wild a = false)
    (hwb : wild b = false) :
  OverlapSound a b ↔ missed a b = false ∧ missed b a = false
  := by
  have hunsound : ∀ {e f : Str}, Entered e → wild e = false → wild f = false →
      missed e f = true → ¬ OverlapSound e f := by
    intro e f he hwe hwf hmissed hsound
    obtain ⟨hwithin, hempty, hne⟩ := (missed_plain hwe hwf).mp hmissed
    obtain ⟨path, hpath, hcovere, hcoverf⟩ := exists_covered he hwe hwf hwithin
    have hoverlap := hsound path hpath hcovere hcoverf
    rw [scopesOverlap_singleton, hempty, not_overlap_root he hwe hne] at hoverlap
    cases hoverlap
  have hwithin : ∀ {e f : Str}, Entered e → Entered f → wild e = false → wild f = false →
      missed e f = false → Within f e → normsOverlap (norm e) (norm f) = true := by
    intro e f he hf hwe hwf hnone hwithin
    rw [normsOverlap_plain (by rw [he.wild_norm, hwe]) (by rw [hf.wild_norm, hwf])]
    by_cases hempty : norm f = []
    · by_cases hne : norm e = []
      · exact .inl (hne.trans hempty.symm)
      · rw [Bool.eq_false_iff, Ne, missed_plain hwe hwf] at hnone
        exact absurd ⟨hwithin, hempty, hne⟩ hnone
    · exact .inr (.inr (insideDir_of_within he hf hwf hwithin hempty))
  constructor
  · intro hsound
    constructor
    · rw [Bool.eq_false_iff]
      exact fun hmissed => hunsound ha hwa hwb hmissed hsound
    · rw [Bool.eq_false_iff]
      exact fun hmissed => hunsound hb hwb hwa hmissed (sound_comm.mp hsound)
  · rintro ⟨hab, hba⟩ path - hcovera hcoverb
    rw [scopesOverlap_singleton]
    rcases within_of_covers hwa hwb hcovera hcoverb with rfl | h | h
    · simp [normsOverlap]
    · rw [normsOverlap_comm]
      exact hwithin hb ha hwb hwa hba h
    · exact hwithin ha hb hwa hwb hab h

theorem sound_entered_iff (ha : Entered a) (hb : Entered b) :
  OverlapSound a b ↔ missed a b = false ∧ missed b a = false
  := by
  cases hwa : wild a with
  | true =>
    cases hwb : wild b with
    | true =>
      refine iff_of_true ?_ ⟨by simp [missed, hwb], by simp [missed, hwa]⟩
      intro path _ hcovera hcoverb
      rw [scopesOverlap_singleton]
      exact overlap_of_patterns ha hb hwa hwb ((covers_pattern ha hwa).mp hcovera)
        ((covers_pattern hb hwb).mp hcoverb)
    | false => exact sound_pattern_iff ha hb hwa hwb
  | false =>
    cases hwb : wild b with
    | true =>
      rw [sound_comm, and_comm]
      exact sound_pattern_iff hb ha hwb hwa
    | false => exact sound_plain_iff ha hb hwa hwb

/-- Two items that are held together share no file that an entry of each covers, unless one of the two
entries is missed. -/
def HeldApart (site : Site) : Prop :=
  ∀ t : DateTime, site.moment.instant ≤ t.instant →
    ∃ items, effective t site.queue = .ok items site.queue ∧
      ∀ i j a b, i ≠ j → items.get? i = some a → items.get? j = some b → held a t = true →
        held b t = true → ∀ left ∈ a.filesScope, ∀ right ∈ b.filesScope,
          isEntry left = true → isEntry right = true →
          missed left right = false → missed right left = false →
          ∀ path, isFilePath path = true → ¬ (covers left path = true ∧ covers right path = true)

/-- Every file that two admitted entries cover is seen exactly if neither is missed by the other, and no two items that
are held share a file through entries that are not missed. -/
theorem sound_iff {a b : Str} (ha : isEntry a = true) (hb : isEntry b = true) :
  (OverlapSound a b ↔ missed a b = false ∧ missed b a = false)
    ∧ ∀ site : Site, site.Reached → HeldApart site
  := by
  constructor
  · exact sound_entered_iff (entered_of_isEntry ha) (entered_of_isEntry hb)
  · intro site hreached t hle
    obtain ⟨entries, hsound⟩ := sound_of_reached hreached
    refine ⟨_, effective_of_serving hsound.serving, ?_⟩
    rintro i j a b hij ha hb hhelda hheldb left hleft right hright hentry hentry' hab hba path hpath
      ⟨hcovera, hcoverb⟩
    have happart := exclusive_expire (hsound.exclusive.later hle) i j a b hij ha hb hhelda hheldb
    have hone := (sound_entered_iff (entered_of_isEntry hentry) (entered_of_isEntry hentry')).mpr
      ⟨hab, hba⟩ path hpath hcovera hcoverb
    have hall : scopesOverlap a.filesScope b.filesScope = true := by
      simp only [scopesOverlap, List.any_cons, List.any_nil, Bool.or_false] at hone
      exact List.any_eq_true.mpr ⟨left, hleft, List.any_eq_true.mpr ⟨right, hright, hone⟩⟩
    rw [happart] at hall
    cases hall

section Example

/-- The pattern matches a file in the directory, which it does not spell out. -/
theorem not_sound :
  isEntry (text "s*.py") = true ∧ isEntry (text "src/") = true ∧
    isFilePath (text "src/run.py") = true ∧ covers (text "s*.py") (text "src/run.py") = true ∧
    covers (text "src/") (text "src/run.py") = true ∧
    scopesOverlap [text "s*.py"] [text "src/"] = false
  := by decide +kernel

/-- A pattern that spells out the directory of a file, and one that does not. -/
theorem sound_iff_sample :
  OverlapSound (text "src/*.py") (text "src/") ∧ ¬ OverlapSound (text "s*.py") (text "src/")
  := by
  constructor
  · exact (sound_iff (by decide) (by decide)).1.mpr ⟨by decide +kernel, by decide +kernel⟩
  · rw [(sound_iff (by decide) (by decide)).1]
    decide +kernel

example : missed (text "?github/x") (text ".github/x") = true ∧ missed (text "x") (text "./") = false := by
  decide +kernel

end Example

end Courier.WorkQueue
