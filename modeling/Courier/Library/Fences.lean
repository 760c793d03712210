import Courier.Library.Cut
import Courier.Library.Indented
import Courier.Library.Split

/-!
# Fences in encoded JSON

An escape has no backtick; so the indented encoding has a fence of backticks exactly if one of its texts has it
(`fence_notInfix_layout`), and what is behind it goes on inside of a string (`Fenced`) and is no start of an object
(`Inside.eq_nil`).
-/

namespace Json

open Text

/-! ### Escaped characters -/

/-- A character that is not escaped. -/
def Bare (c : Nat) : Prop :=
  (32 ≤ c ∧ c < 127) ∧ c ≠ 34 ∧ c ≠ 92

instance (c : Nat) : Decidable (Bare c) :=
  inferInstanceAs (Decidable (_ ∧ _))

theorem hexDigit_ne_backtick (n : Nat) :
  hexDigit n ≠ 96
  := by
  rw [hexDigit]
  split <;> omega

theorem backtick_notMem_hexUnit (c : Nat) :
  ∃ t, hexUnit c = 92 :: t ∧ 96 ∉ t
  := by
  refine ⟨_, rfl, ?_⟩
  simp [(hexDigit_ne_backtick _).symm]

variable {c : Nat}

theorem escaped_of_bare (h : Bare c) :
  (escape c).flatMap asciiPoint = [c]
  := by
  obtain ⟨⟨hlow, hhigh⟩, hquote, hslash⟩ := h
  have hescape : escape c = [c] := by
    unfold escape
    repeat rw [if_neg (by omega)]
  rw [hescape, List.flatMap_singleton, asciiPoint, if_pos hhigh]

/-- An escape has no backtick. -/
theorem escaped_of_not_bare (h : ¬Bare c) :
  ∃ t, (escape c).flatMap asciiPoint = 92 :: t ∧ 96 ∉ t
  := by
  have hshort : ∀ d ∈ [34, 92, 110, 114, 116, 102, 98], [92, d].flatMap asciiPoint = [92, d] ∧ 96 ∉ [d] := by
    decide
  unfold escape
  split_ifs with hquote hslash hnewline hreturn htab hfeed hback hlow
  · exact ⟨_, hshort 34 (by decide)⟩
  · exact ⟨_, hshort 92 (by decide)⟩
  · exact ⟨_, hshort 110 (by decide)⟩
  · exact ⟨_, hshort 114 (by decide)⟩
  · exact ⟨_, hshort 116 (by decide)⟩
  · exact ⟨_, hshort 102 (by decide)⟩
  · exact ⟨_, hshort 98 (by decide)⟩
  · have hdigit : ∀ n, n < 16 → asciiPoint (hexDigit n) = [hexDigit n] := by decide
    refine ⟨[117, 48, 48, hexDigit (c / 16), hexDigit (c % 16)], ?_, ?_⟩
    · simp only [List.flatMap_cons, List.flatMap_nil, hdigit (c / 16) (by omega),
        hdigit (c % 16) (by omega)]
      rfl
    · simp [(hexDigit_ne_backtick _).symm]
  · have hhigh : ¬c < 127 := by
      rw [Bare] at h
      omega
    rw [List.flatMap_singleton, asciiPoint, if_neg hhigh]
    split
    · exact backtick_notMem_hexUnit c
    · obtain ⟨t, ht, hmem⟩ := backtick_notMem_hexUnit (highHalf c)
      obtain ⟨u, hu, hmem'⟩ := backtick_notMem_hexUnit (lowHalf c)
      refine ⟨t ++ 92 :: u, by rw [ht, hu, List.cons_append], ?_⟩
      simp [hmem, hmem']

theorem escapeAscii_cons (c : Nat) (u : Str) :
  escapeAscii (c :: u) = (escape c).flatMap asciiPoint ++ escapeAscii u
  := by
  rw [escapeAscii, List.flatMap_cons, List.flatMap_append, escapeAscii]

theorem escapeAscii_bare (h : Bare c) (u : Str) :
  escapeAscii (c :: u) = c :: escapeAscii u
  := by
  rw [escapeAscii_cons, escaped_of_bare h, List.singleton_append]

/-! ### Parts of strings -/

variable {u after : Str}

/-- What follows characters that are not escaped goes on inside of the string. -/
theorem exists_escapeAscii_of_bare {w : Str} (hw : ∀ c ∈ w, Bare c) {b : Str}
    (h : escapeAscii u ++ 34 :: after = w ++ b) :
  ∃ v, u = w ++ v ∧ b = escapeAscii v ++ 34 :: after
  := by
  induction w generalizing u with
  | nil => exact ⟨u, rfl, h.symm⟩
  | cons d w ih =>
    obtain ⟨hd, htail⟩ := List.forall_mem_cons.mp hw
    cases u with
    | nil =>
      obtain ⟨rfl, -⟩ := List.cons.inj h
      exact absurd hd (by decide)
    | cons c u =>
      by_cases hc : Bare c
      · rw [escapeAscii_bare hc] at h
        obtain ⟨rfl, hrest⟩ := List.cons.inj h
        obtain ⟨v, rfl, hb⟩ := ih htail hrest
        exact ⟨v, rfl, hb⟩
      · obtain ⟨t, ht, -⟩ := escaped_of_not_bare hc
        rw [escapeAscii_cons, ht] at h
        obtain ⟨rfl, -⟩ := List.cons.inj h
        exact absurd hd (by decide)

/-- A quote without a backslash or another quote before it ends the string. -/
theorem eq_of_first_quote {x y : Str} (h : escapeAscii u ++ 34 :: after = x ++ 34 :: y)
    (hquote : 34 ∉ x) (hslash : 92 ∉ x) :
  y = after
  := by
  induction u generalizing x with
  | nil =>
    cases x with
    | nil => exact (List.cons.inj h).2.symm
    | cons d x =>
      obtain ⟨rfl, -⟩ := List.cons.inj h
      simp at hquote
  | cons c u ih =>
    by_cases hc : Bare c
    · rw [escapeAscii_bare hc] at h
      cases x with
      | nil =>
        obtain ⟨rfl, -⟩ := List.cons.inj h
        exact absurd hc (by decide)
      | cons d x =>
        obtain ⟨rfl, hrest⟩ := List.cons.inj h
        exact ih hrest (fun hx => hquote (List.mem_cons_of_mem _ hx))
          fun hx => hslash (List.mem_cons_of_mem _ hx)
    · obtain ⟨t, ht, -⟩ := escaped_of_not_bare hc
      rw [escapeAscii_cons, ht] at h
      cases x with
      | nil =>
        obtain ⟨heq, -⟩ := List.cons.inj h
        cases heq
      | cons d x =>
        obtain ⟨rfl, -⟩ := List.cons.inj h
        simp at hslash

/-! ### Behind a fence -/

/-- The separator starts with a backtick and has no character that is escaped. -/
def Fence (sep : Str) : Prop :=
  ∃ w, sep = 96 :: w ∧ ∀ c ∈ w, Bare c

/-- What comes behind a value: a new line, or a comma and a new line. -/
def GoesOn (s : Str) : Prop :=
  ∃ t, s = 10 :: t ∨ s = 44 :: 10 :: t

def Inside (b : Str) : Prop :=
  ∃ u after, b = escapeAscii u ++ 34 :: after ∧ GoesOn after

/-- Behind every fence the text goes on inside of a string. -/
def Fenced (sep s : Str) : Prop :=
  ∀ a b, s = a ++ sep ++ b → Inside b

variable {sep : Str}

theorem Fenced.cons (hsep : Fence sep) {c : Nat} (hc : c ≠ 96) {s : Str} (h : Fenced sep s) :
  Fenced sep (c :: s)
  := by
  obtain ⟨w, rfl, -⟩ := hsep
  rintro (_ | ⟨d, a⟩) b heq
  · obtain ⟨rfl, -⟩ := List.cons.inj heq
    exact absurd rfl hc
  · obtain ⟨-, hrest⟩ := List.cons.inj heq
    exact h a b hrest

variable {a s : Str}

theorem Fenced.append (hsep : Fence sep) (ha : 96 ∉ a) (h : Fenced sep s) :
  Fenced sep (a ++ s)
  := by
  induction a with
  | nil => exact h
  | cons c a ih =>
    have hc : c ≠ 96 := fun hc => ha (hc ▸ List.mem_cons_self ..)
    exact (ih fun hmem => ha (List.mem_cons_of_mem _ hmem)).cons hsep hc

/-- A string that is a value can have fences. -/
theorem Fenced.string (hsep : Fence sep) (hafter : GoesOn after) (h : Fenced sep after) (u : Str) :
  Fenced sep (escapeAscii u ++ 34 :: after)
  := by
  induction u with
  | nil => exact h.cons hsep (by decide)
  | cons c u ih =>
    by_cases hc : Bare c
    · by_cases htick : c = 96
      · subst htick
        rw [escapeAscii_bare hc, List.cons_append]
        obtain ⟨w, rfl, hw⟩ := hsep
        rintro (_ | ⟨d, a⟩) b heq
        · obtain ⟨-, hrest⟩ := List.cons.inj heq
          obtain ⟨v, -, hb⟩ := exists_escapeAscii_of_bare hw hrest
          exact ⟨v, after, hb, hafter⟩
        · obtain ⟨-, hrest⟩ := List.cons.inj heq
          exact ih a b hrest
      · rw [escapeAscii_bare hc]
        exact ih.cons hsep htick
    · obtain ⟨t, ht, htick⟩ := escaped_of_not_bare hc
      rw [escapeAscii_cons, ht, List.append_assoc]
      exact ih.append hsep (by simpa using htick)

variable {d : Members}

/-- What is loaded as an object starts with a brace, and its first key with a quote. -/
theorem loads_obj_inv (h : loads s = some (.obj d)) :
  d = [] ∨ ∃ a b s₁ k s₂, s = a ++ 123 :: (b ++ 34 :: s₁) ∧ Gap a ∧ Gap b ∧ scanString s₁ = some (k, s₂)
  := by
  have hskip : ∀ t : Str, ∃ a, t = a ++ skip t ∧ Gap a := fun t =>
    ⟨t.takeWhile isWhitespace, (List.takeWhile_append_dropWhile ..).symm, fun c hc =>
      List.mem_takeWhile_imp hc⟩
  rw [loads] at h
  split at h
  · cases h
  · next x rest hread =>
    split at h
    · cases h
      rw [readValue.eq_def] at hread
      dsimp only at hread
      split at hread
      · obtain ⟨p, -, hp⟩ := Option.map_eq_some_iff.mp hread
        cases hp
      · next t heq =>
        split at hread
        · cases hread
          exact .inl rfl
        · obtain ⟨⟨e, u⟩, hmembers, -⟩ := Option.map_eq_some_iff.mp hread
          right
          obtain ⟨a, ha, hgap⟩ := hskip s
          obtain ⟨b, hb, hgap'⟩ := hskip t
          obtain ⟨b', hb', hgap''⟩ := hskip (skip t)
          cases hlength : s.length with
          | zero =>
            rw [hlength] at hmembers
            cases hmembers
          | succ n =>
            rw [hlength] at hmembers
            obtain ⟨s₁, k, s₂, -, -, -, hs₁, hscan, -⟩ := readMembers_inv hmembers
            refine ⟨a, b ++ b', s₁, k, s₂, ?_, hgap, ?_, hscan⟩
            · rw [hs₁] at hb'
              rw [List.append_assoc, ← hb', ← hb, ← heq]
              exact ha
            · intro c hc
              rcases List.mem_append.mp hc with hc | hc
              · exact hgap' c hc
              · exact hgap'' c hc
      · split at hread
        · cases hread
        · obtain ⟨p, -, hp⟩ := Option.map_eq_some_iff.mp hread
          cases hp
      · cases hread
      · cases hread
      · cases hread
      · unfold scanNumber at hread
        split at hread
        · cases hread
        · dsimp only at hread
          split_ifs at hread <;> cases hread
    · cases h

theorem exists_strip (s : Str) :
  ∃ a b, s = a ++ (strip s ++ b) ∧ ∀ c ∈ a, isSpace c = true
  := by
  obtain ⟨b, hb⟩ := List.rdropWhile_prefix isSpace (s.dropWhile isSpace)
  refine ⟨s.takeWhile isSpace, b, ?_, fun c hc => List.mem_takeWhile_imp hc⟩
  rw [strip, hb, List.takeWhile_append_dropWhile]

/-- No start of what goes on inside of a string is loaded as an object with members. -/
theorem Inside.eq_nil {b part : Str} (h : Inside b) (hpart : part <+: b)
    (hloads : loads (strip part) = some (.obj d)) :
  d = []
  := by
  obtain ⟨u, after, rfl, hafter⟩ := h
  rcases loads_obj_inv hloads with hnil | ⟨a, g, s₁, k, s₂, heq, ha, hg, hscan⟩
  · exact hnil
  · exfalso
    obtain ⟨x, y, hx, hspace⟩ := exists_strip part
    obtain ⟨z, hz⟩ := hpart
    have hquote : 34 ∉ x ++ a ++ 123 :: g := by
      simp only [List.mem_append, List.mem_cons, not_or]
      exact ⟨⟨fun hc => absurd (hspace 34 hc) (by decide), fun hc => absurd (ha 34 hc) (by decide)⟩,
        by decide, fun hc => absurd (hg 34 hc) (by decide)⟩
    have hslash : 92 ∉ x ++ a ++ 123 :: g := by
      simp only [List.mem_append, List.mem_cons, not_or]
      exact ⟨⟨fun hc => absurd (hspace 92 hc) (by decide), fun hc => absurd (ha 92 hc) (by decide)⟩,
        by decide, fun hc => absurd (hg 92 hc) (by decide)⟩
    have hbehind : s₁ ++ (y ++ z) = after := by
      refine eq_of_first_quote (u := u) (x := x ++ a ++ 123 :: g) ?_ hquote hslash
      rw [← hz, hx, heq]
      simp
    obtain ⟨⟨units, rest⟩, hunits, -⟩ := Option.map_eq_some_iff.mp hscan
    -- A string has no line break.
    have hline : ∀ t, scanUnits (10 :: t) = none := fun t => by
      rw [scanUnits_plain (by decide) (by decide), if_pos (by decide)]
    obtain ⟨t, rfl | rfl⟩ := hafter
    · cases s₁ with
      | nil => cases hunits
      | cons c s₁ =>
        obtain ⟨rfl, -⟩ := List.cons.inj hbehind
        rw [hline] at hunits
        cases hunits
    · rcases s₁ with _ | ⟨c, _ | ⟨e, s₁⟩⟩
      · cases hunits
      · obtain ⟨rfl, -⟩ := List.cons.inj hbehind
        cases hunits
      · obtain ⟨rfl, hrest⟩ := List.cons.inj hbehind
        obtain ⟨rfl, -⟩ := List.cons.inj hrest
        rw [scanUnits_plain (by decide) (by decide), hline, if_neg (by decide)] at hunits
        cases hunits

/-! ### Indented encodings -/

theorem escapeAscii_append (u v : Str) :
  escapeAscii (u ++ v) = escapeAscii u ++ escapeAscii v
  := by
  rw [escapeAscii, List.flatMap_append, List.flatMap_append, escapeAscii, escapeAscii]

theorem escapeAscii_of_bare {w : Str} (hw : ∀ c ∈ w, Bare c) :
  escapeAscii w = w
  := by
  induction w with
  | nil => rfl
  | cons c w ih =>
    obtain ⟨hc, hw⟩ := List.forall_mem_cons.mp hw
    rw [escapeAscii_bare hc, ih hw]

theorem Fence.bare (hsep : Fence sep) :
  ∀ c ∈ sep, Bare c
  := by
  obtain ⟨w, rfl, hw⟩ := hsep
  exact List.forall_mem_cons.mpr ⟨by decide, hw⟩

/-- A fence in an escaped text is in the text. -/
theorem exists_of_escapeAscii (hsep : Fence sep) {p t : Str} (h : escapeAscii u = p ++ sep ++ t) :
  ∃ v x, u = v ++ sep ++ x
  := by
  obtain ⟨w, rfl, hw⟩ := hsep
  induction u generalizing p with
  | nil =>
    rw [List.append_assoc] at h
    have hnil := List.append_eq_nil_iff.mp h.symm
    simp at hnil
  | cons c u ih =>
    by_cases hc : Bare c
    · rw [escapeAscii_bare hc] at h
      cases p with
      | nil =>
        obtain ⟨rfl, hrest⟩ := List.cons.inj h
        have hquote : escapeAscii u ++ [34] = w ++ (t ++ [34]) := by
          rw [hrest]
          exact List.append_assoc ..
        obtain ⟨x, rfl, -⟩ := exists_escapeAscii_of_bare hw hquote
        exact ⟨[], x, rfl⟩
      | cons d p =>
        obtain ⟨rfl, hrest⟩ := List.cons.inj h
        obtain ⟨v, x, rfl⟩ := ih hrest
        exact ⟨c :: v, x, rfl⟩
    · obtain ⟨e, he, htick⟩ := escaped_of_not_bare hc
      rw [escapeAscii_cons, he, List.append_assoc] at h
      have hinside : ∀ q, escapeAscii u = q ++ (96 :: w) ++ t → ∃ v x, c :: u = v ++ 96 :: w ++ x := by
        intro q hq
        obtain ⟨v, x, rfl⟩ := ih hq
        exact ⟨c :: v, x, rfl⟩
      rcases List.append_eq_append_iff.mp h with ⟨q, -, hq⟩ | ⟨q, hescape, hq⟩
      · exact hinside q (by rw [hq, List.append_assoc])
      · cases q with
        | nil => exact hinside [] (by simpa using hq.symm)
        | cons d q =>
          obtain ⟨rfl, -⟩ := List.cons.inj hq
          have hmem : 96 ∈ 92 :: e := by
            rw [hescape]
            simp
          simp [htick] at hmem

theorem fence_infix_escapeAscii (hsep : Fence sep) :
  sep <:+: escapeAscii u ↔ sep <:+: u
  := by
  constructor
  · rintro ⟨p, t, heq⟩
    obtain ⟨v, x, rfl⟩ := exists_of_escapeAscii hsep heq.symm
    exact ⟨v, x, rfl⟩
  · rintro ⟨v, x, rfl⟩
    refine ⟨escapeAscii v, escapeAscii x, ?_⟩
    rw [escapeAscii_append, escapeAscii_append, escapeAscii_of_bare hsep.bare]

theorem backtick_notMem_newline (level : Nat) :
  96 ∉ newline level
  := by
  simp [newline]

theorem fenced_newline (hsep : Fence sep) (level : Nat) (h : Fenced sep s) :
  GoesOn (newline level ++ s) ∧ Fenced sep (newline level ++ s) ∧
    GoesOn (44 :: (newline level ++ s)) ∧ Fenced sep (44 :: (newline level ++ s))
  := by
  have hline := h.append hsep (backtick_notMem_newline level)
  exact ⟨⟨_, .inl rfl⟩, hline, ⟨_, .inr rfl⟩, hline.cons hsep (by decide)⟩

mutual

theorem fenced_layout (hsep : Fence sep) :
  ∀ {v : Json} (level : Nat), v.Flat → ∀ {after : Str}, GoesOn after → Fenced sep after →
    Fenced sep (v.layout escapeAscii level ++ after)
  | .null, _, _, after, _, h => h.append hsep (a := text "null") (by decide)
  | .bool true, _, _, after, _, h => h.append hsep (a := text "true") (by decide)
  | .bool false, _, _, after, _, h => h.append hsep (a := text "false") (by decide)
  | .str u, _, _, after, hafter, h => by
    have hstring := (h.string hsep hafter u).cons hsep (c := 34) (by decide)
    simpa [layout, render] using hstring
  | .arr [], _, _, after, _, h => h.append hsep (a := text "[]") (by decide)
  | .arr (x :: xs), level, hflat, after, hafter, h => by
    obtain ⟨hgoes, hend, -⟩ := fenced_newline hsep level (h.cons hsep (c := 93) (by decide))
    have hitems := fencedItems_layout hsep (x :: xs) (level + 1) (by simp) hflat hgoes hend
    obtain ⟨-, hstart, -⟩ := fenced_newline hsep (level + 1) hitems
    have harray := hstart.cons hsep (c := 91) (by decide)
    simpa [layout] using harray

theorem fencedItems_layout (hsep : Fence sep) :
  ∀ (items : List Json) (level : Nat), items ≠ [] → Flat.flatItems items → ∀ {after : Str},
    GoesOn after → Fenced sep after → Fenced sep (layout.layoutItems escapeAscii level items ++ after)
  | [], _, hempty, _, _, _, _ => absurd rfl hempty
  | [_], level, _, hflat, _, hafter, h => fenced_layout hsep level hflat.1 hafter h
  | x :: y :: ys, level, _, hflat, after, hafter, h => by
    have hrest := fencedItems_layout hsep (y :: ys) level (by simp) hflat.2 hafter h
    obtain ⟨-, -, hgoes, hcomma⟩ := fenced_newline hsep level hrest
    have hfirst := fenced_layout hsep level hflat.1 hgoes hcomma
    simpa [layout.layoutItems] using hfirst

end

/-- Behind a fence in the members of an object whose keys have no backticks the encoding goes on inside of
a string. -/
theorem fencedMembers_layout (hsep : Fence sep) (level : Nat) (hempty : d ≠ [])
    (hflat : FlatMembers d) (hkeys : ∀ p ∈ d, ∀ c ∈ p.1, Bare c ∧ c ≠ 96) (hafter : GoesOn after)
    (h : Fenced sep after) :
  Fenced sep (layout.layoutMembers escapeAscii level d ++ after)
  := by
  have hmember : ∀ (k : Str) (x : Json) (s : Str), (∀ c ∈ k, Bare c ∧ c ≠ 96) →
      Fenced sep (x.layout escapeAscii level ++ s) →
      Fenced sep (34 :: (escapeAscii k ++ 34 :: 58 :: 32 :: (x.layout escapeAscii level ++ s))) := by
    intro k x s hk hs
    have hvalue := ((hs.cons hsep (c := 32) (by decide)).cons hsep (c := 58) (by decide)).cons hsep (c := 34)
      (by decide)
    rw [escapeAscii_of_bare fun c hc => (hk c hc).1]
    exact (hvalue.append hsep fun hc => (hk 96 hc).2 rfl).cons hsep (by decide)
  induction d with
  | nil => exact absurd rfl hempty
  | cons p d ih =>
    obtain ⟨k, x⟩ := p
    have hx : x.Flat := hflat (k, x) (by simp)
    have hk := hkeys (k, x) (by simp)
    cases d with
    | nil =>
      have hlast := hmember k x after hk (fenced_layout hsep level hx hafter h)
      simpa [layout.layoutMembers] using hlast
    | cons q d =>
      obtain ⟨l, y⟩ := q
      have hrest := ih (by simp) (fun p hp => hflat p (List.mem_cons_of_mem _ hp))
        fun p hp => hkeys p (List.mem_cons_of_mem _ hp)
      obtain ⟨-, -, hgoes, hcomma⟩ := fenced_newline hsep level hrest
      have hfirst := hmember k x _ hk (fenced_layout hsep level hx hgoes hcomma)
      simpa [layout.layoutMembers] using hfirst

theorem fence_infix_append (hsep : Fence sep) (ha : 96 ∉ a) (s : Str) :
  sep <:+: a ++ s ↔ sep <:+: s
  := by
  constructor
  · induction a with
    | nil => exact id
    | cons c a ih =>
      rintro ⟨p, t, heq⟩
      obtain ⟨w, rfl, -⟩ := hsep
      cases p with
      | nil =>
        obtain ⟨rfl, -⟩ := List.cons.inj heq
        simp at ha
      | cons d p =>
        obtain ⟨-, hrest⟩ := List.cons.inj heq
        exact ih (fun hmem => ha (List.mem_cons_of_mem _ hmem)) ⟨p, t, hrest⟩
  · exact fun h => h.trans (List.suffix_append a s).isInfix

theorem fence_infix_cons (hsep : Fence sep) (hc : c ≠ 96) (s : Str) :
  sep <:+: c :: s ↔ sep <:+: s
  := fence_infix_append hsep (a := [c]) (by simpa using hc.symm) s

theorem fence_infix_newline (hsep : Fence sep) (level : Nat) (s : Str) :
  sep <:+: newline level ++ s ↔ sep <:+: s
  := fence_infix_append hsep (backtick_notMem_newline level) s

theorem fence_infix_string (hsep : Fence sep) (u s : Str) :
  sep <:+: 34 :: (escapeAscii u ++ 34 :: s) ↔ sep <:+: u ∨ sep <:+: s
  := by
  have hquote : 34 ∉ sep := fun hmem => absurd (hsep.bare 34 hmem) (by decide)
  rw [fence_infix_cons hsep (by decide), infix_iff_of_notMem hquote, fence_infix_escapeAscii hsep]

theorem fence_notInfix_word (hsep : Fence sep) (ha : 96 ∉ a) (s : Str) :
  ¬sep <:+: a ++ s ↔ True ∧ ¬sep <:+: s
  := by
  rw [fence_infix_append hsep ha, true_and]

mutual

/-- The encoding of a flat value has a fence exactly if one of its texts has it. -/
theorem fence_notInfix_layout (hsep : Fence sep) :
  ∀ {v : Json} (level : Nat), v.Flat → ∀ after,
    (¬sep <:+: v.layout escapeAscii level ++ after ↔
      (v.EveryText fun s => ¬sep <:+: s) ∧ ¬sep <:+: after)
  | .null, _, _, after => fence_notInfix_word hsep (a := text "null") (by decide) after
  | .bool true, _, _, after => fence_notInfix_word hsep (a := text "true") (by decide) after
  | .bool false, _, _, after => fence_notInfix_word hsep (a := text "false") (by decide) after
  | .str u, _, _, after => by
    have hstring := not_congr (fence_infix_string hsep u after)
    rw [not_or] at hstring
    simpa [layout, render, EveryText] using hstring
  | .arr [], _, _, after => fence_notInfix_word hsep (a := text "[]") (by decide) after
  | .arr (x :: xs), level, hflat, after => by
    have hitems := fence_notInfix_layoutItems hsep (x :: xs) (level + 1) (by simp) hflat
      (newline level ++ 93 :: after)
    rw [fence_infix_newline hsep level, fence_infix_cons hsep (by decide)] at hitems
    have harray : sep <:+: (Json.arr (x :: xs)).layout escapeAscii level ++ after ↔
        sep <:+: layout.layoutItems escapeAscii (level + 1) (x :: xs) ++ (newline level ++ 93 :: after) := by
      rw [layout, List.cons_append, fence_infix_cons hsep (by decide), List.append_assoc,
        fence_infix_newline hsep (level + 1)]
      simp
    rw [harray]
    exact hitems

theorem fence_notInfix_layoutItems (hsep : Fence sep) :
  ∀ (items : List Json) (level : Nat), items ≠ [] → Flat.flatItems items → ∀ after,
    (¬sep <:+: layout.layoutItems escapeAscii level items ++ after ↔
      EveryText.everyItem (fun s => ¬sep <:+: s) items ∧ ¬sep <:+: after)
  | [], _, hempty, _, _ => absurd rfl hempty
  | [_], level, _, hflat, after => by
    rw [layout.layoutItems, fence_notInfix_layout hsep level hflat.1 after]
    simp [EveryText.everyItem]
  | x :: y :: ys, level, _, hflat, after => by
    have hrest := fence_notInfix_layoutItems hsep (y :: ys) level (by simp) hflat.2 after
    have hfirst := fence_notInfix_layout hsep level hflat.1
      (44 :: (newline level ++ (layout.layoutItems escapeAscii level (y :: ys) ++ after)))
    rw [fence_infix_cons hsep (by decide), fence_infix_newline hsep level, hrest, ← and_assoc] at hfirst
    simpa [layout.layoutItems, EveryText.everyItem, and_assoc] using hfirst

end

/-- The encoding of the members of an object whose keys have no backticks has a fence exactly if one of
its texts has it. -/
theorem fence_notInfix_layoutMembers (hsep : Fence sep) (level : Nat) (hempty : d ≠ [])
    (hflat : FlatMembers d) (hkeys : ∀ p ∈ d, ∀ c ∈ p.1, Bare c ∧ c ≠ 96) (after : Str) :
  ¬sep <:+: layout.layoutMembers escapeAscii level d ++ after ↔
    (∀ p ∈ d, p.2.EveryText fun s => ¬sep <:+: s) ∧ ¬sep <:+: after
  := by
  have hmember : ∀ (k : Str) (s : Str), (∀ c ∈ k, Bare c ∧ c ≠ 96) →
      (sep <:+: 34 :: (escapeAscii k ++ 34 :: 58 :: 32 :: s) ↔ sep <:+: s) := by
    intro k s hk
    rw [escapeAscii_of_bare fun c hc => (hk c hc).1, fence_infix_cons hsep (by decide),
      fence_infix_append hsep fun hc => (hk 96 hc).2 rfl, fence_infix_cons hsep (by decide),
      fence_infix_cons hsep (by decide), fence_infix_cons hsep (by decide)]
  induction d with
  | nil => exact absurd rfl hempty
  | cons p d ih =>
    obtain ⟨k, x⟩ := p
    have hx : x.Flat := hflat (k, x) (by simp)
    have hk := hkeys (k, x) (by simp)
    cases d with
    | nil =>
      have hlast := (not_congr (hmember k _ hk)).trans (fence_notInfix_layout hsep level hx after)
      simpa [layout.layoutMembers] using hlast
    | cons q d =>
      obtain ⟨l, y⟩ := q
      have hrest : ¬sep <:+: layout.layoutMembers escapeAscii level ((l, y) :: d) ++ after ↔
          (∀ p ∈ (l, y) :: d, p.2.EveryText fun s => ¬sep <:+: s) ∧ ¬sep <:+: after :=
        ih (by simp) (fun p hp => hflat p (List.mem_cons_of_mem _ hp))
          fun p hp => hkeys p (List.mem_cons_of_mem _ hp)
      have hvalue := fence_notInfix_layout hsep level hx
        (44 :: (newline level ++ (layout.layoutMembers escapeAscii level ((l, y) :: d) ++ after)))
      rw [fence_infix_cons hsep (by decide), fence_infix_newline hsep level, hrest, ← and_assoc] at hvalue
      have hfirst := (not_congr (hmember k _ hk)).trans hvalue
      rw [List.forall_mem_cons]
      simpa only [layout.layoutMembers, List.cons_append, List.append_assoc] using hfirst

end Json
