import Courier.Library.Escaped

/-!
# Texts that denote JSON

A text denotes a value if it has the tokens of the value in their order, with any white space between
them.  Whatever denotes a value is read as that value (`loads_of_denotes`).  The encoding with a space
behind commas and colons denotes the value with the surrogate pairs of its texts fused.
-/

namespace Json

open Text

/-! ### Encodings -/

/-- The literals of a value are floats, and its strings are texts of the language. -/
def Fit : Json → Prop
  | .float literal => isFloat literal = true
  | .str s => IsText s
  | .arr items => fitItems items
  | .obj d => fitMembers d
  | _ => True
where
  fitItems : List Json → Prop
    | [] => True
    | x :: xs => x.Fit ∧ fitItems xs
  fitMembers : Members → Prop
    | [] => True
    | (k, x) :: d => IsText k ∧ x.Fit ∧ fitMembers d

theorem fitItems_iff :
  ∀ {items : List Json}, Fit.fitItems items ↔ ∀ v ∈ items, v.Fit
  := by
  intro items
  induction items with
  | nil => simp [Fit.fitItems]
  | cons v items ih => simp [Fit.fitItems, ih]

theorem fitMembers_iff {d : Members} :
  Fit.fitMembers d ↔ ∀ p ∈ d, IsText p.1 ∧ p.2.Fit
  := by
  induction d with
  | nil => simp [Fit.fitMembers]
  | cons p d ih =>
    obtain ⟨k, x⟩ := p
    rw [Fit.fitMembers, ih, List.forall_mem_cons, and_assoc]

/-- What is read back of an ASCII encoding: the surrogate pairs of the strings are fused, and the members
of the objects are put in order. -/
def reread : Json → Json
  | .str s => .str (fuse s)
  | .arr items => .arr (rereadItems items)
  | .obj d => .obj (members (rereadMembers d))
  | v => v
where
  rereadItems : List Json → List Json
    | [] => []
    | x :: xs => x.reread :: rereadItems xs
  rereadMembers : Members → Members
    | [] => []
    | (k, x) :: d => (fuse k, x.reread) :: rereadMembers d

theorem rereadItems_eq_map :
  ∀ items : List Json, reread.rereadItems items = items.map reread
  := by
  intro items
  induction items with
  | nil => rfl
  | cons x xs ih => rw [reread.rereadItems, List.map_cons, ih]

theorem rereadMembers_eq_map :
  ∀ d : Members, reread.rereadMembers d = d.map fun p => (fuse p.1, p.2.reread)
  := by
  intro d
  induction d with
  | nil => rfl
  | cons p d ih => rw [reread.rereadMembers, List.map_cons, ih]

theorem denotesText_escapeAscii {s : Str} (h : IsText s) :
  DenotesText (escapeAscii s) (fuse s)
  := fun rest => scanString_quoteAscii h rest

theorem denotes_str {s : Str} (h : IsText s) :
  Denotes (34 :: (escapeAscii s ++ [34])) (.str (fuse s))
  := denotes_quoted (denotesText_escapeAscii h)

/-! ### Printed texts -/

theorem printable_leaf :
  ∀ {v : Json}, v.IsLeaf → v.wf = true → Bytes.Printable (v.render escapeAscii)
  | .null, _, _ => (by decide : ∀ c ∈ text "null", 32 ≤ c ∧ c < 127)
  | .bool true, _, _ => (by decide : ∀ c ∈ text "true", 32 ≤ c ∧ c < 127)
  | .bool false, _, _ => (by decide : ∀ c ∈ text "false", 32 ≤ c ∧ c < 127)
  | .int i, _, _ => by
    intro c hc
    rcases mem_decimal hc with rfl | hdigit
    · decide
    · simp only [isDigit, Bool.and_eq_true, decide_eq_true_eq] at hdigit
      omega
  | .float literal, _, h => fun c hc => bounds_of_isFloat h hc
  | .arr [], _, _ => (by decide : ∀ c ∈ text "[]", 32 ≤ c ∧ c < 127)
  | .obj [], _, _ => by
    simp [render, render.renderMembers, Bytes.Printable]

section Printed

variable {P : Nat → Prop} {a b g k t u : Str} {x : Json} {xs : List Json} {d : Members}

/-- White space, all characters of which have the property. -/
structure PrintedGap (P : Nat → Prop) (a : Str) : Prop where
  gap : Gap a
  printed : ∀ c ∈ a, P c

/-- The text denotes the value, and all its characters have the property. -/
structure Prints (P : Nat → Prop) (t : Str) (v : Json) : Prop where
  denotes : Denotes t v
  printed : ∀ c ∈ t, P c

structure PrintsItems (P : Nat → Prop) (t : Str) (xs : List Json) : Prop where
  denotes : DenotesItems t xs
  printed : ∀ c ∈ t, P c

structure PrintsMembers (P : Nat → Prop) (t : Str) (d : Members) : Prop where
  denotes : DenotesMembers t d
  printed : ∀ c ∈ t, P c

theorem printedGap_nil :
  PrintedGap P []
  := ⟨gap_nil, by simp⟩

variable (hP : ∀ c, 32 ≤ c ∧ c < 127 → P c)

include hP

theorem printedGap_blank :
  PrintedGap P [32]
  := ⟨gap_blank, List.forall_mem_singleton.mpr (hP 32 (by decide))⟩

theorem prints_leaf {v : Json} (h : v.IsLeaf) (hwf : v.wf = true) :
  Prints P (v.render escapeAscii) v
  := ⟨denotes_leaf h hwf _, fun c hc => hP c (printable_leaf h hwf c hc)⟩

theorem prints_str {s : Str} (h : IsText s) :
  Prints P (34 :: (escapeAscii s ++ [34])) (.str (fuse s))
  := by
  refine ⟨denotes_str h, ?_⟩
  simp only [List.forall_mem_cons, List.forall_mem_append]
  exact ⟨hP 34 (by decide), fun c hc => hP c (printable_escapeAscii h c hc), hP 34 (by decide), by simp⟩

theorem Prints.arr (ha : PrintedGap P a) (h : PrintsItems P t xs) :
  Prints P (91 :: (a ++ t)) (.arr xs)
  := by
  refine ⟨.arr ha.gap h.denotes, ?_⟩
  simp only [List.forall_mem_cons, List.forall_mem_append]
  exact ⟨hP 91 (by decide), ha.printed, h.printed⟩

theorem Prints.obj (ha : PrintedGap P a) (h : PrintsMembers P t d) :
  Prints P (123 :: (a ++ t)) (.obj (members d))
  := by
  refine ⟨.obj ha.gap h.denotes, ?_⟩
  simp only [List.forall_mem_cons, List.forall_mem_append]
  exact ⟨hP 123 (by decide), ha.printed, h.printed⟩

theorem PrintsItems.last (h : Prints P t x) (hb : PrintedGap P b) :
  PrintsItems P (t ++ (b ++ [93])) [x]
  := by
  refine ⟨.last h.denotes hb.gap, ?_⟩
  simp only [List.forall_mem_append, List.forall_mem_singleton]
  exact ⟨h.printed, hb.printed, hP 93 (by decide)⟩

theorem PrintsItems.more (h : Prints P t x) (ha : PrintedGap P a) (hrest : PrintsItems P u xs) :
  PrintsItems P (t ++ 44 :: (a ++ u)) (x :: xs)
  := by
  refine ⟨.more h.denotes ha.gap hrest.denotes, ?_⟩
  simp only [List.forall_mem_append, List.forall_mem_cons]
  exact ⟨h.printed, hP 44 (by decide), ha.printed, hrest.printed⟩

theorem PrintsMembers.last (hk : IsText k) (hg : PrintedGap P g) (h : Prints P t x) (hb : PrintedGap P b) :
  PrintsMembers P (34 :: (escapeAscii k ++ 34 :: 58 :: (g ++ (t ++ (b ++ [125]))))) [(fuse k, x)]
  := by
  refine ⟨.last (denotesText_escapeAscii hk) hg.gap h.denotes hb.gap, ?_⟩
  simp only [List.forall_mem_append, List.forall_mem_cons]
  exact ⟨hP 34 (by decide), fun c hc => hP c (printable_escapeAscii hk c hc), hP 34 (by decide), hP 58 (by decide),
    hg.printed, h.printed, hb.printed, hP 125 (by decide), by simp⟩

theorem PrintsMembers.more (hk : IsText k) (hg : PrintedGap P g) (h : Prints P t x) (ha : PrintedGap P a)
    (hrest : PrintsMembers P u d) :
  PrintsMembers P (34 :: (escapeAscii k ++ 34 :: 58 :: (g ++ (t ++ 44 :: (a ++ u))))) ((fuse k, x) :: d)
  := by
  refine ⟨.more (denotesText_escapeAscii hk) hg.gap h.denotes ha.gap hrest.denotes, ?_⟩
  simp only [List.forall_mem_append, List.forall_mem_cons]
  exact ⟨hP 34 (by decide), fun c hc => hP c (printable_escapeAscii hk c hc), hP 34 (by decide), hP 58 (by decide),
    hg.printed, h.printed, hP 44 (by decide), ha.printed, hrest.printed⟩

mutual

/-- The encoding with a space behind commas and colons denotes what is read back. -/
theorem prints_dumpsSpaced :
  ∀ {v : Json}, v.Fit → Prints P (v.dumpsSpaced.flatMap asciiPoint) v.reread
  | .null, _ => prints_leaf hP (v := .null) trivial rfl
  | .bool true, _ => prints_leaf hP (v := .bool true) trivial rfl
  | .bool false, _ => prints_leaf hP (v := .bool false) trivial rfl
  | .int i, _ => by
    have hascii : (dumpsSpaced (.int i)).flatMap asciiPoint = (Json.int i).render escapeAscii :=
      dumpsAscii_eq_render rfl
    rw [hascii]
    exact prints_leaf hP (v := .int i) trivial rfl
  | .float literal, h => by
    have hascii : (dumpsSpaced (.float literal)).flatMap asciiPoint =
        (Json.float literal).render escapeAscii := dumpsAscii_eq_render h
    rw [hascii]
    exact prints_leaf hP (v := .float literal) trivial h
  | .str s, h => by
    rw [dumpsSpaced, dumps, flatMap_quote]
    · exact prints_str hP h
    all_goals simp
  | .arr [], _ => prints_leaf hP (v := .arr []) trivial rfl
  | .obj [], _ => prints_leaf hP (v := .obj []) trivial rfl
  | .arr (x :: xs), h => by
    rw [dumpsSpaced, List.flatMap_cons, List.flatMap_append]
    exact .arr hP printedGap_nil (printsItems_dumpsSpaced (by simp) h)
  | .obj (p :: d), h => by
    rw [dumpsSpaced, List.flatMap_cons, List.flatMap_append]
    exact .obj hP printedGap_nil (printsMembers_dumpsSpaced (by simp) h)

theorem printsItems_dumpsSpaced :
  ∀ {items : List Json}, items ≠ [] → Fit.fitItems items →
    PrintsItems P ((dumpsSpaced.dumpsItems items).flatMap asciiPoint ++ [93]) (reread.rereadItems items)
  | [], hempty, _ => absurd rfl hempty
  | [_], _, h => .last hP (prints_dumpsSpaced h.1) printedGap_nil
  | x :: y :: ys, _, h => by
    rw [dumpsSpaced.dumpsItems, List.flatMap_append, List.append_assoc, reread.rereadItems]
    exact .more hP (a := [32]) (prints_dumpsSpaced h.1) (printedGap_blank hP)
      (printsItems_dumpsSpaced (by simp) h.2)

theorem printsMembers_dumpsSpaced :
  ∀ {d : Members}, d ≠ [] → Fit.fitMembers d →
    PrintsMembers P ((dumpsSpaced.dumpsMembers d).flatMap asciiPoint ++ [125]) (reread.rereadMembers d)
  | [], hempty, _ => absurd rfl hempty
  | [(k, x)], _, h => by
    rw [dumpsSpaced.dumpsMembers, List.flatMap_append, flatMap_quote, reread.rereadMembers]
    have hlast := PrintsMembers.last hP h.1 (printedGap_blank hP) (prints_dumpsSpaced h.2.1) printedGap_nil
    simpa [escapeAscii, asciiPoint, reread.rereadMembers] using hlast
  | (k, x) :: (l, y) :: d, _, h => by
    rw [dumpsSpaced.dumpsMembers, List.flatMap_append, flatMap_quote, reread.rereadMembers]
    have hmore := PrintsMembers.more hP h.1 (printedGap_blank hP) (prints_dumpsSpaced h.2.1)
      (printedGap_blank hP) (printsMembers_dumpsSpaced (by simp) h.2.2)
    simpa [escapeAscii, asciiPoint] using hmore

end

/-! ### The compact encoding -/

mutual

theorem prints_render :
  ∀ {v : Json}, v.Fit → Prints P (v.render escapeAscii) v.reread
  | .null, _ => prints_leaf hP (v := .null) trivial rfl
  | .bool b, _ => prints_leaf hP (v := .bool b) trivial rfl
  | .int i, _ => prints_leaf hP (v := .int i) trivial rfl
  | .float literal, h => prints_leaf hP (v := .float literal) trivial h
  | .str s, h => prints_str hP h
  | .arr [], _ => prints_leaf hP (v := .arr []) trivial rfl
  | .obj [], _ => prints_leaf hP (v := .obj []) trivial rfl
  | .arr (x :: xs), h => Prints.arr hP (a := []) printedGap_nil (printsItems_render (by simp) h)
  | .obj (p :: d), h => Prints.obj hP (a := []) printedGap_nil (printsMembers_render (by simp) h)

theorem printsItems_render :
  ∀ {items : List Json}, items ≠ [] → Fit.fitItems items →
    PrintsItems P (render.renderItems escapeAscii items ++ [93]) (reread.rereadItems items)
  | [], hempty, _ => absurd rfl hempty
  | [_], _, h => .last hP (prints_render h.1) printedGap_nil
  | x :: y :: ys, _, h => by
    rw [render.renderItems, List.append_assoc, List.cons_append, reread.rereadItems]
    exact PrintsItems.more hP (a := []) (prints_render h.1) printedGap_nil (printsItems_render (by simp) h.2)

theorem printsMembers_render :
  ∀ {d : Members}, d ≠ [] → Fit.fitMembers d →
    PrintsMembers P (render.renderMembers escapeAscii d ++ [125]) (reread.rereadMembers d)
  | [], hempty, _ => absurd rfl hempty
  | [(k, x)], _, h => by
    have hlast := PrintsMembers.last hP h.1 printedGap_nil (prints_render h.2.1) printedGap_nil
    simpa [render.renderMembers, reread.rereadMembers] using hlast
  | (k, x) :: (l, y) :: d, _, h => by
    have hmore := PrintsMembers.more hP h.1 printedGap_nil (prints_render h.2.1) printedGap_nil
      (printsMembers_render (by simp) h.2.2)
    rw [render.renderMembers, reread.rereadMembers]
    simpa using hmore

end

end Printed

variable {v : Json}

theorem loads_dumpsSpaced (h : v.Fit) :
  loads (v.dumpsSpaced.flatMap asciiPoint) = some v.reread
  := by
  have hloads := loads_of_denotes (prints_dumpsSpaced (P := fun _ => True) (by simp) h).denotes gap_nil gap_nil
  rwa [List.nil_append, List.append_nil] at hloads

theorem loads_render_reread (h : v.Fit) :
  loads (v.render escapeAscii) = some v.reread
  := by
  have hloads := loads_of_denotes (prints_render (P := fun _ => True) (by simp) h).denotes gap_nil gap_nil
  rwa [List.nil_append, List.append_nil] at hloads

theorem printable_dumpsSpaced (h : v.Fit) :
  Bytes.Printable (v.dumpsSpaced.flatMap asciiPoint)
  := (prints_dumpsSpaced (fun _ => id) h).printed

theorem printable_render (h : v.Fit) :
  Bytes.Printable (v.render escapeAscii)
  := (prints_render (fun _ => id) h).printed

/-! ### Objects of texts -/

variable {d : List (Str × Str)}

theorem wf_texts (hsorted : sortedKeys (texts d) = true) :
  (Json.obj (texts d)).wf = true
  := by
  have hmembers : ∀ e : List (Str × Str), wf.wfMembers (texts e) = true := by
    intro e
    induction e with
    | nil => rfl
    | cons p e ih => exact ih
  rw [wf, hsorted, hmembers, Bool.and_self]

theorem fitMembers_texts (h : ∀ q ∈ d, IsText q.1 ∧ IsText q.2) :
  Fit.fitMembers (texts d)
  := by
  apply fitMembers_iff.mpr
  intro p hp
  obtain ⟨q, hq, rfl⟩ := List.mem_map.mp hp
  exact h q hq

theorem loads_dumpsAscii (hsorted : sortedKeys (texts d) = true)
    (h : ∀ q ∈ d, IsText q.1 ∧ hasPair q.1 = false ∧ IsText q.2) :
  loads (dumpsAscii (.obj (texts d))) = some (.obj (texts (fuseAll d)))
  := by
  have hmembers : reread.rereadMembers (texts d) = texts (fuseAll d) := by
    rw [rereadMembers_eq_map, texts, texts, fuseAll, List.map_map, List.map_map]
    apply List.map_congr_left
    intro q hq
    simp only [Function.comp_apply, reread, fuse_eq_self (h q hq).2.1]
  have hfit : (Json.obj (texts d)).Fit := fitMembers_texts fun q hq => ⟨(h q hq).1, (h q hq).2.2⟩
  rw [dumpsAscii, dumpsAscii_eq_render (wf_texts hsorted), loads_render_reread hfit, reread, hmembers,
    members_eq_self (sortedKeys_fuseAll.trans hsorted)]

theorem printable_dumpsAscii (hsorted : sortedKeys (texts d) = true)
    (h : ∀ q ∈ d, IsText q.1 ∧ IsText q.2) :
  Bytes.Printable (dumpsAscii (.obj (texts d)))
  := by
  rw [dumpsAscii, dumpsAscii_eq_render (wf_texts hsorted)]
  exact printable_render (v := .obj (texts d)) (fitMembers_texts h)

/-! ### Encodings of what is read back -/

/-- The keys of the objects of a value have no surrogate pairs. -/
def PlainKeys : Json → Prop
  | .arr items => plainItems items
  | .obj d => plainMembers d
  | _ => True
where
  plainItems : List Json → Prop
    | [] => True
    | x :: xs => x.PlainKeys ∧ plainItems xs
  plainMembers : Members → Prop
    | [] => True
    | (k, x) :: d => hasPair k = false ∧ x.PlainKeys ∧ plainMembers d

theorem plainItems_iff :
  ∀ {items : List Json}, PlainKeys.plainItems items ↔ ∀ v ∈ items, v.PlainKeys
  := by
  intro items
  induction items with
  | nil => simp [PlainKeys.plainItems]
  | cons v items ih => simp [PlainKeys.plainItems, ih]

theorem keys_rereadMembers {d : Members} (h : PlainKeys.plainMembers d) :
  (reread.rereadMembers d).map Prod.fst = d.map Prod.fst
  := by
  induction d with
  | nil => rfl
  | cons p d ih =>
    obtain ⟨k, x⟩ := p
    rw [reread.rereadMembers, List.map_cons, List.map_cons, ih h.2.2, fuse_eq_self h.1]

theorem sortedKeys_congr :
  ∀ {d e : Members}, d.map Prod.fst = e.map Prod.fst → sortedKeys d = sortedKeys e
  | [], e, h => by
    rw [List.map_eq_nil_iff.mp h.symm]
  | p :: d, [], h => by
    cases h
  | [p], [q], _ => rfl
  | [p], q :: q' :: e, h => by
    simp at h
  | p :: p' :: d, [q], h => by
    simp at h
  | (k, x) :: (l, y) :: d, (k', x') :: (l', y') :: e, h => by
    simp only [List.map_cons, List.cons.injEq] at h
    obtain ⟨rfl, rfl, hrest⟩ := h
    have htail : sortedKeys ((l, y) :: d) = sortedKeys ((l, y') :: e) :=
      sortedKeys_congr (by simp only [List.map_cons, hrest])
    rw [sortedKeys, sortedKeys, htail]

mutual

theorem render_reread :
  ∀ {v : Json}, v.wf = true → v.PlainKeys → v.reread.render escapeAscii = v.render escapeAscii
  | .null, _, _ | .bool _, _, _ | .int _, _, _ | .float _, _, _ => rfl
  | .str s, _, _ => by rw [reread, render, render, escapeAscii_fuse]
  | .arr items, h, hkeys => by rw [reread, render, render, renderItems_reread h hkeys]
  | .obj d, h, hkeys => by
    simp only [wf, Bool.and_eq_true] at h
    have hsorted : sortedKeys (reread.rereadMembers d) = true := by
      rw [sortedKeys_congr (keys_rereadMembers hkeys), h.1]
    rw [reread, members_eq_self hsorted, render, render, renderMembers_reread h.2 hkeys]

theorem renderItems_reread :
  ∀ {items : List Json}, wf.wfItems items = true → PlainKeys.plainItems items →
    render.renderItems escapeAscii (reread.rereadItems items) = render.renderItems escapeAscii items
  | [], _, _ => rfl
  | [x], h, hkeys => by
    simp only [wf.wfItems, Bool.and_eq_true] at h
    simp only [reread.rereadItems, render.renderItems, render_reread h.1 hkeys.1]
  | x :: y :: ys, h, hkeys => by
    rw [wf.wfItems, Bool.and_eq_true] at h
    have hrest := renderItems_reread h.2 hkeys.2
    rw [reread.rereadItems] at hrest
    rw [reread.rereadItems, reread.rereadItems, render.renderItems, render.renderItems, hrest,
      render_reread h.1 hkeys.1]

theorem renderMembers_reread :
  ∀ {d : Members}, wf.wfMembers d = true → PlainKeys.plainMembers d →
    render.renderMembers escapeAscii (reread.rereadMembers d) = render.renderMembers escapeAscii d
  | [], _, _ => rfl
  | [(k, x)], h, hkeys => by
    simp only [wf.wfMembers, Bool.and_eq_true] at h
    simp only [reread.rereadMembers, render.renderMembers, render_reread h.1 hkeys.2.1, escapeAscii_fuse]
  | (k, x) :: (l, y) :: d, h, hkeys => by
    rw [wf.wfMembers, Bool.and_eq_true] at h
    have hrest := renderMembers_reread h.2 hkeys.2.2
    rw [reread.rereadMembers] at hrest
    rw [reread.rereadMembers, reread.rereadMembers, render.renderMembers, render.renderMembers, hrest,
      render_reread h.1 hkeys.2.1, escapeAscii_fuse]

end

theorem dumpsAscii_eq_iff {w : Json} (hv : v.wf = true) (hw : w.wf = true) (hfit : v.Fit)
    (hfit' : w.Fit)
    (hkeys : v.PlainKeys) (hkeys' : w.PlainKeys) :
  v.dumpsAscii = w.dumpsAscii ↔ v.reread = w.reread
  := by
  rw [dumpsAscii, dumpsAscii, dumpsAscii_eq_render hv, dumpsAscii_eq_render hw]
  constructor
  · intro heq
    have hread := loads_render_reread hfit
    rw [heq, loads_render_reread hfit'] at hread
    exact (Option.some.inj hread).symm
  · intro heq
    rw [← render_reread hv hkeys, heq, render_reread hw hkeys']

end Json
