import Courier.Library.Denoted
import Courier.Library.Loaded

/-!
# The indented encoding of JSON

`dumpsIndented` is the encoding with every item and every member on a line of its own, indented by two
spaces for every level.  What is read back of a well-formed value whose texts have no surrogate pairs is
the value (`loads_dumpsIndented`).
-/

namespace Json

open Text

/-- A new line at a level. -/
def newline (level : Nat) : Str :=
  10 :: List.replicate (2 * level) 32

/-- The indented encoding of a value at a level, whose strings are encoded by `q`. -/
def layout (q : Str → Str) (level : Nat) : Json → Str
  | .arr (x :: xs) =>
      91 :: (newline (level + 1) ++ (layoutItems (level + 1) (x :: xs) ++ (newline level ++ [93])))
  | .obj (p :: d) =>
      123 :: (newline (level + 1) ++ (layoutMembers (level + 1) (p :: d) ++ (newline level ++ [125])))
  | v => v.render q
where
  layoutItems (level : Nat) : List Json → Str
    | [] => []
    | [x] => x.layout q level
    | x :: y :: xs => x.layout q level ++ 44 :: (newline level ++ layoutItems level (y :: xs))
  layoutMembers (level : Nat) : Members → Str
    | [] => []
    | [(k, x)] => 34 :: (q k ++ 34 :: 58 :: 32 :: x.layout q level)
    | (k, x) :: (l, y) :: xs =>
        34 :: (q k ++ 34 :: 58 :: 32 ::
          (x.layout q level ++ 44 :: (newline level ++ layoutMembers level ((l, y) :: xs))))

/-- `json.dumps(value, indent=2)`. -/
def dumpsIndented (v : Json) : Str :=
  v.layout escapeAscii 0

/-! ### Reading -/

theorem gap_newline (level : Nat) :
  Gap (newline level)
  := by
  intro c hc
  rcases List.mem_cons.mp hc with rfl | hc
  · rfl
  · rw [List.eq_of_mem_replicate hc]
    rfl

section Printed

variable {P : Nat → Prop} (hP : ∀ c, 32 ≤ c ∧ c < 127 → P c) (hline : P 10)

include hP hline

theorem printedGap_newline (level : Nat) :
  PrintedGap P (newline level)
  := by
  refine ⟨gap_newline level, ?_⟩
  intro c hc
  rcases List.mem_cons.mp hc with rfl | hc
  · exact hline
  · rw [List.eq_of_mem_replicate hc]
    exact hP 32 (by decide)

mutual

theorem prints_layout :
  ∀ {v : Json} (level : Nat), v.Fit → Prints P (v.layout escapeAscii level) v.reread
  | .null, _, _ => prints_leaf hP (v := .null) trivial rfl
  | .bool b, _, _ => prints_leaf hP (v := .bool b) trivial rfl
  | .int i, _, _ => prints_leaf hP (v := .int i) trivial rfl
  | .float literal, _, h => prints_leaf hP (v := .float literal) trivial h
  | .str s, _, h => prints_str hP h
  | .arr [], _, _ => prints_leaf hP (v := .arr []) trivial rfl
  | .obj [], _, _ => prints_leaf hP (v := .obj []) trivial rfl
  | .arr (x :: xs), level, h =>
    .arr hP (printedGap_newline hP hline (level + 1)) (printsItems_layout (level + 1) level (by simp) h)
  | .obj (p :: d), level, h =>
    .obj hP (printedGap_newline hP hline (level + 1)) (printsMembers_layout (level + 1) level (by simp) h)

theorem printsItems_layout :
  ∀ {items : List Json} (level outer : Nat), items ≠ [] → Fit.fitItems items →
    PrintsItems P (layout.layoutItems escapeAscii level items ++ (newline outer ++ [93]))
      (reread.rereadItems items)
  | [], _, _, hempty, _ => absurd rfl hempty
  | [_], level, outer, _, h => .last hP (prints_layout level h.1) (printedGap_newline hP hline outer)
  | x :: y :: ys, level, outer, _, h => by
    rw [layout.layoutItems, List.append_assoc, List.cons_append, List.append_assoc,
      reread.rereadItems]
    exact .more hP (prints_layout level h.1) (printedGap_newline hP hline level)
      (printsItems_layout level outer (by simp) h.2)

theorem printsMembers_layout :
  ∀ {d : Members} (level outer : Nat), d ≠ [] → Fit.fitMembers d →
    PrintsMembers P (layout.layoutMembers escapeAscii level d ++ (newline outer ++ [125]))
      (reread.rereadMembers d)
  | [], _, _, hempty, _ => absurd rfl hempty
  | [(k, x)], level, outer, _, h => by
    have hlast := PrintsMembers.last hP h.1 (printedGap_blank hP) (prints_layout level h.2.1)
      (printedGap_newline hP hline outer)
    simpa [layout.layoutMembers, reread.rereadMembers] using hlast
  | (k, x) :: (l, y) :: d, level, outer, _, h => by
    have hmore := PrintsMembers.more hP h.1 (printedGap_blank hP) (prints_layout level h.2.1)
      (printedGap_newline hP hline level) (printsMembers_layout level outer (by simp) h.2.2)
    rw [layout.layoutMembers, reread.rereadMembers]
    simpa using hmore

end

end Printed

/-- The indented encoding is ASCII, and denotes what is read back. -/
theorem prints_dumpsIndented {v : Json} (h : v.Fit) :
  Prints (· < 127) v.dumpsIndented v.reread
  := prints_layout (fun _ hc => hc.2) (by decide) 0 h

theorem loads_dumpsIndented_reread {v : Json} (h : v.Fit) :
  loads v.dumpsIndented = some v.reread
  := by
  have hloads := loads_of_denotes (prints_dumpsIndented h).denotes gap_nil gap_nil
  rwa [List.nil_append, List.append_nil] at hloads

mutual

theorem fit_of_good :
  ∀ {v : Json}, v.wf = true → v.EveryText PlainText → v.Fit ∧ v.reread = v
  | .null, _, _ | .bool _, _, _ | .int _, _, _ => ⟨trivial, rfl⟩
  | .float _, h, _ => ⟨h, rfl⟩
  | .str s, _, hp => ⟨hp.1, by rw [reread, fuse_eq_self hp.2]⟩
  | .arr items, h, hp => by
    obtain ⟨hfit, hsame⟩ := fitItems_of_good h hp
    exact ⟨hfit, by rw [reread, hsame]⟩
  | .obj d, h, hp => by
    simp only [wf, Bool.and_eq_true] at h
    obtain ⟨hfit, hsame⟩ := fitMembers_of_good h.2 hp
    exact ⟨hfit, by rw [reread, hsame, members_eq_self h.1]⟩

theorem fitItems_of_good :
  ∀ {items : List Json}, wf.wfItems items = true → EveryText.everyItem PlainText items →
    Fit.fitItems items ∧ reread.rereadItems items = items
  | [], _, _ => ⟨trivial, rfl⟩
  | x :: xs, h, hp => by
    simp only [wf.wfItems, Bool.and_eq_true] at h
    obtain ⟨hx, hsame⟩ := fit_of_good h.1 hp.1
    obtain ⟨hxs, hrest⟩ := fitItems_of_good h.2 hp.2
    exact ⟨⟨hx, hxs⟩, by rw [reread.rereadItems, hsame, hrest]⟩

theorem fitMembers_of_good :
  ∀ {d : Members}, wf.wfMembers d = true → EveryText.everyMember PlainText d →
    Fit.fitMembers d ∧ reread.rereadMembers d = d
  | [], _, _ => ⟨trivial, rfl⟩
  | (k, x) :: d, h, hp => by
    simp only [wf.wfMembers, Bool.and_eq_true] at h
    obtain ⟨hx, hsame⟩ := fit_of_good h.1 hp.2.1
    obtain ⟨hd, hrest⟩ := fitMembers_of_good h.2 hp.2.2
    exact ⟨⟨hp.1.1, hx, hd⟩, by rw [reread.rereadMembers, hsame, hrest, fuse_eq_self hp.1.2]⟩

end

theorem loads_dumpsIndented {v : Json} (h : Good v) :
  loads v.dumpsIndented = some v
  := by
  obtain ⟨hfit, hsame⟩ := fit_of_good h.1 h.2
  rw [loads_dumpsIndented_reread hfit, hsame]

/-- A member whose key is ASCII is read back. -/
theorem get_reread {d : Members} {k : Str} (hk : ∀ c ∈ k, c < 128) (hd : sortedKeys d = true) :
  get (members (reread.rereadMembers d)) k = (get d k).reread
  := by
  have hsame : ∀ l, fuse l = k ↔ l = k := by
    intro l
    constructor
    · rintro rfl
      exact (fuse_eq_self_of_lt fun c hc => (hk c hc).trans (by decide)).symm
    · rintro rfl
      exact fuse_eq_self (hasPair_of_lt fun c hc => (hk c hc).trans (by decide))
  have hnodup := nodup_of_sortedKeys hd
  clear hd
  have hlookup : (members (reread.rereadMembers d)).lookup k = (d.lookup k).map reread := by
    rw [rereadMembers_eq_map]
    induction d using List.reverseRecOn with
    | nil => rfl
    | append_singleton d p ih =>
      rw [List.map_append, List.nodup_append] at hnodup
      rw [List.map_append, members, List.foldl_append, ← members, List.map_singleton, List.foldl_cons, List.foldl_nil,
        lookup_insertMember, ih hnodup.1, List.lookup_append]
      by_cases hkey : k = p.1
      · have hnone : d.lookup k = none := by
          rw [List.lookup_eq_none_iff]
          intro q hq
          simp
          rintro rfl
          exact hnodup.2.2 q.1 (List.mem_map_of_mem hq) p.1 (by simp) hkey
        rw [if_pos ((hsame p.1).mpr hkey.symm).symm, hnone]
        obtain ⟨l, v⟩ := p
        simp [hkey]
      · rw [if_neg fun hfuse => hkey ((hsame p.1).mp hfuse.symm).symm]
        have hne : (k == p.1) = false := by simp [hkey]
        obtain ⟨l, v⟩ := p
        simp [List.lookup_cons, hne]
  rw [get, get, hlookup]
  cases d.lookup k with
  | none => rfl
  | some v => rfl

theorem decode_dumpsIndented {v : Json} (h : v.Fit) (rest : Str) (hrest : ∀ c ∈ rest, c < 128) :
  (Bytes.ofAscii (v.dumpsIndented ++ rest)).decode = some (v.dumpsIndented ++ rest)
  := by
  apply Bytes.decode_ofAscii
  intro c hc
  obtain hc | hc := List.mem_append.mp hc
  · exact ((prints_dumpsIndented h).printed c hc).trans (by decide)
  · exact hrest c hc

theorem loads_decode_dumpsIndented {v : Json} (h : Good v) :
  (Bytes.ofAscii v.dumpsIndented).decode.bind loads = some v
  := by
  have hdecode := decode_dumpsIndented (fit_of_good h.1 h.2).1 [] (by simp)
  rw [List.append_nil] at hdecode
  rw [hdecode, Option.bind_some, loads_dumpsIndented h]

end Json
