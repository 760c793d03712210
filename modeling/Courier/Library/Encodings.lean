import Courier.Library.Escaped

/-!
# Texts that have an encoding

The compact encoding of a value has a UTF-8 encoding if all strings of the value have one.
-/

namespace Text

theorem encodable_append {s t : Str} :
  Encodable (s ++ t) ↔ Encodable s ∧ Encodable t
  := by
  simp only [Encodable, List.any_append, Bool.or_eq_false_iff]

theorem encodable_cons {c : Nat} {s : Str} :
  Encodable (c :: s) ↔ isSurrogate c = false ∧ Encodable s
  := by
  simp only [Encodable, List.any_cons, Bool.or_eq_false_iff]

theorem encodable_iff {s : Str} :
  Encodable s ↔ ∀ c ∈ s, isSurrogate c = false
  := by
  simp only [Encodable, List.any_eq_false, Bool.not_eq_true]

theorem encodable_of_lt {s : Str} (h : ∀ c ∈ s, c < 0xD800) :
  Encodable s
  := by
  apply encodable_iff.mpr
  intro c hc
  have hlt := h c hc
  simp only [isSurrogate, Bool.and_eq_false_iff, decide_eq_false_iff_not]
  omega

theorem encodable_decimal (i : Int) :
  Encodable (decimal i)
  := by
  apply encodable_of_lt
  intro c hc
  rcases mem_decimal hc with rfl | hdigit
  · omega
  · simp only [isDigit, Bool.and_eq_true, decide_eq_true_eq] at hdigit
    omega

end Text

namespace Json

open Text

theorem encodable_escape {c : Nat} (h : isSurrogate c = false) :
  Encodable (escape c)
  := by
  have hhex : ∀ n, n < 16 → isSurrogate (hexDigit n) = false := by decide
  unfold escape
  repeat' split
  all_goals first
    | rfl
    | (simp only [encodable_cons, hhex (c / 16) (by omega), hhex (c % 16) (by omega)]; decide)
    | (simp only [encodable_cons, h]; decide)

theorem encodable_quote {s : Str} (h : Encodable s) :
  Encodable (quote s)
  := by
  rw [quote, encodable_cons, encodable_append]
  refine ⟨by decide, ?_, by decide⟩
  apply encodable_iff.mpr
  intro c hc
  obtain ⟨d, hd, hc⟩ := List.mem_flatMap.mp hc
  exact encodable_iff.mp (encodable_escape (encodable_iff.mp h d hd)) c hc

mutual

theorem encodable_dumps :
  ∀ {v : Json}, v.wf = true → v.EveryText Encodable → Encodable v.dumps
  | .null, _, _ | .bool true, _, _ | .bool false, _, _ => by decide
  | .int i, _, _ => encodable_decimal i
  | .float literal, h, _ => encodable_of_lt fun c hc => by
    have hbounds := bounds_of_isFloat h hc
    omega
  | .str s, _, h => encodable_quote h
  | .arr items, hwf, h => by
    rw [dumps, encodable_cons, encodable_append]
    exact ⟨by decide, encodable_dumpsItems hwf h, by decide⟩
  | .obj d, hwf, h => by
    simp only [wf, Bool.and_eq_true] at hwf
    rw [dumps, encodable_cons, encodable_append]
    exact ⟨by decide, encodable_dumpsMembers hwf.2 h, by decide⟩

theorem encodable_dumpsItems :
  ∀ {items : List Json}, wf.wfItems items = true → EveryText.everyItem Encodable items →
    Encodable (dumps.dumpsItems items)
  | [], _, _ => by decide
  | [x], hwf, h => by
    rw [wf.wfItems, Bool.and_eq_true] at hwf
    exact encodable_dumps hwf.1 h.1
  | x :: y :: xs, hwf, h => by
    rw [wf.wfItems, Bool.and_eq_true] at hwf
    rw [dumps.dumpsItems, encodable_append, encodable_cons]
    exact ⟨encodable_dumps hwf.1 h.1, by decide, encodable_dumpsItems hwf.2 h.2⟩

theorem encodable_dumpsMembers :
  ∀ {d : Members}, wf.wfMembers d = true → EveryText.everyMember Encodable d →
    Encodable (dumps.dumpsMembers d)
  | [], _, _ => by decide
  | [(k, x)], hwf, h => by
    rw [wf.wfMembers, Bool.and_eq_true] at hwf
    rw [dumps.dumpsMembers, encodable_append, encodable_cons]
    exact ⟨encodable_quote h.1, by decide, encodable_dumps hwf.1 h.2.1⟩
  | (k, x) :: (l, y) :: d, hwf, h => by
    rw [wf.wfMembers, Bool.and_eq_true] at hwf
    rw [dumps.dumpsMembers, encodable_append, encodable_cons, encodable_append, encodable_cons]
    exact ⟨encodable_quote h.1, by decide, encodable_dumps hwf.1 h.2.1, by decide,
      encodable_dumpsMembers hwf.2 h.2.2⟩

end

end Json
