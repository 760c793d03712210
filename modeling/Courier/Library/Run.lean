import Courier.Library.Checks
import Mathlib.Data.List.Basic
import Mathlib.Data.List.Induction

/-!
# Runs of a step that may refuse

A step takes a state and an event to the next state, or refuses the event.  A run is a list
of events none of which is refused.  An invariant that every accepted event preserves holds
at the end of a run if it holds at its start.
-/

namespace Run

variable {S E ε : Type}

/-- The events are accepted one after the other, from the first state to the second. -/
def Accepts (step : S → E → Except ε S) (s : S) (events : List E) (s' : S) : Prop :=
  events.foldlM step s = .ok s'

variable {step : S → E → Except ε S}

variable {s' : S}

@[simp]
theorem accepts_nil {s : S} :
  Accepts step s [] s' ↔ s' = s
  := by
  constructor
  · intro h
    cases h
    rfl
  · rintro rfl
    rfl

variable {e : E} {events : List E}

theorem accepts_cons {s : S} :
  Accepts step s (e :: events) s' ↔ ∃ t, step s e = .ok t ∧ Accepts step t events s'
  := by
  simp only [Accepts, List.foldlM_cons, Except.bind_eq_ok]

theorem accepts_append {s : S} {first second : List E} :
  Accepts step s (first ++ second) s' ↔
    ∃ t, Accepts step s first t ∧ Accepts step t second s'
  := by
  simp only [Accepts, List.foldlM_append, Except.bind_eq_ok]

theorem accepts_singleton {s : S} :
  Accepts step s [e] s' ↔ step s e = .ok s'
  := by
  simp [accepts_cons]

theorem accepts_concat {s : S} :
  Accepts step s (events ++ [e]) s' ↔ ∃ t, Accepts step s events t ∧ step t e = .ok s'
  := by
  simp [accepts_append, accepts_singleton]

theorem accepts_split {s : S} {before after : List E} :
  Accepts step s (before ++ e :: after) s' ↔
    ∃ t u, Accepts step s before t ∧ step t e = .ok u ∧ Accepts step u after s'
  := by
  constructor
  · intro h
    obtain ⟨t, ht, hrest⟩ := accepts_append.mp h
    obtain ⟨u, hu, hafter⟩ := accepts_cons.mp hrest
    exact ⟨t, u, ht, hu, hafter⟩
  · rintro ⟨t, u, ht, hu, hafter⟩
    apply accepts_append.mpr ⟨t, ht, _⟩
    apply accepts_cons.mpr ⟨u, hu, hafter⟩

theorem Accepts.unique {s t u : S} (ht : Accepts step s events t)
    (hu : Accepts step s events u) :
  t = u
  := by
  have h : Except.ok t = (Except.ok u : Except ε S) := ht.symm.trans hu
  cases h
  rfl

variable {I : S → Prop}

theorem Accepts.until {release : E → Prop}
    (hstep : ∀ s e s', I s → step s e = .ok s' → I s' ∨ release e) :
  ∀ {events : List E} {s s' : S}, I s → Accepts step s events s' →
    (∃ e ∈ events, release e) ∨ I s'
  | [], s, s', hs, h => by
    obtain rfl := accepts_nil.mp h
    exact .inr hs
  | e :: events, s, s', hs, h => by
    obtain ⟨t, ht, hrest⟩ := accepts_cons.mp h
    obtain hI | hrelease := hstep s e t hs ht
    · obtain ⟨e', he', hr⟩ | hI' := Accepts.until hstep hI hrest
      · exact .inl ⟨e', List.mem_cons_of_mem _ he', hr⟩
      · exact .inr hI'
    · exact .inl ⟨e, List.mem_cons_self, hrelease⟩

theorem Accepts.invariant {p : E → Prop}
    (hstep : ∀ s e s', I s → p e → step s e = .ok s' → I s') :
  ∀ {events : List E} {s s' : S}, I s → (∀ e ∈ events, p e) → Accepts step s events s' → I s'
  | [], s, s', hs, _, h => by
    obtain rfl := accepts_nil.mp h
    exact hs
  | e :: events, s, s', hs, hp, h => by
    obtain ⟨t, ht, hrest⟩ := accepts_cons.mp h
    have hI : I t := hstep s e t hs (hp e (by simp)) ht
    apply Accepts.invariant hstep hI (fun e he => hp e (List.mem_cons_of_mem _ he)) hrest

theorem Accepts.history {I : List E → S → Prop} {s : S}
    (hstep : ∀ before t e t', I before t → step t e = .ok t' → I (before ++ [e]) t')
    (hs : I [] s) (h : Accepts step s events s') :
  I events s'
  := by
  induction events using List.reverseRecOn generalizing s' with
  | nil =>
    obtain rfl := accepts_nil.mp h
    exact hs
  | append_singleton before e ih =>
    obtain ⟨t, ht, he⟩ := accepts_concat.mp h
    apply hstep before t e s' (ih ht) he

/-! ### Properties along a fold -/

theorem foldl_invariant {step : S → E → S} (hstep : ∀ s e, I s → I (step s e)) {s : S}
    (hs : I s) (events : List E) :
  I (events.foldl step s)
  := by
  induction events generalizing s with
  | nil => exact hs
  | cons e events ih => exact ih (hstep s e hs)

theorem forall_concat_prefix {p : List E → E → Prop} :
  (∀ first e, first ++ [e] <+: events → p first e) ↔
    ∀ i : Fin events.length, p (events.take i) (events.get i)
  := by
  constructor
  · intro h i
    apply h
    rw [List.get_eq_getElem, List.take_append_getElem i.isLt]
    exact List.take_prefix _ _
  · rintro h first e ⟨rest, rfl⟩
    have hlt : first.length < (first ++ [e] ++ rest).length := by simp
    simpa using h ⟨first.length, hlt⟩

theorem along_of {step : S → E → S} {p : S → E → Prop}
    (hstep : ∀ s e, I s → p s e → I (step s e)) {s : S} (hs : I s)
    (h : ∀ first e, first ++ [e] <+: events → p (first.foldl step s) e) :
  ∀ first, first <+: events → I (first.foldl step s)
  := by
  intro first
  induction first using List.reverseRecOn with
  | nil => exact fun _ => hs
  | append_singleton first e ih =>
    intro hinit
    rw [List.foldl_concat]
    exact hstep _ e (ih ((List.prefix_append first [e]).trans hinit)) (h first e hinit)

/-- A property that the steps along the events keep exactly if they do not break it holds all along them
exactly if none of them breaks it. -/
theorem along_iff_of {step : S → E → S} {I P : S → Prop} {p breaks : S → E → Prop}
    (hI : ∀ s e, I s → p s e → I (step s e))
    (hstep : ∀ s e, I s → p s e → P s → (P (step s e) ↔ ¬ breaks s e)) {s : S} (hs : I s) (hP : P s)
    {events : List E} (h : ∀ first e, first ++ [e] <+: events → p (first.foldl step s) e) :
  (∀ first, first <+: events → P (first.foldl step s)) ↔
    ∀ first e, first ++ [e] <+: events → ¬ breaks (first.foldl step s) e
  := by
  have hall := along_of hI hs h
  constructor
  · intro hkept first e hinit
    have hfirst : first <+: events := (List.prefix_append first [e]).trans hinit
    apply (hstep _ e (hall first hfirst) (h first e hinit) (hkept first hfirst)).mp
    have hnext := hkept _ hinit
    rwa [List.foldl_concat] at hnext
  · intro hnone first
    induction first using List.reverseRecOn with
    | nil => exact fun _ => hP
    | append_singleton first e ih =>
      intro hinit
      have hfirst : first <+: events := (List.prefix_append first [e]).trans hinit
      rw [List.foldl_concat]
      exact (hstep _ e (hall first hfirst) (h first e hinit) (ih hfirst)).mpr (hnone first e hinit)

theorem along_iff {step : S → E → S} {I P : S → Prop} {breaks : S → E → Prop}
    (hI : ∀ s e, I s → I (step s e))
    (hstep : ∀ s e, I s → P s → (P (step s e) ↔ ¬ breaks s e)) {s : S} (hs : I s) (hP : P s)
    (events : List E) :
  (∀ first, first <+: events → P (first.foldl step s)) ↔
    ∀ first e, first ++ [e] <+: events → ¬ breaks (first.foldl step s) e
  := along_iff_of (p := fun _ _ => True) (fun s e hs _ => hI s e hs) (fun s e hs _ hP => hstep s e hs hP)
    hs hP fun _ _ _ => trivial

/-- A property and what is true of each step hold all along the events exactly if none of them breaks it. -/
theorem along_steps_iff {step : S → E → S} {P : S → Prop} {T breaks : S → E → Prop}
    (hI : ∀ s e, I s → I (step s e))
    (hstep : ∀ s e, I s → P s → (T s e ∧ P (step s e) ↔ ¬ breaks s e)) {s : S} (hs : I s)
    (hP : P s) (events : List E) :
  (∀ first e, first ++ [e] <+: events →
      T (first.foldl step s) e ∧ P ((first ++ [e]).foldl step s)) ↔
    ∀ first e, first ++ [e] <+: events → ¬ breaks (first.foldl step s) e
  := by
  constructor
  · intro hall first e hinit
    have hnow : P (first.foldl step s) := by
      cases first using List.reverseRecOn with
      | nil => exact hP
      | append_singleton early f =>
        exact (hall early f ((List.prefix_append (early ++ [f]) [e]).trans hinit)).2
    apply (hstep _ e (foldl_invariant hI hs first) hnow).mp
    have hnext := hall first e hinit
    rwa [List.foldl_concat] at hnext
  · intro hnone first
    induction first using List.reverseRecOn with
    | nil =>
      intro e hinit
      exact (hstep s e hs hP).mpr (hnone [] e hinit)
    | append_singleton first f ih =>
      intro e hinit
      have hnow := (ih f ((List.prefix_append (first ++ [f]) [e]).trans hinit)).2
      rw [List.foldl_concat step s e (first ++ [f])]
      exact (hstep _ e (foldl_invariant hI hs _) hnow).mpr (hnone _ e hinit)

/-! ### Properties that are broken for good -/

/-- From one state to another, the property `P` is kept if the way is safe and broken otherwise, and what is
broken stays broken. -/
structure Tracks (P B : S → Prop) (s s' : S) (safe : Prop) : Prop where
  keeps : P s → safe → P s'
  breaks : P s → ¬ safe → B s'
  stays : B s → B s'

variable {P B : S → Prop} {s t u : S} {p q : Prop}

theorem Tracks.refl :
  Tracks P B s s True
  where
  keeps hP _ := hP
  breaks _ hnot := absurd trivial hnot
  stays hB := hB

theorem Tracks.congr (h : Tracks P B s t p) (hpq : p ↔ q) :
  Tracks P B s t q
  := by
  rwa [← propext hpq]

theorem Tracks.trans (hst : Tracks P B s t p) (htu : Tracks P B t u q) :
  Tracks P B s u (p ∧ q)
  where
  keeps hP hsafe := htu.keeps (hst.keeps hP hsafe.1) hsafe.2
  breaks hP hnot := by
    by_cases hp : p
    · exact htu.breaks (hst.keeps hP hp) fun hq => hnot ⟨hp, hq⟩
    · exact htu.stays (hst.breaks hP hp)
  stays hB := htu.stays (hst.stays hB)

def Along (step : S → E → S) (safe : S → E → Prop) (s : S) (events : List E) : Prop :=
  ∀ first e, first ++ [e] <+: events → safe (first.foldl step s) e

variable {safe : S → E → Prop}

theorem along_nil {step : S → E → S} {s : S} :
  Along step safe s []
  := by
  intro first e hinit
  simp at hinit

theorem along_cons {step : S → E → S} :
  Along step safe s (e :: events) ↔ safe s e ∧ Along step safe (step s e) events
  := by
  constructor
  · intro h
    refine ⟨h [] e (List.prefix_append [e] events), fun first f hinit => ?_⟩
    exact h (e :: first) f (List.cons_prefix_cons.mpr ⟨rfl, hinit⟩)
  · rintro ⟨he, hrest⟩ first f hinit
    cases first with
    | nil =>
      obtain ⟨rfl, -⟩ := List.cons_prefix_cons.mp hinit
      exact he
    | cons e' first =>
      obtain ⟨rfl, htail⟩ := List.cons_prefix_cons.mp hinit
      exact hrest first f htail

theorem Tracks.foldl {step : S → E → S}
    (hI : ∀ s e, I s → I (step s e)) (hstep : ∀ s e, I s → Tracks P B s (step s e) (safe s e))
    (hs : I s) (events : List E) :
  Tracks P B s (events.foldl step s) (Along step safe s events)
  := by
  induction events generalizing s with
  | nil =>
    refine Tracks.refl.congr ⟨fun _ first e hinit => ?_, fun _ => trivial⟩
    simp at hinit
  | cons e events ih => exact ((hstep s e hs).trans (ih (hI s e hs))).congr along_cons.symm

theorem Tracks.iff (h : Tracks P B s t p) (hP : P s) (hB : B t → ¬ P t) :
  P t ↔ p
  := by
  constructor
  · intro ht
    by_contra hnot
    exact hB (h.breaks hP hnot) ht
  · exact h.keeps hP

/-! ### Reachable states -/

/-- The states a system comes to: an initial one, or one that a move leads to. -/
inductive Reachable (initial : S → Prop) (move : S → S → Prop) : S → Prop
  | start {s : S} : initial s → Reachable initial move s
  | move {s t : S} : Reachable initial move s → move s t → Reachable initial move t

theorem Reachable.invariant {initial : S → Prop} {move : S → S → Prop} {s : S}
    (h : Reachable initial move s) (hinitial : ∀ s, initial s → I s)
    (hmove : ∀ s t, I s → move s t → I t) :
  I s
  := by
  induction h with
  | start hs => exact hinitial _ hs
  | move _ hst ih => exact hmove _ _ ih hst

end Run
