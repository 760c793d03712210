import Mathlib.Data.List.Chain
import Mathlib.Data.List.Nodup
import Mathlib.Logic.Relation

/-!
# Walks in the graph of a partial function

Every node leads to at most one next node, so that a walk either ends or comes onto a cycle, at its `Entry`.  When
walks start one after the other from nodes that no earlier walk came to, `Enters.exactlyOne_iff` says when a cycle is
entered once.
-/

namespace Orbit

variable {α : Type} {next : α → Option α}

/-- One node leads to another one. -/
def Leads (next : α → Option α) : α → α → Prop :=
  Relation.ReflTransGen fun a b => next a = some b

/-- The node leads back to itself. -/
def OnCycle (next : α → Option α) (c : α) : Prop :=
  Relation.TransGen (fun a b => next a = some b) c c

/-- The walk from a node comes onto a cycle at a member of it. -/
structure Entry (next : α → Option α) (a c : α) : Prop where
  leads : Leads next a c
  onCycle : OnCycle next c
  first : c = a ∨ ∃ p, Leads next a p ∧ next p = some c ∧ ¬ OnCycle next p

/-! ### Cycles -/

theorem Leads.refl (a : α) :
  Leads next a a
  := Relation.ReflTransGen.refl

variable {a b c : α}

theorem Leads.trans (hab : Leads next a b) (hbc : Leads next b c) :
  Leads next a c
  := Relation.ReflTransGen.trans hab hbc

theorem Leads.step (h : next a = some b) :
  Leads next a b
  := Relation.ReflTransGen.single h

theorem Leads.or (hb : Leads next a b) (hc : Leads next a c) :
  Leads next b c ∨ Leads next c b
  := by
  apply Relation.ReflTransGen.total_of_right_unique _ hb hc
  intro x y z hy hz
  exact Option.some.inj (hy.symm.trans hz)

variable {d : α}

theorem OnCycle.succ {e : α} (hc : OnCycle next c) (hd : Leads next d c) (he : next d = some e) :
  Leads next e c
  := by
  have hhead : ∀ {x y : α}, next x = some e → Relation.TransGen (fun a b => next a = some b) x y →
      Leads next e y := by
    intro x y hx hxy
    obtain ⟨z, hz, hzy⟩ := Relation.TransGen.head'_iff.mp hxy
    rw [hx] at hz
    cases hz
    exact hzy
  rcases Relation.reflTransGen_iff_eq_or_transGen.mp hd with rfl | htrans
  · exact hhead he hc
  · exact hhead he htrans

theorem OnCycle.back (hc : OnCycle next c) (h : Leads next c d) :
  Leads next d c
  := by
  induction h with
  | refl => exact .refl c
  | tail _ hstep ih => exact hc.succ ih hstep

theorem OnCycle.of_leads (hc : OnCycle next c) (h : Leads next c d) :
  OnCycle next d
  := ((Relation.TransGen.trans_right (hc.back h) hc).trans_left h)

theorem OnCycle.ne_none (hc : OnCycle next c) :
  next c ≠ none
  := by
  obtain ⟨d, hd, -⟩ := Relation.TransGen.head'_iff.mp hc
  rw [hd]
  exact Option.some_ne_none d

/-- A walk comes onto a cycle at one node only. -/
theorem Entry.unique (hc : Entry next a c) (hd : Entry next a d) :
  c = d
  := by
  have hstart : ∀ {x}, OnCycle next a → Entry next a x → x = a := by
    intro x ha hx
    rcases hx.first with rfl | ⟨p, hp, -, hnot⟩
    · rfl
    · exact absurd (ha.of_leads hp) hnot
  have hlast : ∀ {p q x y}, Leads next p q → next p = some x → OnCycle next x → next q = some y →
      ¬ OnCycle next q → x = y := by
    intro p q x y hpq hx hcycle hy hnot
    rcases Relation.ReflTransGen.cases_head hpq with rfl | ⟨z, hz, hzq⟩
    · exact Option.some.inj (hx.symm.trans hy)
    · rw [hx] at hz
      cases hz
      exact absurd (hcycle.of_leads hzq) hnot
  by_cases ha : OnCycle next a
  · rw [hstart ha hc, hstart ha hd]
  · rcases hc.first with rfl | ⟨p, hp, hpc, hpnot⟩
    · exact absurd hc.onCycle ha
    · rcases hd.first with rfl | ⟨q, hq, hqd, hqnot⟩
      · exact absurd hd.onCycle ha
      · rcases hp.or hq with hpq | hqp
        · exact hlast hpq hpc hc.onCycle hqd hqnot
        · exact (hlast hqp hqd hd.onCycle hpc hpnot).symm

/-! ### Walks as lists -/

/-- The nodes of a walk from a node, none of them twice. -/
structure Walk (next : α → Option α) (a : α) (path : List α) : Prop where
  head : path.head? = some a
  chain : path.IsChain fun x y => next x = some y
  nodup : path.Nodup

variable {path : List α}

theorem mem_of_isChain (h : path.IsChain fun x y => next x = some y) {x y : α} (hx : x ∈ path)
    (hy : next x = some y) :
  y ∈ path ∨ path.getLast? = some x
  := by
  obtain ⟨before, after, rfl⟩ := List.append_of_mem hx
  cases after with
  | nil => exact .inr (by simp)
  | cons z after =>
    have hchain := (List.isChain_append.mp h).2.1
    have hz := (List.isChain_cons_cons.mp hchain).1
    rw [hz] at hy
    cases hy
    exact .inl (by simp)

theorem Walk.mem_of_leads (h : Walk next a path)
    (hlast : ∀ x, path.getLast? = some x → ∀ y, next x = some y → y ∈ path) {x : α} (hx : Leads next a x) :
  x ∈ path
  := by
  induction hx with
  | refl => exact List.mem_of_mem_head? h.head
  | tail _ hstep ih =>
    rcases mem_of_isChain h.chain ih hstep with hmem | hend
    · exact hmem
    · exact hlast _ hend _ hstep

theorem Walk.leads (h : Walk next a path) :
  ∀ x ∈ path, Leads next a x
  := by
  obtain ⟨rest, rfl⟩ := List.head?_eq_some_iff.mp h.head
  have hall : ∀ {b : α} {rest : List α}, (b :: rest).IsChain (fun x y => next x = some y) →
      ∀ x ∈ b :: rest, Leads next b x := by
    intro b rest hchain
    induction rest generalizing b with
    | nil =>
      intro x hx
      rw [List.mem_singleton.mp hx]
      exact .refl b
    | cons c rest ih =>
      obtain ⟨hstep, hrest⟩ := List.isChain_cons_cons.mp hchain
      intro x hx
      rcases List.mem_cons.mp hx with rfl | hx
      · exact .refl x
      · exact (Leads.step hstep).trans (ih hrest x hx)
  exact hall h.chain

theorem Walk.not_onCycle {last : α} (h : Walk next a path) (hlast : path.getLast? = some last)
    (hend : next last = none) (hc : Leads next a c) :
  ¬ OnCycle next c
  := by
  intro hcycle
  have hlead := h.leads last (List.mem_of_mem_getLast? hlast)
  rcases hc.or hlead with hcl | hlc
  · exact (hcycle.of_leads hcl).ne_none hend
  · rcases Relation.ReflTransGen.cases_head hlc with rfl | ⟨d, hd, -⟩
    · exact hcycle.ne_none hend
    · rw [hend] at hd
      cases hd

/-- A walk comes onto a cycle at the node that its last node leads back to. -/
theorem Walk.entry {last : α} (h : Walk next a path) (hlast : path.getLast? = some last)
    (hback : next last = some c) (hc : c ∈ path) :
  Entry next a c
  := by
  obtain ⟨before, after, rfl⟩ := List.append_of_mem hc
  obtain ⟨-, hchain, hborder⟩ := List.isChain_append.mp h.chain
  have hlast' : (c :: after).getLast? = some last := by
    rw [← hlast, List.getLast?_append_of_ne_nil _ (List.cons_ne_nil _ _)]
  have hloop : Walk next c (c :: after) := ⟨rfl, hchain, (List.nodup_append.mp h.nodup).2.1⟩
  have hcycle : OnCycle next c :=
    Relation.TransGen.tail' (hloop.leads last (List.mem_of_mem_getLast? hlast')) hback
  refine ⟨h.leads c hc, hcycle, ?_⟩
  rcases List.eq_nil_or_concat' before with rfl | ⟨before, p, rfl⟩
  · exact .inl (Option.some.inj h.head)
  · have hp : p ∈ before ++ [p] ++ c :: after := by simp
    have hstep : next p = some c := hborder p (by simp) c rfl
    refine .inr ⟨p, h.leads p hp, hstep, fun hpcycle => ?_⟩
    have hback' : p ∈ c :: after := by
      apply hloop.mem_of_leads _ (hpcycle.back (.step hstep))
      intro x hx y hy
      rw [hlast'] at hx
      cases hx
      rw [hback] at hy
      cases hy
      exact List.mem_cons_self ..
    exact (List.nodup_append.mp h.nodup).2.2 p (by simp) p hback' rfl

/-! ### Walks one after the other -/

/-- Walks start from the nodes that no walk has come to before; the members at which they come onto cycles. -/
inductive Enters (next : α → Option α) : List α → List α → List α → Prop
  | nil {seen : List α} : Enters next seen [] []
  | seen {seen nodes entered : List α} {k a : α} : a ∈ seen → Leads next a k →
      Enters next (seen ++ [k]) nodes entered → Enters next seen (k :: nodes) entered
  | ends {seen nodes entered : List α} {k : α} : (∀ a ∈ seen, ¬ Leads next a k) →
      (∀ c, Leads next k c → ¬ OnCycle next c) → Enters next (seen ++ [k]) nodes entered →
      Enters next seen (k :: nodes) entered
  | enters {seen nodes entered : List α} {k c : α} : (∀ a ∈ seen, ¬ Leads next a k) → Entry next k c →
      Enters next (seen ++ [k]) nodes entered → Enters next seen (k :: nodes) (c :: entered)

variable {seen nodes entered : List α}

theorem Enters.entry (h : Enters next seen nodes entered) (hd : d ∈ entered) :
  ∃ before k after, nodes = before ++ k :: after ∧ (∀ a ∈ seen ++ before, ¬ Leads next a k) ∧ Entry next k d
  := by
  induction h with
  | nil => cases hd
  | @seen seen nodes entered k a _ _ _ ih | @ends seen nodes entered k _ _ _ ih =>
    obtain ⟨before, k', after, rfl, hnew, hentry⟩ := ih hd
    refine ⟨k :: before, k', after, rfl, ?_, hentry⟩
    rwa [List.append_cons]
  | @enters seen nodes entered k c hfirst hentry _ ih =>
    rcases List.mem_cons.mp hd with rfl | hd
    · exact ⟨[], k, nodes, rfl, by rwa [List.append_nil], hentry⟩
    · obtain ⟨before, k', after, rfl, hnew, hentry⟩ := ih hd
      refine ⟨k :: before, k', after, rfl, ?_, hentry⟩
      rwa [List.append_cons]

variable {k : α}

theorem Enters.mem {before after : List α} (h : Enters next seen (before ++ k :: after) entered)
    (hnew : ∀ a ∈ seen ++ before, ¬ Leads next a k) (hentry : Entry next k c) :
  c ∈ entered
  := by
  induction before generalizing seen entered with
  | nil =>
    rw [List.append_nil] at hnew
    cases h with
    | seen ha hak => exact absurd hak (hnew _ ha)
    | ends _ hends => exact absurd hentry.onCycle (hends c hentry.leads)
    | enters _ hentry' =>
      rw [hentry.unique hentry']
      exact List.mem_cons_self ..
  | cons b before ih =>
    rw [List.append_cons] at hnew
    cases h with
    | seen _ _ hrest => exact ih hrest hnew
    | ends _ _ hrest => exact ih hrest hnew
    | enters _ _ hrest => exact List.mem_cons_of_mem _ (ih hrest hnew)

theorem Enters.none (h : Enters next seen nodes entered) (hc : OnCycle next c)
    (hseen : ∀ k ∈ nodes, Leads next k c → ∃ a ∈ seen, Leads next a k) :
  ∀ d ∈ entered, ¬ Leads next c d
  := by
  intro d hd hcd
  obtain ⟨before, k, after, rfl, hnew, hentry⟩ := h.entry hd
  obtain ⟨a, ha, hak⟩ := hseen k (by simp) (hentry.leads.trans (hc.back hcd))
  exact hnew a (List.mem_append_left _ ha) hak

theorem Enters.some (h : Enters next seen nodes entered) (hc : OnCycle next c) (hk : k ∈ nodes)
    (hlead : Leads next k c) (hnew : ∀ a ∈ seen, ¬ Leads next a k) :
  ∃ d ∈ entered, Leads next c d
  := by
  have hrest : ∀ {seen nodes : List α} {l : α}, k ∈ l :: nodes → k ≠ l → (∀ a ∈ seen, ¬ Leads next a k) →
      ¬ Leads next l k → k ∈ nodes ∧ ∀ a ∈ seen ++ [l], ¬ Leads next a k := by
    intro seen nodes l hmem hne hnew hnot
    refine ⟨List.mem_of_ne_of_mem hne hmem, fun a ha => ?_⟩
    rcases List.mem_append.mp ha with ha | ha
    · exact hnew a ha
    · rwa [List.mem_singleton.mp ha]
  induction h with
  | nil => cases hk
  | @seen seen nodes entered l a ha hal _ ih =>
    have hnot : ¬ Leads next l k := fun hlk => hnew a ha (hal.trans hlk)
    obtain ⟨hk, hnew⟩ := hrest hk (fun heq => hnot (heq ▸ .refl k)) hnew hnot
    exact ih hk hnew
  | @ends seen nodes entered l _ hends _ ih =>
    have hnot : ¬ Leads next l k := fun hlk => hends c (hlk.trans hlead) hc
    obtain ⟨hk, hnew⟩ := hrest hk (fun heq => hnot (heq ▸ .refl k)) hnew hnot
    exact ih hk hnew
  | @enters seen nodes entered l d _ hentry _ ih =>
    by_cases hlk : Leads next l k
    · refine ⟨d, List.mem_cons_self .., ?_⟩
      rcases hentry.leads.or (hlk.trans hlead) with hdc | hcd
      · exact hentry.onCycle.back hdc
      · exact hcd
    · obtain ⟨hk, hnew⟩ := hrest hk (fun heq => hlk (heq ▸ .refl k)) hnew hlk
      obtain ⟨d', hd', hlead'⟩ := ih hk hnew
      exact ⟨d', List.mem_cons_of_mem _ hd', hlead'⟩

variable {p : α → Prop} {l : List α}

theorem exists_first (h : ∃ a ∈ l, p a) :
  ∃ before a after, l = before ++ a :: after ∧ p a ∧ ∀ b ∈ before, ¬ p b
  := by
  classical
  obtain ⟨a, ha, hp⟩ := h
  have hfound : (l.find? fun a => decide (p a)).isSome := by
    rw [List.find?_isSome]
    exact ⟨a, ha, decide_eq_true hp⟩
  obtain ⟨k, hk⟩ := Option.isSome_iff_exists.mp hfound
  obtain ⟨hpk, before, after, rfl, hnone⟩ := List.find?_eq_some_iff_append.mp hk
  exact ⟨before, k, after, rfl, of_decide_eq_true hpk, fun b hb => by simpa using hnone b hb⟩

def ExactlyOne (p : α → Prop) (l : List α) : Prop :=
  ∃ before d after, l = before ++ d :: after ∧ p d ∧ ∀ x ∈ before ++ after, ¬ p x

theorem exactlyOne_cons_of_pos (h : p d) :
  ExactlyOne p (d :: l) ↔ ∀ x ∈ l, ¬ p x
  := by
  constructor
  · rintro ⟨before, e, after, heq, he, hnone⟩
    cases before with
    | nil =>
      cases heq
      exact hnone
    | cons b before =>
      cases heq
      exact absurd h (hnone _ (by simp))
  · exact fun hnone => ⟨[], d, l, rfl, h, hnone⟩

theorem exactlyOne_cons_of_neg (h : ¬ p d) :
  ExactlyOne p (d :: l) ↔ ExactlyOne p l
  := by
  constructor
  · rintro ⟨before, e, after, heq, he, hnone⟩
    cases before with
    | nil =>
      cases heq
      exact absurd he h
    | cons b before =>
      cases heq
      exact ⟨before, e, after, rfl, he, fun x hx => hnone x (List.mem_cons_of_mem _ hx)⟩
  · rintro ⟨before, e, after, rfl, he, hnone⟩
    refine ⟨d :: before, e, after, rfl, he, fun x hx => ?_⟩
    rcases List.mem_cons.mp hx with rfl | hx
    · exact h
    · exact hnone x hx

/-- A cycle is entered exactly once if the first node that leads to it leads to all nodes that do. -/
theorem Enters.exactlyOne_iff {before after : List α} (hc : OnCycle next c)
    (h : Enters next seen (before ++ k :: after) entered) (hlead : Leads next k c)
    (hfirst : ∀ a ∈ seen ++ before, ¬ Leads next a c) :
  ExactlyOne (Leads next c) entered ↔ ∀ l ∈ after, Leads next l c → Leads next k l
  := by
  induction before generalizing seen entered with
  | nil =>
    rw [List.append_nil] at hfirst
    cases h with
    | seen ha hak => exact absurd (hak.trans hlead) (hfirst _ ha)
    | ends _ hends => exact absurd hc (hends c hlead)
    | @enters _ _ entered _ d _ hentry hrest =>
      have hcd : Leads next c d := by
        rcases hentry.leads.or hlead with hdc | hcd
        · exact hentry.onCycle.back hdc
        · exact hcd
      rw [exactlyOne_cons_of_pos hcd]
      constructor
      · intro hnone l hl hlc
        by_contra hkl
        have hnew : ∀ a ∈ seen ++ [k], ¬ Leads next a l := by
          intro a ha hal
          rcases List.mem_append.mp ha with ha | ha
          · exact hfirst a ha (hal.trans hlc)
          · exact hkl (List.mem_singleton.mp ha ▸ hal)
        obtain ⟨d', hd', hcd'⟩ := hrest.some hc hl hlc hnew
        exact hnone d' hd' hcd'
      · intro hall
        exact hrest.none hc fun l hl hlc => ⟨k, by simp, hall l hl hlc⟩
  | cons b before ih =>
    have hb : ¬ Leads next b c := hfirst b (by simp)
    have hfirst' : ∀ a ∈ seen ++ [b] ++ before, ¬ Leads next a c := by
      rwa [← List.append_cons]
    cases h with
    | seen _ _ hrest => exact ih hrest hfirst'
    | ends _ _ hrest => exact ih hrest hfirst'
    | enters _ hentry hrest =>
      have hnot : ∀ d, Entry next b d → ¬ Leads next c d :=
        fun d hentry hcd => hb (hentry.leads.trans (hc.back hcd))
      rw [exactlyOne_cons_of_neg (hnot _ hentry)]
      exact ih hrest hfirst'

end Orbit
