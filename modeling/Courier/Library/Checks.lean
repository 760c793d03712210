import Mathlib.Data.List.Basic
import Mathlib.Data.List.Forall2

/-!
# Sequences of checks

A check either passes or raises.  What a sequence of checks establishes when none of them
raises is the conjunction of what each establishes.
-/

namespace Except

variable {ε α β : Type}

/-- Raise `e` unless `p`. -/
def check (p : Prop) [Decidable p] (e : ε) : Except ε Unit :=
  if p then .ok () else .error e

/-- Perform a check for each element of a list, in order. -/
def checkAll (f : α → Except ε Unit) : List α → Except ε Unit
  | [] => .ok ()
  | a :: l => f a >>= fun _ => checkAll f l

/-- Perform a check if `c`. -/
def checkWhen (c : Bool) (x : Except ε Unit) : Except ε Unit :=
  if c then x else .ok ()

/-- Perform a check of the value, if there is one. -/
def checkSome (f : α → Except ε Unit) : Option α → Except ε Unit
  | none => .ok ()
  | some a => f a

variable {u : Unit}

@[simp]
theorem checkWhen_eq_ok {c : Bool} {x : Except ε Unit} :
  checkWhen c x = .ok u ↔ (c = true → x = .ok ())
  := by
  cases c <;> simp [checkWhen]

@[simp]
theorem checkSome_eq_ok {f : α → Except ε Unit} {o : Option α} :
  checkSome f o = .ok u ↔ ∀ a, o = some a → f a = .ok ()
  := by
  cases o <;> simp [checkSome]

variable {e : ε}

@[simp]
theorem check_eq_ok {p : Prop} [Decidable p] :
  check p e = .ok u ↔ p
  := by
  by_cases h : p
  · simp [check, h]
  · simp [check, h]

theorem check_of {p : Prop} [Decidable p] (h : p) :
  check p e = .ok ()
  := check_eq_ok.mpr h

variable {x : Except ε α} {f : α → Except ε β} {b : β}

@[simp]
theorem bind_eq_ok :
  (x >>= f) = .ok b ↔ ∃ a, x = .ok a ∧ f a = .ok b
  := by
  cases x with
  | error e =>
    constructor
    · intro h
      cases h
    · rintro ⟨a, h, -⟩
      cases h
  | ok a =>
    constructor
    · intro h
      exact ⟨a, rfl, h⟩
    · rintro ⟨a', h, hb⟩
      cases h
      exact hb

@[simp]
theorem ok_bind (a : α) (f : α → Except ε β) :
  (Except.ok a >>= f) = f a
  := rfl

@[simp]
theorem error_bind (e : ε) (f : α → Except ε β) :
  (Except.error e >>= f) = .error e
  := rfl

@[simp]
theorem bind_unit_eq_ok {x : Except ε Unit} {y : Except ε β} :
  (x >>= fun _ => y) = .ok b ↔ x = .ok () ∧ y = .ok b
  := by
  rw [bind_eq_ok]
  constructor
  · rintro ⟨⟨⟩, h⟩
    exact h
  · intro h
    exact ⟨(), h⟩

@[simp]
theorem map_eq_ok {f : α → β} :
  (f <$> x) = .ok b ↔ ∃ a, x = .ok a ∧ f a = b
  := by
  cases x with
  | error e =>
    constructor
    · intro h
      cases h
    · rintro ⟨a, h, -⟩
      cases h
  | ok a =>
    constructor
    · intro h
      cases h
      exact ⟨a, rfl, rfl⟩
    · rintro ⟨a', h, hb⟩
      cases h
      rw [← hb]
      rfl

@[simp]
theorem checkAll_eq_ok {f : α → Except ε Unit} {u : Unit} :
  ∀ {l : List α}, checkAll f l = .ok u ↔ ∀ a ∈ l, f a = .ok ()
  | [] => by simp [checkAll]
  | a :: l => by
    simp only [checkAll, bind_eq_ok, List.mem_cons, forall_eq_or_imp]
    rw [checkAll_eq_ok]
    constructor
    · rintro ⟨⟨⟩, ha, hl⟩
      exact ⟨ha, hl⟩
    · rintro ⟨ha, hl⟩
      exact ⟨(), ha, hl⟩

theorem mapM_eq_ok {f : α → Except ε β} :
  ∀ {l : List α} {bs : List β},
    l.mapM f = .ok bs ↔ List.Forall₂ (fun a b => f a = .ok b) l bs
  | [], bs => by
    rw [List.mapM_nil, List.forall₂_nil_left_iff]
    constructor
    · rintro ⟨⟩
      rfl
    · rintro rfl
      rfl
  | a :: l, bs => by
    simp only [List.mapM_cons, bind_eq_ok, List.forall₂_cons_left_iff]
    constructor
    · rintro ⟨b, hb, bs', hbs, ⟨⟩⟩
      exact ⟨b, bs', hb, mapM_eq_ok.mp hbs, rfl⟩
    · rintro ⟨b, bs', hb, hbs, rfl⟩
      exact ⟨b, hb, bs', mapM_eq_ok.mpr hbs, rfl⟩

variable {l : List α}

theorem mem_mapM_iff {bs : List β} (h : l.mapM f = .ok bs) (b : β) :
  b ∈ bs ↔ ∃ a ∈ l, f a = .ok b
  := by
  have hall := mapM_eq_ok.mp h
  clear h
  induction hall with
  | nil => simp
  | @cons a c l bs hac _ ih =>
    rw [List.mem_cons]
    refine (or_congr_right ih).trans ?_
    simp [hac, eq_comm]

theorem mem_of_mapM_eq_ok {bs : List β}
    (h : l.mapM f = .ok bs) (hb : b ∈ bs) :
  ∃ a ∈ l, f a = .ok b
  := (mem_mapM_iff h b).mp hb

theorem exists_mapM_iff :
  (∃ bs, l.mapM f = .ok bs) ↔ ∀ a ∈ l, ∃ b, f a = .ok b
  := by
  simp only [mapM_eq_ok]
  induction l with
  | nil => simp
  | cons a l ih =>
    rw [List.forall_mem_cons, ← ih]
    constructor
    · rintro ⟨_, _ | ⟨hb, hbs⟩⟩
      exact ⟨⟨_, hb⟩, _, hbs⟩
    · rintro ⟨⟨b, hb⟩, bs, hbs⟩
      exact ⟨b :: bs, .cons hb hbs⟩

instance decidableOk {x : Except ε α} : Decidable (∃ a, x = .ok a) :=
  match x with
  | .ok a => isTrue ⟨a, rfl⟩
  | .error _ => isFalse (by rintro ⟨a, ⟨⟩⟩)

/-! ### What is raised -/

/-- Whatever the computation raises has the property. -/
def Throws (p : ε → Prop) (x : Except ε α) : Prop :=
  ∀ e, x = .error e → p e

variable {p : ε → Prop}

@[simp]
theorem throws_ok (a : α) :
  Throws p (.ok a)
  := by
  rintro e ⟨⟩

@[simp]
theorem throws_pure (a : α) :
  Throws p (pure a : Except ε α)
  := throws_ok a

@[simp]
theorem throws_error :
  Throws p (.error e : Except ε α) ↔ p e
  := by
  constructor
  · intro h
    exact h e rfl
  · rintro h e ⟨⟩
    exact h

@[simp]
theorem throws_check {q : Prop} [Decidable q] :
  Throws p (check q e) ↔ (¬ q → p e)
  := by
  by_cases hq : q
  · simp [check, hq]
  · simp [check, hq]

theorem throws_bind (hx : Throws p x)
    (hf : ∀ a, Throws p (f a)) :
  Throws p (x >>= f)
  := by
  cases x with
  | ok a => exact hf a
  | error e =>
    rintro e' ⟨⟩
    exact hx e rfl

theorem throws_map {f : α → β} (hx : Throws p x) :
  Throws p (x.map f)
  := by
  cases x with
  | ok a => exact throws_ok (f a)
  | error e =>
    rintro e' ⟨⟩
    exact hx e rfl

theorem throws_checkWhen {c : Bool} {x : Except ε Unit} (hx : Throws p x) :
  Throws p (checkWhen c x)
  := by
  cases c with
  | true => exact hx
  | false => exact throws_ok ()

theorem throws_checkSome {f : α → Except ε Unit} {o : Option α} (hf : ∀ a, Throws p (f a)) :
  Throws p (checkSome f o)
  := by
  cases o with
  | none => exact throws_ok ()
  | some a => exact hf a

theorem throws_checkAll {f : α → Except ε Unit} (hf : ∀ a, Throws p (f a)) :
  ∀ l : List α, Throws p (checkAll f l)
  | [] => throws_ok ()
  | a :: l => throws_bind (hf a) fun _ => throws_checkAll hf l

end Except

namespace Option

variable {α β : Type}

theorem mapM_eq_some {f : α → Option β} :
  ∀ {l : List α} {bs : List β},
    l.mapM f = some bs ↔ List.Forall₂ (fun a b => f a = some b) l bs
  | [], bs => by
    rw [List.mapM_nil, List.forall₂_nil_left_iff]
    constructor
    · rintro ⟨⟩
      rfl
    · rintro rfl
      rfl
  | a :: l, bs => by
    simp only [List.mapM_cons, bind_eq_bind, Option.bind_eq_some_iff,
      List.forall₂_cons_left_iff]
    constructor
    · rintro ⟨b, hb, bs', hbs, ⟨⟩⟩
      exact ⟨b, bs', hb, mapM_eq_some.mp hbs, rfl⟩
    · rintro ⟨b, bs', hb, hbs, rfl⟩
      exact ⟨b, hb, bs', mapM_eq_some.mpr hbs, rfl⟩

end Option
