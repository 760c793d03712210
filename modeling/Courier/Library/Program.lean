import Mathlib.Logic.Basic

/-!
# Programs that keep their state when they raise

A program is an `EStateM`: what it did to the state before it raised stays done, as in Python.  `Program.wp` is its
weakest precondition for a postcondition of each outcome, computed along its structure.
-/

namespace Program

variable {ε σ α β : Type}

/-- The program ends as `normal` says if it returns, and as `raised` says if it raises. -/
def wp (m : EStateM ε σ α) (normal : α → σ → Prop) (raised : ε → σ → Prop) (s : σ) : Prop :=
  match m s with
  | .ok a s' => normal a s'
  | .error e s' => raised e s'

variable {normal : α → σ → Prop} {raised : ε → σ → Prop} {s : σ}

variable {m : EStateM ε σ α}

theorem wp_mono {normal' : α → σ → Prop} {raised' : ε → σ → Prop}
    (h : wp m normal' raised' s) (hnormal : ∀ a s', normal' a s' → normal a s')
    (hraised : ∀ e s', raised' e s' → raised e s') :
  wp m normal raised s
  := by
  unfold wp at h ⊢
  cases hm : m s with
  | ok a s' =>
    rw [hm] at h
    exact hnormal a s' h
  | error e s' =>
    rw [hm] at h
    exact hraised e s' h

theorem wp_trivial :
  wp m (fun _ _ => True) (fun _ _ => True) s
  := by
  unfold wp
  split <;> trivial

theorem wp_and {normal' : α → σ → Prop} {raised' : ε → σ → Prop}
    (h : wp m normal raised s) (h' : wp m normal' raised' s) :
  wp m (fun a s' => normal a s' ∧ normal' a s') (fun e s' => raised e s' ∧ raised' e s') s
  := by
  unfold wp at h h' ⊢
  cases hm : m s with
  | ok a s' =>
    rw [hm] at h h'
    exact ⟨h, h'⟩
  | error e s' =>
    rw [hm] at h h'
    exact ⟨h, h'⟩

theorem wp_forall {ι : Sort*} {normal : ι → α → σ → Prop} {raised : ι → ε → σ → Prop}
    (h : ∀ i, wp m (normal i) (raised i) s) :
  wp m (fun a s' => ∀ i, normal i a s') (fun e s' => ∀ i, raised i e s') s
  := by
  unfold wp at h ⊢
  cases hm : m s with
  | ok a s' =>
    intro i
    have hi := h i
    rwa [hm] at hi
  | error e s' =>
    intro i
    have hi := h i
    rwa [hm] at hi

@[simp]
theorem wp_pure (a : α) :
  wp (pure a) normal raised s ↔ normal a s
  := Iff.rfl

@[simp]
theorem wp_throw (e : ε) :
  wp (throw e : EStateM ε σ α) normal raised s ↔ raised e s
  := Iff.rfl

@[simp]
theorem wp_bind (m : EStateM ε σ β) (f : β → EStateM ε σ α) :
  wp (m >>= f) normal raised s ↔ wp m (fun b s' => wp (f b) normal raised s') raised s
  := by
  simp only [wp, bind, EStateM.bind]
  cases m s <;> rfl

@[simp]
theorem wp_map (m : EStateM ε σ β) (f : β → α) :
  wp (f <$> m) normal raised s ↔ wp m (fun b s' => normal (f b) s') raised s
  := by
  simp only [wp, Functor.map, EStateM.map]
  cases m s <;> rfl

theorem wp_discard {m : EStateM ε σ β} {normal : PUnit → σ → Prop}
    (h : wp m (fun _ s' => normal ⟨⟩ s') raised s) :
  wp (discard m) normal raised s
  := by
  unfold wp at h ⊢
  simp only [discard, Functor.discard, Functor.mapConst, EStateM.map, Function.comp, Function.const]
  cases hm : m s with
  | ok b s' =>
    rw [hm] at h
    exact h
  | error e s' =>
    rw [hm] at h
    exact h

theorem get_bind (f : σ → EStateM ε σ α) (s : σ) :
  (get >>= f) s = f s s
  := rfl

@[simp]
theorem wp_get {normal : σ → σ → Prop} :
  wp (get : EStateM ε σ σ) normal raised s ↔ normal s s
  := Iff.rfl

@[simp]
theorem wp_set (t : σ) {normal : PUnit → σ → Prop} :
  wp (set t : EStateM ε σ PUnit) normal raised s ↔ normal ⟨⟩ t
  := Iff.rfl

@[simp]
theorem wp_modify (f : σ → σ) {normal : PUnit → σ → Prop} :
  wp (modify f : EStateM ε σ PUnit) normal raised s ↔ normal ⟨⟩ (f s)
  := Iff.rfl

@[simp]
theorem wp_tryCatch (m : EStateM ε σ α) (handler : ε → EStateM ε σ α) :
  wp (tryCatch m handler) normal raised s ↔
    wp m normal (fun e s' => wp (handler e) normal raised s') s
  := by
  have htry : (tryCatch m handler) s = EStateM.tryCatch m handler s := rfl
  rw [wp, wp, htry]
  delta EStateM.tryCatch
  cases m s <;> rfl

/-- Run a computation that does not look at the state. -/
def lift (x : Except ε α) : EStateM ε σ α :=
  match x with
  | .ok a => pure a
  | .error e => throw e

@[simp]
theorem wp_lift (x : Except ε α) :
  wp (lift x) normal raised s ↔
    (∀ a, x = .ok a → normal a s) ∧ (∀ e, x = .error e → raised e s)
  := by
  cases x with
  | ok a => simp [lift]
  | error e => simp [lift]

variable {f : β → EStateM ε σ PUnit}

theorem returns_of_wp (h : wp m normal (fun _ _ => False) s) :
  ∃ a s', m s = .ok a s' ∧ normal a s'
  := by
  unfold wp at h
  cases hm : m s with
  | ok a s' =>
    rw [hm] at h
    exact ⟨a, s', rfl, h⟩
  | error e s' =>
    rw [hm] at h
    exact absurd h id

variable {a : α} {s' : σ}

theorem normal_of_wp (h : wp m normal raised s)
    (hm : m s = .ok a s') :
  normal a s'
  := by
  unfold wp at h
  rwa [hm] at h

theorem wp_of_ok (hm : m s = .ok a s') (h : normal a s') :
  wp m normal raised s
  := by
  unfold wp
  rwa [hm]

theorem raised_of_wp {e : ε} (h : wp m normal raised s)
    (hm : m s = .error e s') :
  raised e s'
  := by
  unfold wp at h
  rwa [hm] at h

/-! ### Kept properties -/

/-- A property of the state that holds before the program holds after it, whatever it comes to. -/
def Keeps (I : σ → Prop) (m : EStateM ε σ α) : Prop :=
  ∀ s, I s → wp m (fun _ => I) (fun _ => I) s

variable {I : σ → Prop}

theorem Keeps.of_ok (h : Keeps I m) (hs : I s)
    (hm : m s = .ok a s') :
  I s'
  := normal_of_wp (h s hs) hm

theorem Keeps.of_error {e : ε} (h : Keeps I m) (hs : I s)
    (hm : m s = .error e s') :
  I s'
  := by
  have hwp := h s hs
  unfold wp at hwp
  rwa [hm] at hwp

theorem Keeps.weaken {J : σ → Prop} (h : Keeps J m) (hs : J s)
    (hweaker : ∀ t, J t → I t) :
  wp m (fun _ => I) (fun _ => I) s
  := wp_mono (h s hs) (fun _ => hweaker) fun _ => hweaker

theorem Keeps.andThen {m : EStateM ε σ β} {f : β → EStateM ε σ α} (hm : Keeps I m) (hs : I s)
    (hf : ∀ b t, I t → wp (f b) normal (fun _ => I) t) :
  wp (m >>= f) normal (fun _ => I) s
  := by
  rw [wp_bind]
  exact wp_mono (hm s hs) hf fun _ _ ht => ht

theorem keeps_pure (a : α) :
  Keeps I (pure a : EStateM ε σ α)
  := fun _ h => h

theorem keeps_throw (e : ε) :
  Keeps I (throw e : EStateM ε σ α)
  := fun _ h => h

theorem keeps_raise (e : ε) (f : β → EStateM ε σ α) :
  Keeps I (throw e >>= f)
  := fun _ h => h

theorem keeps_lift (x : Except ε α) :
  Keeps I (lift x : EStateM ε σ α)
  := by
  cases x with
  | ok a => exact keeps_pure a
  | error e => exact keeps_throw e

theorem keeps_bind {m : EStateM ε σ β} {f : β → EStateM ε σ α} (hm : Keeps I m)
    (hf : ∀ b, Keeps I (f b)) :
  Keeps I (m >>= f)
  := by
  intro s hs
  rw [wp_bind]
  apply wp_mono (hm s hs)
  · intro b s' hs'
    exact hf b s' hs'
  · intro e s' hs'
    exact hs'

theorem keeps_map {m : EStateM ε σ β} {f : β → α} (hm : Keeps I m) :
  Keeps I (f <$> m)
  := by
  intro s hs
  rw [wp_map]
  exact hm s hs

theorem keeps_get_of {f : σ → EStateM ε σ α}
    (hf : ∀ s, I s → ∃ J : σ → Prop, J s ∧ (∀ t, J t → I t) ∧ Keeps J (f s)) :
  Keeps I (get >>= f)
  := by
  intro s hs
  obtain ⟨J, hJ, hweaker, hkeeps⟩ := hf s hs
  rw [wp_bind, wp_get]
  exact hkeeps.weaken hJ hweaker

theorem keeps_get {f : σ → EStateM ε σ α} (hf : ∀ s, I s → Keeps I (f s)) :
  Keeps I (get >>= f)
  := keeps_get_of fun s hs => ⟨I, hs, fun _ h => h, hf s hs⟩

theorem keeps_set {t : σ} (ht : I t) :
  Keeps I (set t : EStateM ε σ PUnit)
  := fun _ _ => ht

theorem keeps_modify {f : σ → σ} (hf : ∀ s, I s → I (f s)) :
  Keeps I (modify f : EStateM ε σ PUnit)
  := fun s hs => hf s hs

theorem keeps_forM {bs : List β} (hf : ∀ b ∈ bs, Keeps I (f b)) :
  Keeps I (bs.forM f)
  := by
  induction bs with
  | nil => exact keeps_pure _
  | cons b bs ih =>
    apply keeps_bind (hf b List.mem_cons_self)
    intro _
    exact ih fun b' hb' => hf b' (List.mem_cons_of_mem b hb')

theorem keeps_tryCatch {handler : ε → EStateM ε σ α} (hm : Keeps I m)
    (hhandler : ∀ e, Keeps I (handler e)) :
  Keeps I (tryCatch m handler)
  := by
  intro s hs
  rw [wp_tryCatch]
  apply wp_mono (hm s hs)
  · intro a s' hs'
    exact hs'
  · intro e s' hs'
    exact hhandler e s' hs'

end Program
