import Courier.LockManager.Steps

/-!
# Isolation of locks and the order of tokens

An operation leaves the other resources as they are, and tokens increase from one holder to the next, exactly as long
as no acquisition loses a state: by a file that is about another resource or is gone, or a lease under another name
(`isolated_and_increasing_iff`).
-/

namespace Courier.LockManager

section Runs

variable [Platform] [Names]

/-! ### What is lost -/

def Evicts (s : System) : Action → Prop
  | .acquire resourceId _ _ _ => ∃ path state, lockFile resourceId = .ok path ∧
      s.storage.get? path = some (some state) ∧ state.resourceId ≠ resourceId
  | _ => False

def Restarts (s : System) : Action → Prop
  | .acquire resourceId _ _ _ => (∃ path, lockFile resourceId = .ok path) ∧
      observed s.storage resourceId = none ∧ ∃ g ∈ s.acquired, g.resourceId = resourceId
  | _ => False

instance (s : System) (a : Action) : Decidable (Restarts s a) :=
  match a with
  | .acquire _ _ _ _ => inferInstanceAs (Decidable (_ ∧ _ ∧ _))
  | .renew _ _ _ | .release _ | .guard _ _ _ | .write _ | .abandon _ | .damage _ => isFalse id

/-- The acquisition continues a lease that was given to a holder of another name. -/
def Inherits (s : System) : Action → Prop
  | .acquire resourceId holder _ now => ∃ state, observed s.storage resourceId = some state ∧
      state.Held now ∧ state.holder = holder ∧ ∃ g ∈ s.acquired, g.resourceId = resourceId ∧
        g.fencingToken = state.fencingToken ∧ g.holder ≠ holder
  | _ => False

def Loses (s : System) (a : Action) : Prop :=
  Evicts s a ∨ Restarts s a ∨ Inherits s a

/-! ### The order of tokens -/

/-- A lease has a larger token than an earlier one of its resource, or continues it. -/
def Grant.Follows (h g : Grant) : Prop :=
  g.fencingToken < h.fencingToken ∨
    h.continued = true ∧ g.fencingToken = h.fencingToken ∧ g.holder = h.holder

omit [Platform] [Names] in
theorem Grant.Follows.le {g h : Grant} (hfollows : h.Follows g) :
  g.fencingToken ≤ h.fencingToken
  := by
  rcases hfollows with hlt | ⟨-, heq, -⟩
  · exact le_of_lt hlt
  · exact le_of_eq heq

def Increasing (acquired : List Grant) : Prop :=
  acquired.Pairwise fun g h => g.resourceId = h.resourceId → h.Follows g

omit [Platform] [Names] in
theorem increasing_concat {acquired : List Grant} {h : Grant} :
  Increasing (acquired ++ [h]) ↔
    Increasing acquired ∧ ∀ g ∈ acquired, g.resourceId = h.resourceId → h.Follows g
  := by
  simp [Increasing, List.pairwise_append]

/-! ### The invariant -/

def Stored (storage : Storage) (acquired : List Grant) : Prop :=
  ∀ path state, storage.get? path = some (some state) →
    lockFile state.resourceId = .ok path ∧ 1 ≤ state.fencingToken ∧
      ∃ g ∈ acquired, g.resourceId = state.resourceId

def Bounded (storage : Storage) (acquired : List Grant) : Prop :=
  ∀ g ∈ acquired, ∀ state, observed storage g.resourceId = some state →
    g.fencingToken ≤ state.fencingToken

/-- What holds of the system at any time. -/
structure System.Inv (s : System) : Prop where
  stored : Stored s.storage s.acquired
  positive : ∀ g ∈ s.acquired, 1 ≤ g.fencingToken
  bounded : Increasing s.acquired → Bounded s.storage s.acquired

variable {storage : Storage} {acquired : List Grant}

theorem Stored.observed (h : Stored storage acquired) {resourceId : Str} {state : LockState}
    (hfound : observed storage resourceId = some state) :
  1 ≤ state.fencingToken ∧ ∃ g ∈ acquired, g.resourceId = resourceId
  := by
  obtain ⟨path, -, hget, rfl⟩ := observed_eq_some.mp hfound
  exact (h path state hget).2

variable {path : Str} {state : LockState}

theorem Stored.set (h : Stored storage acquired) {acquired' : List Grant}
    (hfile : lockFile state.resourceId = .ok path)
    (htoken : 1 ≤ state.fencingToken) (hsub : acquired ⊆ acquired')
    (hgrant : ∃ g ∈ acquired', g.resourceId = state.resourceId) :
  Stored (storage.set path (some state)) acquired'
  := by
  intro path' state' hget
  rw [Dict.get?_set] at hget
  split_ifs at hget with hpath
  · cases hget
    exact ⟨hpath ▸ hfile, htoken, hgrant⟩
  · obtain ⟨hfile', htoken', g, hg, hid⟩ := h path' state' hget
    exact ⟨hfile', htoken', g, hsub hg, hid⟩

theorem Stored.damage (h : Stored storage acquired) (path : Str) :
  Stored (storage.set path none) acquired
  := by
  intro path' state' hget
  rw [Dict.get?_set] at hget
  split_ifs at hget with hpath
  · cases hget
  · exact h path' state' hget

variable {resourceId holder : Str} {now : Rat}

theorem Succeeds.positive {token : Int}
    (hstored : Stored storage acquired) (h : Succeeds storage resourceId holder now token) :
  1 ≤ token
  := by
  cases h with
  | first => exact le_refl 1
  | extended found => exact (hstored.observed found).1
  | next found =>
    have hone := (hstored.observed found).1
    omega

theorem observed_saved
    (hfile : lockFile state.resourceId = .ok path) {found : LockState}
    (h : observed (storage.set path (some state)) resourceId = some found) :
  found = state ∧ resourceId = state.resourceId ∨
    resourceId ≠ state.resourceId ∧ observed storage resourceId = some found
  := by
  rw [observed_set] at h
  split_ifs at h with hpath
  · obtain ⟨hsame, hid⟩ := Option.filter_eq_some_iff.mp h
    cases hsame
    exact .inl ⟨rfl, by simpa using Eq.symm (of_decide_eq_true hid)⟩
  · refine .inr ⟨?_, h⟩
    rintro rfl
    exact hpath hfile

theorem inv_start :
  System.start.Inv
  where
  stored := by
    intro path state hget
    cases hget
  positive := by
    intro g hg
    cases hg
  bounded := by
    intro _ g hg
    cases hg

/-- Every action preserves the invariant. -/
theorem inv_act (s : System) (a : Action) (h : s.Inv) :
  (s.act a).Inv
  := by
  have heffect := effect_act s a
  generalize s.act a = t at heffect
  cases heffect with
  | refused => exact h
  | idle => exact h
  | guarded => exact ⟨h.stored, h.positive, h.bounded⟩
  | wrote => exact ⟨h.stored, h.positive, h.bounded⟩
  | abandoned => exact ⟨h.stored, h.positive, h.bounded⟩
  | damaged path =>
    refine ⟨h.stored.damage path, h.positive, ?_⟩
    intro hincreasing g hg state hfound
    rw [observed_set] at hfound
    split_ifs at hfound with hpath
    · cases hfound
    · exact h.bounded hincreasing g hg state hfound
  | @touched a resourceId path old state _ _ file found about token =>
    have hfile : lockFile state.resourceId = .ok path := by rw [about, file]
    obtain ⟨hpositive, hgrant⟩ := h.stored.observed found
    refine ⟨?_, h.positive, ?_⟩
    · exact h.stored.set hfile (token ▸ hpositive) (List.Subset.refl _) (about ▸ hgrant)
    · intro hincreasing g hg found' hfound'
      rcases observed_saved hfile hfound' with ⟨rfl, hid⟩ | ⟨-, hold⟩
      · rw [token]
        apply h.bounded hincreasing g hg
        rw [hid, about, found]
      · exact h.bounded hincreasing g hg found' hold
  | @granted resourceId holder path ttl now state file about token =>
    have hfile : lockFile state.resourceId = .ok path := by rw [about, file]
    have hpositive := token.positive h.stored
    refine ⟨?_, ?_, ?_⟩
    · apply h.stored.set hfile hpositive (List.subset_append_left _ _)
      exact ⟨_, List.mem_append_right _ (List.mem_singleton_self _), about.symm⟩
    · intro g hg
      rcases List.mem_append.mp hg with hg | hg
      · exact h.positive g hg
      · rw [List.mem_singleton.mp hg]
        exact hpositive
    · intro hincreasing g hg found hfound
      obtain ⟨hbefore, hlast⟩ := increasing_concat.mp hincreasing
      rcases observed_saved hfile hfound with ⟨rfl, hid⟩ | ⟨hother, hold⟩
      · rcases List.mem_append.mp hg with hg | hg
        · exact (hlast g hg (hid.trans about)).le
        · rw [List.mem_singleton.mp hg]
          exact le_refl _
      · rcases List.mem_append.mp hg with hg | hg
        · exact h.bounded hbefore g hg found hold
        · rw [List.mem_singleton.mp hg] at hother
          exact absurd about.symm hother

/-! ### One step -/

def Isolated (s : System) (a : Action) : Prop :=
  ∀ resourceId, a.resource = some resourceId → ∀ other, other ≠ resourceId →
    observed (s.act a).storage other = observed s.storage other

theorem observed_other
    (hfile : lockFile resourceId = .ok path) (habout : state.resourceId = resourceId) :
  (∀ other, other ≠ resourceId →
      observed (storage.set path (some state)) other = observed storage other) ↔
    ∀ old, storage.get? path = some (some old) → lockFile old.resourceId = .ok path →
      old.resourceId = resourceId
  := by
  constructor
  · intro hall old hget hold
    by_contra hne
    have hsame := hall old.resourceId hne
    have hbefore : observed storage old.resourceId = some old :=
      observed_eq_some.mpr ⟨path, hold, hget, rfl⟩
    rw [hbefore] at hsame
    rcases observed_saved (habout ▸ hfile) hsame with ⟨-, hid⟩ | ⟨hid, -⟩
    · exact hne (hid.trans habout)
    · rw [observed_set, if_pos hold, Option.filter_eq_some_iff] at hsame
      cases hsame.1
      exact hne habout
  · intro hall other hother
    rw [observed_set]
    split_ifs with hpath
    · have hnone : observed storage other = none := by
        apply Option.eq_none_iff_forall_ne_some.mpr
        intro old hold
        obtain ⟨path', hpath', hget, habout'⟩ := observed_eq_some.mp hold
        cases hpath.symm.trans hpath'
        exact hother (habout'.symm.trans (hall old hget (habout' ▸ hpath)))
      rw [hnone, Option.filter_eq_none_iff]
      intro a ha
      cases ha
      simpa [habout] using fun h => hother h.symm
    · rfl

variable {s : System}

/-- The lease of an acquisition follows the earlier ones of its resource exactly if the acquisition
does not start over or inherit. -/
theorem follows_iff {ttl : Rat} {token : Int} (h : s.Inv)
    (hincreasing : Increasing s.acquired) (hfile : lockFile resourceId = .ok path)
    (htoken : Succeeds s.storage resourceId holder now token) :
  (∀ g ∈ s.acquired, g.resourceId = resourceId → (s.grant resourceId holder token).Follows g) ↔
    ¬ Restarts s (.acquire resourceId holder ttl now) ∧
      ¬ Inherits s (.acquire resourceId holder ttl now)
  := by
  have hbounded := h.bounded hincreasing
  cases htoken with
  | first hnone =>
    have hinherits : ¬ Inherits s (.acquire resourceId holder ttl now) := by
      rintro ⟨state, hfound, -⟩
      cases hnone.symm.trans hfound
    constructor
    · intro hall
      refine ⟨?_, hinherits⟩
      rintro ⟨-, -, g, hg, hid⟩
      have hpositive := h.positive g hg
      rcases hall g hg hid with hlt | ⟨hcontinued, -⟩
      · simp only [System.grant] at hlt
        omega
      · simp [System.grant, hnone] at hcontinued
    · rintro ⟨hrestarts, -⟩ g hg hid
      exact absurd ⟨⟨path, hfile⟩, hnone, g, hg, hid⟩ hrestarts
  | @extended state found held same =>
    have hrestarts : ¬ Restarts s (.acquire resourceId holder ttl now) := by
      rintro ⟨-, hnone, -⟩
      cases hnone.symm.trans found
    constructor
    · intro hall
      refine ⟨hrestarts, ?_⟩
      rintro ⟨state', hfound', -, -, g, hg, hid, hsame, hother⟩
      cases found.symm.trans hfound'
      rcases hall g hg hid with hlt | ⟨-, -, hholder⟩
      · simp only [System.grant] at hlt
        omega
      · exact hother hholder
    · rintro ⟨-, hinherits⟩ g hg hid
      rcases lt_or_eq_of_le (hbounded g hg state (by rw [hid, found])) with hlt | heq
      · exact .inl hlt
      · refine .inr ⟨by simp [System.grant, found], heq, ?_⟩
        by_contra hother
        exact hinherits ⟨state, found, held, same, g, hg, hid, heq, hother⟩
  | @next state found free =>
    constructor
    · intro _
      constructor
      · rintro ⟨-, hnone, -⟩
        cases hnone.symm.trans found
      · rintro ⟨state', hfound', hheld, -⟩
        cases found.symm.trans hfound'
        exact free hheld
    · rintro - g hg hid
      have hle := hbounded g hg state (by rw [hid, found])
      left
      simp only [System.grant]
      omega

theorem not_loses_of_refused {ttl : Rat}
    (why : HeldByAnother s.storage resourceId holder now ∨ ∃ e, lockFile resourceId = .error e) :
  ¬ Loses s (.acquire resourceId holder ttl now)
  := by
  rcases why with ⟨state, hfound, hheld, hother⟩ | ⟨e, herror⟩
  · obtain ⟨path, hfile, hget, habout⟩ := observed_eq_some.mp hfound
    rintro (⟨path', old, hfile', hget', hold⟩ | ⟨-, hnone, -⟩ | ⟨state', hfound', -, hholder, -⟩)
    · cases hfile.symm.trans hfile'
      cases hget.symm.trans hget'
      exact hold habout
    · cases hnone.symm.trans hfound
    · cases hfound.symm.trans hfound'
      exact hother hholder
  · rintro (⟨path', old, hfile', -⟩ | ⟨⟨path', hfile'⟩, -⟩ | ⟨state', hfound', -⟩)
    · cases herror.symm.trans hfile'
    · cases herror.symm.trans hfile'
    · obtain ⟨path', hfile', -⟩ := observed_eq_some.mp hfound'
      cases herror.symm.trans hfile'

theorem not_loses_of_other {a : Action}
    (other : ∀ resourceId holder ttl now, a ≠ .acquire resourceId holder ttl now) :
  ¬ Loses s a
  := by
  cases a with
  | acquire resourceId holder ttl now => exact absurd rfl (other resourceId holder ttl now)
  | _ => simp [Loses, Evicts, Restarts, Inherits]

/-- A step is isolated and keeps the tokens increasing exactly if it loses nothing. -/
theorem step_iff (h : s.Inv) (hincreasing : Increasing s.acquired) (a : Action) :
  Isolated s a ∧ Increasing (s.act a).acquired ↔ ¬ Loses s a
  := by
  unfold Isolated
  have heffect := effect_act s a
  generalize s.act a = t at heffect
  cases heffect with
  | refused why => exact iff_of_true ⟨by simp, hincreasing⟩ (not_loses_of_refused why)
  | idle other => exact iff_of_true ⟨by simp, hincreasing⟩ (not_loses_of_other other)
  | guarded => exact iff_of_true ⟨by simp, hincreasing⟩ (not_loses_of_other (by simp))
  | wrote => exact iff_of_true ⟨by simp, hincreasing⟩ (not_loses_of_other (by simp))
  | abandoned => exact iff_of_true ⟨by simp, hincreasing⟩ (not_loses_of_other (by simp))
  | damaged path =>
    refine iff_of_true ⟨?_, hincreasing⟩ (not_loses_of_other (by simp))
    intro resourceId hnone
    cases hnone
  | @touched a resourceId path old state other on file found about token =>
    refine iff_of_true ⟨?_, hincreasing⟩ (not_loses_of_other other)
    intro resourceId' hresource
    cases on.symm.trans hresource
    apply (observed_other file about).mpr
    intro old' hget _
    obtain ⟨path', hfile', hget', habout'⟩ := observed_eq_some.mp found
    cases file.symm.trans hfile'
    cases hget.symm.trans hget'
    exact habout'
  | @granted resourceId holder path ttl now state file about token =>
    have hisolated : (∀ other, other ≠ resourceId →
        observed (s.storage.set path (some state)) other = observed s.storage other) ↔
          ¬ Evicts s (.acquire resourceId holder ttl now) := by
      rw [observed_other file about]
      constructor
      · rintro hall ⟨path', old, hfile', hget, hother⟩
        cases file.symm.trans hfile'
        exact hother (hall old hget (h.stored path old hget).1)
      · intro hnot old hget _
        by_contra hother
        exact hnot ⟨path, old, file, hget, hother⟩
    rw [increasing_concat, and_iff_right hincreasing, Loses, not_or, not_or, ← hisolated,
      ← follows_iff h hincreasing file token]
    constructor
    · rintro ⟨hother, hfollows⟩
      exact ⟨hother resourceId rfl, hfollows⟩
    · rintro ⟨hother, hfollows⟩
      refine ⟨?_, hfollows⟩
      rintro resourceId' ⟨⟩
      exact hother

/-! ### Runs -/

/-- Every operation leaves the other resources as they are and tokens increase, exactly if no acquisition loses a state.
-/
theorem isolated_and_increasing_iff (actions : List Action) :
  (∀ first a, first ++ [a] <+: actions →
      Isolated (System.run first) a ∧ Increasing (System.run (first ++ [a])).acquired) ↔
    ∀ first a, first ++ [a] <+: actions → ¬ Loses (System.run first) a
  := Run.along_steps_iff inv_act (fun _ a h hincreasing => step_iff h hincreasing a) inv_start
    List.Pairwise.nil actions

end Runs

/-! ### Two ways to lose a state -/

section Example

/-- The platform with the digest of the text `a b`. -/
@[reducible]
def digestOfIds : Platform where
  sha256 s :=
    if s = text "a b" then
      text "c8687a08aa5d6ed2044328fa6a697ab8e96dc34291e8c2034ae8c38e6fcc6d65"
    else Platform.plain.sha256 s
  repr := Platform.plain.repr
  decodeBytes := Platform.plain.decodeBytes
  tooDeep := Platform.plain.tooDeep

local instance digestsIsolation : Platform := digestOfIds

local instance asciiIsolation : Names := Names.ascii

/-- The resource `a b` has the file of another one, whose lock it takes away; and a resource with an unreadable file
gives its first token again. -/
theorem not_isolated_and_increasing :
  ¬ Isolated (System.run [.acquire (text "a_b__c8687a08aa5d") (text "worker-1") 10 0])
      (.acquire (text "a b") (text "worker-2") 10 1) ∧
    ¬ Increasing (System.run [.acquire (text "ledger") (text "worker-1") 10 0,
      .damage (text "ledger.lock.json"),
      .acquire (text "ledger") (text "worker-2") 10 1]).acquired
  := by
  constructor
  · intro h
    have hsame := h (text "a b") rfl (text "a_b__c8687a08aa5d") (by decide)
    revert hsame
    decide +kernel
  · simp only [Increasing, Grant.Follows]
    decide +kernel

end Example

end Courier.LockManager
