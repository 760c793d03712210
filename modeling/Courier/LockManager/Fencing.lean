import Courier.LockManager.Isolation

/-!
# Fenced writes

Between the validation of a guarded write and its effect another holder may have written.  In a run in which a write
takes effect only under the token of the resource, and no acquisition starts its tokens over, no write takes effect
after one with a larger token (`ordered_run`).
-/

namespace Courier.LockManager

section Runs

variable [Platform] [Names]

def Current (s : System) : Action → Prop
  | .write i => ∀ w, s.underWay[i]? = some w →
      ∃ state, observed s.storage w.1 = some state ∧ state.fencingToken = w.2
  | _ => True

instance (s : System) (a : Action) : Decidable (Current s a) :=
  match a with
  | .write i =>
      decidable_of_iff
        ((s.underWay[i]?.all fun w =>
          (observed s.storage w.1).any fun state => decide (state.fencingToken = w.2)) = true)
        (by simp [Current, Option.all_eq_true, Option.any_eq_true])
  | .acquire _ _ _ _ | .renew _ _ _ | .release _ | .guard _ _ _ | .abandon _ | .damage _ =>
      isTrue trivial

def Ordered (written : List (Str × Int)) : Prop :=
  written.Pairwise fun earlier later => earlier.1 = later.1 → earlier.2 ≤ later.2

omit [Platform] [Names] in
theorem ordered_concat {written : List (Str × Int)} {w : Str × Int} :
  Ordered (written ++ [w]) ↔
    Ordered written ∧ ∀ earlier ∈ written, earlier.1 = w.1 → earlier.2 ≤ w.2
  := by
  simp [Ordered, List.pairwise_append]

def Fenced (storage : Storage) (written : List (Str × Int)) : Prop :=
  ∀ w ∈ written, ∀ state, observed storage w.1 = some state → w.2 ≤ state.fencingToken

/-- What holds of the system as long as its writes are current and no token starts over. -/
structure System.Fencing (s : System) : Prop where
  inv : s.Inv
  locked : ∀ w ∈ s.written, ∃ g ∈ s.acquired, g.resourceId = w.1
  fenced : Fenced s.storage s.written
  ordered : Ordered s.written

theorem Succeeds.le {storage : Storage} {resourceId holder : Str} {now : Rat} {token : Int}
    {old : LockState} (h : Succeeds storage resourceId holder now token)
    (hfound : observed storage resourceId = some old) :
  old.fencingToken ≤ token
  := by
  cases h with
  | first none => cases none.symm.trans hfound
  | extended found =>
    cases found.symm.trans hfound
    exact le_refl _
  | next found =>
    cases found.symm.trans hfound
    omega

theorem fencing_start :
  System.start.Fencing
  where
  inv := inv_start
  locked := by
    intro w hw
    cases hw
  fenced := by
    intro w hw
    cases hw
  ordered := List.Pairwise.nil

/-- A current step that starts no token over keeps the writes fenced. -/
theorem fencing_act (s : System) (a : Action) (h : s.Fencing)
    (hstep : ¬ Restarts s a ∧ Current s a) :
  (s.act a).Fencing
  := by
  obtain ⟨hrestarts, hcurrent⟩ := hstep
  have hinv := inv_act s a h.inv
  have heffect := effect_act s a
  generalize s.act a = t at heffect hinv
  cases heffect with
  | refused => exact h
  | idle => exact h
  | guarded => exact ⟨hinv, h.locked, h.fenced, h.ordered⟩
  | abandoned => exact ⟨hinv, h.locked, h.fenced, h.ordered⟩
  | damaged path =>
    refine ⟨hinv, h.locked, ?_, h.ordered⟩
    intro w hw state hfound
    rw [observed_set] at hfound
    split_ifs at hfound with hpath
    · cases hfound
    · exact h.fenced w hw state hfound
  | @touched a resourceId path old state _ _ file found about token =>
    refine ⟨hinv, h.locked, ?_, h.ordered⟩
    intro w hw found' hfound'
    have hfile : lockFile state.resourceId = .ok path := by rw [about, file]
    rcases observed_saved hfile hfound' with ⟨rfl, hid⟩ | ⟨-, hold⟩
    · rw [token]
      apply h.fenced w hw
      rw [hid, about, found]
    · exact h.fenced w hw found' hold
  | @granted resourceId holder path ttl now state file about token =>
    refine ⟨hinv, ?_, ?_, h.ordered⟩
    · intro w hw
      obtain ⟨g, hg, hid⟩ := h.locked w hw
      exact ⟨g, List.mem_append_left _ hg, hid⟩
    · intro w hw found hfound
      have hfile : lockFile state.resourceId = .ok path := by rw [about, file]
      rcases observed_saved hfile hfound with ⟨rfl, hid⟩ | ⟨-, hold⟩
      · rw [about] at hid
        cases hbefore : observed s.storage resourceId with
        | none =>
          obtain ⟨g, hg, hgid⟩ := h.locked w hw
          exact absurd ⟨⟨path, file⟩, hbefore, g, hg, hgid.trans hid⟩ hrestarts
        | some old =>
          have hle := h.fenced w hw old (by rw [hid, hbefore])
          exact hle.trans (token.le hbefore)
      · exact h.fenced w hw found hold
  | @wrote i w found =>
    obtain ⟨state, hstate, htoken⟩ := hcurrent w found
    refine ⟨hinv, ?_, ?_, ordered_concat.mpr ⟨h.ordered, ?_⟩⟩
    · intro earlier hearlier
      rcases List.mem_append.mp hearlier with hearlier | hearlier
      · exact h.locked earlier hearlier
      · rw [List.mem_singleton.mp hearlier]
        exact (h.inv.stored.observed hstate).2
    · intro earlier hearlier found' hfound'
      rcases List.mem_append.mp hearlier with hearlier | hearlier
      · exact h.fenced earlier hearlier found' hfound'
      · rw [List.mem_singleton.mp hearlier] at hfound' ⊢
        cases hstate.symm.trans hfound'
        exact le_of_eq htoken.symm
    · intro earlier hearlier hsame
      rw [← htoken]
      exact h.fenced earlier hearlier state (by rw [hsame, hstate])

/-- In a run in which writes take effect under the token of the resource, and no acquisition starts its tokens over, no
write took effect after one with a larger token. -/
theorem ordered_run (actions : List Action)
    (h : ∀ first a, first ++ [a] <+: actions →
      ¬ Restarts (System.run first) a ∧ Current (System.run first) a) :
  ∀ first, first <+: actions → Ordered (System.run first).written
  := by
  intro first hinit
  exact (Run.along_of fencing_act fencing_start h first hinit).ordered

end Runs

/-! ### A write between validation and write -/

section Example

local instance platformFencing : Platform := Platform.plain

local instance asciiFencing : Names := Names.ascii

/-- Two holders after each other, each of which writes while it holds the lock. -/
def inTurn : List Action :=
  [.acquire (text "ledger") (text "worker-1") 10 0,
    .guard (text "ledger") 1 1,
    .write 0,
    .acquire (text "ledger") (text "worker-2") 10 20,
    .guard (text "ledger") 2 21,
    .write 0]

/-- The writes of two holders after each other are ordered. -/
theorem ordered_inTurn :
  Ordered (System.run inTurn).written
  := by
  apply ordered_run inTurn _ inTurn (List.prefix_refl _)
  rw [Run.forall_concat_prefix]
  decide +kernel

/-- A holder that validated its token before its lease ended writes after the next holder did. -/
theorem not_ordered :
  ¬ Ordered (System.run [.acquire (text "ledger") (text "worker-1") 10 0,
    .guard (text "ledger") 1 1,
    .acquire (text "ledger") (text "worker-2") 10 20,
    .guard (text "ledger") 2 21,
    .write 1,
    .write 0]).written
  := by
  simp only [Ordered]
  decide +kernel

end Example

end Courier.LockManager
