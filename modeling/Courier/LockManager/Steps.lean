import Courier.Library.Run
import Courier.LockManager

/-!
# Steps of lock holders

Any number of holders work on one storage directory.  An operation on a lock file is one step, since
it holds the mutex of the file; a guarded write is two steps, its validation and the write.
-/

namespace Courier.LockManager

open Program

variable [Platform] [Names]

/-! ### The state of a lock -/

def observed (storage : Storage) (resourceId : Str) : Option LockState :=
  match loadState storage resourceId with
  | .ok state? => state?
  | .error _ => none

theorem encodable_of_lockFile {resourceId path : Str} (h : lockFile resourceId = .ok path) :
  Text.Encodable resourceId
  := by
  unfold lockFile at h
  split_ifs at h with hsafe hencodable
  · apply List.any_eq_false.mpr
    intro c hc hsurrogate
    have hnone := Names.surrogate c hsurrogate
    rw [← hsafe, safeId] at hc
    obtain ⟨d, -, rfl⟩ := List.mem_map.mp hc
    split_ifs at hsurrogate hnone with hd
    · rcases hd with hd | rfl | rfl
      · exact absurd hd (by simp [hnone])
      · simp [Text.isSurrogate] at hsurrogate
      · simp [Text.isSurrogate] at hsurrogate
    · simp [Text.isSurrogate] at hsurrogate
  · exact hencodable

theorem fuse_of_lockFile {resourceId path : Str} (h : lockFile resourceId = .ok path) :
  Json.fuse resourceId = resourceId
  := Json.fuse_eq_self (Json.hasPair_of_encodable (encodable_of_lockFile h))

theorem loadState_of_lockFile {storage : Storage} {resourceId path : Str}
    (h : lockFile resourceId = .ok path) :
  loadState storage resourceId = .ok (observed storage resourceId)
  := by
  simp only [observed, loadState, h, Except.ok_bind]
  split
  · split_ifs <;> rfl
  · rfl

theorem observed_of_lockFile {storage : Storage} {resourceId path : Str}
    (h : lockFile resourceId = .ok path) :
  observed storage resourceId =
    (storage.get? path).join.filter fun state => decide (state.resourceId = resourceId)
  := by
  simp only [observed, loadState, h, Except.ok_bind]
  cases hfile : storage.get? path with
  | none => rfl
  | some state? =>
    cases state? with
    | none => rfl
    | some state =>
      by_cases hsame : state.resourceId = resourceId
      · simp [hsame, Option.filter]
      · simp [hsame, Option.filter]

theorem observed_eq_some {storage : Storage} {resourceId : Str} {state : LockState} :
  observed storage resourceId = some state ↔
    ∃ path, lockFile resourceId = .ok path ∧ storage.get? path = some (some state) ∧
      state.resourceId = resourceId
  := by
  cases hfile : lockFile resourceId with
  | error e => simp [observed, loadState, hfile]
  | ok path =>
    rw [observed_of_lockFile hfile, Option.filter_eq_some_iff]
    simp [Option.join_eq_some_iff]

theorem observed_set {storage : Storage} {path resourceId : Str} {state? : Option LockState} :
  observed (storage.set path state?) resourceId =
    if lockFile resourceId = .ok path then
      state?.filter fun state => decide (state.resourceId = resourceId)
    else observed storage resourceId
  := by
  cases hfile : lockFile resourceId with
  | error e => simp [observed, loadState, hfile]
  | ok path' =>
    rw [observed_of_lockFile hfile, observed_of_lockFile hfile, Dict.get?_set]
    by_cases hpath : path' = path
    · simp [hpath]
    · simp [hpath]

/-! ### Operations -/

variable {storage : Storage} {resourceId : Str}

theorem wp_load {normal : Option LockState → Storage → Prop} {raised : LockError → Storage → Prop} :
  wp (load resourceId) normal raised storage ↔
    (∀ path, lockFile resourceId = .ok path → normal (observed storage resourceId) storage) ∧
      ∀ e, lockFile resourceId = .error e → raised e storage
  := by
  unfold load
  rw [wp_bind, wp_get, wp_lift]
  cases hfile : lockFile resourceId with
  | ok path => simp [loadState_of_lockFile hfile]
  | error e => simp [loadState, hfile]

theorem wp_saveState (state : LockState) {path : Str} {normal : Unit → Storage → Prop}
    {raised : LockError → Storage → Prop} (h : lockFile state.resourceId = .ok path) :
  wp (saveState state) normal raised storage ↔ normal () (storage.set path (some state.saved))
  := by
  unfold saveState
  simp [h]

/-- The token that an acquisition comes with. -/
inductive Succeeds (storage : Storage) (resourceId holder : Str) (now : Rat) : Int → Prop
  | first (none : observed storage resourceId = none) :
      Succeeds storage resourceId holder now 1
  | extended {state : LockState} (found : observed storage resourceId = some state)
      (held : state.Held now) (same : state.holder = holder) :
      Succeeds storage resourceId holder now state.fencingToken
  | next {state : LockState} (found : observed storage resourceId = some state)
      (free : ¬ state.Held now) :
      Succeeds storage resourceId holder now (state.fencingToken + 1)

def HeldByAnother (storage : Storage) (resourceId holder : Str) (now : Rat) : Prop :=
  ∃ state, observed storage resourceId = some state ∧ state.Held now ∧ state.holder ≠ holder

/-- An acquisition is refused, or replaces the file of the resource by a state of it. -/
theorem wp_acquire (storage : Storage) (resourceId holder : Str) (ttl now : Rat) :
  wp (acquire resourceId holder ttl now)
    (fun handle? storage' =>
      match handle? with
      | none => storage' = storage ∧ HeldByAnother storage resourceId holder now
      | some handle => handle.resourceId = resourceId ∧ handle.holder = holder ∧
          Succeeds storage resourceId holder now handle.fencingToken ∧
          ∃ path state, lockFile resourceId = .ok path ∧
            storage' = storage.set path (some state) ∧ state.resourceId = resourceId ∧
            state.fencingToken = handle.fencingToken)
    (fun e storage' => storage' = storage ∧ lockFile resourceId = .error e)
    storage
  := by
  unfold acquire
  rw [wp_bind, wp_load]
  constructor
  · intro path hfile
    unfold acquireFrom
    split
    · next state hstate =>
      obtain ⟨hfound, hheld⟩ := Option.filter_eq_some_iff.mp hstate
      obtain ⟨path', hpath', hget, habout⟩ := observed_eq_some.mp hfound
      have hfile' : lockFile state.resourceId = .ok path := habout ▸ hfile
      split_ifs with hsame
      · simp only [wp_bind]
        rw [wp_saveState { state with expiresAt := now + ttl } hfile']
        refine ⟨rfl, rfl, .extended hfound (by simpa using hheld) hsame, path, _, hfile, rfl, ?_,
          rfl⟩
        exact (fuse_of_lockFile hfile').trans habout
      · exact ⟨rfl, state, hfound, by simpa using hheld, hsame⟩
    · next hnone =>
      simp only [wp_bind]
      rw [wp_saveState _ hfile]
      refine ⟨rfl, rfl, ?_, path, _, hfile, rfl, fuse_of_lockFile hfile, rfl⟩
      cases hfound : observed storage resourceId with
      | none => exact .first hfound
      | some state =>
        apply Succeeds.next hfound
        rw [hfound] at hnone
        simpa [Option.filter_eq_none_iff] using hnone
  · intro e hfile
    exact ⟨rfl, hfile⟩

def Touches (storage : Storage) (resourceId : Str) (storage' : Storage) : Prop :=
  storage' = storage ∨ ∃ path old state, lockFile resourceId = .ok path ∧
    observed storage resourceId = some old ∧ storage' = storage.set path (some state) ∧
    state.resourceId = resourceId ∧ state.fencingToken = old.fencingToken

theorem wp_touch {α : Type} {path : Str} {old state : LockState} (a : α)
    (hfile : lockFile resourceId = .ok path) (hfound : observed storage resourceId = some old)
    (habout : state.resourceId = old.resourceId) (htoken : state.fencingToken = old.fencingToken) :
  wp (saveState state >>= fun _ => pure a) (fun _ storage' => Touches storage resourceId storage')
    (fun _ storage' => storage' = storage) storage
  := by
  obtain ⟨-, -, -, hold⟩ := observed_eq_some.mp hfound
  have hfile' : lockFile state.resourceId = .ok path := by rw [habout, hold, hfile]
  rw [wp_bind, wp_saveState state hfile']
  refine .inr ⟨path, old, _, hfile, hfound, rfl, ?_, htoken⟩
  exact (fuse_of_lockFile hfile').trans (habout.trans hold)

theorem wp_renew (storage : Storage) (ttl now : Rat) (handle : LockHandle) :
  wp (renew handle ttl now) (fun _ storage' => Touches storage handle.resourceId storage')
    (fun _ storage' => storage' = storage) storage
  := by
  unfold renew
  rw [wp_bind, wp_load]
  constructor
  · intro path hfile
    split
    · next state hstate =>
      obtain ⟨hfound, -⟩ := Option.filter_eq_some_iff.mp hstate
      exact wp_touch _ hfile hfound rfl rfl
    · exact .inl rfl
  · intro e _
    rfl

theorem wp_release (storage : Storage) (handle : LockHandle) :
  wp (release handle) (fun _ storage' => Touches storage handle.resourceId storage')
    (fun _ storage' => storage' = storage) storage
  := by
  unfold release
  rw [wp_bind, wp_load]
  constructor
  · intro path hfile
    split
    · next state hstate =>
      obtain ⟨hfound, -⟩ := Option.filter_eq_some_iff.mp hstate
      exact wp_touch _ hfile hfound rfl rfl
    · exact .inl rfl
  · intro e _
    rfl

theorem wp_guard (storage : Storage) (resourceId : Str) (now : Rat) (fencingToken : Int) :
  wp (guard resourceId fencingToken now)
    (fun _ storage' => storage' = storage ∧
      ∃ state, observed storage resourceId = some state ∧ state.fencingToken = fencingToken)
    (fun _ storage' => storage' = storage) storage
  := by
  unfold guard validateToken
  rw [wp_bind, wp_bind, wp_load]
  constructor
  · intro path hfile
    cases hfound : observed storage resourceId with
    | none => exact rfl
    | some state =>
      by_cases hreleased : state.released = true
      · simp [hreleased]
      · by_cases hexpired : state.expiresAt < now
        · simp [hreleased, hexpired]
        · by_cases htoken : state.fencingToken = fencingToken
          · simp [hreleased, hexpired, htoken]
          · simp [hreleased, hexpired, htoken]
  · intro e _
    rfl

/-! ### The system -/

/-- A lease that was given: whether it continues the one the resource had. -/
structure Grant where
  resourceId : Str
  holder : Str
  fencingToken : Int
  continued : Bool
  deriving DecidableEq

/-- The storage directory, the leases that were given, the guarded writes that are validated, and
the ones that took effect. -/
structure System where
  storage : Storage
  acquired : List Grant
  underWay : List (Str × Int)
  written : List (Str × Int)

/-- What holders do, with any handles and clock; a validated write may take effect later, and a file may become
unreadable. -/
inductive Action where
  | acquire (resourceId holder : Str) (ttl now : Rat)
  | renew (handle : LockHandle) (ttl now : Rat)
  | release (handle : LockHandle)
  | guard (resourceId : Str) (fencingToken : Int) (now : Rat)
  | write (i : Nat)
  | abandon (i : Nat)
  | damage (path : Str)

namespace System

/-- Nobody has locked anything. -/
def start : System where
  storage := ∅
  acquired := []
  underWay := []
  written := []

/-- The lease an acquisition with a token gives. -/
def grant (s : System) (resourceId holder : Str) (fencingToken : Int) : Grant where
  resourceId := resourceId
  holder := holder
  fencingToken := fencingToken
  continued := decide ((observed s.storage resourceId).map (·.fencingToken) = some fencingToken)

def act (s : System) : Action → System
  | .acquire resourceId holder ttl now =>
      match acquire resourceId holder ttl now s.storage with
      | .ok (some handle) storage =>
          { s with
            storage
            acquired := s.acquired ++
              [s.grant handle.resourceId handle.holder handle.fencingToken] }
      | .ok none storage => { s with storage }
      | .error _ storage => { s with storage }
  | .renew handle ttl now =>
      match renew handle ttl now s.storage with
      | .ok _ storage => { s with storage }
      | .error _ storage => { s with storage }
  | .release handle =>
      match release handle s.storage with
      | .ok _ storage => { s with storage }
      | .error _ storage => { s with storage }
  | .guard resourceId fencingToken now =>
      match LockManager.guard resourceId fencingToken now s.storage with
      | .ok _ storage =>
          { s with
            storage
            underWay := s.underWay ++ [(resourceId, fencingToken)] }
      | .error _ storage => { s with storage }
  | .write i =>
      match s.underWay[i]? with
      | some w =>
          { s with
            underWay := s.underWay.eraseIdx i
            written := s.written ++ [w] }
      | none => s
  | .abandon i => { s with underWay := s.underWay.eraseIdx i }
  | .damage path => { s with storage := s.storage.set path none }

def run (actions : List Action) : System :=
  actions.foldl act start

end System

def Action.resource : Action → Option Str
  | .acquire resourceId _ _ _ => some resourceId
  | .renew handle _ _ => some handle.resourceId
  | .release handle => some handle.resourceId
  | .guard resourceId _ _ => some resourceId
  | .write _ | .abandon _ | .damage _ => none

/-- What an action can do. -/
inductive Effect (s : System) : Action → System → Prop
  | refused {resourceId holder : Str} {ttl now : Rat}
      (why : HeldByAnother s.storage resourceId holder now ∨ ∃ e, lockFile resourceId = .error e) :
      Effect s (.acquire resourceId holder ttl now) s
  | granted {resourceId holder path : Str} {ttl now : Rat} {state : LockState}
      (file : lockFile resourceId = .ok path) (about : state.resourceId = resourceId)
      (token : Succeeds s.storage resourceId holder now state.fencingToken) :
      Effect s (.acquire resourceId holder ttl now)
        { s with
          storage := s.storage.set path (some state)
          acquired := s.acquired ++ [s.grant resourceId holder state.fencingToken] }
  | idle {a : Action} (other : ∀ resourceId holder ttl now, a ≠ .acquire resourceId holder ttl now) :
      Effect s a s
  | touched {a : Action} {resourceId path : Str} {old state : LockState}
      (other : ∀ resourceId holder ttl now, a ≠ .acquire resourceId holder ttl now)
      (on : a.resource = some resourceId) (file : lockFile resourceId = .ok path)
      (found : observed s.storage resourceId = some old) (about : state.resourceId = resourceId)
      (token : state.fencingToken = old.fencingToken) :
      Effect s a { s with storage := s.storage.set path (some state) }
  | guarded {resourceId : Str} {now : Rat} {state : LockState}
      (found : observed s.storage resourceId = some state) :
      Effect s (.guard resourceId state.fencingToken now)
        { s with underWay := s.underWay ++ [(resourceId, state.fencingToken)] }
  | wrote {i : Nat} {w : Str × Int} (found : s.underWay[i]? = some w) :
      Effect s (.write i)
        { s with
          underWay := s.underWay.eraseIdx i
          written := s.written ++ [w] }
  | abandoned (i : Nat) : Effect s (.abandon i) { s with underWay := s.underWay.eraseIdx i }
  | damaged (path : Str) : Effect s (.damage path) { s with storage := s.storage.set path none }

theorem effect_of_touches {s : System} {a : Action} {storage' : Storage}
    (other : ∀ resourceId holder ttl now, a ≠ .acquire resourceId holder ttl now)
    (on : a.resource = some resourceId) (h : Touches s.storage resourceId storage') :
  Effect s a { s with storage := storage' }
  := by
  rcases h with rfl | ⟨path, old, state, hfile, hfound, rfl, habout, htoken⟩
  · exact .idle other
  · exact .touched other on hfile hfound habout htoken

theorem effect_act (s : System) (a : Action) :
  Effect s a (s.act a)
  := by
  cases a with
  | acquire resourceId holder ttl now =>
    have hspec := wp_acquire s.storage resourceId holder ttl now
    unfold wp at hspec
    cases hrun : acquire resourceId holder ttl now s.storage with
    | ok handle? storage' =>
      rw [hrun] at hspec
      cases handle? with
      | none =>
        simp only [System.act, hrun]
        obtain ⟨rfl, hheld⟩ := hspec
        exact .refused (.inl hheld)
      | some handle =>
        obtain ⟨hid, hholder, htoken, path, state, hfile, rfl, habout, hsame⟩ := hspec
        simp only [System.act, hrun, hid, hholder, ← hsame]
        rw [← hsame] at htoken
        exact .granted hfile habout htoken
    | error e storage' =>
      rw [hrun] at hspec
      simp only [System.act, hrun]
      obtain ⟨rfl, hfile⟩ := hspec
      exact .refused (.inr ⟨e, hfile⟩)
  | renew handle ttl now =>
    have hspec := wp_renew s.storage ttl now handle
    unfold wp at hspec
    cases hrun : renew handle ttl now s.storage with
    | ok result storage' =>
      rw [hrun] at hspec
      simp only [System.act, hrun]
      exact effect_of_touches (by simp) rfl hspec
    | error e storage' =>
      rw [hrun] at hspec
      simp only [System.act, hrun]
      obtain rfl := hspec
      exact .idle (by simp)
  | release handle =>
    have hspec := wp_release s.storage handle
    unfold wp at hspec
    cases hrun : release handle s.storage with
    | ok result storage' =>
      rw [hrun] at hspec
      simp only [System.act, hrun]
      exact effect_of_touches (by simp) rfl hspec
    | error e storage' =>
      rw [hrun] at hspec
      simp only [System.act, hrun]
      obtain rfl := hspec
      exact .idle (by simp)
  | guard resourceId fencingToken now =>
    have hspec := wp_guard s.storage resourceId now fencingToken
    unfold wp at hspec
    cases hrun : LockManager.guard resourceId fencingToken now s.storage with
    | ok result storage' =>
      rw [hrun] at hspec
      simp only [System.act, hrun]
      obtain ⟨rfl, state, hfound, rfl⟩ := hspec
      exact .guarded hfound
    | error e storage' =>
      rw [hrun] at hspec
      simp only [System.act, hrun]
      obtain rfl := hspec
      exact .idle (by simp)
  | write i =>
    cases hfound : s.underWay[i]? with
    | none =>
      simp only [System.act, hfound]
      exact .idle (by simp)
    | some w =>
      simp only [System.act, hfound]
      exact .wrote hfound
  | abandon i => exact .abandoned i
  | damage path => exact .damaged path

end Courier.LockManager
