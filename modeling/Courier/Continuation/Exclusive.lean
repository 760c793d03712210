import Courier.Continuation
import Courier.Library.Run

/-!
# Claims of several owners

Any number of calls of `claim` and `release` on one workkey take their steps in any order.  In a run in
which no step removes or replaces a file that it must not (`System.Careful`), a claim is never granted
while an owner's claim is neither over nor released (`exclusiveOwner_run`).
-/

namespace Courier.Continuation

open Run (along_of)

/-! ### The calls of all owners -/

inductive Call where
  | claim (owner : Str) (ttl now : ℚ) (phase : ClaimPhase)
  | release (owner : Str) (checked : Bool) (phase : ReleasePhase)
  | returned
  deriving DecidableEq

def Call.writes : Call → Option Nat
  | .claim _ _ _ (.write id) => some id
  | _ => none

structure Grant where
  owner : Str
  expiresAt : ℚ
  deriving DecidableEq

structure System where
  clock : ℚ
  files : Files
  calls : List Call
  grants : List Grant
  overlaps : List (Grant × Grant)

/-- Before the first call, with any claim file. -/
def System.start (clock : ℚ) (content : Option Content) : System where
  clock := clock
  files := ⟨content.map fun c => ⟨0, c⟩, 1⟩
  calls := []
  grants := []
  overlaps := []

/-- What can happen: time passes, a call is made, or a call takes its next step, which may fail. -/
inductive Event where
  | wait (moment : ℚ)
  | claim (owner : Str) (ttl : ℚ)
  | release (owner : Str) (checked : Bool)
  | step (i : Nat) (fails : Bool)

def System.granted (s : System) (g : Grant) : System :=
  { s with
    grants := s.grants ++ [g]
    overlaps := s.overlaps ++
      (s.grants.filter fun h => h.owner ≠ g.owner ∧ s.clock < h.expiresAt).map fun h => (h, g) }

def System.released (s : System) (owner : Str) : System :=
  { s with grants := s.grants.filter fun g => g.owner ≠ owner }

/-- The system after a step of a call of `claim`. -/
def System.claimed (s : System) (i : Nat) (owner : Str) (ttl now : ℚ) :
    Files × Progress ClaimPhase → System
  | (files, .next phase) =>
      { s with files := files, calls := s.calls.set i (.claim owner ttl now phase) }
  | (files, .returned false) =>
      { s with files := files, calls := s.calls.set i .returned }
  | (files, .returned true) =>
      { s with files := files, calls := s.calls.set i .returned }.granted ⟨owner, now + ttl⟩

/-- The system after a step of a call of `release`. -/
def System.releasing (s : System) (i : Nat) (owner : Str) (checked : Bool) :
    Files × Progress ReleasePhase → System
  | (files, .next phase) =>
      { s with files := files, calls := s.calls.set i (.release owner checked phase) }
  | (files, .returned false) =>
      { s with files := files, calls := s.calls.set i .returned }
  | (files, .returned true) =>
      { s with files := files, calls := s.calls.set i .returned }.released owner

def System.act (s : System) : Event → System
  | .wait moment => { s with clock := max s.clock moment }
  | .claim owner ttl => { s with calls := s.calls ++ [.claim owner ttl s.clock .exists] }
  | .release owner checked => { s with calls := s.calls ++ [.release owner checked .exists] }
  | .step i fails =>
      match s.calls[i]? with
      | some (.claim owner ttl now phase) =>
          s.claimed i owner ttl now (claimStep owner ttl now s.files fails phase)
      | some (.release owner checked phase) =>
          s.releasing i owner checked (releaseStep owner checked s.files fails phase)
      | some .returned => s
      | none => s

def System.run (clock : ℚ) (content : Option Content) (events : List Event) : System :=
  events.foldl System.act (.start clock content)

/-! ### Steps with care -/

def System.Purgeable (s : System) (now ttl : ℚ) : Prop :=
  (∀ f ∈ s.files.file, ∀ c ∈ s.calls, c.writes ≠ some f.id) ∧
    ∀ data ∈ s.files.read, ¬ data.Active now ttl

/-- The file, if there is one, holds a claim of the owner that ends no later than its renewal. -/
def System.Renewable (s : System) (owner : Str) (now ttl : ℚ) : Prop :=
  s.files.file = none ∨
    ∃ data ∈ s.files.read, data.owner = some owner ∧ data.expiresAt ttl ≤ now + ttl

def System.Owned (s : System) (owner : Str) : Prop :=
  s.files.file = none ∨ ∃ data ∈ s.files.read, data.owner = some owner

/-- A file is removed or replaced only if it may be, and a claim is made only under a name that JSON
keeps. -/
def System.Careful (s : System) : Event → Prop
  | .claim owner _ => Json.fuse owner = owner
  | .step i false =>
      match s.calls[i]? with
      | some (.claim _ ttl now .purge) => s.Purgeable now ttl
      | some (.claim owner ttl now .renew) => s.Renewable owner now ttl
      | some (.release owner _ .unlink) => s.Owned owner
      | _ => True
  | _ => True

instance (s : System) (now ttl : ℚ) : Decidable (s.Purgeable now ttl) :=
  inferInstanceAs (Decidable (_ ∧ _))

instance (s : System) (owner : Str) (now ttl : ℚ) : Decidable (s.Renewable owner now ttl) :=
  inferInstanceAs (Decidable (_ ∨ _))

instance (s : System) (owner : Str) : Decidable (s.Owned owner) :=
  inferInstanceAs (Decidable (_ ∨ _))

instance (s : System) (e : Event) : Decidable (s.Careful e) := by
  unfold System.Careful
  split
  · infer_instance
  · split <;> infer_instance
  · infer_instance

/-! ### The invariant -/

/-- A call of `claim` was made at a moment that has passed, under a name that JSON keeps. -/
def Call.Made (clock : ℚ) : Call → Prop
  | .claim owner _ now _ => now ≤ clock ∧ Json.fuse owner = owner
  | _ => True

structure Writers (calls : List Call) (file : Option ClaimFile) : Prop where
  created : ∀ (i : Nat) (c : Call) (id : Nat), calls[i]? = some c → c.writes = some id →
    file = some ⟨id, .unreadable⟩
  alone : ∀ (i j : Nat) (c d : Call), calls[i]? = some c → calls[j]? = some d →
    c.writes.isSome → d.writes.isSome → i = j

def Holds (file : Option ClaimFile) (g : Grant) : Prop :=
  ∃ id created ttl, file = some ⟨id, .claim ⟨some created, some ttl, some g.owner⟩⟩ ∧
    g.expiresAt ≤ created + ttl

structure System.Sound (s : System) : Prop where
  made : ∀ c ∈ s.calls, c.Made s.clock
  writers : Writers s.calls s.files.file
  held : ∀ g ∈ s.grants, s.clock < g.expiresAt → Holds s.files.file g
  exclusive : s.overlaps = []

theorem sound_start (clock : ℚ) (content : Option Content) :
  (System.start clock content).Sound
  where
  made := by
    intro c hc
    cases hc
  writers := by
    constructor
    · intro i c id hc
      cases hc
    · intro i j c d hc
      cases hc
  held := by
    intro g hg
    cases hg
  exclusive := rfl

/-! ### Writers -/

variable {calls : List Call}

theorem writers_of_idle (h : ∀ c ∈ calls, c.writes = none)
    (file : Option ClaimFile) :
  Writers calls file
  := by
  constructor
  · intro i c id hc hwrites
    rw [h c (List.mem_of_getElem? hc)] at hwrites
    cases hwrites
  · intro i j c d hc hd hsome
    rw [h c (List.mem_of_getElem? hc)] at hsome
    cases hsome

variable {file : Option ClaimFile}

theorem Writers.idle (h : Writers calls file)
    (hfile : ∀ f, file = some f → (∃ data, f.content = .claim data) ∨ ∀ c ∈ calls, c.writes ≠ some f.id) :
  ∀ c ∈ calls, c.writes = none
  := by
  intro c hc
  obtain ⟨i, hi⟩ := List.getElem?_of_mem hc
  cases hwrites : c.writes with
  | none => rfl
  | some id =>
    have hcreated := h.created i c id hi hwrites
    rcases hfile _ hcreated with ⟨data, hdata⟩ | hnone
    · cases hdata
    · exact absurd hwrites (hnone c hc)

theorem Writers.of_old {calls' : List Call} (h : Writers calls file)
    (hold : ∀ (j : Nat) (d : Call), calls'[j]? = some d → d.writes.isSome → calls[j]? = some d) :
  Writers calls' file
  := by
  constructor
  · intro j d id hd hwrites
    exact h.created j d id (hold j d hd (by rw [hwrites]; rfl)) hwrites
  · intro j k d e hd he hdsome hesome
    exact h.alone j k d e (hold j d hd hdsome) (hold k e he hesome) hdsome hesome

variable {c : Call}

theorem Writers.set (h : Writers calls file)
    (hc : c.writes = none) (i : Nat) :
  Writers (calls.set i c) file
  := by
  apply h.of_old
  intro j d hd hsome
  rw [List.getElem?_set] at hd
  split_ifs at hd with hj hlt
  · cases hd
    rw [hc] at hsome
    cases hsome
  · exact hd

theorem Writers.call (h : Writers calls file)
    (hc : c.writes = none) :
  Writers (calls ++ [c]) file
  := by
  apply h.of_old
  intro j d hd hsome
  rw [List.getElem?_append] at hd
  split_ifs at hd with hj
  · exact hd
  · rw [List.mem_singleton.mp (List.mem_of_getElem? hd), hc] at hsome
    cases hsome

variable {i : Nat}

theorem Writers.last (h : Writers calls file)
    {d : Call} (hi : calls[i]? = some c) (hc : c.writes.isSome) (hd : d.writes = none) :
  ∀ e ∈ calls.set i d, e.writes = none
  := by
  intro e he
  obtain ⟨j, hj⟩ := List.getElem?_of_mem he
  rw [List.getElem?_set] at hj
  split_ifs at hj with hij hlt
  · cases hj
    exact hd
  · by_contra hwrites
    exact hij (h.alone i j c e hi hj hc (Option.isSome_iff_ne_none.mpr hwrites))

theorem Writers.first (h : ∀ c ∈ calls, c.writes = none) {id : Nat}
    (hc : c.writes = some id) (i : Nat) :
  Writers (calls.set i c) (some ⟨id, .unreadable⟩)
  := by
  have hself : ∀ (j : Nat) (d : Call), (calls.set i c)[j]? = some d → d.writes.isSome → j = i ∧ d = c := by
    intro j d hd hsome
    rw [List.getElem?_set] at hd
    split_ifs at hd with hij hlt
    · cases hd
      exact ⟨hij.symm, rfl⟩
    · rw [h d (List.mem_of_getElem? hd)] at hsome
      cases hsome
  constructor
  · intro j d id' hd hwrites
    obtain ⟨-, rfl⟩ := hself j d hd (by rw [hwrites]; rfl)
    rw [hc] at hwrites
    cases hwrites
    rfl
  · intro j k d e hd he hdsome hesome
    rw [(hself j d hd hdsome).1, (hself k e he hesome).1]

/-! ### Steps -/

variable {s : System}

theorem System.Sound.proceed (h : s.Sound) (hc : c.writes = none)
    (hmade : c.Made s.clock) (i : Nat) :
  System.Sound { s with calls := s.calls.set i c }
  where
  made := by
    intro d hd
    rcases List.mem_or_eq_of_mem_set hd with hd | rfl
    · exact h.made d hd
    · exact hmade
  writers := h.writers.set hc i
  held := h.held
  exclusive := h.exclusive

theorem System.Sound.call (h : s.Sound) (hc : c.writes = none)
    (hmade : c.Made s.clock) :
  System.Sound { s with calls := s.calls ++ [c] }
  where
  made := by
    intro d hd
    rcases List.mem_append.mp hd with hd | hd
    · exact h.made d hd
    · rw [List.mem_singleton.mp hd]
      exact hmade
  writers := h.writers.call hc
  held := h.held
  exclusive := h.exclusive

theorem System.Sound.change (h : s.Sound) {files : Files}
    (hmade : ∀ c ∈ calls, c.Made s.clock) (hwriters : Writers calls files.file)
    (hheld : ∀ g ∈ s.grants, s.clock < g.expiresAt → Holds files.file g) :
  System.Sound { s with files := files, calls := calls }
  :=
  ⟨hmade, hwriters, hheld, h.exclusive⟩

variable {g : Grant}

theorem System.Sound.grant (h : s.Sound)
    (hholds : Holds s.files.file g)
    (hothers : ∀ g' ∈ s.grants, s.clock < g'.expiresAt → g'.owner = g.owner) :
  (s.granted g).Sound
  where
  made := h.made
  writers := h.writers
  held := by
    intro g' hg' hlt
    rcases List.mem_append.mp hg' with hg' | hg'
    · exact h.held g' hg' hlt
    · cases List.mem_singleton.mp hg'
      exact hholds
  exclusive := by
    rw [System.granted, h.exclusive, List.nil_append, List.map_eq_nil_iff, List.filter_eq_nil_iff]
    intro g' hg' hblocks
    obtain ⟨hother, hlt⟩ := of_decide_eq_true hblocks
    exact hother (hothers g' hg' hlt)

theorem System.Sound.release (h : s.Sound) (owner : Str) :
  (s.released owner).Sound
  where
  made := h.made
  writers := h.writers
  held := fun g hg => h.held g (List.mem_filter.mp hg).1
  exclusive := h.exclusive

theorem Holds.read {fs : Files} (h : Holds fs.file g) :
  ∃ data ∈ fs.read, data.owner = some g.owner ∧ ∀ ttl, g.expiresAt ≤ data.expiresAt ttl
  := by
  obtain ⟨id, created, ttl, hfile, hle⟩ := h
  have hread : fs.read = some ⟨some created, some ttl, some g.owner⟩ := by
    rw [Files.read, hfile]
  exact ⟨_, hread, rfl, fun _ => hle⟩

variable {now ttl : ℚ}

theorem System.Sound.purgeable (h : s.Sound) (hnow : now ≤ s.clock)
    (hpurge : s.Purgeable now ttl) (hg : g ∈ s.grants) :
  g.expiresAt ≤ s.clock
  := by
  by_contra hlt
  obtain ⟨data, hdata, -, hle⟩ := (h.held g hg (not_le.mp hlt)).read
  have hover := hpurge.2 data hdata
  rw [ClaimData.Active, not_lt] at hover
  have hle := hle ttl
  rw [ClaimData.expiresAt] at hle
  linarith

theorem System.Purgeable.idle (h : s.Purgeable now ttl) (hs : s.Sound) :
  ∀ c ∈ s.calls, c.writes = none
  := hs.writers.idle fun f hf => .inr (h.1 f hf)

variable {owner : Str}

theorem System.Owned.held (h : s.Owned owner) (hs : s.Sound)
    (hg : g ∈ s.grants) (hlt : s.clock < g.expiresAt) :
  g.owner = owner
  := by
  have hholds := hs.held g hg hlt
  obtain ⟨data, hdata, howner, -⟩ := hholds.read
  rcases h with hnone | ⟨data', hdata', howner'⟩
  · obtain ⟨id, created, ttl, hfile, -⟩ := hholds
    rw [hnone] at hfile
    cases hfile
  · cases Option.mem_unique hdata hdata'
    rw [howner] at howner'
    exact Option.some.inj howner'

theorem System.Owned.idle (h : s.Owned owner) (hs : s.Sound) :
  ∀ c ∈ s.calls, c.writes = none
  := by
  apply hs.writers.idle
  intro f hf
  rcases h with hnone | ⟨data, hdata, -⟩
  · rw [hnone] at hf
    cases hf
  · rw [Files.read, hf] at hdata
    obtain ⟨id, content⟩ := f
    cases content with
    | claim data' => exact .inl ⟨data', rfl⟩
    | unreadable => cases hdata

theorem System.Renewable.owned (h : s.Renewable owner now ttl) :
  s.Owned owner
  := by
  rcases h with hnone | ⟨data, hdata, howner, -⟩
  · exact .inl hnone
  · exact .inr ⟨data, hdata, howner⟩

theorem System.Sound.next {s : System} (h : s.Sound) {i : Nat} {owner : Str} {ttl now : ℚ}
    {phase : ClaimPhase} (hmade : (Call.claim owner ttl now phase).Made s.clock)
    (hphase : ∀ id, phase ≠ .write id) :
  (s.claimed i owner ttl now (s.files, .next phase)).Sound
  := by
  apply h.proceed _ hmade
  cases phase with
  | write id => exact absurd rfl (hphase id)
  | _ => rfl

theorem System.Sound.refused {s : System} (h : s.Sound) {i : Nat} {owner : Str} {ttl now : ℚ} :
  (s.claimed i owner ttl now (s.files, .returned false)).Sound
  :=
  h.proceed (c := .returned) rfl trivial i

theorem System.Sound.made_set (h : s.Sound) (hmade : c.Made s.clock) (i : Nat) :
  ∀ d ∈ s.calls.set i c, d.Made s.clock
  := by
  intro d hd
  rcases List.mem_or_eq_of_mem_set hd with hd | rfl
  · exact h.made d hd
  · exact hmade

theorem writes_set (h : ∀ c ∈ calls, c.writes = none)
    (hc : c.writes = none) (i : Nat) :
  ∀ d ∈ calls.set i c, d.writes = none
  := by
  intro d hd
  rcases List.mem_or_eq_of_mem_set hd with hd | rfl
  · exact h d hd
  · exact hc

theorem System.Sound.claimed {s : System} (h : s.Sound) {i : Nat} {owner : Str} {ttl now : ℚ}
    {files : Files} {id : Nat} (hname : Json.fuse owner = owner)
    (hfile : files.file = some ⟨id, .claim (claimData owner ttl now)⟩)
    (hidle : ∀ c ∈ s.calls.set i .returned, c.writes = none)
    (hgrants : ∀ g ∈ s.grants, s.clock < g.expiresAt → g.owner = owner ∧ g.expiresAt ≤ now + ttl) :
  (s.claimed i owner ttl now (files, .returned true)).Sound
  := by
  rw [claimData, hname] at hfile
  apply System.Sound.grant
  · apply h.change (h.made_set (c := .returned) trivial i) (writers_of_idle hidle _)
    intro g hg hlt
    obtain ⟨rfl, hle⟩ := hgrants g hg hlt
    exact ⟨id, now, ttl, hfile, hle⟩
  · exact ⟨id, now, ttl, hfile, le_refl _⟩
  · intro g hg hlt
    exact (hgrants g hg hlt).1

/-- A step of a call of `claim`. -/
theorem sound_claimStep (h : s.Sound)
    {phase : ClaimPhase} {fails : Bool} (hi : s.calls[i]? = some (.claim owner ttl now phase))
    (hcareful : s.Careful (.step i fails)) :
  (s.claimed i owner ttl now (claimStep owner ttl now s.files fails phase)).Sound
  := by
  have hmade : now ≤ s.clock ∧ Json.fuse owner = owner := h.made _ (List.mem_of_getElem? hi)
  cases phase with
  | «exists» =>
    apply h.next hmade
    intro id
    split_ifs <;> exact fun heq => by cases heq
  | read =>
    simp only [claimStep]
    split
    · split_ifs
      · exact h.next hmade (by simp)
      · exact h.refused
      · exact h.next hmade (by simp)
    · exact h.next hmade (by simp)
  | renew =>
    cases fails with
    | true => exact h.next hmade (by simp)
    | false =>
      simp only [System.Careful, hi] at hcareful
      have howned := hcareful.owned
      apply h.claimed hmade.2 rfl (writes_set (howned.idle h) rfl i)
      intro g hg hlt
      refine ⟨howned.held h hg hlt, ?_⟩
      obtain ⟨data, hdata, -, hle⟩ := (h.held g hg hlt).read
      rcases hcareful with hnone | ⟨data', hdata', -, hlasts⟩
      · rw [Files.read, hnone] at hdata
        cases hdata
      · cases Option.mem_unique hdata hdata'
        exact (hle ttl).trans hlasts
  | purge =>
    cases fails with
    | true => exact h.next hmade (by simp)
    | false =>
      simp only [System.Careful, hi] at hcareful
      apply h.change (h.made_set (c := .claim owner ttl now .create) hmade i)
      · exact writers_of_idle (writes_set (hcareful.idle h) rfl i) _
      · intro g hg hlt
        exact absurd hlt (not_lt.mpr (h.purgeable hmade.1 hcareful hg))
  | create =>
    simp only [claimStep]
    split_ifs with hrefused
    · exact h.refused
    · have hfile : s.files.file = none := by
        rw [Bool.or_eq_true, not_or] at hrefused
        exact Option.not_isSome_iff_eq_none.mp hrefused.2
      have hidle : ∀ c ∈ s.calls, c.writes = none := by
        apply h.writers.idle
        intro f hf
        rw [hfile] at hf
        cases hf
      apply h.change (h.made_set (c := .claim owner ttl now (.write s.files.nextId)) hmade i)
        (Writers.first hidle rfl i)
      intro g hg hlt
      obtain ⟨id, created, ttl, hholds, -⟩ := h.held g hg hlt
      rw [hfile] at hholds
      cases hholds
  | write id =>
    have hcreated := h.writers.created i _ id hi rfl
    cases fails with
    | true => exact h.refused
    | false =>
      apply h.claimed hmade.2
      · rw [Files.write, hcreated, Option.map_some, if_pos rfl]
      · exact h.writers.last hi rfl rfl
      · intro g hg hlt
        obtain ⟨id', created, ttl, hholds, -⟩ := h.held g hg hlt
        rw [hcreated] at hholds
        cases hholds

theorem sound_releaseStep (h : s.Sound) {checked : Bool}
    {phase : ReleasePhase} {fails : Bool} (hi : s.calls[i]? = some (.release owner checked phase))
    (hcareful : s.Careful (.step i fails)) :
  (s.releasing i owner checked (releaseStep owner checked s.files fails phase)).Sound
  := by
  have hnext : ∀ phase', (s.releasing i owner checked (s.files, .next phase')).Sound :=
    fun phase' => h.proceed (c := .release owner checked phase') rfl trivial i
  have hrefused : (s.releasing i owner checked (s.files, .returned false)).Sound :=
    h.proceed (c := .returned) rfl trivial i
  cases phase with
  | «exists» =>
    simp only [releaseStep]
    split_ifs
    · exact hnext _
    · exact hnext _
    · exact System.Sound.release (h.proceed (c := .returned) rfl trivial i) owner
  | read =>
    simp only [releaseStep]
    split
    · split_ifs
      · exact hnext _
      · exact hrefused
    · exact hrefused
  | unlink =>
    cases fails with
    | true => exact hrefused
    | false =>
      simp only [System.Careful, hi] at hcareful
      refine ⟨h.made_set (c := .returned) trivial i, ?_, ?_, h.exclusive⟩
      · exact writers_of_idle (writes_set (hcareful.idle h) rfl i) _
      · intro g hg hlt
        obtain ⟨hg, hother⟩ := List.mem_filter.mp hg
        exact absurd (hcareful.held h hg hlt) (of_decide_eq_true hother)

theorem sound_act (s : System) (e : Event) (h : s.Sound) (hcareful : s.Careful e) :
  (s.act e).Sound
  := by
  cases e with
  | wait moment =>
    refine ⟨?_, h.writers, ?_, h.exclusive⟩
    · intro c hc
      have hmade := h.made c hc
      cases c with
      | claim owner ttl now phase => exact ⟨hmade.1.trans (le_max_left _ _), hmade.2⟩
      | release owner checked phase => trivial
      | returned => trivial
    · intro g hg hlt
      exact h.held g hg ((le_max_left _ _).trans_lt hlt)
  | claim owner ttl =>
    exact h.call (c := .claim owner ttl s.clock .exists) rfl ⟨le_refl _, hcareful⟩
  | release owner checked => exact h.call (c := .release owner checked .exists) rfl trivial
  | step i fails =>
    cases hi : s.calls[i]? with
    | none =>
      simp only [System.act, hi]
      exact h
    | some c =>
      cases c with
      | claim owner ttl now phase =>
        simp only [System.act, hi]
        exact sound_claimStep h hi hcareful
      | release owner checked phase =>
        simp only [System.act, hi]
        exact sound_releaseStep h hi hcareful
      | returned =>
        simp only [System.act, hi]
        exact h

/-- In every run of careful steps of `claim` and `release`, in any order and from any file, no claim is granted while
another owner's is neither over nor released. -/
theorem exclusiveOwner_run (clock : ℚ) (content : Option Content) (events : List Event)
    (h : ∀ first e, first ++ [e] <+: events → (System.run clock content first).Careful e) :
  ∀ first, first <+: events → (System.run clock content first).overlaps = []
  := by
  intro first hinit
  exact (along_of sound_act (sound_start clock content) h first hinit).exclusive

/-! ### An expired claim -/

section Example

def expired : Option Content :=
  some (.claim ⟨some 0, some 10, some (text "worker-0")⟩)

def steps (i n : Nat) : List Event :=
  List.replicate n (.step i false)

/-- Two owners find an expired claim one after the other. -/
def inTurn : List Event :=
  [.claim (text "worker-1") 60] ++ steps 0 5 ++ [.claim (text "worker-2") 60] ++ steps 1 5 ++
    [.wait 90, .claim (text "worker-2") 60] ++ steps 2 5

/-- The second owner is refused, and granted the workkey after the first claim has ended. -/
theorem exclusive_inTurn :
  (System.run 20 expired inTurn).overlaps = []
  := by
  apply exclusiveOwner_run 20 expired inTurn _ inTurn (List.prefix_refl _)
  rw [Run.forall_concat_prefix]
  decide +kernel

/-- Two owners find the same expired claim; the second removes the file of the first one, and both are granted the
workkey. -/
theorem not_exclusive :
  (System.run 20 expired
    ([.claim (text "worker-1") 60, .claim (text "worker-2") 60] ++ steps 0 2 ++ steps 1 2 ++
      steps 0 3 ++ steps 1 3)).overlaps =
    [(⟨text "worker-1", 80⟩, ⟨text "worker-2", 80⟩)]
  := by
  decide +kernel

end Example

end Courier.Continuation
