import Courier.FencingToken
import Courier.Library.Run

/-!
# Managers of one file

Any number of managers are opened on one file and called in turns.  If each has the copy that it would read at that
moment, and names are such that JSON keeps them, no lease is granted twice and no write is committed after one with a
larger generation (`unique_run`).
-/

namespace Courier.FencingToken

open Program
open Run (along_of)

section Stored

variable {T : Type}

/-! ### What is read back -/

theorem readBack_eq_iff {r : Record T} :
  r.readBack = r ↔ Json.fuse r.resourceId = r.resourceId ∧ Json.fuse r.holder = r.holder
  := by
  constructor
  · intro h
    exact ⟨congrArg Record.resourceId h, congrArg Record.holder h⟩
  · rintro ⟨hid, hholder⟩
    simp only [Record.readBack, hid, hholder]

/-- JSON keeps the names. -/
def Stable (resources : Resources T) : Prop :=
  ∀ resourceId r, resources.get? resourceId = some r →
    Json.fuse resourceId = resourceId ∧ r.readBack = r

theorem Stable.set {resources : Resources T} (h : Stable resources) {resourceId : Str} {r : Record T}
    (hid : Json.fuse resourceId = resourceId) (hr : r.readBack = r) :
  Stable (resources.set resourceId r)
  := by
  intro k found hfound
  rw [Dict.get?_set] at hfound
  split_ifs at hfound with hk
  · cases hfound
    exact ⟨hk ▸ hid, hr⟩
  · exact h k found hfound

theorem stable_load (file : File T) :
  Stable file.load
  := by
  have hempty : Stable (∅ : Resources T) := by
    intro resourceId r h
    cases h
  cases file with
  | missing => exact hempty
  | unreadable => exact hempty
  | written resources =>
    apply Run.foldl_invariant _ hempty
    intro d p hd
    apply hd.set (Json.fuse_fuse p.1)
    simp only [Record.readBack, Json.fuse_fuse]

theorem load_written {resources : Resources T} (h : Stable resources) :
  (File.written resources).load = resources
  := by
  have hkept : ∀ p ∈ resources.entries, (Json.fuse p.1, p.2.readBack) = p := by
    intro p hp
    obtain ⟨hid, hr⟩ := h p.1 p.2 (Dict.get?_eq_some.mpr hp)
    rw [hid, hr]
  apply Dict.ext
  rw [File.load]
  conv_rhs => rw [← Dict.entries_foldl_set resources.nodup]
  congr 1
  apply List.foldl_ext
  intro d p hp
  rw [show Json.fuse p.1 = p.1 from congrArg Prod.fst (hkept p hp),
    show p.2.readBack = p.2 from congrArg Prod.snd (hkept p hp)]

end Stored

section Managers

variable {T : Type} [LinearOrder T] [Add T] [Zero T]

/-! ### The managers and what they granted -/

structure Grant (T : Type) where
  resourceId : Str
  holder : Str
  generation : Int
  expiresAt : T
  deriving DecidableEq

def Record.grant (r : Record T) : Grant T where
  resourceId := r.resourceId
  holder := r.holder
  generation := r.generation
  expiresAt := r.expiresAt

/-- The file, the copies of the managers, the last moment, the grants in their order and those that are held, the
generations of the writes, and the grants that were given while another's was held. -/
structure System (T : Type) where
  file : File T
  managers : List (Resources T)
  now : T
  grants : List (Grant T)
  held : List (Grant T)
  commits : List (Str × Int)
  overlaps : List (Grant T × Grant T)

def System.start (file : File T) (now : T) : System T where
  file := file
  managers := []
  now := now
  grants := []
  held := []
  commits := []
  overlaps := []

/-- What can be done with a file: a manager is opened, or one is called. -/
inductive Action (T : Type) where
  | openManager
  | acquire (i : Nat) (resourceId holder : Str) (ttl : T)
  | validateAndCommit (i : Nat) (resourceId : Str) (generation : Int) (holder : Option Str)
  | release (i : Nat) (resourceId holder : Str) (generation : Option Int)

def Grant.Blocks (earlier g : Grant T) (now : T) : Prop :=
  earlier.resourceId = g.resourceId ∧ earlier.holder ≠ g.holder ∧ now < earlier.expiresAt

instance (earlier g : Grant T) (now : T) : Decidable (earlier.Blocks g now) :=
  inferInstanceAs (Decidable (_ ∧ _))

def System.granted (s : System T) (g : Grant T) : System T :=
  { s with
    grants := s.grants ++ [g]
    held := (s.held.filter fun h => ¬ (h.resourceId = g.resourceId ∧ h.holder = g.holder)) ++ [g]
    overlaps := s.overlaps ++ (s.held.filter fun h => h.Blocks g s.now).map fun h => (h, g) }

def System.committed (s : System T) (resourceId : Str) (generation : Int) : System T :=
  { s with commits := s.commits ++ [(resourceId, generation)] }

def System.released (s : System T) (resourceId holder : Str) (generation : Int) : System T :=
  { s with
    held := s.held.filter fun h =>
      ¬ (h.resourceId = resourceId ∧ h.holder = holder ∧ h.generation = generation) }

def System.call {α : Type} (s : System T) (i : Nat) (m : FencingM T α)
    (note : System T → α → System T) : System T :=
  match s.managers[i]? with
  | none => s
  | some resources =>
      match m ⟨resources, s.file⟩ with
      | .ok answer opened =>
          note { s with file := opened.file, managers := s.managers.set i opened.resources } answer
      | .error _ opened =>
          { s with file := opened.file, managers := s.managers.set i opened.resources }

def System.generation (s : System T) (i : Nat) (resourceId : Str) : Option Int := do
  let resources ← s.managers[i]?
  let r ← resources.get? resourceId
  return r.generation

/-- The system after something was done at the moment it has reached. -/
def System.act (s : System T) : Action T → System T
  | .openManager => { s with managers := s.managers ++ [s.file.load] }
  | .acquire i resourceId holder ttl =>
      s.call i (acquire resourceId holder ttl s.now) fun t r => t.granted r.grant
  | .validateAndCommit i resourceId generation holder =>
      s.call i (validateAndCommit resourceId generation holder s.now) fun t _ =>
        t.committed resourceId generation
  | .release i resourceId holder generation =>
      s.call i (release resourceId holder generation) fun t released =>
        match released, s.generation i resourceId with
        | true, some known => t.released resourceId holder known
        | _, _ => t

def System.after (s : System T) (step : Action T × T) : System T :=
  { s with now := step.2 }.act step.1

def System.run (file : File T) (now : T) (steps : List (Action T × T)) : System T :=
  steps.foldl System.after (.start file now)

/-! ### What is to hold -/

/-- Generations increase, no lease was granted while another holder had one, and no write came after one with a larger
one. -/
structure System.Unique (s : System T) : Prop where
  increasing : s.grants.Pairwise fun earlier later =>
    earlier.resourceId = later.resourceId → earlier.generation < later.generation
  exclusive : s.overlaps = []
  ordered : s.commits.Pairwise fun earlier later => earlier.1 = later.1 → earlier.2 ≤ later.2

def System.UpToDate (s : System T) (i : Nat) : Prop :=
  ∀ resources, s.managers[i]? = some resources → resources = s.file.load

def System.Current (s : System T) : Action T → Prop
  | .openManager => True
  | .acquire i resourceId holder _ =>
      s.UpToDate i ∧ Json.fuse resourceId = resourceId ∧ Json.fuse holder = holder
  | .validateAndCommit i _ _ _ => s.UpToDate i
  | .release i _ _ _ => s.UpToDate i

instance (s : System T) (i : Nat) : Decidable (s.UpToDate i) :=
  decidable_of_iff ((s.managers[i]?.all fun resources => resources = s.file.load) = true)
    (by simp [System.UpToDate, Option.all_eq_true])

instance (s : System T) (action : Action T) : Decidable (s.Current action) :=
  match action with
  | .openManager => isTrue trivial
  | .acquire _ _ _ _ => inferInstanceAs (Decidable (_ ∧ _))
  | .validateAndCommit i _ _ _ => inferInstanceAs (Decidable (s.UpToDate i))
  | .release i _ _ _ => inferInstanceAs (Decidable (s.UpToDate i))

/-! ### What the calls do -/

def Opened.stored (o : Opened T) (resourceId : Str) (record : Record T) : Opened T :=
  ⟨o.resources.set resourceId record, .written (o.resources.set resourceId record)⟩

def nextRecord (existing : Option (Record T)) (resourceId holder : Str) (ttl now : T) : Record T where
  resourceId := resourceId
  holder := holder
  generation := (existing.map fun e => e.generation + 1).getD 1
  acquiredAt := now
  expiresAt := now + ttl
  highestCommitted := (existing.map Record.highestCommitted).getD 0

omit [Zero T] in
theorem wp_acquire (o : Opened T) (resourceId holder : Str) (ttl now : T) :
  wp (acquire resourceId holder ttl now)
    (fun r o' => r = nextRecord (o.resources.get? resourceId) resourceId holder ttl now ∧
      (∀ e, o.resources.get? resourceId = some e → now < e.expiresAt → e.holder = holder) ∧
      o' = o.stored resourceId r)
    (fun _ o' => o' = o) o
  := by
  unfold acquire
  dsimp only
  by_cases hresource : ¬ ValidName resourceId
  · rw [if_pos hresource]
    exact rfl
  · rw [if_neg hresource]
    by_cases hholder : ¬ ValidName holder
    · rw [if_pos hholder]
      exact rfl
    · rw [if_neg hholder, wp_bind, wp_get]
      cases hexisting : o.resources.get? resourceId with
      | none =>
        refine ⟨rfl, ?_, rfl⟩
        intro e he
        cases he
      | some e =>
        dsimp only
        split
        · exact rfl
        · next hfree =>
          refine ⟨rfl, ?_, rfl⟩
          intro e' he' hunexpired
          cases he'
          by_contra hother
          exact hfree ⟨hunexpired, hother⟩

omit [Add T] [Zero T] in
theorem wp_validateAndCommit (o : Opened T) (resourceId : Str) (generation : Int)
    (holder : Option Str) (now : T) :
  wp (validateAndCommit resourceId generation holder now)
    (fun _ o' => ∃ e highest, o.resources.get? resourceId = some e ∧ generation = e.generation ∧
      o' = o.stored resourceId { e with highestCommitted := highest })
    (fun _ o' => o' = o) o
  := by
  unfold validateAndCommit
  rw [wp_bind, wp_get]
  cases hexisting : o.resources.get? resourceId with
  | none => exact rfl
  | some e =>
    have hcommit : wp (if generation < e.highestCommitted ∨ generation ≠ e.generation then
          throw (.staleGeneration generation e.highestCommitted)
        else if e.expiresAt ≤ now then throw (.leaseExpired generation e.expiresAt)
        else store resourceId { e with highestCommitted := max e.highestCommitted generation } :
          FencingM T Unit)
        (fun _ o' => ∃ e' highest, some e = some e' ∧ generation = e'.generation ∧
          o' = o.stored resourceId { e' with highestCommitted := highest })
        (fun _ o' => o' = o) o := by
      split_ifs with hstale hexpired
      · exact rfl
      · exact rfl
      · exact ⟨e, _, rfl, not_not.mp fun hne => hstale (.inr hne), rfl⟩
    cases holder with
    | none => exact hcommit
    | some name =>
      dsimp only
      by_cases hname : e.holder ≠ name
      · rw [if_pos hname]
        exact rfl
      · rw [if_neg hname]
        exact hcommit

omit [LinearOrder T] [Add T] in
theorem wp_release (o : Opened T) (resourceId holder : Str) (generation : Option Int) :
  wp (release resourceId holder generation)
    (fun released o' => (released = false ∧ o' = o) ∨
      ∃ e, released = true ∧ o.resources.get? resourceId = some e ∧ e.holder = holder ∧
        o' = o.stored resourceId { e with expiresAt := 0 })
    (fun _ o' => o' = o) o
  := by
  unfold release
  rw [wp_bind, wp_get]
  cases hexisting : o.resources.get? resourceId with
  | none => exact .inl ⟨rfl, rfl⟩
  | some e =>
    dsimp only
    split
    · exact .inl ⟨rfl, rfl⟩
    · next hholder =>
      split
      · exact .inl ⟨rfl, rfl⟩
      · exact .inr ⟨e, rfl, rfl, not_not.mp hholder, rfl⟩

end Managers

/-! ### The invariant -/

section Invariant

variable {T : Type} [LinearOrder T]

def Reached (resources : Resources T) (resourceId : Str) (generation : Int) : Prop :=
  ∃ r, resources.get? resourceId = some r ∧ generation ≤ r.generation

structure Grant.Stands (g : Grant T) (r : Record T) : Prop where
  holder : r.holder = g.holder
  generation : r.generation = g.generation
  expiresAt : r.expiresAt = g.expiresAt

structure System.Sound (s : System T) : Prop where
  granted : ∀ g ∈ s.grants, Reached s.file.load g.resourceId g.generation
  committed : ∀ c ∈ s.commits, Reached s.file.load c.1 c.2
  held : ∀ g ∈ s.held, s.now < g.expiresAt →
    ∃ r, s.file.load.get? g.resourceId = some r ∧ g.Stands r
  unique : s.Unique

theorem sound_start (file : File T) (now : T) :
  (System.start file now).Sound
  where
  granted := by
    intro g hg
    cases hg
  committed := by
    intro c hc
    cases hc
  held := by
    intro g hg
    cases hg
  unique := ⟨List.Pairwise.nil, rfl, List.Pairwise.nil⟩

variable {s : System T}

theorem System.Sound.later (h : s.Sound) {now : T} (hle : s.now ≤ now) :
  System.Sound { s with now := now }
  :=
  ⟨h.granted, h.committed, fun g hg hlt => h.held g hg (hle.trans_lt hlt), h.unique.increasing,
    h.unique.exclusive, h.unique.ordered⟩

theorem System.Sound.managers {s : System T} (h : s.Sound) (managers : List (Resources T)) :
  System.Sound { s with managers := managers }
  :=
  ⟨h.granted, h.committed, h.held, h.unique.increasing, h.unique.exclusive, h.unique.ordered⟩

variable {r : Record T} {resourceId : Str}

omit [LinearOrder T] in
theorem Reached.set {resources : Resources T}
    (hle : ∀ e, resources.get? resourceId = some e → e.generation ≤ r.generation)
    {k : Str} {generation : Int} (h : Reached resources k generation) :
  Reached (resources.set resourceId r) k generation
  := by
  obtain ⟨found, hfound, hgeneration⟩ := h
  rw [Reached, Dict.get?_set]
  split_ifs with hk
  · exact ⟨r, rfl, hgeneration.trans (hle found (hk ▸ hfound))⟩
  · exact ⟨found, hfound, hgeneration⟩

variable {e : Record T}

omit [LinearOrder T] in
theorem Reached.update {resources : Resources T}
    (he : resources.get? resourceId = some e) (hsame : r.generation = e.generation) {k : Str}
    {generation : Int} (h : Reached resources k generation) :
  Reached (resources.set resourceId r) k generation
  := by
  apply h.set
  intro e' he'
  cases he.symm.trans he'
  exact hsame.ge

variable {file : File T}

/-- A lease that is granted with a larger generation, and while no other holder has one. -/
theorem System.Sound.grant (h : s.Sound)
    (hload : file.load = s.file.load.set r.resourceId r)
    (hnext : ∀ e, s.file.load.get? r.resourceId = some e → e.generation < r.generation)
    (hfree : ∀ e, s.file.load.get? r.resourceId = some e → s.now < e.expiresAt →
      e.holder = r.holder) :
  System.Sound (System.granted { s with file := file } r.grant)
  := by
  have hle : ∀ e, s.file.load.get? r.resourceId = some e → e.generation ≤ r.generation :=
    fun e he => (hnext e he).le
  refine ⟨?_, ?_, ?_, ?_, ?_, h.unique.ordered⟩
  · intro g hg
    change Reached file.load _ _
    rw [hload]
    rcases List.mem_append.mp hg with hg | hg
    · exact (h.granted g hg).set hle
    · cases List.mem_singleton.mp hg
      exact ⟨r, by rw [Dict.get?_set]; exact if_pos rfl, le_refl _⟩
  · intro c hc
    change Reached file.load _ _
    rw [hload]
    exact (h.committed c hc).set hle
  · intro g hg hlt
    change ∃ found, file.load.get? _ = _ ∧ _
    rw [hload]
    rcases List.mem_append.mp hg with hg | hg
    · obtain ⟨hg, hother⟩ := List.mem_filter.mp hg
      obtain ⟨e, he, hstands⟩ := h.held g hg hlt
      have hne : g.resourceId ≠ r.resourceId := by
        intro hid
        rw [hid] at he
        have hholder := hfree e he (hstands.expiresAt.symm ▸ hlt)
        exact of_decide_eq_true hother ⟨hid, hstands.holder.symm.trans hholder⟩
      refine ⟨e, ?_, hstands⟩
      rw [Dict.get?_set, if_neg hne, he]
    · cases List.mem_singleton.mp hg
      exact ⟨r, by rw [Dict.get?_set]; exact if_pos rfl, rfl, rfl, rfl⟩
  · refine List.pairwise_append.mpr ⟨h.unique.increasing, List.pairwise_singleton _ _, ?_⟩
    intro g hg g' hg' hid
    cases List.mem_singleton.mp hg'
    obtain ⟨e, he, hgeneration⟩ := h.granted g hg
    have hid : g.resourceId = r.resourceId := hid
    exact hgeneration.trans_lt (hnext e (hid ▸ he))
  · change s.overlaps ++ _ = []
    rw [h.unique.exclusive, List.nil_append, List.map_eq_nil_iff, List.filter_eq_nil_iff]
    intro g hg hblocks
    obtain ⟨hid, hother, hlt⟩ := of_decide_eq_true hblocks
    obtain ⟨e, he, hstands⟩ := h.held g hg hlt
    have hid : g.resourceId = r.resourceId := hid
    apply hother
    rw [← hstands.holder]
    exact hfree e (hid ▸ he) (hstands.expiresAt.symm ▸ hlt)

/-- A write that is committed under the generation of the record. -/
theorem System.Sound.commit (h : s.Sound) (he : s.file.load.get? resourceId = some e)
    (hsame : e.grant.Stands r)
    (hload : file.load = s.file.load.set resourceId r) :
  System.Sound (System.committed { s with file := file } resourceId e.generation)
  := by
  refine ⟨?_, ?_, ?_, h.unique.increasing, h.unique.exclusive, ?_⟩
  · intro g hg
    change Reached file.load _ _
    rw [hload]
    exact (h.granted g hg).update he hsame.generation
  · intro c hc
    change Reached file.load _ _
    rw [hload]
    rcases List.mem_append.mp hc with hc | hc
    · exact (h.committed c hc).update he hsame.generation
    · cases List.mem_singleton.mp hc
      refine ⟨r, ?_, hsame.generation.ge⟩
      rw [Dict.get?_set]
      exact if_pos rfl
  · intro g hg hlt
    change ∃ found, file.load.get? _ = _ ∧ _
    rw [hload]
    obtain ⟨found, hfound, hstands⟩ := h.held g hg hlt
    rw [Dict.get?_set]
    split_ifs with hid
    · rw [hid, he] at hfound
      cases hfound
      exact ⟨r, rfl, hsame.holder.trans hstands.holder, hsame.generation.trans hstands.generation,
        hsame.expiresAt.trans hstands.expiresAt⟩
    · exact ⟨found, hfound, hstands⟩
  · refine List.pairwise_append.mpr ⟨h.unique.ordered, List.pairwise_singleton _ _, ?_⟩
    intro c hc c' hc' hid
    cases List.mem_singleton.mp hc'
    obtain ⟨found, hfound, hgeneration⟩ := h.committed c hc
    rw [hid, he] at hfound
    cases hfound
    exact hgeneration

theorem System.Sound.release (h : s.Sound) (he : s.file.load.get? resourceId = some e)
    (hsame : r.generation = e.generation) (hload : file.load = s.file.load.set resourceId r) :
  System.Sound (System.released { s with file := file } resourceId e.holder e.generation)
  := by
  refine ⟨?_, ?_, ?_, h.unique.increasing, h.unique.exclusive, h.unique.ordered⟩
  · intro g hg
    change Reached file.load _ _
    rw [hload]
    exact (h.granted g hg).update he hsame
  · intro c hc
    change Reached file.load _ _
    rw [hload]
    exact (h.committed c hc).update he hsame
  · intro g hg hlt
    change ∃ found, file.load.get? _ = _ ∧ _
    rw [hload]
    obtain ⟨hg, hother⟩ := List.mem_filter.mp hg
    obtain ⟨found, hfound, hstands⟩ := h.held g hg hlt
    have hne : g.resourceId ≠ resourceId := by
      intro hid
      rw [hid, he] at hfound
      cases hfound
      exact of_decide_eq_true hother ⟨hid, hstands.holder.symm, hstands.generation.symm⟩
    refine ⟨found, ?_, hstands⟩
    rw [Dict.get?_set, if_neg hne, hfound]

end Invariant

/-! ### Runs -/

section Runs

variable {T : Type} [LinearOrder T] [Add T] [Zero T]

variable {s : System T}

section

omit [LinearOrder T] [Add T] [Zero T]

theorem call_of_wp {α : Type} {i : Nat} {m : FencingM T α}
    {note : System T → α → System T} {P : System T → Prop} (hcurrent : s.UpToDate i) (hclosed : P s)
    (h : s.managers[i]? = some s.file.load → ∀ managers : Opened T → List (Resources T),
      wp m (fun a o => P (note { s with file := o.file, managers := managers o } a))
        (fun _ o => P { s with file := o.file, managers := managers o }) ⟨s.file.load, s.file⟩) :
  P (s.call i m note)
  := by
  unfold System.call
  cases hmanager : s.managers[i]? with
  | none => exact hclosed
  | some resources =>
    obtain rfl := hcurrent resources hmanager
    have hwp := h hmanager fun o => s.managers.set i o.resources
    dsimp only
    cases hm : m ⟨s.file.load, s.file⟩ with
    | ok a o => exact normal_of_wp hwp hm
    | error e o => exact raised_of_wp hwp hm

theorem load_stored {file : File T} {resourceId : Str} {r : Record T}
    (hid : Json.fuse resourceId = resourceId) (hr : r.readBack = r) :
  (Opened.stored ⟨file.load, file⟩ resourceId r).file.load = file.load.set resourceId r
  :=
  load_written ((stable_load file).set hid hr)

end

omit [LinearOrder T] [Zero T] in
theorem nextRecord_lt {existing : Option (Record T)} {e : Record T} (resourceId holder : Str)
    (ttl now : T) (h : existing = some e) :
  e.generation < (nextRecord existing resourceId holder ttl now).generation
  := by
  rw [h]
  exact Int.lt_add_one_iff.mpr (le_refl _)

/-- A call of an up-to-date manager keeps the system sound. -/
theorem sound_act (h : s.Sound) {action : Action T} (hcurrent : s.Current action) :
  (s.act action).Sound
  := by
  cases action with
  | openManager => exact h.managers _
  | acquire i resourceId holder ttl =>
    obtain ⟨hcurrent, hid, hholder⟩ := hcurrent
    unfold System.act
    apply call_of_wp hcurrent h
    intro _ managers
    apply wp_mono (wp_acquire _ resourceId holder ttl s.now)
    · rintro r o ⟨rfl, hfree, rfl⟩
      refine System.Sound.managers (System.Sound.grant h ?_ ?_ hfree) _
      · exact load_stored hid (readBack_eq_iff.mpr ⟨hid, hholder⟩)
      · intro e he
        exact nextRecord_lt _ _ _ _ he
    · rintro _ o rfl
      exact h.managers _
  | validateAndCommit i resourceId generation holder =>
    unfold System.act
    apply call_of_wp hcurrent h
    intro _ managers
    apply wp_mono (wp_validateAndCommit _ resourceId generation holder s.now)
    · rintro _ o ⟨e, highest, he, rfl, rfl⟩
      obtain ⟨hid, hr⟩ := stable_load s.file resourceId e he
      have hname := readBack_eq_iff.mp hr
      refine System.Sound.managers (System.Sound.commit h he
        (r := { e with highestCommitted := highest }) ⟨rfl, rfl, rfl⟩ ?_) _
      exact load_stored hid (readBack_eq_iff.mpr ⟨hname.1, hname.2⟩)
    · rintro _ o rfl
      exact h.managers _
  | release i resourceId holder generation =>
    unfold System.act
    apply call_of_wp hcurrent h
    intro hmanager managers
    apply wp_mono (wp_release _ resourceId holder generation)
    · rintro released o (⟨rfl, rfl⟩ | ⟨e, rfl, he, rfl, rfl⟩)
      · exact h.managers _
      · obtain ⟨hid, hr⟩ := stable_load s.file resourceId e he
        have hname := readBack_eq_iff.mp hr
        have hgeneration : s.generation i resourceId = some e.generation := by
          unfold System.generation
          rw [hmanager]
          change (do let r ← s.file.load.get? resourceId; pure r.generation) = _
          have he : s.file.load.get? resourceId = some e := he
          rw [he]
          rfl
        rw [hgeneration]
        refine System.Sound.managers (System.Sound.release h he
          (r := { e with expiresAt := 0 }) rfl ?_) _
        exact load_stored hid (readBack_eq_iff.mpr ⟨hname.1, hname.2⟩)
    · rintro _ o rfl
      exact h.managers _

def Forward (now : T) (steps : List (Action T × T)) : Prop :=
  (now :: steps.map Prod.snd).Pairwise (· ≤ ·)

omit [LinearOrder T] [Add T] [Zero T] in
theorem now_call {α : Type} {i : Nat} {m : FencingM T α}
    {note : System T → α → System T} (hnote : ∀ t a, (note t a).now = t.now) :
  (s.call i m note).now = s.now
  := by
  unfold System.call
  split
  · rfl
  · split
    · rw [hnote]
    · rfl

theorem now_act (s : System T) (action : Action T) :
  (s.act action).now = s.now
  := by
  cases action with
  | openManager => rfl
  | acquire i resourceId holder ttl => exact now_call fun _ _ => rfl
  | validateAndCommit i resourceId generation holder => exact now_call fun _ _ => rfl
  | release i resourceId holder generation =>
    apply now_call
    intro t released
    split <;> rfl

theorem now_run (file : File T) (now : T) (steps : List (Action T × T)) :
  (System.run file now steps).now ∈ now :: steps.map Prod.snd
  := by
  cases steps using List.reverseRecOn with
  | nil => exact List.mem_cons_self
  | append_singleton steps step =>
    rw [System.run, List.foldl_concat, System.after, now_act, List.map_append]
    exact List.mem_cons_of_mem _ (List.mem_append_right _ (List.mem_singleton_self _))

theorem Forward.le {file : File T} {now : T} {steps first : List (Action T × T)} {step : Action T × T}
    (h : Forward now steps) (hinit : first ++ [step] <+: steps) :
  (System.run file now first).now ≤ step.2
  := by
  obtain ⟨rest, rfl⟩ := hinit
  rw [Forward, List.append_assoc, List.map_append, ← List.cons_append, List.pairwise_append] at h
  exact h.2.2 _ (now_run file now first) step.2 (by simp)

/-- In every run of managers that have the copy they would read, at moments that do not decrease and under names that
JSON keeps, generations increase, no lease is granted while another is held, and no write comes after one with a larger
generation. -/
theorem unique_run (file : File T) (now : T) (steps : List (Action T × T))
    (hforward : Forward now steps)
    (h : ∀ first step, first ++ [step] <+: steps →
      (System.run file now first).Current step.1) :
  ∀ first, first <+: steps → (System.run file now first).Unique
  := by
  have hstep : ∀ (s : System T) (step : Action T × T), s.Sound →
      s.now ≤ step.2 ∧ s.Current step.1 → (s.after step).Sound := by
    rintro s ⟨action, moment⟩ hs ⟨hle, hcurrent⟩
    apply sound_act (hs.later hle)
    cases action <;> exact hcurrent
  intro first hinit
  refine (along_of hstep (sound_start file now) ?_ first hinit).unique
  intro before step hbefore
  exact ⟨hforward.le hbefore, h before step hbefore⟩

end Runs

/-! ### Two managers -/

section Example

/-- After the lease of a first manager has ended a second one is opened and leases the resource to another holder. -/
def handedOver : List (Action ℚ × ℚ) :=
  [(.openManager, 0),
    (.acquire 0 (text "shard") (text "worker-1") 10, 0),
    (.validateAndCommit 0 (text "shard") 1 none, 5),
    (.openManager, 20),
    (.acquire 1 (text "shard") (text "worker-2") 10, 20),
    (.validateAndCommit 1 (text "shard") 2 none, 21)]

/-- The generations of the resource are unique. -/
theorem unique_handedOver :
  (System.run .missing 0 handedOver).Unique
  := by
  apply unique_run .missing 0 handedOver _ _ handedOver (List.prefix_refl _)
  · unfold Forward
    decide +kernel
  · rw [Run.forall_concat_prefix]
    decide +kernel

/-- Two managers that were opened on the file before either was called lease the resource to two holders
with the same generation. -/
theorem not_unique :
  Forward 0 [(.openManager, 0), (.openManager, 0),
    (.acquire 0 (text "shard") (text "worker-1") 10, 0),
    (.acquire 1 (text "shard") (text "worker-2") 10, (1 : ℚ))] ∧
  ¬ (System.run .missing 0 [(.openManager, 0), (.openManager, 0),
    (.acquire 0 (text "shard") (text "worker-1") 10, 0),
    (.acquire 1 (text "shard") (text "worker-2") 10, (1 : ℚ))]).Unique
  := by
  refine ⟨?_, ?_⟩
  · unfold Forward
    decide +kernel
  · intro h
    have hoverlaps := h.exclusive
    revert hoverlaps
    decide +kernel

end Example

end Courier.FencingToken
