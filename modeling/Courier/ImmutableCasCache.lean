import Courier.Library.Dict
import Courier.Library.Lines
import Mathlib.Algebra.Order.BigOperators.Group.List
import Mathlib.Algebra.Order.Ring.Rat
import Mathlib.Data.List.Sort
import Mathlib.Tactic.Linarith

/-!
# The content-addressed cache

A cache keeps contents in files under their digests, with an index of their sizes and times.  A content is stored
unless it is in the index already, after the contents that were used least recently were evicted for it (`put`).  An
entry that has expired stays until it is pruned, and a content that is larger than the cache is stored all the same; in
a run without those two the cache stays within its budget and gives what was put (`kept_of_reached`).
-/

namespace Courier.ImmutableCasCache

open Text

structure CacheEntryMetadata where
  digest : Str
  sizeBytes : Nat
  createdAt : ℚ
  expiresAt : Option ℚ
  lastAccessedAt : ℚ
  accessCount : Nat
  tags : List (Str × Str)
  deriving DecidableEq

def CacheEntryMetadata.Expired (entry : CacheEntryMetadata) (now : ℚ) : Prop :=
  entry.expiresAt.any (· < now) = true

instance (entry : CacheEntryMetadata) (now : ℚ) : Decidable (entry.Expired now) :=
  inferInstanceAs (Decidable (_ = _))

inductive CasCacheError where
  | digestMismatch (expected actual : Str)
  | immutableCollision (digest : Str)

/-- `ImmutableCasCache`: its index, and the files of `objects_dir` by their names. -/
structure Cache where
  index : Dict Str CacheEntryMetadata
  files : Dict Str Bytes

/-- The cache over an empty directory. -/
def Cache.empty : Cache :=
  ⟨∅, ∅⟩

def total (index : Dict Str CacheEntryMetadata) : Int :=
  (index.values.map fun entry => (entry.sizeBytes : Int)).sum

/-- The contents are evicted in order, until there is room. -/
def evict (maxBytes incoming : Int) : List CacheEntryMetadata → Int → Cache → Cache
  | [], _, cache => cache
  | entry :: rest, current, cache =>
      if current + incoming ≤ maxBytes then cache
      else evict maxBytes incoming rest (current - entry.sizeBytes)
        ⟨cache.index.erase entry.digest, cache.files.erase entry.digest⟩

def evictLruIfNeeded (maxBytes incoming : Int) (cache : Cache) : Cache :=
  if total cache.index + incoming ≤ maxBytes then cache
  else evict maxBytes incoming
    (cache.index.values.insertionSort fun a b => a.lastAccessedAt ≤ b.lastAccessedAt) (total cache.index) cache

section Operations

variable (sha256 : Bytes → Str) (maxBytes : Int) (defaultTtl : Option ℚ)

def put (cache : Cache) (data : Bytes) (ttl : Option ℚ) (tags : List (Str × Str)) (now : ℚ) :
    Except CasCacheError (Str × Cache) :=
  let digest := sha256 data
  match cache.index.get? digest, cache.files.get? digest with
  | some _, some existing => if existing ≠ data then .error (.immutableCollision digest) else .ok (digest, cache)
  | _, _ =>
      let evicted := evictLruIfNeeded maxBytes data.length cache
      let expiresAt := (ttl.or defaultTtl).map (now + ·)
      .ok (digest, ⟨evicted.index.set digest ⟨digest, data.length, now, expiresAt, now, 0, tags⟩,
        evicted.files.set digest data⟩)

def get (cache : Cache) (digest : Str) (now : ℚ) : Except CasCacheError (Option Bytes × Cache) :=
  match cache.index.get? digest with
  | none => .ok (none, cache)
  | some entry =>
      if entry.Expired now then .ok (none, cache)
      else match cache.files.get? digest with
      | none => .ok (none, cache)
      | some content =>
          if sha256 content ≠ digest then .error (.digestMismatch digest (sha256 content))
          else
            let read := { entry with lastAccessedAt := now, accessCount := entry.accessCount + 1 }
            .ok (some content, { cache with index := cache.index.set digest read })

end Operations

def pruneExpired (cache : Cache) (now : ℚ) : List Str × Cache :=
  let pruned := (cache.index.filter fun _ entry => entry.Expired now).keys
  (pruned, ⟨cache.index.filter fun _ entry => ¬entry.Expired now, cache.files.filter fun digest _ => digest ∉ pruned⟩)

/-! ### Runs -/

section Runs

variable (sha256 : Bytes → Str) (maxBytes : Int) (defaultTtl : Option ℚ)

def Fits (cache : Cache) (data : Bytes) (now : ℚ) : Prop :=
  (data.length : Int) ≤ maxBytes ∧ ∀ entry, cache.index.get? (sha256 data) = some entry → ¬entry.Expired now

inductive Reached : Cache → Prop
  | empty : Reached Cache.empty
  | put {cache after : Cache} {data : Bytes} {ttl : Option ℚ} {tags : List (Str × Str)} {now : ℚ} {digest : Str} :
      Reached cache → (∀ seconds ∈ ttl.or defaultTtl, 0 < seconds) → Fits sha256 maxBytes cache data now →
        put sha256 maxBytes defaultTtl cache data ttl tags now = .ok (digest, after) → Reached after
  | get {cache after : Cache} {digest : Str} {now : ℚ} {content : Option Bytes} :
      Reached cache → get sha256 cache digest now = .ok (content, after) → Reached after
  | pruneExpired {cache : Cache} {now : ℚ} : Reached cache → Reached (pruneExpired cache now).2

structure Kept (cache : Cache) : Prop where
  budget : total cache.index ≤ max maxBytes 0
  digests : ∀ digest entry, cache.index.get? digest = some entry → entry.digest = digest
  files : ∀ digest entry, cache.index.get? digest = some entry →
    ∃ content, cache.files.get? digest = some content ∧ sha256 content = digest

end Runs

/-! ### What the operations keep -/

section Kept

variable {sha256 : Bytes → Str} {maxBytes incoming : Int} {defaultTtl : Option ℚ} {cache after : Cache}
  {index : Dict Str CacheEntryMetadata} {entry : CacheEntryMetadata} {digest : Str} {now : ℚ}

theorem total_erase (h : index.get? digest = some entry) :
  total (index.erase digest) = total index - entry.sizeBytes
  := by
  rw [total, total, ((Dict.perm_values_erase h).map _).sum_eq, List.map_cons, List.sum_cons]
  ring

theorem total_set (index : Dict Str CacheEntryMetadata) (digest : Str) (entry : CacheEntryMetadata) :
  total (index.set digest entry) = entry.sizeBytes + total (index.erase digest)
  := by
  rw [total, total, ((Dict.perm_values_set index digest entry).map _).sum_eq, List.map_cons, List.sum_cons]

theorem total_nonneg (index : Dict Str CacheEntryMetadata) :
  0 ≤ total index
  := by
  refine List.sum_nonneg fun size hsize => ?_
  obtain ⟨entry, -, rfl⟩ := List.mem_map.mp hsize
  omega

theorem Kept.erase (h : Kept sha256 maxBytes cache) (hentry : cache.index.get? digest = some entry) :
  Kept sha256 maxBytes ⟨cache.index.erase digest, cache.files.erase digest⟩
  := by
  have hget : ∀ other found, (cache.index.erase digest).get? other = some found →
      other ≠ digest ∧ cache.index.get? other = some found := by
    intro other found hfound
    rw [Dict.get?_erase] at hfound
    split_ifs at hfound with hother
    exact ⟨hother, hfound⟩
  constructor
  case budget =>
    have hbudget := h.budget
    rw [total_erase hentry]
    omega
  case digests => exact fun other found hfound => h.digests other found (hget other found hfound).2
  case files =>
    intro other found hfound
    obtain ⟨hother, hfound⟩ := hget other found hfound
    obtain ⟨content, hcontent, hsha⟩ := h.files other found hfound
    exact ⟨content, by rw [Dict.get?_erase, if_neg hother]; exact hcontent, hsha⟩

theorem Kept.evict {rest : List CacheEntryMetadata} (h : Kept sha256 maxBytes cache)
    (hrest : rest.Perm cache.index.values) (hfits : incoming ≤ maxBytes) :
  Kept sha256 maxBytes (evict maxBytes incoming rest (total cache.index) cache) ∧
    total (ImmutableCasCache.evict maxBytes incoming rest (total cache.index) cache).index + incoming ≤ maxBytes
  := by
  induction rest generalizing cache with
  | nil =>
    have hempty : total cache.index = 0 := by
      rw [total, List.nil_perm.mp hrest]
      rfl
    refine ⟨h, ?_⟩
    rw [ImmutableCasCache.evict, hempty]
    omega
  | cons entry rest ih =>
    rw [ImmutableCasCache.evict]
    split_ifs with hroom
    · exact ⟨h, hroom⟩
    · obtain ⟨digest, hentry⟩ := Dict.mem_values.mp (hrest.subset List.mem_cons_self)
      obtain rfl := h.digests digest entry hentry
      have hleft : rest.Perm (cache.index.erase entry.digest).values :=
        (hrest.trans (Dict.perm_values_erase hentry)).cons_inv
      rw [← total_erase hentry]
      exact ih (h.erase hentry) hleft

theorem Kept.evictLruIfNeeded (h : Kept sha256 maxBytes cache) (hfits : incoming ≤ maxBytes) :
  Kept sha256 maxBytes (evictLruIfNeeded maxBytes incoming cache) ∧
    total (ImmutableCasCache.evictLruIfNeeded maxBytes incoming cache).index + incoming ≤ maxBytes
  := by
  unfold ImmutableCasCache.evictLruIfNeeded
  split_ifs with hroom
  · exact ⟨h, hroom⟩
  · exact h.evict (List.perm_insertionSort _ _) hfits

theorem Kept.set (h : Kept sha256 maxBytes cache) {files : Dict Str Bytes} (hdigest : entry.digest = digest)
    (hbudget : total (cache.index.set digest entry) ≤ max maxBytes 0)
    (hfile : ∃ content, files.get? digest = some content ∧ sha256 content = digest)
    (hfiles : ∀ other, other ≠ digest → files.get? other = cache.files.get? other) :
  Kept sha256 maxBytes ⟨cache.index.set digest entry, files⟩
  := by
  constructor
  case budget => exact hbudget
  case digests =>
    intro other found hfound
    rw [Dict.get?_set] at hfound
    split_ifs at hfound with hother
    · rw [← Option.some.inj hfound, hdigest, hother]
    · exact h.digests other found hfound
  case files =>
    intro other found hfound
    rw [Dict.get?_set] at hfound
    split_ifs at hfound with hother
    · rw [hother]
      exact hfile
    · rw [hfiles other hother]
      exact h.files other found hfound

/-- What is put is read again at the same time, and the cache is within its budget. -/
theorem Kept.put {data : Bytes} {ttl : Option ℚ} {tags : List (Str × Str)} (h : Kept sha256 maxBytes cache)
    (httl : ∀ seconds ∈ ttl.or defaultTtl, 0 < seconds) (hfits : Fits sha256 maxBytes cache data now)
    (hput : put sha256 maxBytes defaultTtl cache data ttl tags now = .ok (digest, after)) :
  Kept sha256 maxBytes after ∧ total after.index ≤ maxBytes ∧
    ∃ later, get sha256 after digest now = .ok (some data, later)
  := by
  have hread : ∀ {entry}, after.index.get? digest = some entry → ¬entry.Expired now →
      after.files.get? digest = some data → sha256 data = digest →
        ∃ later, get sha256 after digest now = .ok (some data, later) := by
    intro entry hentry hexpired hfile hsha
    rw [get, hentry]
    dsimp only
    rw [if_neg hexpired, hfile]
    dsimp only
    rw [if_neg (not_not.mpr hsha)]
    exact ⟨_, rfl⟩
  obtain ⟨hsize, hunexpired⟩ := hfits
  unfold ImmutableCasCache.put at hput
  dsimp only at hput
  split at hput
  · next entry existing hentry hexisting =>
    split_ifs at hput with hsame
    obtain ⟨rfl, rfl⟩ := Prod.mk.inj (Except.ok.inj hput)
    rw [not_not.mp hsame] at hexisting
    have hbudget := h.budget
    exact ⟨h, by omega, hread hentry (hunexpired entry hentry) hexisting rfl⟩
  · obtain ⟨hkept, hroom⟩ := h.evictLruIfNeeded hsize
    obtain ⟨rfl, rfl⟩ := Prod.mk.inj (Except.ok.inj hput)
    set evicted := ImmutableCasCache.evictLruIfNeeded maxBytes data.length cache
    have hnonneg := total_nonneg (evicted.index.erase (sha256 data))
    have hbudget : ∀ entry : CacheEntryMetadata, entry.sizeBytes = data.length →
        total (evicted.index.set (sha256 data) entry) ≤ maxBytes := by
      intro entry hentry
      rw [total_set, hentry]
      cases hold : evicted.index.get? (sha256 data) with
      | none =>
        rw [Dict.erase_of_notMem hold]
        omega
      | some old =>
        rw [total_erase hold]
        omega
    refine ⟨hkept.set rfl ((hbudget _ rfl).trans (le_max_left _ _)) ⟨data, ?_, rfl⟩ ?_, hbudget _ rfl, ?_⟩
    · rw [Dict.get?_set, if_pos rfl]
    · intro other hother
      rw [Dict.get?_set, if_neg hother]
    · refine hread (by rw [Dict.get?_set, if_pos rfl]) ?_ (by rw [Dict.get?_set, if_pos rfl]) rfl
      unfold CacheEntryMetadata.Expired
      dsimp only
      cases hseconds : ttl.or defaultTtl with
      | none => simp
      | some seconds => simpa using (httl seconds hseconds).le

theorem Kept.get {content : Option Bytes} (h : Kept sha256 maxBytes cache)
    (hget : get sha256 cache digest now = .ok (content, after)) :
  Kept sha256 maxBytes after
  := by
  unfold ImmutableCasCache.get at hget
  split at hget
  · cases hget
    exact h
  · next entry hentry =>
    split_ifs at hget with hexpired
    · cases hget
      exact h
    · split at hget
      · cases hget
        exact h
      · next content hfile =>
        split_ifs at hget with hsha
        cases hget
        refine h.set (h.digests digest entry hentry) ?_ ⟨content, hfile, not_not.mp hsha⟩ fun _ _ => rfl
        have hbudget := h.budget
        rw [total_set, total_erase hentry]
        dsimp only
        omega

theorem Kept.pruneExpired (h : Kept sha256 maxBytes cache) (now : ℚ) :
  Kept sha256 maxBytes (pruneExpired cache now).2
  := by
  have hget : ∀ {digest entry}, (cache.index.filter fun _ entry => ¬entry.Expired now).get? digest = some entry →
      cache.index.get? digest = some entry ∧ ¬entry.Expired now := by
    intro digest entry hentry
    rw [Dict.get?_filter, Option.filter_eq_some_iff, decide_eq_true_eq] at hentry
    exact hentry
  constructor
  case budget =>
    refine le_trans ?_ h.budget
    have hsum : ∀ entries : List (Str × CacheEntryMetadata),
        ((entries.filter fun p => ¬p.2.Expired now).map fun p => (p.2.sizeBytes : Int)).sum ≤
          (entries.map fun p => (p.2.sizeBytes : Int)).sum := by
      intro entries
      induction entries with
      | nil => exact le_refl _
      | cons p entries ih =>
        rw [List.map_cons, List.sum_cons, List.filter_cons]
        split_ifs
        · rw [List.map_cons, List.sum_cons]
          omega
        · omega
    have hindex := hsum cache.index.entries
    simpa only [ImmutableCasCache.pruneExpired, total, Dict.values, Dict.filter, List.map_map, Function.comp_def]
      using hindex
  case digests => exact fun digest entry hentry => h.digests digest entry (hget hentry).1
  case files =>
    intro digest entry hentry
    obtain ⟨hold, hunexpired⟩ := hget hentry
    obtain ⟨content, hcontent, hsha⟩ := h.files digest entry hold
    refine ⟨content, ?_, hsha⟩
    have hleft : digest ∉ (cache.index.filter fun _ entry => entry.Expired now).keys := by
      rw [← Dict.get?_eq_none, Dict.get?_filter, hold]
      simpa using hunexpired
    rw [ImmutableCasCache.pruneExpired, Dict.get?_filter, hcontent]
    simpa using hleft

theorem Reached.kept (h : Reached sha256 maxBytes defaultTtl cache) :
  Kept sha256 maxBytes cache
  := by
  induction h with
  | empty =>
    refine ⟨le_max_right _ _, fun digest entry hentry => ?_, fun digest entry hentry => ?_⟩
    · cases hentry
    · cases hentry
  | put _ httl hfits hput ih => exact (ih.put httl hfits hput).1
  | get _ hget ih => exact ih.get hget
  | pruneExpired _ ih => exact ih.pruneExpired _

theorem kept_of_reached (h : Reached sha256 maxBytes defaultTtl cache) :
  (∀ digest entry, cache.index.get? digest = some entry → ∃ content, cache.files.get? digest = some content) ∧
    ∀ data ttl tags now digest after, (∀ seconds ∈ ttl.or defaultTtl, 0 < seconds) →
      Fits sha256 maxBytes cache data now →
      put sha256 maxBytes defaultTtl cache data ttl tags now = .ok (digest, after) →
        total after.index ≤ maxBytes ∧ ∃ later, get sha256 after digest now = .ok (some data, later)
  := by
  refine ⟨fun digest entry hentry => ?_, fun data ttl tags now digest after httl hfits hput => ?_⟩
  · obtain ⟨content, hcontent, -⟩ := h.kept.files digest entry hentry
    exact ⟨content, hcontent⟩
  · exact (h.kept.put httl hfits hput).2

end Kept

/-- A digest for examples: the bytes themselves. -/
def plainDigest (data : Bytes) : Str :=
  data.map UInt8.toNat

theorem kept_of_empty :
  ∃ digest after later, put plainDigest 10 none Cache.empty [1] (some 5) [] 0 = .ok (digest, after) ∧
    get plainDigest after digest 0 = .ok (some [1], later)
  := by
  obtain ⟨-, later, hlater⟩ := (kept_of_reached (.empty : Reached plainDigest 10 none _)).2 [1] (some 5) [] 0 _ _
    (by simp) ⟨by decide, fun _ hentry => by cases hentry⟩ rfl
  exact ⟨_, _, later, rfl, hlater⟩

theorem kept_fails :
  ∃ first second, put plainDigest 10 none Cache.empty [1] (some 5) [] 0 = .ok ([1], first) ∧
    put plainDigest 10 none first [1] (some 5) [] 6 = .ok ([1], second) ∧
    get plainDigest second [1] 6 = .ok (none, second)
  := by
  refine ⟨_, _, rfl, rfl, ?_⟩
  have hexpired : CacheEntryMetadata.Expired ⟨[1], 1, 0, some (0 + 5), 0, 0, []⟩ 6 := by
    norm_num [CacheEntryMetadata.Expired]
  exact if_pos hexpired

end Courier.ImmutableCasCache
