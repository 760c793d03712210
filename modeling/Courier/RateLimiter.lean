import Courier.Library.Checks
import Courier.Library.Dict
import Courier.Library.Text
import Mathlib.Algebra.Order.Ring.Rat
import Mathlib.Tactic.Linarith

/-!
# Rate limits

A call is granted if the bucket of every rule has the tokens it asks for (`MultiTierRateLimiter.acquire`).  Of rules
with one name only the last is kept (`kept`); what is granted stays within these, and within every rule that they
cover (`limited_of_covered`).
-/

namespace Courier.RateLimiter

open Text

/-! ### Buckets -/

structure TokenBucketLimiter where
  rate : ℚ
  capacity : ℚ
  tokens : ℚ
  lastRefill : ℚ
  deriving DecidableEq

namespace TokenBucketLimiter

def refill (b : TokenBucketLimiter) (now : ℚ) : TokenBucketLimiter :=
  let elapsed := now - b.lastRefill
  if 0 < elapsed then { b with tokens := min b.capacity (b.tokens + elapsed * b.rate), lastRefill := now } else b

def level (b : TokenBucketLimiter) (now : ℚ) : ℚ :=
  (b.refill now).tokens

/-- The tokens are taken. -/
def deduct (b : TokenBucketLimiter) (amount : ℚ) : TokenBucketLimiter :=
  { b with tokens := b.tokens - amount }

end TokenBucketLimiter

structure RateLimitRule where
  name : Str
  rate : ℚ
  capacity : ℚ
  deriving DecidableEq

def RateLimitRule.bucket (now : ℚ) (rule : RateLimitRule) : TokenBucketLimiter :=
  ⟨rule.rate, rule.capacity, rule.capacity, now⟩

/-! ### The limiter -/

def kept (rules : List RateLimitRule) : List RateLimitRule :=
  (rules.foldl (fun buckets rule => buckets.set rule.name rule) (∅ : Dict Str RateLimitRule)).values

/-- The buckets, in the order in which they are asked. -/
structure MultiTierRateLimiter where
  buckets : List TokenBucketLimiter
  deriving DecidableEq

/-- The constructor of the limiter, at a time.  It makes the bucket of every rule. -/
def MultiTierRateLimiter.make (rules : List RateLimitRule) (now : ℚ) : Except Str MultiTierRateLimiter := do
  Except.checkAll (fun rule => do
    Except.check (0 < rule.rate) (text "Rate must be greater than 0")
    Except.check (0 < rule.capacity) (text "Capacity must be greater than 0")) rules
  return ⟨(kept rules).map (RateLimitRule.bucket now)⟩

def firstPass (now amount : ℚ) : List TokenBucketLimiter → Bool × List TokenBucketLimiter
  | [] => (true, [])
  | b :: rest =>
      let b := b.refill now
      if b.tokens < amount then (false, b :: rest)
      else
        let (granted, rest) := firstPass now amount rest
        (granted, b :: rest)

/-- `MultiTierRateLimiter.acquire`, at a time. -/
def MultiTierRateLimiter.acquire (limiter : MultiTierRateLimiter) (now amount : ℚ) : Bool × MultiTierRateLimiter :=
  let (granted, buckets) := firstPass now amount limiter.buckets
  if granted then (true, ⟨buckets.map (·.deduct amount)⟩) else (false, ⟨buckets⟩)

/-! ### Runs -/

/-- A call of the limiter. -/
structure Call where
  now : ℚ
  amount : ℚ

def MultiTierRateLimiter.after (limiter : MultiTierRateLimiter) (calls : List Call) : MultiTierRateLimiter :=
  calls.foldl (fun limiter call => (limiter.acquire call.now call.amount).2) limiter

/-- What is granted from one time to another. -/
def MultiTierRateLimiter.grantedIn (first last : ℚ) : MultiTierRateLimiter → List Call → ℚ
  | _, [] => 0
  | limiter, call :: calls =>
      (if (limiter.acquire call.now call.amount).1 ∧ first ≤ call.now ∧ call.now ≤ last then call.amount else 0) +
        grantedIn first last (limiter.acquire call.now call.amount).2 calls

/-- Calls with positive amounts at times that do not decrease, from a time on. -/
def Ordered : ℚ → List Call → Prop
  | _, [] => True
  | now, call :: calls => now ≤ call.now ∧ 0 < call.amount ∧ Ordered call.now calls

/-- The rules that are kept allow no more than any rule does, in any time. -/
def Covered (rules : List RateLimitRule) : Prop :=
  ∀ rule ∈ rules, ∀ length, 0 ≤ length → ∃ other ∈ kept rules,
    other.capacity + other.rate * length ≤ rule.capacity + rule.rate * length

/-- Every rule is enforced in a run; a call that is refused takes nothing and is refused for lack of tokens. -/
structure Limited (rules : List RateLimitRule) (limiter : MultiTierRateLimiter) (calls : List Call) : Prop where
  rules : ∀ rule ∈ rules, ∀ first last, first ≤ last →
    limiter.grantedIn first last calls ≤ rule.capacity + rule.rate * (last - first)
  bounds : ∀ before, before <+: calls → ∀ b ∈ (limiter.after before).buckets, 0 ≤ b.tokens ∧ b.tokens ≤ b.capacity
  refused : ∀ before call, before ++ [call] <+: calls →
    ((limiter.after before).acquire call.now call.amount).1 = false →
      List.Forall₂ (fun b b' => b' = b ∨ b' = b.refill call.now) (limiter.after before).buckets
        (limiter.after (before ++ [call])).buckets ∧
      ∃ b ∈ (limiter.after before).buckets, b.level call.now < call.amount

/-! ### What a call does -/

namespace TokenBucketLimiter

/-- A bucket at a time. -/
structure Sound (now : ℚ) (b : TokenBucketLimiter) : Prop where
  rate : 0 < b.rate
  nonneg : 0 ≤ b.tokens
  le : b.tokens ≤ b.capacity
  last : b.lastRefill ≤ now

variable {b b' : TokenBucketLimiter} {now x amount : ℚ} {granted : Bool}

theorem level_eq (h : b.Sound now) :
  b.level now = min b.capacity (b.tokens + (now - b.lastRefill) * b.rate)
  := by
  unfold level refill
  dsimp only
  split_ifs with helapsed
  · rfl
  · have hsame : now - b.lastRefill = 0 := by linarith [h.last]
    rw [hsame, zero_mul, add_zero, min_eq_right h.le]

theorem level_le (h : b.Sound now) :
  b.level now ≤ b.capacity
  := by
  rw [level_eq h]
  exact min_le_left _ _

theorem Sound.refill (h : b.Sound now) :
  (b.refill now).Sound now ∧ (b.refill now).rate = b.rate ∧ (b.refill now).capacity = b.capacity
  := by
  have hgrown : 0 ≤ (now - b.lastRefill) * b.rate := mul_nonneg (by linarith [h.last]) h.rate.le
  unfold TokenBucketLimiter.refill
  dsimp only
  split_ifs
  · exact ⟨⟨h.rate, le_min (h.nonneg.trans h.le) (by linarith [h.nonneg]), min_le_left _ _, le_refl _⟩, rfl, rfl⟩
  · exact ⟨h, rfl, rfl⟩

theorem Sound.later (h : b.Sound now) (hle : now ≤ x) :
  b.Sound x
  := ⟨h.rate, h.nonneg, h.le, h.last.trans hle⟩

theorem level_later (h : b.Sound now) (hle : now ≤ x) :
  b.level x ≤ b.level now + b.rate * (x - now)
  := by
  have hgain : 0 ≤ b.rate * (x - now) := mul_nonneg h.rate.le (by linarith)
  rw [level_eq h, level_eq (h.later hle), ← min_add_add_right]
  apply min_le_min
  · linarith
  · linarith

theorem lastRefill_refill (h : b.Sound now) :
  (b.refill now).lastRefill = now
  := by
  unfold TokenBucketLimiter.refill
  dsimp only
  split_ifs
  · rfl
  · linarith [h.last]

theorem Sound.level_eq_tokens (h : b.Sound now) (hlast : b.lastRefill = now) :
  b.level now = b.tokens
  := by
  rw [level_eq h, hlast, sub_self, zero_mul, add_zero, min_eq_right h.le]

/-- What a call makes of a bucket. -/
structure Moved (now amount : ℚ) (granted : Bool) (b b' : TokenBucketLimiter) : Prop where
  sound : b'.Sound now
  rate : b'.rate = b.rate
  capacity : b'.capacity = b.capacity
  level : b'.level now = b.level now - if granted then amount else 0

theorem Sound.moved_self (h : b.Sound now) :
  Moved now amount false b b
  := ⟨h, rfl, rfl, by simp⟩

theorem Sound.moved_refill (h : b.Sound now) :
  Moved now amount false b (b.refill now)
  := by
  obtain ⟨hsound, hrate, hcapacity⟩ := h.refill
  refine ⟨hsound, hrate, hcapacity, ?_⟩
  rw [hsound.level_eq_tokens (lastRefill_refill h)]
  simp [TokenBucketLimiter.level]

theorem Sound.moved_deduct (h : b.Sound now) (hamount : 0 < amount) (hlevel : amount ≤ b.level now) :
  Moved now amount true b ((b.refill now).deduct amount)
  := by
  obtain ⟨hsound, hrate, hcapacity⟩ := h.refill
  have htokens : (b.refill now).tokens = b.level now := rfl
  have hdeducted : ((b.refill now).deduct amount).Sound now := by
    refine ⟨hsound.rate, ?_, ?_, hsound.last⟩
    · simp only [deduct]
      linarith
    · simp only [deduct]
      linarith [hsound.le]
  refine ⟨hdeducted, hrate, hcapacity, ?_⟩
  rw [hdeducted.level_eq_tokens (lastRefill_refill h)]
  rfl

end TokenBucketLimiter

open TokenBucketLimiter

section Calls

variable {limiter : MultiTierRateLimiter} {now x first last amount : ℚ} {buckets : List TokenBucketLimiter}
  {calls : List Call}

theorem firstPass_spec (now amount : ℚ) (buckets : List TokenBucketLimiter) :
  List.Forall₂ (fun b b' => b' = b ∨ b' = b.refill now) buckets (firstPass now amount buckets).2 ∧
    if (firstPass now amount buckets).1 then
      (firstPass now amount buckets).2 = buckets.map (·.refill now) ∧ ∀ b ∈ buckets, amount ≤ b.level now
    else ∃ b ∈ buckets, b.level now < amount
  := by
  induction buckets with
  | nil => simp [firstPass]
  | cons b buckets ih =>
    have hsame : List.Forall₂ (fun b b' => b' = b ∨ b' = b.refill now) buckets buckets :=
      List.forall₂_same.mpr fun _ _ => .inl rfl
    obtain ⟨hpass, hall⟩ := ih
    by_cases hlacks : (b.refill now).tokens < amount
    · simp only [firstPass, if_pos hlacks]
      exact ⟨.cons (.inr rfl) hsame, b, by simp, hlacks⟩
    · simp only [firstPass, if_neg hlacks]
      refine ⟨.cons (.inr rfl) hpass, ?_⟩
      split_ifs at hall ⊢ with hgranted
      · exact ⟨by rw [hall.1]; rfl, List.forall_mem_cons.mpr ⟨not_lt.mp hlacks, hall.2⟩⟩
      · obtain ⟨other, hother, hlevel⟩ := hall
        exact ⟨other, List.mem_cons_of_mem _ hother, hlevel⟩

theorem acquire_moved (hsound : ∀ b ∈ limiter.buckets, b.Sound now) (hamount : 0 < amount) :
  List.Forall₂ (Moved now amount (limiter.acquire now amount).1) limiter.buckets
    (limiter.acquire now amount).2.buckets
  := by
  obtain ⟨hpass, hall⟩ := firstPass_spec now amount limiter.buckets
  unfold MultiTierRateLimiter.acquire
  dsimp only
  split_ifs at hall ⊢ with hgranted
  · rw [hall.1, List.map_map, List.forall₂_map_right_iff]
    exact List.forall₂_same.mpr fun b hb => (hsound b hb).moved_deduct hamount (hall.2 b hb)
  · have hboth := (List.forall₂_and_left _ _).mpr ⟨hsound, hpass⟩
    refine hboth.imp fun b b' ⟨hb, hsame⟩ => ?_
    obtain rfl | rfl := hsame
    · exact hb.moved_self
    · exact hb.moved_refill

theorem exists_moved {R : TokenBucketLimiter → TokenBucketLimiter → Prop} {l l' : List TokenBucketLimiter}
    {b : TokenBucketLimiter} (h : List.Forall₂ R l l') (hb : b ∈ l) :
  ∃ b' ∈ l', R b b'
  := by
  induction h with
  | nil => cases hb
  | cons hmoved _ ih =>
    obtain rfl | hb := List.mem_cons.mp hb
    · exact ⟨_, List.mem_cons_self, hmoved⟩
    · obtain ⟨b', hb', hmoved⟩ := ih hb
      exact ⟨b', List.mem_cons_of_mem _ hb', hmoved⟩

theorem acquire_sound (hsound : ∀ b ∈ limiter.buckets, b.Sound now) (hamount : 0 < amount) :
  ∀ b ∈ (limiter.acquire now amount).2.buckets, b.Sound now
  := by
  intro b' hb'
  obtain ⟨b, -, hmoved⟩ := exists_moved (acquire_moved hsound hamount).flip hb'
  exact hmoved.sound

/-! ### What a run grants -/

theorem grantedIn_after (hordered : Ordered x calls) (hlast : last < x) :
  limiter.grantedIn first last calls = 0
  := by
  induction calls generalizing limiter x with
  | nil => rfl
  | cons call calls ih =>
    obtain ⟨hnow, -, hrest⟩ := hordered
    have hpast : ¬call.now ≤ last := by linarith
    rw [MultiTierRateLimiter.grantedIn, ih hrest (by linarith)]
    simp [hpast]

theorem grantedIn_le_level {b : TokenBucketLimiter} (hordered : Ordered x calls)
    (hsound : ∀ b ∈ limiter.buckets, b.Sound x) (hb : b ∈ limiter.buckets) (hlast : x ≤ last) :
  limiter.grantedIn first last calls ≤ b.level x + b.rate * (last - x)
  := by
  induction calls generalizing limiter x b with
  | nil =>
    have hgain : 0 ≤ b.rate * (last - x) := mul_nonneg (hsound b hb).rate.le (by linarith)
    have hlevel : 0 ≤ b.level x := (hsound b hb).refill.1.nonneg
    rw [MultiTierRateLimiter.grantedIn]
    linarith
  | cons call calls ih =>
    obtain ⟨hnow, hamount, hrest⟩ := hordered
    by_cases hpast : last < call.now
    · have hordered' : Ordered call.now (call :: calls) := ⟨le_refl _, hamount, hrest⟩
      rw [grantedIn_after hordered' hpast]
      have hgain : 0 ≤ b.rate * (last - x) := mul_nonneg (hsound b hb).rate.le (by linarith)
      have hlevel : 0 ≤ b.level x := (hsound b hb).refill.1.nonneg
      linarith
    · have hsound' : ∀ b ∈ limiter.buckets, b.Sound call.now := fun b hb => (hsound b hb).later hnow
      obtain ⟨b', hb', hmoved⟩ := exists_moved (acquire_moved hsound' hamount) hb
      have hgranted := ih hrest (acquire_sound hsound' hamount) hb' (not_lt.mp hpast)
      have hlater := level_later (hsound b hb) hnow
      rw [hmoved.level, hmoved.rate] at hgranted
      rw [MultiTierRateLimiter.grantedIn]
      have hcall : (if (limiter.acquire call.now call.amount).1 ∧ first ≤ call.now ∧ call.now ≤ last then
          call.amount else 0) ≤ if (limiter.acquire call.now call.amount).1 then call.amount else 0 := by
        split_ifs with hin hgranted <;> first | exact le_refl _ | exact absurd hin.1 hgranted | exact hamount.le
      linarith

theorem grantedIn_le {b : TokenBucketLimiter} (hordered : Ordered x calls)
    (hsound : ∀ b ∈ limiter.buckets, b.Sound x) (hb : b ∈ limiter.buckets) (hle : first ≤ last) :
  limiter.grantedIn first last calls ≤ b.capacity + b.rate * (last - first)
  := by
  have hgain : 0 ≤ b.rate * (last - first) := mul_nonneg (hsound b hb).rate.le (by linarith)
  have hcapacity : 0 ≤ b.capacity := (hsound b hb).nonneg.trans (hsound b hb).le
  induction calls generalizing limiter x b with
  | nil =>
    rw [MultiTierRateLimiter.grantedIn]
    linarith
  | cons call calls ih =>
    have hordered' : Ordered call.now (call :: calls) := ⟨le_refl _, hordered.2⟩
    obtain ⟨hnow, hamount, hrest⟩ := hordered
    have hsound' : ∀ b ∈ limiter.buckets, b.Sound call.now := fun b hb => (hsound b hb).later hnow
    by_cases hbefore : call.now < first
    · obtain ⟨b', hb', hmoved⟩ := exists_moved (acquire_moved hsound' hamount) hb
      rw [MultiTierRateLimiter.grantedIn, if_neg fun hin => absurd hin.2.1 (not_le.mpr hbefore), zero_add,
        ← hmoved.capacity, ← hmoved.rate]
      rw [← hmoved.capacity] at hcapacity
      rw [← hmoved.rate] at hgain
      exact ih hrest (acquire_sound hsound' hamount) hb' hgain hcapacity
    · by_cases hpast : last < call.now
      · rw [grantedIn_after hordered' hpast]
        linarith
      · have hgranted : limiter.grantedIn first last (call :: calls) ≤ b.level call.now + b.rate * (last - call.now) :=
          grantedIn_le_level hordered' hsound' hb (not_lt.mp hpast)
        have hless : b.rate * (last - call.now) ≤ b.rate * (last - first) :=
          mul_le_mul_of_nonneg_left (by linarith) (hsound b hb).rate.le
        linarith [level_le (hsound' b hb)]

theorem after_sound (hordered : Ordered x calls) (hsound : ∀ b ∈ limiter.buckets, b.Sound x) {before : List Call}
    (hbefore : before <+: calls) :
  ∃ now, (∀ b ∈ (limiter.after before).buckets, b.Sound now) ∧
    ∀ call, before ++ [call] <+: calls → now ≤ call.now
  := by
  induction calls generalizing limiter x before with
  | nil =>
    obtain rfl := List.prefix_nil.mp hbefore
    exact ⟨x, hsound, by simp⟩
  | cons call calls ih =>
    obtain ⟨hnow, hamount, hrest⟩ := hordered
    cases before with
    | nil =>
      refine ⟨x, hsound, fun other hother => ?_⟩
      obtain rfl : other = call := by simpa using hother
      exact hnow
    | cons other before =>
      obtain ⟨rfl, hrun⟩ := List.cons_prefix_cons.mp hbefore
      obtain ⟨now, hafter, hnext⟩ :=
        ih hrest (acquire_sound (fun b hb => (hsound b hb).later hnow) hamount) hrun
      exact ⟨now, hafter, fun call hcall => hnext call (List.cons_prefix_cons.mp hcall).2⟩

theorem refused_spec (hrefused : (limiter.acquire now amount).1 = false) :
  List.Forall₂ (fun b b' => b' = b ∨ b' = b.refill now) limiter.buckets (limiter.acquire now amount).2.buckets ∧
    ∃ b ∈ limiter.buckets, b.level now < amount
  := by
  obtain ⟨hpass, hall⟩ := firstPass_spec now amount limiter.buckets
  unfold MultiTierRateLimiter.acquire at hrefused ⊢
  dsimp only at hrefused ⊢
  split_ifs at hrefused hall ⊢
  exact ⟨hpass, hall⟩

end Calls

/-! ### The constructor -/

section Constructor

variable {rules : List RateLimitRule} {limiter : MultiTierRateLimiter} {now : ℚ}

theorem mem_kept {rule : RateLimitRule} (hrule : rule ∈ kept rules) :
  rule ∈ rules
  := by
  unfold kept at hrule
  induction rules using List.reverseRecOn with
  | nil => cases hrule
  | append_singleton rules last ih =>
    rw [List.foldl_append, List.foldl_cons, List.foldl_nil, Dict.mem_values] at hrule
    obtain ⟨name, hname⟩ := hrule
    rw [Dict.get?_set] at hname
    split_ifs at hname
    · simp [Option.some.inj hname]
    · exact List.mem_append_left _ (ih (Dict.mem_values.mpr ⟨name, hname⟩))

theorem make_sound (hmake : MultiTierRateLimiter.make rules now = .ok limiter) :
  limiter.buckets = (kept rules).map (RateLimitRule.bucket now) ∧ ∀ b ∈ limiter.buckets, b.Sound now
  := by
  obtain ⟨_, hchecks, hlimiter⟩ := Except.bind_eq_ok.mp hmake
  obtain rfl := Except.ok.inj hlimiter
  refine ⟨rfl, fun b hb => ?_⟩
  obtain ⟨rule, hrule, rfl⟩ := List.mem_map.mp hb
  obtain ⟨_, hrate, hcapacity⟩ := Except.bind_eq_ok.mp (Except.checkAll_eq_ok.mp hchecks rule (mem_kept hrule))
  rw [Except.check_eq_ok] at hrate hcapacity
  exact ⟨hrate, hcapacity.le, le_refl _, le_refl _⟩

theorem limited_of_covered {calls : List Call} (hmake : MultiTierRateLimiter.make rules now = .ok limiter)
    (hcovered : Covered rules) (hordered : Ordered now calls) :
  Limited rules limiter calls
  := by
  obtain ⟨hbuckets, hsound⟩ := make_sound hmake
  constructor
  case rules =>
    intro rule hrule first last hle
    obtain ⟨other, hother, hless⟩ := hcovered rule hrule (last - first) (by linarith)
    have hb : other.bucket now ∈ limiter.buckets := by
      rw [hbuckets]
      exact List.mem_map_of_mem hother
    exact (grantedIn_le hordered hsound hb hle).trans hless
  case bounds =>
    intro before hbefore b hb
    obtain ⟨_, hafter, -⟩ := after_sound hordered hsound hbefore
    exact ⟨(hafter b hb).nonneg, (hafter b hb).le⟩
  case refused =>
    intro before call _ hrefused
    have hspec := refused_spec hrefused
    have hnext : limiter.after (before ++ [call]) = ((limiter.after before).acquire call.now call.amount).2 := by
      simp [MultiTierRateLimiter.after]
    rw [hnext]
    exact hspec

end Constructor

theorem covered_of_nodup {rules : List RateLimitRule} (hnames : (rules.map RateLimitRule.name).Nodup) :
  Covered rules
  := by
  intro rule hrule length _
  refine ⟨rule, ?_, le_refl _⟩
  have hkeys : ((rules.map fun rule => (rule.name, rule)).map Prod.fst).Nodup := by
    simpa [List.map_map, Function.comp_def] using hnames
  have hentries := Dict.entries_foldl_set hkeys
  rw [List.foldl_map] at hentries
  rw [kept, Dict.values, hentries]
  simpa using hrule

theorem limited_of_two_tiers :
  ∃ limiter, MultiTierRateLimiter.make [⟨text "burst", 10, 20⟩, ⟨text "sustained", 1, 100⟩] 0 = .ok limiter ∧
    Limited [⟨text "burst", 10, 20⟩, ⟨text "sustained", 1, 100⟩] limiter [⟨0, 5⟩, ⟨1/2, 20⟩]
  := by
  refine ⟨_, rfl, limited_of_covered rfl (covered_of_nodup (by decide)) ?_⟩
  norm_num [Ordered]

theorem limited_fails :
  ∃ limiter, MultiTierRateLimiter.make [⟨text "calls", 1, 1⟩, ⟨text "calls", 10, 10⟩] 0 = .ok limiter ∧
    Ordered 0 [⟨0, 5⟩] ∧ ¬Limited [⟨text "calls", 1, 1⟩, ⟨text "calls", 10, 10⟩] limiter [⟨0, 5⟩]
  := by
  refine ⟨_, rfl, by norm_num [Ordered], fun hlimited => ?_⟩
  have hgranted := hlimited.rules ⟨text "calls", 1, 1⟩ (by simp) 0 0 (le_refl _)
  revert hgranted
  decide +kernel

end Courier.RateLimiter
