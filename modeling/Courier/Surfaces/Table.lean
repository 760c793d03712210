import Courier.Surfaces

/-!
# The table of surfaces

The surfaces have numbered ids, so that a new surface has a new id, also after a restart
(`Named`).  An intent is queued once, and exactly if the table of intents says so (`Listed`).
-/

namespace Courier.Surfaces

open Program

/-! ### Numbers of surfaces -/

def Names (surfaceId : Str) (n : Nat) : Prop :=
  ∃ g, surfaceId = g ++ (text "-s" ++ Text.natDecimal n)

theorem Names.digits {surfaceId : Str} {n : Nat} (h : Names surfaceId n) :
  surfaceId.rtakeWhile Text.isDigit = Text.natDecimal n
  := by
  obtain ⟨g, rfl⟩ := h
  have hdigits : ∀ c ∈ (Text.natDecimal n).reverse, Text.isDigit c = true := by
    intro c hc
    exact Text.isDigit_of_mem_natDecimal (List.mem_reverse.mp hc)
  rw [List.rtakeWhile, List.reverse_append, List.reverse_append, List.append_assoc,
    List.takeWhile_append_of_pos hdigits]
  simp [text, Text.isDigit]

theorem Names.unique {surfaceId : Str} {n m : Nat} (h : Names surfaceId n) (h' : Names surfaceId m) :
  n = m
  := Text.natDecimal_injective (h.digits.symm.trans h'.digits)

theorem Names.fuse {surfaceId : Str} {n : Nat} (h : Names surfaceId n) :
  Names (Json.fuse surfaceId) n
  := by
  obtain ⟨g, rfl⟩ := h
  refine ⟨Json.fuse g, Json.fuse_append ?_⟩
  rw [Text.Encodable, List.any_append, Bool.or_eq_false_iff, List.any_eq_false, List.any_eq_false]
  constructor
  · simp [text, Text.isSurrogate]
  · intro c hc
    have hdigit := Text.isDigit_of_mem_natDecimal hc
    simp only [Text.isDigit, Text.isSurrogate, Bool.and_eq_true, decide_eq_true_eq] at hdigit ⊢
    omega

theorem Names.ne_nil {surfaceId : Str} {n : Nat} (h : Names surfaceId n) :
  surfaceId ≠ []
  := by
  obtain ⟨g, rfl⟩ := h
  simp [text]

/-! ### Sound states -/

/-- The surfaces stand under their ids, whose numbers differ. -/
structure Named (st : State) : Prop where
  id : ∀ {surfaceId s}, st.surfaces.get? surfaceId = some s → s.surfaceId = surfaceId
  workkey : ∀ {surfaceId s}, st.surfaces.get? surfaceId = some s → Json.fuse s.workkey = s.workkey
  numbered : ∀ {surfaceId s}, st.surfaces.get? surfaceId = some s → ∃ n ≤ st.seq, Names surfaceId n
  apart : ∀ {surfaceId s other o n}, st.surfaces.get? surfaceId = some s →
    st.surfaces.get? other = some o → Names surfaceId n → Names other n → surfaceId = other

structure Listed (st : State) : Prop where
  once : (st.queue.map Queued.intent).Nodup
  marked : ∀ {q}, q ∈ st.queue → ∃ n, st.intents.get? q.intent = some (.queued n)
  listed : ∀ {key n}, st.intents.get? key = some (.queued n) → ∃ q ∈ st.queue, q.intent = key
  kept : ∀ {q}, q ∈ st.queue → q.readBack = q
  keys : st.intents.KeepsKeys

structure Sound (st : State) : Prop extends Named st, Listed st

section Limits

variable [Surroundings] {st st' st'' : State} {surfaceId key : Str} {s s' : Surface} {known : Intent}
  {requests : List Request}

structure Fit (st : State) : Prop where
  alone : ∀ {surfaceId s other o workkey}, st.surfaces.get? surfaceId = some s →
    st.surfaces.get? other = some o → s.RunsOn workkey → o.RunsOn workkey → surfaceId = other
  bounded : st.visibleLive ≤ Surroundings.budget.hard

/-- What is queued and what is worked on was requested; `gone` says whether a surface may be gone without
its intents being forgotten. -/
structure Traced (st : State) (requests : List Request) (gone : Prop) : Prop where
  queued : ∀ {q}, q ∈ st.queue → ∃ r ∈ requests, q = r.queued
  running : ∀ {key surfaceId n}, st.intents.get? key = some (.on surfaceId n) →
    ∃ r ∈ requests, r.intentKey = key ∧
      ∃ s, st.surfaces.get? surfaceId = some s ∧ (s.RunsOn r.workkey ∨ gone ∧ s.state.Dead)

def State.RunsElsewhere (st : State) (surfaceId workkey : Str) : Prop :=
  ∃ other o, other ≠ surfaceId ∧ st.surfaces.get? other = some o ∧ o.RunsOn workkey

/-! ### A surface is changed -/

section

omit [Surroundings]

theorem State.get?_setSurface (st : State) (surfaceId other : Str) (s : Surface) :
  (st.setSurface surfaceId s).surfaces.get? other =
    if other = surfaceId then some s else st.surfaces.get? other
  := Dict.get?_set st.surfaces surfaceId other s

theorem State.visibleLive_setSurface (st : State) (surfaceId : Str) (s : Surface) :
  (st.setSurface surfaceId s).visibleLive +
      ((st.surfaces.get? surfaceId).any fun s => decide s.VisibleLive).toNat =
    st.visibleLive + (decide s.VisibleLive).toNat
  := Dict.countP_values_set st.surfaces surfaceId s fun s => decide s.VisibleLive

theorem Named.setSurface (h : Named st) (hs : st.surfaces.get? surfaceId = some s)
    (hid : s'.surfaceId = s.surfaceId) (hworkkey : Json.fuse s'.workkey = s'.workkey) :
  Named (st.setSurface surfaceId s')
  := by
  have hold : ∀ {other o}, (st.setSurface surfaceId s').surfaces.get? other = some o →
      ∃ o', st.surfaces.get? other = some o' := by
    intro other o ho
    rw [State.get?_setSurface] at ho
    split at ho
    next heq => exact ⟨s, by rw [heq, hs]⟩
    next => exact ⟨o, ho⟩
  refine ⟨?_, ?_, ?_, ?_⟩
  · intro other o ho
    rw [State.get?_setSurface] at ho
    split at ho
    next heq =>
      cases ho
      rw [hid, heq, h.id hs]
    next => exact h.id ho
  · intro other o ho
    rw [State.get?_setSurface] at ho
    split at ho
    next =>
      cases ho
      exact hworkkey
    next => exact h.workkey ho
  · intro other o ho
    obtain ⟨o', ho'⟩ := hold ho
    exact h.numbered ho'
  · intro first o second o' n ho ho' hn hn'
    obtain ⟨_, hfirst⟩ := hold ho
    obtain ⟨_, hsecond⟩ := hold ho'
    exact h.apart hfirst hsecond hn hn'

end

/-- A change of a surface is fit, unless another surface works on its workkey or there are too many
windows. -/
theorem Fit.setSurface_iff (h : Fit st) (hs : st.surfaces.get? surfaceId = some s) (s' : Surface) :
  Fit (st.setSurface surfaceId s') ↔
    ¬ (s'.state.Busy ∧ st.RunsElsewhere surfaceId s'.workkey) ∧
      ¬ (s'.VisibleLive ∧ ¬ s.VisibleLive ∧ Surroundings.budget.hard ≤ st.visibleLive)
  := by
  have hcount := st.visibleLive_setSurface surfaceId s'
  rw [hs, Option.any_some] at hcount
  constructor
  · intro hfit
    refine ⟨?_, ?_⟩
    · rintro ⟨hbusy, other, o, hne, ho, hruns⟩
      have hself : (st.setSurface surfaceId s').surfaces.get? surfaceId = some s' := by
        rw [State.get?_setSurface, if_pos rfl]
      have hother : (st.setSurface surfaceId s').surfaces.get? other = some o := by
        rw [State.get?_setSurface, if_neg hne, ho]
      exact hne (hfit.alone hother hself hruns ⟨rfl, hbusy⟩)
    · rintro ⟨hnew, hold, hfull⟩
      rw [decide_eq_true hnew, decide_eq_false hold] at hcount
      have hbounded := hfit.bounded
      simp only [Bool.toNat_true, Bool.toNat_false] at hcount
      omega
  · rintro ⟨hfree, hroom⟩
    refine ⟨?_, ?_⟩
    · intro first o second o' workkey ho ho' hruns hruns'
      rw [State.get?_setSurface] at ho ho'
      split at ho
      next heq =>
        cases ho
        split at ho'
        next heq' => rw [heq, heq']
        next hne =>
          obtain ⟨rfl, hbusy⟩ := hruns
          exact absurd ⟨hbusy, second, o', hne, ho', hruns'⟩ hfree
      next hne =>
        split at ho'
        next heq' =>
          cases ho'
          obtain ⟨rfl, hbusy⟩ := hruns'
          exact absurd ⟨hbusy, first, o, hne, ho, hruns⟩ hfree
        next => exact h.alone ho ho' hruns hruns'
    · have hbounded := h.bounded
      by_cases hnew : s'.VisibleLive
      · by_cases hold : s.VisibleLive
        · rw [decide_eq_true hnew, decide_eq_true hold] at hcount
          omega
        · rw [decide_eq_true hnew, decide_eq_false hold] at hcount
          simp only [Bool.toNat_true, Bool.toNat_false] at hcount
          by_contra hfull
          exact hroom ⟨hnew, hold, by omega⟩
      · rw [decide_eq_false hnew] at hcount
        simp only [Bool.toNat_false] at hcount
        omega

theorem Fit.setSurface (h : Fit st) (hs : st.surfaces.get? surfaceId = some s)
    (hruns : ∀ workkey, s'.RunsOn workkey → ¬ st.RunsElsewhere surfaceId workkey)
    (hlive : s'.VisibleLive → s.VisibleLive) :
  Fit (st.setSurface surfaceId s')
  := by
  rw [h.setSurface_iff hs]
  refine ⟨?_, ?_⟩
  · rintro ⟨hbusy, helsewhere⟩
    exact hruns _ ⟨rfl, hbusy⟩ helsewhere
  · rintro ⟨hnew, hold, -⟩
    exact hold (hlive hnew)

theorem Traced.setSurface {gone : Prop} (h : Traced st requests gone)
    (hs : st.surfaces.get? surfaceId = some s)
    (hkeeps : ∀ key n, st.intents.get? key = some (.on surfaceId n) → ∀ workkey,
      s.RunsOn workkey ∨ gone ∧ s.state.Dead → s'.RunsOn workkey ∨ gone ∧ s'.state.Dead) :
  Traced (st.setSurface surfaceId s') requests gone
  where
  queued := h.queued
  running := by
    intro key other n hknown
    obtain ⟨r, hr, hkey, o, ho, hruns⟩ := h.running hknown
    refine ⟨r, hr, hkey, ?_⟩
    by_cases heq : other = surfaceId
    · obtain rfl := heq
      rw [hs] at ho
      cases ho
      exact ⟨s', by rw [State.get?_setSurface, if_pos rfl], hkeeps key n hknown _ hruns⟩
    · exact ⟨o, by rw [State.get?_setSurface, if_neg heq, ho], hruns⟩

/-! ### Changes of the state -/

structure Moves (st st' : State) (requests : List Request) (gone : Prop) : Prop where
  sound : Sound st'
  fit : Fit st → Fit st'
  traced : Traced st requests gone → Traced st' requests gone

variable {gone : Prop} {r : Request} {q : Queued}

theorem Sound.moves (h : Sound st) :
  Moves st st requests gone
  := ⟨h, id, id⟩

theorem Moves.trans (h : Moves st st' requests gone) (h' : Moves st' st'' requests gone) :
  Moves st st'' requests gone
  := ⟨h'.sound, fun hfit => h'.fit (h.fit hfit), fun htraced => h'.traced (h.traced htraced)⟩

structure State.Same (st st' : State) : Prop where
  surfaces : st'.surfaces = st.surfaces
  intents : st'.intents = st.intents
  queue : st'.queue = st.queue
  seq : st'.seq = st.seq

section

omit [Surroundings]

theorem State.Same.refl (st : State) :
  st.Same st
  := ⟨rfl, rfl, rfl, rfl⟩

theorem State.Same.symm (h : st.Same st') :
  st'.Same st
  := ⟨h.surfaces.symm, h.intents.symm, h.queue.symm, h.seq.symm⟩

end

theorem Sound.moves_same (h : Sound st) (hsame : st.Same st') :
  Moves st st' requests gone
  := by
  obtain ⟨surfaces, intents, queue, coalescedTotal, seq⟩ := st'
  obtain ⟨rfl, rfl, rfl, rfl⟩ := hsame
  exact ⟨⟨⟨h.id, h.workkey, h.numbered, h.apart⟩, h.once, h.marked, h.listed, h.kept, h.keys⟩,
    fun hfit => ⟨hfit.alone, hfit.bounded⟩, fun htraced => ⟨htraced.queued, htraced.running⟩⟩

theorem Sound.moves_setSurface (h : Sound st) (hs : st.surfaces.get? surfaceId = some s)
    (hid : s'.surfaceId = s.surfaceId) (hworkkey : Json.fuse s'.workkey = s'.workkey)
    (hruns : ∀ workkey, s'.RunsOn workkey → ¬ st.RunsElsewhere surfaceId workkey)
    (hlive : s'.VisibleLive → s.VisibleLive)
    (hkeeps : ∀ workkey, s.RunsOn workkey ∨ gone ∧ s.state.Dead →
      s'.RunsOn workkey ∨ gone ∧ s'.state.Dead) :
  Moves st (st.setSurface surfaceId s') requests gone
  where
  sound := ⟨h.toNamed.setSurface hs hid hworkkey, h.once, h.marked, h.listed, h.kept, h.keys⟩
  fit := fun hfit => hfit.setSurface hs hruns hlive
  traced := fun htraced => htraced.setSurface hs fun _ _ _ => hkeeps

section

omit [Surroundings]

theorem State.get?_setIntent (st : State) (key other : Str) (known : Intent) :
  (st.setIntent key known).intents.get? other =
    if other = key then some known else st.intents.get? other
  := Dict.get?_set st.intents key other known

theorem Listed.setIntent_on (h : Listed st) (hkey : Json.fuse key = key)
    (hfree : ∀ n, st.intents.get? key ≠ some (.queued n)) (n : Nat) :
  Listed (st.setIntent key (.on surfaceId n))
  where
  once := h.once
  marked := by
    intro q hq
    obtain ⟨m, hm⟩ := h.marked hq
    refine ⟨m, ?_⟩
    rw [State.get?_setIntent, if_neg _, hm]
    rintro heq
    rw [heq] at hm
    exact hfree m hm
  listed := by
    intro other m hm
    rw [State.get?_setIntent] at hm
    split at hm
    next => cases hm
    next => exact h.listed hm
  kept := h.kept
  keys := by
    intro other known hknown
    have hknown' := (st.get?_setIntent key other (.on surfaceId n)).symm.trans hknown
    split at hknown'
    next heq => rw [heq, hkey]
    next => exact h.keys other known hknown'

end

theorem Sound.moves_setIntent (h : Sound st) (hkey : Json.fuse r.intentKey = r.intentKey)
    (hfree : ∀ n, st.intents.get? r.intentKey ≠ some (.queued n)) (hr : r ∈ requests)
    (hs : st.surfaces.get? surfaceId = some s) (hruns : s.RunsOn r.workkey) (n : Nat) :
  Moves st (st.setIntent r.intentKey (.on surfaceId n)) requests gone
  where
  sound := ⟨⟨h.id, h.workkey, h.numbered, h.apart⟩, h.toListed.setIntent_on hkey hfree n⟩
  fit := fun hfit => ⟨hfit.alone, hfit.bounded⟩
  traced := by
    intro htraced
    refine ⟨htraced.queued, ?_⟩
    intro other sid m hm
    rw [State.get?_setIntent] at hm
    split at hm
    next heq =>
      cases hm
      exact ⟨r, hr, heq.symm, s, hs, .inl hruns⟩
    next => exact htraced.running hm

/-- An intent is requested once more. -/
theorem Sound.moves_again (h : Sound st) (hknown : st.intents.get? key = some known) :
  Moves st (st.setIntent key known.again) requests gone
  := by
  have hback : ∀ {other found}, (st.setIntent key known.again).intents.get? other = some found →
      ∃ found', st.intents.get? other = some found' ∧ (found = found' ∨ found = found'.again) := by
    intro other found hfound
    rw [State.get?_setIntent] at hfound
    split at hfound
    next heq =>
      cases hfound
      exact ⟨known, by rw [heq, hknown], .inr rfl⟩
    next => exact ⟨found, hfound, .inl rfl⟩
  refine ⟨⟨⟨h.id, h.workkey, h.numbered, h.apart⟩, h.once, ?_, ?_, h.kept, ?_⟩,
    fun hfit => ⟨hfit.alone, hfit.bounded⟩, ?_⟩
  · intro q hq
    obtain ⟨n, hn⟩ := h.marked hq
    rw [State.get?_setIntent]
    split
    next heq =>
      rw [← heq, hn] at hknown
      cases hknown
      exact ⟨n + 1, rfl⟩
    next => exact ⟨n, hn⟩
  · intro other n hn
    obtain ⟨found, hfound, rfl | heq⟩ := hback hn
    · exact h.listed hfound
    · cases found with
      | on sid m => cases heq
      | queued m => exact h.listed hfound
  · intro other found hfound
    obtain ⟨found', hfound', -⟩ := hback hfound
    exact h.keys other found' hfound'
  · intro htraced
    refine ⟨htraced.queued, ?_⟩
    intro other sid n hn
    obtain ⟨found, hfound, rfl | heq⟩ := hback hn
    · exact htraced.running hfound
    · cases found with
      | on sid' m =>
        cases heq
        exact htraced.running hfound
      | queued m => cases heq

theorem Sound.moves_enqueue (h : Sound st) (hkept : r.queued.readBack = r.queued)
    (hfree : ∀ n, st.intents.get? r.intentKey ≠ some (.queued n)) (hr : r ∈ requests) :
  Moves st ((st.enqueue r.queued).setIntent r.intentKey (.queued 1)) requests gone
  := by
  have hkey : Json.fuse r.intentKey = r.intentKey := congrArg Queued.intent hkept
  refine ⟨⟨⟨h.id, h.workkey, h.numbered, h.apart⟩, ?_, ?_, ?_, ?_, ?_⟩,
    fun hfit => ⟨hfit.alone, hfit.bounded⟩, ?_⟩
  · change ((st.queue ++ [r.queued]).map Queued.intent).Nodup
    rw [List.map_append, List.nodup_append]
    refine ⟨h.once, List.nodup_singleton _, ?_⟩
    intro key hold key' hnew
    obtain ⟨q, hq, rfl⟩ := List.mem_map.mp hold
    obtain rfl := List.mem_singleton.mp hnew
    rintro heq
    obtain ⟨n, hn⟩ := h.marked hq
    rw [heq] at hn
    exact hfree n hn
  · intro q hq
    rw [State.get?_setIntent]
    split
    next => exact ⟨1, rfl⟩
    next hne =>
      rcases List.mem_append.mp hq with hq | hq
      · exact h.marked hq
      · obtain rfl := List.mem_singleton.mp hq
        exact absurd rfl hne
  · intro other n hn
    rw [State.get?_setIntent] at hn
    split at hn
    next heq => exact ⟨r.queued, List.mem_append_right _ (List.mem_singleton_self _), heq.symm⟩
    next =>
      obtain ⟨q, hq, heq⟩ := h.listed hn
      exact ⟨q, List.mem_append_left _ hq, heq⟩
  · intro q hq
    rcases List.mem_append.mp hq with hq | hq
    · exact h.kept hq
    · obtain rfl := List.mem_singleton.mp hq
      exact hkept
  · intro other found hfound
    have hfound' := ((st.enqueue r.queued).get?_setIntent r.intentKey other (.queued 1)).symm.trans
      hfound
    split at hfound'
    next heq => rw [heq, hkey]
    next => exact h.keys other found hfound'
  · intro htraced
    refine ⟨?_, ?_⟩
    · intro q hq
      rcases List.mem_append.mp hq with hq | hq
      · exact htraced.queued hq
      · obtain rfl := List.mem_singleton.mp hq
        exact ⟨r, hr, rfl⟩
    · intro other sid n hn
      rw [State.get?_setIntent] at hn
      split at hn
      next => cases hn
      next => exact htraced.running hn

theorem names_surfaceName (n : Nat) :
  Names (surfaceName n) n
  := ⟨Surroundings.host, List.append_assoc ..⟩

theorem Named.get?_next (h : Named st) :
  st.surfaces.get? (surfaceName (st.seq + 1)) = none
  := by
  by_contra hsome
  obtain ⟨s, hs⟩ := Option.ne_none_iff_exists'.mp hsome
  obtain ⟨n, hle, hn⟩ := h.numbered hs
  have heq := hn.unique (names_surfaceName (st.seq + 1))
  omega

def State.registered (st : State) (s : Surface) : State :=
  { st.setSurface (surfaceName (st.seq + 1)) s with seq := st.seq + 1 }

theorem Sound.moves_registered (h : Sound st) (hid : s.surfaceId = surfaceName (st.seq + 1))
    (hworkkey : Json.fuse s.workkey = s.workkey)
    (hfree : ∀ other o, st.surfaces.get? other = some o → ¬ o.RunsOn s.workkey)
    (hroom : s.VisibleLive → st.visibleLive < Surroundings.budget.hard) :
  Moves st (st.registered s) requests gone
  := by
  have hnew := h.get?_next
  have hget : ∀ other, (st.registered s).surfaces.get? other =
      if other = surfaceName (st.seq + 1) then some s else st.surfaces.get? other :=
    fun other => st.get?_setSurface _ other s
  have hnames : Names (surfaceName (st.seq + 1)) (st.seq + 1) := names_surfaceName _
  refine ⟨⟨⟨?_, ?_, ?_, ?_⟩, h.once, h.marked, h.listed, h.kept, h.keys⟩, ?_, ?_⟩
  · intro other o ho
    rw [hget] at ho
    split at ho
    next heq =>
      cases ho
      rw [hid, heq]
    next => exact h.id ho
  · intro other o ho
    rw [hget] at ho
    split at ho
    next =>
      cases ho
      exact hworkkey
    next => exact h.workkey ho
  · intro other o ho
    rw [hget] at ho
    split at ho
    next heq => exact ⟨st.seq + 1, le_refl _, by rw [heq]; exact hnames⟩
    next =>
      obtain ⟨n, hle, hn⟩ := h.numbered ho
      exact ⟨n, Nat.le_succ_of_le hle, hn⟩
  · have hold : ∀ {other o n}, st.surfaces.get? other = some o → Names other n → n ≠ st.seq + 1 := by
      intro other o n ho hn heq
      obtain ⟨m, hle, hm⟩ := h.numbered ho
      have hmn := hm.unique hn
      omega
    intro first o second o' n ho ho' hn hn'
    rw [hget] at ho ho'
    split at ho
    next heq =>
      split at ho'
      next heq' => rw [heq, heq']
      next =>
        rw [heq] at hn
        exact absurd (hn.unique hnames) (hold ho' hn')
    next =>
      split at ho'
      next heq' =>
        rw [heq'] at hn'
        exact absurd (hn'.unique hnames) (hold ho hn)
      next => exact h.apart ho ho' hn hn'
  · intro hfit
    refine ⟨?_, ?_⟩
    · intro first o second o' workkey ho ho' hruns hruns'
      rw [hget] at ho ho'
      split at ho
      next heq =>
        cases ho
        split at ho'
        next heq' => rw [heq, heq']
        next =>
          rw [hruns.1] at hfree
          exact absurd hruns' (hfree second o' ho')
      next =>
        split at ho'
        next heq' =>
          cases ho'
          rw [hruns'.1] at hfree
          exact absurd hruns (hfree first o ho)
        next => exact hfit.alone ho ho' hruns hruns'
    · have hcount := st.visibleLive_setSurface (surfaceName (st.seq + 1)) s
      have hbounded := hfit.bounded
      rw [hnew] at hcount
      change (st.setSurface (surfaceName (st.seq + 1)) s).visibleLive ≤ _
      by_cases hlive : s.VisibleLive
      · have hlt := hroom hlive
        simp only [Option.any_none, Bool.toNat_false, decide_eq_true hlive, Bool.toNat_true] at hcount
        omega
      · simp only [Option.any_none, Bool.toNat_false, decide_eq_false hlive] at hcount
        omega
  · intro htraced
    refine ⟨htraced.queued, ?_⟩
    intro key other n hknown
    obtain ⟨r, hr, hkey, o, ho, hruns⟩ := htraced.running hknown
    refine ⟨r, hr, hkey, o, ?_, hruns⟩
    rw [hget, if_neg _, ho]
    rintro rfl
    rw [hnew] at ho
    cases ho

/-! ### Intents are forgotten, and handed over -/

section

omit [Surroundings]

theorem State.get?_dropIntents (st : State) (surfaceId key : Str) :
  (st.dropIntents surfaceId).intents.get? key =
    (st.intents.get? key).filter fun known => decide (¬ known.IsOn surfaceId)
  := Dict.get?_filter _ st.intents key

theorem State.dropIntents_ne (st : State) (surfaceId key : Str) (n : Nat) :
  (st.dropIntents surfaceId).intents.get? key ≠ some (.on surfaceId n)
  := by
  rw [State.get?_dropIntents]
  intro hknown
  obtain ⟨-, hnot⟩ := Option.filter_eq_some_iff.mp hknown
  exact absurd rfl (of_decide_eq_true hnot)

theorem Listed.filter (h : Listed st) {p : Str → Intent → Bool} (hp : ∀ key n, p key (.queued n) = true) :
  Listed { st with intents := st.intents.filter p }
  where
  once := h.once
  marked := by
    intro q hq
    obtain ⟨n, hn⟩ := h.marked hq
    refine ⟨n, ?_⟩
    rw [Dict.get?_filter, hn, Option.filter_some, if_pos (hp _ n)]
  listed := by
    intro key n hn
    rw [Dict.get?_filter] at hn
    exact h.listed (Option.filter_eq_some_iff.mp hn).1
  kept := h.kept
  keys := by
    intro key known hknown
    rw [Dict.get?_filter] at hknown
    exact h.keys key known (Option.filter_eq_some_iff.mp hknown).1

end

theorem Sound.moves_dropIntents (h : Sound st) (surfaceId : Str) :
  Moves st (st.dropIntents surfaceId) requests gone
  where
  sound := ⟨⟨h.id, h.workkey, h.numbered, h.apart⟩, h.toListed.filter fun _ _ => decide_eq_true id⟩
  fit := fun hfit => ⟨hfit.alone, hfit.bounded⟩
  traced := by
    intro htraced
    refine ⟨htraced.queued, ?_⟩
    intro key other n hn
    rw [State.get?_dropIntents] at hn
    exact htraced.running (Option.filter_eq_some_iff.mp hn).1

theorem Sound.moves_handOver (h : Sound st) (hq : q ∈ st.queue)
    (hs : st.surfaces.get? surfaceId = some s) (hruns : s.RunsOn q.workkey) (n : Nat) :
  Moves st ((st.dequeue q).setIntent q.intent (.on surfaceId n)) requests gone
  := by
  have hsub : st.queue.erase q ⊆ st.queue := List.erase_subset
  have hinj := List.inj_on_of_nodup_map h.once
  have hqueue : st.queue.Nodup := h.once.of_map
  have hne : ∀ {q'}, q' ∈ st.queue.erase q → q'.intent ≠ q.intent := by
    intro q' hq' heq
    rw [hqueue.mem_erase_iff] at hq'
    exact hq'.1 (hinj hq'.2 hq heq)
  refine ⟨⟨⟨h.id, h.workkey, h.numbered, h.apart⟩, ?_, ?_, ?_, ?_, ?_⟩,
    fun hfit => ⟨hfit.alone, hfit.bounded⟩, ?_⟩
  · exact h.once.sublist (List.erase_sublist.map Queued.intent)
  · intro q' hq'
    obtain ⟨m, hm⟩ := h.marked (hsub hq')
    refine ⟨m, ?_⟩
    rw [State.get?_setIntent, if_neg (hne hq')]
    exact hm
  · intro key m hm
    rw [State.get?_setIntent] at hm
    split at hm
    next => cases hm
    next hkey =>
      obtain ⟨q', hq', rfl⟩ := h.listed hm
      refine ⟨q', ?_, rfl⟩
      apply hqueue.mem_erase_iff.mpr ⟨_, hq'⟩
      rintro rfl
      exact hkey rfl
  · exact fun hq' => h.kept (hsub hq')
  · intro key known hknown
    have hknown' := ((st.dequeue q).get?_setIntent q.intent key (.on surfaceId n)).symm.trans hknown
    split at hknown'
    next heq =>
      rw [heq]
      exact congrArg Queued.intent (h.kept hq)
    next => exact h.keys key known hknown'
  · intro htraced
    refine ⟨fun hq' => htraced.queued (hsub hq'), ?_⟩
    intro key other m hm
    rw [State.get?_setIntent] at hm
    split at hm
    next heq =>
      cases hm
      obtain ⟨r, hr, rfl⟩ := htraced.queued hq
      exact ⟨r, hr, heq.symm, s, hs, .inl hruns⟩
    next => exact htraced.running hm

section

omit [Surroundings]

theorem State.alive_iff (st : State) (surfaceId : Str) :
  st.Alive surfaceId ↔ ∃ s, st.surfaces.get? surfaceId = some s ∧ ¬ s.state.Dead
  := by
  simp [State.Alive, Option.any_eq_true]

theorem Sound.dropGone (h : Sound st) :
  Sound st.dropGone
  := ⟨⟨h.id, h.workkey, h.numbered, h.apart⟩,
    h.toListed.filter fun _ _ => decide_eq_true (.inl trivial)⟩

end

theorem Traced.dropGone (h : Traced st requests True) (hnamed : Named st) :
  Traced st.dropGone requests False
  where
  queued := h.queued
  running := by
    intro key surfaceId n hn
    have hfiltered := (Dict.get?_filter
      (fun _ known => decide (st.Pending known ∨ known.surfaceId = [])) st.intents key).symm.trans hn
    obtain ⟨hknown, hkept⟩ := Option.filter_eq_some_iff.mp hfiltered
    obtain ⟨r, hr, hkey, s, hs, hruns⟩ := h.running hknown
    refine ⟨r, hr, hkey, s, hs, ?_⟩
    obtain halive | hempty := of_decide_eq_true hkept
    · obtain ⟨s', hs', hlive⟩ := (st.alive_iff surfaceId).mp halive
      rw [hs] at hs'
      cases hs'
      rcases hruns with hruns | ⟨-, hdead⟩
      · exact .inl hruns
      · exact absurd hdead hlive
    · obtain ⟨m, -, hm⟩ := hnamed.numbered hs
      exact absurd hempty hm.ne_nil

/-! ### Restart -/

section

omit [Surroundings]

theorem Named.separates (h : Named st) :
  st.surfaces.Separates
  := by
  intro first second s o hs ho heq
  obtain ⟨n, -, hn⟩ := h.numbered hs
  obtain ⟨m, -, hm⟩ := h.numbered ho
  have hfused := hn.fuse
  rw [heq] at hfused
  rw [hm.fuse.unique hfused] at hm
  exact h.apart hs ho hn hm

theorem Listed.readBack_queue (h : Listed st) :
  st.queue.map Queued.readBack = st.queue
  := by
  conv_rhs => rw [← List.map_id st.queue]
  exact List.map_congr_left fun q hq => h.kept hq

end

/-- What is read back is sound, and fit and traced if what was written was. -/
theorem Sound.moves_load (h : Sound st) :
  Moves st (State.load (some st)) requests gone
  := by
  have hsurface : ∀ {surfaceId s}, (State.load (some st)).surfaces.get? surfaceId = some s ↔
      ∃ sid o, st.surfaces.get? sid = some o ∧ Json.fuse sid = surfaceId ∧ o.readBack = s :=
    Dict.get?_readBack_eq_some h.separates
  have hintent : ∀ key, (State.load (some st)).intents.get? key =
      (st.intents.get? key).map Intent.readBack := Dict.get?_readBack h.keys _
  have hqueue : (State.load (some st)).queue = st.queue := h.readBack_queue
  have hruns : ∀ {sid o workkey}, st.surfaces.get? sid = some o →
      (o.readBack.RunsOn workkey ↔ o.RunsOn workkey) := by
    intro sid o workkey ho
    have hkept : o.readBack.workkey = o.workkey := h.workkey ho
    rw [Surface.RunsOn, Surface.RunsOn, hkept]
    rfl
  refine ⟨⟨⟨?_, ?_, ?_, ?_⟩, ?_, ?_, ?_, ?_, ?_⟩, ?_, ?_⟩
  · intro surfaceId s hs
    obtain ⟨sid, o, ho, rfl, rfl⟩ := hsurface.mp hs
    exact congrArg Json.fuse (h.id ho)
  · intro surfaceId s hs
    obtain ⟨sid, o, ho, rfl, rfl⟩ := hsurface.mp hs
    exact Json.fuse_fuse o.workkey
  · intro surfaceId s hs
    obtain ⟨sid, o, ho, rfl, rfl⟩ := hsurface.mp hs
    obtain ⟨n, hle, hn⟩ := h.numbered ho
    exact ⟨n, hle, hn.fuse⟩
  · intro first s second s' n hs hs' hn hn'
    obtain ⟨sid, o, ho, rfl, rfl⟩ := hsurface.mp hs
    obtain ⟨sid', o', ho', rfl, rfl⟩ := hsurface.mp hs'
    obtain ⟨m, -, hm⟩ := h.numbered ho
    obtain ⟨m', -, hm'⟩ := h.numbered ho'
    rw [hm.fuse.unique hn] at hm
    rw [hm'.fuse.unique hn'] at hm'
    rw [h.apart ho ho' hm hm']
  · rw [hqueue]
    exact h.once
  · intro q hq
    rw [hqueue] at hq
    obtain ⟨n, hn⟩ := h.marked hq
    exact ⟨n, by rw [hintent, hn]; rfl⟩
  · intro key n hn
    rw [hintent] at hn
    obtain ⟨known, hknown, heq⟩ := Option.map_eq_some_iff.mp hn
    rw [hqueue]
    cases known with
    | on sid m => cases heq
    | queued m => exact h.listed hknown
  · intro q hq
    rw [hqueue] at hq
    exact h.kept hq
  · intro key known hknown
    rw [hintent] at hknown
    obtain ⟨known', hknown', -⟩ := Option.map_eq_some_iff.mp hknown
    exact h.keys key known' hknown'
  · intro hfit
    refine ⟨?_, ?_⟩
    · intro first s second s' workkey hs hs' hfirst hsecond
      obtain ⟨sid, o, ho, rfl, rfl⟩ := hsurface.mp hs
      obtain ⟨sid', o', ho', rfl, rfl⟩ := hsurface.mp hs'
      rw [hfit.alone ho ho' ((hruns ho).mp hfirst) ((hruns ho').mp hsecond)]
    · have hcount := Dict.countP_readBack (p := fun s => decide s.VisibleLive) h.separates
        fun s : Surface => (rfl : decide s.readBack.VisibleLive = decide s.VisibleLive)
      exact hcount.trans_le hfit.bounded
  · intro htraced
    refine ⟨?_, ?_⟩
    · intro q hq
      rw [hqueue] at hq
      exact htraced.queued hq
    · intro key surfaceId n hn
      rw [hintent] at hn
      obtain ⟨known, hknown, heq⟩ := Option.map_eq_some_iff.mp hn
      cases known with
      | queued m => cases heq
      | on sid m =>
        cases heq
        obtain ⟨r, hr, hkey, o, ho, hworks⟩ := htraced.running hknown
        refine ⟨r, hr, hkey, o.readBack, hsurface.mpr ⟨sid, o, ho, rfl, rfl⟩, ?_⟩
        rw [hruns ho]
        exact hworks

end Limits

end Courier.Surfaces
