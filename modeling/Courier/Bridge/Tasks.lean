import Courier.Bridge.Passes
import Courier.Controller.Growth

/-!
# One task for a mission

The key of a mapping never changes once the mapping is in the state file, and a task is asked for
only under the key of a mapping that is there.  The controller derives the id of the task from the
key, so whatever is lost, repeated or delayed, all requests for a mission are about one task. -/

namespace Courier.Bridge

open Program Text
open Coordination hiding apply EventType Holds Sound

variable [Platform]

/-! ### Keys and tasks -/

structure Keyed (ids : Str × Str) : Prop where
  encodable : Encodable ids.2
  taskId : ids.1 = text "task-" ++ (Platform.sha256 ids.2).take 32

def Asks (body : Json) (key : Str) : Prop :=
  ∃ d, body = .obj d ∧ Json.get d (text "idempotency_key") = .str key

theorem newTaskId_of_key {d : Members} {uuid : Uuid} {taskId key : Str}
    (hkey : Json.get d (text "idempotency_key") = .str key)
    (h : Controller.newTaskId d uuid = .ok taskId) :
  taskId = text "task-" ++ (Platform.sha256 key).take 32
  := by
  unfold Controller.newTaskId at h
  rw [hkey, if_neg (by simp)] at h
  obtain ⟨key', hkey', h⟩ := Except.bind_eq_ok.mp h
  obtain ⟨_, -, h⟩ := Except.bind_eq_ok.mp h
  unfold requireId at hkey'
  rw [hkey] at hkey'
  dsimp only at hkey'
  split_ifs at hkey'
  cases hkey'
  cases h
  rfl

omit [Platform] in
theorem asks_taskBody (spec : Members) (key : Str) :
  Asks (taskBody spec key) key
  := by
  unfold taskBody
  dsimp only
  split
  · refine ⟨_, rfl, ?_⟩
    rw [Json.get, Json.lookup_insertMember, if_neg (by decide), Json.lookup_insertMember,
      if_pos rfl]
    rfl
  · refine ⟨_, rfl, ?_⟩
    rw [Json.get, Json.lookup_insertMember, if_pos rfl]
    rfl

/-! ### The worlds of the bridge -/

def World.ids (w : World) (missionId : Str) : Option (Str × Str) :=
  (w.file.get? missionId).map Mapping.ids

structure Orderly (w : World) : Prop where
  keyed : ∀ missionId ids, w.ids missionId = some ids → Keyed ids
  sent : ∀ p ∈ w.sent, ∃ ids, w.ids p.1 = some ids ∧ Asks p.2 ids.2
  created : ∀ p ∈ w.created, ∃ key, w.ids p.1 = some (p.2, key)
  known : ∀ p ∈ w.created, w.controller.Knows p.2
  once : (w.created.map Prod.fst).Nodup

variable {w : World}

theorem Orderly.gain {w' : World} (h : Orderly w)
    (hkeyed : ∀ missionId ids, w'.ids missionId = some ids → Keyed ids)
    (hids : ∀ missionId ids, w.ids missionId = some ids → w'.ids missionId = some ids)
    (hsent : w'.sent = w.sent) (hcreated : w'.created = w.created)
    (hcontroller : ∀ taskId, w.controller.Knows taskId → w'.controller.Knows taskId) :
  Orderly w'
  := by
  refine ⟨hkeyed, ?_, ?_, ?_, ?_⟩
  · rw [hsent]
    intro p hp
    obtain ⟨ids, hp', hasks⟩ := h.sent p hp
    exact ⟨ids, hids _ _ hp', hasks⟩
  · rw [hcreated]
    intro p hp
    obtain ⟨key, hkey⟩ := h.created p hp
    exact ⟨key, hids _ _ hkey⟩
  · rw [hcreated]
    intro p hp
    exact hcontroller _ (h.known p hp)
  · rw [hcreated]
    exact h.once

theorem newTasks_of_asks (c : Controller) {body : Json} (uuid : Uuid) (busy : Bool) {key : Str}
    (h : Asks body key) :
  newTasks c (c.step (.createTask body uuid busy)).2 = [] ∨
    newTasks c (c.step (.createTask body uuid busy)).2 =
        [text "task-" ++ (Platform.sha256 key).take 32] ∧
      ¬ c.Knows (text "task-" ++ (Platform.sha256 key).take 32)
  := by
  obtain ⟨d, rfl, hkey⟩ := h
  have hmem : ∀ id ∈ newTasks c (c.step (.createTask (.obj d) uuid busy)).2,
      id = text "task-" ++ (Platform.sha256 key).take 32 ∧ ¬ c.Knows id := by
    intro id hid
    obtain ⟨hknown, hnew⟩ := List.mem_filter.mp hid
    have hnew : ¬ c.Knows id := by simpa [Controller.Knows] using hnew
    obtain hold | ⟨d', hd', hid'⟩ := Controller.knows_createTask hknown
    · exact absurd hold hnew
    · cases hd'
      exact ⟨newTaskId_of_key hkey hid', hnew⟩
  have hnodup : (newTasks c (c.step (.createTask (.obj d) uuid busy)).2).Nodup :=
    (Dict.nodup _).filter _
  cases htasks : newTasks c (c.step (.createTask (.obj d) uuid busy)).2 with
  | nil => exact .inl rfl
  | cons first rest =>
    rw [htasks] at hmem hnodup
    obtain ⟨rfl, hnew⟩ := hmem first (by simp)
    refine .inr ⟨?_, hnew⟩
    cases rest with
    | nil => rfl
    | cons second rest =>
      obtain ⟨rfl, -⟩ := hmem second (by simp)
      simp at hnodup

variable {missionId : Str}

/-- A request that is about the key of the mapping of its mission leaves an orderly world. -/
theorem Orderly.post (h : Orderly w) {uuid : Uuid} {busy : Bool}
    {body : Json} {ids : Str × Str} (hids : w.ids missionId = some ids) (hasks : Asks body ids.2) :
  Orderly (w.post uuid busy missionId body)
  := by
  have hknows : ∀ taskId, w.controller.Knows taskId →
      (w.post uuid busy missionId body).controller.Knows taskId :=
    fun taskId hknown => Controller.knows_step _ hknown
  have htask := (h.keyed _ _ hids).taskId
  obtain hnone | ⟨hone, hnew⟩ := newTasks_of_asks w.controller uuid busy hasks
  · refine h.gain h.keyed (fun _ _ hids => hids) rfl ?_ hknows
    simp [World.post, hnone]
  · have hcreated : (w.post uuid busy missionId body).created =
        w.created ++ [(missionId, ids.1)] := by
      simp [World.post, hone, htask]
    rw [← htask] at hone hnew
    refine ⟨h.keyed, h.sent, ?_, ?_, ?_⟩
    · rw [hcreated]
      intro p hp
      obtain hp | hp := List.mem_append.mp hp
      · exact h.created p hp
      · obtain rfl := List.mem_singleton.mp hp
        exact ⟨ids.2, hids⟩
    · rw [hcreated]
      intro p hp
      obtain hp | hp := List.mem_append.mp hp
      · exact hknows _ (h.known p hp)
      · obtain rfl := List.mem_singleton.mp hp
        have hmem : ids.1 ∈ newTasks w.controller
            (w.controller.step (.createTask body uuid busy)).2 := by simp [hone]
        exact (List.mem_filter.mp hmem).1
    · rw [hcreated, List.map_append]
      apply List.nodup_append.mpr
      refine ⟨h.once, by simp, ?_⟩
      rintro m hm m' hm' rfl
      obtain ⟨p, hp, rfl⟩ := List.mem_map.mp hm
      obtain rfl : p.1 = missionId := by simpa using hm'
      obtain ⟨key, hkey⟩ := h.created p hp
      rw [hids] at hkey
      cases hkey
      exact hnew (h.known p hp)

/-! ### The invariant of the passes -/

structure Holds (Q : Dict Str Mapping → Dict Str Mapping → Prop) (w : World) : Prop where
  orderly : Orderly w
  files : Q w.file w.memory

variable {Q : Dict Str Mapping → Dict Str Mapping → Prop}

theorem Orderly.ledger {w' : World} (h : Orderly w) (hfile : w'.file = w.file)
    (hcontroller : w'.controller = w.controller) (hsent : w'.sent = w.sent)
    (hcreated : w'.created = w.created) :
  Orderly w'
  := by
  have hids : w'.ids = w.ids := by
    funext missionId
    rw [World.ids, World.ids, hfile]
  refine h.gain ?_ ?_ hsent hcreated ?_
  · rw [hids]
    exact h.keyed
  · rw [hids]
    exact fun _ _ hx => hx
  · rw [hcontroller]
    exact fun _ hx => hx

theorem Holds.write (h : Holds Q w) (own : Bool) (event : CoordinationEvent) :
  Holds Q (w.write own event)
  := ⟨h.orderly.ledger rfl rfl rfl rfl, h.files⟩

theorem Holds.arrive (h : Holds Q w) (arrival : Arrival) :
  Holds Q (w.arrive arrival)
  := by
  unfold World.arrive
  split
  · next missionId body hsent =>
    obtain ⟨ids, hids, hasks⟩ := h.orderly.sent _ (List.mem_of_getElem? hsent)
    exact ⟨h.orderly.post hids hasks, h.files⟩
  · exact h

theorem stable_holds :
  Stable (Holds Q)
  := by
  refine ⟨?_, fun _ event h => h.write true event, ?_, ?_⟩
  · apply keeps_access_of
    · exact fun _ _ h => ⟨h.orderly.ledger rfl rfl rfl rfl, h.files⟩
    · exact fun _ event h => h.write false event
    · intro w request h
      refine ⟨h.orderly.gain h.orderly.keyed (fun _ _ hids => hids) rfl rfl ?_, h.files⟩
      exact fun _ hknown => Controller.knows_step request hknown
    · exact fun _ arrival h => h.arrive arrival
  · intro w event _ h
    exact ⟨h.orderly.ledger rfl rfl rfl rfl, h.files⟩
  · intro w event h
    exact ⟨h.orderly.ledger rfl rfl rfl rfl, h.files⟩

def Agree (file memory : Dict Str Mapping) : Prop :=
  ∀ missionId, (memory.get? missionId).map Mapping.ids = (file.get? missionId).map Mapping.ids

/-- They have a certain task and key for a mission, or none. -/
structure Mapped (missionId : Str) (ids : Option (Str × Str)) (file memory : Dict Str Mapping) :
    Prop where
  agree : Agree file memory
  ids : (file.get? missionId).map Mapping.ids = ids

theorem Holds.agree {ids : Option (Str × Str)}
    (h : Holds (Mapped missionId ids) w) :
  Holds Agree w
  := ⟨h.orderly, h.files.agree⟩

theorem wp_save_mapped {mapping : Mapping} {ids : Option (Str × Str)}
    (h : Holds (Mapped missionId ids) w) (hids : ids = none ∨ ids = some mapping.ids)
    (hkeyed : Keyed mapping.ids) :
  wp (saveMapping missionId mapping) (fun _ => Holds (Mapped missionId (some mapping.ids)))
    (fun _ => Holds Agree) w
  := by
  rw [saveMapping, wp_bind]
  apply wp_mono (stable_holds.access w h)
  · intro _ w' h'
    rw [wp_modify]
    have hsaved : ∀ m, ((w'.memory.set missionId mapping).get? m).map Mapping.ids =
        if m = missionId then some mapping.ids else w'.ids m := by
      intro m
      rw [Dict.get?_set]
      split_ifs
      · rfl
      · exact h'.files.agree m
    refine ⟨?_, ⟨fun _ => rfl, ?_⟩⟩
    · refine h'.orderly.gain ?_ ?_ rfl rfl fun _ hknown => hknown
      · intro m x hx
        rw [World.ids, hsaved] at hx
        split_ifs at hx
        · cases hx
          exact hkeyed
        · exact h'.orderly.keyed m x hx
      · intro m x hx
        rw [World.ids, hsaved]
        split_ifs with hm
        · rw [hm, World.ids, h'.files.ids] at hx
          obtain rfl | rfl := hids
          · cases hx
          · exact hx
        · exact hx
    · rw [hsaved, if_pos rfl]
  · intro _ w' h'
    exact h'.agree

theorem wp_stamp_mapped {mapping changed : Mapping}
    (h : Holds (Mapped missionId (some mapping.ids)) w) (hids : changed.ids = mapping.ids) :
  wp (stamp missionId mapping changed) (fun _ => Holds Agree) (fun _ => Holds Agree) w
  := by
  unfold stamp
  split
  · rw [wp_bind]
    apply wp_mono (stable_holds.access w h)
    · intro s w' h'
      have hids' : ({ changed with updatedAt := some (isoformat s.now) } : Mapping).ids =
          mapping.ids := hids
      rw [← hids'] at h'
      apply wp_mono (wp_save_mapped h' (.inr rfl) (h'.orderly.keyed missionId _ h'.files.ids))
      · intro _ w'' h''
        exact h''.agree
      · intro _ w'' h''
        exact h''
    · intro _ w' h'
      exact h'.agree
  · exact h.agree

/-- Orderly worlds are kept by the passes. -/
theorem kept_orderly :
  Kept Orderly (Holds Agree)
    fun missionId mapping => Holds (Mapped missionId (mapping.map Mapping.ids))
  where
  between := by
    intro w h
    have hany : Holds (fun _ _ => True) w := ⟨h, trivial⟩
    apply wp_mono (stable_holds.access w hany)
    · intro _ w' h'
      exact h'.orderly
    · intro _ w' h'
      exact h'.orderly
  restart := fun w h => h.ledger rfl rfl rfl rfl
  load := by
    intro w h
    refine ⟨h.ledger rfl rfl rfl rfl, ?_⟩
    intro missionId
    rw [Dict.get?_map, Option.map_map]
    congr 1
    funext mapping
    unfold Mapping.loaded
    dsimp only [Function.comp_apply]
    split_ifs <;> rfl
  pause := fun w h => h.orderly
  stable := stable_holds
  stableAt := fun _ _ => stable_holds
  look := fun missionId w h => ⟨h.orderly, h.files, (h.files missionId).symm⟩
  forget := fun _ _ w h => h.agree
  made := fun _ _ _ _ _ w hencodable h => wp_save_mapped h (.inl rfl) ⟨hencodable, rfl⟩
  send := by
    intro missionId mapping spec w h
    refine ⟨⟨h.orderly.keyed, ?_, h.orderly.created, h.orderly.known, h.orderly.once⟩, h.files⟩
    intro q hq
    obtain hq | hq := List.mem_append.mp hq
    · exact h.orderly.sent q hq
    · obtain rfl := List.mem_singleton.mp hq
      exact ⟨mapping.ids, h.files.ids, asks_taskBody spec mapping.idempotencyKey⟩
  deliver := fun missionId mapping spec _ _ w h =>
    ⟨h.orderly.post h.files.ids (asks_taskBody spec mapping.idempotencyKey), h.files⟩
  stamp := fun _ _ _ w hids _ _ h => wp_stamp_mapped h hids
  reported := by
    rintro missionId mapping changed event w - hnamed hids - - h w' (rfl | rfl)
    · exact wp_stamp_mapped (stable_holds.report w event hnamed h) hids
    · exact wp_stamp_mapped (stable_holds.find w event h) hids

/-- Whatever others do and wherever the bridge dies, at most one task is created for a mission, and it is that of its
mapping. -/
theorem created_once [Coordination.Iso] (controller : Controller) (surroundings : Nat → Surrounding)
    (turns : List Turn) :
  ((World.run controller surroundings turns).created.map Prod.fst).Nodup ∧
    (∀ missionId taskId, (missionId, taskId) ∈ (World.run controller surroundings turns).created →
      ∃ mapping, (World.run controller surroundings turns).file.get? missionId = some mapping ∧
        mapping.taskId = taskId) ∧
    ∀ missionId mapping,
      (World.run controller surroundings turns).file.get? missionId = some mapping →
      ∀ d uuid taskId, Json.get d (text "idempotency_key") = .str mapping.idempotencyKey →
        Controller.newTaskId d uuid = .ok taskId → taskId = mapping.taskId
  := by
  have hstart : Orderly (World.start controller surroundings) := by
    refine ⟨?_, by simp [World.start], by simp [World.start], by simp [World.start],
      by simp [World.start]⟩
    intro missionId ids hids
    cases hids
  have horderly : Orderly (World.run controller surroundings turns) := kept_orderly.run hstart turns
  refine ⟨horderly.once, ?_, ?_⟩
  · intro missionId taskId hcreated
    obtain ⟨key, hkey⟩ := horderly.created _ hcreated
    obtain ⟨mapping, hmapping, hids⟩ := Option.map_eq_some_iff.mp hkey
    exact ⟨mapping, hmapping, congrArg Prod.fst hids⟩
  · intro missionId mapping hmapping d uuid taskId hkey hid
    have hids : (World.run controller surroundings turns).ids missionId = some mapping.ids := by
      rw [World.ids, hmapping]
      rfl
    rw [newTaskId_of_key hkey hid]
    exact (horderly.keyed _ _ hids).taskId.symm

end Courier.Bridge
