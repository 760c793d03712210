import Courier.Synthetic

/-!
# Honest work is accepted

A result that the worker reports after a successful execution is accepted, unless the path under
which the file is reported is too long to be safe, or the file has a name with a backslash on
Windows, where it is reported with slashes (`Reportable`). -/

namespace Courier.Synthetic

open Flavour (components joined asPosix counts)
open Text
open Worker (ArtifactRef ExecutionResult buildResultPayload artifactPrefix)

/-! ### Names -/

def Issued (d : Str) : Prop :=
  ∃ hex : Str, d = text "dsp-" ++ hex ∧ hex.length = 32 ∧ ∀ c ∈ hex, isDigit c ∨ 97 ≤ c ∧ c ≤ 102

theorem Issued.mem {d : Str} (h : Issued d) {c : Nat} (hc : c ∈ d) :
  c = 45 ∨ 48 ≤ c ∧ c ≤ 57 ∨ 97 ≤ c ∧ c ≤ 122
  := by
  obtain ⟨hex, rfl, -, hhex⟩ := h
  rcases List.mem_append.mp hc with hc | hc
  · have hall : ∀ c ∈ text "dsp-", c = 45 ∨ 48 ≤ c ∧ c ≤ 57 ∨ 97 ≤ c ∧ c ≤ 122 := by decide
    exact hall c hc
  · have hdigit := hhex c hc
    simp only [isDigit, Bool.and_eq_true, decide_eq_true_eq] at hdigit
    omega

theorem Issued.length {d : Str} (h : Issued d) :
  d.length = 36
  := by
  obtain ⟨hex, rfl, hlength, -⟩ := h
  rw [List.length_append, hlength]
  rfl

theorem Issued.components {d : Str} (h : Issued d) (flavour : Flavour) :
  components flavour d = [d]
  := by
  have hnone : ∀ c ∈ d, flavour.isSeparator c = false := by
    intro c hc
    have hchar := h.mem hc
    cases flavour <;> simp only [Flavour.isSeparator, Bool.or_eq_false_iff, decide_eq_false_iff_not] <;>
      omega
  rw [Flavour.components_of_not_separator hnone, if_pos]
  obtain ⟨hex, rfl, -, -⟩ := h
  simp [counts, text]

def reportedPath (d : Str) (path : List Str) : Str :=
  text "artifacts/" ++ d ++ text "/" ++ joined path

theorem components_reportedPath {d : Str} (h : Issued d) (flavour : Flavour) (path : List Str) :
  components flavour (reportedPath d path) = text "artifacts" :: d :: components flavour (joined path)
  := by
  have heq : reportedPath d path = text "artifacts" ++ 47 :: (d ++ 47 :: joined path) := by
    simp [reportedPath, text]
  rw [heq, Flavour.components_append_slash, Flavour.components_append_slash, h.components]
  have hfirst : components flavour (text "artifacts") = [text "artifacts"] := by
    cases flavour <;> decide
  rw [hfirst]
  rfl

variable {write : Str}

theorem safeName_reportedPath {d : Str} (hd : Issued d) (hwrite : SafeName write)
    (flavour : Flavour) :
  SafeName (reportedPath d (components flavour write)) ↔
    (reportedPath d (components flavour write)).length ≤ 255
  := by
  obtain ⟨-, -, hzero, hwindows, hposix⟩ := hwrite
  have hdots : ∀ flavour, text ".." ∉ components flavour write := by
    intro flavour hmem
    cases flavour with
    | posix => exact hposix (.inr (.inr hmem))
    | windows => exact hwindows (.inr (.inr hmem))
  have hhead : reportedPath d (components flavour write) =
      97 :: 114 :: (text "tifacts/" ++ d ++ text "/" ++ joined (components flavour write)) := rfl
  have hescapes : ∀ flavour', ¬ Escapes flavour' (reportedPath d (components flavour write)) := by
    rintro flavour' (⟨c, hc, hseparator⟩ | ⟨-, hdrive⟩ | hmem)
    · rw [hhead] at hc
      cases hc
      cases flavour' <;> simp [Flavour.isSeparator] at hseparator
    · rw [hhead] at hdrive
      simp at hdrive
    · rw [components_reportedPath hd, List.mem_cons, List.mem_cons] at hmem
      rcases hmem with hmem | hmem | hmem
      · exact absurd hmem (by decide)
      · have hlength := hd.length
        rw [← hmem] at hlength
        exact absurd hlength (by decide)
      · exact Flavour.not_mem_components_joined hdots flavour' flavour hmem
  constructor
  · exact fun h => h.2.1
  · intro hlength
    refine ⟨by rw [hhead]; simp, hlength, ?_, hescapes .windows, hescapes .posix⟩
    intro hmem
    simp only [reportedPath, List.mem_append] at hmem
    rcases hmem with ((hmem | hmem) | hmem) | hmem
    · exact absurd hmem (by decide)
    · have hchar := hd.mem hmem
      omega
    · exact absurd hmem (by decide)
    · obtain ⟨part, hpart, hzero'⟩ := (Flavour.mem_joined (by decide)).mp hmem
      exact hzero (Flavour.mem_of_mem_components hpart hzero')

theorem Issued.safeName {d : Str} (h : Issued d) :
  SafeName d ∧ 47 ∉ d ∧ 92 ∉ d
  := by
  have hnot : ∀ c, ¬ (c = 45 ∨ 48 ≤ c ∧ c ≤ 57 ∨ 97 ≤ c ∧ c ≤ 122) → c ∉ d :=
    fun c hc hmem => hc (h.mem hmem)
  have hescapes : ∀ flavour, ¬ Escapes flavour d := by
    rintro flavour (⟨c, hc, hseparator⟩ | ⟨-, hdrive⟩ | hmem)
    · have hchar := h.mem (List.mem_of_mem_head? hc)
      cases flavour <;>
        simp only [Flavour.isSeparator, Bool.or_eq_true, decide_eq_true_eq] at hseparator <;> omega
    · have hchar := h.mem (List.mem_of_getElem? hdrive)
      omega
    · rw [h.components, List.mem_singleton] at hmem
      have hlength := h.length
      rw [← hmem] at hlength
      exact absurd hlength (by decide)
  refine ⟨⟨?_, ?_, hnot 0 (by omega), hescapes .windows, hescapes .posix⟩, hnot 47 (by omega),
    hnot 92 (by omega)⟩
  · rintro rfl
    exact absurd h.length (by decide)
  · rw [h.length]
    decide

section Calls

variable [Surroundings] {files files' : Files} {home dir : List Str} {value : Json} {cfg : Config}
  {d : Str} {attempt : Int} {inputs : List (List Str)} {result : RunResult}

/-! ### Execution -/

structure Checked (members : Members) (cfg : Config) : Prop where
  write : param members (text "write") (.str (text "out.txt")) = .str cfg.write
  safe : SafeName cfg.write
  content : param members (text "content") (.str []) = .str cfg.content
  plain : param members (text "from_input") .null = .null → cfg.fromInput = none
  input : param members (text "from_input") .null ≠ .null → cfg.content = [] ∧
    ∃ kind, transform? (param members (text "from_input") .null) = .ok kind ∧ cfg.fromInput = some kind

section

omit [Surroundings]

theorem nameParam_eq_ok {name : Json} (h : nameParam name = .ok write) :
  name = .str write ∧ SafeName write
  := by
  unfold nameParam at h
  split at h
  · obtain ⟨_, hsafe, h⟩ := Except.bind_eq_ok.mp h
    cases h
    exact ⟨rfl, Except.check_eq_ok.mp hsafe⟩
  · cases h

theorem contentParam_eq_ok {content : Json} {s : Str} (h : contentParam content = .ok s) :
  content = .str s
  := by
  unfold contentParam at h
  split at h
  · cases h
    rfl
  · cases h

end

theorem checked_of_params (h : params value = .ok cfg) :
  ∃ members, value = .obj members ∧ Checked members cfg
  := by
  unfold params at h
  split at h
  next members =>
    obtain ⟨kind, hkind, h⟩ := Except.bind_eq_ok.mp h
    obtain ⟨-, -, h⟩ := Except.bind_eq_ok.mp h
    obtain ⟨write, hwrite, h⟩ := Except.bind_eq_ok.mp h
    obtain ⟨content, hcontent, h⟩ := Except.bind_eq_ok.mp h
    obtain ⟨-, -, h⟩ := Except.bind_eq_ok.mp h
    obtain ⟨hang, -, h⟩ := Except.bind_eq_ok.mp h
    obtain ⟨failTransientN, -, h⟩ := Except.bind_eq_ok.mp h
    obtain ⟨faultAttempts, -, h⟩ := Except.bind_eq_ok.mp h
    cases h
    obtain ⟨hname, hsafe⟩ := nameParam_eq_ok hwrite
    refine ⟨members, rfl, hname, hsafe, contentParam_eq_ok hcontent, ?_, ?_⟩
    · intro hnull
      unfold inputParam at hkind
      rw [if_pos hnull] at hkind
      cases hkind
      rfl
    · intro hnull
      unfold inputParam at hkind
      rw [if_neg hnull] at hkind
      obtain ⟨kind, htransform, hkind⟩ := Except.bind_eq_ok.mp hkind
      obtain ⟨_, hempty, hkind⟩ := Except.bind_eq_ok.mp hkind
      cases hkind
      have hcontent' := contentParam_eq_ok hcontent
      rw [Except.check_eq_ok.mp hempty] at hcontent'
      cases hcontent'
      exact ⟨rfl, kind, htransform, rfl⟩
  next => cases h

theorem wrote_of_run (h : run files value dir attempt inputs = .ok (result, files'))
    (hsuccess : result.outcome = text "success") (hcfg : params value = .ok cfg) :
  ∃ data, outputOf files cfg inputs = .ok data ∧ components Surroundings.flavour cfg.write ≠ [] ∧
    files' = files.set (dir ++ components Surroundings.flavour cfg.write) data
  := by
  unfold run at h
  obtain ⟨cfg', hcfg', h⟩ := Except.bind_eq_ok.mp h
  rw [hcfg] at hcfg'
  cases hcfg'
  obtain ⟨-, -, h⟩ := Except.bind_eq_ok.mp h
  obtain ⟨-, -, h⟩ := Except.bind_eq_ok.mp h
  obtain ⟨-, -, h⟩ := Except.bind_eq_ok.mp h
  split at h
  · cases h
    exact absurd hsuccess (by decide)
  · obtain ⟨data, hdata, h⟩ := Except.bind_eq_ok.mp h
    obtain ⟨written, hwritten, h⟩ := Except.bind_eq_ok.mp h
    cases h
    unfold atomicWrite at hwritten
    split at hwritten
    · cases hwritten
    next haccepts =>
      cases hwritten
      exact ⟨data, hdata, (not_or.mp haccepts).1, rfl⟩

variable {data : Bytes}

theorem eq_of_collects {path : List Str} {artifacts : List ArtifactRef}
    (hfresh : ∀ path, files.get? (dir ++ path) = none)
    (h : Collects (files.set (dir ++ path) data) dir artifacts) :
  artifacts = [⟨path, Surroundings.sha256 data⟩]
  := by
  obtain ⟨hnodup, hall⟩ := h
  have honly : ∀ a, a ∈ artifacts ↔ a = ⟨path, Surroundings.sha256 data⟩ := by
    rintro ⟨path', digest⟩
    rw [hall]
    simp only [Dict.get?_set, List.append_cancel_left_eq, hfresh, ArtifactRef.mk.injEq]
    constructor
    · rintro ⟨data', hdata, rfl⟩
      split at hdata
      next heq =>
        cases hdata
        exact ⟨heq, rfl⟩
      next => cases hdata
    · rintro ⟨rfl, rfl⟩
      exact ⟨data, if_pos rfl, rfl⟩
  cases artifacts with
  | nil => exact absurd ((honly _).mpr rfl) (by simp)
  | cons a rest =>
    have ha := (honly a).mp List.mem_cons_self
    cases rest with
    | nil => rw [ha]
    | cons b rest =>
      have hb := (honly b).mp (by simp)
      rw [List.map_cons, List.map_cons, List.nodup_cons, ha, hb] at hnodup
      exact absurd List.mem_cons_self hnodup.1

theorem collects_of_fresh {path : List Str}
    (hfresh : ∀ path, files.get? (dir ++ path) = none) :
  Collects (files.set (dir ++ path) data) dir [⟨path, Surroundings.sha256 data⟩]
  := by
  refine ⟨by simp, ?_⟩
  rintro ⟨path', digest⟩
  simp only [List.mem_singleton, ArtifactRef.mk.injEq, Dict.get?_set, List.append_cancel_left_eq, hfresh]
  constructor
  · rintro ⟨rfl, rfl⟩
    exact ⟨data, if_pos rfl, rfl⟩
  · rintro ⟨data', hdata, rfl⟩
    split at hdata
    next heq =>
      cases hdata
      exact ⟨heq, rfl⟩
    next => cases hdata

/-! ### The report -/

def dispatchDir (home : List Str) (d : Str) : List Str :=
  home ++ [text "artifacts", d]

section

omit [Surroundings]

theorem artifactPrefix_dispatchDir (home : List Str) (d : Str) :
  artifactPrefix (dispatchDir home d) (some home) = text "artifacts/" ++ d ++ text "/"
  := by
  have hinside : home.isPrefixOf (dispatchDir home d) = true := by simp [dispatchDir]
  have hdrop : (dispatchDir home d).drop home.length = [text "artifacts", d] := by simp [dispatchDir]
  unfold artifactPrefix
  simp only [hinside, hdrop, if_true]
  rw [if_neg]
  · simp [joined, text]
  · simp [joined, text, List.isPrefixOf]

theorem get_buildResultPayload [Platform] {execution : ExecutionResult} {report : Members}
    (hcompleted : execution.outcome = .completed)
    (hreport : Json.get report (text "outcome") = .str (text "success")) (home : Option (List Str)) :
  Json.get (buildResultPayload execution (some report) home) (text "artifacts") =
      .arr (execution.artifacts.map fun a =>
        a.reported (artifactPrefix execution.spec.artifactDir home)) ∧
    Json.get (buildResultPayload execution (some report) home) (text "outcome") =
      .str (text "success")
  := by
  have hl2 : execution.l2Outcome = text "success" := by
    rw [ExecutionResult.l2Outcome, if_pos hcompleted]
  have hjudged : execution.judged (some report) = (text "success", execution.retryable, none) := by
    unfold ExecutionResult.judged
    rw [if_neg (by simp [hl2])]
    split
    · dsimp only
      rw [if_neg (by simp [hreport]), hl2]
    · rw [hl2]
  constructor <;>
  · unfold buildResultPayload
    rw [hjudged]
    simp only [ne_eq, not_true_eq_false, if_false, List.append_nil, Json.members, List.foldl, Json.get,
      Json.lookup_insertMember]
    rfl

end

/-! ### What the task declares -/

/-- The task declares what its file contains. -/
def Pins (members : Members) : Prop :=
  Json.get members (text "write") ≠ .null ∧ Json.get members (text "content") ≠ .null ∨
    Json.get members (text "from_input") ≠ .null

instance (members : Members) : Decidable (Pins members) :=
  inferInstanceAs (Decidable (_ ∨ _))

def inputName (bound : Json) : Json :=
  Json.get ((Json.get bound.asMembers (text "artifacts")).asItems.head?.getD .null).asMembers (text "path")

variable {members : Members}

section

omit [Surroundings]

theorem get_of_param {key value fallback : Str}
    (h : param members key (.str fallback) = .str value) :
  Json.get members key = .str value ∨ Json.get members key = .null ∧ value = fallback
  := by
  unfold param at h
  unfold Json.get
  cases hlookup : members.lookup key with
  | none =>
    rw [hlookup] at h
    cases h
    exact .inr ⟨rfl, rfl⟩
  | some v =>
    rw [hlookup] at h
    exact .inl h

theorem param_null (members : Members) (key : Str) :
  param members key .null = Json.get members key
  := rfl

end

variable {task : TaskState}

theorem pinned_of_not_pins
    (hparams : task.params = .obj members) (h : ¬ Pins members) :
  pinned? files home task = .ok none
  := by
  simp only [Pins, not_or, not_and, not_not] at h
  obtain ⟨hnames, hinput⟩ := h
  have hdeclared : declared? (Json.get members (text "write")) (Json.get members (text "content")) =
      .ok none := by
    unfold declared?
    split
    next hname hcontent => rw [hname, hcontent] at hnames; cases hnames (by simp)
    next => rfl
  simp only [pinned?, hparams, Json.asMembers_obj, hdeclared, Except.ok_bind, hinput, ne_eq,
    not_true_eq_false, if_false]
  rfl

theorem pinned_content
    (hparams : task.params = .obj members) (hchecked : Checked members cfg) (h : Pins members)
    (hinput : Json.get members (text "from_input") = .null) (hdata : Bytes.encode cfg.content = some data) :
  ∃ mismatch, pinned? files home task = .ok (some ⟨.str cfg.write, Surroundings.sha256 data, mismatch⟩)
  := by
  rcases h with ⟨hwrite, hcontent⟩ | h
  · have hname := (get_of_param hchecked.write).resolve_right fun h => hwrite h.1
    have htext := (get_of_param hchecked.content).resolve_right fun h => hcontent h.1
    refine ⟨text "evidence does not match the declared synthetic content", ?_⟩
    simp only [pinned?, hparams, Json.asMembers_obj, hname, htext, declared?, hdata, Except.ok_bind,
      hinput, ne_eq, not_true_eq_false, if_false]
    rfl
  · exact absurd hinput h

theorem pinned_input
    (hparams : task.params = .obj members) (hchecked : Checked members cfg)
    (hinput : Json.get members (text "from_input") ≠ .null) :
  pinned? files home task =
    (expectedFromInput files home task.input (Json.get members (text "from_input"))).map fun digest =>
      some ⟨.str cfg.write, digest, text "evidence does not match the transformed input"⟩
  := by
  have hempty := (hchecked.input hinput).1
  have hname : (Json.get members (text "write")).str?.getD (text "out.txt") = cfg.write := by
    rcases get_of_param hchecked.write with h | ⟨h, hwrite⟩
    · rw [h]
      rfl
    · rw [h, hwrite]
      rfl
  have hdeclared : ∃ declared, declared? (Json.get members (text "write"))
      (Json.get members (text "content")) = .ok declared := by
    unfold declared?
    split
    next content _ hcontent =>
      have hnone : content = [] := by
        rcases get_of_param hchecked.content with h | ⟨h, -⟩
        · rw [hcontent, hempty] at h
          cases h
          rfl
        · rw [hcontent] at h
          cases h
      rw [hnone]
      exact ⟨_, rfl⟩
    next => exact ⟨_, rfl⟩
  obtain ⟨declared, hdeclared⟩ := hdeclared
  simp only [pinned?, hparams, Json.asMembers_obj, hdeclared, Except.ok_bind, ne_eq, hinput,
    not_false_eq_true, if_true, hname]
  cases expectedFromInput files home task.input (Json.get members (text "from_input")) <;> rfl

/-! ### The input of the task -/

theorem first_of_verified {bound : Json} (h : verifiedInputFiles files home bound = some inputs) :
  ∃ ref name data, (Json.get bound.asMembers (text "artifacts")).asItems.head? = some (.obj ref) ∧
    Json.get ref (text "path") = .str name ∧
    Json.get ref (text "sha256") = .str (Surroundings.sha256 data) ∧
    components Surroundings.flavour name ≠ [] ∧
    inputs.head? = some (home ++ components Surroundings.flavour name) ∧
    files.get? (home ++ components Surroundings.flavour name) = some data
  := by
  unfold verifiedInputFiles at h
  split at h
  next refs hrefs =>
    split at h
    · cases h
    next hne =>
      obtain ⟨first, rest, rfl⟩ := List.exists_cons_of_ne_nil hne
      rw [hrefs]
      rw [List.mapM_cons] at h
      obtain ⟨path, hpath, h⟩ := Option.bind_eq_some_iff.mp h
      obtain ⟨paths, -, h⟩ := Option.bind_eq_some_iff.mp h
      cases h
      unfold inputFile? at hpath
      obtain ⟨name, hname, hpath⟩ := Option.bind_eq_some_iff.mp hpath
      obtain ⟨digest, hdigest, hpath⟩ := Option.bind_eq_some_iff.mp hpath
      split at hpath
      · cases hpath
      next hplain =>
        obtain ⟨data, hdata, hpath⟩ := Option.bind_eq_some_iff.mp hpath
        split at hpath
        next heq =>
          cases hpath
          rw [Json.str?_eq_some] at hname hdigest
          simp only [not_or, not_exists, not_and] at hplain
          obtain ⟨-, hback, -, hparts⟩ := hplain
          have hcounts : ∀ part ∈ name.splitOnP (· = 47), counts part = true := by
            intro part hpart
            have hnone := hparts part hpart
            simp only [List.mem_cons, not_or] at hnone
            simp [counts, hnone.1, hnone.2.1]
          cases first with
          | obj ref =>
            refine ⟨ref, name, data, rfl, hname, ?_, Flavour.components_ne_nil hback hcounts, rfl,
              hdata⟩
            rw [heq]
            exact hdigest
          | _ => cases hname
        next => cases hpath
  next => cases h

theorem expectedFromInput_of_first {bound transform : Json} {kind : Transform} {ref : Members}
    {name : Str} {output : Bytes} (hdigest : ∀ data, IsDigest (Surroundings.sha256 data))
    (hkind : transform? transform = .ok kind)
    (href : (Json.get bound.asMembers (text "artifacts")).asItems.head? = some (.obj ref))
    (hname : Json.get ref (text "path") = .str name)
    (hhash : Json.get ref (text "sha256") = .str (Surroundings.sha256 data))
    (hparts : components Surroundings.flavour name ≠ [])
    (hdata : files.get? (home ++ components Surroundings.flavour name) = some data)
    (houtput : transformInput kind data = some output) {digest : Str} :
  expectedFromInput files home bound transform = .ok digest ↔
    isSafeName (.str name) ∧ digest = Surroundings.sha256 output
  := by
  unfold expectedFromInput
  simp only [hkind, href, hname, hhash, Json.asStr, hdata, houtput, demand, Except.bind_unit_eq_ok,
    Except.check_eq_ok, hdigest, hparts, ne_eq, not_false_eq_true, and_true, true_and]
  constructor
  · rintro ⟨hsafe, h⟩
    cases h
    exact ⟨hsafe, rfl⟩
  · rintro ⟨hsafe, rfl⟩
    exact ⟨hsafe, rfl⟩

/-! ### The verdict -/

theorem mem_wantedNames (hd : Issued d)
    (hparts : components Surroundings.flavour write ≠ []) :
  reportedPath d (components Surroundings.flavour write) ∈ wantedNames write (some d) ↔
    (Surroundings.flavour = .windows → 92 ∉ write)
  := by
  have hne : reportedPath d (components Surroundings.flavour write) ≠ write := by
    intro heq
    have hlength := congrArg (fun s => (components Surroundings.flavour s).length) heq
    simp only [components_reportedPath hd, List.length_cons, Flavour.components_joined] at hlength
    omega
  have hback : components .posix write = [] → 92 ∉ write := by
    intro hnone hmem
    obtain ⟨part, hpart, -⟩ := Flavour.exists_mem_components_posix hmem
    rw [hnone] at hpart
    cases hpart
  have hposix : components .posix write ≠ [] := by
    intro hnone
    cases hflavour : (Surroundings.flavour : Flavour) with
    | posix => exact hparts (by rw [hflavour, hnone])
    | windows => exact hparts (by rw [hflavour, Flavour.components_windows (hback hnone), hnone])
  rw [wantedNames, if_pos hd.safeName, List.mem_cons, or_iff_right hne, List.mem_singleton, reportedPath,
    List.append_cancel_left_eq, asPosix, if_neg hposix]
  cases hflavour : (Surroundings.flavour : Flavour) with
  | posix => simp
  | windows => simp [Flavour.joined_windows_eq_iff]

def reference (path : Str) (data : Bytes) : Json :=
  .obj [(text "path", .str path), (text "sha256", .str (Surroundings.sha256 data))]

theorem checkArtifacts_single {path : Str} {pinned : Option Pinned} {wanted : List Str}
    (hdigest : ∀ data, IsDigest (Surroundings.sha256 data))
    (hdata : files.get? (home ++ components Surroundings.flavour path) = some data) {seen : Bool} :
  checkArtifacts files home pinned wanted [reference path data] = .ok seen ↔
    SafeName path ∧ (∀ p ∈ pinned, path ∈ wanted → Surroundings.sha256 data = p.digest) ∧
      seen = (pinned.isSome && decide (path ∈ wanted))
  := by
  have hpath : Json.get [(text "path", .str path), (text "sha256", .str (Surroundings.sha256 data))]
      (text "path") = .str path := rfl
  have hhash : Json.get [(text "path", .str path), (text "sha256", .str (Surroundings.sha256 data))]
      (text "sha256") = .str (Surroundings.sha256 data) := rfl
  have hsafe : isSafeName (.str path) = true ↔ SafeName path := by simp [isSafeName, Json.str?]
  have hhex : ((Json.str (Surroundings.sha256 data)).str?.any fun digest => decide (IsDigest digest)) = true := by
    simp [Json.str?, hdigest]
  unfold checkArtifacts checkArtifact reference
  simp only [checkArtifacts, hpath, hhash, Json.asStr, hdata, demand]
  by_cases hname : SafeName path
  · rw [Except.check_of (hsafe.mpr hname), Except.check_of hhex, Except.check_of trivial]
    cases pinned with
    | none => simp [hname, eq_comm, pure, Except.pure]
    | some p =>
      by_cases hmem : path ∈ wanted
      · by_cases heq : Surroundings.sha256 data = p.digest
        · simp [hname, hmem, heq, Except.check, eq_comm, pure, Except.pure]
        · simp [hname, hmem, heq, Except.check]
      · simp [hname, hmem, eq_comm, pure, Except.pure]
  · simp [hname, Except.check, hsafe]

theorem accept_single [Platform] {event : EventFields} {path : Str}
    {pinned : Option Pinned} (hdigest : ∀ data, IsDigest (Surroundings.sha256 data))
    (hsuccess : event.get (text "outcome") = .str (text "success"))
    (hdispatch : event.dispatchId = task.dispatchId)
    (hartifacts : event.get (text "artifacts") = .arr [reference path data])
    (hdata : files.get? (home ++ components Surroundings.flavour path) = some data)
    (hpinned : pinned? files home task = .ok pinned) :
  (∃ reason, accept files home task event = .ok reason) ↔
    SafeName path ∧ ∀ p ∈ pinned, isSafeName p.name ∧ path ∈ wantedNames p.name.asStr event.dispatchId ∧
      Surroundings.sha256 data = p.digest
  := by
  unfold accept
  simp only [hsuccess, hdispatch, hartifacts, hpinned, demand, Except.ok_bind, Except.bind_unit_eq_ok,
    Except.check_eq_ok, or_true, true_and, Except.bind_eq_ok (x := checkArtifacts _ _ _ _ _),
    checkArtifacts_single hdigest hdata]
  cases pinned with
  | none => simp [pure, Except.pure]
  | some p =>
    simp [pure, Except.pure]
    tauto

/-! ### Honest work -/

/-- An execution of the adapter with the event in which its result arrives. -/
structure Dispatch where
  home : List Str
  dispatchId : Str
  attempt : Int
  inputs : List (List Str)
  before : Files
  after : Files
  ran : RunResult
  execution : ExecutionResult
  report : Members
  task : TaskState
  event : EventFields

/-- The adapter came to a success in the new directory of its dispatch, and the event holds the report on its files. -/
structure Dispatch.Honest [Platform] (w : Dispatch) : Prop where
  issued : Issued w.dispatchId
  fresh : ∀ path, w.before.get? (dispatchDir w.home w.dispatchId ++ path) = none
  input : w.task.input = .null ∧ w.inputs = [] ∨
    verifiedInputFiles w.before w.home w.task.input = some w.inputs
  ran : run w.before w.task.params (dispatchDir w.home w.dispatchId) w.attempt w.inputs =
    .ok (w.ran, w.after)
  succeeded : w.ran.outcome = text "success"
  completed : w.execution.outcome = .completed
  directory : w.execution.spec.artifactDir = dispatchDir w.home w.dispatchId
  reported : Json.get w.report (text "outcome") = .str w.ran.outcome
  collected : Collects w.after (dispatchDir w.home w.dispatchId) w.execution.artifacts
  current : w.task.dispatchId = some w.dispatchId
  answered : w.event.dispatchId = some w.dispatchId
  payload : ∀ key ∈ [text "artifacts", text "outcome"], w.event.get key =
    Json.get (buildResultPayload w.execution (some w.report) (some w.home)) key

/-- The path of the file is short enough, on Windows a declared file has no backslash, and the path of an input is safe.
-/
structure Dispatch.Reportable (w : Dispatch) (cfg : Config) : Prop where
  short : (joined (components Surroundings.flavour cfg.write)).length ≤ 208
  slashes : Pins w.task.params.asMembers → Surroundings.flavour = .windows → 92 ∉ cfg.write
  input : Json.get w.task.params.asMembers (text "from_input") ≠ .null → isSafeName (inputName w.task.input)

variable [Platform] {w : Dispatch}

theorem Dispatch.Honest.params (h : w.Honest) :
  ∃ cfg, params w.task.params = .ok cfg
  := by
  have hran := h.ran
  unfold run at hran
  obtain ⟨cfg, hcfg, -⟩ := Except.bind_eq_ok.mp hran
  exact ⟨cfg, hcfg⟩

theorem Dispatch.Honest.wrote (h : w.Honest) (hcfg : Synthetic.params w.task.params = .ok cfg) :
  ∃ data, outputOf w.before cfg w.inputs = .ok data ∧ components Surroundings.flavour cfg.write ≠ [] ∧
    w.after = w.before.set (dispatchDir w.home w.dispatchId ++ components Surroundings.flavour cfg.write)
      data ∧
    w.event.get (text "artifacts") =
      .arr [reference (reportedPath w.dispatchId (components Surroundings.flavour cfg.write)) data] ∧
    w.event.get (text "outcome") = .str (text "success")
  := by
  obtain ⟨data, hdata, hparts, hafter⟩ := wrote_of_run h.ran h.succeeded hcfg
  have hcollected := h.collected
  rw [hafter] at hcollected
  have hartifacts := eq_of_collects h.fresh hcollected
  have hreport := h.reported
  rw [h.succeeded] at hreport
  obtain ⟨hget, houtcome⟩ := get_buildResultPayload h.completed hreport (some w.home)
  refine ⟨data, hdata, hparts, hafter, ?_, ?_⟩
  · rw [h.payload _ (by simp), hget, hartifacts, h.directory, artifactPrefix_dispatchDir]
    rfl
  · rw [h.payload _ (by simp), houtcome]

theorem Dispatch.Honest.found (h : w.Honest) (data : Bytes) :
  (w.before.set (dispatchDir w.home w.dispatchId ++ components Surroundings.flavour cfg.write) data).get?
    (w.home ++ components Surroundings.flavour
      (reportedPath w.dispatchId (components Surroundings.flavour cfg.write))) = some data
  := by
  rw [components_reportedPath h.issued, Flavour.components_joined, Dict.get?_set, if_pos]
  simp [dispatchDir]

/-- What the verifier expects of a transformed input. -/
theorem Dispatch.Honest.expected (h : w.Honest) (hcfg : Synthetic.params w.task.params = .ok cfg)
    (hdigest : ∀ data, IsDigest (Surroundings.sha256 data))
    (hdata : outputOf w.before cfg w.inputs = .ok data)
    (hinput : Json.get w.task.params.asMembers (text "from_input") ≠ .null) {digest : Str} :
  expectedFromInput w.after w.home w.task.input (Json.get w.task.params.asMembers (text "from_input")) =
      .ok digest ↔
    isSafeName (inputName w.task.input) ∧ digest = Surroundings.sha256 data
  := by
  obtain ⟨members, hparams, hchecked⟩ := checked_of_params hcfg
  rw [hparams, Json.asMembers_obj] at hinput ⊢
  obtain ⟨-, kind, hkind, hfrom⟩ := hchecked.input hinput
  rw [outputOf, hfrom] at hdata
  dsimp only at hdata
  split at hdata
  · cases hdata
  next first rest hinputs =>
    split at hdata
    · cases hdata
    next source hsource =>
      split at hdata
      · cases hdata
      next output houtput =>
        cases hdata
        rcases h.input with ⟨-, hnone⟩ | hverified
        · rw [hinputs] at hnone
          cases hnone
        · obtain ⟨ref, name, source', href, hname, hhash, hparts, hfirst, hsource'⟩ :=
            first_of_verified hverified
          rw [hinputs] at hfirst
          cases hfirst
          rw [hsource] at hsource'
          cases hsource'
          obtain ⟨written, -, -, hafter, -, -⟩ := h.wrote hcfg
          have hkept : w.after.get? (w.home ++ components Surroundings.flavour name) = some source := by
            rw [hafter, Dict.get?_set, if_neg, hsource]
            intro heq
            rw [heq, h.fresh] at hsource
            cases hsource
          rw [param_null] at hkind
          rw [expectedFromInput_of_first hdigest hkind href hname hhash hparts hkept houtput, inputName,
            href, Option.getD_some, Json.asMembers_obj, hname]

/-- What the verifier compares the file with: the file itself, if the task declares it. -/
theorem Dispatch.Honest.pinned (h : w.Honest) (hcfg : Synthetic.params w.task.params = .ok cfg)
    (hdigest : ∀ data, IsDigest (Surroundings.sha256 data)) {data : Bytes}
    (hdata : outputOf w.before cfg w.inputs = .ok data)
    (hinput : Json.get w.task.params.asMembers (text "from_input") ≠ .null →
      isSafeName (inputName w.task.input)) :
  ∃ pinned, pinned? w.after w.home w.task = .ok pinned ∧
    (pinned.isSome ↔ Pins w.task.params.asMembers) ∧
    ∀ p ∈ pinned, p.name = .str cfg.write ∧ p.digest = Surroundings.sha256 data
  := by
  obtain ⟨members, hparams, hchecked⟩ := checked_of_params hcfg
  by_cases hpins : Pins members
  · by_cases hfrom : Json.get members (text "from_input") = .null
    · have hplain := hchecked.plain hfrom
      rw [outputOf, hplain] at hdata
      dsimp only at hdata
      split at hdata
      · cases hdata
      next _ hencode =>
        cases hdata
        have hpinned : ∃ mismatch, pinned? w.after w.home w.task =
            .ok (some ⟨.str cfg.write, Surroundings.sha256 data, mismatch⟩) :=
          pinned_content hparams hchecked hpins hfrom hencode
        obtain ⟨mismatch, hpinned⟩ := hpinned
        rw [hparams]
        exact ⟨_, hpinned, by simpa using hpins, by simp⟩
    · have hexpected := (h.expected hcfg hdigest hdata (by rwa [hparams])).mpr
        ⟨hinput (by rwa [hparams]), rfl⟩
      rw [hparams, Json.asMembers_obj] at hexpected
      refine ⟨some ⟨.str cfg.write, Surroundings.sha256 data,
        text "evidence does not match the transformed input"⟩, ?_, ?_, ?_⟩
      · rw [pinned_input hparams hchecked hfrom, hexpected]
        rfl
      · rw [hparams]
        simpa using hpins
      · simp
  · rw [hparams]
    exact ⟨none, pinned_of_not_pins hparams hpins, by simpa using hpins, by simp⟩

theorem Dispatch.Honest.safe_of_accept (h : w.Honest) (hcfg : Synthetic.params w.task.params = .ok cfg)
    (hdigest : ∀ data, IsDigest (Surroundings.sha256 data)) {reason : Str}
    (haccept : accept w.after w.home w.task w.event = .ok reason)
    (hinput : Json.get w.task.params.asMembers (text "from_input") ≠ .null) :
  isSafeName (inputName w.task.input)
  := by
  obtain ⟨data, hdata, -, -, hartifacts, -⟩ := h.wrote hcfg
  obtain ⟨members, hparams, hchecked⟩ := checked_of_params hcfg
  unfold accept at haccept
  rw [hartifacts] at haccept
  obtain ⟨-, -, haccept⟩ := Except.bind_eq_ok.mp haccept
  obtain ⟨-, -, haccept⟩ := Except.bind_eq_ok.mp haccept
  obtain ⟨pinned, hpinned, -⟩ := Except.bind_eq_ok.mp haccept
  rw [pinned_input hparams hchecked (by rwa [hparams] at hinput)] at hpinned
  obtain ⟨digest, hexpected, -⟩ := Except.map_eq_ok.mp hpinned
  rw [← Json.asMembers_obj members, ← hparams, h.expected hcfg hdigest hdata hinput] at hexpected
  exact hexpected.1

omit [Surroundings] [Platform] in
theorem short_reportedPath (hd : Issued d) (path : List Str) :
  (reportedPath d path).length ≤ 255 ↔ (joined path).length ≤ 208
  := by
  have hartifacts : (text "artifacts/").length = 10 := rfl
  have hslash : (text "/").length = 1 := rfl
  simp only [reportedPath, List.length_append, hd.length, hartifacts, hslash]
  omega

/-- Honest work is accepted exactly when its result can be reported. -/
theorem accepted_iff_reportable (h : w.Honest) (hcfg : Synthetic.params w.task.params = .ok cfg)
    (hdigest : ∀ data, IsDigest (Surroundings.sha256 data)) (identity : VerifierIdentity) :
  (runVerifier (verify identity w.after w.home w.task w.event) w.task w.event).accepted = true ↔
    w.Reportable cfg
  := by
  obtain ⟨data, hdata, hparts, hafter, hartifacts, houtcome⟩ := h.wrote hcfg
  obtain ⟨members, hparams, hchecked⟩ := checked_of_params hcfg
  have hverdict : (runVerifier (verify identity w.after w.home w.task w.event) w.task w.event).accepted =
      true ↔ ∃ reason, accept w.after w.home w.task w.event = .ok reason := by
    unfold runVerifier verify
    rw [if_neg (by simp [houtcome])]
    cases accept w.after w.home w.task w.event with
    | ok reason => simp
    | error rejection => simp
  rw [hverdict]
  by_cases hinput : Json.get w.task.params.asMembers (text "from_input") ≠ .null →
      isSafeName (inputName w.task.input)
  · obtain ⟨pinned, hpinned, hsome, hall⟩ := h.pinned hcfg hdigest hdata hinput
    have hfound : w.after.get? (w.home ++ components Surroundings.flavour
        (reportedPath w.dispatchId (components Surroundings.flavour cfg.write))) = some data := by
      rw [hafter]
      exact h.found data
    rw [accept_single hdigest houtcome (h.answered.trans h.current.symm) hartifacts hfound hpinned,
      safeName_reportedPath h.issued hchecked.safe, short_reportedPath h.issued, h.answered]
    constructor
    · rintro ⟨hshort, hnames⟩
      refine ⟨hshort, fun hpins => ?_, hinput⟩
      obtain ⟨p, rfl⟩ := Option.isSome_iff_exists.mp (hsome.mpr hpins)
      have hmem := (hnames p rfl).2.1
      rw [(hall p rfl).1] at hmem
      exact (mem_wantedNames h.issued hparts).mp hmem
    · rintro ⟨hshort, hslashes, -⟩
      refine ⟨hshort, fun p hp => ?_⟩
      obtain ⟨hname, hdigest'⟩ := hall p hp
      rw [hname, hdigest']
      have hpins := hsome.mp (Option.isSome_iff_exists.mpr ⟨p, hp⟩)
      refine ⟨?_, (mem_wantedNames h.issued hparts).mpr (hslashes hpins), rfl⟩
      simpa [isSafeName, Json.str?] using hchecked.safe
  · constructor
    · rintro ⟨reason, haccept⟩
      exact absurd (h.safe_of_accept hcfg hdigest haccept) hinput
    · exact fun hreportable => absurd hreportable.input hinput

end Calls

section Example

def sampleDigest : Str :=
  text "ba7816bf8f01cfea414140de5dae2223b00361a396177a9cb410ff61f20015ad"

local instance surroundingsSynthetic : Surroundings where
  flavour := .posix
  sha256 data := if data = [97, 98, 99] then sampleDigest else List.replicate 64 48
  nonNegative _ := true
  accepts _ _ := true

local instance platformSynthetic : Platform := Platform.plain

theorem isDigest_sample (data : Bytes) :
  IsDigest (Surroundings.sha256 data)
  := by
  have hsample : IsDigest sampleDigest := by decide +kernel
  have hother : IsDigest (List.replicate 64 48) := by decide +kernel
  change IsDigest (if data = [97, 98, 99] then sampleDigest else List.replicate 64 48)
  split
  · exact hsample
  · exact hother

def sampleDispatch : Str :=
  text "dsp-" ++ List.replicate 32 48

/-- The configuration of a task that writes a file with this name. -/
def sampleConfig (write : Str) : Config where
  sleepS := .int 0
  write := write
  content := text "abc"
  crashAfterS := .null
  hang := false
  failTransientN := 0
  faultAttempts := [1]
  fromInput := none

/-- A task that writes a file with this name, and its execution. -/
def sampleWork (write : Str) : Dispatch where
  home := [text "courier"]
  dispatchId := sampleDispatch
  attempt := 1
  inputs := []
  before := ∅
  after := Dict.set ∅ ([text "courier", text "artifacts", sampleDispatch] ++ [write]) [97, 98, 99]
  ran := ⟨text "success", [⟨write, sampleDigest, 3⟩], [], false⟩
  execution := {
    spec := {
      dispatchId := sampleDispatch
      resultId := text "r-" ++ sampleDispatch
      artifactDir := [text "courier", text "artifacts", sampleDispatch]
      adapter := some (text "synthetic")
      effectClass := some (text "idempotent") }
    outcome := .completed
    artifacts := [⟨[write], sampleDigest⟩] }
  report := [(text "outcome", .str (text "success"))]
  task := {
    taskId := text "t-1"
    status := .verifying
    adapter := text "synthetic"
    params := .obj [(text "content", .str (text "abc")), (text "write", .str write)]
    effectClass := text "idempotent"
    maxAttempts := 3
    leaseTtlS := 60
    timeoutS := none
    dispatchId := some sampleDispatch }
  event := {
    type := .resultReady
    dispatchId := some sampleDispatch
    payload := [(text "artifacts", .arr [.obj [
        (text "path", .str (text "artifacts/" ++ sampleDispatch ++ text "/" ++ write)),
        (text "sha256", .str sampleDigest)]]),
      (text "outcome", .str (text "success"))]
    eventId := text "evt-1"
    tsUtc := text "2026-01-01T00:00:00Z" }

theorem honest_sampleWork
    (hparams : params (sampleWork write).task.params = .ok (sampleConfig write))
    (hparts : components .posix write = [write]) :
  (sampleWork write).Honest
  where
  issued := ⟨List.replicate 32 48, rfl, rfl, by decide⟩
  fresh _ := rfl
  input := .inl ⟨rfl, rfl⟩
  ran := by
    unfold run
    rw [hparams]
    change (do
      let files' ← atomicWrite ∅ [text "courier", text "artifacts", sampleDispatch]
        (components .posix write) [97, 98, 99]
      return (_, files')) = _
    rw [hparts]
    rfl
  succeeded := rfl
  completed := rfl
  directory := rfl
  reported := rfl
  collected := by
    have hcollects : Collects
        (Dict.set ∅ ([text "courier", text "artifacts", sampleDispatch] ++ [write]) [97, 98, 99])
        [text "courier", text "artifacts", sampleDispatch]
        [⟨[write], Surroundings.sha256 [97, 98, 99]⟩] := collects_of_fresh fun _ => rfl
    exact hcollects
  current := rfl
  answered := rfl
  payload := by
    intro key hkey
    simp only [List.mem_cons, List.not_mem_nil, or_false] at hkey
    rcases hkey with rfl | rfl
    · exact (@get_buildResultPayload _ (sampleWork write).execution (sampleWork write).report rfl rfl
        (some [text "courier"])).1.symm
    · exact (@get_buildResultPayload _ (sampleWork write).execution (sampleWork write).report rfl rfl
        (some [text "courier"])).2.symm

/-- A file with a short name is accepted. -/
theorem accepted_sample :
  (runVerifier (verify ⟨text "synthetic", none, none⟩ (sampleWork (text "a.txt")).after [text "courier"]
      (sampleWork (text "a.txt")).task (sampleWork (text "a.txt")).event)
    (sampleWork (text "a.txt")).task (sampleWork (text "a.txt")).event).accepted = true
  := by
  have hparams : params (sampleWork (text "a.txt")).task.params = .ok (sampleConfig (text "a.txt")) := by
    decide +kernel
  have hhonest : (sampleWork (text "a.txt")).Honest := honest_sampleWork hparams (by decide +kernel)
  exact (accepted_iff_reportable hhonest hparams isDigest_sample ⟨text "synthetic", none, none⟩).mpr
    ⟨by decide +kernel, fun _ => by decide, fun hinput => absurd rfl hinput⟩

/-- A file whose name has two hundred and nine characters is written by honest work and rejected. -/
theorem rejected_long :
  (sampleWork (List.replicate 209 97)).Honest ∧
    verify ⟨text "synthetic", none, none⟩ (sampleWork (List.replicate 209 97)).after [text "courier"]
        (sampleWork (List.replicate 209 97)).task (sampleWork (List.replicate 209 97)).event =
      .verdict ⟨text "synthetic", none, none⟩ false
        (text "evidence artifact path escapes the work scope") false
  := by
  refine ⟨honest_sampleWork (by decide +kernel) (by decide +kernel), ?_⟩
  have haccept : accept (sampleWork (List.replicate 209 97)).after [text "courier"]
      (sampleWork (List.replicate 209 97)).task (sampleWork (List.replicate 209 97)).event =
        .error ⟨text "evidence artifact path escapes the work scope", false⟩ := by
    decide +kernel
  unfold verify
  rw [haccept]
  rfl

end Example

end Courier.Synthetic
