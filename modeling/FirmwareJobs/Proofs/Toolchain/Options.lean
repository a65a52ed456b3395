import FirmwareJobs.Proofs.Job.Validation
import FirmwareJobs.Proofs.Toolchain.Account

/-!
# Options of the toolchain

The steps of an action are lists of arguments, and the toolchain takes those that begin with a
hyphen as options. Of the texts of an accepted request only the name of the device can come out as
one: the name of the document has the working directory before it, and neither the action nor the
option for a clean build is copied from a text.
-/

namespace FirmwareJobs

/-- The record is that of a job for the order, at any time of its life. -/
structure Order.IsOf (o : Order) (record : Record) : Prop where
  document : record.document = o.document
  action : record.action = o.action
  device : record.device = o.device
  clean : record.clean = o.clean

theorem Order.isOf_fresh (o : Order) (id : String) (now : Time.Instant) :
    o.IsOf (.fresh id o.document o.action o.device o.clean now) := ⟨rfl, rfl, rfl, rfl⟩

namespace Toolchain

open Course

/-! ## The options of a step -/

def IsOption (argument : String) : Prop := argument.toList.head? = some '-'

instance : DecidablePred IsOption := fun argument =>
  inferInstanceAs (Decidable (argument.toList.head? = some '-'))

def options (arguments : List String) : List String := arguments.filter IsOption

/-- The options for the steps of an action; behind the option for the device stand the `others`. -/
def expectedOptions (action : Action) (clean : Bool) (others : List String) : List (List String) :=
  let cleaning := if clean then ["--clean"] else []
  match action with
  | .compile => [[], cleaning]
  | .ota => [[], cleaning, "--device" :: others ++ cleaning]
  | .logs => ["--device" :: others]

theorem options_append (before after : List String) :
    options (before ++ after) = options before ++ options after := List.filter_append ..

theorem options_singleton_eq_nil_iff (argument : String) :
    options [argument] = [] ↔ ¬ IsOption argument := by
  simp [options]

@[simp]
theorem options_cleanOption (record : Record) : options (cleanOption record) =
    if record.clean then ["--clean"] else [] := by
  cases h : record.clean <;> simp [cleanOption, h] <;> decide

theorem options_deviceOption (record : Record) :
    options (deviceOption record) = "--device" :: options [record.device] := by
  rw [deviceOption, ← List.singleton_append, options_append]
  rfl

theorem not_isOption_of_isAbsolute {path : String} (h : Path.isAbsolute path = true) :
    ¬ IsOption path := by
  intro hoption
  have hslash : path.toList.head? = some '/' := by simpa [Path.isAbsolute] using h
  rw [IsOption, hslash] at hoption
  cases hoption

section

variable {record : Record} {document : String}

theorem options_word_document {word : String} (hword : ¬ IsOption word)
    (hdocument : ¬ IsOption document) : options [word, document] = [] := by
  simp [options, hword, hdocument]

theorem map_options_steps (hdocument : ¬ IsOption document) :
    (steps record document).map options =
      expectedOptions record.action record.clean (options [record.device]) := by
  have hword (word : String) (hword : ¬ IsOption word) : options [word, document] = [] :=
    options_word_document hword hdocument
  have hconfig : options (configStep document) = [] := hword "config" (by decide)
  have hcompile : options (compileStep record document) =
      if record.clean then ["--clean"] else [] := by
    rw [compileStep, options_append, hword "compile" (by decide), options_cleanOption,
      List.nil_append]
  have hupload : options (uploadStep record document) =
      "--device" :: options [record.device] ++ if record.clean then ["--clean"] else [] := by
    rw [uploadStep, options_append, options_append, hword "upload" (by decide),
      options_deviceOption, options_cleanOption, List.nil_append]
  have hlogs : options (logsStep record document) = "--device" :: options [record.device] := by
    rw [logsStep, options_append, hword "logs" (by decide), options_deviceOption,
      List.nil_append]
  cases haction : record.action with
  | compile => simp [steps_of_compile haction, expectedOptions, hconfig, hcompile]
  | ota => simp [steps_of_ota haction, expectedOptions, hconfig, hcompile, hupload]
  | logs => simp [steps_of_logs haction, expectedOptions, hlogs]

end

theorem expectedOptions_inj {action : Action} (hneeds : action.needsDevice = true) {clean : Bool}
    {others others' : List String} :
    expectedOptions action clean others = expectedOptions action clean others' ↔
      others = others' := by
  cases action with
  | compile => cases hneeds
  | ota => simp [expectedOptions]
  | logs => simp [expectedOptions]

/-! ## The steps of an accepted request -/

section

variable {s : Settings} {r : Request} {o : Order} {record : Record}

theorem not_isOption_documentPath (habsolute : Path.isAbsolute s.workDir = true)
    (hgrants : r.Grants o) : ¬ IsOption (s.documentPath o.document) := by
  have hchild := Path.isChild_join s.workDir hgrants.document.2.isName
  exact not_isOption_of_isAbsolute (hchild.isAbsolute.trans habsolute)

theorem map_options_steps_of_grants (habsolute : Path.isAbsolute s.workDir = true)
    (hgrants : r.Grants o) (hrecord : o.IsOf record) :
    (steps record (s.documentPath record.document)).map options =
      expectedOptions o.action r.clean (options [o.device]) := by
  have hdocument := not_isOption_documentPath habsolute hgrants
  rw [← hrecord.document] at hdocument
  rw [map_options_steps hdocument, hrecord.action, hrecord.device, hrecord.clean, hgrants.clean]

theorem options_device_of_not_needsDevice (hgrants : r.Grants o)
    (h : o.action.needsDevice = false) : options [o.device] = [] := by
  have hdevice := hgrants.device
  rw [if_neg (by simp [h])] at hdevice
  rw [hdevice]
  decide

/-- The options of a request tell which texts stand behind the option for its device. -/
theorem expectedOptions_device_eq_iff (hgrants : r.Grants o) {clean : Bool} {others : List String}
    (hothers : o.action.needsDevice = false → others = []) :
    expectedOptions o.action clean (options [o.device]) = expectedOptions o.action clean others ↔
      options [o.device] = others := by
  cases hneeds : o.action.needsDevice with
  | false =>
    rw [options_device_of_not_needsDevice hgrants hneeds, hothers hneeds]
    exact iff_of_true rfl rfl
  | true => exact expectedOptions_inj hneeds

end

/-- A command that a course has started is the toolchain command with a step of the job behind
it. -/
theorem exists_step_of_mem_started {plan : Plan} {bench : Workbench} {moves : List Move}
    {c : Course} (hrunning : bench.job.state = .running)
    (hnew : bench.job.cancelRequested = false) (hrun : (start bench).run? plan moves = some c)
    {call : List String} (hcall : call ∈ c.started) :
    ∃ words, plan.settings.toolchainWords = .ok words ∧
      ∃ step ∈ steps bench.job.record (plan.settings.documentPath bench.job.record.document),
        call = words ++ step := by
  have hmem := (sound_run hrunning hnew hrun).fits.isPrefix.subset hcall
  cases hwords : plan.settings.toolchainWords with
  | error fault =>
    rw [Plan.calls_of_error hwords] at hmem
    cases hmem
  | ok words =>
    rw [Plan.calls_of_ok hwords] at hmem
    obtain ⟨step, hstep, rfl⟩ := List.mem_map.1 hmem
    exact ⟨words, rfl, step, hstep, rfl⟩

/-- In an absolute working directory the steps of an accepted request have the options of its action
and of its wish for a clean build, and the name of the device behind the option for it if that name
begins with a hyphen. They have no others if and only if it does not; another request for the same
action has the same options if and only if it has the same option there. Nothing but these steps is
put behind the toolchain command. -/
theorem options_of_accepted_iff {s : Settings} (habsolute : Path.isAbsolute s.workDir = true)
    {r : Request} {o : Order} (hvalid : r.validate = .ok o) {record : Record}
    (hrecord : o.IsOf record) :
    let appended (record : Record) := steps record (s.documentPath record.document)
    (appended record).map options = expectedOptions o.action r.clean (options [o.device]) ∧
    ((appended record).map options = expectedOptions o.action r.clean [] ↔ ¬ IsOption o.device) ∧
    (∀ (r' : Request) o' record', r'.validate = .ok o' → o'.IsOf record' →
      o'.action = o.action → r'.clean = r.clean →
      ((appended record').map options = (appended record).map options ↔
        options [o'.device] = options [o.device])) ∧
    ∀ plan bench moves c, plan.settings = s → bench.job.record = record →
      record.state = .running → bench.job.cancelRequested = false →
      (start bench).run? plan moves = some c → ∀ call ∈ c.started,
        ∃ words, s.toolchainWords = .ok words ∧ ∃ step ∈ appended record, call = words ++ step := by
  intro appended
  have hgrants := Request.validate_eq_ok_iff.1 hvalid
  have hoptions : (appended record).map options = _ :=
    map_options_steps_of_grants habsolute hgrants hrecord
  refine ⟨hoptions, ?_, ?_, ?_⟩
  · rw [hoptions, expectedOptions_device_eq_iff hgrants fun _ => rfl, options_singleton_eq_nil_iff]
  · intro r' o' record' hvalid' hrecord' haction hclean
    have hgrants' := Request.validate_eq_ok_iff.1 hvalid'
    have hoptions' : (appended record').map options = _ :=
      map_options_steps_of_grants habsolute hgrants' hrecord'
    have hnone (h : o'.action.needsDevice = false) : options [o.device] = [] :=
      options_device_of_not_needsDevice hgrants (haction ▸ h)
    rw [hoptions, hoptions', hclean, ← haction, expectedOptions_device_eq_iff hgrants' hnone]
  · rintro plan bench moves c rfl rfl hrunning hnew hrun call hcall
    exact exists_step_of_mem_started hrunning hnew hrun hcall

/-! ## A device that is an option -/

/-- The log of a device whose name is the option for a clean build. -/
def hyphenRequest : Request := ⟨"node.yaml", "logs", "--clean", false⟩

def hyphenOrder : Order := ⟨"node.yaml", .logs, "--clean", false⟩

/-- The request is accepted, and its step has an option that it did not ask for. -/
theorem options_hyphenRequest : hyphenRequest.validate = .ok hyphenOrder ∧
    Path.isAbsolute "/config" = true ∧
    let record := Record.fresh "lamp" "node.yaml" .logs "--clean" false Job.noon
    (steps record "/config/node.yaml").map options = [["--device", "--clean"]] ∧
    (steps record "/config/node.yaml").map options ≠ expectedOptions .logs false [] := by
  decide

/-- An upload to a host with a name of the usual kind. -/
theorem options_kitchenRequest :
    kitchenRequest.validate = .ok kitchenOrder ∧
    Path.isAbsolute "/config" = true ∧
    (steps (.fresh "lamp" "kitchen-1.yaml" .ota "node.local" true Job.noon)
      "/config/kitchen-1.yaml").map options = [[], ["--clean"], ["--device", "--clean"]] := by
  have hvalid : kitchenRequest.validate = .ok kitchenOrder := by decide
  have habsolute : Path.isAbsolute "/config" = true := by decide
  obtain ⟨-, hplain, -, -⟩ := options_of_accepted_iff
    (s := { jobDir := "/jobs", workDir := "/config" }) habsolute hvalid
    (kitchenOrder.isOf_fresh "lamp" Job.noon)
  exact ⟨hvalid, habsolute, hplain.2 (by decide)⟩

end Toolchain

end FirmwareJobs
