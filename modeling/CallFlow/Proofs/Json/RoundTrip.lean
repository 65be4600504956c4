import CallFlow.Engine.StepEngine
import CallFlow.Engine.Settings
import CallFlow.Store.Memory
import CallFlow.Proofs.Json.Reading

/-! # Written forms round-trip

Flow configurations, settings, inputs, results, exit paths and stored records are read back as they
were written. The numbers of stored records are 64-bit integers, and a null input is not told from
none: no execution of a step has one.
-/
namespace CallFlow

/-! ## Flow configurations -/

theorem ActionKind.ofDocument?_name (k : ActionKind) :
    ofDocument? (.settled (.str k.name)) = some k := by
  cases k <;> rfl

theorem Action.ofDocument?_toJson (a : Action) : ofDocument? (.settled a.toJson) = some a := by
  have hknown : (Document.settled a.toJson).known? ["key", "name", "kind"] = some (.ofMembers
      [("key", .settled (.str a.key)), ("kind", .settled (.str a.kind.name)),
        ("name", .settled (.str a.name))]) :=
    Document.known?_of_members rfl (by simp) (by simp)
  simp [ofDocument?, hknown, Record.required, Record.orElse, Document.text?,
    ActionKind.ofDocument?_name]

theorem ExitTemplate.ofDocument?_toJson (e : ExitTemplate) :
    ofDocument? (.settled e.toJson) = some e := by
  have hknown : (Document.settled e.toJson).known? ["exit_path_type", "exit_path_kwargs"] =
      some (.ofMembers [("exit_path_kwargs", .settled (.ofFields e.arguments)),
        ("exit_path_type", .settled (.str e.exitType))]) :=
    Document.known?_of_members rfl (by simp) (by simp)
  simp [ofDocument?, hknown, Record.required, Record.orElse, Document.text?,
    Document.fields?_ofFields]

namespace StepTemplate
variable (t : StepTemplate)

def members : List (String × Json) :=
  Json.member? "actions" (if t.actions.isEmpty then none else some t.actionsJson) ++
    Json.member? "exit_path" (t.exitPath.map ExitTemplate.toJson) ++
    [("name", .str t.name)] ++
    Json.member? "on_error_reset_to_step" (t.resetTarget.map .str) ++
    Json.member? "on_error_switch_to_branch" (t.switchTarget.map .str) ++
    Json.member? "retry_count" t.retryJson ++
    [("step_kwargs", .ofFields t.arguments), ("step_type", .str t.stepType)]

def writtenNames : List String :=
  ["actions", "exit_path", "name", "on_error_reset_to_step", "on_error_switch_to_branch",
    "retry_count", "step_kwargs", "step_type"]

/-- A member may be left out, and none is written twice. -/
theorem members_names : (t.members.map (·.1)).Sublist writtenNames := by
  have hmember (name : String) (v : Option Json) :
      ((Json.member? name v).map (·.1)).Sublist [name] := by
    cases v <;> simp [Json.member?]
  have hactions := hmember "actions" (if t.actions.isEmpty then none else some t.actionsJson)
  have hexit := hmember "exit_path" (t.exitPath.map ExitTemplate.toJson)
  have hreset := hmember "on_error_reset_to_step" (t.resetTarget.map .str)
  have hswitch := hmember "on_error_switch_to_branch" (t.switchTarget.map .str)
  have hretry := hmember "retry_count" t.retryJson
  simp only [members, List.map_append]
  exact (((((hactions.append hexit).append (.refl _)).append hreset).append hswitch).append
    hretry).append (.refl _)

def written : Record := .ofMembers (t.members.map fun m => (m.1, .settled m.2))

theorem known?_toJson : (Document.settled t.toJson).known? memberNames = some t.written := by
  have hnames : ((t.members.map fun m => (m.1, Document.settled m.2)).map (·.1)).Sublist
      writtenNames := by
    rw [List.map_map]
    exact t.members_names
  have hknown : ∀ name ∈ writtenNames, name ∈ memberNames := by decide
  have hone : writtenNames.Nodup := by decide
  exact Document.known?_of_members rfl (hnames.nodup hone) fun m hm =>
    hknown _ (hnames.subset (List.mem_map_of_mem hm))

theorem find?_member? (name key : String) (v : Option Json) :
    (Record.ofMembers ((Json.member? key v).map fun m => (m.1, .settled m.2))).find? name =
      if key = name then v.map .settled else none := by
  cases v <;> simp [Json.member?]

theorem find?_actions : t.written.find? "actions" =
    if t.actions.isEmpty then none else some (.settled t.actionsJson) := by
  cases hempty : t.actions.isEmpty <;> simp [written, members, find?_member?, hempty]

theorem orElse_actions :
    t.written.orElse "actions" (Document.listOf? Action.ofDocument?) [] = some t.actions := by
  unfold Record.orElse
  rw [find?_actions]
  cases hempty : t.actions.isEmpty with
  | true => simp [List.isEmpty_iff.mp hempty]
  | false => exact Document.listOf?_map Action.ofDocument?_toJson t.actions

theorem ofDocument?_toJson : ofDocument? (.settled t.toJson) = some t := by
  have hname : t.written.required "name" Document.text? = some t.name :=
    Record.required_of_find (v := .str t.name) (by simp [written, members, find?_member?]) rfl
  have htype : t.written.required "step_type" Document.text? = some t.stepType :=
    Record.required_of_find (v := .str t.stepType) (by simp [written, members, find?_member?]) rfl
  have harguments : t.written.orElse "step_kwargs" Document.fields? .empty = some t.arguments :=
    Record.orElse_of_find (by simp [written, members, find?_member?])
      (Document.fields?_ofFields t.arguments)
  have hexit : t.written.optionalOrMissing "exit_path" ExitTemplate.ofDocument? =
      some t.exitPath :=
    Record.optionalOrMissing_of_find ExitTemplate.toJson
      (by simp [written, members, find?_member?]; rfl) nofun ExitTemplate.ofDocument?_toJson
  have hreset : t.written.optionalOrMissing "on_error_reset_to_step" Document.text? =
      some t.resetTarget :=
    Record.optionalOrMissing_of_find .str (by simp [written, members, find?_member?]; rfl) nofun
      fun _ => rfl
  have hswitch : t.written.optionalOrMissing "on_error_switch_to_branch" Document.text? =
      some t.switchTarget :=
    Record.optionalOrMissing_of_find .str (by simp [written, members, find?_member?]; rfl) nofun
      fun _ => rfl
  have hretry : t.written.optionalOrMissing "retry_count" Document.uint32? = some t.retryCount :=
    Record.optionalOrMissing_of_find (fun n => .nat n.toNat)
      (by simp [written, members, find?_member?, retryJson]; rfl) nofun Document.uint32?_nat
  simp only [ofDocument?, known?_toJson, Option.bind_eq_bind, Option.bind_some, hname, htype,
    harguments, orElse_actions, hexit, hreset, hswitch, hretry]
  rfl

end StepTemplate

theorem Branch.ofDocument?_toJson (b : Branch) : ofDocument? (.settled b.toJson) = some b := by
  have hknown : (Document.settled b.toJson).known? ["name", "steps", "reset_on_switch"] =
      some (.ofMembers [("name", .settled (.str b.name)),
        ("reset_on_switch", .settled (.bool b.resetOnSwitch)),
        ("steps", .settled (.arr (b.steps.map StepTemplate.toJson)))]) :=
    Document.known?_of_members rfl (by simp) (by simp)
  simp [ofDocument?, hknown, Record.required, Record.orElse, Document.text?, Document.bool?,
    Document.listOf?_map StepTemplate.ofDocument?_toJson]

theorem StepTree.ofDocument?_toJson (t : StepTree) : ofDocument? (.settled t.toJson) = some t := by
  have hknown : (Document.settled t.toJson).known? ["branches"] =
      some (.ofMembers [("branches", .settled (.arr (t.branches.map Branch.toJson)))]) :=
    Document.known?_of_members rfl (by simp) (by simp)
  simp [ofDocument?, hknown, Record.required, Document.listOf?_map Branch.ofDocument?_toJson]

theorem FlowConfig.ofDocument?_toJson (c : FlowConfig) :
    ofDocument? (.settled c.toJson) = some c := by
  have hknown : (Document.settled c.toJson).known? ["name", "step_tree"] =
      some (.ofMembers [("name", .settled (.str c.name)), ("step_tree", .settled c.tree.toJson)]) :=
    Document.known?_of_members rfl (by simp) (by simp)
  simp [ofDocument?, hknown, Record.required, Document.text?, StepTree.ofDocument?_toJson]

namespace Settings
variable (s : Settings)

def written : Record := .ofMembers [
  ("default_retry_count", .settled (.nat s.defaultRetryCount.toNat)),
  ("exit_queue_default_queue", .settled (.str s.defaultQueue)),
  ("exit_queue_exit_path", .settled (.str s.exitQueuePath)),
  ("retry_message", .settled (.str s.retryMessage))]

theorem known?_toJson : (Document.settled s.toJson).known? memberNames = some s.written :=
  Document.known?_of_members rfl (by simp) (by simp [memberNames])

theorem ofDocument?_toJson : ofDocument? (.settled s.toJson) = some s := by
  -- all settings are written, so that no standard value is looked at
  have hcount : s.written.orElse "default_retry_count" Document.uint32?
      standard.defaultRetryCount = some s.defaultRetryCount :=
    Record.orElse_of_find (by simp [written]) (Document.uint32?_nat _)
  rw [ofDocument?, known?_toJson, Option.bind_eq_bind, Option.bind_some, hcount]
  simp [written, Record.orElse, Document.text?]

end Settings

/-! ## Inputs, results and exit paths -/

theorem StepInput.ofKind?_kind (input : StepInput) :
    ofKind? input.kind (.settled input.value) = some input := by
  cases input with
  | number n =>
    show ((Document.settled (.int n.toInt)).int64?).map _ = _
    rw [Document.int64?_int (Document.fitsInt64_toInt n)]
    simp
  | digits | text | yesNo | selection => rfl

theorem StepInput.ofDocument?_toJson (reading : Document.Reading) (input : StepInput) :
    ofDocument? reading (.settled input.toJson) = some input := by
  have hknown : (Document.settled input.toJson).known? ["type", "value"] =
      some (.ofMembers [("type", .settled (.str input.kind)), ("value", .settled input.value)]) :=
    Document.known?_of_members rfl (by simp) (by simp)
  have hkind : (Document.settled (.str input.kind)).constant? reading = some input.kind := rfl
  simp [ofDocument?, hknown, Record.required, hkind, StepInput.ofKind?_kind]

/-- The tag is taken off, and the other members are what the kind is read from. -/
theorem StepResult.ofDocument?_toJson (r : StepResult) :
    ofDocument? (.settled r.toJson) = some r := by
  cases r with
  | success m | replay m | exitQueue m =>
    cases m <;> simp [ofDocument?, toJson, Json.text?, Document.tagged?, Document.json?,
      Document.members?, ofKind?, Document.known?_record, Record.optional, Document.text?]
  | inputSuccess input m =>
    cases m <;> simp [ofDocument?, toJson, Json.text?, Document.tagged?, Document.json?,
      Document.members?, ofKind?, Document.known?_record, Record.optional, Document.text?,
      Record.required, StepInput.ofDocument?_toJson]
  | error m retryable resetStep =>
    cases resetStep <;> simp [ofDocument?, toJson, Json.text?, Document.tagged?, Document.json?,
      Document.members?, ofKind?, Document.known?_record, Record.optional, Document.text?,
      Record.required, Document.bool?]

theorem ExitPath.ofDocument?_toJson (p : ExitPath) : ofDocument? (.settled p.toJson) = some p := by
  cases p with
  | hangup m =>
    cases m <;> simp [ofDocument?, toJson, Json.text?, Document.tagged?, Document.json?,
      Document.members?, ofKind?, Document.known?_record, Record.optional, Document.text?]
  | transferToQueue queue m =>
    cases m <;> simp [ofDocument?, toJson, Json.text?, Document.tagged?, Document.json?,
      Document.members?, ofKind?, Document.known?_record, Record.optional, Document.text?,
      Record.required]
  | handoff workflow =>
    simp [ofDocument?, toJson, Document.tagged?, Document.json?, Document.members?, ofKind?,
      Document.known?_record, Document.text?, Record.required]
  | custom exitType arguments =>
    simp [ofDocument?, toJson, Document.tagged?, Document.json?, Document.members?, ofKind?,
      Document.known?_record, Document.text?, Record.required, Document.fields?_ofFields]

/-! ## Stored records -/

structure RunRecord.InRange (r : RunRecord) : Prop where
  id : Text.fitsInt64 r.id = true
  version : Text.fitsInt64 r.version = true

structure StepRunRecord.InRange (s : StepRunRecord) : Prop where
  id : Text.fitsInt64 s.id = true
  run : Text.fitsInt64 s.run = true

structure PositionRecord.InRange (p : PositionRecord) : Prop where
  id : Text.fitsInt64 p.id = true
  run : Text.fitsInt64 p.run = true
  stepRun : Text.fitsInt64 p.stepRun = true
  order : Text.fitsInt64 p.order = true

structure HistoryEntry.InRange (e : HistoryEntry) : Prop where
  position : e.position.InRange
  stepRun : e.stepRun.InRange

/-- Besides, no attempt is made with a null input, which would be read as none. -/
structure AttemptRecord.InRange (a : AttemptRecord) : Prop where
  id : Text.fitsInt64 a.id = true
  stepRun : Text.fitsInt64 a.stepRun = true
  input : a.input ≠ some .null

theorem Record.fits_of_required {r : Record} {name : String} {n : Int}
    (h : r.required name Document.int64? = some n) : Text.fitsInt64 n = true := by
  obtain ⟨d, -, hd⟩ := Option.bind_eq_some_iff.mp h
  exact Document.fits_of_int64? hd

namespace RunRecord
variable {r : RunRecord}

theorem ofDocument?_toJson (h : r.InRange) : ofDocument? (.settled r.toJson) = some r := by
  have hknown : (Document.settled r.toJson).known? memberNames = some (.ofMembers
      [("created_at", .settled (.str r.createdAt)), ("current_branch", .settled (.str r.branch)),
        ("id", .settled (.int r.id)), ("session", .settled (.ofFields r.session)),
        ("state", .settled (.str r.state)), ("updated_at", .settled (.str r.updatedAt)),
        ("version", .settled (.int r.version)),
        ("workflow_config_tag", .settled (.str r.configTag))]) :=
    Document.known?_of_members rfl (by simp) (by simp [memberNames])
  simp [ofDocument?, hknown, Record.required, Document.text?, Document.fields?_ofFields,
    Document.int64?_int h.id, Document.int64?_int h.version]

theorem inRange_of_read {d : Document} (h : ofDocument? d = some r) : r.InRange := by
  simp only [ofDocument?, Option.bind_eq_bind, Option.bind_eq_some_iff] at h
  obtain ⟨_, -, _, hid, _, -, _, -, _, -, _, -, _, hversion, _, -, _, -, hr⟩ := h
  obtain rfl := Option.some.inj hr
  exact ⟨Record.fits_of_required hid, Record.fits_of_required hversion⟩

end RunRecord

namespace StepRunRecord
variable {s : StepRunRecord}

theorem ofDocument?_toJson (h : s.InRange) : ofDocument? (.settled s.toJson) = some s := by
  have hknown : (Document.settled s.toJson).known? memberNames = some (.ofMembers
      [("branch", .settled (.str s.branch)), ("created_at", .settled (.str s.createdAt)),
        ("id", .settled (.int s.id)), ("init_snapshot", .settled s.snapshot),
        ("name", .settled (.str s.name)), ("step_type", .settled (.str s.stepType)),
        ("workflow_run_id", .settled (.int s.run))]) :=
    Document.known?_of_members rfl (by simp) (by simp [memberNames])
  simp [ofDocument?, hknown, Record.required, Document.text?, Document.json?,
    Document.int64?_int h.id, Document.int64?_int h.run]

theorem inRange_of_read {d : Document} (h : ofDocument? d = some s) : s.InRange := by
  simp only [ofDocument?, Option.bind_eq_bind, Option.bind_eq_some_iff] at h
  obtain ⟨_, -, _, hid, _, hrun, _, -, _, -, _, -, _, -, _, -, hs⟩ := h
  obtain rfl := Option.some.inj hs
  exact ⟨Record.fits_of_required hid, Record.fits_of_required hrun⟩

end StepRunRecord

namespace PositionRecord
variable {p : PositionRecord}

theorem ofDocument?_toJson (h : p.InRange) : ofDocument? (.settled p.toJson) = some p := by
  have hknown : (Document.settled p.toJson).known? memberNames = some (.ofMembers
      [("branched_on_error", .settled (.bool p.branchedOnError)),
        ("created_at", .settled (.str p.createdAt)), ("id", .settled (.int p.id)),
        ("run_order", .settled (.int p.order)), ("step_run_id", .settled (.int p.stepRun)),
        ("workflow_run_id", .settled (.int p.run))]) :=
    Document.known?_of_members rfl (by simp) (by simp [memberNames])
  simp [ofDocument?, hknown, Record.required, Document.text?, Document.bool?,
    Document.int64?_int h.id, Document.int64?_int h.run, Document.int64?_int h.stepRun,
    Document.int64?_int h.order]

theorem inRange_of_read {d : Document} (h : ofDocument? d = some p) : p.InRange := by
  simp only [ofDocument?, Option.bind_eq_bind, Option.bind_eq_some_iff] at h
  obtain ⟨_, -, _, hid, _, hrun, _, hstep, _, horder, _, -, _, -, hp⟩ := h
  obtain rfl := Option.some.inj hp
  exact ⟨Record.fits_of_required hid, Record.fits_of_required hrun,
    Record.fits_of_required hstep, Record.fits_of_required horder⟩

end PositionRecord

namespace HistoryEntry
variable {e : HistoryEntry}

theorem ofDocument?_toJson (h : e.InRange) : ofDocument? (.settled e.toJson) = some e := by
  have hknown : (Document.settled e.toJson).known? ["workflow_step_run", "step_run"] =
      some (.ofMembers [("step_run", .settled e.stepRun.toJson),
        ("workflow_step_run", .settled e.position.toJson)]) :=
    Document.known?_of_members rfl (by simp) (by simp)
  simp [ofDocument?, hknown, Record.required, PositionRecord.ofDocument?_toJson h.position,
    StepRunRecord.ofDocument?_toJson h.stepRun]

theorem inRange_of_read {d : Document} (h : ofDocument? d = some e) : e.InRange := by
  simp only [ofDocument?, Option.bind_eq_bind, Option.bind_eq_some_iff] at h
  obtain ⟨_, -, p, hp, s, hs, he⟩ := h
  obtain rfl := Option.some.inj he
  obtain ⟨_, hposition⟩ := Record.required_eq_some hp
  obtain ⟨_, hstepRun⟩ := Record.required_eq_some hs
  exact ⟨PositionRecord.inRange_of_read hposition, StepRunRecord.inRange_of_read hstepRun⟩

end HistoryEntry

namespace AttemptRecord
variable {a : AttemptRecord}

def written (a : AttemptRecord) : Record := .ofMembers [
  ("created_at", .settled (.str a.createdAt)), ("error", .settled (.bool a.failed)),
  ("id", .settled (.int a.id)), ("input", .settled (a.input.getD .null)),
  ("result", .settled a.result), ("retryable", .settled (.bool a.retryable)),
  ("step_run_id", .settled (.int a.stepRun))]

theorem ofDocument?_toJson (h : a.InRange) : ofDocument? (.settled a.toJson) = some a := by
  have hknown : (Document.settled a.toJson).known? memberNames = some a.written :=
    Document.known?_of_members rfl (by simp) (by simp [memberNames])
  have hinput : a.written.optional "input" Document.json? = some a.input :=
    Record.optional_free (by simp [written]) h.input
  rw [ofDocument?, hknown]
  simp only [Option.bind_eq_bind, Option.bind_some, hinput]
  simp [written, Record.required, Document.text?, Document.bool?, Document.json?,
    Document.int64?_int h.id, Document.int64?_int h.stepRun]

theorem inRange_of_read {d : Document} (h : ofDocument? d = some a) : a.InRange := by
  simp only [ofDocument?, Option.bind_eq_bind, Option.bind_eq_some_iff] at h
  obtain ⟨_, -, _, hid, _, hstep, _, hinput, _, -, _, -, _, -, _, -, ha⟩ := h
  obtain rfl := Option.some.inj ha
  exact ⟨Record.fits_of_required hid, Record.fits_of_required hstep,
    Record.ne_null_of_optional hinput⟩

/-- A null input is lost. -/
example : ofDocument? (.settled (toJson ⟨1, 1, some .null, .null, false, false, ""⟩)) =
    some ⟨1, 1, none, .null, false, false, ""⟩ := by
  rfl

end AttemptRecord

/-! ## What the step engine records -/

theorem StepEngine.newAttempt_input (stepRun : Int) (raw : Option String)
    (x : StepBehavior.Execution) : (newAttempt stepRun raw x).input ≠ some .null := by
  unfold newAttempt
  cases x.input with
  | some input => exact nofun
  | none => cases raw <;> exact nofun

theorem Memory.input_of_insertAttempt {new : NewAttempt} {s s' : Snapshot} {m m' : Memory}
    {a attempt : AttemptRecord} (h : m.insertAttempt new s = (.ok (attempt, s'), m'))
    (ha : .insertAttempt a ∈ s'.writes) : .insertAttempt a ∈ s.writes ∨ a.input = new.input := by
  unfold Memory.insertAttempt at h
  split at h
  · cases h
    rcases List.mem_append.mp ha with ha | ha
    · exact .inl ha
    · cases List.mem_singleton.mp ha
      exact .inr rfl
  · cases h

/-- No attempt that the step engine stages has a null input. -/
theorem StepEngine.input_of_run {engine : StepEngine} {services : Services} {raw : Option String}
    {session : Session} {s : Snapshot} {m : Memory} {a : AttemptRecord}
    (ha : .insertAttempt a ∈
      (run (σ := Memory) engine services raw session s m).1.snapshot.writes) :
    .insertAttempt a ∈ s.writes ∨ a.input ≠ some .null := by
  simp only [run] at ha
  split at ha
  · split at ha
    · rename_i hinsert
      rcases Memory.input_of_insertAttempt hinsert ha with ha | hinput
      · exact .inl ha
      · exact .inr (hinput ▸ newAttempt_input _ _ _)
    · exact .inl ha
  · exact .inl ha

/-- What was written is read back, for every form that is stored or answered. -/
theorem written_forms_round_trip :
    RoundTrips FlowConfig.toJson FlowConfig.ofDocument? (fun _ => True) ∧
    RoundTrips Settings.toJson Settings.ofDocument? (fun _ => True) ∧
    (∀ reading, RoundTrips StepInput.toJson (StepInput.ofDocument? reading) fun _ => True) ∧
    RoundTrips StepResult.toJson StepResult.ofDocument? (fun _ => True) ∧
    RoundTrips ExitPath.toJson ExitPath.ofDocument? (fun _ => True) ∧
    RoundTrips RunRecord.toJson RunRecord.ofDocument? RunRecord.InRange ∧
    RoundTrips StepRunRecord.toJson StepRunRecord.ofDocument? StepRunRecord.InRange ∧
    RoundTrips PositionRecord.toJson PositionRecord.ofDocument? PositionRecord.InRange ∧
    RoundTrips HistoryEntry.toJson HistoryEntry.ofDocument? HistoryEntry.InRange ∧
    RoundTrips AttemptRecord.toJson AttemptRecord.ofDocument? AttemptRecord.InRange ∧
    ∀ (engine : StepEngine) (services : Services) (raw : Option String) (session : Session)
      (s : Snapshot) (m : Memory) (a : AttemptRecord),
      let ran := (engine.run (σ := Memory) services raw session s m).1
      .insertAttempt a ∈ ran.snapshot.writes →
        .insertAttempt a ∈ s.writes ∨ a.input ≠ some .null :=
  ⟨.of_all FlowConfig.ofDocument?_toJson, .of_all Settings.ofDocument?_toJson,
    fun reading => .of_all (StepInput.ofDocument?_toJson reading),
    .of_all StepResult.ofDocument?_toJson, .of_all ExitPath.ofDocument?_toJson,
    .of_read_write (fun _ => RunRecord.ofDocument?_toJson) fun _ _ => RunRecord.inRange_of_read,
    .of_read_write (fun _ => StepRunRecord.ofDocument?_toJson)
      fun _ _ => StepRunRecord.inRange_of_read,
    .of_read_write (fun _ => PositionRecord.ofDocument?_toJson)
      fun _ _ => PositionRecord.inRange_of_read,
    .of_read_write (fun _ => HistoryEntry.ofDocument?_toJson)
      fun _ _ => HistoryEntry.inRange_of_read,
    .of_read_write (fun _ => AttemptRecord.ofDocument?_toJson)
      fun _ _ => AttemptRecord.inRange_of_read,
    fun _ _ _ _ _ _ _ => StepEngine.input_of_run⟩

end CallFlow
