import CallFlow.Step.Menu
import CallFlow.Proofs.Flow.Arguments
import CallFlow.Proofs.Input.Grammar

/-! # The keys of a menu

A menu is built from its arguments if no two of its keys are equal. What a caller enters is bound to
one of the keys or refused, and the menu does what stands under that key: it leaves for the queue,
says its prompt again, or keeps the name of the one action with the key. That every key can be
pressed is not checked: one that is blank at an end, or ends in the terminator key, is never bound
to itself.
-/
namespace CallFlow
open Text

namespace Menu
variable {args : StepArguments} {m : Menu} {key : String} {keys : List String}

/-! ## Building -/

/-- The menu that the arguments describe. No two of its keys are equal. -/
structure Built (args : StepArguments) (m : Menu) : Prop where
  nonempty : args.actions ≠ []
  actions : m.actions = args.actions
  exitKey : ∃ key, args.arguments.GivesText "exit_queue_digit" key ∧
    m.exitKey = key.getD defaultExitKey
  keys : m.keys.Nodup
  prompt : args.arguments.GivesText "prompt" (some m.prompt)
  errorMessage : args.arguments.GivesText "error_message" m.errorMessage
  queue : args.arguments.GivesText "queue" m.queue
  sessionKey : ∃ key, args.arguments.GivesText "session_key" key ∧
    m.sessionKey = key.getD args.name

theorem checkKeys_eq_ok_iff {exitKey : String} {seen : List String} {actions : List Action} :
    checkKeys exitKey seen actions = .ok () ↔ (actions.map (·.key)).Nodup ∧
      (∀ a ∈ actions, a.key ∉ seen) ∧ ∀ a ∈ actions, a.key ≠ exitKey := by
  induction actions generalizing seen with
  | nil => simp [checkKeys]
  | cons a rest ih =>
    simp only [checkKeys, List.map_cons, List.nodup_cons, List.forall_mem_cons, List.mem_map,
      not_exists, not_and]
    by_cases hexit : a.key = exitKey
    · simp [hexit, refuse]
    · by_cases hseen : a.key ∈ seen
      · simp [hexit, hseen, refuse]
      · simp only [hexit, hseen, if_false, ih, List.mem_cons, not_or]
        grind

theorem keys_nodup_iff : m.keys.Nodup ↔
    (m.actions.map (·.key)).Nodup ∧ ∀ a ∈ m.actions, a.key ≠ m.exitKey := by
  simp [keys, List.nodup_append]

/-- A menu is built exactly if it is what the arguments describe. -/
theorem build_eq_ok_iff : build args = .ok m ↔ m.Built args := by
  unfold build
  by_cases hnone : args.actions = []
  · simp only [hnone, List.isEmpty_nil, if_true]
    constructor
    · intro h
      cases h
    · exact fun h => absurd hnone h.nonempty
  have hsome : args.actions.isEmpty = false := by simpa using hnone
  simp only [hsome, Bool.false_eq_true, if_false, bind_eq_ok, Fields.optionalText_eq_ok_iff,
    Fields.requiredText_eq_ok_iff]
  constructor
  · rintro ⟨exit, hexit, ⟨⟩, hkeys, prompt, hprompt, message, hmessage, queue, hqueue, session,
      hsession, h⟩
    obtain ⟨hnodup, -, hother⟩ := checkKeys_eq_ok_iff.mp hkeys
    obtain rfl := Except.ok.inj h
    exact ⟨hnone, rfl, ⟨exit, hexit, rfl⟩, keys_nodup_iff.mpr ⟨hnodup, hother⟩, hprompt, hmessage,
      hqueue, session, hsession, rfl⟩
  · intro h
    obtain ⟨exit, hexit, hkey⟩ := h.exitKey
    obtain ⟨session, hsession, hkept⟩ := h.sessionKey
    obtain ⟨hnodup, hother⟩ := keys_nodup_iff.mp h.keys
    rw [h.actions, hkey] at hother
    rw [h.actions] at hnodup
    have hkeys : checkKeys (exit.getD defaultExitKey) [] args.actions = .ok () :=
      checkKeys_eq_ok_iff.mpr ⟨hnodup, by simp, hother⟩
    refine ⟨exit, hexit, (), hkeys, m.prompt, h.prompt, m.errorMessage,
      h.errorMessage, m.queue, h.queue, session, hsession, ?_⟩
    rw [← h.actions, ← hkey, ← hkept]
    rfl

theorem construct_eq_ok_iff {b : StepBehavior} :
    construct args = .ok b ↔ ∃ m : Menu, m.Built args ∧ m.behavior = b := by
  simp only [construct, map_eq_ok, build_eq_ok_iff]

/-! ## Pressing -/

inductive Takes (m : Menu) (key : String) (session : Session) : StepResult → Session → Prop
  | leaves (exit : key = m.exitKey) : Takes m key session (.exitQueue m.queue) session
  | repeats {a : Action} (other : key ≠ m.exitKey) (only : m.actions.filter (·.key = key) = [a])
    (again : a.kind = .again) : Takes m key session (.replay (some m.prompt)) session
  | selects {a : Action} (other : key ≠ m.exitKey) (only : m.actions.filter (·.key = key) = [a])
    (select : a.kind = .select) : Takes m key session (.inputSuccess (.selection a.name) none)
      (session.insert m.sessionKey (.str a.name))

theorem filter_key {actions : List Action} {a : Action} (h : (actions.map (·.key)).Nodup)
    (ha : a ∈ actions) : actions.filter (·.key = a.key) = [a] := by
  induction actions with
  | nil => cases ha
  | cons first rest ih =>
    obtain ⟨hfirst, hrest⟩ := List.nodup_cons.mp h
    rcases List.mem_cons.mp ha with rfl | ha
    · have hnone : rest.filter (·.key = a.key) = [] := by
        refine List.filter_eq_nil_iff.mpr fun b hb heq => hfirst ?_
        exact List.mem_map.mpr ⟨b, hb, by simpa using heq⟩
      simp [hnone]
    · have hne : first.key ≠ a.key := fun heq => hfirst (List.mem_map.mpr ⟨a, ha, heq.symm⟩)
      simpa [hne] using ih hrest ha

theorem exists_takes (hkeys : m.keys.Nodup) (hkey : key ∈ m.keys) (session : Session) :
    ∃ result kept, m.Takes key session result kept := by
  obtain ⟨hnodup, hother⟩ := keys_nodup_iff.mp hkeys
  rcases List.mem_append.mp hkey with hkey | hkey
  · obtain ⟨a, ha, rfl⟩ := List.mem_map.mp hkey
    have honly := filter_key hnodup ha
    cases hkind : a.kind with
    | again => exact ⟨_, _, .repeats (hother a ha) honly hkind⟩
    | select => exact ⟨_, _, .selects (hother a ha) honly hkind⟩
  · exact ⟨_, _, .leaves (List.mem_singleton.mp hkey)⟩

section Takes
variable {session kept : Session} {result : StepResult} (h : m.Takes key session result kept)
include h

theorem Takes.run_eq (services : Services) :
    m.run ⟨some (.selection key), services⟩ session = (.ok result, session) := by
  have hrun : m.run ⟨some (.selection key), services⟩ session = (m.press key, session) := rfl
  have hpress : m.press key = .ok result := by
    cases h with
    | leaves exit => simp only [press, if_pos exit]
    | repeats other only kind | selects other only kind =>
      have hfound := List.head?_filter (p := (·.key = key)) (l := m.actions)
      rw [only, List.head?_cons] at hfound
      simp only [press, if_neg other, ← hfound, kind]
  rw [hrun, hpress]

/-- The answer is accepted, and the session keeps what it is to keep of it. -/
theorem Takes.perform_eq (services : Services) :
    m.behavior.perform ⟨some (.selection key), services⟩ session =
      ⟨some (.selection key), .ok result, kept⟩ := by
  have hrun : m.behavior.run ⟨some (.selection key), services⟩ session = (.ok result, session) :=
    h.run_eq services
  cases h <;> simp only [StepBehavior.perform, hrun] <;> rfl

end Takes

/-! ## Binding keys -/

theorem bind_selection {raw : Option String} {input : StepInput}
    (h : (InputType.selection keys).bind raw = .ok input) :
    ∃ key ∈ keys, input = .selection key := by
  obtain ⟨-, cs, -, -, -, hreads⟩ := InputType.exists_of_bind_eq_ok h
  cases hreads with
  | selection n listed => exact ⟨_, listed, rfl⟩

/-- A key that can be pressed as it is: it is not empty, has no white space at its ends and no
terminator key at its end. -/
structure Pressable (key : String) : Prop where
  nonempty : key.toList ≠ []
  trimmed : Trimmed key.toList
  bare : key.toList.getLast? ≠ some '#'

instance (key : String) : Decidable (Pressable key) :=
  decidable_of_iff (key.toList ≠ [] ∧ Trimmed key.toList ∧ key.toList.getLast? ≠ some '#')
    ⟨fun ⟨hnonempty, htrimmed, hbare⟩ => ⟨hnonempty, htrimmed, hbare⟩,
      fun h => ⟨h.nonempty, h.trimmed, h.bare⟩⟩

/-- A listed key is bound to itself if it can be pressed. -/
theorem bind_key_iff (h : key ∈ keys) :
    (InputType.selection keys).bind (some key) = .ok (.selection key) ↔ Pressable key := by
  constructor
  · intro hbind
    obtain ⟨entered, cs, hentered, htrims, hsome, hreads⟩ := InputType.exists_of_bind_eq_ok hbind
    cases hentered
    generalize hinput : StepInput.selection key = input at hreads
    cases hreads with
    | @selection _ k n listed bare =>
      obtain rfl : key = String.ofList k := by simpa using hinput
      rw [String.toList_ofList] at htrims
      -- the key is a part of what is left of it, so that nothing was taken away
      obtain ⟨⟨lead, trail, hall, -⟩, htrimmed⟩ := htrims
      have hlength := congrArg List.length hall
      simp only [InputType.terminated, List.length_append, List.length_replicate] at hlength
      obtain rfl : n = 0 := by omega
      rw [InputType.terminated, List.replicate_zero, List.append_nil] at hsome htrimmed
      refine ⟨?_, ?_, ?_⟩ <;> rw [String.toList_ofList] <;> assumption
  · intro hkey
    have hreads := InputType.Reads.selection 0 (by rwa [String.ofList_toList]) hkey.bare
    simp only [InputType.terminated, List.replicate_zero, List.append_nil,
      String.ofList_toList] at hreads
    exact (InputType.bind_eq_ok_iff hkey.trimmed.trimsTo hkey.nonempty).mpr hreads

/-- Every key of a menu stands for what it was built with. Entering it is taken as the key if it is
not empty, has no white space at its ends and no terminator key at its end, and else is not. -/
theorem offered_key_bound_iff {b : StepBehavior} (h : construct args = .ok b) :
    ∃ m : Menu, m.Built args ∧ b = m.behavior ∧ ∀ key ∈ m.keys,
      ((InputType.selection m.keys).bind (some key) = .ok (.selection key) ↔ Pressable key) ∧
      (∀ services session, ∃ result kept, m.Takes key session result kept ∧
        b.perform ⟨some (.selection key), services⟩ session =
          ⟨some (.selection key), .ok result, kept⟩) ∧
      (¬ Pressable key → ∀ input, (InputType.selection m.keys).bind (some key) = .ok input →
        ∃ other ∈ m.keys, other ≠ key ∧ input = .selection other) := by
  obtain ⟨m, hbuilt, rfl⟩ := construct_eq_ok_iff.mp h
  refine ⟨m, hbuilt, rfl, fun key hkey => ⟨bind_key_iff hkey, ?_, ?_⟩⟩
  · intro services session
    obtain ⟨result, kept, htakes⟩ := exists_takes hbuilt.keys hkey session
    exact ⟨result, kept, htakes, htakes.perform_eq services⟩
  · intro hnot input hinput
    obtain ⟨other, hother, rfl⟩ := bind_selection hinput
    refine ⟨other, hother, ?_, rfl⟩
    rintro rfl
    exact hnot ((bind_key_iff hkey).mp hinput)

/-- A menu of which two keys cannot be pressed: the key for leaving is the terminator key itself, and
the other ends in one. -/
def frontDesk : StepArguments where
  name := "department"
  branch := "lobby"
  arguments := (Table.empty.insert "prompt" (.str "Sales?")).insert "exit_queue_digit" (.str "#")
  actions := [⟨"1", "sales", .select⟩, ⟨"1#", "support", .select⟩]

/-- At the front desk nobody gets to the queue, and whoever wants support gets sales. -/
theorem offered_key_bound_iff_frontDesk : ∃ (b : StepBehavior) (m : Menu),
    construct frontDesk = .ok b ∧ m.Built frontDesk ∧ m.keys = ["1", "1#", "#"] ∧
    (InputType.selection m.keys).bind (some "1") = .ok (.selection "1") ∧
    (InputType.selection m.keys).bind (some "1#") = .ok (.selection "1") ∧
    (InputType.selection m.keys).bind (some "1#") ≠ .ok (.selection "1#") ∧
    (InputType.selection m.keys).bind (some "#") ≠ .ok (.selection "#") := by
  obtain ⟨b, hb, htype⟩ : ∃ b, construct frontDesk = .ok b ∧
      b.inputType = some (.selection ["1", "1#", "#"]) := ⟨_, rfl, rfl⟩
  obtain ⟨m, hbuilt, rfl, hoffered⟩ := offered_key_bound_iff hb
  have hkeys : m.keys = ["1", "1#", "#"] := by simpa [behavior] using htype
  have hone := hoffered "1" (by simp [hkeys])
  have hother := hoffered "1#" (by simp [hkeys])
  have hexit := hoffered "#" (by simp [hkeys])
  refine ⟨_, m, hb, hbuilt, hkeys, hone.1.mpr (by decide), ?_, mt hother.1.mp (by decide),
    mt hexit.1.mp (by decide)⟩
  rw [hkeys]
  decide

/-- A menu does what the key that was pressed stands for. What a caller enters is refused, with a
message for the caller and the session as it was, or it is bound to a key of the menu, and the menu
takes what stands under it. The menu itself refuses nothing that was bound. -/
theorem pressed_key_taken {b : StepBehavior} (h : construct args = .ok b) :
    ∃ m : Menu, m.Built args ∧ b = m.behavior ∧ ∀ services raw session,
      ((∃ cause, (InputType.selection m.keys).bind raw = .error cause ∧
          b.execute services raw session =
            ⟨none, .error ⟨cause.message, true, none, true⟩, session⟩) ∨
        ∃ key result kept, (InputType.selection m.keys).bind raw = .ok (.selection key) ∧
          m.Takes key session result kept ∧
          b.execute services raw session = ⟨some (.selection key), .ok result, kept⟩) ∧
      ∀ input, (InputType.selection m.keys).bind raw = .ok input →
        ∃ result, b.run ⟨some input, services⟩ session = (.ok result, session) := by
  obtain ⟨m, hbuilt, rfl⟩ := construct_eq_ok_iff.mp h
  refine ⟨m, hbuilt, rfl, fun services raw session => ⟨?_, ?_⟩⟩
  · have htype : m.behavior.inputType = some (.selection m.keys) := rfl
    cases hbind : (InputType.selection m.keys).bind raw with
    | error cause =>
      left
      refine ⟨cause, rfl, ?_⟩
      simp only [StepBehavior.execute, htype, hbind]
      rfl
    | ok input =>
      right
      obtain ⟨key, hkey, rfl⟩ := bind_selection hbind
      obtain ⟨result, kept, htakes⟩ := exists_takes hbuilt.keys hkey session
      refine ⟨key, result, kept, rfl, htakes, ?_⟩
      simp only [StepBehavior.execute, htype, hbind, htakes.perform_eq services]
  · intro input hinput
    obtain ⟨key, hkey, rfl⟩ := bind_selection hinput
    obtain ⟨result, kept, htakes⟩ := exists_takes hbuilt.keys hkey session
    exact ⟨result, htakes.run_eq services⟩

theorem pressed_key_taken_frontDesk : ∃ (b : StepBehavior) (m : Menu),
    construct frontDesk = .ok b ∧ m.Built frontDesk ∧ ∃ result kept,
      m.Takes "1" .empty result kept ∧
      b.execute .empty (some "1") .empty = ⟨some (.selection "1"), .ok result, kept⟩ := by
  obtain ⟨b, hb, htype⟩ : ∃ b, construct frontDesk = .ok b ∧
      b.inputType = some (.selection ["1", "1#", "#"]) := ⟨_, rfl, rfl⟩
  obtain ⟨m, hbuilt, rfl, hpressed⟩ := pressed_key_taken hb
  have hkeys : m.keys = ["1", "1#", "#"] := by simpa [behavior] using htype
  have hbind : (InputType.selection m.keys).bind (some "1") = .ok (.selection "1") := by
    rw [hkeys]
    decide
  obtain ⟨⟨cause, hrefused, -⟩ | ⟨key, result, kept, htaken, htakes, hexecute⟩, -⟩ :=
    hpressed .empty (some "1") .empty
  · rw [hbind] at hrefused
    cases hrefused
  · rw [hbind] at htaken
    cases htaken
    exact ⟨_, m, hb, hbuilt, result, kept, htakes, hexecute⟩

end Menu
end CallFlow
