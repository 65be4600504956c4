import CallFlow.Step.Behavior

/-! # What executions leave

An execution binds the input that the step asks for, runs the step and has a successful result
saved. It ends at the first of these that fails, and the session is what was left there.
-/
namespace CallFlow.StepBehavior
variable {b : StepBehavior} {services : Services} {raw : Option String}
variable {input input' : Option StepInput} {given : StepContext} {session : Session}
variable {error : StepError} {outcome : Except StepError StepResult}

/-- What the step is given as input in a call. -/
inductive Given (b : StepBehavior) (raw : Option String) : Option StepInput → Prop
  | nothing (unasked : b.inputType = none) : Given b raw none
  | bound {type input} (asked : b.inputType = some type) (bound : type.bind raw = .ok input) :
      Given b raw (some input)

theorem Given.unique (h : b.Given raw input) (h' : b.Given raw input') : input' = input := by
  cases h with
  | nothing unasked =>
    cases h' with
    | nothing => rfl
    | bound asked => cases unasked.symm.trans asked
  | bound asked bound =>
    cases h' with
    | nothing unasked => cases unasked.symm.trans asked
    | bound asked' bound' =>
      cases asked.symm.trans asked'
      cases bound.symm.trans bound'
      rfl

theorem Given.execute (h : b.Given raw input) (services : Services) (session : Session) :
    b.execute services raw session = b.perform ⟨input, services⟩ session := by
  cases h with
  | nothing unasked => simp only [StepBehavior.execute, unasked]
  | bound asked bound => simp only [StepBehavior.execute, asked, bound]

/-- The failure that a step came to. It is told as one, or reported as a result. -/
def failure? : Except StepError StepResult → Option StepError
  | .error e => some e
  | .ok (.error message retryable resetStep) => some ⟨message, retryable, resetStep, false⟩
  | .ok _ => none

theorem exists_of_failure?_eq_none (h : failure? outcome = none) :
    ∃ result, outcome = .ok result := by
  cases outcome with
  | error e => cases h
  | ok result => exact ⟨result, rfl⟩

/-- However a failure is told, the execution ends with it. -/
theorem perform_of_failure (h : failure? (b.run given session).1 = some error) :
    b.perform given session = ⟨given.input, .error error, (b.run given session).2⟩ := by
  unfold perform
  rcases hrun : b.run given session with ⟨e | result, session'⟩
  · rw [hrun] at h
    cases h
    rfl
  · rw [hrun] at h
    cases result with
    | error => cases h; rfl
    | success | inputSuccess | replay | exitQueue => cases h

theorem perform_of_success {result : StepResult} {left : Session}
    (hrun : b.run given session = (.ok result, left)) (h : failure? (.ok result) = none) :
    b.perform given session = ⟨given.input, .ok (b.saveResult given result left).1,
      (b.saveResult given result left).2⟩ := by
  unfold perform
  rw [hrun]
  cases result with
  | error => cases h
  | success | inputSuccess | replay | exitQueue => rfl

/-- What an execution comes to, and where the session is from. -/
inductive Yields (b : StepBehavior) (services : Services) (raw : Option String)
    (session : Session) : Execution → Prop
  /-- Nothing was run. -/
  | unbound {type cause} (asked : b.inputType = some type)
      (unbound : type.bind raw = .error cause) :
      Yields b services raw session ⟨none, .error (.ofBindError cause), session⟩
  | failed {input outcome left error} (given : b.Given raw input)
      (run : b.run ⟨input, services⟩ session = (outcome, left))
      (fails : failure? outcome = some error) :
      Yields b services raw session ⟨input, .error error, left⟩
  | saved {input result left saved kept} (given : b.Given raw input)
      (run : b.run ⟨input, services⟩ session = (.ok result, left))
      (succeeds : failure? (.ok result) = none)
      (saves : b.saveResult ⟨input, services⟩ result left = (saved, kept)) :
      Yields b services raw session ⟨input, .ok saved, kept⟩

theorem Given.yields (h : b.Given raw input) :
    b.Yields services raw session (b.perform ⟨input, services⟩ session) := by
  rcases hrun : b.run ⟨input, services⟩ session with ⟨outcome, left⟩
  cases hfailure : failure? outcome with
  | some error =>
    rw [perform_of_failure (by rw [hrun]; exact hfailure), hrun]
    exact .failed h hrun hfailure
  | none =>
    obtain ⟨result, rfl⟩ := exists_of_failure?_eq_none hfailure
    rw [perform_of_success hrun hfailure]
    exact .saved h hrun hfailure rfl

theorem execute_yields (b : StepBehavior) (services : Services) (raw : Option String)
    (session : Session) : b.Yields services raw session (b.execute services raw session) := by
  cases htype : b.inputType with
  | none =>
    have hgiven : b.Given raw none := .nothing htype
    rw [hgiven.execute]
    exact hgiven.yields
  | some type =>
    cases hbind : type.bind raw with
    | ok input =>
      have hgiven : b.Given raw (some input) := .bound htype hbind
      rw [hgiven.execute]
      exact hgiven.yields
    | error cause =>
      simp only [execute, htype, hbind]
      exact .unbound htype hbind

end CallFlow.StepBehavior
