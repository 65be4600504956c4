import CallFlow.Step.Question
import CallFlow.Proofs.Flow.Arguments
import CallFlow.Proofs.Input.Grammar

/-! # Questions and their answers

A question is built if its arguments give a prompt and declare a type of input that can be met: no
length is zero, and the least is not above the most. So there is an answer to every question that is
built. An answer that is bound is accepted as it is, and the session keeps it under the key of the
question, if it has one; all else is told back to the caller.
-/
namespace CallFlow
open Text

namespace InputType
variable {type : InputType}

/-! ## Types that can be met -/

def Answerable (type : InputType) : Prop := ∃ raw input, type.bind (some raw) = .ok input

theorem Reads.answerable {cs : List Char} {input : StepInput} (h : type.Reads cs input)
    (hcs : Trimmed cs) (hsome : cs ≠ []) : type.Answerable := by
  refine ⟨String.ofList cs, input, (bind_eq_ok_iff ?_ hsome).mpr h⟩
  rw [String.toList_ofList]
  exact hcs.trimsTo

theorem answerable_digits {least : Nat} {most : Option Nat} (hleast : 1 ≤ least)
    (hmost : ∀ n, most = some n → least ≤ n) : (digits least most).Answerable := by
  have hdigit : ∀ c ∈ List.replicate least '0', c.isDigit = true := by
    intro c hc
    rw [(List.mem_replicate.mp hc).2]
    rfl
  have hsome : List.replicate least '0' ≠ [] := by
    simp only [ne_eq, List.replicate_eq_nil_iff]
    omega
  have hreads := Reads.digits 0 hsome hdigit (List.length_replicate.ge) (by simpa using hmost)
  simp only [terminated, List.replicate_zero, List.append_nil] at hreads
  exact hreads.answerable (trimmed_of_all fun c hc => isBlank_of_isDigit (hdigit c hc)) hsome

theorem answerable_text {most : Option Nat} (hmost : ∀ n, most = some n → 1 ≤ n) :
    (text most).Answerable :=
  (Reads.text hmost : (text most).Reads ['0'] _).answerable (by decide) (by decide)

theorem answerable_number : number.Answerable := ⟨"0", .number 0, by decide⟩

theorem answerable_yesNo : yesNo.Answerable := ⟨"1", .yesNo true, by decide⟩

end InputType

namespace Question
variable {args : StepArguments} {arguments : Fields} {q : Question} {type : InputType}
variable {least : Nat} {most : Option Nat}

/-! ## Building -/

/-- The type of input that the arguments declare. An exact length stands alone. -/
inductive Declares (arguments : Fields) : InputType → Prop
  | exactly {n : Nat} (type : arguments.GivesText "input_type" (some "digits"))
    (length : arguments.GivesCount "length" (some n))
    (least : arguments.GivesCount "min_length" none)
    (most : arguments.GivesCount "max_length" none) : Declares arguments (.exactly n)
  | digits {n m : Option Nat} (type : arguments.GivesText "input_type" (some "digits"))
    (length : arguments.GivesCount "length" none) (least : arguments.GivesCount "min_length" n)
    (most : arguments.GivesCount "max_length" m) : Declares arguments (.digits (n.getD 1) m)
  | text {m : Option Nat} (type : arguments.GivesText "input_type" (some "text"))
    (most : arguments.GivesCount "max_length" m) : Declares arguments (.text m)
  | number (type : arguments.GivesText "input_type" (some "number")) : Declares arguments .number
  | yesNo (type : arguments.GivesText "input_type" (some "yes_no")) : Declares arguments .yesNo

theorem digitsType_eq_ok_iff (htype : arguments.GivesText "input_type" (some "digits")) :
    digitsType arguments = .ok type ↔ Declares arguments type := by
  simp only [digitsType, bind_eq_ok, Fields.optionalCount_eq_ok_iff]
  constructor
  · rintro ⟨length, hlength, least, hleast, most, hmost, h⟩
    split at h
    · cases h
      exact .exactly htype hlength hleast hmost
    · cases h
      exact .digits htype hlength hleast hmost
    · cases h
  · intro h
    cases h with
    | exactly _ hlength hleast hmost => exact ⟨_, hlength, _, hleast, _, hmost, rfl⟩
    | digits _ hlength hleast hmost => exact ⟨_, hlength, _, hleast, _, hmost, rfl⟩
    | text hother | number hother | yesNo hother =>
      exact absurd (htype.unique hother) (by decide)

theorem declaredType_eq_ok_iff :
    declaredType arguments = .ok type ↔ Declares arguments type := by
  simp only [declaredType, bind_eq_ok, Fields.requiredText_eq_ok_iff]
  constructor
  · rintro ⟨kind, hkind, h⟩
    split at h
    · exact (digitsType_eq_ok_iff hkind).mp h
    · obtain ⟨most, hmost, h⟩ := bind_eq_ok.mp h
      cases h
      exact .text hkind (Fields.optionalCount_eq_ok_iff.mp hmost)
    · cases h
      exact .number hkind
    · cases h
      exact .yesNo hkind
    · cases h
  · intro h
    have hdeclares := h
    cases h with
    | exactly hkind | digits hkind => exact ⟨_, hkind, (digitsType_eq_ok_iff hkind).mpr hdeclares⟩
    | text hkind hmost =>
      exact ⟨_, hkind, bind_eq_ok.mpr ⟨_, Fields.optionalCount_eq_ok_iff.mpr hmost, rfl⟩⟩
    | number hkind | yesNo hkind => exact ⟨_, hkind, rfl⟩

theorem lengthFault?_digits_eq_none_iff : lengthFault? (.digits least most) = none ↔
    1 ≤ least ∧ ∀ n, most = some n → least ≤ n := by
  cases most with
  | none => simp [lengthFault?]; omega
  | some n => simp [lengthFault?]; grind

theorem lengthFault?_range_eq_none_iff {n m : Option Nat} {low high : Option Int}
    (hn : low = n.map fun n : Nat => (n : Int)) (hm : high = m.map fun n : Nat => (n : Int)) :
    lengthFault? (.digits (n.getD 1) m) = none ↔
      (∀ z, low = some z ∨ high = some z → 1 ≤ z) ∧ ∀ z, high = some z → low.getD 1 ≤ z := by
  subst hn hm
  rw [lengthFault?_digits_eq_none_iff]
  cases n <;> cases m <;> simp [or_imp, forall_and]
  omega

theorem lengthFault?_text_eq_none_iff :
    lengthFault? (.text most) = none ↔ ∀ n, most = some n → 1 ≤ n := by
  cases most with
  | none => simp [lengthFault?]
  | some n => simp [lengthFault?]; omega

theorem Declares.answerable (h : Declares arguments type) (hfault : lengthFault? type = none) :
    type.Answerable := by
  cases h with
  | exactly | digits =>
    obtain ⟨hleast, hmost⟩ := lengthFault?_digits_eq_none_iff.mp hfault
    exact InputType.answerable_digits hleast hmost
  | text => exact InputType.answerable_text (lengthFault?_text_eq_none_iff.mp hfault)
  | number => exact InputType.answerable_number
  | yesNo => exact InputType.answerable_yesNo

structure Built (args : StepArguments) (q : Question) : Prop where
  declared : Declares args.arguments q.inputType
  faultless : lengthFault? q.inputType = none
  prompt : args.arguments.GivesText "prompt" (some q.prompt)
  errorMessage : args.arguments.GivesText "error_message" q.errorMessage
  sessionKey : args.arguments.GivesText "session_key" q.sessionKey

/-- A question is built exactly if it is what the arguments describe. -/
theorem build_eq_ok_iff : build args = .ok q ↔ q.Built args := by
  simp only [build, bind_eq_ok, declaredType_eq_ok_iff]
  constructor
  · rintro ⟨type, htype, h⟩
    split at h
    · cases h
    · rename_i hfault
      simp only [bind_eq_ok, Fields.optionalText_eq_ok_iff, Fields.requiredText_eq_ok_iff] at h
      obtain ⟨prompt, hprompt, message, hmessage, key, hkey, h⟩ := h
      cases h
      exact ⟨htype, hfault, hprompt, hmessage, hkey⟩
  · intro h
    refine ⟨q.inputType, h.declared, ?_⟩
    simp only [h.faultless, bind_eq_ok, Fields.optionalText_eq_ok_iff,
      Fields.requiredText_eq_ok_iff]
    exact ⟨_, h.prompt, _, h.errorMessage, _, h.sessionKey, rfl⟩

theorem construct_eq_ok_iff {b : StepBehavior} :
    construct args = .ok b ↔ ∃ q : Question, q.Built args ∧ q.behavior = b := by
  simp only [construct, map_eq_ok, build_eq_ok_iff]

theorem Built.answerable (h : q.Built args) : q.inputType.Answerable :=
  h.declared.answerable h.faultless

/-! ## Filling in the arguments -/

structure Form where
  prompt : Option String
  inputType : Option String
  errorMessage : Option String
  sessionKey : Option String
  length : Option Int
  least : Option Int
  most : Option Int

namespace Form
variable {f : Form}

def lengths (f : Form) : List Int := [f.length, f.least, f.most].filterMap id

/-- Every argument that a question reads is of its kind, or null. -/
structure Fills (f : Form) (arguments : Fields) : Prop where
  prompt : arguments.GivesText "prompt" f.prompt
  inputType : arguments.GivesText "input_type" f.inputType
  errorMessage : arguments.GivesText "error_message" f.errorMessage
  sessionKey : arguments.GivesText "session_key" f.sessionKey
  length : arguments.GivesInteger "length" f.length
  least : arguments.GivesInteger "min_length" f.least
  most : arguments.GivesInteger "max_length" f.most

/-- Besides a type that can be met, only the prompt is needed. -/
theorem Fills.constructs_iff (h : f.Fills args.arguments) : (∃ b, construct args = .ok b) ↔
    f.prompt.isSome ∧ ∃ type, Declares args.arguments type ∧ lengthFault? type = none := by
  simp only [construct_eq_ok_iff]
  constructor
  · rintro ⟨_, q, hq, rfl⟩
    rw [h.prompt.unique hq.prompt]
    exact ⟨rfl, _, hq.declared, hq.faultless⟩
  · rintro ⟨hprompt, type, hdeclares, hfault⟩
    obtain ⟨prompt, hprompt⟩ := Option.isSome_iff_exists.mp hprompt
    exact ⟨_, ⟨prompt, f.errorMessage, type, f.sessionKey⟩,
      ⟨hdeclares, hfault, hprompt ▸ h.prompt, h.errorMessage, h.sessionKey⟩, rfl⟩

theorem mem_lengths {z : Int} :
    z ∈ f.lengths ↔ f.length = some z ∨ f.least = some z ∨ f.most = some z := by
  simp [lengths, eq_comm]

/-- Digits can be asked for if an exact length stands alone, no length is below one, and the least
is not above the most. -/
theorem Fills.constructs_digits_iff (h : f.Fills args.arguments)
    (htype : f.inputType = some "digits") : (∃ b, construct args = .ok b) ↔
      f.prompt.isSome ∧ (f.length = none ∨ f.least = none ∧ f.most = none) ∧
      (∀ z ∈ f.lengths, 1 ≤ z) ∧ ∀ m, f.most = some m → f.least.getD 1 ≤ m := by
  have hdigits : args.arguments.GivesText "input_type" (some "digits") := htype ▸ h.inputType
  rw [h.constructs_iff]
  refine and_congr_right fun _ => ⟨?_, ?_⟩
  · rintro ⟨type, hdeclares, hfault⟩
    cases hdeclares with
    | @exactly n _ hlength hleast hmost =>
      have hn := (lengthFault?_digits_eq_none_iff.mp hfault).1
      simp only [mem_lengths, h.length.unique hlength, h.least.unique hleast,
        h.most.unique hmost]
      exact ⟨.inr ⟨rfl, rfl⟩, by simpa using hn, by simp⟩
    | @digits n m _ hlength hleast hmost =>
      have hrange := (lengthFault?_range_eq_none_iff (h.least.unique hleast)
        (h.most.unique hmost)).mp hfault
      have hlength : f.length = none := h.length.unique hlength
      simp only [mem_lengths, hlength, reduceCtorEq, false_or]
      exact ⟨.inl trivial, hrange⟩
    | text hother | number hother | yesNo hother =>
      exact absurd (hdigits.unique hother) (by decide)
  · rintro ⟨halone, hpositive, horder⟩
    simp only [mem_lengths] at hpositive
    obtain ⟨length, hlength, hgives⟩ := h.length.exists_count fun z hz =>
      Int.le_of_lt (hpositive z (.inl hz))
    obtain ⟨least, hleast, hgivesLeast⟩ := h.least.exists_count fun z hz =>
      Int.le_of_lt (hpositive z (.inr (.inl hz)))
    obtain ⟨most, hmost, hgivesMost⟩ := h.most.exists_count fun z hz =>
      Int.le_of_lt (hpositive z (.inr (.inr hz)))
    cases length with
    | none =>
      exact ⟨_, .digits hdigits hgives hgivesLeast hgivesMost,
        (lengthFault?_range_eq_none_iff hleast hmost).mpr
          ⟨fun z hz => hpositive z (.inr hz), horder⟩⟩
    | some n =>
      obtain ⟨hnoLeast, hnoMost⟩ := halone.resolve_left (by simp [hlength])
      have hn : 1 ≤ (n : Int) := hpositive n (.inl hlength)
      obtain rfl : least = none := by simpa [hleast] using hnoLeast
      obtain rfl : most = none := by simpa [hmost] using hnoMost
      refine ⟨_, .exactly hdigits hgives hgivesLeast hgivesMost, ?_⟩
      exact lengthFault?_digits_eq_none_iff.mpr ⟨by omega, by simp⟩

theorem Fills.constructs_text_iff (h : f.Fills args.arguments)
    (htype : f.inputType = some "text") : (∃ b, construct args = .ok b) ↔
      f.prompt.isSome ∧ ∀ m, f.most = some m → 1 ≤ m := by
  have htext : args.arguments.GivesText "input_type" (some "text") := htype ▸ h.inputType
  rw [h.constructs_iff]
  refine and_congr_right fun _ => ⟨?_, ?_⟩
  · rintro ⟨type, hdeclares, hfault⟩
    cases hdeclares with
    | @text m _ hmost =>
      have hm := lengthFault?_text_eq_none_iff.mp hfault
      rw [h.most.unique hmost]
      rintro _ hz
      obtain ⟨n, hn, rfl⟩ := Option.map_eq_some_iff.mp hz
      exact Int.ofNat_le.mpr (hm n hn)
    | exactly hother | digits hother | number hother | yesNo hother =>
      exact absurd (htext.unique hother) (by decide)
  · intro hpositive
    obtain ⟨most, hmost, hgives⟩ := h.most.exists_count fun z hz =>
      Int.le_of_lt (hpositive z hz)
    refine ⟨_, .text htext hgives, lengthFault?_text_eq_none_iff.mpr fun n hn => ?_⟩
    subst hn
    have hn := hpositive n hmost
    omega

end Form

/-! ## Answering -/

def kept (q : Question) (input : StepInput) (session : Session) : Session :=
  q.sessionKey.elim session fun key => session.insert key input.value

/-- How asking the question ends. What cannot be bound is told back, and the session is as it was.
What is bound is accepted, and keeping its value is all that happens to the session. -/
inductive Ends (q : Question) (raw : Option String) (session : Session) :
    StepBehavior.Execution → Prop
  | refused {cause : BindError} (unbound : q.inputType.bind raw = .error cause) :
    Ends q raw session ⟨none, .error ⟨cause.message, true, none, true⟩, session⟩
  | accepted {input : StepInput} (bound : q.inputType.bind raw = .ok input) :
    Ends q raw session ⟨some input, .ok (.inputSuccess input none), q.kept input session⟩

theorem perform_eq (services : Services) (input : StepInput) (session : Session) :
    q.behavior.perform ⟨some input, services⟩ session =
      ⟨some input, .ok (.inputSuccess input none), q.kept input session⟩ := by
  have hrun : q.behavior.run ⟨some input, services⟩ session =
    (.ok (.inputSuccess input none), session) := rfl
  simp only [StepBehavior.perform, hrun]
  simp only [behavior, saveResult, kept]
  cases q.sessionKey <;> rfl

theorem ends_execute (services : Services) (raw : Option String) (session : Session) :
    q.Ends raw session (q.behavior.execute services raw session) := by
  have htype : q.behavior.inputType = some q.inputType := rfl
  cases hbind : q.inputType.bind raw with
  | error cause =>
    simp only [StepBehavior.execute, htype, hbind]
    exact .refused hbind
  | ok input =>
    simp only [StepBehavior.execute, htype, hbind, perform_eq]
    exact .accepted hbind

section Ends
variable {raw : Option String} {session : Session} {e : StepBehavior.Execution}

theorem Ends.eq_refused {cause : BindError} (h : q.Ends raw session e)
    (unbound : q.inputType.bind raw = .error cause) :
    e = ⟨none, .error ⟨cause.message, true, none, true⟩, session⟩ := by
  cases h with
  | refused hcause =>
    cases hcause.symm.trans unbound
    rfl
  | accepted bound => cases bound.symm.trans unbound

theorem Ends.eq_accepted {input : StepInput} (h : q.Ends raw session e)
    (bound : q.inputType.bind raw = .ok input) :
    e = ⟨some input, .ok (.inputSuccess input none), q.kept input session⟩ := by
  cases h with
  | refused unbound => cases unbound.symm.trans bound
  | accepted hinput =>
    cases hinput.symm.trans bound
    rfl

end Ends

/-- A question that is built can be answered. What is entered is told back, or it is accepted and
kept under the key of the question. Digits and text can be asked for exactly if the lengths allow
it. -/
theorem built_question_answerable (args : StepArguments) :
    (∀ b, construct args = .ok b → ∃ q : Question, q.Built args ∧ b = q.behavior ∧
      (∃ raw input, q.inputType.bind (some raw) = .ok input) ∧
      ∀ services raw session, q.Ends raw session (b.execute services raw session)) ∧
    ∀ f : Form, f.Fills args.arguments →
      (f.inputType = some "digits" → ((∃ b, construct args = .ok b) ↔
        f.prompt.isSome ∧ (f.length = none ∨ f.least = none ∧ f.most = none) ∧
        (∀ z ∈ f.lengths, 1 ≤ z) ∧ ∀ m, f.most = some m → f.least.getD 1 ≤ m)) ∧
      (f.inputType = some "text" → ((∃ b, construct args = .ok b) ↔
        f.prompt.isSome ∧ ∀ m, f.most = some m → 1 ≤ m)) := by
  refine ⟨fun b h => ?_, fun f hf => ⟨hf.constructs_digits_iff, hf.constructs_text_iff⟩⟩
  obtain ⟨q, hbuilt, rfl⟩ := construct_eq_ok_iff.mp h
  exact ⟨q, hbuilt, rfl, hbuilt.answerable, ends_execute⟩

def pin (least most : Int) : StepArguments where
  name := "pin"
  branch := "lobby"
  arguments := (((((Table.empty.insert "prompt" (.str "Your PIN?")).insert "input_type"
    (.str "digits")).insert "length" .null).insert "min_length" (.int least)).insert "max_length"
    (.int most)).insert "session_key" (.str "pin")
  actions := []

def note (most : Int) : StepArguments where
  name := "note"
  branch := "lobby"
  arguments := ((Table.empty.insert "prompt" (.str "Your message?")).insert "input_type"
    (.str "text")).insert "max_length" (.int most)
  actions := []

/-- A PIN has two to four digits and is kept, one digit is told back, and nobody is asked for a PIN
of at least six and at most four digits, or for a message of no characters. -/
theorem built_question_answerable_pin : ∃ (b : StepBehavior) (q : Question),
    construct (pin 2 4) = .ok b ∧ q.Built (pin 2 4) ∧
    b.execute .empty (some "12#") .empty = ⟨some (.digits "12"),
      .ok (.inputSuccess (.digits "12") none), Table.empty.insert "pin" (.str "12")⟩ ∧
    (∃ message, b.execute .empty (some "1") .empty =
      ⟨none, .error ⟨message, true, none, true⟩, .empty⟩) ∧
    (¬ ∃ b, construct (pin 6 4) = .ok b) ∧ ¬ ∃ b, construct (note 0) = .ok b := by
  obtain ⟨b, hb, hinput⟩ : ∃ b, construct (pin 2 4) = .ok b ∧
      b.inputType = some (.digits 2 (some 4)) := ⟨_, rfl, rfl⟩
  obtain ⟨q, hbuilt, rfl, -, hends⟩ := (built_question_answerable (pin 2 4)).1 b hb
  have htype : q.inputType = .digits 2 (some 4) := Option.some.inj hinput
  have hkey : q.sessionKey = some "pin" := hbuilt.sessionKey.unique rfl
  have hbound : q.inputType.bind (some "12#") = .ok (.digits "12") := by
    rw [htype]
    decide
  have hunbound : q.inputType.bind (some "1") = .error (.invalid "2 to 4 digits" "1") := by
    rw [htype]
    decide
  have haccepted := (hends .empty _ .empty).eq_accepted hbound
  rw [kept, hkey] at haccepted
  have hpin : Form.Fills ⟨some "Your PIN?", some "digits", none, some "pin", none, some 6, some 4⟩
      (pin 6 4).arguments := ⟨rfl, rfl, .inl rfl, rfl, .inr rfl, rfl, rfl⟩
  have hnote : Form.Fills ⟨some "Your message?", some "text", none, none, none, none, some 0⟩
      (note 0).arguments := ⟨rfl, rfl, .inl rfl, .inl rfl, .inl rfl, .inl rfl, rfl⟩
  refine ⟨_, q, hb, hbuilt, haccepted, ⟨_, (hends .empty _ .empty).eq_refused hunbound⟩, ?_, ?_⟩
  · rw [((built_question_answerable (pin 6 4)).2 _ hpin).1 rfl]
    simp
  · rw [((built_question_answerable (note 0)).2 _ hnote).2 rfl]
    simp

end Question
end CallFlow
