import CallFlow.Input.Type
import CallFlow.Proofs.Text.Numeral

/-! # The grammar of raw input

What can be entered for each type of input: digits, numerals and menu keys may have terminator keys
after them, free text and the answers to a yes-or-no question may not. Binding takes the white space
around the input away, and accepts what is left exactly if it is in the grammar of the type; what is
not is told back to the caller.
-/
namespace CallFlow
open Text

def StepInput.entry? : StepInput → Option String
  | digits s | text s => some s
  | number n => some (toString n.toInt)
  | yesNo _ | selection _ => none

namespace InputType
variable {type : InputType} {cs : List Char} {input : StepInput} {raw : Option String}
variable {entered : String}

def terminated (entry : List Char) (n : Nat) : List Char := entry ++ List.replicate n '#'

def answers : List (String × Bool) :=
  [("1", true), ("y", true), ("yes", true), ("2", false), ("n", false), ("no", false)]

/-- What can be entered, once the white space around it is gone, and what it is read as. -/
inductive Reads : InputType → List Char → StepInput → Prop
  | digits {least : Nat} {most : Option Nat} {d : List Char} (n : Nat) (some : d ≠ [])
    (digits : ∀ c ∈ d, c.isDigit = true) (least_le : least ≤ d.length)
    (le_most : ∀ m, most = .some m → d.length ≤ m) :
    Reads (.digits least most) (terminated d n) (.digits (String.ofList d))
  | text {most : Option Nat} {cs : List Char} (le_most : ∀ m, most = .some m → cs.length ≤ m) :
    Reads (.text most) cs (.text (String.ofList cs))
  | number {t : List Char} {z : Int64} (n : Nat) (denotes : Denotes t z.toInt) :
    Reads .number (terminated t n) (.number z)
  | yesNo {cs : List Char} {answer : Bool}
    (listed : (String.ofList (cs.map Char.toLower), answer) ∈ answers) :
    Reads .yesNo cs (.yesNo answer)
  | selection {keys : List String} {k : List Char} (n : Nat) (listed : String.ofList k ∈ keys)
    (bare : k.getLast? ≠ some '#') :
    Reads (.selection keys) (terminated k n) (.selection (String.ofList k))

/-! ## Reading -/

theorem dropEnd_isTerminator_iff {entry : List Char} : dropEnd isTerminator cs = entry ↔
    (∃ n, cs = terminated entry n) ∧ entry.getLast? ≠ some '#' := by
  rw [dropEnd_eq_iff]
  refine and_congr ⟨?_, ?_⟩ ?_
  · rintro ⟨tail, rfl, htail⟩
    have hall : tail = List.replicate tail.length '#' :=
      List.eq_replicate_iff.mpr ⟨rfl, fun c hc => by simpa [isTerminator] using htail c hc⟩
    exact ⟨tail.length, congrArg (entry ++ ·) hall⟩
  · rintro ⟨n, rfl⟩
    exact ⟨_, rfl, fun c hc => by simp [isTerminator, (List.mem_replicate.mp hc).2]⟩
  · constructor
    · intro h hlast
      exact absurd (h _ hlast) (by decide)
    · intro h c hc
      have hne : c ≠ '#' := fun heq => h (heq ▸ hc)
      simpa [isTerminator] using hne

theorem dropEnd_terminated {entry : List Char} (h : '#' ∉ entry) (n : Nat) :
    dropEnd isTerminator (terminated entry n) = entry :=
  dropEnd_isTerminator_iff.mpr ⟨⟨n, rfl⟩, fun hlast => h (List.mem_of_getLast? hlast)⟩

theorem not_mem_of_isDigit {d : List Char} (h : ∀ c ∈ d, c.isDigit = true) : '#' ∉ d :=
  fun hc => absurd (h _ hc) (by decide)

theorem not_mem_of_denotes {t : List Char} {z : Int} (h : Denotes t z) : '#' ∉ t := by
  intro hc
  rcases h.of_mem hc with h | h | h <;> exact absurd h (by decide)

theorem withinMost_iff {most : Option Nat} {n : Nat} :
    withinMost most n = true ↔ ∀ m, most = some m → n ≤ m := by
  cases most <;> simp [withinMost]

theorem answer?_eq_some_iff {answer : Bool} : answer? cs = some answer ↔
    (String.ofList (cs.map Char.toLower), answer) ∈ answers := by
  unfold answer? answers
  generalize String.ofList (cs.map Char.toLower) = word
  simp only [Bool.or_eq_true, decide_eq_true_eq, List.mem_cons, Prod.mk.injEq, List.not_mem_nil]
  cases answer <;> grind

/-- What is read is what the grammar says. -/
theorem read?_eq_some_iff : type.read? cs = some input ↔ type.Reads cs input := by
  obtain ⟨⟨n, hentry⟩, hbare⟩ := dropEnd_isTerminator_iff.mp (rfl : dropEnd isTerminator cs = _)
  cases type with
  | digits least most =>
    simp only [read?, Option.ite_none_right_eq_some, Bool.and_eq_true, isDigits_iff,
      decide_eq_true_eq, withinMost_iff, Option.some.injEq]
    constructor
    · rintro ⟨⟨⟨⟨hsome, hdigits⟩, hleast⟩, hmost⟩, rfl⟩
      have hreads := Reads.digits n hsome hdigits hleast hmost
      rwa [← hentry] at hreads
    · intro h
      cases h with
      | digits n hsome hdigits hleast hmost =>
        rw [dropEnd_terminated (not_mem_of_isDigit hdigits)]
        exact ⟨⟨⟨⟨hsome, hdigits⟩, hleast⟩, hmost⟩, rfl⟩
  | text most =>
    simp only [read?, Option.ite_none_right_eq_some, withinMost_iff, Option.some.injEq]
    constructor
    · rintro ⟨hmost, rfl⟩
      exact .text hmost
    · intro h
      cases h with
      | text hmost => exact ⟨hmost, rfl⟩
  | number =>
    simp only [read?, Option.map_eq_some_iff, readInt64_eq_some_iff]
    constructor
    · rintro ⟨z, hdenotes, rfl⟩
      have hreads := Reads.number n hdenotes
      rwa [← hentry] at hreads
    · intro h
      cases h with
      | number n hdenotes =>
        rw [dropEnd_terminated (not_mem_of_denotes hdenotes)]
        exact ⟨_, hdenotes, rfl⟩
  | yesNo =>
    simp only [read?, Option.map_eq_some_iff, answer?_eq_some_iff]
    constructor
    · rintro ⟨answer, hlisted, rfl⟩
      exact .yesNo hlisted
    · intro h
      cases h with
      | yesNo hlisted => exact ⟨_, hlisted, rfl⟩
  | selection keys =>
    simp only [read?, Option.ite_none_right_eq_some, List.contains_iff_mem, Option.some.injEq]
    constructor
    · rintro ⟨hlisted, rfl⟩
      have hreads := Reads.selection n hlisted hbare
      rwa [← hentry] at hreads
    · intro h
      cases h with
      | selection n hlisted hkey =>
        rw [dropEnd_isTerminator_iff.mpr ⟨⟨n, rfl⟩, hkey⟩]
        exact ⟨hlisted, rfl⟩

/-! ## Binding -/

theorem bind_eq_missing_iff : type.bind raw = .error .missing ↔
    ∀ entered, raw = some entered → TrimsTo entered.toList [] := by
  have hmissing : type.bind raw = .error .missing ↔ trim (raw.getD "").toList = [] := by
    constructor
    · intro h
      unfold bind at h
      split at h
      · assumption
      · split at h <;> cases h
    · intro h
      simp only [bind, h]
  rw [hmissing]
  cases raw with
  | none => simp [trim, dropEnd]
  | some entered => simp [trim_eq_iff]

section Entered
variable (h : TrimsTo entered.toList cs) (hsome : cs ≠ [])
include h hsome

theorem bind_entered : type.bind (some entered) = match type.read? cs with
    | some input => .ok input
    | none => .error (.invalid type.describe (String.ofList cs)) := by
  unfold bind
  rw [Option.getD_some, h.trim_eq]
  split
  · exact absurd rfl hsome
  · rfl

/-- What is left of the input is accepted if it is in the grammar. -/
theorem bind_eq_ok_iff : type.bind (some entered) = .ok input ↔ type.Reads cs input := by
  rw [bind_entered h hsome, ← read?_eq_some_iff]
  cases type.read? cs <;> simp

theorem bind_eq_invalid (hnone : ∀ input, ¬ type.Reads cs input) :
    type.bind (some entered) = .error (.invalid type.describe (String.ofList cs)) := by
  have hread : type.read? cs = none :=
    Option.eq_none_iff_forall_ne_some.mpr fun input => mt read?_eq_some_iff.mp (hnone input)
  rw [bind_entered h hsome, hread]

end Entered

theorem exists_of_bind_eq_ok (h : type.bind raw = .ok input) : ∃ entered cs, raw = some entered ∧
    TrimsTo entered.toList cs ∧ cs ≠ [] ∧ type.Reads cs input := by
  have hthere : type.bind raw ≠ .error .missing := by simp [h]
  cases raw with
  | none => exact absurd (bind_eq_missing_iff.mpr fun _ hnone => by cases hnone) hthere
  | some entered =>
    have hcs := trimsTo_trim entered.toList
    have hsome : trim entered.toList ≠ [] := by
      intro hnil
      refine hthere (bind_eq_missing_iff.mpr fun _ hentered => ?_)
      cases hentered
      exact hnil ▸ hcs
    exact ⟨entered, _, rfl, hcs, hsome, (bind_eq_ok_iff hcs hsome).mp h⟩

/-- The text of what was accepted is itself an entry for the same value. -/
theorem Reads.entry {s : String} (h : type.Reads cs input) (hcs : Trimmed cs) (hsome : cs ≠ [])
    (hentry : input.entry? = some s) :
    Trimmed s.toList ∧ s.toList ≠ [] ∧ type.Reads s.toList input := by
  cases h with
  | digits n some digits least_le le_most =>
    cases hentry
    rw [String.toList_ofList]
    refine ⟨trimmed_of_all fun c hc => isBlank_of_isDigit (digits c hc), some, ?_⟩
    simpa [terminated] using Reads.digits 0 some digits least_le le_most
  | text le_most =>
    cases hentry
    rw [String.toList_ofList]
    exact ⟨hcs, hsome, .text le_most⟩
  | @number t z n denotes =>
    cases hentry
    have hdecimal := denotes_toString z.toInt
    refine ⟨hdecimal.trimmed, hdecimal.ne_nil, ?_⟩
    simpa [terminated] using Reads.number 0 hdecimal
  | yesNo | selection => cases hentry

/-- Nothing and white space are missing input. Otherwise what is left without the white space around
it is read by the grammar, or told to be invalid. The text of an accepted entry reads the same. -/
theorem bind_by_grammar (type : InputType) :
    (∀ raw, type.bind raw = .error .missing ↔
      ∀ entered, raw = some entered → TrimsTo entered.toList []) ∧
    (∀ entered : String, ∃! cs, TrimsTo entered.toList cs) ∧
    (∀ (entered : String) cs, TrimsTo entered.toList cs → cs ≠ [] →
      (∀ input, type.bind (some entered) = .ok input ↔ type.Reads cs input) ∧
      ((∀ input, ¬ type.Reads cs input) →
        type.bind (some entered) = .error (.invalid type.describe (String.ofList cs)))) ∧
    (∀ raw input s, type.bind raw = .ok input → input.entry? = some s →
      type.bind (some s) = .ok input) ∧
    ∀ z : Int64, number.bind (some (toString z.toInt)) = .ok (.number z) := by
  refine ⟨fun raw => bind_eq_missing_iff, fun entered => existsUnique_trimsTo _, ?_, ?_, ?_⟩
  · intro entered cs hcs hsome
    exact ⟨fun input => bind_eq_ok_iff hcs hsome, bind_eq_invalid hcs hsome⟩
  · intro raw input s hbind hentry
    obtain ⟨entered, cs, rfl, hcs, hsome, hreads⟩ := exists_of_bind_eq_ok hbind
    obtain ⟨htrimmed, hsome, hreads⟩ := hreads.entry hcs.trimmed hsome hentry
    exact (bind_eq_ok_iff htrimmed.trimsTo hsome).mpr hreads
  · intro z
    have hdecimal := denotes_toString z.toInt
    have hreads : number.Reads (toString z.toInt).toList (.number z) := by
      simpa [terminated] using Reads.number 0 hdecimal
    exact (bind_eq_ok_iff hdecimal.trimmed.trimsTo hdecimal.ne_nil).mpr hreads

/-- Of an account number the white space and the terminator key are not part, and a word is told
back. -/
theorem bind_by_grammar_account :
    TrimsTo " 0042# ".toList "0042#".toList ∧ (exactly 4).Reads "0042#".toList (.digits "0042") ∧
    (exactly 4).bind (some " 0042# ") = .ok (.digits "0042") ∧
    (∀ input, ¬ (exactly 4).Reads "home".toList input) ∧
    (exactly 4).bind (some "home") = .error (.invalid "4 digits" "home") := by
  obtain ⟨-, -, hgrammar, -⟩ := bind_by_grammar (exactly 4)
  have htrims : TrimsTo " 0042# ".toList "0042#".toList :=
    ⟨⟨[' '], [' '], rfl, List.all_eq_true.mp rfl, List.all_eq_true.mp rfl⟩, by decide⟩
  have hreads : (exactly 4).Reads "0042#".toList (.digits "0042") :=
    .digits 1 (d := ['0', '0', '4', '2']) (by decide) (List.all_eq_true.mp rfl) (by decide)
      (by decide)
  have hhome : TrimsTo "home".toList "home".toList := Trimmed.trimsTo (by decide)
  have hword : ∀ input, ¬ (exactly 4).Reads "home".toList input := by
    intro input h
    have hread : (exactly 4).read? "home".toList = none := by decide
    rw [read?_eq_some_iff.mpr h] at hread
    cases hread
  exact ⟨htrims, hreads, ((hgrammar _ _ htrims (by decide)).1 _).mpr hreads, hword,
    (hgrammar _ _ hhome (by decide)).2 hword⟩

end InputType
end CallFlow
