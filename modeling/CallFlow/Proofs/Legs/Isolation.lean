import CallFlow.Proofs.Legs.Switchboard
import CallFlow.Proofs.World.Deployed

/-! # Legs are isolated

Whatever happens on other legs, a leg is told what it would be told if it were alone on the store,
and the same is recorded for it. Only the ids that it is given are other ones, in the same order.
-/
namespace CallFlow
open Memory Work

/-! ## Answers below a bound -/

section Agree
variable {ρ ρ' : Int → Int} {leg : Int} {m : Memory} (hm : m.Sound)
variable (hρ : ∀ id < m.nextId, ρ' id = ρ id)
include hm hρ

theorem NextStep.On.rename_congr {next : NextStep} (h : next.On leg m) :
    next.rename ρ' = next.rename ρ := by
  cases next with
  | exit path => rfl
  | step b =>
    have hb : b.stepRun.On leg m := h
    simp only [rename, BoundStep.rename, StepRun.rename_congr hρ (hb.below hm)]

theorem Answer.rename_congr {answer : Answer} (h : ∀ o, answer = .ok (some o) → o.next.On leg m) :
    answer.rename ρ' = answer.rename ρ := by
  match answer with
  | .error failure => rfl
  | .ok none => rfl
  | .ok (some o) =>
    have ho := (h o rfl).rename_congr hm hρ
    show Except.ok (some (o.rename ρ')) = Except.ok (some (o.rename ρ))
    simp only [Outcome.rename, ho]

end Agree

/-! ## The audit trail -/

theorem Engine.history_items {m : Memory} (hm : m.Sound) (e : Engine) :
    e.history.run m = (.ok ((m.historyOf e.run.record.id).map fun entry =>
      .ofEntry entry (m.attemptsOf entry.stepRun.id).length), m) := by
  let item (entry : HistoryEntry) : StoreM Memory HistoryItem := do
    return .ofEntry entry (← Backend.attempts (σ := Memory) entry.stepRun.id).length
  have hitem (entry : HistoryEntry) : (item entry).run m =
      (.ok (.ofEntry entry (m.attemptsOf entry.stepRun.id).length), m) := rfl
  have hitems (entries : List HistoryEntry) : (entries.mapM item).run m =
      (.ok (entries.map fun entry => .ofEntry entry (m.attemptsOf entry.stepRun.id).length), m) := by
    induction entries with
    | nil => rfl
    | cons entry rest ih =>
      rw [List.mapM_cons, Effect.bind_of_ok (hitem entry), Effect.bind_of_ok ih]
      rfl
  have hentries : (Backend.history (σ := Memory) e.run.record.id).run m =
      (.ok (m.historyOf e.run.record.id), m) := by
    rw [Memory.history_run, hm.history_eq]
  have hrun := (Effect.bind_of_ok (f := fun entries => entries.mapM item) hentries).trans
    (hitems _)
  show (Effect.mapError EngineError.ofStorage _).run m = _
  rw [Effect.run_mapError]
  exact congrArg (fun y => (y.1.mapError EngineError.ofStorage, y.2)) hrun

theorem Memory.Mirrors.history {ρ : Int → Int} {leg : Int} {m m' : Memory}
    (h : m.Mirrors ρ leg m') (hm : m.Sound) (hm' : m'.Sound) {e : Engine}
    (he : e.run.record.id = leg) : (e.history.run m').1 = (e.history.run m).1 := by
  simp only [e.history_items hm, e.history_items hm', he, h.historyOf hm hm', List.map_map]
  refine congrArg Except.ok (List.map_congr_left fun entry hentry => ?_)
  obtain ⟨p, hp, hjoin⟩ := List.mem_filterMap.mp hentry
  obtain ⟨s, hs, rfl⟩ := Option.map_eq_some_iff.mp hjoin
  obtain ⟨s', hs', hrun, hid⟩ := hm.joined hp
  obtain rfl : s' = s := Option.some.inj (hs'.symm.trans hs)
  have hattempts : m'.attemptsOf (s'.rename ρ).id =
      (m.attemptsOf s'.id).map (AttemptRecord.rename ρ) := h.attempts (hid ▸ hs) hrun
  simp only [Function.comp_apply, HistoryEntry.rename, hattempts, List.length_map]
  rfl

/-! ## A leg alone and among others -/

def shift (ρ : Int → Int) (n d : Int) (id : Int) : Int := if id < n then ρ id else ρ id + d

theorem shift_of_lt (ρ : Int → Int) {n id : Int} (d : Int) (h : id < n) : shift ρ n d id = ρ id :=
  if_pos h

theorem strictMono_shift {ρ : Int → Int} (hρ : StrictMono ρ) (n : Int) {d : Int} (hd : 0 ≤ d) :
    StrictMono (shift ρ n d) := by
  intro i j hij
  have hlt := hρ hij
  unfold shift
  split <;> split <;> omega

namespace Switchboard
variable {ρ : Int → Int} {leg : Int} {s s' : Switchboard}

/-- The second switchboard shows on the leg what the first one shows, under renamed ids. -/
structure Shows (ρ : Int → Int) (leg : Int) (s s' : Switchboard) : Prop where
  left : s.Sound
  right : s'.Sound
  exists_run : ∃ r, s.store.runs.get? leg = some r
  context : s'.context = s.context
  store : s.store.Mirrors ρ leg s'.store
  engines : s'.engines leg = (s.engines leg).map (Option.map (Engine.rename ρ))

theorem Shows.refl (h : s.Sound) {r : RunRecord} (hr : s.store.runs.get? leg = some r) :
    s.Shows id leg s := by
  refine ⟨h, h, ⟨r, hr⟩, rfl, .refl _ _, ?_⟩
  have hid : Option.map (Engine.rename id) = id := by
    funext engine
    cases engine with
    | none => rfl
    | some e => exact congrArg some e.rename_id
  rw [hid, List.map_id]

/-- What passes on another leg goes unnoticed, but for the ids that are given out later. -/
theorem Shows.elsewhere (hρ : StrictMono ρ) (h : s.Shows ρ leg s') {event : Event} {other : Int}
    (hpasses : s'.store.Passes other (s'.step event).store) (hother : leg ≠ other)
    (hcontext : (s'.step event).context = s'.context)
    (hengines : (s'.step event).engines leg = s'.engines leg) :
    ∃ ρ', StrictMono ρ' ∧ (∀ id < s.store.nextId, ρ' id = ρ id) ∧ s.Shows ρ' leg (s'.step event) := by
  let n := s.store.nextId
  let d := (s'.step event).store.nextId - s'.store.nextId
  have hd : 0 ≤ d := Int.sub_nonneg_of_le hpasses.keeps.nextId
  have hagrees : ∀ id < n, shift ρ n d id = ρ id := fun id hid => shift_of_lt ρ d hid
  refine ⟨shift ρ n d, strictMono_shift hρ n hd, hagrees, h.left, h.right.step event, h.exists_run,
    hcontext.trans h.context, ?_, ?_⟩
  · refine h.store.sameLeg h.left.store h.right.store (hpasses.others hother) hpasses.clock hagrees
      fun i => ?_
    have hnext := h.store.next i
    have hnot : ¬ n + (i : Int) < n := by omega
    simp only [shift, n, if_neg hnot, hnext, d]
    omega
  · rw [hengines, h.engines]
    refine List.map_congr_left fun engine hmem => ?_
    cases engine with
    | none => rfl
    | some e =>
      obtain ⟨hon, -⟩ := h.left.staffs leg e hmem
      exact congrArg some (hon.rename_congr h.left.store hagrees).symm

/-- An act on the leg has the same answer on both switchboards, however later ids are renamed. -/
theorem Shows.on (hρ : StrictMono ρ) (h : s.Shows ρ leg s') (act : Act) :
    (s.step (.on leg act)).Shows ρ leg (s'.step (.on leg act)) ∧
      ∀ ρ', (∀ id < (s.step (.on leg act)).store.nextId, ρ' id = ρ id) →
        (s'.perform leg act).1 = (s.perform leg act).1.map (Answer.rename ρ') := by
  obtain ⟨r, hr⟩ := h.exists_run
  have hmatches := Act.run_matches hρ h.left.store h.right.store h.store (h.left.staffs leg)
    s.context act
  have hperform : s'.perform leg act = act.run s.context leg
      ((s.engines leg).map (Option.map (Engine.rename ρ))) s'.store := by
    rw [perform, h.context, h.engines]
  rw [← hperform] at hmatches
  refine ⟨⟨h.left.step _, h.right.step _, hmatches.left.keeps.runs hr, h.context, hmatches.store, ?_⟩,
    fun ρ' hagrees => ?_⟩
  · simp only [step, Function.update_self]
    exact hmatches.engines
  · refine hmatches.answer.trans (Option.map_congr fun answer hanswer => ?_)
    have htold : ∀ o, answer = .ok (some o) → o.next.On leg (s.step (.on leg act)).store := by
      rintro o rfl
      exact hmatches.told o hanswer
    exact (Answer.rename_congr (h.left.step _).store hagrees htold).symm

theorem Shows.tick (h : s.Shows ρ leg s') (clock : String) :
    (s.step (.tick clock)).Shows ρ leg (s'.step (.tick clock)) := by
  obtain ⟨hrun, hvisits, hattempts, hplaces, -, hnext⟩ := h.store
  exact ⟨h.left.step _, h.right.step _, h.exists_run, h.context,
    ⟨hrun, hvisits, hattempts, hplaces, rfl, hnext⟩, h.engines⟩

theorem Shows.deploy (h : s.Shows ρ leg s') (context : Context) :
    (s.step (.deploy context)).Shows ρ leg (s'.step (.deploy context)) :=
  ⟨h.left.step _, h.right.step _, h.exists_run, rfl, h.store, h.engines⟩

/-- What happens on other legs is left out on the first switchboard. -/
theorem Shows.after (hρ : StrictMono ρ) (h : s.Shows ρ leg s') (events : List Event) :
    ∃ ρ', StrictMono ρ' ∧ (∀ id < s.store.nextId, ρ' id = ρ id) ∧
      (s.after (events.filter (·.concerns leg))).Shows ρ' leg (s'.after events) ∧
      answers leg s' events = (answers leg s (events.filter (·.concerns leg))).map
        (Option.map (Answer.rename ρ')) := by
  induction events generalizing ρ s s' with
  | nil => exact ⟨ρ, hρ, fun _ _ => rfl, h, rfl⟩
  | cons event rest ih =>
    have helsewhere {other : Int} (hskipped : event.concerns leg = false)
        (hpasses : s'.store.Passes other (s'.step event).store) (hother : leg ≠ other)
        (hcontext : (s'.step event).context = s'.context)
        (hengines : (s'.step event).engines leg = s'.engines leg)
        (hanswers : answers leg s' (event :: rest) = answers leg (s'.step event) rest) :
        ∃ ρ', StrictMono ρ' ∧ (∀ id < s.store.nextId, ρ' id = ρ id) ∧
          (s.after ((event :: rest).filter (·.concerns leg))).Shows ρ' leg
            (s'.after (event :: rest)) ∧
          answers leg s' (event :: rest) =
            (answers leg s ((event :: rest).filter (·.concerns leg))).map
              (Option.map (Answer.rename ρ')) := by
      obtain ⟨ρ₁, hρ₁, hagrees₁, h₁⟩ := h.elsewhere hρ hpasses hother hcontext hengines
      obtain ⟨ρ₂, hρ₂, hagrees₂, h₂, hanswers₂⟩ := ih hρ₁ h₁
      rw [List.filter_cons_of_neg (by simp [hskipped])]
      exact ⟨ρ₂, hρ₂, fun id hid => (hagrees₂ id hid).trans (hagrees₁ id hid), h₂,
        hanswers.trans hanswers₂⟩
    cases event with
    | tick clock => exact ih hρ (h.tick clock)
    | deploy context => exact ih hρ (h.deploy context)
    | createRun tag =>
      obtain ⟨r, hr⟩ := h.exists_run
      have hlt := (h.right.store.runs (h.store.run.trans hr)).2
      exact helsewhere rfl (createRun_passes h.right.store s'.context tag) (Int.ne_of_lt hlt) rfl rfl
        rfl
    | on other act =>
      by_cases hother : other = leg
      · subst other
        obtain ⟨h₁, hanswer⟩ := h.on hρ act
        obtain ⟨ρ₂, hρ₂, hagrees₂, h₂, hanswers₂⟩ := ih hρ h₁
        have hkept : (Event.on leg act).concerns leg = true := decide_eq_true rfl
        rw [List.filter_cons_of_pos hkept]
        refine ⟨ρ₂, hρ₂, fun id hid => hagrees₂ id ?_, h₂, ?_⟩
        · have hle := (h.left.passes leg act).keeps.nextId
          omega
        · simp only [answers, if_true, List.map_cons]
          rw [hanswer ρ₂ hagrees₂, hanswers₂]
      · refine helsewhere (decide_eq_false hother) (h.right.passes other act) (Ne.symm hother) rfl
          ?_ ?_
        · exact Function.update_of_ne (Ne.symm hother) _ _
        · simp only [answers, if_neg hother]

/-- A leg is told, and has on record, the same as if nothing happened on other legs: the run with
its state, branch, session and version, and its audit trail. What was given an id by then keeps
it; what comes after is given other ids, in the same order. -/
theorem legs_isolated (h : s.Reachable) {leg : Int} {r : RunRecord}
    (hr : s.store.runs.get? leg = some r) (events : List Event) :
    let alone := events.filter (·.concerns leg)
    ∃ ρ : Int → Int, StrictMono ρ ∧ (∀ id < s.store.nextId, ρ id = id) ∧
      answers leg s events = (answers leg s alone).map (Option.map (Answer.rename ρ)) ∧
      (s.after events).engines leg =
        ((s.after alone).engines leg).map (Option.map (Engine.rename ρ)) ∧
      (s.after events).store.runs.get? leg = (s.after alone).store.runs.get? leg ∧
      ∀ e : Engine, e.run.record.id = leg →
        (e.history.run (s.after events).store).1 = (e.history.run (s.after alone).store).1 := by
  intro alone
  obtain ⟨ρ, hρ, hagrees, hshows, hanswers⟩ :=
    (Shows.refl h.sound hr).after strictMono_id events
  exact ⟨ρ, hρ, hagrees, hanswers, hshows.engines, hshows.store.run,
    fun e he => hshows.store.history hshows.left.store hshows.right.store he⟩

def reception : Switchboard :=
  (start ⟨fun _ => .ok Reception.flow, .builtins, .empty, .standard⟩).after
    [.createRun "reception", .createRun "reception"]

def greetings : List Event :=
  [.on 2 .createEngine, .on 2 (.call 0 .prepare), .on 1 .createEngine, .on 1 (.call 0 .prepare),
    .on 2 (.call 0 (.run none)), .on 1 (.call 0 (.run none))]

def place (s : Switchboard) (leg : Int) : List (Option Int) :=
  (s.engines leg).map fun engine => engine.bind fun e => e.position.map (·.id)

/-- The first caller is told what it would be told alone, though its second position has the
twelfth id and not the seventh. -/
theorem legs_isolated_reception : ∃ ρ : Int → Int, StrictMono ρ ∧ ρ 7 = 12 ∧
    answers 1 reception greetings =
      (answers 1 reception (greetings.filter (·.concerns 1))).map
        (Option.map (Answer.rename ρ)) ∧
    (answers 1 reception greetings).length = 3 := by
  have hstored : (reception.store.runs.get? 1).isSome = true := by decide +kernel
  obtain ⟨r, hr⟩ := Option.isSome_iff_exists.mp hstored
  have hreachable : reception.Reachable := ⟨_, _, rfl⟩
  obtain ⟨ρ, hρ, -, hanswers, hengines, -, -⟩ := legs_isolated hreachable hr greetings
  have halone : (reception.after (greetings.filter (·.concerns 1))).place 1 = [some 7] := by
    decide +kernel
  have hamong : (reception.after greetings).place 1 = [some 12] := by decide +kernel
  have hplaces : (reception.after greetings).place 1 =
      ((reception.after (greetings.filter (·.concerns 1))).place 1).map (Option.map ρ) := by
    unfold place
    rw [hengines, List.map_map, List.map_map]
    refine List.map_congr_left fun engine _ => ?_
    rcases engine with - | ⟨_, _, _, - | p⟩ <;> rfl
  rw [halone, hamong] at hplaces
  have hid : ρ 7 = 12 := by simpa using hplaces.symm
  exact ⟨ρ, hρ, hid, hanswers, rfl⟩

end Switchboard
end CallFlow
