import CallFlow.Proofs.Engine.Opening
import CallFlow.Proofs.Legs.Follow
import CallFlow.Proofs.World.Basic

/-! # A call on two stores

A call of an engine is settled: then either all that was staged is in the store or nothing is. A
call made in a store and in another one that mirrors its leg is told the same up to the ids, and
the mirror outlasts it. No other leg is touched by it.
-/
namespace CallFlow
open Memory Work

structure Memory.Passes (leg : Int) (m m' : Memory) : Prop where
  sound : m'.Sound
  keeps : m.Keeps m'
  others : ∀ {other}, other ≠ leg → SameLeg m m' other
  clock : m'.clock = m.clock

theorem Memory.Passes.refl {leg : Int} {m : Memory} (hm : m.Sound) : m.Passes leg m :=
  ⟨hm, .refl m, fun _ => .refl m _, rfl⟩

theorem Memory.Grows.keeps {m m' : Memory} (h : m.Grows m') : m.Keeps m' := by
  obtain ⟨⟨hruns, hstepRuns, hattempts, hpositions⟩, -, hnext⟩ := h
  exact ⟨hnext, fun hr => ⟨_, hruns ▸ hr⟩, fun hs => hstepRuns ▸ hs,
    fun hp => ⟨_, hpositions ▸ hp, rfl, rfl⟩⟩

namespace Work
variable {α : Type} {ρ : Int → Int} {leg : Int} {m m' : Memory} {w w' : Work Memory} {e : Engine}
variable {R : Memory → α → α → Prop}

/-! ## Settling -/

namespace On
variable (h : w.On leg)
include h

theorem passes_store (hg : m.Grows w.store) : m.Passes leg w.store :=
  ⟨h.sound, hg.keeps, fun _ => hg.tables.sameLeg _, hg.clock⟩

theorem passes_applied (hg : m.Grows w.store) : m.Passes leg w.applied := by
  refine ⟨h.applied, hg.keeps.trans h.keeps, ?_, ?_⟩
  · exact fun hother => (hg.tables.sameLeg _).trans (h.others hother)
  · exact (foldl_applyWrite_clock _ _).trans hg.clock

theorem commit_run : commit.run w = (.ok (), { w with store := w.applied }) := by
  have hcommit : (Backend.commit (σ := Memory) w.snapshot).run w.store = (.ok (), w.applied) := by
    show Memory.commit _ _ = _
    simp only [Memory.commit, h.checked]
    rfl
  simp only [commit, query, hcommit]

end On

/-- To save a run changes nothing in the store, and it is not given up for good if it fails. -/
theorem save_cases (w : Work Memory) :
    (save.run w).2.store = w.store ∧ ∀ failure, (save.run w).1 = .error failure →
      ¬ Committed (.error failure : Except EngineError α) := by
  have hupdate : (∃ failure,
        w.store.updateRun w.engine.run.toRecord w.snapshot = (.error failure, w.store)) ∨
      ∃ version s,
        w.store.updateRun w.engine.run.toRecord w.snapshot = (.ok (version, s), w.store) := by
    unfold Memory.updateRun
    split
    · exact .inl ⟨_, rfl⟩
    · split
      · exact .inr ⟨_, _, rfl⟩
      · exact .inl ⟨_, rfl⟩
  rcases hupdate with ⟨failure, hupdate⟩ | ⟨version, s, hupdate⟩
  · rw [save_run_refused hupdate]
    refine ⟨rfl, ?_⟩
    rintro _ ⟨⟩
    exact not_committed_ofStorage failure
  · rw [save_run_staged hupdate]
    exact ⟨rfl, nofun⟩

section Settling
variable (hρ : StrictMono ρ) (h : w.Mirrors ρ leg w')
include hρ h

theorem registerStop_mirrors : Mirrors ρ leg { w with engine := w.engine.stopped }
    { w' with engine := w'.engine.stopped } := by
  have hstopped : w'.engine.stopped = w.engine.stopped.rename ρ := by
    have hrun : (w.engine.rename ρ).run = w.engine.run := rfl
    rw [h.engine]
    unfold Engine.stopped
    rw [hrun]
    split <;> rfl
  rw [hstopped]
  refine h.withEngine hρ ?_
  have he := h.left.engine
  unfold Engine.stopped
  split
  · exact ⟨he.run, he.current, he.position⟩
  · exact he

theorem updateRun_alike :
    Alike ρ leg w.applied Same
      ((stage (Backend.updateRun (σ := Memory) w.engine.run.toRecord)).run w)
      ((stage (Backend.updateRun (σ := Memory) w.engine.run.toRecord)).run w') := by
  let r := w.engine.run.toRecord
  have hid : r.id = leg := h.left.engine.run
  have hversion : w'.store.version? w'.snapshot r.id = w.store.version? w.snapshot r.id := by
    simp only [Memory.version?, h.snapshot, Snapshot.version?_rename, hid, h.store.run]
  simp only [stage, updateRun_run, Memory.updateRun]
  rw [show w.engine.run.toRecord = r from rfl, hversion, h.store.clock]
  cases hv : w.store.version? w.snapshot r.id with
  | none => exact .error (.refl _) h
  | some current =>
    by_cases hcurrent : current = r.version
    · let staged : RunRecord := { r with version := current + 1, updatedAt := w.store.clock }
      obtain ⟨c, hc⟩ := h.left.run
      obtain ⟨c', hc'⟩ := h.right.run
      obtain ⟨d, hd⟩ := h.left.keeps.runs hc
      obtain ⟨d', hd'⟩ := h.right.keeps.runs hc'
      have hw : (Write.updateRun staged).On leg w.applied := .run hid hd
      have hw' : (Write.updateRun staged).On leg w'.applied := .run hid hd'
      have hcheck : w.store.checkWrite w.snapshot (.updateRun staged) = .ok () := by
        simp only [Memory.checkWrite, hv, staged, if_true]
      have hcheck' : w'.store.checkWrite w'.snapshot (.updateRun staged) = .ok () := by
        simp only [Memory.checkWrite, hversion, hv, staged, if_true]
      simp only [if_pos hcurrent]
      refine .ok ?_ (h.stage hρ hw hw' hcheck hcheck') rfl
      rw [applied_stage]
      exact keeps_applyWrite hw
    · simp only [if_neg hcurrent]
      exact .error (.refl _) h

theorem save_alike : Alike ρ leg w.applied Same (save.run w) (save.run w') := by
  refine engine?_alike h ?_
  refine (updateRun_alike hρ h).bind fun version _ w₁ w₁' hk h₁ hversion => ?_
  cases hversion
  have he := h.left.engine.keeps hk
  exact setEngine_alike hρ h₁ (e := w.engine.atVersion version) ⟨he.run, he.current, he.position⟩

end Settling

def saveAndCommit : WorkM Memory Unit := do
  save
  commit

theorem settle_ok (v : α) : settle (.ok v) = saveAndCommit >>= fun _ => pure v := by
  simp only [settle, saveAndCommit, bind_assoc]

theorem settle_unrecoverable (branch step : String) (reason : StopReason) :
    (settle (.error (.unrecoverable branch step reason)) : WorkM Memory α) =
      registerStop >>= fun _ => saveAndCommit >>= fun _ =>
        throw (.unrecoverable branch step reason) := by
  simp only [settle, saveAndCommit, bind_assoc]

/-- A unit of work has ended alike in two stores. Its engine stays of use after a success and an
unrecoverable failure; then all that it refers to is held. -/
inductive Ended (ρ : Int → Int) (leg : Int) (m m' : Memory) (R : Memory → α → α → Prop) :
    Except EngineError α × Work Memory → Except EngineError α × Work Memory → Prop
  | ok {v v' w w'} (left : m.Passes leg w.store) (right : m'.Passes leg w'.store)
      (store : w.store.Mirrors ρ leg w'.store) (engine : w'.engine = w.engine.rename ρ)
      (held : w.engine.On leg w.store) (value : R w.store v v') :
      Ended ρ leg m m' R (.ok v, w) (.ok v', w')
  | error {failure w w'} (left : m.Passes leg w.store) (right : m'.Passes leg w'.store)
      (store : w.store.Mirrors ρ leg w'.store) (engine : w'.engine = w.engine.rename ρ)
      (held : Committed (.error failure : Except EngineError α) → w.engine.On leg w.store) :
      Ended ρ leg m m' R (.error failure, w) (.error failure, w')

section Ending
variable (hρ : StrictMono ρ) (h : w.Mirrors ρ leg w')
variable (hg : m.Grows w.store) (hg' : m'.Grows w'.store)
include hρ h hg hg'

/-- The work is committed in both stores, or it is refused in both. -/
theorem saveAndCommit_ended :
    Ended ρ leg m m' (fun m₁ _ _ => w.applied.Keeps m₁) (saveAndCommit.run w)
      (saveAndCommit.run w') := by
  have hsave := save_alike hρ h
  obtain ⟨hstore, hrefused⟩ := save_cases (α := Unit) w
  obtain ⟨hstore', -⟩ := save_cases (α := Unit) w'
  rw [← hstore] at hg
  rw [← hstore'] at hg'
  rw [saveAndCommit, Effect.run_bind, Effect.run_bind]
  generalize save.run w = y at hsave hg hrefused
  generalize save.run w' = y' at hsave hg'
  cases hsave with
  | error keeps mirrors =>
    exact .error (mirrors.left.passes_store hg) (mirrors.right.passes_store hg') mirrors.store
      mirrors.engine fun hc => absurd hc (hrefused _ rfl)
  | ok keeps mirrors _ =>
    simp only [mirrors.left.commit_run, mirrors.right.commit_run]
    exact .ok (mirrors.left.passes_applied hg) (mirrors.right.passes_applied hg') mirrors.applied
      mirrors.engine mirrors.left.engine keeps

theorem settle_ok_ended {v v' : α} (hv : ∀ {m₁}, w.applied.Keeps m₁ → R m₁ v v') :
    Ended ρ leg m m' R ((settle (.ok v)).run w) ((settle (.ok v')).run w') := by
  have hended := saveAndCommit_ended hρ h hg hg'
  rw [settle_ok, settle_ok, Effect.run_bind, Effect.run_bind]
  generalize saveAndCommit.run w = y at hended
  generalize saveAndCommit.run w' = y' at hended
  cases hended with
  | ok left right store engine held value => exact .ok left right store engine held (hv value)
  | error left right store engine held =>
    exact .error left right store engine fun hc => held (committed_error_iff.mp hc)

theorem settle_error_ended (failure : EngineError) :
    Ended ρ leg m m' R ((settle (.error failure)).run w) ((settle (.error failure)).run w') := by
  cases failure with
  | unrecoverable branch step reason =>
    have hended := saveAndCommit_ended hρ (registerStop_mirrors hρ h) hg hg'
    rw [settle_unrecoverable, Effect.bind_of_ok (registerStop_run w),
      Effect.bind_of_ok (registerStop_run w'), Effect.run_bind, Effect.run_bind]
    generalize saveAndCommit.run _ = y at hended
    generalize saveAndCommit.run _ = y' at hended
    cases hended with
    | ok left right store engine held _ => exact .error left right store engine fun _ => held
    | error left right store engine held =>
      exact .error left right store engine fun hc => held (committed_error_iff.mp hc)
  | _ =>
    exact .error (h.left.passes_store hg) (h.right.passes_store hg') h.store h.engine nofun

end Ending

section Run
variable (hρ : StrictMono ρ) (hm : m.Sound) (hm' : m'.Sound) (h : m.Mirrors ρ leg m')
variable {r : RunRecord} (hr : m.runs.get? leg = some r) (he : e.On leg m)

include hm hr he in
theorem opened_on : On leg ⟨m, .empty, e⟩ :=
  ⟨hm, hm, .refl m, fun _ => .refl m _, rfl, ⟨r, hr⟩, he⟩

include hρ hm hm' h hr he

theorem opened_mirrors : Mirrors ρ leg ⟨m, .empty, e⟩ ⟨m', .empty, e.rename ρ⟩ :=
  ⟨opened_on hm hr he, opened_on hm' (h.run.trans hr) (he.mirrored hρ hm hm' h), h, h, rfl, rfl⟩

/-- A unit of work is done and settled in both stores. -/
theorem settled_ended {x : WorkM Memory α} (hx : StagesOnly x)
    (hR : ∀ {m₁ m₂ v v'}, m₁.Keeps m₂ → R m₁ v v' → R m₂ v v')
    (hmove : ∀ {w w'}, w.Mirrors ρ leg w' → Alike ρ leg w.applied R (x.run w) (x.run w')) :
    Ended ρ leg m m' R ((settled x).run ⟨m, .empty, e⟩)
      ((settled x).run ⟨m', .empty, e.rename ρ⟩) := by
  have hmoved := hmove (opened_mirrors hρ hm hm' h hr he)
  have hg : m.Grows (x.run ⟨m, .empty, e⟩).2.store := (hx ⟨m, .empty, e⟩).store
  have hg' : m'.Grows (x.run ⟨m', .empty, e.rename ρ⟩).2.store :=
    (hx ⟨m', .empty, e.rename ρ⟩).store
  simp only [settled, Effect.run_bind, Effect.run_outcome]
  generalize x.run ⟨m, .empty, e⟩ = y at hmoved hg
  generalize x.run ⟨m', .empty, e.rename ρ⟩ = y' at hmoved hg'
  cases hmoved with
  | ok keeps mirrors value => exact settle_ok_ended hρ mirrors hg hg' (hR · value)
  | error keeps mirrors => exact settle_error_ended hρ mirrors hg hg' _

end Run

theorem run_eq (x : WorkM Memory α) (e : Engine) (m : Memory) :
    Work.run x e m =
      ((((settled x).run ⟨m, .empty, e⟩).1, ((settled x).run ⟨m, .empty, e⟩).2.engine),
        ((settled x).run ⟨m, .empty, e⟩).2.store) := rfl

end Work

/-! ## Answers -/

abbrev Answer := Except EngineError (Option Outcome)

def Answer.rename (ρ : Int → Int) (answer : Answer) : Answer :=
  answer.map (Option.map (Outcome.rename ρ))

namespace Engine

def reply (ctx : Context) (e : Engine) (m : Memory) :
    World.Call → Answer × Option Engine × Memory
  | .prepare =>
    (((e.prepare ctx).run m).1.map fun _ => none, e.call ctx m .prepare)
  | .run raw => ((e.runStep ctx raw m).1.1.map some, e.call ctx m (.run raw))

structure Replied (ρ : Int → Int) (leg : Int) (m m' : Memory)
    (y y' : Answer × Option Engine × Memory) : Prop where
  left : m.Passes leg y.2.2
  right : m'.Passes leg y'.2.2
  store : y.2.2.Mirrors ρ leg y'.2.2
  answer : y'.1 = y.1.rename ρ
  told : ∀ o, y.1 = .ok (some o) → o.next.On leg y.2.2
  engine : y'.2.1 = y.2.1.map (Engine.rename ρ)
  held : ∀ e, y.2.1 = some e → e.On leg y.2.2

section Reply
variable {ρ : Int → Int} {leg : Int} {m m' : Memory} {e : Engine} {r : RunRecord}
variable (hρ : StrictMono ρ) (hm : m.Sound) (hm' : m'.Sound) (h : m.Mirrors ρ leg m')
variable (hr : m.runs.get? leg = some r) (he : e.On leg m) (ctx : Context)
include hρ hm hm' h hr he

theorem run_replied (raw : Option String) :
    Replied ρ leg m m' (e.reply ctx m (.run raw)) ((e.rename ρ).reply ctx m' (.run raw)) := by
  have hended := settled_ended hρ hm hm' h hr he (R := Told ρ leg) (StagesOnly.callStep ctx raw)
    (fun hk ho => ⟨ho.1, NextStep.On.keeps ho.2 hk⟩) fun h => callStep_alike hρ h ctx raw
  simp only [reply, call, runStep, run_eq]
  generalize (settled (callStep ctx raw)).run ⟨m, Snapshot.empty, e⟩ = y at hended ⊢
  generalize (settled (callStep ctx raw)).run ⟨m', Snapshot.empty, e.rename ρ⟩ = y' at hended ⊢
  cases hended with
  | ok left right store engine held value =>
    obtain ⟨rfl, hon⟩ := value
    refine ⟨left, right, store, rfl, ?_, congrArg some engine, ?_⟩
    · rintro _ ⟨⟩
      exact hon
    · rintro _ ⟨⟩
      exact held
  | @error failure w w' left right store engine held =>
    have htold : ∀ o, (Except.map some (.error failure) : Answer) = .ok (some o) →
        o.next.On leg w.store := by
      rintro _ ⟨⟩
    by_cases hc : Committed (.error failure : Except EngineError Outcome)
    · simp only [kept_of_committed hc]
      refine ⟨left, right, store, rfl, htold, congrArg some engine, ?_⟩
      rintro _ ⟨⟩
      exact held hc
    · simp only [kept_of_not_committed hc]
      refine ⟨left, right, store, rfl, htold, rfl, ?_⟩
      rintro _ ⟨⟩

omit hρ hr he in
theorem prepare_replied_of_read {read : Except EngineError Engine}
    (hrun : (prepare ctx e).run m = (read, m))
    (hrun' : (prepare ctx (e.rename ρ)).run m' = (read.map (Engine.rename ρ), m'))
    (hon : ∀ e', read = .ok e' → e'.On leg m) :
    Replied ρ leg m m' (e.reply ctx m .prepare) ((e.rename ρ).reply ctx m' .prepare) := by
  simp only [reply, call, hrun, hrun']
  cases read with
  | error failure => exact ⟨.refl hm, .refl hm', h, rfl, by rintro _ ⟨⟩, rfl, by rintro _ ⟨⟩⟩
  | ok e' =>
    refine ⟨.refl hm, .refl hm', h, rfl, by rintro _ ⟨⟩, rfl, ?_⟩
    rintro _ ⟨⟩
    exact hon _ rfl

omit hρ hr in
theorem prepare_replied_of_latest {p : PositionRecord} (hp : m.latestPosition leg = some p) :
    Replied ρ leg m m' (e.reply ctx m .prepare) ((e.rename ρ).reply ctx m' .prepare) := by
  have hmem := latestPosition_mem hp
  obtain ⟨s, hs, hrun, hid⟩ := hm.joined hmem
  obtain ⟨⟨i, hi⟩, hleg⟩ := mem_positionsOf.mp hmem
  have hs' := h.stepRun hm hm' hs hrun
  have hattempts : m'.attemptsOf (s.rename ρ).id =
      (m.attemptsOf s.id).map (AttemptRecord.rename ρ) := h.attempts (hid ▸ hs) hrun
  have hp' : m'.latestPosition leg = some (p.rename ρ) := by
    rw [h.latestPosition, hp]
    rfl
  have hread : (prepare ctx e).run m = (rehydrate ctx e p).run m := prepare_run_some (he.run ▸ hp)
  have hread' : (prepare ctx (e.rename ρ)).run m' =
      (rehydrate ctx (e.rename ρ) (p.rename ρ)).run m' := prepare_run_some (he.run ▸ hp')
  refine prepare_replied_of_read hm hm' h ctx (hread.trans (rehydrate_eq hs))
    ((hread'.trans (rehydrate_eq hs')).trans ?_) ?_
  · have hstep : (e.rename ρ).stepOf ctx (s.rename ρ) = e.stepOf ctx s := rfl
    rw [hstep, hattempts]
    cases e.stepOf ctx s <;> rfl
  · intro e' he'
    cases hstep : e.stepOf ctx s with
    | error failure => simp [hstep, Except.map] at he'
    | ok step =>
      rw [hstep] at he'
      cases he'
      refine ⟨he.run, ?_, ?_⟩
      · rintro _ ⟨⟩
        refine ⟨⟨s, hid ▸ hs, hrun⟩, fun a ha => ?_⟩
        obtain ⟨⟨j, hj⟩, hstep⟩ := mem_attemptsOf.mp ha
        obtain ⟨rfl, hlt, -⟩ := hm.attempts hj
        exact ⟨hlt, hstep ▸ (hm.stepRuns hs).1 ▸ (hm.stepRuns hs).2.1⟩
      · rintro _ ⟨⟩
        exact ⟨p, (hm.positions hi).1 ▸ hi, hleg, rfl⟩

theorem prepare_replied_of_fresh (hp : m.latestPosition leg = none)
    (hs : e.run.state = .uninitialized) :
    Replied ρ leg m m' (e.reply ctx m .prepare) ((e.rename ρ).reply ctx m' .prepare) := by
  have hp' : m'.latestPosition leg = none := by
    rw [h.latestPosition, hp]
    rfl
  have hended := settled_ended hρ hm hm' h hr he (R := Same) (StagesOnly.enterFirst ctx)
    (fun _ hsame => hsame) fun h => enterFirst_alike hρ h ctx
  have hlatest : m.latestPosition e.run.record.id = none := he.run ▸ hp
  have hlatest' : m'.latestPosition (e.rename ρ).run.record.id = none := he.run ▸ hp'
  have hs' : (e.rename ρ).run.state = .uninitialized := hs
  simp only [reply, call, prepare_run_first hlatest hs, prepare_run_first hlatest' hs', run_eq]
  generalize (settled (enterFirst ctx)).run ⟨m, Snapshot.empty, e⟩ = y at hended ⊢
  generalize (settled (enterFirst ctx)).run ⟨m', Snapshot.empty, e.rename ρ⟩ = y' at hended ⊢
  cases hended with
  | ok left right store engine held value =>
    refine ⟨left, right, store, rfl, by rintro _ ⟨⟩, congrArg some engine, ?_⟩
    rintro _ ⟨⟩
    exact held
  | error left right store engine held =>
    exact ⟨left, right, store, rfl, by rintro _ ⟨⟩, rfl, by rintro _ ⟨⟩⟩

theorem prepare_replied :
    Replied ρ leg m m' (e.reply ctx m .prepare) ((e.rename ρ).reply ctx m' .prepare) := by
  cases hp : m.latestPosition leg with
  | some p => exact prepare_replied_of_latest hm hm' h he ctx hp
  | none =>
    by_cases hs : e.run.state = .uninitialized
    · exact prepare_replied_of_fresh hρ hm hm' h hr he ctx hp hs
    · have hp' : m'.latestPosition leg = none := by
        rw [h.latestPosition, hp]
        rfl
      exact prepare_replied_of_read hm hm' h ctx (prepare_run_lost (he.run ▸ hp) hs)
        (prepare_run_lost (e := e.rename ρ) (he.run ▸ hp') hs) (by rintro _ ⟨⟩)

theorem reply_replied (c : World.Call) :
    Replied ρ leg m m' (e.reply ctx m c) ((e.rename ρ).reply ctx m' c) := by
  cases c with
  | prepare => exact prepare_replied hρ hm hm' h hr he ctx
  | run raw => exact run_replied hρ hm hm' h hr he ctx raw

end Reply
end Engine
end CallFlow
