import CallFlow.Engine.History
import CallFlow.Proofs.Legs.Call
import CallFlow.Proofs.Run.Creation

/-! # Many legs on one store

A switchboard holds a store and the engines of all legs. The engines are called in any order, and
between the calls time passes, the host deploys anew, and runs are created. They are numbered leg
by leg, so that an engine keeps its number when all that happens on other legs is left out.
-/
namespace CallFlow
open Memory Work

inductive Act
  | createEngine
  | call (slot : Nat) (c : World.Call)

/-- One act with the engines of the leg: its answer, the engines that are in use after it, and the
store. There is no answer where the engine was given up or never created. -/
def Act.run (ctx : Context) (leg : Int) (engines : List (Option Engine)) (m : Memory) :
    Act → Option Answer × List (Option Engine) × Memory
  | .createEngine =>
    match (Engine.create ctx leg).run m with
    | (.ok e, m') => (some (.ok none), engines ++ [some e], m')
    | (.error failure, m') => (some (.error failure), engines, m')
  | .call slot c =>
    match engines[slot]?.join with
    | none => (none, engines, m)
    | some e =>
      let (answer, engine, m') := e.reply ctx m c
      (some answer, engines.set slot engine, m')

structure Switchboard where
  context : Context
  store : Memory
  /-- For each leg one for each engine that was created, while it is in use. -/
  engines : Int → List (Option Engine)

namespace Switchboard

inductive Event
  | tick (clock : String)
  | deploy (context : Context)
  | createRun (tag : String)
  | on (leg : Int) (act : Act)

def Event.concerns (leg : Int) : Event → Bool
  | .tick _ | .deploy _ => true
  | .createRun _ => false
  | .on other _ => other = leg

def start (context : Context) : Switchboard := ⟨context, .empty, fun _ => []⟩

def perform (s : Switchboard) (leg : Int) (act : Act) : Option Answer × List (Option Engine) × Memory :=
  act.run s.context leg (s.engines leg) s.store

def step (s : Switchboard) : Event → Switchboard
  | .tick clock => { s with store := { s.store with clock } }
  | .deploy context => { s with context }
  | .createRun tag => { s with store := ((createRun s.context tag).run s.store).2 }
  | .on leg act =>
    let (_, engines, store) := s.perform leg act
    { s with store, engines := Function.update s.engines leg engines }

def after (s : Switchboard) (events : List Event) : Switchboard := events.foldl step s

def answers (leg : Int) : Switchboard → List Event → List (Option Answer)
  | _, [] => []
  | s, event :: rest =>
    let later := answers leg (s.step event) rest
    match event with
    | .on other act => if other = leg then (s.perform leg act).1 :: later else later
    | _ => later

def Reachable (s : Switchboard) : Prop := ∃ context events, s = (start context).after events

end Switchboard

namespace Engine
variable {ctx : Context} {leg : Int} {m m' : Memory} {e : Engine}

theorem create_run_eq (ctx : Context) (h : m'.runs.get? leg = m.runs.get? leg) :
    (create ctx leg).run m' = (((create ctx leg).run m).1, m') := by
  have hread (m : Memory) : (Backend.run (σ := Memory) leg).run m = (m.run leg, m) := rfl
  have hrun : m'.run leg = m.run leg := by simp only [Memory.run, h]
  simp only [create, Run.load, Effect.run_bind, Effect.run_mapError, Effect.run_ofExcept, hread,
    hrun]
  cases (m.run leg).mapError EngineError.ofStorage with
  | error failure => rfl
  | ok r =>
    dsimp only
    cases Run.ofRecord r with
    | error failure => rfl
    | ok run =>
      dsimp only
      cases (ctx.flows run.record.configTag).mapError EngineError.config <;> rfl

theorem create_on (hm : m.Sound) (h : ((create ctx leg).run m).1 = .ok e) :
    e.On leg m ∧ (∃ r, m.runs.get? leg = some r) ∧ ∀ ρ, e.rename ρ = e := by
  obtain ⟨r, hr, hrecord, -, -, hidle, hposition⟩ := (create_reads ctx leg m).2 e h
  have hid : e.run.record.id = leg := hrecord ▸ (hm.runs hr).1
  refine ⟨⟨hid, fun hb => ?_, fun hp => ?_⟩, ⟨r, hr⟩, fun ρ => ?_⟩
  · rw [hidle] at hb
    cases hb
  · rw [hposition] at hp
    cases hp
  · obtain ⟨config, run, stepEngine, position⟩ := e
    obtain rfl : stepEngine = .idle := hidle
    obtain rfl : position = none := hposition
    rfl

end Engine

/-! ## Acts -/

def Memory.Staffs (m : Memory) (leg : Int) (engines : List (Option Engine)) : Prop :=
  ∀ e, some e ∈ engines → e.On leg m ∧ ∃ r, m.runs.get? leg = some r

theorem Memory.Staffs.keeps {m m' : Memory} {leg : Int} {engines : List (Option Engine)}
    (h : m.Staffs leg engines) (hk : m.Keeps m') : m'.Staffs leg engines := by
  intro e he
  obtain ⟨hon, r, hr⟩ := h e he
  exact ⟨hon.keeps hk, hk.runs hr⟩

namespace Act

structure Matches (ρ : Int → Int) (leg : Int) (m m' : Memory)
    (y y' : Option Answer × List (Option Engine) × Memory) : Prop where
  left : m.Passes leg y.2.2
  right : m'.Passes leg y'.2.2
  store : y.2.2.Mirrors ρ leg y'.2.2
  answer : y'.1 = y.1.map (Answer.rename ρ)
  told : ∀ o, y.1 = some (.ok (some o)) → o.next.On leg y.2.2
  engines : y'.2.1 = y.2.1.map (Option.map (Engine.rename ρ))
  staffs : y.2.2.Staffs leg y.2.1

section Run
variable {ρ : Int → Int} {leg : Int} {m m' : Memory} {engines : List (Option Engine)}
variable (hρ : StrictMono ρ) (hm : m.Sound) (hm' : m'.Sound) (h : m.Mirrors ρ leg m')
variable (hstaffs : m.Staffs leg engines) (ctx : Context)
include hm hm' h hstaffs

theorem createEngine_matches :
    Matches ρ leg m m' (createEngine.run ctx leg engines m)
      (createEngine.run ctx leg (engines.map (Option.map (Engine.rename ρ))) m') := by
  have hreads : ((Engine.create ctx leg).run m).2 = m := (Engine.create_reads ctx leg m).1
  have hon (e) (he : ((Engine.create ctx leg).run m).1 = .ok e) := Engine.create_on hm he
  simp only [run, Engine.create_run_eq ctx h.run]
  generalize (Engine.create ctx leg).run m = y at hreads hon
  obtain ⟨created, store⟩ := y
  obtain rfl : store = m := hreads
  cases created with
  | error failure =>
    exact ⟨.refl hm, .refl hm', h, rfl, by rintro _ ⟨⟩, rfl, hstaffs⟩
  | ok e =>
    obtain ⟨hon, hr, hrename⟩ := hon e rfl
    refine ⟨.refl hm, .refl hm', h, rfl, by rintro _ ⟨⟩, ?_, ?_⟩
    · simp [hrename]
    · intro e' he'
      rcases List.mem_append.mp he' with he' | he'
      · exact hstaffs e' he'
      · cases List.mem_singleton.mp he'
        exact ⟨hon, hr⟩

include hρ

theorem run_matches (act : Act) :
    Matches ρ leg m m' (act.run ctx leg engines m)
      (act.run ctx leg (engines.map (Option.map (Engine.rename ρ))) m') := by
  cases act with
  | createEngine => exact createEngine_matches hm hm' h hstaffs ctx
  | call slot c =>
    have hslot : (engines.map (Option.map (Engine.rename ρ)))[slot]?.join =
        engines[slot]?.join.map (Engine.rename ρ) := by
      rw [List.getElem?_map]
      cases engines[slot]? <;> rfl
    simp only [run, hslot]
    cases he : engines[slot]?.join with
    | none => exact ⟨.refl hm, .refl hm', h, rfl, by rintro _ ⟨⟩, rfl, hstaffs⟩
    | some e =>
      have hmem : some e ∈ engines := List.mem_of_getElem? (Option.join_eq_some_iff.mp he)
      obtain ⟨hon, r, hr⟩ := hstaffs e hmem
      have hreplied := Engine.reply_replied hρ hm hm' h hr hon ctx c
      refine ⟨hreplied.left, hreplied.right, hreplied.store, congrArg some hreplied.answer, ?_, ?_, ?_⟩
      · intro o ho
        exact hreplied.told o (Option.some.inj ho)
      · simp only [Option.map_some, hreplied.engine, List.map_set]
      · intro e' he'
        rcases List.mem_or_eq_of_mem_set he' with he' | he'
        · exact hstaffs.keeps hreplied.left.keeps e' he'
        · exact ⟨hreplied.held e' he'.symm, hreplied.left.keeps.runs hr⟩

end Run
end Act

/-! ## Soundness -/

theorem createRun_passes {m : Memory} (hm : m.Sound) (ctx : Context) (tag : String) :
    m.Passes m.nextId ((createRun ctx tag).run m).2 := by
  rcases createRun_cases ctx tag m with hrun | ⟨config, b, -, -, hrun⟩ <;> rw [hrun]
  · exact .refl hm
  · have hid : (b.newRun tag m).id = m.nextId := rfl
    have hkeeps : m.Keeps (m.created (b.newRun tag m)) := by
      refine ⟨Int.le_add_one (Int.le_refl _), fun {id r} hr => ?_, id, fun hp => ⟨_, hp, rfl, rfl⟩⟩
      have hne := Int.ne_of_lt (hm.runs hr).2
      exact ⟨r, (Table.get?_insert_of_ne _ (hid ▸ hne) _).trans hr⟩
    exact ⟨hm.created hid, hkeeps, fun hother => sameLeg_created (hid ▸ hother), rfl⟩

namespace Switchboard

structure Sound (s : Switchboard) : Prop where
  store : s.store.Sound
  staffs : ∀ leg, s.store.Staffs leg (s.engines leg)

variable {s : Switchboard}

theorem Sound.start (context : Context) : (start context).Sound :=
  ⟨sound_empty, fun _ _ he => absurd he List.not_mem_nil⟩

/-- No other leg is touched by what is done for one. -/
theorem Sound.passes (h : s.Sound) (leg : Int) (act : Act) :
    s.store.Passes leg (s.step (.on leg act)).store :=
  (Act.run_matches strictMono_id h.store h.store (.refl s.store leg) (h.staffs leg) s.context
    act).left

theorem Sound.on (h : s.Sound) (leg : Int) (act : Act) : (s.step (.on leg act)).Sound := by
  have hpasses := h.passes leg act
  have hmatches := Act.run_matches strictMono_id h.store h.store (.refl s.store leg)
    (h.staffs leg) s.context act
  refine ⟨hpasses.sound, fun other => ?_⟩
  by_cases hother : other = leg
  · subst other
    simp only [step, Function.update_self]
    exact hmatches.staffs
  · simp only [step, Function.update_of_ne hother]
    exact (h.staffs other).keeps hpasses.keeps

theorem Sound.step (h : s.Sound) (event : Event) : (s.step event).Sound := by
  cases event with
  | tick clock =>
    have htables : SameTables s.store { s.store with clock } := ⟨rfl, rfl, rfl, rfl⟩
    have hkeeps : s.store.Keeps { s.store with clock } :=
      ⟨Int.le_refl _, fun hr => ⟨_, hr⟩, id, fun hp => ⟨_, hp, rfl, rfl⟩⟩
    exact ⟨htables.sound (Int.le_refl _) h.store, fun leg => (h.staffs leg).keeps hkeeps⟩
  | deploy context => exact ⟨h.store, h.staffs⟩
  | createRun tag =>
    have hpasses := createRun_passes h.store s.context tag
    exact ⟨hpasses.sound, fun leg => (h.staffs leg).keeps hpasses.keeps⟩
  | on leg act => exact h.on leg act

theorem Sound.after (h : s.Sound) (events : List Event) : (s.after events).Sound := by
  induction events generalizing s with
  | nil => exact h
  | cons event rest ih => exact ih (h.step event)

theorem Reachable.sound (h : s.Reachable) : s.Sound := by
  obtain ⟨context, events, rfl⟩ := h
  exact (Sound.start context).after events

end Switchboard
end CallFlow
