import CallFlow.Proofs.World.Sound

/-! # Properties of a run that last

A property of what is recorded for a run lasts if it holds of a run that was only created, does
not look at other runs, and is kept by every committed call of an engine of the run. It may rely
on how many retries the settings grant to a step that sets no number of its own, where these
never granted more.
-/
namespace CallFlow
open Memory

def StepTemplate.limit (t : StepTemplate) (count : UInt32) : Nat := (t.retryCount.getD count).toNat

/-- The budget of a step of the flow is within its limit. -/
theorem Context.budget_le_limit {ctx : Context} {config : FlowConfig} {step : Step}
    {t : StepTemplate} {count : UInt32} (hw : config.tree.WellFormed ctx.registry)
    (hstep : config.HasStep ctx.registry step) (hcount : ctx.settings.defaultRetryCount ≤ count)
    (ht : config.tree.step step.branch step.name = .ok t) : ctx.budget step ≤ t.limit count := by
  unfold budget StepTemplate.limit
  rw [(hstep.built hw ht).retryCount]
  cases t.retryCount with
  | none => exact UInt32.le_iff_toNat_le.mp hcount
  | some n => exact Nat.le_refl _

namespace World

def Action.Grants (count : UInt32) : Action → Prop
  | .provide _ settings => settings.defaultRetryCount ≤ count
  | _ => True

/-- Worlds in which no more retries than this were ever granted. -/
inductive GrantsUpTo (registry : Registry) (count : UInt32) : World → Prop
  | start (services : Services) {settings : Settings} (h : settings.defaultRetryCount ≤ count) :
      GrantsUpTo registry count (empty.step registry (.provide services settings))
  | step {w : World} (a : Action) (h : GrantsUpTo registry count w) (grants : a.Grants count) :
      GrantsUpTo registry count (w.step registry a)

variable {registry : Registry} {count : UInt32} {w : World}

theorem GrantsUpTo.reachable (h : GrantsUpTo registry count w) : Reachable registry w := by
  induction h with
  | start services => exact .step _ .refl
  | step a _ _ ih => exact .step a ih

theorem GrantsUpTo.after (h : GrantsUpTo registry count w) {actions : List Action}
    (hgrants : ∀ a ∈ actions, a.Grants count) :
    GrantsUpTo registry count (w.after registry actions) := by
  induction actions generalizing w with
  | nil => exact h
  | cons a rest ih =>
    exact ih (h.step a (hgrants a List.mem_cons_self)) fun b hb => hgrants b (List.mem_cons_of_mem a hb)

theorem GrantsUpTo.settings_le (h : GrantsUpTo registry count w) :
    w.settings.defaultRetryCount ≤ count := by
  induction h with
  | start services h => exact h
  | @step w a _ grants ih =>
    cases a with
    | provide services settings => exact grants
    | tick | createRun => exact ih
    | publish | createEngine | call =>
      simp only [World.step]
      split <;> exact ih

theorem step_extends (registry : Registry) (w : World) (a : Action) :
    w.catalog.Extends (w.step registry a).catalog := by
  cases a with
  | publish config =>
    simp only [step]
    cases hp : w.catalog.publish config registry with
    | error failure => exact id
    | ok published => exact Catalog.publish_extends hp
  | provide | tick | createRun => exact id
  | createEngine run =>
    simp only [step]
    split <;> exact id
  | call slot c =>
    simp only [step]
    split <;> exact id

/-- What it takes for a property of a run's records to last. -/
structure Lasting (count : UInt32) (I : Memory → FlowConfig → RunRecord → Prop) : Prop where
  sameLeg : ∀ {m m' config r}, m.Sound → SameLeg m m' r.id → I m config r → I m' config r
  fresh : ∀ {m config r}, m.Unprepared config r → I m config r
  turned : ∀ {ctx : Context} {m : Memory} {e e' : Engine} {x n p b r} (version : Int), m.Sound →
    e.config.tree.WellFormed ctx.registry → ctx.settings.defaultRetryCount ≤ count →
    m.runs.get? e.run.record.id = some r → m.Recorded ctx.registry e.config e.run.record.id →
    e.Turn ctx.registry m x n e' p b → e.Turned ctx m x n e' p b → I m e.config r →
      I (m.post x n (e'.stored version m.clock)) e.config (e'.stored version m.clock)

/-- A lasting property holds of every run. -/
theorem GrantsUpTo.holds {I : Memory → FlowConfig → RunRecord → Prop} (hI : Lasting count I)
    (h : GrantsUpTo registry count w) : ∀ {id r config}, w.store.runs.get? id = some r →
      w.catalog.resolve r.configTag = .ok config → I w.store config r := by
  induction h with
  | start services => exact fun hr => by cases hr
  | @step w a hw _ ih =>
    intro id r config hr hconfig
    have hsound := hw.reachable.sound
    have hid : ∀ {id r}, w.store.runs.get? id = some r → r.id = id := fun hr =>
      (hsound.store.runs hr).1
    -- a run that was there keeps its flow
    have hold {m : Memory} (hr : w.store.runs.get? id = some r) (hleg : SameLeg w.store m id) :
        I m config r := by
      obtain ⟨config₀, hconfig₀, -⟩ := hsound.runs hr
      have hextended := step_extends registry w a hconfig₀
      obtain rfl : config₀ = config := Except.ok.inj (hextended.symm.trans hconfig)
      exact hI.sameLeg hsound.store ((hid hr).symm ▸ hleg) (ih hr hconfig₀)
    have hadvances := hsound.advances a
    generalize (w.step registry a).store = m at hadvances hr ⊢
    cases hadvances with
    | quiet tables => exact hold (by rw [← tables.runs, hr]) (tables.sameLeg id)
    | @created tag config' b flow first =>
      by_cases hnew : id = w.store.nextId
      · subst hnew
        obtain rfl : b.newRun tag w.store = r :=
          Option.some.inj ((Table.get?_insert_self _ _ _).symm.trans hr)
        have hextended := step_extends registry w a flow
        obtain rfl : config' = config := Except.ok.inj (hextended.symm.trans hconfig)
        exact hI.fresh (unprepared_created hsound.store rfl rfl rfl first rfl)
      · have hleg : SameLeg w.store (w.store.created (b.newRun tag w.store)) id :=
          sameLeg_created hnew
        exact hold (by rw [← hleg.run, hr]) hleg
    | @turned slot e x n e' p b c used turn stored version turned =>
      have hadmitted := hsound.engines used
      by_cases hrun : id = e.run.record.id
      · subst hrun
        obtain rfl := Option.some.inj ((turn.stored_run _ _).symm.trans hr)
        have htag : (e'.stored (c.version + 1) w.store.clock).configTag = e.run.record.configTag :=
          turn.same.configTag
        have hextended := step_extends registry w a hadmitted.flow
        rw [← htag] at hextended
        obtain rfl : e.config = config := Except.ok.inj (hextended.symm.trans hconfig)
        have hstale := Engine.not_stale stored version
        have hrec := (hsound.tracks used hstale stored).recorded hsound.store stored
        have hctag : c.configTag = e.run.record.configTag := by
          rw [(hadmitted.current hstale).1.record_eq stored]
        exact hI.turned _ hsound.store (hsound.flows hadmitted.flow)
          hw.settings_le stored hrec turn turned (ih stored (hctag ▸ hadmitted.flow))
      · have hleg := sameLeg_post (r := e'.stored (c.version + 1) w.store.clock) hsound.store
          turn.fits turn.same.id hrun
        exact hold (by rw [← hleg.run, hr]) hleg

def mostRetries : UInt32 := 4294967295

theorem le_mostRetries (count : UInt32) : count ≤ mostRetries := by
  have hlt := count.toNat_lt
  have hmost : mostRetries.toNat = 4294967295 := rfl
  rw [UInt32.le_iff_toNat_le]
  omega

/-- Some bound holds in every reachable world. -/
theorem Reachable.grantsUpTo (h : Reachable registry w) : GrantsUpTo registry mostRetries w := by
  induction h with
  | refl => exact .start .empty (le_mostRetries Settings.standard.defaultRetryCount)
  | step a _ ih =>
    refine ih.step a ?_
    cases a with
    | provide services settings => exact le_mostRetries _
    | publish | tick | createRun | createEngine | call => trivial

end World
end CallFlow
