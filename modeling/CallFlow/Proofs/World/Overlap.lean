import CallFlow.Proofs.World.Deployed
import CallFlow.Proofs.World.Engines

/-! # Overlapping calls

An engine that holds an older version of its run changes nothing and is told so, whatever else
it holds. Versions only grow, so of all calls by engines that hold the same version of a run at
most one is committed.
-/
namespace CallFlow
open Memory Work

namespace Engine
variable {ctx : Context} {m : Memory} {e : Engine}

/-- The call is answered as one that was committed, or it has changed the tables. -/
def Commits (ctx : Context) (e : Engine) (m : Memory) : World.Call → Prop
  | .prepare => ¬ SameTables m ((e.prepare ctx).run m).2
  | .run raw => Committed (e.runStep ctx raw m).1.1 ∨ ¬ SameTables m (e.runStep ctx raw m).2

/-- Nothing comes of a call by an engine that holds an older version. -/
theorem Stale.not_commits (h : e.Stale m) (c : World.Call) : ¬ e.Commits ctx m c := by
  cases c with
  | prepare =>
    have hcalled := prepare_called_stale ctx h
    intro hchanged
    apply hchanged
    rw [← call_store]
    cases hcall : e.call ctx m .prepare with
    | mk engine m' =>
      rw [hcall] at hcalled
      cases hcalled with
      | refused grows => exact grows.tables
      | read => exact .refl m
      | turned _ stored version => exact absurd h (not_stale stored version)
  | run raw =>
    obtain ⟨hrefused, hgrows⟩ := run_stale (StagesOnly.callStep ctx raw) h
    rintro (hcommitted | hchanged)
    · exact hrefused hcommitted
    · exact hchanged hgrows.tables

theorem Turn.version {registry : Registry} {x : Change} {n : Int} {e' : Engine}
    {p : PositionRecord} {b : BoundStep} (h : e.Turn registry m x n e' p b) {version : Int}
    (hv : version = e.run.record.version) (clock : String) :
    ∃ r, (m.post x n (e'.stored (version + 1) clock)).runs.get? e.run.record.id = some r ∧
      e.run.record.version < r.version := by
  refine ⟨e'.stored (version + 1) clock, h.stored_run _ _, ?_⟩
  show e.run.record.version < version + 1
  omega

/-- A call that is committed leaves its engine's version behind. -/
theorem Commits.version {w : World} {registry : Registry} {slot : Nat} {c : World.Call}
    (hw : w.Sound registry) (he : w.engine? slot = some e)
    (h : e.Commits (w.context registry) w.store c) :
    ∃ r, (w.step registry (.call slot c)).store.runs.get? e.run.record.id = some r ∧
      e.run.record.version < r.version := by
  have hstore : (w.step registry (.call slot c)).store =
      (e.call (w.context registry) w.store c).2 := by
    simp only [World.step, he]
  rw [hstore]
  cases c with
  | prepare =>
    have hcalled := hw.call_called he .prepare
    have hchanged : ¬ SameTables w.store (e.call (w.context registry) w.store .prepare).2 := by
      rw [call_store]
      exact h
    rcases hcall : e.call (w.context registry) w.store .prepare with ⟨engine, m'⟩
    rw [hcall] at hcalled hchanged
    cases hcalled with
    | refused grows => exact absurd grows.tables hchanged
    | read => exact absurd (.refl _) hchanged
    | turned turn _ version => exact turn.version version _
  | run raw =>
    have hadmitted := hw.engines he
    have hflow := hw.flows hadmitted.flow
    rcases runStep_cases (w.context registry) hw.store hflow hadmitted raw with
      ⟨hrefused, hgrows⟩ | ⟨answer, x, n, e', p, b, r, hturn, -, -, hv, hrun⟩
    · exact absurd hgrows.tables (h.resolve_left hrefused)
    · show ∃ r, (e.runStep (w.context registry) raw w.store).2.runs.get? _ = some r ∧ _
      rw [hrun]
      exact hturn.version hv _

end Engine

namespace World
variable {registry : Registry} {w w' : World}

theorem Reaches.version_le (hr : Reaches registry w w') (h : w.Sound registry) {id : Int}
    {r : RunRecord} (hget : w.store.runs.get? id = some r) :
    ∃ r', w'.store.runs.get? id = some r' ∧ r.version ≤ r'.version := by
  induction hr with
  | refl => exact ⟨r, hget, Int.le_refl _⟩
  | step a hr ih =>
    obtain ⟨r₁, hr₁, hle₁⟩ := ih
    obtain ⟨r₂, hr₂, -, hle₂⟩ := (hr.sound h).run_step a hr₁
    exact ⟨r₂, hr₂, Int.le_trans hle₁ hle₂⟩

/-- A call by an engine that does not hold the version of the store is refused and leaves the
tables as they are. So of all calls by engines that hold the same version of a run at most one is
ever committed. -/
theorem commits_at_most_once (registry : Registry) :
    (∀ (ctx : Context) (m : Memory) (e : Engine) (raw : Option String), e.Stale m →
      ¬ Committed (e.runStep ctx raw m).1.1 ∧ SameTables m (e.runStep ctx raw m).2) ∧
    ∀ {w w' : World} {slot slot' : Nat} {e e' : Engine} {c c' : Call},
      Reachable registry w → w.engine? slot = some e → e.Commits (w.context registry) w.store c →
      Reaches registry (w.step registry (.call slot c)) w' → w'.engine? slot' = some e' →
      e'.run.record.id = e.run.record.id → e'.run.record.version = e.run.record.version →
        ¬ e'.Commits (w'.context registry) w'.store c' := by
  constructor
  · intro ctx m e raw hstale
    obtain ⟨hrefused, hgrows⟩ := run_stale (StagesOnly.callStep ctx raw) hstale
    exact ⟨hrefused, hgrows.tables⟩
  · intro w w' slot slot' e e' c c' hw he hcommits hreaches he' hid hversion
    have hsound := hw.sound
    obtain ⟨r, hr, hlt⟩ := hcommits.version hsound he
    obtain ⟨r', hr', hle⟩ := hreaches.version_le (hsound.step _) hr
    have hstale : e'.Stale w'.store := Engine.stale_of_lt (hid ▸ hr') (by omega)
    exact hstale.not_commits c'

/-- Two engines on one new run: the first one enters the first step, and then the second one takes
its seat there with the version from before. -/
theorem commits_at_most_once_reception :
    ∃ (w' : World) (e e' : Engine), (Reception.world 2).engine? 0 = some e ∧
      e.Commits ((Reception.world 2).context .builtins) (Reception.world 2).store .prepare ∧
      w' = ((Reception.world 2).step .builtins (.call 0 .prepare)).step .builtins (.call 1 .prepare) ∧
      w'.engine? 1 = some e' ∧ e'.position.isSome = true ∧
      ¬ Committed (e'.runStep (w'.context .builtins) none w'.store).1.1 ∧
      ¬ e'.Commits (w'.context .builtins) w'.store (.run none) := by
  let w := Reception.world 2
  let w' := (w.step .builtins (.call 0 .prepare)).step .builtins (.call 1 .prepare)
  obtain ⟨e', he', hplaced, hversion⟩ : ∃ e', w'.engine? 1 = some e' ∧ e'.position.isSome = true ∧
      e'.run.record.id = 1 ∧ e'.run.record.version = 0 := ⟨_, rfl, rfl, rfl, rfl⟩
  have hcommits : (firstEngine Reception.flow Reception.desk).Commits (w.context .builtins) w.store
      .prepare := by
    intro hsame
    have hruns := congrArg (fun runs => (runs.get? 1).map (·.version)) hsame.runs
    exact absurd hruns (by decide)
  have hstale : e'.Stale w'.store := by
    intro u hu
    have hu : w'.store.runs.get? 1 = some u := hversion.1 ▸ hu
    have hone : (w'.store.runs.get? 1).map (·.version) = some 1 := rfl
    rw [hu] at hone
    have hone : u.version = 1 := Option.some.inj hone
    omega
  refine ⟨w', _, e', rfl, hcommits, rfl, he', hplaced, ?_, ?_⟩
  · exact ((commits_at_most_once .builtins).1 _ _ _ none hstale).1
  · exact (commits_at_most_once .builtins).2 (Reception.reachable_world 2) rfl hcommits
      (.step (.call 1 .prepare) .refl) he' hversion.1 hversion.2

end World
end CallFlow
