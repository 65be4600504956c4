import CallFlow.Proofs.Store.Written

/-! # Writes that a store can take

A write fits a store when it refers to rows that are there, puts a new row only under an id that
no table has, and continues the version of the run that it updates. Such writes keep references
whole, drop no row and show afterwards. Writes that were staged under new ids fit as soon as they
pass the checks of a commit, whatever was committed since they were staged.
-/
namespace CallFlow

inductive PositionRecord.Becomes (p : PositionRecord) : PositionRecord → Prop
  | kept : p.Becomes p
  | marked : p.Becomes { p with branchedOnError := true }

namespace PositionRecord.Becomes
variable {p q r : PositionRecord}

theorem same (h : p.Becomes q) :
    q.id = p.id ∧ q.run = p.run ∧ q.stepRun = p.stepRun ∧ q.order = p.order := by
  cases h <;> exact ⟨rfl, rfl, rfl, rfl⟩

theorem trans (h : p.Becomes q) (h' : q.Becomes r) : p.Becomes r := by
  cases h with
  | kept => exact h'
  | marked => cases h' <;> exact .marked

end PositionRecord.Becomes

namespace Write

def id? : Write → Option Int
  | insertRun r => some r.id
  | insertStepRun s => some s.id
  | insertAttempt a => some a.id
  | insertPosition p => some p.id
  | updateRun _ | markBranched _ => none

def updates (id : Int) : Write → Bool
  | updateRun r => r.id = id
  | _ => false

theorem row?_id {id : Int} {w : Write} {r : RunRecord} (h : w.row? id = some r) : r.id = id := by
  cases w with
  | insertRun u | updateRun u =>
    simp only [row?] at h
    split at h <;> cases h
    assumption
  | _ => cases h

theorem stepRun?_eq_some {id : Int} {w : Write} {s : StepRunRecord} (h : w.stepRun? id = some s) :
    w = .insertStepRun s ∧ s.id = id := by
  cases w with
  | insertStepRun t =>
    simp only [stepRun?] at h
    split at h <;> cases h
    exact ⟨rfl, ‹_›⟩
  | _ => cases h

theorem attempt?_eq_some {id : Int} {w : Write} {a : AttemptRecord} (h : w.attempt? id = some a) :
    w = .insertAttempt a ∧ a.id = id := by
  cases w with
  | insertAttempt b =>
    simp only [attempt?] at h
    split at h <;> cases h
    exact ⟨rfl, ‹_›⟩
  | _ => cases h

end Write

namespace Memory

structure Fresh (m : Memory) (id : Int) : Prop where
  runs : m.runs.get? id = none
  stepRuns : m.stepRuns.get? id = none
  attempts : m.attempts.get? id = none
  positions : m.positions.get? id = none

/-- Rows are kept under their own ids, references lead to rows, and no two positions of a run have
the same order. -/
structure Linked (m : Memory) : Prop where
  runs : ∀ {id r}, m.runs.get? id = some r → r.id = id
  stepRuns : ∀ {id s}, m.stepRuns.get? id = some s →
    s.id = id ∧ ∃ r, m.runs.get? s.run = some r
  attempts : ∀ {id a}, m.attempts.get? id = some a →
    a.id = id ∧ ∃ s, m.stepRuns.get? a.stepRun = some s
  positions : ∀ {id p}, m.positions.get? id = some p →
    p.id = id ∧ ∃ s, m.stepRuns.get? p.stepRun = some s
  orders : ∀ {i j p q}, m.positions.get? i = some p → m.positions.get? j = some q →
    p.run = q.run → p.order = q.order → i = j

/-- No row was dropped, and none was changed but for the rows of runs and the marks. -/
structure Retains (m m' : Memory) : Prop where
  runs : ∀ {id r}, m.runs.get? id = some r → ∃ r', m'.runs.get? id = some r'
  stepRuns : ∀ {id s}, m.stepRuns.get? id = some s → m'.stepRuns.get? id = some s
  attempts : ∀ {id a}, m.attempts.get? id = some a → m'.attempts.get? id = some a
  positions : ∀ {id p}, m.positions.get? id = some p →
    ∃ p', m'.positions.get? id = some p' ∧ p.Becomes p'

end Memory

inductive Write.Fits (m : Memory) : Write → Prop
  | insertRun {r} (fresh : m.Fresh r.id) (version : r.version = 0) : Fits m (.insertRun r)
  | updateRun {r c} (known : m.runs.get? r.id = some c) (version : r.version = c.version + 1) :
      Fits m (.updateRun r)
  | insertStepRun {s r} (fresh : m.Fresh s.id) (known : m.runs.get? s.run = some r) :
      Fits m (.insertStepRun s)
  | insertAttempt {a s} (fresh : m.Fresh a.id) (known : m.stepRuns.get? a.stepRun = some s) :
      Fits m (.insertAttempt a)
  | insertPosition {p s} (fresh : m.Fresh p.id) (known : m.stepRuns.get? p.stepRun = some s)
      (order : m.hasOrder p.run p.order = false) (unmarked : p.branchedOnError = false) :
      Fits m (.insertPosition p)
  | markBranched {id p} (known : m.positions.get? id = some p) : Fits m (.markBranched id)

def Write.Spares (m : Memory) : Write → Prop
  | insertRun r => m.runs.get? r.id = none
  | insertStepRun s => m.stepRuns.get? s.id = none
  | insertAttempt a => m.attempts.get? a.id = none
  | insertPosition p => m.positions.get? p.id = none
  | updateRun _ | markBranched _ => True

theorem Write.Fits.spares {m : Memory} {w : Write} (h : w.Fits m) : w.Spares m := by
  cases h with
  | insertRun fresh => exact fresh.runs
  | insertStepRun fresh => exact fresh.stepRuns
  | insertAttempt fresh => exact fresh.attempts
  | insertPosition fresh => exact fresh.positions
  | updateRun | markBranched => trivial

namespace Memory
variable {m m' : Memory} {w : Write} {ws : List Write}

theorem linked_empty : empty.Linked := by
  constructor <;> intro id <;> intros <;> simp_all [empty]

theorem fresh_empty (id : Int) : empty.Fresh id := ⟨rfl, rfl, rfl, rfl⟩

theorem Retains.refl (m : Memory) : m.Retains m :=
  ⟨fun hr => ⟨_, hr⟩, id, id, fun hp => ⟨_, hp, .kept⟩⟩

theorem SameTables.retains (h : SameTables m m') : m.Retains m' :=
  ⟨fun hr => ⟨_, h.runs ▸ hr⟩, fun hs => h.stepRuns ▸ hs, fun ha => h.attempts ▸ ha,
    fun hp => ⟨_, h.positions ▸ hp, .kept⟩⟩

theorem SameTables.fresh (h : SameTables m m') {id : Int} (hid : m.Fresh id) : m'.Fresh id :=
  ⟨h.runs ▸ hid.runs, h.stepRuns ▸ hid.stepRuns, h.attempts ▸ hid.attempts,
    h.positions ▸ hid.positions⟩

theorem SameTables.linked (h : SameTables m m') (hm : m.Linked) : m'.Linked := by
  constructor
  · exact fun hr => hm.runs (h.runs ▸ hr)
  · exact fun hs => h.runs ▸ hm.stepRuns (h.stepRuns ▸ hs)
  · exact fun ha => h.stepRuns ▸ hm.attempts (h.attempts ▸ ha)
  · exact fun hp => h.stepRuns ▸ hm.positions (h.positions ▸ hp)
  · exact fun hp hq => hm.orders (h.positions ▸ hp) (h.positions ▸ hq)

theorem Retains.trans {m₁ m₂ m₃ : Memory} (h : m₁.Retains m₂) (h' : m₂.Retains m₃) :
    m₁.Retains m₃ := by
  constructor
  · intro id r hr
    obtain ⟨r', hr'⟩ := h.runs hr
    exact h'.runs hr'
  · exact fun hs => h'.stepRuns (h.stepRuns hs)
  · exact fun ha => h'.attempts (h.attempts ha)
  · intro id p hp
    obtain ⟨p', hp', hbecomes⟩ := h.positions hp
    obtain ⟨p'', hp'', hbecomes'⟩ := h'.positions hp'
    exact ⟨p'', hp'', hbecomes.trans hbecomes'⟩

/-! ## One write -/

theorem position_applyWrite {id : Int} {p : PositionRecord}
    (h : (m.applyWrite w).positions.get? id = some p) :
    w = .insertPosition p ∧ p.id = id ∨ ∃ q, m.positions.get? id = some q ∧ q.Becomes p := by
  cases w with
  | insertPosition q =>
    rw [insertPosition_get?] at h
    split at h
    · cases h
      exact .inl ⟨rfl, .symm ‹_›⟩
    · exact .inr ⟨p, h, .kept⟩
  | markBranched i =>
    rw [markBranched_get?] at h
    obtain ⟨q, hq, rfl⟩ := Option.map_eq_some_iff.mp h
    refine .inr ⟨q, hq, ?_⟩
    split
    · exact .marked
    · exact .kept
  | insertRun | updateRun | insertStepRun | insertAttempt => exact .inr ⟨p, h, .kept⟩

theorem retains_applyWrite (hw : w.Spares m) : m.Retains (m.applyWrite w) := by
  constructor
  · intro id r hr
    rw [applyWrite_runs, hr]
    cases w.row? id <;> exact ⟨_, rfl⟩
  · intro id s hs
    have hnone : w.stepRun? id = none := by
      apply Option.eq_none_iff_forall_ne_some.mpr
      intro t ht
      obtain ⟨rfl, rfl⟩ := Write.stepRun?_eq_some ht
      have hfree : m.stepRuns.get? t.id = none := hw
      cases hfree.symm.trans hs
    rw [applyWrite_stepRuns, hnone, hs, Option.none_or]
  · intro id a ha
    have hnone : w.attempt? id = none := by
      apply Option.eq_none_iff_forall_ne_some.mpr
      intro b hb
      obtain ⟨rfl, rfl⟩ := Write.attempt?_eq_some hb
      have hfree : m.attempts.get? b.id = none := hw
      cases hfree.symm.trans ha
    rw [applyWrite_attempts, hnone, ha, Option.none_or]
  · intro id p hp
    cases w with
    | insertPosition q =>
      rw [insertPosition_get?]
      split
      · subst id
        have hfree : m.positions.get? q.id = none := hw
        cases hfree.symm.trans hp
      · exact ⟨p, hp, .kept⟩
    | markBranched i =>
      rw [markBranched_get?, hp]
      refine ⟨_, rfl, ?_⟩
      split
      · exact .marked
      · exact .kept
    | insertRun | updateRun | insertStepRun | insertAttempt => exact ⟨p, hp, .kept⟩

theorem Linked.applyWrite (h : m.Linked) (hw : w.Fits m) : (m.applyWrite w).Linked := by
  have hkept := retains_applyWrite hw.spares
  constructor
  · intro id r hr
    rw [applyWrite_runs] at hr
    rcases Option.or_eq_some_iff.mp hr with hr | ⟨-, hr⟩
    · exact Write.row?_id hr
    · exact h.runs hr
  · intro id s hs
    rw [applyWrite_stepRuns] at hs
    rcases Option.or_eq_some_iff.mp hs with hs | ⟨-, hs⟩
    · obtain ⟨rfl, hid⟩ := Write.stepRun?_eq_some hs
      cases hw with
      | insertStepRun _ known => exact ⟨hid, hkept.runs known⟩
    · obtain ⟨hid, r, hr⟩ := h.stepRuns hs
      exact ⟨hid, hkept.runs hr⟩
  · intro id a ha
    rw [applyWrite_attempts] at ha
    rcases Option.or_eq_some_iff.mp ha with ha | ⟨-, ha⟩
    · obtain ⟨rfl, hid⟩ := Write.attempt?_eq_some ha
      cases hw with
      | insertAttempt _ known => exact ⟨hid, _, hkept.stepRuns known⟩
    · obtain ⟨hid, s, hs⟩ := h.attempts ha
      exact ⟨hid, s, hkept.stepRuns hs⟩
  · intro id p hp
    rcases position_applyWrite hp with ⟨rfl, hid⟩ | ⟨q, hq, hbecomes⟩
    · cases hw with
      | insertPosition _ known => exact ⟨hid, _, hkept.stepRuns known⟩
    · obtain ⟨hid, s, hs⟩ := h.positions hq
      obtain ⟨hqid, -, hstep, -⟩ := hbecomes.same
      exact ⟨hqid.trans hid, s, hkept.stepRuns (hstep ▸ hs)⟩
  · intro i j p q hp hq hrun horder
    -- A position that was there before does not have the run and order of an inserted one.
    have hapart {p q k} (hw : (Write.insertPosition p).Fits m) (hq : m.positions.get? k = some q)
        (hrun : q.run = p.run) (horder : q.order = p.order) : False := by
      cases hw with
      | insertPosition _ _ order =>
        rw [hasOrder_iff.mpr ⟨k, q, hq, hrun, horder⟩] at order
        cases order
    rcases position_applyWrite hp with ⟨rfl, hi⟩ | ⟨p', hp', hbecomes⟩ <;>
      rcases position_applyWrite hq with ⟨hsame, hj⟩ | ⟨q', hq', hbecomes'⟩
    · cases hsame
      exact hi.symm.trans hj
    · obtain ⟨-, hrun', -, horder'⟩ := hbecomes'.same
      exact (hapart hw hq' (hrun'.symm.trans hrun.symm) (horder'.symm.trans horder.symm)).elim
    · subst hsame
      obtain ⟨-, hrun', -, horder'⟩ := hbecomes.same
      exact (hapart hw hp' (hrun'.symm.trans hrun) (horder'.symm.trans horder)).elim
    · obtain ⟨-, hrun₁, -, horder₁⟩ := hbecomes.same
      obtain ⟨-, hrun₂, -, horder₂⟩ := hbecomes'.same
      exact h.orders hp' hq' (by rw [← hrun₁, hrun, hrun₂]) (by rw [← horder₁, horder, horder₂])

theorem Fresh.applyWrite {id : Int} (h : m.Fresh id) (hw : w.Fits m) (hid : w.id? ≠ some id) :
    (m.applyWrite w).Fresh id := by
  have hne {i : Int} (hi : w.id? = some i) : i ≠ id := fun heq => hid (heq ▸ hi)
  constructor
  · rw [applyWrite_runs, h.runs, Option.or_none]
    cases hw with
    | insertRun => simpa [Write.row?] using hne rfl
    | @updateRun r c known =>
      have hother : r.id ≠ id := by
        rintro rfl
        cases h.runs.symm.trans known
      simpa [Write.row?] using hother
    | insertStepRun | insertAttempt | insertPosition | markBranched => rfl
  · rw [applyWrite_stepRuns, h.stepRuns, Option.or_none]
    cases hw with
    | insertStepRun => simpa [Write.stepRun?] using hne rfl
    | insertRun | updateRun | insertAttempt | insertPosition | markBranched => rfl
  · rw [applyWrite_attempts, h.attempts, Option.or_none]
    cases hw with
    | insertAttempt => simpa [Write.attempt?] using hne rfl
    | insertRun | updateRun | insertStepRun | insertPosition | markBranched => rfl
  · apply Option.eq_none_iff_forall_ne_some.mpr
    intro p hp
    rcases position_applyWrite hp with ⟨rfl, rfl⟩ | ⟨q, hq, -⟩
    · exact hid rfl
    · cases h.positions.symm.trans hq

/-- Only an update raises the version of a run, and by one. -/
theorem versionOf_applyWrite (hw : w.Fits m) (id : Int) :
    (m.applyWrite w).versionOf id = m.versionOf id + if w.updates id then 1 else 0 := by
  simp only [versionOf, applyWrite_runs]
  cases hw with
  | @insertRun r fresh version =>
    by_cases hid : r.id = id
    · subst hid
      simp [Write.row?, Write.updates, fresh.runs, version]
    · simp [Write.row?, Write.updates, hid]
  | @updateRun r c known version =>
    by_cases hid : r.id = id
    · subst hid
      simp [Write.row?, Write.updates, known, version]
    · simp [Write.row?, Write.updates, hid]
  | insertStepRun | insertAttempt | insertPosition | markBranched =>
    simp [Write.row?, Write.updates]

theorem row_applyWrite {id : Int} {r : RunRecord} (hw : w.Fits m) (hr : m.runs.get? id = some r)
    (hu : w.updates id = false) : (m.applyWrite w).runs.get? id = some r := by
  have hnone : w.row? id = none := by
    cases hw with
    | @insertRun u fresh =>
      have hne : u.id ≠ id := by
        rintro rfl
        cases fresh.runs.symm.trans hr
      simp [Write.row?, hne]
    | updateRun => simpa [Write.row?, Write.updates] using hu
    | insertStepRun | insertAttempt | insertPosition | markBranched => rfl
  rw [applyWrite_runs, hnone, hr, Option.none_or]

/-! ## Writes in a row -/

inductive Admits (m : Memory) : List Write → Prop
  | nil : m.Admits []
  | concat {ws : List Write} {w : Write} (h : m.Admits ws)
      (fits : w.Fits (ws.foldl applyWrite m)) : m.Admits (ws ++ [w])

namespace Admits
variable (h : m.Admits ws)
include h

/-- Each write fits the store that the writes before it lead to. -/
theorem split {pre post : List Write} (hws : ws = pre ++ w :: post) :
    m.Admits pre ∧ w.Fits (pre.foldl applyWrite m) := by
  induction h generalizing post with
  | nil => simp at hws
  | @concat ws v h fits ih =>
    rcases List.eq_nil_or_concat post with rfl | ⟨post, u, rfl⟩
    · obtain ⟨rfl, hv⟩ := List.append_inj' hws rfl
      cases hv
      exact ⟨h, fits⟩
    · rw [List.concat_eq_append, ← List.cons_append, ← List.append_assoc] at hws
      exact ih (List.append_inj' hws rfl).1

theorem retains : m.Retains (ws.foldl applyWrite m) := by
  induction h with
  | nil => exact .refl m
  | concat h fits ih =>
    rw [foldl_applyWrite_concat]
    exact ih.trans (retains_applyWrite fits.spares)

theorem linked (hm : m.Linked) : (ws.foldl applyWrite m).Linked := by
  induction h with
  | nil => exact hm
  | concat h fits ih =>
    rw [foldl_applyWrite_concat]
    exact ih.applyWrite fits

theorem fresh {id : Int} (hm : m.Fresh id) (hid : id ∉ ws.filterMap Write.id?) :
    (ws.foldl applyWrite m).Fresh id := by
  induction h with
  | nil => exact hm
  | concat h fits ih =>
    simp only [List.filterMap_append, List.mem_append, not_or] at hid
    rw [foldl_applyWrite_concat]
    refine (ih hid.1).applyWrite fits fun hw => hid.2 ?_
    simp [hw]

theorem versionOf (id : Int) :
    (ws.foldl applyWrite m).versionOf id = m.versionOf id + ws.countP (·.updates id) := by
  induction h with
  | nil => simp
  | @concat ws w h fits ih =>
    rw [foldl_applyWrite_concat, versionOf_applyWrite fits, ih, List.countP_append,
      List.countP_singleton]
    split <;> omega

/-! What was inserted is there afterwards. -/

theorem stepRun {s : StepRunRecord} (hs : .insertStepRun s ∈ ws) :
    (ws.foldl applyWrite m).stepRuns.get? s.id = some s := by
  induction h with
  | nil => cases hs
  | concat h fits ih =>
    rw [foldl_applyWrite_concat]
    rcases List.mem_append.mp hs with hs | hs
    · exact (retains_applyWrite fits.spares).stepRuns (ih hs)
    · cases List.mem_singleton.mp hs
      exact Table.get?_insert_self _ _ _

theorem attempt {a : AttemptRecord} (ha : .insertAttempt a ∈ ws) :
    (ws.foldl applyWrite m).attempts.get? a.id = some a := by
  induction h with
  | nil => cases ha
  | concat h fits ih =>
    rw [foldl_applyWrite_concat]
    rcases List.mem_append.mp ha with ha | ha
    · exact (retains_applyWrite fits.spares).attempts (ih ha)
    · cases List.mem_singleton.mp ha
      exact Table.get?_insert_self _ _ _

theorem mark {id : Int} (hid : .markBranched id ∈ ws) :
    ∃ p, (ws.foldl applyWrite m).positions.get? id = some p ∧ p.branchedOnError = true := by
  induction h with
  | nil => cases hid
  | concat h fits ih =>
    rw [foldl_applyWrite_concat]
    rcases List.mem_append.mp hid with hid | hid
    · obtain ⟨p, hp, hmark⟩ := ih hid
      obtain ⟨p', hp', hbecomes⟩ := (retains_applyWrite fits.spares).positions hp
      refine ⟨p', hp', ?_⟩
      cases hbecomes with
      | kept => exact hmark
      | marked => rfl
    · cases List.mem_singleton.mp hid
      cases fits with
      | markBranched known => simp [markBranched_get?, known]

theorem position {p : PositionRecord} (hp : .insertPosition p ∈ ws) :
    (ws.foldl applyWrite m).positions.get? p.id =
      some { p with branchedOnError := decide (.markBranched p.id ∈ ws) } := by
  induction h with
  | nil => cases hp
  | @concat ws w h fits ih =>
    rw [foldl_applyWrite_concat]
    rcases List.mem_append.mp hp with hp | hp
    · have hold := ih hp
      cases fits with
      | @insertPosition q _ fresh =>
        have hne : p.id ≠ q.id := by
          intro heq
          rw [heq, fresh.positions] at hold
          cases hold
        simp [insertPosition_get?, hne, hold]
      | @markBranched i =>
        rw [markBranched_get?, hold]
        by_cases hi : p.id = i <;> simp [hi]
      | insertRun | updateRun | insertStepRun | insertAttempt =>
        rw [applyWrite_positions (by simp) (by simp), hold]
        simp
    · cases List.mem_singleton.mp hp
      cases fits with
      | insertPosition fresh _ _ unmarked =>
        have hnone : .markBranched p.id ∉ ws := by
          intro hmarked
          obtain ⟨q, hq, -⟩ := h.mark hmarked
          cases fresh.positions.symm.trans hq
        simp [insertPosition_get?, hnone, ← unmarked]

end Admits

theorem Admits.run {pre post : List Write} (h : m.Admits (pre ++ w :: post)) {id : Int} {r : RunRecord}
    (hr : w.row? id = some r) (hpost : ∀ v ∈ post, v.updates id = false) :
    ((pre ++ w :: post).foldl applyWrite m).runs.get? id = some r := by
  induction post using List.reverseRecOn with
  | nil => rw [foldl_applyWrite_concat, applyWrite_runs, hr, Option.some_or]
  | append_singleton post v ih =>
    have hsplit : pre ++ w :: (post ++ [v]) = (pre ++ w :: post) ++ v :: [] := by simp
    obtain ⟨hbefore, hfits⟩ := h.split hsplit
    rw [hsplit, foldl_applyWrite_concat]
    exact row_applyWrite hfits
      (ih hbefore fun u hu => hpost u (List.mem_append_left _ hu)) (hpost v (by simp))

/-! ## Staged writes -/

/-- What was established when a write was staged after others, and stays as long as no row is
dropped. -/
inductive Backed (m : Memory) (before : List Write) : Write → Prop
  | insertRun {r} (version : r.version = 0) : m.Backed before (.insertRun r)
  | updateRun {r} : m.Backed before (.updateRun r)
  | insertStepRun {s} (known : m.knowsRun ⟨before⟩ s.run = true) :
      m.Backed before (.insertStepRun s)
  | insertAttempt {a} (known : m.knowsStepRun ⟨before⟩ a.stepRun = true) :
      m.Backed before (.insertAttempt a)
  | insertPosition {p} (known : m.knowsStepRun ⟨before⟩ p.stepRun = true)
      (order : (⟨before⟩ : Snapshot).hasOrder p.run p.order = false)
      (unmarked : p.branchedOnError = false) : m.Backed before (.insertPosition p)
  | markBranched {id} : m.Backed before (.markBranched id)

inductive Backs (m : Memory) : List Write → Prop
  | nil : m.Backs []
  | concat {ws : List Write} {w : Write} (h : m.Backs ws) (backed : m.Backed ws w) :
      m.Backs (ws ++ [w])

theorem Retains.knowsRun (h : m.Retains m') {s : Snapshot} {id : Int}
    (hid : m.knowsRun s id = true) : m'.knowsRun s id = true := by
  simp only [Memory.knowsRun, Bool.or_eq_true] at hid ⊢
  refine hid.imp_right fun hid => ?_
  obtain ⟨r, hr⟩ := Table.exists_get?_of_contains hid
  obtain ⟨r', hr'⟩ := h.runs hr
  exact Table.contains_of_get? hr'

theorem Retains.knowsStepRun (h : m.Retains m') {s : Snapshot} {id : Int}
    (hid : m.knowsStepRun s id = true) : m'.knowsStepRun s id = true := by
  simp only [Memory.knowsStepRun, Bool.or_eq_true] at hid ⊢
  refine hid.imp_right fun hid => ?_
  obtain ⟨t, ht⟩ := Table.exists_get?_of_contains hid
  exact Table.contains_of_get? (h.stepRuns ht)

theorem Backs.retains (h : m.Backs ws) (hk : m.Retains m') : m'.Backs ws := by
  induction h with
  | nil => exact .nil
  | concat _ backed ih =>
    refine .concat ih ?_
    cases backed with
    | insertRun version => exact .insertRun version
    | updateRun => exact .updateRun
    | insertStepRun known => exact .insertStepRun (hk.knowsRun known)
    | insertAttempt known => exact .insertAttempt (hk.knowsStepRun known)
    | insertPosition known order unmarked =>
      exact .insertPosition (hk.knowsStepRun known) order unmarked
    | markBranched => exact .markBranched

theorem hasOrder_foldl {run order : Int} (h : (ws.foldl applyWrite m).hasOrder run order = true) :
    (⟨ws⟩ : Snapshot).hasOrder run order = true ∨ m.hasOrder run order = true := by
  induction ws using List.reverseRecOn with
  | nil => exact .inr h
  | append_singleton ws w ih =>
    rw [foldl_applyWrite_concat] at h
    obtain ⟨id, p, hp, hrun, horder⟩ := hasOrder_iff.mp h
    simp only [Snapshot.hasOrder, List.any_append, Bool.or_eq_true] at ih ⊢
    rcases position_applyWrite hp with ⟨rfl, -⟩ | ⟨q, hq, hbecomes⟩
    · simp [hrun, horder]
    · obtain ⟨-, hrun', -, horder'⟩ := hbecomes.same
      have hold := ih (hasOrder_iff.mpr ⟨id, q, hq, hrun'.symm.trans hrun, horder'.symm.trans horder⟩)
      exact hold.imp_left .inl

/-- A staged write under a new id fits once it passes the check of a commit. -/
theorem Backed.fits (h : m.Backed ws w) (hcheck : m.checkWrite ⟨ws⟩ w = .ok ())
    (hnew : ∀ {id}, w.id? = some id → (ws.foldl applyWrite m).Fresh id) :
    w.Fits (ws.foldl applyWrite m) := by
  cases h with
  | insertRun version => exact .insertRun (hnew rfl) version
  | @updateRun r =>
    simp only [checkWrite, version?_eq] at hcheck
    cases hrow : (ws.foldl applyWrite m).runs.get? r.id with
    | none => simp [hrow] at hcheck
    | some c =>
      simp only [hrow, Option.map_some, ite_eq_left_iff, reduceCtorEq, imp_false,
        not_not] at hcheck
      exact .updateRun hrow hcheck.symm
  | insertStepRun known =>
    rw [knowsRun_eq] at known
    obtain ⟨r, hr⟩ := Option.isSome_iff_exists.mp known
    exact .insertStepRun (hnew rfl) hr
  | insertAttempt known =>
    rw [knowsStepRun_eq] at known
    obtain ⟨s, hs⟩ := Option.isSome_iff_exists.mp known
    exact .insertAttempt (hnew rfl) hs
  | @insertPosition p known order unmarked =>
    rw [knowsStepRun_eq] at known
    obtain ⟨s, hs⟩ := Option.isSome_iff_exists.mp known
    refine .insertPosition (hnew rfl) hs ?_ unmarked
    apply Bool.eq_false_iff.mpr
    intro htaken
    rcases hasOrder_foldl htaken with hstaged | hcommitted
    · rw [hstaged] at order
      cases order
    · simp [checkWrite, hcommitted] at hcheck
  | markBranched =>
    simp only [checkWrite, knowsPosition_eq, ite_eq_left_iff, reduceCtorEq, imp_false,
      not_not] at hcheck
    obtain ⟨p, hp⟩ := Option.isSome_iff_exists.mp hcheck
    exact .markBranched hp

/-- Staged writes that pass the checks of a commit are taken one after the other. -/
theorem Backs.admits (h : m.Backs ws) (hnodup : (ws.filterMap Write.id?).Nodup)
    (hfresh : ∀ id ∈ ws.filterMap Write.id?, m.Fresh id)
    (hchecks : m.checkWrites .empty ws = .ok ()) : m.Admits ws := by
  induction h with
  | nil => exact .nil
  | @concat ws w h backed ih =>
    rw [List.filterMap_append] at hnodup hfresh
    obtain ⟨hnodup, -, hdisjoint⟩ := List.nodup_append.mp hnodup
    obtain ⟨hchecks, hcheck⟩ := checkWrites_concat.mp hchecks
    have hadmits := ih hnodup (fun id hid => hfresh id (List.mem_append_left _ hid)) hchecks
    refine .concat hadmits (backed.fits hcheck fun {id} hid => ?_)
    have hmem : id ∈ [w].filterMap Write.id? := by simp [hid]
    exact hadmits.fresh (hfresh id (List.mem_append_right _ hmem)) fun hold =>
      hdisjoint id hold id hmem rfl

end Memory
end CallFlow
