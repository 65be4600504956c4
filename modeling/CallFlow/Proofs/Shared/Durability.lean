import CallFlow.Proofs.Shared.Sound
import CallFlow.Proofs.Store.History
import Mathlib.Data.List.Nodup

/-! # Commits are all or nothing

Only a commit changes what queries answer, and only if it is not refused. It then shows everything
that the client was answered while it staged. Later commits do not take any of it back, since ids
are never given out twice and no write can take the id of a row that is there.
-/
namespace CallFlow
open Memory

/-- The store shows what the client was answered while it staged. A position has a mark if the
client set one, and a run is as the last update left it. -/
structure Transaction.Shown (t : Transaction) (m : Memory) : Prop where
  stepRuns : ∀ {s}, .stepRun s ∈ t.receipts → m.stepRuns.get? s.id = some s
  attempts : ∀ {a}, .attempt a ∈ t.receipts → m.attempts.get? a.id = some a
  positions : ∀ {p}, .position p ∈ t.receipts → m.positions.get? p.id =
    some { p with branchedOnError := decide (.mark p.id ∈ t.receipts) }
  marks : ∀ {id}, .mark id ∈ t.receipts →
    ∃ p, m.positions.get? id = some p ∧ p.branchedOnError = true
  updated : ∀ {pre post given answer clock},
    t.receipts = pre ++ .version given answer clock :: post →
    (∀ later ∈ post, later.updates given.id = false) →
    m.runs.get? given.id = some { given with version := answer, updatedAt := clock }
  inserted : ∀ {r}, .run r ∈ t.receipts → (∀ other ∈ t.receipts, other.updates r.id = false) →
    m.runs.get? r.id = some r

namespace Transaction
variable {m : Memory} {t : Transaction}

theorem Sound.mark_mem (h : t.Sound m) {id : Int} :
    .markBranched id ∈ t.snapshot.writes ↔ .mark id ∈ t.receipts := by
  rw [h.writes, List.mem_map]
  constructor
  · rintro ⟨receipt, hmem, hwrite⟩
    cases receipt <;> cases hwrite
    exact hmem
  · exact fun hmem => ⟨_, hmem, rfl⟩

theorem Sound.run (h : t.Sound m) (hadmits : m.Admits t.snapshot.writes)
    {pre post : List Receipt} {receipt : Receipt} (hsplit : t.receipts = pre ++ receipt :: post)
    {id : Int} {r : RunRecord} (hr : receipt.write.row? id = some r)
    (hpost : ∀ later ∈ post, later.updates id = false) :
    (t.snapshot.writes.foldl applyWrite m).runs.get? id = some r := by
  rw [h.writes_split hsplit] at hadmits ⊢
  apply hadmits.run hr
  intro w hw
  obtain ⟨later, hlater, rfl⟩ := List.mem_map.mp hw
  rw [Receipt.write_updates]
  exact hpost later hlater

/-- Writes that were applied show. -/
theorem Sound.shown (h : t.Sound m) (hadmits : m.Admits t.snapshot.writes) :
    t.Shown (t.snapshot.writes.foldl applyWrite m) := by
  have hmem {receipt : Receipt} (hr : receipt ∈ t.receipts) : receipt.write ∈ t.snapshot.writes := by
    rw [h.writes]
    exact List.mem_map_of_mem hr
  constructor
  · exact fun hs => hadmits.stepRun (hmem hs)
  · exact fun ha => hadmits.attempt (hmem ha)
  · intro p hp
    rw [hadmits.position (hmem hp)]
    simp only [h.mark_mem]
  · exact fun hid => hadmits.mark (hmem hid)
  · intro pre post given answer clock hsplit hpost
    exact h.run hadmits hsplit (if_pos rfl) hpost
  · intro r hr hnone
    obtain ⟨pre, post, hsplit⟩ := List.append_of_mem hr
    apply h.run hadmits hsplit (if_pos rfl)
    intro later hlater
    apply hnone
    rw [hsplit]
    exact List.mem_append_right _ (List.mem_cons_of_mem _ hlater)

end Transaction

namespace SharedStore
variable {x y : SharedStore} {slot : Nat} {t : Transaction}

/-! ## What an action leaves of the tables -/

theorem step_sameTables {a : Action} (h : ∀ slot, a ≠ .commit slot) :
    SameTables x.store (x.step a).store := by
  cases a with
  | tick | start => exact ⟨rfl, rfl, rfl, rfl⟩
  | stage slot request =>
    simp only [step]
    cases x.pending? slot with
    | none => exact .refl _
    | some t =>
      rcases request.stage_cases t.snapshot x.store with ⟨failure, hrun⟩ | ⟨receipt, -, hrun⟩
      · simp only [hrun]
        exact .refl _
      · simp only [hrun]
        exact sameTables_billed x.store receipt
  | alterAttempt slot =>
    simp only [step]
    cases x.pending? slot <;> exact .refl _
  | commit slot => exact absurd rfl (h slot)
  | abort slot =>
    simp only [step]
    cases x.pending? slot <;> exact .refl _

/-- A commit applies all writes of the snapshot, or it is refused and leaves the store as it is. -/
theorem step_commit (ht : x.pending? slot = some t) :
    (x.store.checkWrites .empty t.snapshot.writes = .ok () ∧
      ((Backend.commit (σ := Memory) t.snapshot).run x.store).1 = .ok () ∧
      (x.step (.commit slot)).store = t.snapshot.writes.foldl applyWrite x.store) ∨
    ∃ failure, x.store.checkWrites .empty t.snapshot.writes = .error failure ∧
      (Backend.commit (σ := Memory) t.snapshot).run x.store = (.error failure, x.store) ∧
      (x.step (.commit slot)).store = x.store := by
  simp only [step, ht]
  rcases commit_cases t.snapshot x.store with ⟨hchecked, hrun⟩ | ⟨failure, hchecked, hrun⟩
  · exact .inl ⟨hchecked, by rw [hrun], by rw [hrun]⟩
  · exact .inr ⟨failure, hchecked, hrun, by rw [hrun]⟩

theorem Sound.retains (h : x.Sound) (hmoves : x.Moves y) : x.store.Retains y.store := by
  cases hmoves with
  | still | start | close => exact .refl _
  | tick clock =>
    have hsame : SameTables x.store { x.store with clock } := ⟨rfl, rfl, rfl, rfl⟩
    exact hsame.retains
  | @stage slot t receipt => exact (sameTables_billed x.store receipt).retains
  | commit pending checked =>
    obtain ⟨ht, hp⟩ := pending?_eq_some.mp pending
    exact ((h.transactions ht).admits hp checked).retains

theorem Sound.retains_after (h : x.Sound) (actions : List Action) :
    x.store.Retains (x.after actions).store :=
  h.keeps (motive := fun y => x.store.Retains y.store) (.refl _)
    (fun hy hmoves hkept => hkept.trans (hy.retains hmoves)) actions

/-- No id was given out twice. -/
theorem Sound.ids_nodup (h : x.Sound) : (x.transactions.flatMap (·.ids)).Nodup := by
  refine List.nodup_flatMap.mpr ⟨?_, List.pairwise_iff_getElem.mpr ?_⟩
  · intro t ht
    obtain ⟨slot, hslot⟩ := List.mem_iff_getElem?.mp ht
    exact (h.transactions hslot).once
  · intro i j hi hj hlt id hid hid'
    have hsame := h.apart (List.getElem?_eq_getElem hi) (List.getElem?_eq_getElem hj) hid hid'
    omega

/-- Only a commit that is not refused changes the answers of the store, which then shows all that
was staged. No later action drops or changes these rows, but for marks, and no id is given out
twice. -/
theorem commit_all_or_nothing (h : x.Reachable) :
    (∀ {a}, (∀ slot, a ≠ .commit slot) → ∀ {α : Type} {q : StoreM Memory α}, Query q →
      (q.run (x.step a).store).1 = (q.run x.store).1) ∧
    (∀ {slot t failure}, x.pending? slot = some t →
      ((Backend.commit (σ := Memory) t.snapshot).run x.store).1 = .error failure →
      SameTables x.store (x.step (.commit slot)).store) ∧
    (∀ {slot t}, x.pending? slot = some t →
      ((Backend.commit (σ := Memory) t.snapshot).run x.store).1 = .ok () →
      t.Shown (x.step (.commit slot)).store) ∧
    (∀ actions, x.store.Retains (x.after actions).store) ∧
    (x.transactions.flatMap (·.ids)).Nodup := by
  refine ⟨?_, ?_, ?_, h.sound.retains_after, h.sound.ids_nodup⟩
  · intro a ha α q hq
    exact (step_sameTables ha).answers hq
  · intro slot t failure ht hcommit
    rcases step_commit ht with ⟨-, hok, -⟩ | ⟨_, -, -, hstore⟩
    · rw [hok] at hcommit
      cases hcommit
    · rw [hstore]
      exact .refl _
  · intro slot t ht hcommit
    rcases step_commit ht with ⟨hchecked, -, hstore⟩ | ⟨failure, -, hrefused, -⟩
    · obtain ⟨hslot, hp⟩ := pending?_eq_some.mp ht
      have hsound := h.sound.transactions hslot
      rw [hstore]
      exact hsound.shown (hsound.admits hp hchecked)
    · rw [hrefused] at hcommit
      cases hcommit

/-- The first rival is committed, and its marked position stays when the second one is refused.
Had the second one been aborted, the history would be the same. -/
theorem commit_all_or_nothing_rivals : ∃ t u : Transaction, ∃ p : PositionRecord,
    Rivals.staged.pending? 1 = some t ∧
    ((Backend.commit (σ := Memory) t.snapshot).run Rivals.staged.store).1 = .ok () ∧
    t.Shown Rivals.settled.store ∧
    Rivals.settled.pending? 2 = some u ∧
    ((Backend.commit (σ := Memory) u.snapshot).run Rivals.settled.store).1 =
      .error (.concurrentConflict 1 0) ∧
    SameTables Rivals.settled.store Rivals.closed.store ∧
    Rivals.settled.store.positions.get? 4 = some p ∧ p.branchedOnError = true ∧
    Rivals.closed.store.positions.get? 4 = some p ∧
    ((Backend.history (σ := Memory) 1).run (Rivals.settled.step (.abort 2)).store).1 =
      ((Backend.history (σ := Memory) 1).run Rivals.settled.store).1 ∧
    (Rivals.closed.transactions.flatMap (·.ids)).Nodup := by
  obtain ⟨t, ht, hcommit⟩ : ∃ t, Rivals.staged.pending? 1 = some t ∧
      ((Backend.commit (σ := Memory) t.snapshot).run Rivals.staged.store).1 = .ok () :=
    ⟨_, rfl, rfl⟩
  obtain ⟨u, hu, hrefused⟩ : ∃ u, Rivals.settled.pending? 2 = some u ∧
      ((Backend.commit (σ := Memory) u.snapshot).run Rivals.settled.store).1 =
        .error (.concurrentConflict 1 0) := ⟨_, rfl, rfl⟩
  obtain ⟨p, hp, hmark⟩ : ∃ p, Rivals.settled.store.positions.get? 4 = some p ∧
      p.branchedOnError = true := ⟨_, rfl, rfl⟩
  have hstaged := commit_all_or_nothing Rivals.reachable_staged
  have hsettled := commit_all_or_nothing Rivals.reachable_settled
  have hclosed := commit_all_or_nothing Rivals.reachable_closed
  obtain ⟨p', hp', hbecomes⟩ := (hsettled.2.2.2.1 [.commit 2]).positions hp
  have hsame : p' = p := by
    cases hbecomes with
    | kept => rfl
    | marked => rw [← hmark]
  refine ⟨t, u, p, ht, hcommit, hstaged.2.2.1 ht hcommit, hu, hrefused, hsettled.2.1 hu hrefused,
    hp, hmark, hsame ▸ hp', ?_, hclosed.2.2.2.2⟩
  exact hsettled.1 (fun _ h => by cases h) (.history 1)

end SharedStore
end CallFlow
