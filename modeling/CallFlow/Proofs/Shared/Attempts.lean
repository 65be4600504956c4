import CallFlow.Proofs.Shared.Origin
import CallFlow.Proofs.World.Trail
import Mathlib.Data.List.Sort

/-! # Attempts are listed as they were staged

The id of an attempt is given out when the attempt is staged, and attempts are listed by id. So
snapshots that are open at the same time may commit their attempts in another order than the one in
which they are listed: an attempt that was staged early and committed late is put before the ones
that were seen already. Apart from that readers see a listing grow at its end, as they always do
where engines are the only clients.
-/
namespace CallFlow
open Memory

section Ordered
variable {α : Type} {r : α → α → Prop} [Std.Asymm r] {l l' : List α}

theorem sublist_of_subset_of_pairwise (h : l.Pairwise r) (h' : l'.Pairwise r) (hsub : l ⊆ l') :
    l.Sublist l' :=
  List.sublist_of_subperm_of_pairwise (List.subperm_of_subset h.nodup hsub) h h'

/-- A list in order begins with another one if all that is new comes later. -/
theorem prefix_iff_of_pairwise (h : l.Pairwise r) (h' : l'.Pairwise r) (hsub : l ⊆ l') :
    l <+: l' ↔ ∀ a ∈ l', a ∉ l → ∀ b ∈ l, r b a := by
  classical
  constructor
  · rintro ⟨rest, rfl⟩ a ha hnew b hb
    have hrest : a ∈ rest := (List.mem_append.mp ha).resolve_left hnew
    exact (List.pairwise_append.mp h').2.2 b hb a hrest
  · intro hlater
    let rest := l'.filter (· ∉ l)
    have hordered : (l ++ rest).Pairwise r := by
      refine List.pairwise_append.mpr ⟨h, h'.filter _, fun b hb a ha => ?_⟩
      obtain ⟨hmem, hnew⟩ := List.mem_filter.mp ha
      exact hlater a hmem (of_decide_eq_true hnew) b hb
    have hsame : l ++ rest = l' := hordered.eq_of_mem_iff h' fun a => by
      simp only [List.mem_append, rest, List.mem_filter, decide_eq_true_eq]
      by_cases ha : a ∈ l
      · simp [ha, hsub ha]
      · simp [ha]
    exact ⟨rest, hsame⟩

end Ordered

namespace Memory
variable {m m' : Memory}

theorem Linked.attemptsOf_ordered (h : m.Linked) (stepRun : Int) :
    (m.attemptsOf stepRun).Pairwise fun a b => a.id < b.id := by
  have hvalues : m.attempts.values.Pairwise fun a b => compare a.id b.id = .lt :=
    Table.values_ordered fun ha => (h.attempts ha).1
  exact (hvalues.imp fun hlt => Std.compare_eq_lt.mp hlt).filter _

theorem Linked.attempt_lt (h : m.Linked) (hahead : ∀ {id}, m.nextId ≤ id → m.Fresh id)
    {stepRun : Int} {a : AttemptRecord} (ha : a ∈ m.attemptsOf stepRun) : a.id < m.nextId := by
  obtain ⟨⟨key, hget⟩, -⟩ := mem_attemptsOf.mp ha
  rw [(h.attempts hget).1]
  apply Int.lt_of_not_ge
  intro hge
  rw [(hahead hge).attempts] at hget
  cases hget

theorem Retains.attemptsOf_subset (h : m.Retains m') (stepRun : Int) :
    m.attemptsOf stepRun ⊆ m'.attemptsOf stepRun := by
  intro a ha
  obtain ⟨⟨id, hget⟩, hof⟩ := mem_attemptsOf.mp ha
  exact mem_attemptsOf.mpr ⟨⟨id, h.attempts hget⟩, hof⟩

theorem Retains.attemptsOf_sublist (h : m.Retains m') (hm : m.Linked) (hm' : m'.Linked)
    (stepRun : Int) : (m.attemptsOf stepRun).Sublist (m'.attemptsOf stepRun) :=
  sublist_of_subset_of_pairwise (hm.attemptsOf_ordered stepRun) (hm'.attemptsOf_ordered stepRun)
    (h.attemptsOf_subset stepRun)

/-- Attempts after some writes are those from before and those that were inserted. -/
theorem Admits.mem_attemptsOf {ws : List Write} (h : m.Admits ws) {stepRun : Int}
    {a : AttemptRecord} :
    a ∈ (ws.foldl applyWrite m).attemptsOf stepRun ↔
      a ∈ m.attemptsOf stepRun ∨ .insertAttempt a ∈ ws ∧ a.stepRun = stepRun := by
  constructor
  · intro ha
    obtain ⟨⟨id, hget⟩, hof⟩ := Memory.mem_attemptsOf.mp ha
    rcases attempt_foldl_applyWrite hget with ⟨hmem, -⟩ | hold
    · exact .inr ⟨hmem, hof⟩
    · exact .inl (Memory.mem_attemptsOf.mpr ⟨⟨id, hold⟩, hof⟩)
  · rintro (hold | ⟨hmem, hof⟩)
    · exact h.retains.attemptsOf_subset stepRun hold
    · exact Memory.mem_attemptsOf.mpr ⟨⟨_, h.attempt hmem⟩, hof⟩

end Memory

namespace SharedStore
variable {x : SharedStore} {slot : Nat} {t : Transaction}

/-- An id is given out beyond all ids from before, and beyond all attempts that can be seen. -/
theorem Sound.id_last (h : x.Sound) {request : Request} {receipt : Receipt} {s s' : Snapshot}
    (hstage : ((request.stage s).run x.store).1 = .ok (receipt, s')) {id : Int}
    (hid : receipt.id? = some id) :
    (∀ u ∈ x.transactions, ∀ given ∈ u.ids, given < id) ∧
      ∀ stepRun, ∀ b ∈ x.store.attemptsOf stepRun, b.id < id := by
  have hnext : id = x.store.nextId := by
    rcases request.stage_cases s x.store with ⟨failure, hrun⟩ | ⟨other, hgrants, hrun⟩
    · rw [hrun] at hstage
      cases hstage
    · rw [hrun] at hstage
      cases hstage
      exact (hgrants.id_eq hid).1
  subst hnext
  constructor
  · intro u hu given hgiven
    obtain ⟨slot, hslot⟩ := List.mem_iff_getElem?.mp hu
    exact (h.transactions hslot).given hgiven
  · exact fun stepRun b hb => h.linked.attempt_lt h.ahead hb

/-- After a commit the listing has the attempts of the snapshot as well. It begins with what was
listed before if these have the higher ids. -/
theorem Sound.attemptsOf_commit (h : x.Sound) (ht : x.pending? slot = some t)
    (hcommit : ((Backend.commit (σ := Memory) t.snapshot).run x.store).1 = .ok ())
    (stepRun : Int) :
    (∀ a, a ∈ (x.step (.commit slot)).store.attemptsOf stepRun ↔
      a ∈ x.store.attemptsOf stepRun ∨ .attempt a ∈ t.receipts ∧ a.stepRun = stepRun) ∧
    (x.store.attemptsOf stepRun <+: (x.step (.commit slot)).store.attemptsOf stepRun ↔
      ∀ a, .attempt a ∈ t.receipts → a.stepRun = stepRun →
        ∀ b ∈ x.store.attemptsOf stepRun, b.id < a.id) := by
  obtain ⟨hslot, hp⟩ := pending?_eq_some.mp ht
  have hsound := h.transactions hslot
  have hadmits := hsound.admits hp (checked_of_commit hcommit)
  have hstore : (x.step (.commit slot)).store = t.snapshot.writes.foldl applyWrite x.store := by
    rcases step_commit ht with ⟨-, -, hstore⟩ | ⟨failure, -, hrefused, -⟩
    · exact hstore
    · rw [hrefused] at hcommit
      cases hcommit
  have hlinked := (h.step (.commit slot)).linked
  rw [hstore] at hlinked ⊢
  have hmem (a : AttemptRecord) :
      a ∈ (t.snapshot.writes.foldl applyWrite x.store).attemptsOf stepRun ↔
        a ∈ x.store.attemptsOf stepRun ∨ .attempt a ∈ t.receipts ∧ a.stepRun = stepRun := by
    rw [hadmits.mem_attemptsOf, hsound.attempt_mem]
  refine ⟨hmem, ?_⟩
  rw [prefix_iff_of_pairwise (h.linked.attemptsOf_ordered stepRun)
    (hlinked.attemptsOf_ordered stepRun) (hadmits.retains.attemptsOf_subset stepRun)]
  constructor
  · intro hlater a ha hof
    refine hlater a ((hmem a).mpr (.inr ⟨ha, hof⟩)) fun hold => ?_
    -- The id of a staged attempt is free until the commit.
    have hid : a.id ∈ t.ids := List.mem_filterMap.mpr ⟨_, ha, rfl⟩
    obtain ⟨⟨key, hget⟩, -⟩ := mem_attemptsOf.mp hold
    obtain rfl := (h.linked.attempts hget).1
    rw [(hsound.fresh hp hid).attempts] at hget
    cases hget
  · intro hlater a ha hnew
    obtain ⟨hreceipt, hof⟩ := ((hmem a).mp ha).resolve_left hnew
    exact hlater a hreceipt hof

end SharedStore

namespace World
variable {registry : Registry} {w w' : World}

/-- Where engines are the only clients attempts are listed as they were committed. -/
theorem Reaches.attemptsOf_prefix (hreaches : Reaches registry w w') (h : w.Sound registry)
    (stepRun : Int) : w.store.attemptsOf stepRun <+: w'.store.attemptsOf stepRun := by
  induction hreaches with
  | refl => exact List.prefix_rfl
  | @step w₁ a hreaches ih =>
    have hsound := hreaches.sound h
    refine ih.trans ?_
    have hadvances := hsound.advances a
    generalize (w₁.step registry a).store = m at hadvances
    cases hadvances with
    | quiet tables => exact (tables.attemptsOf stepRun).symm ▸ List.prefix_rfl
    | created => exact List.prefix_rfl
    | turned used turn =>
      exact Adds.attemptsOf_prefix (adds_post hsound.store turn.fits) stepRun

end World

namespace SharedStore
variable {x : SharedStore}

/-- Attempts are listed by id. None that was seen is dropped or changed, and the listing only grows
at its end just when what a commit adds was staged later. With engines alone that is always so. -/
theorem attempts_listed_as_staged (h : x.Reachable) (stepRun : Int) :
    ((Backend.attempts (σ := Memory) stepRun).run x.store =
        (.ok (x.store.attemptsOf stepRun), x.store) ∧
      (x.store.attemptsOf stepRun).Pairwise fun a b => a.id < b.id) ∧
    (∀ {s request receipt s' id}, ((Request.stage s request).run x.store).1 = .ok (receipt, s') →
      receipt.id? = some id → (∀ u ∈ x.transactions, ∀ given ∈ u.ids, given < id) ∧
        ∀ b ∈ x.store.attemptsOf stepRun, b.id < id) ∧
    (∀ actions,
      (x.store.attemptsOf stepRun).Sublist ((x.after actions).store.attemptsOf stepRun)) ∧
    (∀ action, (x.step action).store.attemptsOf stepRun = x.store.attemptsOf stepRun ∨
      ∃ slot t, action = .commit slot ∧ x.pending? slot = some t ∧
        ((Backend.commit (σ := Memory) t.snapshot).run x.store).1 = .ok () ∧
        (∀ a, a ∈ (x.step action).store.attemptsOf stepRun ↔
          a ∈ x.store.attemptsOf stepRun ∨ .attempt a ∈ t.receipts ∧ a.stepRun = stepRun) ∧
        (x.store.attemptsOf stepRun <+: (x.step action).store.attemptsOf stepRun ↔
          ∀ a, .attempt a ∈ t.receipts → a.stepRun = stepRun →
            ∀ b ∈ x.store.attemptsOf stepRun, b.id < a.id)) ∧
    ∀ {registry : Registry} {w w' : World}, World.Reachable registry w →
      World.Reaches registry w w' → w.store.attemptsOf stepRun <+: w'.store.attemptsOf stepRun := by
  have hsound := h.sound
  refine ⟨⟨rfl, hsound.linked.attemptsOf_ordered stepRun⟩, ?_, ?_, ?_,
    fun hw hreaches => hreaches.attemptsOf_prefix hw.sound stepRun⟩
  · intro s request receipt s' id hstage hid
    obtain ⟨hgiven, hlisted⟩ := hsound.id_last hstage hid
    exact ⟨hgiven, hlisted stepRun⟩
  · intro actions
    exact (hsound.retains_after actions).attemptsOf_sublist hsound.linked
      (hsound.after actions).linked stepRun
  · intro action
    by_cases haction : ∃ slot, action = .commit slot
    · obtain ⟨slot, rfl⟩ := haction
      cases ht : x.pending? slot with
      | none =>
        simp only [step, ht]
        exact .inl trivial
      | some t =>
        rcases step_commit ht with ⟨-, hcommit, -⟩ | ⟨failure, -, -, hstore⟩
        · exact .inr ⟨slot, t, rfl, ht, hcommit, hsound.attemptsOf_commit ht hcommit stepRun⟩
        · exact .inl (by rw [hstore])
    · have hsame := step_sameTables (x := x) fun slot heq => haction ⟨slot, heq⟩
      exact .inl (hsame.attemptsOf stepRun)

def attempted : SharedStore := Rivals.opened.after [
  .stage 1 (.insertAttempt ⟨2, none, .null, false, false⟩),
  .stage 2 (.insertAttempt ⟨2, none, .null, true, true⟩)]

def overtaken : SharedStore := attempted.step (.commit 2)

theorem reachable_attempted : attempted.Reachable := Rivals.reachable_opened.after _

theorem reachable_overtaken : overtaken.Reachable := reachable_attempted.after [.commit 2]

/-- The attempt that was the first and only one becomes the second one, and remains the last. -/
theorem attempt_overtaken : overtaken.Reachable ∧
    (∃ early late : AttemptRecord, overtaken.store.attemptsOf 2 = [late] ∧
      (overtaken.step (.commit 1)).store.attemptsOf 2 = [early, late]) ∧
    ¬ overtaken.store.attemptsOf 2 <+: (overtaken.step (.commit 1)).store.attemptsOf 2 :=
  ⟨reachable_overtaken, ⟨_, _, rfl, rfl⟩, by decide +kernel⟩

/-- The listing grows at its end when the later attempt is committed on its own or after the other
one, and not when the other one comes after it. -/
theorem attempts_listed_as_staged_rivals :
    attempted.store.attemptsOf 2 <+: overtaken.store.attemptsOf 2 ∧
    (overtaken.store.attemptsOf 2).Sublist ((overtaken.after [.commit 1]).store.attemptsOf 2) ∧
    ((overtaken.step (.commit 1)).store.attemptsOf 2).Pairwise (fun a b => a.id < b.id) ∧
    ¬ overtaken.store.attemptsOf 2 <+: (overtaken.step (.commit 1)).store.attemptsOf 2 := by
  obtain ⟨-, -, -, hcommit, -⟩ := attempts_listed_as_staged reachable_attempted 2
  obtain ⟨-, -, hkept, hlate, -⟩ := attempts_listed_as_staged reachable_overtaken 2
  have hafter := attempts_listed_as_staged (reachable_overtaken.after [.commit 1]) 2
  refine ⟨?_, hkept [.commit 1], hafter.1.2, fun hprefix => ?_⟩
  · rcases hcommit (.commit 2) with hsame | ⟨slot, t, -, -, -, -, hiff⟩
    · exact hsame ▸ List.prefix_rfl
    · refine hiff.mpr fun a _ _ b hb => ?_
      cases hb
  · rcases hlate (.commit 1) with hsame | ⟨slot, t, hslot, ht, -, -, hiff⟩
    · exact absurd hsame (by decide +kernel)
    · cases hslot
      cases ht
      have hlt := hiff.mp hprefix ⟨3, 2, none, .null, false, false, ""⟩ (by decide) rfl
        ⟨4, 2, none, .null, true, true, ""⟩ (by decide +kernel)
      exact absurd hlt (by decide)

end SharedStore
end CallFlow
