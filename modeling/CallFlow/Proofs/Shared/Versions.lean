import CallFlow.Proofs.Shared.Sound

/-! # Versions count the committed updates

An update carries the version of the row that it replaces, which is checked when the update is
staged and again when it is committed. So the version of a run is the number of its updates in
snapshots that were committed, and of all snapshots whose first update of the run carried the same
version at most one is committed.
-/
namespace CallFlow
open Memory

def Receipt.carried? (id : Int) : Receipt → Option Int
  | version given _ _ => if given.id = id then some given.version else none
  | _ => none

theorem Receipt.carried?_eq_some {id version : Int} {receipt : Receipt}
    (h : receipt.carried? id = some version) :
    ∃ given answer clock, receipt = .version given answer clock ∧ given.id = id ∧
      given.version = version := by
  cases receipt with
  | version given answer clock =>
    simp only [carried?] at h
    split at h <;> cases h
    exact ⟨given, answer, clock, rfl, ‹_›, rfl⟩
  | _ => cases h

namespace Transaction

def firstCarried? (t : Transaction) (id : Int) : Option Int :=
  t.receipts.findSome? (·.carried? id)

def Advances (t : Transaction) (id version : Int) : Prop :=
  t.fate = .committed ∧ ∃ receipt ∈ t.receipts, receipt.carried? id = some version

theorem advances_of_first {t : Transaction} {id version : Int} (hf : t.fate = .committed)
    (h : t.firstCarried? id = some version) : t.Advances id version :=
  ⟨hf, List.exists_of_findSome?_eq_some h⟩

variable {m : Memory} {t : Transaction}

/-- An update carries the version of the row that it replaces. -/
theorem Sound.replaces (h : t.Sound m) (hadmits : m.Admits t.snapshot.writes)
    {pre post : List Receipt} {given : RunRecord} {answer : Int} {clock : String}
    (hsplit : t.receipts = pre ++ .version given answer clock :: post) :
    ∃ row, ((pre.map Receipt.write).foldl applyWrite m).runs.get? given.id = some row ∧
      row.version = given.version := by
  have hmem : .version given answer clock ∈ t.receipts := by
    rw [hsplit]
    exact List.mem_append_right _ List.mem_cons_self
  have hanswer := h.versions hmem
  obtain ⟨-, hfits⟩ := hadmits.split (h.writes_split hsplit)
  cases hfits with
  | @updateRun _ row known version =>
    refine ⟨row, known, ?_⟩
    have hversion : answer = row.version + 1 := version
    omega

/-- An update carries a version from the one before the commit up to the one after it. -/
theorem Sound.carried_bounds (h : t.Sound m) (hadmits : m.Admits t.snapshot.writes)
    {receipt : Receipt} (hmem : receipt ∈ t.receipts) {id version : Int}
    (hcarried : receipt.carried? id = some version) :
    m.versionOf id ≤ version ∧ version < (t.snapshot.writes.foldl applyWrite m).versionOf id := by
  obtain ⟨given, answer, clock, rfl, rfl, rfl⟩ := Receipt.carried?_eq_some hcarried
  obtain ⟨pre, post, hsplit⟩ := List.append_of_mem hmem
  obtain ⟨row, hrow, hversion⟩ := h.replaces hadmits hsplit
  have hbefore := (hadmits.split (h.writes_split hsplit)).1.versionOf given.id
  have hafter := hadmits.versionOf given.id
  rw [h.writes_split hsplit, List.countP_append, List.countP_cons_of_pos (by simp [Receipt.updates])]
    at hafter
  rw [versionOf_of_get? hrow] at hbefore
  rw [h.writes_split hsplit]
  push_cast at hafter
  omega

end Transaction

namespace SharedStore
variable {x : SharedStore} {slot : Nat} {t : Transaction}

def committed (x : SharedStore) : List Snapshot :=
  (x.transactions.filter (·.fate = .committed)).map (·.snapshot)

def updatesOf (x : SharedStore) (id : Int) : Nat :=
  (x.committed.flatMap (·.writes)).countP (·.updates id)

theorem updatesOf_commit (ht : x.transactions[slot]? = some t) (hp : t.fate = .pending) (m : Memory)
    (id : Int) :
    (SharedStore.mk m (x.transactions.set slot { t with fate := .committed })).updatesOf id =
      x.updatesOf id + t.snapshot.writes.countP (·.updates id) := by
  obtain ⟨pre, post, heq, hset⟩ := slot_split ht
  simp only [updatesOf, committed, hset]
  simp only [heq, hp, List.filter_append, decide_true, List.filter_cons_of_pos, List.map_append,
    List.map_cons, List.flatMap_append, List.flatMap_cons, List.countP_append, reduceCtorEq,
    decide_false, Bool.false_eq_true, not_false_eq_true, List.filter_cons_of_neg]
  omega

theorem updatesOf_set (ht : x.transactions[slot]? = some t) (hp : t.fate = .pending) (m : Memory)
    {u : Transaction} (hu : u.fate ≠ .committed) (id : Int) :
    (SharedStore.mk m (x.transactions.set slot u)).updatesOf id = x.updatesOf id := by
  obtain ⟨pre, post, heq, hset⟩ := slot_split ht
  simp only [updatesOf, committed, hset]
  simp [heq, hp, hu]

/-- Versions count the committed updates, and no two snapshots were committed with updates that
carried the same version. -/
structure Tallied (x : SharedStore) : Prop where
  versions : ∀ id, x.store.versionOf id = x.updatesOf id
  below : ∀ {slot : Nat} {t : Transaction} {id version : Int}, x.transactions[slot]? = some t →
    t.Advances id version → version < x.store.versionOf id
  apart : ∀ {i j : Nat} {t u : Transaction} {id version : Int}, x.transactions[i]? = some t →
    x.transactions[j]? = some u → t.Advances id version → u.Advances id version → i = j

theorem tallied_empty : empty.Tallied :=
  ⟨fun _ => rfl, by simp [empty], by simp [empty]⟩

namespace Tallied
variable (h : x.Tallied)
include h

theorem set (ht : x.transactions[slot]? = some t) (hp : t.fate = .pending) {m : Memory}
    (hm : ∀ id, m.versionOf id = x.store.versionOf id) {u : Transaction}
    (hu : u.fate ≠ .committed) : Tallied ⟨m, x.transactions.set slot u⟩ := by
  constructor
  · intro id
    rw [updatesOf_set ht hp m hu, ← h.versions, hm]
  · intro j v id version hv hadvances
    rcases slot_set hv with ⟨-, rfl⟩ | ⟨-, hv⟩
    · exact absurd hadvances.1 hu
    · rw [hm]
      exact h.below hv hadvances
  · intro i j v v' id version hv hv' hadvances hadvances'
    rcases slot_set hv with ⟨-, rfl⟩ | ⟨-, hi⟩
    · exact absurd hadvances.1 hu
    rcases slot_set hv' with ⟨-, rfl⟩ | ⟨-, hj⟩
    · exact absurd hadvances'.1 hu
    exact h.apart hi hj hadvances hadvances'

theorem commit (hx : x.Sound) (ht : x.transactions[slot]? = some t) (hp : t.fate = .pending)
    (hchecked : x.store.checkWrites .empty t.snapshot.writes = .ok ()) :
    Tallied ⟨t.snapshot.writes.foldl applyWrite x.store,
      x.transactions.set slot { t with fate := .committed }⟩ := by
  have hsound := hx.transactions ht
  have hadmits := hsound.admits hp hchecked
  have hle (id : Int) : x.store.versionOf id ≤
      (t.snapshot.writes.foldl applyWrite x.store).versionOf id := by
    rw [hadmits.versionOf]
    omega
  -- What the new updates carried is beyond all that was carried before.
  have hnew {id version : Int}
      (hadvances : Transaction.Advances { t with fate := .committed } id version) :
      x.store.versionOf id ≤ version ∧
        version < (t.snapshot.writes.foldl applyWrite x.store).versionOf id := by
    obtain ⟨-, receipt, hmem, hcarried⟩ := hadvances
    exact hsound.carried_bounds hadmits hmem hcarried
  constructor
  · intro id
    rw [updatesOf_commit ht hp, hadmits.versionOf, h.versions]
    push_cast
    rfl
  · intro j v id version hv hadvances
    rcases slot_set hv with ⟨-, rfl⟩ | ⟨-, hv⟩
    · exact (hnew hadvances).2
    · exact Int.lt_of_lt_of_le (h.below hv hadvances) (hle _)
  · intro i j v v' id version hv hv' hadvances hadvances'
    rcases slot_set hv with ⟨hi, rfl⟩ | ⟨-, hi⟩ <;> rcases slot_set hv' with ⟨hj, rfl⟩ | ⟨-, hj⟩
    · exact hi.symm.trans hj
    · have hlt := h.below hj hadvances'
      have hge := (hnew hadvances).1
      omega
    · have hlt := h.below hi hadvances
      have hge := (hnew hadvances').1
      omega
    · exact h.apart hi hj hadvances hadvances'

theorem moves (hx : x.Sound) {y : SharedStore} (hmoves : x.Moves y) : y.Tallied := by
  cases hmoves with
  | still => exact h
  | tick clock => exact ⟨h.versions, h.below, h.apart⟩
  | start =>
    constructor
    · intro id
      simpa [updatesOf, committed] using h.versions id
    · intro slot t id version hv hadvances
      rcases slot_append hv with rfl | hv
      · cases hadvances.1
      · exact h.below hv hadvances
    · intro i j t u id version hv hv' hadvances hadvances'
      rcases slot_append hv with rfl | hi
      · cases hadvances.1
      rcases slot_append hv' with rfl | hj
      · cases hadvances'.1
      exact h.apart hi hj hadvances hadvances'
  | @stage slot t receipt pending granted =>
    obtain ⟨ht, hp⟩ := pending?_eq_some.mp pending
    refine h.set ht hp (fun id => ?_) ?_
    · simp only [Memory.versionOf, (sameTables_billed x.store receipt).runs]
    · simp [Transaction.take, hp]
  | commit pending checked =>
    obtain ⟨ht, hp⟩ := pending?_eq_some.mp pending
    exact h.commit hx ht hp checked
  | close pending closed undone =>
    obtain ⟨ht, hp⟩ := pending?_eq_some.mp pending
    exact h.set ht hp (fun _ => rfl) undone

end Tallied

theorem Reachable.tallied (h : x.Reachable) : x.Tallied := by
  obtain ⟨actions, rfl⟩ := h
  exact sound_empty.keeps tallied_empty (fun hx hmoves hy => hy.moves hx hmoves) actions

/-- The version of a run is the number of its committed updates, each of which carried the version
of the row that it replaced. Of the snapshots whose first update carried one version at most one is
committed. -/
theorem no_update_lost (h : x.Reachable) :
    (∀ {id r}, x.store.runs.get? id = some r → r.version = x.updatesOf id) ∧
    (∀ {slot t}, x.pending? slot = some t →
      ((Backend.commit (σ := Memory) t.snapshot).run x.store).1 = .ok () →
      ∀ {pre post given answer clock}, t.receipts = pre ++ .version given answer clock :: post →
        ∃ row, ((pre.map Receipt.write).foldl applyWrite x.store).runs.get? given.id = some row ∧
          ((⟨pre.map Receipt.write⟩ : Snapshot).row? given.id).or (x.store.runs.get? given.id) =
            some row ∧
          row.version = given.version) ∧
    ∀ {i j : Nat} {t u : Transaction} {id version : Int}, x.transactions[i]? = some t →
      x.transactions[j]? = some u → t.firstCarried? id = some version →
      u.firstCarried? id = some version → t.fate = .committed → u.fate = .committed → i = j := by
  refine ⟨?_, ?_, ?_⟩
  · intro id r hr
    rw [← versionOf_of_get? hr]
    exact h.tallied.versions id
  · intro slot t ht hcommit pre post given answer clock hsplit
    obtain ⟨hslot, hp⟩ := pending?_eq_some.mp ht
    have hsound := h.sound.transactions hslot
    rcases commit_cases t.snapshot x.store with ⟨hchecked, -⟩ | ⟨failure, -, hrun⟩
    · obtain ⟨row, hrow, hversion⟩ := hsound.replaces (hsound.admits hp hchecked) hsplit
      exact ⟨row, hrow, by rw [← foldl_applyWrite_runs, hrow], hversion⟩
    · rw [hrun] at hcommit
      cases hcommit
  · intro i j t u id version ht hu hfirst hfirst' hf hf'
    exact h.tallied.apart ht hu (Transaction.advances_of_first hf hfirst)
      (Transaction.advances_of_first hf' hfirst')

/-- Both rivals carried version zero. The update of the first one replaces the row of that version,
so the second one is not committed. -/
theorem no_update_lost_rivals : ∃ (r row : RunRecord) (t u : Transaction),
    Rivals.staged.pending? 1 = some t ∧
    ((Backend.commit (σ := Memory) t.snapshot).run Rivals.staged.store).1 = .ok () ∧
    Rivals.staged.store.runs.get? 1 = some row ∧ row.version = 0 ∧
    Rivals.settled.store.runs.get? 1 = some r ∧ r.version = 1 ∧
    Rivals.closed.transactions[2]? = some u ∧ u.firstCarried? 1 = some 0 ∧
    u.fate ≠ .committed := by
  have hstaged := no_update_lost Rivals.reachable_staged
  obtain ⟨t, ht, hcommit⟩ : ∃ t, Rivals.staged.pending? 1 = some t ∧
      ((Backend.commit (σ := Memory) t.snapshot).run Rivals.staged.store).1 = .ok () :=
    ⟨_, rfl, rfl⟩
  have hsplit : t.receipts = [] ++ .version Rivals.caller 1 "" :: t.receipts.tail := by
    cases ht
    rfl
  obtain ⟨row, -, hrow, hcarried⟩ := hstaged.2.1 ht hcommit hsplit
  obtain ⟨r, hr⟩ : ∃ r, Rivals.settled.store.runs.get? 1 = some r := ⟨_, rfl⟩
  have hversion := (no_update_lost Rivals.reachable_settled).1 hr
  have hclosed := no_update_lost Rivals.reachable_closed
  obtain ⟨u, hu, hfirst⟩ : ∃ u, Rivals.closed.transactions[2]? = some u ∧
      u.firstCarried? 1 = some 0 := ⟨_, rfl, rfl⟩
  obtain ⟨v, hv, hfirst', hfate⟩ : ∃ v, Rivals.closed.transactions[1]? = some v ∧
      v.firstCarried? 1 = some 0 ∧ v.fate = .committed := ⟨_, rfl, rfl, rfl⟩
  have hupdates : Rivals.settled.updatesOf 1 = 1 := by decide +kernel
  refine ⟨r, row, t, u, ht, hcommit, hrow, hcarried, hr, ?_, hu, hfirst, fun hcommitted => ?_⟩
  · rw [hversion, hupdates]
    rfl
  · cases hclosed.2.2 hv hu hfirst' hfirst hfate hcommitted

end SharedStore
end CallFlow
