import CallFlow.Proofs.Shared.Basic

/-! # Invariants of a shared store

References in the store are whole, and every id belongs to the one snapshot that it was given out
for. No row stands under an id of a snapshot that is still open, so its writes fit the store once
they pass the checks of a commit, whatever other snapshots have committed in the meantime.
-/
namespace CallFlow
open Memory

namespace Transaction

/-- A transaction with its receipts in order. While it is open its ids are free, and what its
writes refer to is known. -/
structure Sound (m : Memory) (t : Transaction) : Prop where
  writes : t.snapshot.writes = t.receipts.map Receipt.write
  versions : ∀ {given answer clock}, .version given answer clock ∈ t.receipts →
    answer = given.version + 1
  once : t.ids.Nodup
  given : ∀ {id}, id ∈ t.ids → id < m.nextId
  backed : t.fate = .pending → m.Backs t.snapshot.writes
  fresh : t.fate = .pending → ∀ {id}, id ∈ t.ids → m.Fresh id

theorem sound_start (m : Memory) : Sound m ⟨.empty, [], .pending⟩ :=
  ⟨rfl, by simp, .nil, by simp [ids], fun _ => .nil, by simp [ids]⟩

theorem ids_take (t : Transaction) (receipt : Receipt) :
    (t.take receipt).ids = t.ids ++ receipt.id?.toList := by
  cases h : receipt.id? <;> simp [ids, take, h]

namespace Sound
variable {m m' : Memory} {t : Transaction} (h : t.Sound m)
include h

theorem ids_eq : t.snapshot.writes.filterMap Write.id? = t.ids := by
  simp only [h.writes, ids, List.filterMap_map]
  congr 1
  funext receipt
  exact receipt.write_id?

theorem writes_split {pre post : List Receipt} {receipt : Receipt}
    (hsplit : t.receipts = pre ++ receipt :: post) :
    t.snapshot.writes = pre.map Receipt.write ++ receipt.write :: post.map Receipt.write := by
  rw [h.writes, hsplit, List.map_append, List.map_cons]

/-- Nothing changes as long as rows are kept and the open ids stay free. -/
theorem retains (hk : m.Retains m') (hn : m.nextId ≤ m'.nextId)
    (hfresh : t.fate = .pending → ∀ {id}, id ∈ t.ids → m'.Fresh id) : t.Sound m' :=
  ⟨h.writes, h.versions, h.once, fun hid => Int.lt_of_lt_of_le (h.given hid) hn,
    fun hp => (h.backed hp).retains hk, hfresh⟩

theorem sameTables (hs : SameTables m m') (hn : m.nextId ≤ m'.nextId) : t.Sound m' :=
  h.retains hs.retains hn fun hp _ hid => hs.fresh (h.fresh hp hid)

theorem close {fate : Fate} (hf : fate ≠ .pending) (hn : m.nextId ≤ m'.nextId) :
    Transaction.Sound m' { t with fate } :=
  ⟨h.writes, h.versions, h.once, fun hid => Int.lt_of_lt_of_le (h.given hid) hn,
    fun hp => absurd hp hf, fun hp => absurd hp hf⟩

/-- A staged write is backed by what the store and the snapshot know. -/
theorem take {receipt : Receipt} (hgranted : m.Grants t.snapshot receipt)
    (hahead : ∀ {id}, m.nextId ≤ id → m.Fresh id) (hp : t.fate = .pending) :
    (t.take receipt).Sound (m.billed receipt) := by
  have hsame := sameTables_billed m receipt
  have hnew {id : Int} (hid : id ∈ receipt.id?.toList) :
      id = m.nextId ∧ (m.billed receipt).nextId = m.nextId + 1 :=
    hgranted.id_eq (Option.mem_toList.mp hid)
  have hbacked : m.Backed t.snapshot.writes receipt.write := by
    cases hgranted with
    | run _ version => exact .insertRun version
    | version => exact .updateRun
    | stepRun _ known => exact .insertStepRun known
    | attempt _ known => exact .insertAttempt known
    | position _ known order unmarked => exact .insertPosition known order unmarked
    | mark => exact .markBranched
  constructor
  · simp [Transaction.take, Snapshot.stage, h.writes]
  · intro given answer clock hmem
    rcases List.mem_append.mp hmem with hmem | hmem
    · exact h.versions hmem
    · cases List.mem_singleton.mp hmem
      cases hgranted
      rfl
  · rw [ids_take]
    refine List.nodup_append.mpr ⟨h.once, by cases receipt.id? <;> simp, ?_⟩
    rintro id hid _ hlast rfl
    have hlt := h.given hid
    have heq := (hnew hlast).1
    omega
  · intro id hid
    rw [ids_take] at hid
    rcases List.mem_append.mp hid with hid | hid
    · exact Int.lt_of_lt_of_le (h.given hid) (nextId_le_billed m receipt)
    · obtain ⟨rfl, hnext⟩ := hnew hid
      omega
  · exact fun _ => ((h.backed hp).concat hbacked).retains hsame.retains
  · intro _ id hid
    rw [ids_take] at hid
    rcases List.mem_append.mp hid with hid | hid
    · exact hsame.fresh (h.fresh hp hid)
    · exact hsame.fresh (hahead (Int.le_of_eq (hnew hid).1.symm))

/-- A transaction that passes the checks of a commit fits the store. -/
theorem admits (hp : t.fate = .pending)
    (hchecks : m.checkWrites .empty t.snapshot.writes = .ok ()) : m.Admits t.snapshot.writes := by
  refine (h.backed hp).admits ?_ ?_ hchecks <;> rw [h.ids_eq]
  · exact h.once
  · exact fun id hid => h.fresh hp hid

end Sound
end Transaction

namespace SharedStore
variable {x : SharedStore} {slot : Nat} {t : Transaction}

structure Sound (x : SharedStore) : Prop where
  linked : x.store.Linked
  /-- Ids that are still to be given out are free. -/
  ahead : ∀ {id}, x.store.nextId ≤ id → x.store.Fresh id
  transactions : ∀ {slot : Nat} {t : Transaction}, x.transactions[slot]? = some t → t.Sound x.store
  /-- An id belongs to one snapshot. -/
  apart : ∀ {i j : Nat} {t u : Transaction} {id : Int}, x.transactions[i]? = some t →
    x.transactions[j]? = some u → id ∈ t.ids → id ∈ u.ids → i = j

theorem sound_empty : empty.Sound :=
  ⟨linked_empty, fun _ => fresh_empty _, by simp [empty], by simp [empty]⟩

theorem slot_set {ts : List Transaction} {i j : Nat} {t u : Transaction}
    (h : (ts.set i t)[j]? = some u) : i = j ∧ u = t ∨ i ≠ j ∧ ts[j]? = some u := by
  rw [List.getElem?_set] at h
  split at h
  · split at h <;> cases h
    exact .inl ⟨‹_›, rfl⟩
  · exact .inr ⟨‹_›, h⟩

theorem slot_split {ts : List Transaction} {i : Nat} {t : Transaction} (h : ts[i]? = some t) :
    ∃ pre post, ts = pre ++ t :: post ∧ ∀ u, ts.set i u = pre ++ u :: post := by
  induction ts generalizing i with
  | nil => cases h
  | cons v rest ih =>
    cases i with
    | zero =>
      cases h
      exact ⟨[], rest, rfl, fun _ => rfl⟩
    | succ i =>
      obtain ⟨pre, post, heq, hset⟩ := ih h
      exact ⟨v :: pre, post, by rw [heq, List.cons_append], fun u => by
        rw [List.set_cons_succ, hset, List.cons_append]⟩

theorem slot_append {ts : List Transaction} {j : Nat} {t u : Transaction}
    (h : (ts ++ [t])[j]? = some u) : u = t ∨ ts[j]? = some u := by
  rw [List.getElem?_append] at h
  split at h
  · exact .inr h
  · exact .inl (List.mem_singleton.mp (List.mem_of_getElem? h))

namespace Sound
variable (h : x.Sound)
include h

theorem replace (ht : x.transactions[slot]? = some t) {m : Memory} {u : Transaction}
    (hlinked : m.Linked) (hahead : ∀ {id}, m.nextId ≤ id → m.Fresh id) (hu : u.Sound m)
    (hothers : ∀ {j : Nat} {v : Transaction}, slot ≠ j → x.transactions[j]? = some v → v.Sound m)
    (hids : ∀ {id}, id ∈ u.ids → id ∈ t.ids ∨ x.store.nextId ≤ id) :
    Sound ⟨m, x.transactions.set slot u⟩ := by
  have hown {j : Nat} {v : Transaction} {id : Int} (hv : x.transactions[j]? = some v)
      (hid : id ∈ u.ids) (hid' : id ∈ v.ids) : slot = j := by
    rcases hids hid with hold | hnew
    · exact h.apart ht hv hold hid'
    · have hlt := (h.transactions hv).given hid'
      omega
  refine ⟨hlinked, hahead, ?_, ?_⟩
  · intro j v hv
    rcases slot_set hv with ⟨-, rfl⟩ | ⟨hne, hv⟩
    · exact hu
    · exact hothers hne hv
  · intro i j v v' id hv hv' hid hid'
    rcases slot_set hv with ⟨rfl, rfl⟩ | ⟨-, hi⟩ <;> rcases slot_set hv' with ⟨hj, rfl⟩ | ⟨-, hj⟩
    · exact hj
    · exact hown hj hid hid'
    · exact hj ▸ (hown hi hid' hid).symm
    · exact h.apart hi hj hid hid'

theorem moves {y : SharedStore} (hmoves : x.Moves y) : y.Sound := by
  cases hmoves with
  | still => exact h
  | tick clock =>
    have hsame : SameTables x.store { x.store with clock } := ⟨rfl, rfl, rfl, rfl⟩
    exact ⟨hsame.linked h.linked, fun hid => hsame.fresh (h.ahead hid),
      fun ht => (h.transactions ht).sameTables hsame (Int.le_refl _), h.apart⟩
  | start =>
    refine ⟨h.linked, h.ahead, ?_, ?_⟩
    · intro slot t ht
      rcases slot_append ht with rfl | ht
      · exact Transaction.sound_start _
      · exact h.transactions ht
    · intro i j t u id ht hu hid hid'
      rcases slot_append ht with rfl | ht
      · cases hid
      rcases slot_append hu with rfl | hu
      · cases hid'
      exact h.apart ht hu hid hid'
  | @stage slot t receipt pending granted =>
    obtain ⟨ht, hp⟩ := pending?_eq_some.mp pending
    have hsame := sameTables_billed x.store receipt
    have hle := nextId_le_billed x.store receipt
    refine h.replace ht (hsame.linked h.linked)
      (fun hid => hsame.fresh (h.ahead (Int.le_trans hle hid)))
      ((h.transactions ht).take granted h.ahead hp)
      (fun _ hv => (h.transactions hv).sameTables hsame hle) fun hid => ?_
    rw [Transaction.ids_take, List.mem_append, Option.mem_toList] at hid
    exact hid.imp_right fun hid => Int.le_of_eq (granted.id_eq hid).1.symm
  | @commit slot t pending checked =>
    obtain ⟨ht, hp⟩ := pending?_eq_some.mp pending
    have hsound := h.transactions ht
    have hadmits := hsound.admits hp checked
    have hn := foldl_applyWrite_nextId x.store t.snapshot.writes
    -- An id that is not one of the committed ones is as free as it was.
    have hfresh {id : Int} (hid : x.store.Fresh id) (hnot : id ∉ t.ids) :=
      hadmits.fresh hid (hsound.ids_eq.symm ▸ hnot)
    refine h.replace ht (hadmits.linked h.linked) (fun {id} hid => ?_)
      (hsound.close (by decide) (Int.le_of_eq hn.symm)) (fun hne hv => ?_) .inl
    · rw [hn] at hid
      refine hfresh (h.ahead hid) fun hgiven => ?_
      have hlt := hsound.given hgiven
      omega
    · exact (h.transactions hv).retains hadmits.retains (Int.le_of_eq hn.symm) fun hpv _ hid =>
        hfresh ((h.transactions hv).fresh hpv hid) fun hid' => hne (h.apart ht hv hid' hid)
  | @close slot t fate pending closed =>
    obtain ⟨ht, -⟩ := pending?_eq_some.mp pending
    exact h.replace ht h.linked h.ahead ((h.transactions ht).close closed (Int.le_refl _))
      (fun _ hv => h.transactions hv) .inl

theorem step (a : Action) : (x.step a).Sound := h.moves (x.step_moves a)

theorem after (actions : List Action) : (x.after actions).Sound :=
  after_induction h (fun _ a hy => hy.step a) actions

/-- What every action of a sound store keeps holds after any actions. -/
theorem keeps {motive : SharedStore → Prop} (hx : motive x)
    (moves : ∀ {y z : SharedStore}, y.Sound → y.Moves z → motive y → motive z)
    (actions : List Action) : motive (x.after actions) := by
  have hstep (y : SharedStore) (a : Action) (hy : y.Sound ∧ motive y) :
      (y.step a).Sound ∧ motive (y.step a) :=
    ⟨hy.1.step a, moves hy.1 (y.step_moves a) hy.2⟩
  exact (after_induction (motive := fun y => y.Sound ∧ motive y) ⟨h, hx⟩ hstep actions).2

end Sound

theorem Reachable.sound (h : x.Reachable) : x.Sound := by
  obtain ⟨actions, rfl⟩ := h
  exact sound_empty.after actions

end SharedStore
end CallFlow
