import CallFlow.Proofs.Flow.Published
import CallFlow.Proofs.Json.RoundTrip

/-! # Sequences of publications

However flows are offered to a catalog, it holds under each tag the first accepted flow that has
this tag. Where no two accepted flows share a digest, it holds every accepted flow, and the order
in which they were offered does not matter.

Flows are told apart as they are written. As values, two flows can be equal and yet be written
differently: a zero may have a sign. Such flows have different tags.
-/
namespace CallFlow

/-! ## Equal values -/

def Double.unsigned (d : Double) : Double := if d.bits = 0x8000000000000000 then ⟨0⟩ else d

namespace Json

mutual

def unsigned : Json → Json
  | .num (.double d) => .num (.double d.unsigned)
  | .arr items => .arr (unsignedItems items)
  | .obj members => .obj (unsignedMembers members)
  | .null => .null
  | .bool b => .bool b
  | .num (.int n) => .num (.int n)
  | .str s => .str s

def unsignedItems : List Json → List Json
  | [] => []
  | v :: rest => unsigned v :: unsignedItems rest

def unsignedMembers : List (String × Json) → List (String × Json)
  | [] => []
  | (key, v) :: rest => (key, unsigned v) :: unsignedMembers rest

end

end Json

namespace FlowConfig
variable {c d : FlowConfig}

/-- The flows are equal as values: numbers are compared, and the zeros are equal. -/
def SameValue (c d : FlowConfig) : Prop := c.toJson.unsigned = d.toJson.unsigned

instance : DecidableRel SameValue := fun c d =>
  inferInstanceAs (Decidable (c.toJson.unsigned = d.toJson.unsigned))

def Unsigned (c : FlowConfig) : Prop := c.toJson.unsigned = c.toJson

theorem toJson_injective (h : c.toJson = d.toJson) : c = d := by
  have hsame := ofDocument?_toJson c
  rw [h, ofDocument?_toJson] at hsame
  exact (Option.some.inj hsame).symm

theorem Unsigned.sameValue_iff (hc : c.Unsigned) (hd : d.Unsigned) : c.SameValue d ↔ c = d := by
  constructor
  · intro h
    have hsame : c.toJson = d.toJson := hc.symm.trans (h.trans hd)
    exact toJson_injective hsame
  · rintro rfl
    rfl

end FlowConfig

/-! ## Publications -/

structure Publication where
  config : FlowConfig
  registry : Registry

namespace Publication

def accepted (p : Publication) : Bool :=
  match p.config.tree.validate p.registry with
  | .ok _ => true
  | .error _ => false

theorem accepted_iff {p : Publication} :
    p.accepted = true ↔ p.config.tree.validate p.registry = .ok () := by
  unfold accepted
  cases p.config.tree.validate p.registry <;> simp

def claims (tag : String) (p : Publication) : Bool := p.accepted && p.config.tag = tag

theorem claims_iff {tag : String} {p : Publication} :
    p.claims tag = true ↔ p.accepted = true ∧ p.config.tag = tag := by
  simp [claims]

end Publication

namespace Catalog
variable {c : Catalog} {p : Publication} {tag : String} {config : FlowConfig}

def offer (c : Catalog) (p : Publication) : Catalog :=
  match c.publish p.config p.registry with
  | .ok (_, c') => c'
  | .error _ => c

def after (ps : List Publication) : Catalog := ps.foldl offer empty

theorem publish_accepted (h : p.accepted = true) : c.publish p.config p.registry = .ok
    (p.config.tag, if c.flows.contains p.config.tag then c
      else ⟨c.flows.insert p.config.tag p.config⟩) := by
  rw [Publication.accepted_iff] at h
  simp only [publish, h]
  split <;> rfl

theorem publish_refused (h : p.accepted = false) :
    ∃ e, c.publish p.config p.registry = .error e := by
  cases hv : p.config.tree.validate p.registry with
  | error e => exact ⟨e, by simp only [publish, hv]; rfl⟩
  | ok u =>
    rw [Publication.accepted_iff.mpr hv] at h
    cases h

/-- What is found stays, and a tag that is free is taken by the flow that claims it. -/
theorem get?_offer : (c.offer p).flows.get? tag =
    (c.flows.get? tag).or (if p.claims tag then some p.config else none) := by
  unfold offer
  cases haccepted : p.accepted with
  | false =>
    obtain ⟨e, he⟩ := publish_refused (c := c) haccepted
    simp [he, Publication.claims, haccepted]
  | true =>
    rw [publish_accepted haccepted]
    simp only [Table.contains_eq_isSome]
    cases hfound : c.flows.get? p.config.tag with
    | some found =>
      by_cases htag : p.config.tag = tag
      · subst htag
        simp [hfound]
      · simp [Publication.claims, htag]
    | none =>
      simp only [Option.isSome_none, Bool.false_eq_true, if_false, Table.get?_insert]
      by_cases htag : p.config.tag = tag
      · subst htag
        simp [Publication.claims, haccepted, hfound]
      · simp [Publication.claims, htag, Ne.symm htag]

theorem get?_foldl_offer (ps : List Publication) : (ps.foldl offer c).flows.get? tag =
    (c.flows.get? tag).or ((ps.find? (·.claims tag)).map (·.config)) := by
  induction ps generalizing c with
  | nil => simp
  | cons p rest ih =>
    rw [List.foldl_cons, ih, get?_offer, Option.or_assoc]
    cases hclaims : p.claims tag <;> simp [hclaims]

/-- Under a tag stands the first accepted flow that has it. -/
theorem resolve_after_iff {ps : List Publication} : (after ps).resolve tag = .ok config ↔
    (ps.find? (·.claims tag)).map (·.config) = some config := by
  rw [resolve_eq_ok_iff, after, get?_foldl_offer]
  simp [empty]

def Accepts (ps : List Publication) (config : FlowConfig) : Prop :=
  ∃ p ∈ ps, p.config = config ∧ config.tree.validate p.registry = .ok ()

/-- No two accepted flows have different written forms with one digest. -/
def CollisionFree (ps : List Publication) : Prop :=
  ∀ c d, Accepts ps c → Accepts ps d → c.tag = d.tag → c.toJson = d.toJson

variable {ps : List Publication}

theorem accepts_of_claims (hp : p ∈ ps) (h : p.claims tag = true) : Accepts ps p.config :=
  ⟨p, hp, rfl, Publication.accepted_iff.mp (Publication.claims_iff.mp h).1⟩

theorem accepts_of_resolve (h : (after ps).resolve tag = .ok config) :
    Accepts ps config ∧ config.tag = tag := by
  obtain ⟨p, hp, rfl⟩ := Option.map_eq_some_iff.mp (resolve_after_iff.mp h)
  have hclaims := List.find?_some hp
  exact ⟨accepts_of_claims (List.mem_of_find?_eq_some hp) hclaims,
    (Publication.claims_iff.mp hclaims).2⟩

theorem resolve_append {more : List Publication} (h : (after ps).resolve tag = .ok config) :
    (after (ps ++ more)).resolve tag = .ok config := by
  rw [resolve_after_iff] at h ⊢
  obtain ⟨p, hp, hconfig⟩ := Option.map_eq_some_iff.mp h
  rw [List.find?_append, hp]
  simpa using hconfig

theorem CollisionFree.tag_eq_iff (h : CollisionFree ps) {c d : FlowConfig} (hc : Accepts ps c)
    (hd : Accepts ps d) : c.tag = d.tag ↔ c = d :=
  ⟨fun htag => FlowConfig.toJson_injective (h c d hc hd htag), congrArg _⟩

theorem CollisionFree.resolve (h : CollisionFree ps) (hc : Accepts ps config) :
    (after ps).resolve config.tag = .ok config := by
  obtain ⟨p, hp, rfl, hvalid⟩ := hc
  have hclaims : p.claims p.config.tag = true :=
    Publication.claims_iff.mpr ⟨Publication.accepted_iff.mpr hvalid, rfl⟩
  obtain ⟨q, hq⟩ := Option.isSome_iff_exists.mp (List.find?_isSome.mpr ⟨p, hp, hclaims⟩)
  have hfirst := List.find?_some hq
  have haccepts := accepts_of_claims (List.mem_of_find?_eq_some hq) hfirst
  have hsame : q.config = p.config :=
    (h.tag_eq_iff haccepts ⟨p, hp, rfl, hvalid⟩).mp (Publication.claims_iff.mp hfirst).2
  rw [resolve_after_iff, hq, Option.map_some, hsame]

theorem CollisionFree.resolve_iff (h : CollisionFree ps) :
    (after ps).resolve tag = .ok config ↔ Accepts ps config ∧ config.tag = tag := by
  constructor
  · exact accepts_of_resolve
  · rintro ⟨hc, rfl⟩
    exact h.resolve hc

/-- A collision-free catalog is told by what was accepted. -/
theorem CollisionFree.after_eq {qs : List Publication} (h : CollisionFree ps)
    (hsame : ∀ c, Accepts qs c ↔ Accepts ps c) : after qs = after ps := by
  have hqs : CollisionFree qs := fun c d hc hd => h c d ((hsame c).mp hc) ((hsame d).mp hd)
  have hflows : (after qs).flows = (after ps).flows := Table.eq_of_get? fun tag => by
    apply Option.ext
    intro config
    rw [← resolve_eq_ok_iff, ← resolve_eq_ok_iff, h.resolve_iff, hqs.resolve_iff, hsame]
  exact congrArg Catalog.mk hflows

/-- What is found under a tag was accepted with that tag and stays. Without collisions of digests
every accepted flow is found under its tag, and tags tell apart what is written differently. -/
theorem published_flows_stay (ps : List Publication) :
    (∀ tag c, (after ps).resolve tag = .ok c → Accepts ps c ∧ c.tag = tag ∧
      ∀ more, (after (ps ++ more)).resolve tag = .ok c) ∧
    (∀ p e, (after ps).publish p.config p.registry = .error e →
      ∀ tag, (after (ps ++ [p])).resolve tag = (after ps).resolve tag) ∧
    (∀ p tag c, (after ps).publish p.config p.registry = .ok (tag, c) →
      CollisionFree (ps ++ [p]) → c = after (ps ++ [p]) ∧ c.resolve tag = .ok p.config) ∧
    (CollisionFree ps →
      (∀ c d, Accepts ps c → Accepts ps d → (c.tag = d.tag ↔ c = d)) ∧
      (∀ c d, Accepts ps c → Accepts ps d → c.Unsigned → d.Unsigned →
        (c.tag = d.tag ↔ c.SameValue d)) ∧
      ∀ qs, (∀ c, Accepts qs c ↔ Accepts ps c) → after qs = after ps) := by
  have hconcat (p : Publication) : after (ps ++ [p]) = (after ps).offer p := by
    simp [after]
  refine ⟨fun tag c h => ?_, fun p e h tag => ?_, fun p tag c h hfree => ?_, fun hfree => ?_⟩
  · obtain ⟨haccepts, htag⟩ := accepts_of_resolve h
    exact ⟨haccepts, htag, fun more => resolve_append h⟩
  · rw [hconcat, offer, h]
  · have hnext : after (ps ++ [p]) = c := by rw [hconcat, offer, h]
    obtain ⟨hw, rfl, -⟩ := publish_eq_ok h
    have haccepts : Accepts (ps ++ [p]) p.config :=
      ⟨p, by simp, rfl, StepTree.validate_eq_ok_iff.mpr hw⟩
    exact ⟨hnext.symm, hnext ▸ hfree.resolve haccepts⟩
  · refine ⟨fun c d => hfree.tag_eq_iff, fun c d hc hd huc hud => ?_, fun qs => hfree.after_eq⟩
    rw [hfree.tag_eq_iff hc hd, huc.sameValue_iff hud]

def rated (rate : Double) : FlowConfig where
  name := "rates"
  tree := ⟨[⟨"desk", [{
    name := "rate"
    stepType := "message"
    arguments := .ofList [("rate", .num (.double rate)), ("text", .str "Welcome.")]
    actions := []
    exitPath := none
    resetTarget := none
    switchTarget := none
    retryCount := none }], true⟩]⟩

def zero : Double := ⟨0⟩

def negativeZero : Double := ⟨0x8000000000000000⟩

theorem rated_tag_ne : (rated zero).tag ≠ (rated negativeZero).tag := by decide +kernel

theorem collisionFree_rated : CollisionFree
    [⟨rated zero, .builtins⟩, ⟨rated negativeZero, .builtins⟩] := by
  rintro c d ⟨p, hp, rfl, -⟩ ⟨q, hq, rfl, -⟩ htag
  simp only [List.mem_cons, List.not_mem_nil, or_false] at hp hq
  rcases hp with rfl | rfl <;> rcases hq with rfl | rfl
  · rfl
  · exact absurd htag rated_tag_ne
  · exact absurd htag.symm rated_tag_ne
  · rfl

/-- Two flows that differ in the sign of a zero are equal values under two tags. -/
theorem published_flows_stay_zeros :
    let ps : List Publication := [⟨rated zero, .builtins⟩, ⟨rated negativeZero, .builtins⟩]
    CollisionFree ps ∧ Accepts ps (rated zero) ∧ Accepts ps (rated negativeZero) ∧
      (rated zero).SameValue (rated negativeZero) ∧
      (rated zero).tag ≠ (rated negativeZero).tag := by
  have hzero : Accepts [⟨rated zero, .builtins⟩, ⟨rated negativeZero, .builtins⟩] (rated zero) :=
    ⟨⟨rated zero, .builtins⟩, by simp, rfl, rfl⟩
  have hnegative : Accepts [⟨rated zero, .builtins⟩, ⟨rated negativeZero, .builtins⟩]
      (rated negativeZero) := ⟨⟨rated negativeZero, .builtins⟩, by simp, rfl, rfl⟩
  have hne : rated zero ≠ rated negativeZero := fun h => rated_tag_ne (congrArg _ h)
  obtain ⟨-, -, -, hfree⟩ :=
    published_flows_stay [⟨rated zero, .builtins⟩, ⟨rated negativeZero, .builtins⟩]
  refine ⟨collisionFree_rated, hzero, hnegative, by decide, ?_⟩
  exact fun htag => hne (((hfree collisionFree_rated).1 _ _ hzero hnegative).mp htag)

end Catalog
end CallFlow
