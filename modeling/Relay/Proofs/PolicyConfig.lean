import Relay.Policy.Config
import Relay.Proofs.Policy
/-!
# What a configured policy becomes

A configured policy is turned into a policy from the bottom up: every leaf is checked on its own,
and every chain is flattened and checked before the chain it stands in is looked at. Written down
directly (`plain`) the same policy nests its chains and is flattened once, at the top. The two come
to the same: the conversion is the check of all nodes of the direct translation, members first, and
then its flattening (`toPolicy_eq`). A chain that is fine alone can still be refused in its place,
since the outer chain is checked on all members of the inner one.

Results:
- `Policy.flattenAll_flat`, `Policy.flat_validate`: members that are flat already change neither
  the flattening of a chain nor its check.
- `PolicyConfig.toPolicy_eq`: what the conversion answers, errors included.
- `PolicyConfig.converts_faithfully`: what is accepted, and what it means.
-/
namespace Relay

namespace Policy

/-- The policy with its nested chains replaced by their members. -/
def flat : Policy → Policy
  | .chain ps => .chain (flattenAll ps)
  | p => p

/-- The policies asked in order: those of a chain, or the policy itself. -/
def members : Policy → List Policy
  | .chain ps => ps
  | p => [p]

mutual

/-- The policy and everything nested in it, the members of a chain before the chain. -/
def nodes : Policy → List Policy
  | .chain ps => nodesAll ps ++ [.chain ps]
  | p => [p]

def nodesAll : List Policy → List Policy
  | [] => []
  | p :: ps => nodes p ++ nodesAll ps

end

theorem flatten_flat (p : Policy) : flatten p.flat = flatten p := by
  cases p with
  | chain ps => exact flattenAll_flattenAll ps
  | _ => rfl

theorem flattenAll_flat (ps : List Policy) : flattenAll (ps.map flat) = flattenAll ps := by
  induction ps with
  | nil => rfl
  | cons p ps ih => rw [List.map_cons, flattenAll, flatten_flat, ih, flattenAll]

theorem members_flat (p : Policy) : p.flat.members = p.flatten := by
  cases p with
  | chain ps => rfl
  | _ => rfl

/-- A policy is checked as its flattening is. -/
theorem flat_validate (p : Policy) : p.flat.validate = p.validate := by
  cases p with
  | chain ps => exact (validate_flattened ps).symm
  | _ => rfl

theorem decide_flat (n : UInt32) (p : Policy) : decide n p.flat = decide n p := by
  rw [← decide_flatten, flatten_flat, decide_flatten]

theorem mem_nodes_self (p : Policy) : p ∈ p.nodes := by
  cases p with
  | chain ps => exact List.mem_append_right _ (List.mem_singleton_self _)
  | _ => exact List.mem_singleton_self _

/-- A chain of flat policies is built as the chain of the policies themselves. -/
theorem mkChain_flat (ps : List Policy) :
    mkChain (ps.map flat) = (validate (.chain ps)).map fun _ => flat (.chain ps) := by
  rw [mkChain_eq, validate_flattened (ps.map flat), flattenAll_flat, ← validate_flattened]
  rfl

/-- Checks one policy after the other, up to the first that is refused. -/
def validateEach (ps : List Policy) : Except PolicyError Unit := forM ps validate

theorem validateEach_append (ps qs : List Policy) :
    validateEach (ps ++ qs) = validateEach ps >>= fun _ => validateEach qs :=
  List.forM_append

theorem validateEach_singleton (p : Policy) : validateEach [p] = p.validate := by
  unfold validateEach
  rw [List.forM_cons]
  cases p.validate <;> rfl

theorem validateEach_ok {ps : List Policy} :
    validateEach ps = .ok () ↔ ∀ p ∈ ps, p.validate = .ok () := by
  induction ps with
  | nil => exact ⟨fun _ => nofun, fun _ => rfl⟩
  | cons p ps ih =>
    have hcons : validateEach (p :: ps) = p.validate >>= fun _ => validateEach ps := by
      rw [← List.singleton_append, validateEach_append, validateEach_singleton]
    rw [hcons, List.forall_mem_cons, ← ih]
    cases p.validate with
    | error e => exact ⟨nofun, nofun⟩
    | ok _ => exact ⟨fun h => ⟨rfl, h⟩, And.right⟩

end Policy

namespace PolicyConfig

mutual

/-- The policy as it is written, neither checked nor flattened. -/
def plain : PolicyConfig → Policy
  | .skip => .skip
  | .retry n initial increment => .retry ⟨n, initial, increment⟩
  | .move e n => .move e n
  | .chain cs => .chain (plainAll cs)

def plainAll : List PolicyConfig → List Policy
  | [] => []
  | c :: cs => plain c :: plainAll cs

end

open Policy

/-- A policy without members is checked and kept. -/
theorem checked_leaf (p : Policy) (hs : p.Single) :
    (p.validate >>= fun _ => pure p : Except PolicyError Policy) =
      (validateEach p.nodes).map fun _ => p.flat := by
  have hnodes : p.nodes = [p] := by
    cases p with
    | chain ps => cases hs
    | _ => rfl
  have hflat : p.flat = p := by
    cases p with
    | chain ps => cases hs
    | _ => rfl
  rw [hnodes, hflat, validateEach_singleton]
  cases p.validate <;> rfl

mutual

/-- **The conversion checks every node of the direct translation**, members before the chain they
stand in, and answers with the first error, or with the flattening. -/
theorem toPolicy_eq : ∀ c : PolicyConfig,
    c.toPolicy = (validateEach c.plain.nodes).map fun _ => c.plain.flat
  | .skip => rfl
  | .retry n initial increment => by
    rw [toPolicy]
    exact checked_leaf (.retry ⟨n, initial, increment⟩) trivial
  | .move e n => by
    rw [toPolicy]
    exact checked_leaf (.move e n) trivial
  | .chain cs => by
    rw [toPolicy, toPolicies_eq cs, plain, nodes, validateEach_append]
    cases validateEach (nodesAll (plainAll cs)) with
    | error e => rfl
    | ok _ => exact (mkChain_flat _).trans (by rw [validateEach_singleton]; rfl)

theorem toPolicies_eq : ∀ cs : List PolicyConfig,
    toPolicies cs = (validateEach (nodesAll (plainAll cs))).map fun _ => (plainAll cs).map flat
  | [] => rfl
  | c :: cs => by
    rw [toPolicies, toPolicy_eq c, toPolicies_eq cs, plainAll, nodesAll, validateEach_append]
    cases validateEach c.plain.nodes with
    | error e => rfl
    | ok _ => cases validateEach (nodesAll (plainAll cs)) <;> rfl

end

theorem toPolicy_ok {c : PolicyConfig} {p : Policy} : c.toPolicy = .ok p ↔
    (∀ q ∈ c.plain.nodes, q.validate = .ok ()) ∧ p = c.plain.flat := by
  rw [toPolicy_eq, ← validateEach_ok]
  cases validateEach c.plain.nodes with
  | error e => exact ⟨nofun, nofun⟩
  | ok _ => exact ⟨fun h => by cases h; exact ⟨rfl, rfl⟩, fun h => by rw [h.2]; rfl⟩

theorem toPolicy_valid {c : PolicyConfig} {p : Policy} (h : c.toPolicy = .ok p) :
    p.validate = .ok () := by
  obtain ⟨hvalid, rfl⟩ := toPolicy_ok.mp h
  rw [flat_validate]
  exact hvalid _ (mem_nodes_self _)

/-- **A configured policy is accepted exactly when every node of its direct translation is valid.**
What it becomes is valid, holds no nested chain, has the members of the translation in their order,
and decides as the translation does after any number of failures. -/
theorem converts_faithfully (c : PolicyConfig) :
    ((∃ p, c.toPolicy = .ok p) ↔ ∀ q ∈ c.plain.nodes, q.validate = .ok ()) ∧
    ∀ p, c.toPolicy = .ok p →
      p.validate = .ok () ∧ (∀ q ∈ p.members, q.Single) ∧ p.members = c.plain.flatten ∧
      ∀ n, decide n p = decide n c.plain := by
  refine ⟨⟨fun ⟨p, h⟩ => (toPolicy_ok.mp h).1, fun h => ⟨_, toPolicy_ok.mpr ⟨h, rfl⟩⟩⟩, ?_⟩
  intro p h
  have hvalid := toPolicy_valid h
  obtain ⟨-, rfl⟩ := toPolicy_ok.mp h
  refine ⟨hvalid, ?_, members_flat _, fun n => decide_flat n _⟩
  rw [members_flat]
  exact fun q => single_of_flatten

/-- Retries, and then a place for what they could not save. -/
def fallback : PolicyConfig :=
  .chain [.chain [.retry 3 1000 500], .move ⟨"dead letters", none, []⟩ 5]

theorem fallback_converts :
    fallback.toPolicy =
        .ok (.chain [.retry ⟨3, 1000, 500⟩, .move ⟨"dead letters", none, []⟩ 5]) ∧
      ∀ n, decide n (.chain [.retry ⟨3, 1000, 500⟩, .move ⟨"dead letters", none, []⟩ 5]) =
        decide n fallback.plain :=
  ⟨rfl, ((converts_faithfully fallback).2 _ rfl).2.2.2⟩

/-- A chain that ends in a skip is fine alone, but not before another policy. -/
example : (chain [.chain [.skip], .skip]).toPolicy = .error (.notLast "Skip") := rfl

end PolicyConfig

end Relay
