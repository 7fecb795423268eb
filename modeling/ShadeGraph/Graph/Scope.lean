import ShadeGraph.Graph.Pin

/-!
# Scopes

Where the result of a node is needed: everywhere, or only by some branches of a conditional node, in which case its
code can stand inside those branches. The branches are kept as a mask with one bit for each input of the conditional.
-/

namespace ShadeGraph

/-- A set of branches of one conditional. -/
abbrev Mask := BitVec 32

/-- The number of inputs that a conditional may have. -/
def maxBranches : Nat := 32

/-- The mask of the input at a position; no mask has a bit for a position beyond the limit. -/
def branchBit (index : Nat) : Mask := if index < maxBranches then BitVec.twoPow 32 index else 0

/-- Where the result of a node is needed. -/
inductive Scope where
  /-- Not known yet. -/
  | unknown
  /-- Needed whatever the conditionals choose. -/
  | everywhere
  /-- Needed only by some branches of one conditional, which has the branches of the full mask. -/
  | branches (conditional : NodeId) (mask full : Mask)
  /-- Needed by branches of several conditionals. -/
  | several
  deriving DecidableEq, Inhabited

namespace Scope

/-- The scope of a node that is needed where either scope says. -/
def merge : Scope → Scope → Scope
  | unknown, incoming => incoming
  | _, everywhere => everywhere
  | everywhere, _ => everywhere
  | scope, unknown => scope
  | branches conditional mask full, branches other otherMask _ =>
    if conditional = other then
      if mask ||| otherMask = full then everywhere else branches conditional (mask ||| otherMask) full
    else several
  | _, _ => several

/-- What a scope of a conditional means for the node at one of its branch inputs. -/
def throughBranch (scope : Scope) (conditional : NodeId) (index : Nat) (full : Mask) : Scope :=
  match scope with
  | everywhere => branches conditional (branchBit index) full
  | branches _ mask own => if mask = own then branches conditional (branchBit index) full else several
  | scope => scope

/-- Whether the code of the node stands inside a branch of a conditional. -/
def isInBranch (scope : Scope) (conditional : NodeId) (index : Nat) : Bool :=
  match scope with
  | branches c mask _ => c == conditional && (mask &&& branchBit index) != 0
  | _ => false

/-- Whether the code of the node stands outside of all branches. -/
def isTopLevel : Scope → Bool
  | branches _ _ _ => false
  | _ => true

end Scope
end ShadeGraph
