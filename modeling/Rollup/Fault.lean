import Rollup.Counter

/-!
Why an operation on nodes or paths fails. A fault is a cause; its wording is in `message`.
-/
namespace Rollup

inductive Inconsistency where
  | counter (fault : Counter.Fault)
  | unbalanced (id : NodeId) (total own inherited children : UInt64)
  | workerStopped
  deriving DecidableEq, Repr

def Inconsistency.message : Inconsistency → String
  | .counter fault => fault.message
  | .unbalanced id total own inherited children =>
    "node " ++ id.text ++ ": total " ++ Decimal.text total.toNat ++ " != own " ++
      Decimal.text own.toNat ++ " + inherited " ++ Decimal.text inherited.toNat ++
      " + children " ++ Decimal.text children.toNat
  | .workerStopped => "flush worker is not running"

inductive NodeFault where
  | notFound (id : NodeId)
  | alreadyExists (id : NodeId)
  | hasChildren (id : NodeId) (children : Nat)
  | rootKept
  | inconsistent (cause : Inconsistency)
  deriving DecidableEq, Repr

def NodeFault.message : NodeFault → String
  | .notFound id => "Node " ++ id.text ++ " not found"
  | .alreadyExists id => "Node " ++ id.text ++ " already exists"
  | .hasChildren id children =>
    "Node " ++ id.text ++ " still has " ++ Decimal.text children ++ " children"
  | .rootKept => "The root node cannot be removed"
  | .inconsistent cause => "Inconsistent statistics state: " ++ cause.message

end Rollup
