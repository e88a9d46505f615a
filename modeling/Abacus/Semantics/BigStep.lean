import Abacus.Semantics.Tree
import Abacus.Machine.Basic

/-!
# Running bodies as trees

The meaning of a body read as a tree, given as rules. An item, an alternative or a group runs
from a register with a chain of calls (the names of the calls in progress, the innermost first)
and ends in a *result*: a register, a failure, or a call of a function that is not defined,
which stops everything. It also shows text: `!` the register and `@` the chain of calls.

* `+` adds one; `-` fails on zero and takes one away otherwise; `?` does nothing.
* An alternative runs its items in order and stops at the first that does not end with a
  register.
* A group runs its alternatives in order from the register it was entered with: the first that
  ends with a register gives the group's register; the next is tried when one fails; when all
  fail the group fails. A call of an undefined function stops the group.
* A call runs the body of the function, with its name on the chain.

A call that never ends has no result: no rule applies.

## Main definitions

* `Result` — how a piece of a body ends.
* `RunItem`, `RunSeq`, `RunGroup` — the rules.
-/

namespace Abacus

/-- How a piece of a body ends. -/
inductive Result where
  /-- With the register. -/
  | ok (n : Nat)
  /-- With a failure. -/
  | fail
  /-- With a call of a function that is not defined. -/
  | undefined (name : Bytes)
  deriving DecidableEq, Repr

/-- Whether a result goes on to the next item: only a register does. -/
def Result.isOk : Result → Bool
  | .ok _ => true
  | _ => false

mutual

/-- An item runs from register `n` with call chain `chain` to a result, showing `out`. -/
inductive RunItem (bodies : Bytes → Option (List (List Item))) :
    List Bytes → Nat → Item → Result → Text → Prop
  /-- `+` adds one. -/
  | plus {chain n} : RunItem bodies chain n .plus (.ok (n + 1)) []
  /-- `-` fails on zero. -/
  | minusZero {chain} : RunItem bodies chain 0 .minus .fail []
  /-- `-` takes one away from a positive register. -/
  | minusSucc {chain n} : RunItem bodies chain (n + 1) .minus (.ok n) []
  /-- `?` does nothing. -/
  | query {chain n} : RunItem bodies chain n .query (.ok n) []
  /-- `!` shows the register. -/
  | bang {chain n} : RunItem bodies chain n .bang (.ok n) (Display.register n).render
  /-- `@` shows the chain of calls. -/
  | atSign {chain n} : RunItem bodies chain n .atSign (.ok n) (Display.calls chain).render
  /-- A call of a function with no body stops. -/
  | callUndefined {chain n f} : bodies f = none → RunItem bodies chain n (.call f) (.undefined f) []
  /-- A call runs the function's body with its name on the chain. -/
  | call {chain n f body r out} :
      bodies f = some body → RunGroup bodies (f :: chain) n body r out →
      RunItem bodies chain n (.call f) r out
  /-- A nested group runs as a group. -/
  | group {chain n alts r out} :
      RunGroup bodies chain n alts r out → RunItem bodies chain n (.group alts) r out

/-- An alternative runs its items in order. -/
inductive RunSeq (bodies : Bytes → Option (List (List Item))) :
    List Bytes → Nat → List Item → Result → Text → Prop
  /-- No item keeps the register. -/
  | nil {chain n} : RunSeq bodies chain n [] (.ok n) []
  /-- An item that ends with a register hands it to the rest. -/
  | cons {chain n i is m r out₁ out₂} :
      RunItem bodies chain n i (.ok m) out₁ → RunSeq bodies chain m is r out₂ →
      RunSeq bodies chain n (i :: is) r (out₁ ++ out₂)
  /-- An item that does not end with a register ends the alternative. -/
  | stop {chain n i is r out} :
      RunItem bodies chain n i r out → r.isOk = false → RunSeq bodies chain n (i :: is) r out

/-- A group runs its alternatives in order, each from the register the group was entered with. -/
inductive RunGroup (bodies : Bytes → Option (List (List Item))) :
    List Bytes → Nat → List (List Item) → Result → Text → Prop
  /-- With no alternative left, the group fails. -/
  | nil {chain n} : RunGroup bodies chain n [] .fail []
  /-- An alternative that ends with a register gives the group's register. -/
  | first {chain n a as m out} :
      RunSeq bodies chain n a (.ok m) out → RunGroup bodies chain n (a :: as) (.ok m) out
  /-- An alternative that fails passes on to the next, from the same register. -/
  | next {chain n a as r out₁ out₂} :
      RunSeq bodies chain n a .fail out₁ → RunGroup bodies chain n as r out₂ →
      RunGroup bodies chain n (a :: as) r (out₁ ++ out₂)
  /-- A call of an undefined function stops the group. -/
  | stuck {chain n a as f out} :
      RunSeq bodies chain n a (.undefined f) out → RunGroup bodies chain n (a :: as) (.undefined f) out

end

end Abacus
