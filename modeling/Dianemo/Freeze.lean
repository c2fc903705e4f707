import Dianemo.Store

namespace Dianemo

open JsNumber

/-- A stored freeze deadline, if the field can serve as one. -/
def usableDeadline (raw : Option Field) : Option ℚ :=
  match parseStoredNumber raw nan with
  | .fin q => some q
  | _ => none

namespace State

/-- Inside the freeze window, or past it with probes still owed. -/
def freezeBlocksAdmission (s : State) (freezeKey : String) (now : ℚ) : Bool :=
  match usableDeadline (s.hget freezeKey "frozenUntil" now) with
  | none => false
  | some frozenUntil =>
    decide (now < frozenUntil) || decide (0 < parseFiniteStored (s.hget freezeKey "thawRequestCount" now) 0)

/-- Whether a refund must be refused. An absent `emptiesBucket` reads as emptying. -/
def freezeEmptiedBucket (s : State) (freezeKey : String) (now : ℚ) : Bool :=
  decide (fin now < parseFiniteStored (s.hget freezeKey "frozenUntil" now) 0) &&
    decide (s.hget freezeKey "emptiesBucket" now ≠ some (.text "0"))

end State

structure FreezeState where
  frozenUntil : ℚ
  thawRequestCount : JsNumber

def readFreezeState (s : State) (key : String) (now : ℚ) : Option FreezeState :=
  match usableDeadline (s.hget key "frozenUntil" now) with
  | none => none
  | some frozenUntil =>
    let thawRequestCount := parseFiniteStored (s.hget key "thawRequestCount" now) 0
    if frozenUntil ≤ now ∧ thawRequestCount ≤ 0 then none else some ⟨frozenUntil, thawRequestCount⟩

structure CanProcess where
  canProcess : Bool
  isThawRequest : Bool
  frozenUntil : Option ℚ

def canProcessRequest (s : State) (key : String) (now : ℚ) : CanProcess :=
  match readFreezeState s key now with
  | none => ⟨true, false, none⟩
  | some state =>
    if now < state.frozenUntil then ⟨false, false, some state.frozenUntil⟩
    else ⟨true, true, some state.frozenUntil⟩

end Dianemo
