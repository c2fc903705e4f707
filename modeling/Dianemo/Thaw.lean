import Dianemo.Follow
import Dianemo.Library.Timed

namespace Dianemo

open JsNumber

/-- `Math.trunc`. -/
def JsNumber.trunc : JsNumber → JsNumber
  | fin q => if 0 ≤ q then fin ⌊q⌋ else fin ⌈q⌉
  | x => x

/-- `Number.MAX_SAFE_INTEGER`. -/
def maxSafeInteger : ℚ := 9007199254740991

/-- `FREEZE_PROBE_TTL_SECONDS`. -/
def freezeProbeTtlSeconds : ℚ := 604800

/-- A freeze field as it is stored and returned: truncated towards zero and clamped. -/
def storable (value : JsNumber) (least : ℚ) : JsNumber :=
  (value.trunc.max (fin least)).min (fin maxSafeInteger)

/-- The lifetime of a freeze key: the rest of the window, and time for the probes it owes. -/
def freezeTtlSeconds (frozenUntil thawRequestCount : JsNumber) (now : ℚ) : JsNumber :=
  ((frozenUntil - fin now) / 1000).ceil.max 0 +
    if 0 < thawRequestCount then fin freezeProbeTtlSeconds else 60

/-- Whether a write replaces the standing freeze or is merged with it. -/
inductive FreezeMode where
  | set
  | max
  deriving DecidableEq

structure FreezeWrite where
  frozenUntil : JsNumber
  thawRequestCount : JsNumber
  emptiesBucket : Bool

/-- The merge of `armFreeze`: an unusable stored deadline is no freeze to merge with. -/
def mergeFreeze (s : State) (key : String) (write : FreezeWrite) (now : ℚ) : FreezeWrite :=
  match usableDeadline (s.hget key "frozenUntil" now) with
  | none => write
  | some existingUntil =>
    let existingThaw := parseFiniteStored (s.hget key "thawRequestCount" now) 0
    { frozenUntil := if write.frozenUntil < fin existingUntil then fin existingUntil else write.frozenUntil
      thawRequestCount := if write.thawRequestCount < existingThaw then existingThaw else write.thawRequestCount
      emptiesBucket := write.emptiesBucket ||
        (decide (now < existingUntil) && decide (s.hget key "emptiesBucket" now ≠ some (.text "0"))) }

def writeFreezeState (key : String) (frozenUntil thawRequestCount : JsNumber)
    (mode : FreezeMode) (emptiesBucket : Bool) (now : ℚ) : Op (JsNumber × JsNumber) := do
  let s ← Op.read
  -- Sanitised before the merge, which a `NaN` would win by comparing false.
  let asked : FreezeWrite :=
    ⟨if frozenUntil.isFinite then frozenUntil else 0,
      if thawRequestCount.isFinite then thawRequestCount else 0, emptiesBucket⟩
  let merged := match mode with
    | .set => asked
    | .max => mergeFreeze s key asked now
  let frozenUntil := storable merged.frozenUntil (-maxSafeInteger)
  let thawRequestCount := storable merged.thawRequestCount 0
  let ttl ← Op.lift (normalizeTtlSeconds (freezeTtlSeconds frozenUntil thawRequestCount now))
  Op.modify fun s => s.setFields key now [("frozenUntil", .num frozenUntil),
    ("thawRequestCount", .num thawRequestCount),
    ("emptiesBucket", .text (if merged.emptiesBucket then "1" else "0"))]
  expire key ttl now
  pure (frozenUntil, thawRequestCount)

def setFreezeState (key : String) (frozenUntil thawRequestCount : JsNumber) (emptiesBucket : Bool) (now : ℚ) :
    Op (JsNumber × JsNumber) :=
  writeFreezeState key frozenUntil thawRequestCount .set emptiesBucket now

def armFreeze (key : String) (frozenUntil thawRequestCount : JsNumber) (emptiesBucket : Bool) (now : ℚ) :
    Op (JsNumber × JsNumber) :=
  writeFreezeState key frozenUntil thawRequestCount .max emptiesBucket now

/-- `this.setOf(key).add(member)`. -/
def State.addMember (s : State) (key : String) (now : ℚ) (member : String) : State :=
  let e := s.entry key now
  s.put key { e with set := some (insert member (e.set.getD ∅)) }

def thawCompletionsKey (key : String) : String := key ++ ":thawCompletions"

/-- Whether a completion was recorded before; an absent id never was. -/
def completionSeen (s : State) (key : String) (completionId : Option String) (now : ℚ) : Bool :=
  match completionId with
  | none => false
  | some id => decide (id ≠ "") &&
      ((s.live (thawCompletionsKey key) now).bind Entry.set).elim false fun members => decide (id ∈ members)

/-- A completion is recorded before the freeze is read, so that a redelivery is
known for one even when no freeze stood the first time. -/
def recordCompletion (key : String) (completionId : Option String) (now : ℚ) : Op Unit :=
  match completionId with
  | none => pure ()
  | some id => do
    let s ← Op.read
    if id = "" ∨ completionSeen s key completionId now then pure ()
    else
      Op.modify fun s => s.addMember (thawCompletionsKey key) now id
      expire (thawCompletionsKey key) (fin freezeProbeTtlSeconds) now

def updateThawProgress (key : String) (success : Bool) (completionId : Option String) (now : ℚ) :
    Op (Option FreezeState) := do
  let s ← Op.read
  let alreadySeen := completionSeen s key completionId now
  recordCompletion key completionId now
  let s ← Op.read
  match usableDeadline (s.hget key "frozenUntil" now) with
  | none => pure none
  | some frozenUntil =>
    let thawRequestCount := parseFiniteStored (s.hget key "thawRequestCount" now) 0
    if alreadySeen then pure (some ⟨frozenUntil, thawRequestCount⟩)
    else if frozenUntil ≤ now ∧ thawRequestCount ≤ 0 then
      Op.modify fun s => s.delete key
      pure none
    else if ¬ success then pure (some ⟨frozenUntil, thawRequestCount⟩)
    else
      let newCount := JsNumber.max 0 (thawRequestCount - 1)
      -- A window re-armed while this probe was in flight still stands.
      if newCount = 0 ∧ frozenUntil ≤ now then
        Op.modify fun s => s.delete key
        pure none
      else
        Op.modify fun s => s.setFields key now [("thawRequestCount", .num newCount)]
        expire key (freezeTtlSeconds (fin frozenUntil) newCount now) now
        pure (some ⟨frozenUntil, newCount⟩)

def tryAdmitNoLimit (s : State) (queueKey freezeKey : String) (now : ℚ) : Bool :=
  decide (s.sorted queueKey now = []) && !s.freezeBlocksAdmission freezeKey now

end Dianemo
