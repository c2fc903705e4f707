import Dianemo.Members

namespace Dianemo

open JsNumber

/-- What a hash field's string says to the code that reads it back: a number
as `String` prints it (any spelling `Number` reads as that number), a number
printed with an exponent where `String` prints none, a per-limit cost as
`JSON.stringify` prints it, or any other text. -/
inductive Field where
  | num (x : JsNumber)
  | exponential (q : ℚ)
  | record (amounts : List (String × JsNumber))
  | text (s : String)
  deriving DecidableEq

abbrev Fields := AList fun _ : String => Field

abbrev Scores := AList fun _ : String => ℚ

/-- One key of the store. -/
structure Entry where
  expiresAt : Option ℚ := none
  hash : Option Fields := none
  set : Option (Finset String) := none
  zset : Option Scores := none
  str : Option String := none

/-- `MemoryBackend`: its keys, and the source of bucket epochs. -/
structure State where
  store : String → Option Entry
  epochs : Nat

/-- A thrown `RangeError`: its message around the number it names. -/
structure RangeError where
  before : String
  received : JsNumber
  after : String := ""
  deriving DecidableEq

/-- One backend operation. A throw keeps the state reached so far, as a
JavaScript exception does. -/
structure Op (α : Type) where
  run : State → Except RangeError α × State

namespace Op

def bind {α β : Type} (x : Op α) (f : α → Op β) : Op β where
  run s := match x.run s with
    | (.ok a, s') => (f a).run s'
    | (.error e, s') => (.error e, s')

instance : Monad Op where
  pure a := ⟨fun s => (.ok a, s)⟩
  bind := Op.bind

def read : Op State := ⟨fun s => (.ok s, s)⟩

def modify (f : State → State) : Op Unit := ⟨fun s => (.ok (), f s)⟩

def lift {α : Type} (x : Except RangeError α) : Op α := ⟨fun s => (x, s)⟩

/-- `for (const x of xs) f(x)`. -/
def forEach {α : Type} (xs : List α) (f : α → Op Unit) : Op Unit :=
  match xs with
  | [] => pure ()
  | x :: rest => do
    f x
    forEach rest f

@[simp] theorem run_pure {α : Type} (a : α) (s : State) : (pure a : Op α).run s = (.ok a, s) := rfl

@[simp] theorem run_read (s : State) : read.run s = (.ok s, s) := rfl

@[simp] theorem run_modify (f : State → State) (s : State) : (modify f).run s = (.ok (), f s) := rfl

@[simp] theorem run_lift {α : Type} (x : Except RangeError α) (s : State) : (lift x).run s = (x, s) := rfl

theorem run_bind_ok {α β : Type} {x : Op α} {s s' : State} {a : α} (run : x.run s = (.ok a, s')) (f : α → Op β) :
    (x >>= f).run s = (f a).run s' := by
  change (match x.run s with
    | (.ok a, s') => (f a).run s'
    | (.error e, s') => (.error e, s')) = _
  rw [run]

theorem run_bind_error {α β : Type} {x : Op α} {s s' : State} {e : RangeError} (run : x.run s = (.error e, s'))
    (f : α → Op β) : (x >>= f).run s = (.error e, s') := by
  change (match x.run s with
    | (.ok a, s') => (f a).run s'
    | (.error e, s') => (.error e, s')) = _
  rw [run]

end Op

/-- `REDIS_MAX_TTL_SECONDS`. -/
def redisMaxTtlSeconds : ℚ := 9200000000000000

def normalizeTtlSeconds : JsNumber → Except RangeError ℚ
  | .fin q =>
    if redisMaxTtlSeconds < q then
      .error ⟨"ttlSeconds ", q, " exceeds the maximum a backend can store (9200000000000000)"⟩
    else if q ≤ 0 then .ok 0
    else .ok ⌈q⌉
  | x => .error ⟨"ttlSeconds must be a finite number, received ", x, ""⟩

def normalizeStateTtlSeconds (ttlSeconds : JsNumber) : Except RangeError ℚ := do
  let ttl ← normalizeTtlSeconds ttlSeconds
  if ttl ≤ 0 then
    .error ⟨"ttlSeconds must be greater than 0 for a key holding rate-limit state, received ", ttlSeconds, ""⟩
  else .ok ttl

def parseStoredNumber (raw : Option Field) (fallback : JsNumber) : JsNumber :=
  match raw with
  | some (.num x) => if x = nan then fallback else x
  | some (.exponential q) => fin q
  | _ => fallback

def parseFiniteStored (raw : Option Field) (fallback : JsNumber) : JsNumber :=
  if (parseStoredNumber raw fallback).isFinite then parseStoredNumber raw fallback else fallback

/-- Whether the entry has lapsed at `now`. -/
def Entry.expired (e : Entry) (now : ℚ) : Bool :=
  match e.expiresAt with
  | some t => decide (t ≤ now)
  | none => false

/-- The size `dropIfEmpty` measures: the first collection the entry has. -/
def Entry.size (e : Entry) : Option Nat :=
  match e.set, e.zset, e.hash with
  | some members, _, _ => some members.card
  | none, some z, _ => some z.entries.length
  | none, none, some h => some h.entries.length
  | none, none, none => none

namespace State

/-- A fresh backend. -/
def fresh : State := ⟨fun _ => none, 0⟩

/-- The live entry for `key`. The source also drops an expired entry from its
map here; with a clock that only moves on no later read can tell. -/
def live (s : State) (key : String) (now : ℚ) : Option Entry :=
  (s.store key).filter fun e => !e.expired now

def put (s : State) (key : String) (e : Entry) : State :=
  { s with store := Function.update s.store key (some e) }

def delete (s : State) (key : String) : State :=
  { s with store := Function.update s.store key none }

/-- `entry`: the live entry, or a new one. -/
def entry (s : State) (key : String) (now : ℚ) : Entry := (s.live key now).getD {}

def hash (s : State) (key : String) (now : ℚ) : Option Fields := (s.live key now).bind Entry.hash

def zset (s : State) (key : String) (now : ℚ) : Option Scores := (s.live key now).bind Entry.zset

def hget (s : State) (key field : String) (now : ℚ) : Option Field :=
  (s.hash key now).bind (·.lookup field)

/-- `this.hash(key).set(field, value)` for each of `fields` in turn. -/
def setFields (s : State) (key : String) (now : ℚ) (fields : List (String × Field)) : State :=
  let e := s.entry key now
  s.put key { e with hash := some (fields.foldl (fun h f => h.insert f.1 f.2) (e.hash.getD ∅)) }

/-- `this.zset(key).set(member, score)`. -/
def setScore (s : State) (key : String) (now : ℚ) (member : String) (score : ℚ) : State :=
  let e := s.entry key now
  s.put key { e with zset := some ((e.zset.getD ∅).insert member score) }

def dropIfEmpty (s : State) (key : String) : State :=
  match s.store key with
  | none => s
  | some e => if e.size = some 0 then s.delete key else s

/-- Whether `a` comes before `b` in a sorted set: by score, then by bytes. -/
def scoreLe (a b : String × ℚ) : Prop :=
  a.2 < b.2 ∨ a.2 = b.2 ∧ compareMembers (utf16 a.1) (utf16 b.1) ≤ 0

instance : DecidableRel scoreLe := fun a b =>
  inferInstanceAs (Decidable (a.2 < b.2 ∨ a.2 = b.2 ∧ compareMembers (utf16 a.1) (utf16 b.1) ≤ 0))

/-- `sorted`: members of a sorted set by score then by bytes. -/
def sorted (s : State) (key : String) (now : ℚ) : List String :=
  match s.zset key now with
  | none => []
  | some z => ((z.entries.map fun e => (e.1, e.2)).insertionSort scoreLe).map Prod.fst

end State

/-- `expire`: the TTL is read before the key is touched. -/
def expire (key : String) (ttlSeconds : JsNumber) (now : ℚ) : Op Unit := do
  let ttl ← Op.lift (normalizeTtlSeconds ttlSeconds)
  Op.modify fun s =>
    match s.live key now with
    | none => s
    | some e => if ttl ≤ 0 then s.delete key else s.put key { e with expiresAt := some (now + ttl * 1000) }

end Dianemo
