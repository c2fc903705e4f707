import Dianemo.Account

namespace Dianemo

open JsNumber

/-- The fields of a stored bucket are the account's numbers. -/
structure IsBucket (h : Fields) (b : Bucket) : Prop where
  tokens : h.lookup "tokens" = some (.num b.state.tokens)
  lastUpdate : h.lookup "lastUpdate" = some (.num b.state.lastUpdate)
  overflow : h.lookup "overflow" = some (.num b.state.overflow)
  fills : h.lookup "fills" = some (.num b.state.fills)
  generation : parseFiniteStored (h.lookup "generation") 0 = b.generation
  forgiven : parseFiniteStored (h.lookup "forgiven") 0 = b.forgiven
  epoch : h.lookup "epoch" = b.epoch.map fun n : ℕ => Field.num (fin n)

/-- Those of a stored mark. -/
structure IsMark (h : Fields) (m : Mark) : Prop where
  claimed : h.lookup "claimed" = some (.num m.claimed)
  overflow : h.lookup "overflow" = some (.num m.overflow)
  fills : h.lookup "fills" = some (.num m.fills)
  generation : h.lookup "generation" = some (.num m.generation)
  forgiven : h.lookup "forgiven" = some (.num m.forgiven)
  epoch : h.lookup "epoch" = some (.num (fin m.epoch))

/-- The hash a live key holds, and when the key lapses. -/
def State.Held (s : State) (key : String) (now : ℚ) (h : Fields) (expiresAt : ℚ) : Prop :=
  ∃ e, s.live key now = some e ∧ e.hash = some h ∧ e.expiresAt = some expiresAt

def BucketAt (s : State) (key : String) (now : ℚ) : Option Bucket → Prop
  | none => s.live key now = none
  | some b => ∃ h, s.Held key now h b.expiresAt ∧ IsBucket h b

def MarkAt (s : State) (key : String) (now : ℚ) : Option Mark → Prop
  | none => s.live key now = none
  | some m => ∃ h, s.Held key now h m.expiresAt ∧ IsMark h m

/-- The bucket key and the keys of the marks of `ids`. -/
def watch (key : String) (ids : Set String) : Set String := {k | k = key ∨ ∃ id ∈ ids, k = claimMarkKey key id}

/-- The store holds the account, as far as the marks of `ids` go. -/
structure Follows (key : String) (ids : Set String) (now : ℚ) (s : State) (a : Account) : Prop where
  bucket : BucketAt s key now a.bucket
  marks : ∀ id ∈ ids, MarkAt s (claimMarkKey key id) now (a.marks id)
  epochs : a.epochs ≤ s.epochs

/-- A stored number reads back as it is, where it is finite. -/
theorem parseFiniteStored_num (x fallback : JsNumber) :
    parseFiniteStored (some (.num x)) fallback = x.orElse fallback := by
  cases x with
  | nan => exact ite_self fallback
  | fin q => rfl
  | posInf => rfl
  | negInf => rfl

theorem parseFiniteStored_none (fallback : JsNumber) : parseFiniteStored none fallback = fallback :=
  ite_self fallback

theorem parseFiniteStored_finite (raw : Option Field) {fallback : JsNumber} (finite : fallback.isFinite = true) :
    (parseFiniteStored raw fallback).isFinite = true := by
  unfold parseFiniteStored
  split
  · assumption
  · exact finite

theorem parseFiniteStored_zero_finite (raw : Option Field) : (parseFiniteStored raw 0).isFinite = true :=
  parseFiniteStored_finite raw rfl

@[simp] theorem orElse_fin (q : ℚ) (fallback : JsNumber) : (fin q).orElse fallback = fin q := rfl

section Hashes

variable {s : State} {key : String} {now : ℚ}

theorem hash_of_held {h : Fields} {t : ℚ} (held : s.Held key now h t) : s.hash key now = some h := by
  obtain ⟨e, live, hash, -⟩ := held
  simp only [State.hash, live, Option.bind_some, hash]

theorem hget_of_held {h : Fields} {t : ℚ} (held : s.Held key now h t) (field : String) :
    s.hget key field now = h.lookup field := by
  simp only [State.hget, hash_of_held held, Option.bind_some]

theorem hget_of_absent (absent : s.live key now = none) (field : String) : s.hget key field now = none := by
  simp only [State.hget, State.hash, absent, Option.bind_none]

theorem entry_lookup (field : String) :
    ((s.entry key now).hash.getD (∅ : Fields)).lookup field = s.hget key field now := by
  cases found : s.live key now with
  | none => simp [State.entry, State.hget, State.hash, found]
  | some e =>
    simp only [State.entry, State.hget, State.hash, found, Option.getD_some, Option.bind_some]
    cases e.hash <;> simp

/-- Writing fields adds to the hash there was, for the lifetime given. -/
theorem held_putFields {ttl : ℚ} (positive : 0 < ttl) (fields : List (String × Field)) :
    (s.putFields key now fields ttl).Held key now
      (withFields ((s.entry key now).hash.getD ∅) fields) (now + ttl * 1000) := by
  refine ⟨_, State.live_put_self ?_, rfl, rfl⟩
  exact expired_of_lt rfl (by linarith)

theorem held_setFields {h : Fields} {t : ℚ} (held : s.Held key now h t) (fields : List (String × Field)) :
    (s.setFields key now fields).Held key now (withFields h fields) t := by
  obtain ⟨e, live, hash, lapses⟩ := held
  have same : s.entry key now = e := by simp [State.entry, live]
  refine ⟨_, State.live_put_self (s.entry_expired key now), ?_, ?_⟩
  · simp only [same, hash, Option.getD_some, withFields]
  · rw [same]
    exact lapses

end Hashes

section Buckets

variable {key : String} {ids : Set String} {now : ℚ} {s s' : State} {a : Account}

theorem BucketAt.hget {b : Bucket} (at_ : BucketAt s key now (some b)) :
    ∃ h : Fields, IsBucket h b ∧ ∀ field, s.hget key field now = h.lookup field := by
  obtain ⟨h, held, is⟩ := at_
  exact ⟨h, is, hget_of_held held⟩

theorem BucketAt.generation {o : Option Bucket} (at_ : BucketAt s key now o) :
    parseFiniteStored (s.hget key "generation" now) 0 = o.elim 0 Bucket.generation := by
  cases o with
  | none =>
    rw [hget_of_absent at_, parseFiniteStored_none]
    rfl
  | some b =>
    obtain ⟨h, is, reads⟩ := at_.hget
    rw [reads, is.generation]
    rfl

theorem BucketAt.forgiven {o : Option Bucket} (at_ : BucketAt s key now o) :
    parseFiniteStored (s.hget key "forgiven" now) 0 = o.elim 0 Bucket.forgiven := by
  cases o with
  | none =>
    rw [hget_of_absent at_, parseFiniteStored_none]
    rfl
  | some b =>
    obtain ⟨h, is, reads⟩ := at_.hget
    rw [reads, is.forgiven]
    rfl

theorem BucketAt.epoch {o : Option Bucket} (at_ : BucketAt s key now o) :
    s.hget key "epoch" now = (o.bind Bucket.epoch).map fun n : ℕ => Field.num (fin n) := by
  cases o with
  | none =>
    rw [hget_of_absent at_]
    rfl
  | some b =>
    obtain ⟨h, is, reads⟩ := at_.hget
    rw [reads, is.epoch]
    rfl

theorem BucketAt.congr {o : Option Bucket} (same : s'.live key now = s.live key now) (at_ : BucketAt s key now o) :
    BucketAt s' key now o := by
  cases o with
  | none => exact same.trans at_
  | some b =>
    obtain ⟨h, ⟨e, live, rest⟩, is⟩ := at_
    exact ⟨h, ⟨e, same.trans live, rest⟩, is⟩

theorem MarkAt.congr {o : Option Mark} (same : s'.live key now = s.live key now) (at_ : MarkAt s key now o) :
    MarkAt s' key now o := by
  cases o with
  | none => exact same.trans at_
  | some m =>
    obtain ⟨h, ⟨e, live, rest⟩, is⟩ := at_
    exact ⟨h, ⟨e, same.trans live, rest⟩, is⟩

/-- What the store reads as the balance is what the account has. -/
theorem Follows.refill (follows : Follows key ids now s a) (config : TokenBucketConfig) :
    Dianemo.refill s key config now = a.refill config now := by
  have at_ := follows.bucket
  unfold Dianemo.refill Account.refill storedBucket
  generalize a.bucket = o at at_
  cases o with
  | none => simp only [hget_of_absent at_, parseFiniteStored_none]
  | some b =>
    obtain ⟨h, is, reads⟩ := at_.hget
    simp only [reads, is.tokens, is.lastUpdate, is.overflow, is.fills, parseFiniteStored_num, Bucket.stored]

/-- What touches none of the watched keys leaves the account as it is. -/
theorem Follows.keeps (follows : Follows key ids now s a) (keeps : Keeps (watch key ids) now s s') :
    Follows key ids now s' a where
  bucket := follows.bucket.congr (keeps.live key (Or.inl rfl))
  marks id member := (follows.marks id member).congr (keeps.live _ (Or.inr ⟨id, member, rfl⟩))
  epochs := follows.epochs.trans keeps.epochs

/-- A write to the bucket key alone. -/
theorem Follows.rebucket (follows : Follows key ids now s a) {o : Option Bucket} (at_ : BucketAt s' key now o)
    (keeps : ∀ k, k ≠ key → s'.live k now = s.live k now) (epochs : s.epochs ≤ s'.epochs) :
    Follows key ids now s' { a with bucket := o } where
  bucket := at_
  marks id member := (follows.marks id member).congr (keeps _ (claimMarkKey_ne key id))
  epochs := follows.epochs.trans epochs

/-- A write to one mark's key alone. -/
theorem Follows.remark (follows : Follows key ids now s a) {id : String} {o : Option Mark}
    (at_ : MarkAt s' (claimMarkKey key id) now o)
    (keeps : ∀ k, k ≠ claimMarkKey key id → s'.live k now = s.live k now)
    (epochs : s.epochs ≤ s'.epochs) :
    Follows key ids now s' { a with marks := Function.update a.marks id o } where
  bucket := follows.bucket.congr (keeps key (claimMarkKey_ne key id).symm)
  marks other member := by
    by_cases same : other = id
    · subst same
      simpa using at_
    · have kept := (follows.marks other member).congr (keeps _ (claimMarkKey_inj.not.mpr same))
      simpa [Function.update_of_ne same] using kept
  epochs := follows.epochs.trans epochs

theorem Follows.write (follows : Follows key ids now s a) (state : BucketState) {ttl : ℚ} (positive : 0 < ttl) :
    Follows key ids now (s.putFields key now state.fields ttl) (a.write state ttl now) := by
  refine follows.rebucket ?_ (fun k ne => State.live_congr (State.put_store_ne ne) now) le_rfl
  refine ⟨_, held_putFields positive state.fields, ?_⟩
  have generation := follows.bucket.generation
  have forgiven := follows.bucket.forgiven
  have epoch := follows.bucket.epoch
  constructor <;>
    simp [-zero_eq, withFields, BucketState.fields, entry_lookup, generation, forgiven, epoch, Account.generation,
      Account.forgiven, Account.epoch]

/-- A bucket that has an epoch keeps it; one without takes the next. -/
theorem Follows.takeEpoch (follows : Follows key ids now s a) {b : Bucket} (found : a.bucket = some b) :
    Follows key ids now (takeEpoch s key now)
      { a with
        bucket := some { b with epoch := some (b.epoch.getD (s.epochs + 1)) }
        epochs := if b.epoch.isSome then a.epochs else s.epochs + 1 } := by
  have at_ := follows.bucket
  have reads := at_.epoch
  rw [found, Option.bind_some] at reads
  rw [found] at at_
  unfold Dianemo.takeEpoch
  cases taken : b.epoch with
  | some n =>
    rw [taken] at reads
    rw [reads, Option.map_some, Option.isSome_some, if_pos rfl]
    refine ⟨?_, follows.marks, ?_⟩
    · obtain ⟨h, held, is⟩ := at_
      refine ⟨h, held, ⟨is.tokens, is.lastUpdate, is.overflow, is.fills, is.generation, is.forgiven, ?_⟩⟩
      rw [is.epoch, taken]
      rfl
    · simpa using follows.epochs
  | none =>
    rw [taken] at reads
    rw [reads, Option.map_none, Option.isSome_none, if_neg Bool.false_ne_true]
    refine ⟨?_, ?_, ?_⟩
    · obtain ⟨h, held, is⟩ := at_
      refine ⟨_, held_setFields held _, ?_⟩
      constructor <;>
        simp [-zero_eq, withFields, is.tokens, is.lastUpdate, is.overflow, is.fills, is.generation, is.forgiven]
    · intro id member
      refine (follows.marks id member).congr ?_
      exact State.live_congr (State.put_store_ne (claimMarkKey_ne key id)) now
    · simp

theorem Follows.mark (follows : Follows key ids now s a) {b : Bucket} (found : a.bucket = some b)
    {claim : String × ℚ} (positive : 0 < claim.2) (cost : JsNumber) (state : BucketState) :
    Follows key ids now (s.putMark key claim cost state now) (a.mark claim cost state (s.epochs + 1) now) := by
  have taken := follows.takeEpoch found
  have generation := taken.bucket.generation
  have forgiven := taken.bucket.forgiven
  have epoch := taken.bucket.epoch
  simp only [Option.elim_some, Option.bind_some, Option.map_some] at generation forgiven epoch
  have at_ : MarkAt (s.putMark key claim cost state now) (claimMarkKey key claim.1) now
      (some ⟨cost, state.overflow, state.fills, b.generation, b.forgiven, b.epoch.getD (s.epochs + 1),
        now + claim.2 * 1000⟩) := by
    refine ⟨_, held_putFields positive _, ?_⟩
    constructor <;> simp [-zero_eq, withFields, markFields, generation, forgiven, epoch]
  have marked := taken.remark at_ (fun k ne => State.live_congr (State.put_store_ne ne) now) le_rfl
  simpa [Account.mark, Account.generation, Account.forgiven, Account.epoch, found] using marked

theorem Follows.spend (follows : Follows key ids now s a) (state : BucketState) (cost : JsNumber) {ttl : ℚ}
    (positive : 0 < ttl) {mark : Option (String × ℚ)} (marked : ∀ claim ∈ mark, 0 < claim.2) :
    Follows key ids now (s.spend key state cost ttl mark now) (a.spend state cost ttl mark (s.epochs + 1) now) := by
  have written := follows.write { state with tokens := state.tokens - cost } positive
  cases mark with
  | none => exact written
  | some claim => exact written.mark rfl (marked claim rfl) cost state

/-- A credit writes the balance alone, and leaves the key its lifetime. -/
theorem Follows.credit (follows : Follows key ids now s a) (cost maxTokens : JsNumber) {b : Bucket}
    (found : a.bucket = some b) :
    Follows key ids now
      (s.setFields key now [("tokens", .num (maxTokens.min (b.state.tokens.orElse 0 + cost)))])
      ((Action.credit cost maxTokens).apply now a) := by
  refine follows.rebucket ?_ (fun k ne => State.live_congr (State.put_store_ne ne) now) le_rfl
  have at_ := follows.bucket
  rw [found] at at_
  obtain ⟨h, held, is⟩ := at_
  rw [found]
  refine ⟨_, held_setFields held _, ?_⟩
  constructor <;>
    simp [-zero_eq, withFields, is.lastUpdate, is.overflow, is.fills, is.generation, is.forgiven, is.epoch]

/-- An overwrite carries the overflow and the fills, and begins a new generation. -/
theorem overwriteTokens_run {ttl : ℚ} (whole : WholeTtl ttl) {config : Option TokenBucketConfig}
    (sized : normalizeTtlSeconds (config.elim 86400 (bucketTtl 86400)) = .ok ttl) (key : String) (tokens : JsNumber)
    (now : ℚ) (s : State) :
    (overwriteTokens key tokens config now).run s =
      (.ok (), bumpGeneration (s.putFields key now (BucketState.fields
        { tokens := tokens
          lastUpdate := fin now
          overflow := parseFiniteStored (s.hget key "overflow" now) 0
          fills := parseFiniteStored (s.hget key "fills" now) 0 }) ttl) key now) := by
  rw [overwriteTokens, Op.run_bind_ok (Op.run_read s), Op.run_bind_ok (writeBucket_run whole config sized _ _ _ _)]
  rfl

theorem BucketAt.counters {o : Option Bucket} (at_ : BucketAt s key now o) :
    parseFiniteStored (s.hget key "overflow" now) 0 = (o.elim 0 fun b => b.state.overflow.orElse 0) ∧
      parseFiniteStored (s.hget key "fills" now) 0 = (o.elim 0 fun b => b.state.fills.orElse 0) ∧
      parseFiniteStored (s.hget key "tokens" now) 0 = (o.elim 0 fun b => b.state.tokens.orElse 0) := by
  cases o with
  | none => simp only [hget_of_absent at_, parseFiniteStored_none, Option.elim_none, and_self]
  | some b =>
    obtain ⟨h, is, reads⟩ := at_.hget
    simp only [reads, is.overflow, is.fills, is.tokens, parseFiniteStored_num, Option.elim_some, and_self]

theorem Follows.overwrite (follows : Follows key ids now s a) {ttl : ℚ} (whole : WholeTtl ttl)
    (config : Option TokenBucketConfig)
    (sized : normalizeTtlSeconds (config.elim 86400 (bucketTtl 86400)) = .ok ttl) (tokens : JsNumber) :
    ∃ s', (overwriteTokens key tokens config now).run s = (.ok (), s') ∧
      Follows key ids now s' (a.overwrite tokens ttl now) := by
  obtain ⟨overflow, fills, -⟩ := follows.bucket.counters
  refine ⟨_, overwriteTokens_run whole sized key tokens now s, ?_⟩
  rw [overflow, fills]
  have written := follows.write
    { tokens := tokens
      lastUpdate := fin now
      overflow := a.bucket.elim 0 fun b => b.state.overflow.orElse 0
      fills := a.bucket.elim 0 fun b => b.state.fills.orElse 0 } whole.pos
  have generation : parseFiniteStored (State.hget _ key "generation" now) 0 = a.generation :=
    written.bucket.generation
  refine written.rebucket (o := (a.overwrite tokens ttl now).bucket) ?_
    (fun k ne => State.live_congr (State.put_store_ne ne) now) le_rfl
  obtain ⟨h, held, is⟩ := written.bucket
  refine ⟨_, held_setFields held _, ?_⟩
  rw [generation]
  constructor <;>
    simp [-zero_eq, -one_eq, withFields, is.tokens, is.lastUpdate, is.overflow, is.fills, is.forgiven, is.epoch,
      parseFiniteStored_num]

theorem Follows.unmark (follows : Follows key ids now s a) (id : String) :
    Follows key ids now (s.delete (claimMarkKey key id)) { a with marks := Function.update a.marks id none } :=
  follows.remark (State.live_delete_self s _ now)
    (fun _ ne => State.live_congr (State.delete_store_ne ne) now) le_rfl

theorem Follows.settleInput (follows : Follows key ids now s a) {spec : SettleSpec}
    (home : spec.key = key) {h : Fields} {m : Mark} (is : IsMark h m) (state : BucketState) :
    Dianemo.settleInput s spec h state now = a.settleInput spec m state := by
  subst home
  simp only [Dianemo.settleInput, Account.settleInput, is.claimed, is.overflow, is.fills,
    is.generation, is.forgiven,
    is.epoch, parseFiniteStored_num, follows.bucket.generation, follows.bucket.forgiven, follows.bucket.epoch,
    Account.generation, Account.forgiven, Account.epoch, Option.getD_some]

theorem Follows.applySettlement (follows : Follows key ids now s a) {spec : SettleSpec} (home : spec.key = key)
    (acts : Account.settleable spec = true) {h : Fields} {m : Mark} (is : IsMark h m) :
    ∃ s', (applySettlement spec h now).run s = (.ok (a.applySettlement spec m now).1, s') ∧
      Follows key ids now s' (a.applySettlement spec m now).2 := by
  have at_ := follows.bucket
  have input := follows.settleInput home is (a.refill spec.config now)
  have refilled := follows.refill spec.config
  subst home
  rw [Dianemo.applySettlement, Op.run_bind_ok (Op.run_read s)]
  unfold Account.applySettlement
  cases found : a.bucket with
  | none =>
    rw [found] at at_
    rw [hget_of_absent at_]
    exact ⟨s, rfl, follows⟩
  | some b =>
    obtain ⟨-, -, usable⟩ := Account.settleable_iff.mp acts
    obtain ⟨lives, sized⟩ := bucketTtl_sized WholeTtl.day usable
    rw [found] at at_
    obtain ⟨h', is', reads⟩ := at_.hget
    rw [reads, is'.tokens]
    simp only [refilled, input, ofNat_eq]
    rw [Op.run_bind_ok (writeBucket_run lives (some spec.config) sized _ _ _ _), Op.run_bind_ok (Op.run_modify _ _)]
    refine ⟨_, rfl, ?_⟩
    have written := follows.write
      { a.refill spec.config now with
        tokens := (a.refill spec.config now).tokens - (a.outcome spec m now).applied } lives.pos
    refine written.rebucket ?_ (fun k ne => State.live_congr (State.put_store_ne ne) now) le_rfl
    obtain ⟨_, held, is⟩ := written.bucket
    refine ⟨_, held_setFields held _, ?_⟩
    have generation := is.generation
    have epoch := is.epoch
    simp only [Account.generation, Account.epoch, found, Option.elim_some, Option.bind_some] at generation epoch
    constructor <;>
      simp [-zero_eq, withFields, is.tokens, is.lastUpdate, is.overflow, is.fills, generation, epoch,
        parseFiniteStored_num, Account.outcome]

/-- A settlement answers what the account answers, and leaves what it leaves. -/
theorem Follows.settle (follows : Follows key ids now s a) {spec : SettleSpec} (home : spec.key = key)
    (member : spec.markId ∈ ids) :
    ∃ s', (settleSpec spec now).run s = (.ok (a.settle spec now).1, s') ∧
      Follows key ids now s' (a.settle spec now).2 := by
  have at_ := follows.marks spec.markId member
  have consumed := follows.unmark spec.markId
  rw [← home] at at_ consumed
  rw [settleSpec, Op.run_bind_ok (Op.run_read s)]
  unfold Account.settle
  cases marked : a.marks spec.markId with
  | none =>
    rw [marked] at at_
    refine ⟨s, ?_, follows⟩
    rw [State.hash, at_]
    rfl
  | some m =>
    rw [marked] at at_
    obtain ⟨h, held, is⟩ := at_
    rw [hash_of_held held]
    by_cases acts : Account.settleable spec = true
    · obtain ⟨s', run, after⟩ := consumed.applySettlement rfl acts is
      simp only [if_neg (of_decide_eq_true acts), if_pos acts]
      rw [Op.run_bind_ok (Op.run_modify _ _)]
      subst home
      exact ⟨s', run, after⟩
    · have guard := of_decide_eq_false (Bool.eq_false_of_not_eq_true acts)
      simp only [if_pos (not_not.mp guard), if_neg acts]
      exact ⟨s, rfl, follows⟩

/-- Until it lapses a key holds what it held. -/
theorem held_before {h : Fields} {t t' : ℚ} (held : s.Held key now h t) (order : now ≤ t') (before : t' < t) :
    s.Held key t' h t := by
  obtain ⟨e, live, hash, lapses⟩ := held
  refine ⟨e, ?_, hash, lapses⟩
  rw [State.live_later order, live, Option.filter_some_pos]
  simp [Entry.expired, lapses, before]

theorem held_past {h : Fields} {t t' : ℚ} (held : s.Held key now h t) (order : now ≤ t') (past : t ≤ t') :
    s.live key t' = none := by
  obtain ⟨e, live, -, lapses⟩ := held
  rw [State.live_later order, live, Option.filter_some_neg]
  simp [Entry.expired, lapses, past]

theorem live_none_later {t : ℚ} (order : now ≤ t) (absent : s.live key now = none) : s.live key t = none := by
  rw [State.live_later order, absent]
  rfl

theorem BucketAt.later {t : ℚ} {o : Option Bucket} (at_ : BucketAt s key now o) (order : now ≤ t) :
    BucketAt s key t (o.filter fun b => decide (t < b.expiresAt)) := by
  cases o with
  | none => exact live_none_later order at_
  | some b =>
    obtain ⟨h, held, is⟩ := at_
    by_cases before : t < b.expiresAt
    · rw [Option.filter_some, if_pos (decide_eq_true before)]
      exact ⟨h, held_before held order before, is⟩
    · rw [Option.filter_some, if_neg (by simpa using before)]
      exact held_past held order (not_lt.mp before)

theorem MarkAt.later {t : ℚ} {o : Option Mark} (at_ : MarkAt s key now o) (order : now ≤ t) :
    MarkAt s key t (o.filter fun m => decide (t < m.expiresAt)) := by
  cases o with
  | none => exact live_none_later order at_
  | some m =>
    obtain ⟨h, held, is⟩ := at_
    by_cases before : t < m.expiresAt
    · rw [Option.filter_some, if_pos (decide_eq_true before)]
      exact ⟨h, held_before held order before, is⟩
    · rw [Option.filter_some, if_neg (by simpa using before)]
      exact held_past held order (not_lt.mp before)

/-- Time passes for the store and the account alike. -/
theorem Follows.later {t : ℚ} (follows : Follows key ids now s a) (order : now ≤ t) :
    Follows key ids t s (a.asOf t) where
  bucket := follows.bucket.later order
  marks id member := (follows.marks id member).later order
  epochs := follows.epochs

theorem Follows.touch (follows : Follows key ids now s a) {ttl : ℚ} (whole : WholeTtl ttl)
    {config : TokenBucketConfig} (usable : unusableBudget 0 config = none) :
    Follows key ids now (s.putFields key now (Dianemo.refill s key config now).fields (bucketTtl ttl config).toRat)
      ((Action.touch config ttl).apply now a) := by
  rw [follows.refill]
  exact follows.write _ (bucketTtl_sized whole usable).1.pos

theorem Follows.spent (follows : Follows key ids now s a) {ttl : ℚ} (whole : WholeTtl ttl) {cost : JsNumber}
    {config : TokenBucketConfig} (usable : unusableBudget cost config = none) {mark : Option (String × ℚ)}
    (marked : ∀ claim ∈ mark, WholeTtl claim.2) :
    Follows key ids now
      (s.spend key (Dianemo.refill s key config now) cost (bucketTtl ttl config).toRat mark now)
      ((Action.spend config cost ttl mark (s.epochs + 1)).apply now a) := by
  rw [follows.refill]
  exact follows.spend _ cost (bucketTtl_sized whole usable).1.pos fun claim made => (marked claim made).pos

end Buckets

end Dianemo
