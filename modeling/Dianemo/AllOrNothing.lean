import Dianemo.Lease
import Dianemo.Once

namespace Dianemo

open JsNumber

/-- The entry holds no empty collection: removing a last member drops the key. -/
structure Entry.Populated (e : Entry) : Prop where
  set : e.set ≠ some ∅
  zset : e.set = none → ∀ z, e.zset = some z → z.entries.length ≠ 0

def State.Populated (s : State) : Prop := ∀ key e, s.store key = some e → e.Populated

namespace State

/-- When the slot `id` of the ledger `key` was taken. -/
def slot (s : State) (key id : String) (now : ℚ) : Option ℚ := (s.zset key now).bind (·.lookup id)

/-- What the slot `id` of the ledger `key` is counted at. -/
def costOf (s : State) (key id : String) (now : ℚ) : JsNumber := slotCost (s.hash (costsKey key) now) id

end State

section Ledgers

variable {s s' : State} {key : String} {now : ℚ}

theorem Keeps.slot {W : Set String} (keeps : Keeps W now s s') (watched : key ∈ W) (id : String) :
    s'.slot key id now = s.slot key id now := by
  simp only [State.slot, State.zset, keeps.live key watched]

theorem Keeps.costOf {W : Set String} (keeps : Keeps W now s s') (watched : costsKey key ∈ W) (id : String) :
    s'.costOf key id now = s.costOf key id now := by
  simp only [State.costOf, State.hash, keeps.live _ watched]

theorem eraseStale_lookup (z : Scores) (expireTime : ℚ) (id : String) :
    (eraseAll z (staleSlots z (fin expireTime))).lookup id =
      (z.lookup id).filter fun taken => decide (expireTime < taken) := by
  rw [eraseAll_lookup]
  cases found : z.lookup id with
  | none => simp
  | some taken =>
    by_cases stale : taken ≤ expireTime
    · rw [if_pos (mem_staleSlots.mpr ⟨taken, found, stale⟩), Option.filter_some_neg]
      simpa using stale
    · rw [if_neg, Option.filter_some_pos]
      · simpa using stale
      · intro member
        obtain ⟨other, again, past⟩ := mem_staleSlots.mp member
        cases Option.some.inj (found.symm.trans again)
        exact stale past

theorem Entry.Populated.drop_zset {e : Entry} (populated : e.Populated) {z : Scores}
    (empty : ({ e with zset := some z } : Entry).size = some 0) : z.entries.length = 0 := by
  unfold Entry.size at empty
  cases held : e.set with
  | none =>
    simp only [held] at empty
    exact Option.some.inj empty
  | some members =>
    simp only [held] at empty
    have none_ : members = ∅ := Finset.card_eq_zero.mp (Option.some.inj empty)
    exact absurd (held.trans (congrArg some none_)) populated.set

theorem Entry.Populated.drop_hash {e : Entry} (populated : e.Populated) {h : Fields}
    (empty : ({ e with hash := some h } : Entry).size = some 0) : h.entries.length = 0 := by
  unfold Entry.size at empty
  cases held : e.set with
  | none =>
    cases scored : e.zset with
    | none =>
      simp only [held, scored] at empty
      exact Option.some.inj empty
    | some z =>
      simp only [held, scored] at empty
      exact absurd (Option.some.inj empty) (populated.zset held z scored)
  | some members =>
    simp only [held] at empty
    have none_ : members = ∅ := Finset.card_eq_zero.mp (Option.some.inj empty)
    exact absurd (held.trans (congrArg some none_)) populated.set

theorem lookup_of_empty {β : String → Type} {m : AList β} (empty : m.entries.length = 0) (k : String) :
    m.lookup k = none :=
  AList.lookup_eq_none.mpr (entries_length_eq_zero.mp empty k)

/-- Reaping a ledger that is there: both entries lose the stale slots, and then go if they are empty. -/
theorem reap_eq {e : Entry} {z : Scores} (found : s.live key now = some e) (scored : e.zset = some z)
    (expireTime : JsNumber) :
    ∃ u : State, reapConcurrency s key expireTime now = (u.dropIfEmpty key).dropIfEmpty (costsKey key) ∧
      u.live key now = some { e with zset := some (eraseAll z (staleSlots z expireTime)) } ∧
      u.live (costsKey key) now = (s.live (costsKey key) now).map fun c =>
        { c with hash := c.hash.map (eraseAll · (staleSlots z expireTime)) } := by
  have ne := costsKey_ne key
  have alive := (State.live_eq_some.mp found).2
  have others : ∀ e', (s.put key e').live (costsKey key) now = s.live (costsKey key) now := fun e' =>
    State.live_congr (State.put_store_ne ne) now
  simp only [reapConcurrency, found, scored, others]
  cases counted : s.live (costsKey key) now with
  | none =>
    refine ⟨_, rfl, State.live_put_self alive, ?_⟩
    rw [others, counted]
    rfl
  | some c =>
    have aliveToo := (State.live_eq_some.mp counted).2
    exact ⟨_, rfl, (State.live_congr (State.put_store_ne ne.symm) now).trans (State.live_put_self alive),
      State.live_put_self aliveToo⟩

/-- Reaping takes the slots that are over and leaves every other as it was. -/
theorem reap_slots (slots : ∀ e, s.live key now = some e → e.Populated)
    (costs : ∀ e, s.live (costsKey key) now = some e → e.Populated) (expireTime : ℚ) (id : String) :
    (reapConcurrency s key (fin expireTime) now).slot key id now =
        (s.slot key id now).filter (fun taken => decide (expireTime < taken)) ∧
      ((reapConcurrency s key (fin expireTime) now).slot key id now ≠ none →
        (reapConcurrency s key (fin expireTime) now).costOf key id now = s.costOf key id now) := by
  have ne := costsKey_ne key
  cases found : s.live key now with
  | none => simp [reapConcurrency, State.slot, State.zset, found]
  | some e =>
    cases scored : e.zset with
    | none => simp [reapConcurrency, State.slot, State.zset, found, scored]
    | some z =>
      have before : s.slot key id now = z.lookup id := by simp [State.slot, State.zset, found, scored]
      obtain ⟨u, run, reaped, erased⟩ := reap_eq found scored (fin expireTime)
      have left : ((u.dropIfEmpty key).dropIfEmpty (costsKey key)).slot key id now =
          (eraseAll z (staleSlots z (fin expireTime))).lookup id := by
        rw [State.slot, State.zset, live_dropIfEmpty_ne ne.symm, live_dropIfEmpty_self reaped]
        split
        · rename_i empty
          rw [lookup_of_empty ((slots e found).drop_zset empty)]
          rfl
        · rfl
      rw [run, left, eraseStale_lookup, before]
      refine ⟨rfl, ?_⟩
      intro kept
      have stays : id ∉ staleSlots z (fin expireTime) := by
        intro stale
        rw [← eraseStale_lookup, eraseAll_lookup, if_pos stale] at kept
        exact kept rfl
      cases counted : s.live (costsKey key) now with
      | none =>
        rw [counted] at erased
        simp only [State.costOf, State.hash, counted, live_dropIfEmpty_none ((live_dropIfEmpty_ne ne).trans erased)]
      | some c =>
        rw [counted] at erased
        have after := live_dropIfEmpty_self ((live_dropIfEmpty_ne ne).trans erased)
        simp only [State.costOf, State.hash, counted, after, Option.bind_some]
        cases hashed : c.hash with
        | none => split <;> simp [slotCost]
        | some h =>
          simp only [Option.map_some]
          have reads : (eraseAll h (staleSlots z (fin expireTime))).lookup id = h.lookup id := by
            rw [eraseAll_lookup, if_neg stays]
          split
          · rename_i empty
            have none_ := lookup_of_empty ((costs c counted).drop_hash empty) id
            rw [reads] at none_
            simp [slotCost, none_]
          · simp only [slotCost, Option.bind_some, reads]

/-- A slot taken beside the others. -/
theorem take_slots {ttl : ℚ} (positive : 0 < ttl) (s : State) (key slotId : String)
    (cost : JsNumber) (id : String) :
    (s.takeSlot key slotId cost ttl now).slot key id now = (if id = slotId then some now else s.slot key id now) ∧
      (s.takeSlot key slotId cost ttl now).costOf key id now =
        if id = slotId then parseFiniteStored (some (.num cost)) 1 else s.costOf key id now := by
  have ne := costsKey_ne key
  have later : now < now + ttl * 1000 := by linarith
  have slots : (s.takeSlot key slotId cost ttl now).live key now = some { s.entry key now with
      zset := some (((s.entry key now).zset.getD ∅).insert slotId now)
      expiresAt := some (now + ttl * 1000) } :=
    (State.live_congr (State.put_store_ne ne.symm) now).trans (State.live_put_self (expired_of_lt rfl later))
  have costs : (s.takeSlot key slotId cost ttl now).live (costsKey key) now = some { s.entry (costsKey key) now with
      hash := some (((s.entry (costsKey key) now).hash.getD ∅).insert slotId (.num cost))
      expiresAt := some (now + ttl * 1000) } := by
    simp only [State.takeSlot, State.putFields, entry_put_ne ne, withFields, List.foldl_cons, List.foldl_nil]
    exact State.live_put_self (expired_of_lt rfl later)
  have held : (s.entry key now).zset.getD ∅ = (s.zset key now).getD ∅ := by
    simp only [State.entry, State.zset]
    cases s.live key now <;> rfl
  have counted : (s.entry (costsKey key) now).hash.getD ∅ = (s.hash (costsKey key) now).getD ∅ := by
    simp only [State.entry, State.hash]
    cases s.live (costsKey key) now <;> rfl
  simp only [State.slot, State.zset, State.costOf, State.hash, slots, costs, Option.bind_some, slotCost]
  rw [held, counted]
  by_cases same : id = slotId
  · subst same
    simp
  · rw [AList.lookup_insert_ne same, AList.lookup_insert_ne same, if_neg same, if_neg same]
    constructor
    · simp only [State.zset]
      cases (s.live key now).bind Entry.zset <;> rfl
    · simp only [State.hash]
      cases (s.live (costsKey key) now).bind Entry.hash <;> rfl

end Ledgers

section Buckets

variable {s : State} {key : String} {now ttl : ℚ}

theorem putFields_hget (positive : 0 < ttl) (fields : List (String × Field)) (field : String) :
    (s.putFields key now fields ttl).hget key field now =
      (withFields ((s.entry key now).hash.getD ∅) fields).lookup field :=
  hget_of_held (held_putFields positive fields) field

theorem takeEpoch_tokens (s : State) (key : String) (now : ℚ) :
    (takeEpoch s key now).hget key "tokens" now = s.hget key "tokens" now := by
  unfold takeEpoch
  split
  · rfl
  · have put : (s.setFields key now [("epoch", .num (s.epochs + 1 : ℚ))]).live key now = some _ :=
      State.live_put_self (s.entry_expired key now)
    have live : ({ s.setFields key now [("epoch", .num (s.epochs + 1 : ℚ))] with epochs := s.epochs + 1 } : State).live
        key now = (s.setFields key now [("epoch", .num (s.epochs + 1 : ℚ))]).live key now := rfl
    rw [State.hget, State.hash, live, put]
    simp only [Option.bind_some, List.foldl_cons, List.foldl_nil]
    rw [AList.lookup_insert_ne (by decide)]
    exact entry_lookup "tokens"

/-- An admitted spend stores the balance it was given less the cost. -/
theorem spend_tokens (positive : 0 < ttl) (s : State) (key : String) (state : BucketState) (cost : JsNumber)
    (mark : Option (String × ℚ)) :
    (s.spend key state cost ttl mark now).hget key "tokens" now = some (.num (state.tokens - cost)) := by
  have spent : (s.putFields key now (BucketState.fields { state with tokens := state.tokens - cost }) ttl).hget key
      "tokens" now = some (.num (state.tokens - cost)) := by
    rw [putFields_hget positive]
    simp [withFields, BucketState.fields]
  cases mark with
  | none => exact spent
  | some claim =>
    have away : key ≠ claimMarkKey key claim.1 := (claimMarkKey_ne key claim.1).symm
    have kept : (State.spend s key state cost ttl (some claim) now).hget key "tokens" now =
        (takeEpoch (s.putFields key now (BucketState.fields { state with tokens := state.tokens - cost }) ttl) key
          now).hget key "tokens" now :=
      State.hget_congr (State.live_congr (State.put_store_ne away) now) "tokens"
    rw [kept, takeEpoch_tokens, spent]

/-- A refill written back reads the same. -/
theorem written_refill (positive : 0 < ttl) {config : TokenBucketConfig} (usable : unusableBudget 0 config = none) :
    (refill (s.putFields key now (refill s key config now).fields ttl) key config now).tokens =
      (refill s key config now).tokens := by
  obtain ⟨maxTokens, -, -, atMax, -⟩ := unusableBudget_none.mp usable
  have ceiling : config.maxTokens.isFinite = true := by rw [atMax]; rfl
  have exact_ : ∃ balance clock : ℚ, (refill s key config now).tokens = fin balance ∧
      (refill s key config now).lastUpdate = fin clock ∧ ¬ config.maxTokens < fin balance ∧
      intervalsElapsed (fin clock) config.interval now = 0 :=
    BucketState.refill_exact usable (parseFiniteStored_finite _ ceiling) (parseFiniteStored_finite _ rfl)
  obtain ⟨balance, clock, tokens, lastUpdate, under, settled⟩ := exact_
  rw [tokens]
  have stored : (s.putFields key now (refill s key config now).fields ttl).hget key "tokens" now =
        some (.num (refill s key config now).tokens) ∧
      (s.putFields key now (refill s key config now).fields ttl).hget key "lastUpdate" now =
        some (.num (refill s key config now).lastUpdate) := by
    rw [putFields_hget positive, putFields_hget positive]
    simp [withFields, BucketState.fields]
  refine BucketState.refill_again ?_ ?_ under settled
  · simp only [storedBucket, stored.1, parseFiniteStored_num, tokens, orElse_fin]
  · simp only [storedBucket, stored.2, parseFiniteStored_num, lastUpdate, orElse_fin]

end Buckets

section Populating

variable {s : State} {key : String} {now : ℚ}

theorem State.Populated.put (populated : s.Populated) {e : Entry} (held : e.Populated) :
    (s.put key e).Populated := by
  intro k e' found
  by_cases same : k = key
  · subst same
    rw [State.put_store_self] at found
    cases found
    exact held
  · rw [State.put_store_ne same] at found
    exact populated k e' found

theorem State.Populated.entry (populated : s.Populated) (key : String) (now : ℚ) : (s.entry key now).Populated := by
  unfold State.entry
  cases found : s.live key now with
  | none => exact ⟨nofun, nofun⟩
  | some e => exact populated key e (State.live_eq_some.mp found).1

theorem State.Populated.putFields (populated : s.Populated) (fields : List (String × Field)) (ttl : ℚ) :
    (s.putFields key now fields ttl).Populated := by
  have held := populated.entry key now
  exact populated.put ⟨held.set, held.zset⟩

theorem State.Populated.setFields (populated : s.Populated) (fields : List (String × Field)) :
    (s.setFields key now fields).Populated := by
  have held := populated.entry key now
  exact populated.put ⟨held.set, held.zset⟩

theorem State.Populated.spend (populated : s.Populated) (state : BucketState) (cost : JsNumber) (ttl : ℚ)
    (mark : Option (String × ℚ)) : (s.spend key state cost ttl mark now).Populated := by
  cases mark with
  | none => exact populated.putFields _ _
  | some claim =>
    refine State.Populated.putFields ?_ _ _
    unfold takeEpoch
    split
    · exact populated.putFields _ _
    · have written : (s.putFields key now (BucketState.fields { state with tokens := state.tokens - cost }) ttl).Populated :=
        populated.putFields _ _
      intro k e found
      exact written.setFields _ k e found

theorem State.Populated.takeSlot (populated : s.Populated) (slotId : String) (cost : JsNumber) (ttl : ℚ) :
    (s.takeSlot key slotId cost ttl now).Populated := by
  have slot : ({ s.entry key now with
      zset := some (((s.entry key now).zset.getD ∅).insert slotId now)
      expiresAt := some (now + ttl * 1000) } : Entry).Populated := by
    refine ⟨(populated.entry key now).set, ?_⟩
    rintro - z ⟨⟩ empty
    exact entries_length_eq_zero.mp empty slotId (by simp)
  exact (populated.put slot).putFields _ _

theorem State.Populated.delete (populated : s.Populated) : (s.delete key).Populated := by
  intro k e found
  by_cases same : k = key
  · subst same
    rw [State.delete_store_self] at found
    cases found
  · rw [State.delete_store_ne same] at found
    exact populated k e found

theorem State.Populated.dropIfEmpty (populated : s.Populated) : (s.dropIfEmpty key).Populated := by
  unfold State.dropIfEmpty
  split
  · exact populated
  · split
    · exact populated.delete
    · exact populated

/-- An entry that only lost slots is populated again once it has been dropped if empty. -/
theorem State.Populated.drop_reaped (others : ∀ k e, k ≠ key → s.store k = some e → e.Populated) {e : Entry}
    {z : Scores}
    (held : e.Populated) (found : s.store key = some { e with zset := some z }) :
    (s.dropIfEmpty key).Populated := by
  intro k e' there
  unfold State.dropIfEmpty at there
  simp only [found] at there
  by_cases same : k = key
  · subst same
    split at there
    · rw [State.delete_store_self] at there
      cases there
    · rename_i kept
      cases Option.some.inj (there.symm.trans found)
      refine ⟨held.set, ?_⟩
      rintro plain z' ⟨⟩ empty
      simp only at plain
      refine kept ?_
      simp only [Entry.size, plain, empty]
  · split at there
    · rw [State.delete_store_ne same] at there
      exact others k e' same there
    · exact others k e' same there

theorem State.Populated.reap (populated : s.Populated) (key : String) (expireTime : JsNumber) :
    (reapConcurrency s key expireTime now).Populated := by
  have ne := costsKey_ne key
  unfold reapConcurrency
  split
  · exact populated
  · rename_i e found
    have held := populated key e (State.live_eq_some.mp found).1
    split
    · exact populated
    · rename_i z scored
      refine State.Populated.dropIfEmpty (State.Populated.drop_reaped (z := eraseAll z (staleSlots z expireTime)) ?_ held ?_)
      · intro k e' other there
        split at there
        · rw [State.put_store_ne other] at there
          exact populated k e' there
        · rename_i c counted
          rw [State.live_congr (State.put_store_ne ne)] at counted
          have own := populated _ c (State.live_eq_some.mp counted).1
          by_cases same : k = costsKey key
          · subst same
            rw [State.put_store_self] at there
            cases there
            exact ⟨own.set, own.zset⟩
          · rw [State.put_store_ne same, State.put_store_ne other] at there
            exact populated k e' there
      · split
        · exact State.put_store_self _ _ _
        · rw [State.put_store_ne ne.symm]
          exact State.put_store_self _ _ _

theorem foldl_populated {α : Type} {f : State → α → State}
    (each : ∀ s x, s.Populated → (f s x).Populated) (xs : List α)
    (populated : s.Populated) : (xs.foldl f s).Populated := by
  induction xs generalizing s with
  | nil => exact populated
  | cons x rest ih => exact ih (each s x populated)

theorem checked_populated (claims : List ClaimSpec) (populated : s.Populated) :
    (checked now claims s).Populated := by
  refine foldl_populated ?_ claims populated
  intro u c held
  cases c with
  | tokenBucket spec mark => exact held
  | concurrency spec => exact held.reap _ _

/-- A claim leaves no empty collection behind. -/
theorem Attempt.populated {claims : List ClaimSpec} {ttl : ℚ} {admitted : Bool} {s' : State}
    (attempt : Attempt claims ttl now s admitted s') (populated : s.Populated) : s'.Populated := by
  cases attempt with
  | stopped split usable => exact checked_populated _ populated
  | refused usable fit =>
    exact foldl_populated (fun u bucket held => held.putFields _ _) _ (checked_populated claims populated)
  | admitted usable fit =>
    refine foldl_populated (fun u slot held => held.takeSlot _ _ _) _ ?_
    exact foldl_populated (fun u bucket held => held.spend _ _ _ _) _ (checked_populated claims populated)

end Populating

/-- The two operations that claim several budgets at once. -/
inductive ClaimPath where
  | acquire
  | tryAdmit (queueKey : String) (freezeKeys : List String) (ttl : JsNumber)

/-- Whether the claim was admitted, and the state it leaves. A throw admits nothing. -/
def ClaimPath.exec (specs : List MultiLimitSpec) (now : ℚ) (s : State) : ClaimPath → Bool × State
  | .acquire => granted AcquireMultiLimitResult.acquired ((acquireMultiLimit specs now).run s)
  | .tryAdmit queueKey freezeKeys ttl => granted id ((tryAdmitMultiLimit queueKey freezeKeys specs ttl now).run s)

/-- Every budget gave what it was asked for, and no other slot changed but by lapsing. -/
structure Claimed (specs : List MultiLimitSpec) (now : ℚ) (s s' : State) : Prop where
  bucket : ∀ b, .tokenBucket b ∈ specs →
    s'.hget b.key "tokens" now = some (.num ((getTokenBucketState s b.key b.config now).1 - b.cost))
  slot : ∀ c, .concurrency c ∈ specs → s'.slot c.key c.slotId now = some now ∧ s'.costOf c.key c.slotId now = c.cost
  others : ∀ c, .concurrency c ∈ specs → ∀ id, id ≠ c.slotId →
    s'.slot c.key id now =
        (s.slot c.key id now).filter (fun taken => decide (fin now - c.config.requestTtl < fin taken)) ∧
      (s'.slot c.key id now ≠ none → s'.costOf c.key id now = s.costOf c.key id now)

/-- No budget gave anything, and nothing changed but by refilling or lapsing. -/
structure Unclaimed (specs : List MultiLimitSpec) (now : ℚ) (s s' : State) : Prop where
  bucket : ∀ b, .tokenBucket b ∈ specs →
    (getTokenBucketState s' b.key b.config now).1 = (getTokenBucketState s b.key b.config now).1
  elsewhere : ∀ k, (∀ spec ∈ specs, k ∉ spec.home) → s'.live k now = s.live k now
  slots : ∀ c, .concurrency c ∈ specs → ∀ id,
    (s'.slot c.key id now = s.slot c.key id now ∨
      (s'.slot c.key id now = none ∧ ∃ taken, s.slot c.key id now = some taken ∧
        fin taken ≤ fin now - c.config.requestTtl)) ∧
      (s'.slot c.key id now ≠ none → s'.costOf c.key id now = s.costOf c.key id now)

section Paths

variable {specs : List MultiLimitSpec} {now : ℚ} {s : State}

theorem ClaimPath.attempts (path : ClaimPath) (specs : List MultiLimitSpec) (now : ℚ) (s : State) :
    path.exec specs now s = (false, s) ∨ ∃ claims ttl admitted s', WholeTtl ttl ∧ claimMarks specs = .ok claims ∧
      path.exec specs now s = (admitted, s') ∧ Attempt claims ttl now s admitted s' := by
  cases path with
  | acquire =>
    rcases acquireMultiLimit_run specs now s with ⟨e, run⟩ | ⟨claims, result, s', made, run, attempt⟩
    · simp only [ClaimPath.exec, run]
      exact Or.inl rfl
    · simp only [ClaimPath.exec, run]
      exact Or.inr ⟨claims, 86400, _, s', WholeTtl.day, made, rfl, attempt⟩
  | tryAdmit queueKey freezeKeys ttl =>
    rcases tryAdmitMultiLimit_run queueKey freezeKeys specs ttl now s with
      ⟨e, run⟩ | run | ⟨keyTtl, claims, admitted, s', normal, made, run, attempt⟩
    · simp only [ClaimPath.exec, run]
      exact Or.inl rfl
    · simp only [ClaimPath.exec, run]
      exact Or.inl rfl
    · simp only [ClaimPath.exec, run]
      exact Or.inr ⟨claims, keyTtl, admitted, s', normalizeStateTtlSeconds_whole normal, made, rfl, attempt⟩

/-- One budget of a claim whose budgets share no key. -/
theorem Attempt.focus_of_mem {claims : List ClaimSpec} {ttl : ℚ} {admitted : Bool} {s' : State}
    (attempt : Attempt claims ttl now s admitted s') (made : claimMarks specs = .ok claims)
    (distinct : (specs.flatMap MultiLimitSpec.footprint).Nodup) {spec : MultiLimitSpec} (member : spec ∈ specs) :
    ∃ c : ClaimSpec, c.spec = spec ∧ Focus {k | k ∈ spec.footprint} c ttl now s admitted s' := by
  obtain ⟨same, normals⟩ := claimMarks_normal made
  rw [← same] at member
  obtain ⟨c, found, rfl⟩ := List.mem_map.mp member
  obtain ⟨early, late, rfl⟩ := List.append_of_mem found
  refine ⟨c, rfl, attempt.focus normals ?_ ?_⟩
  · cases c <;> simp [ClaimSpec.spec, MultiLimitSpec.key, MultiLimitSpec.footprint]
  · rw [← same, List.map_append, List.map_cons, List.flatMap_append, List.flatMap_cons] at distinct
    obtain ⟨-, later, apart⟩ := List.nodup_append'.mp distinct
    obtain ⟨-, -, behind⟩ := List.nodup_append'.mp later
    intro other inside k own clash
    rcases List.mem_append.mp inside with before | after
    · refine apart (List.mem_flatMap.mpr ⟨other.spec, List.mem_map_of_mem before, own⟩) ?_
      exact List.mem_append_left _ clash
    · exact behind clash (List.mem_flatMap.mpr ⟨other.spec, List.mem_map_of_mem after, own⟩)

/-- What the check phase does to the slots of one ledger. -/
theorem checked_slots (populated : s.Populated) {c : ConcurrencySpec} (usable : unusableSlot c.cost c.config = none)
    {s₁ : State} (first : Keeps {k | k ∈ (MultiLimitSpec.concurrency c).footprint} now s s₁) (id : String) :
    (reapConcurrency s₁ c.key (fin now - c.config.requestTtl) now).slot c.key id now =
        (s.slot c.key id now).filter (fun taken => decide (fin now - c.config.requestTtl < fin taken)) ∧
      ((reapConcurrency s₁ c.key (fin now - c.config.requestTtl) now).slot c.key id now ≠ none →
        (reapConcurrency s₁ c.key (fin now - c.config.requestTtl) now).costOf c.key id now =
          s.costOf c.key id now) := by
  obtain ⟨-, -, lease, -, -, -, -, atLease, -⟩ := unusableSlot_none.mp usable
  have slots : c.key ∈ {k | k ∈ (MultiLimitSpec.concurrency c).footprint} := by simp [MultiLimitSpec.footprint]
  have costs : costsKey c.key ∈ {k | k ∈ (MultiLimitSpec.concurrency c).footprint} := by
    simp [MultiLimitSpec.footprint]
  have held : ∀ k ∈ {k | k ∈ (MultiLimitSpec.concurrency c).footprint}, ∀ e,
      s₁.live k now = some e → e.Populated := by
    intro k watched e found
    rw [first.live k watched] at found
    exact populated k e (State.live_eq_some.mp found).1
  obtain ⟨left, counted⟩ := reap_slots (held _ slots) (held _ costs) (now - lease) id
  rw [first.slot slots] at left
  rw [first.costOf costs] at counted
  simp only [atLease, sub_fin, fin_lt_fin]
  exact ⟨left, counted⟩

theorem Attempt.claimed {claims : List ClaimSpec} {ttl : ℚ} (whole : WholeTtl ttl) {s' : State}
    (attempt : Attempt claims ttl now s true s') (populated : s.Populated) (made : claimMarks specs = .ok claims)
    (distinct : (specs.flatMap MultiLimitSpec.footprint).Nodup) : Claimed specs now s s' := by
  have ledger : ∀ c, MultiLimitSpec.concurrency c ∈ specs → ∀ id,
      s'.slot c.key id now = (if id = c.slotId then some now else
          (s.slot c.key id now).filter (fun taken => decide (fin now - c.config.requestTtl < fin taken))) ∧
        (s'.slot c.key id now ≠ none →
          s'.costOf c.key id now = if id = c.slotId then c.cost else s.costOf c.key id now) := by
    intro c member id
    obtain ⟨claim, own, focus⟩ := attempt.focus_of_mem made distinct member
    cases claim with
    | tokenBucket b mark => cases own
    | concurrency c' =>
      cases own
      have slots : c.key ∈ {k | k ∈ (MultiLimitSpec.concurrency c).footprint} := by simp [MultiLimitSpec.footprint]
      have costs : costsKey c.key ∈ {k | k ∈ (MultiLimitSpec.concurrency c).footprint} := by
        simp [MultiLimitSpec.footprint]
      cases focus with
      | admitted usable first fits rest last =>
        obtain ⟨left, counted⟩ := checked_slots populated usable first id
        obtain ⟨-, amount, -, -, -, atCost, -⟩ := unusableSlot_none.mp usable
        rw [last.slot slots, last.costOf costs]
        simp only [ClaimSpec.commit]
        rw [(take_slots whole.pos _ _ _ _ _).1, (take_slots whole.pos _ _ _ _ _).2]
        rw [rest.slot slots, rest.costOf costs]
        simp only [ClaimSpec.check]
        refine ⟨by rw [left], ?_⟩
        intro there
        by_cases same : id = c.slotId
        · rw [if_pos same, if_pos same, atCost]
          rfl
        · rw [if_neg same, if_neg same]
          rw [if_neg same] at there
          exact counted there
  refine ⟨?_, ?_, ?_⟩
  · intro b member
    obtain ⟨claim, own, focus⟩ := attempt.focus_of_mem made distinct member
    cases claim with
    | concurrency c => cases own
    | tokenBucket b' mark =>
      cases own
      have here : b.key ∈ {k | k ∈ (MultiLimitSpec.tokenBucket b).footprint} := by simp [MultiLimitSpec.footprint]
      cases focus with
      | admitted usable first fits rest last =>
        obtain ⟨lives, -⟩ := bucketTtl_sized whole usable
        rw [State.hget_congr (last.live b.key here), ClaimSpec.commit, spend_tokens lives.pos, rest.refill here]
        simp only [ClaimSpec.check]
        rw [first.refill here]
        rfl
  · intro c member
    obtain ⟨taken, paid⟩ := ledger c member c.slotId
    rw [if_pos rfl] at taken
    rw [if_pos rfl] at paid
    exact ⟨taken, paid (by rw [taken]; exact Option.some_ne_none now)⟩
  · intro c member id other
    obtain ⟨left, counted⟩ := ledger c member id
    rw [if_neg other] at left counted
    exact ⟨left, counted⟩

theorem Attempt.unclaimed {claims : List ClaimSpec} {ttl : ℚ} (whole : WholeTtl ttl) {s' : State}
    (attempt : Attempt claims ttl now s false s') (populated : s.Populated) (made : claimMarks specs = .ok claims)
    (distinct : (specs.flatMap MultiLimitSpec.footprint).Nodup) : Unclaimed specs now s s' := by
  refine ⟨?_, ?_, ?_⟩
  · intro b member
    obtain ⟨claim, own, focus⟩ := attempt.focus_of_mem made distinct member
    cases claim with
    | concurrency c => cases own
    | tokenBucket b' mark =>
      cases own
      have here : b.key ∈ {k | k ∈ (MultiLimitSpec.tokenBucket b).footprint} := by simp [MultiLimitSpec.footprint]
      simp only [getTokenBucketState]
      cases focus with
      | skipped keeps => rw [keeps.refill here]
      | planned usable first rest => rw [(first.trans rest).refill here]
      | refused usable first rest last =>
        obtain ⟨lives, -⟩ := bucketTtl_sized whole usable
        rw [last.refill here, ClaimSpec.refuse, written_refill lives.pos (usable_free usable),
          (first.trans rest).refill here]
  · intro k outside
    refine (attempt.refused_keeps (W := {k}) ?_).live k rfl
    intro c member other home same
    rw [Set.mem_singleton_iff] at same
    subst same
    obtain ⟨mapped, -⟩ := claimMarks_normal made
    exact outside c.spec (mapped ▸ List.mem_map_of_mem member) home
  · intro c member id
    obtain ⟨claim, own, focus⟩ := attempt.focus_of_mem made distinct member
    cases claim with
    | tokenBucket b mark => cases own
    | concurrency c' =>
      cases own
      have slots : c.key ∈ {k | k ∈ (MultiLimitSpec.concurrency c).footprint} := by simp [MultiLimitSpec.footprint]
      have costs : costsKey c.key ∈ {k | k ∈ (MultiLimitSpec.concurrency c).footprint} := by
        simp [MultiLimitSpec.footprint]
      have reaped : ∀ s₁, unusableSlot c.cost c.config = none →
          Keeps {k | k ∈ (MultiLimitSpec.concurrency c).footprint} now s s₁ →
          Keeps {k | k ∈ (MultiLimitSpec.concurrency c).footprint} now
            (reapConcurrency s₁ c.key (fin now - c.config.requestTtl) now) s' →
          (s'.slot c.key id now = s.slot c.key id now ∨
            (s'.slot c.key id now = none ∧ ∃ taken, s.slot c.key id now = some taken ∧
              fin taken ≤ fin now - c.config.requestTtl)) ∧
            (s'.slot c.key id now ≠ none → s'.costOf c.key id now = s.costOf c.key id now) := by
        intro s₁ usable first rest
        obtain ⟨-, -, lease, -, -, -, -, atLease, -⟩ := unusableSlot_none.mp usable
        obtain ⟨left, counted⟩ := checked_slots populated usable first id
        rw [rest.slot slots, rest.costOf costs]
        refine ⟨?_, counted⟩
        rw [left]
        cases s.slot c.key id now with
        | none => exact Or.inl rfl
        | some taken =>
          simp only [Option.filter_some, atLease, sub_fin, fin_lt_fin, fin_le_fin]
          by_cases fresh : now - lease < taken
          · exact Or.inl (if_pos (decide_eq_true fresh))
          · refine Or.inr ⟨if_neg (by simpa using fresh), taken, rfl, not_lt.mp fresh⟩
      cases focus with
      | skipped keeps =>
        rw [keeps.slot slots, keeps.costOf costs]
        exact ⟨Or.inl rfl, fun _ => rfl⟩
      | planned usable first rest => exact reaped _ usable first rest
      | refused usable first rest last => exact reaped _ usable first (rest.trans last)

/-- The claim keeps what it asks of the store. -/
theorem ClaimPath.populated (path : ClaimPath) (populated : s.Populated) : (path.exec specs now s).2.Populated := by
  rcases path.attempts specs now s with same | ⟨claims, ttl, admitted, s', whole, made, run, attempt⟩
  · rw [same]
    exact populated
  · rw [run]
    exact attempt.populated populated

/-- A claim on several budgets takes all of them or none of them. -/
theorem claims_all_or_nothing (path : ClaimPath) (populated : s.Populated)
    (distinct : (specs.flatMap MultiLimitSpec.footprint).Nodup) :
    ((path.exec specs now s).1 = true ∧ Claimed specs now s (path.exec specs now s).2) ∨
      ((path.exec specs now s).1 = false ∧ Unclaimed specs now s (path.exec specs now s).2) := by
  rcases path.attempts specs now s with same | ⟨claims, ttl, admitted, s', whole, made, run, attempt⟩
  · rw [same]
    exact Or.inr ⟨rfl, fun _ _ => rfl, fun _ _ => rfl, fun _ _ _ => ⟨Or.inl rfl, fun _ => rfl⟩⟩
  · rw [run]
    cases admitted with
    | true => exact Or.inl ⟨rfl, attempt.claimed whole populated made distinct⟩
    | false => exact Or.inr ⟨rfl, attempt.unclaimed whole populated made distinct⟩

end Paths

/-- A bucket and a ledger. -/
def twoBudgets : List MultiLimitSpec :=
  [.tokenBucket ⟨"bucket", 4, fivePerSecond.config, some ⟨"claim", 60⟩, none⟩,
    .concurrency ⟨"ledger", 2, threeAtOnce, "slot", none⟩]

theorem claims_all_or_nothing_both :
    Claimed twoBudgets 0 State.fresh (ClaimPath.acquire.exec twoBudgets 0 State.fresh).2 := by
  have admitted : (ClaimPath.acquire.exec twoBudgets 0 State.fresh).1 = true := by decide +kernel
  have distinct : (twoBudgets.flatMap MultiLimitSpec.footprint).Nodup := by decide +kernel
  have outcome : ((ClaimPath.acquire.exec twoBudgets 0 State.fresh).1 = true ∧
      Claimed twoBudgets 0 State.fresh (ClaimPath.acquire.exec twoBudgets 0 State.fresh).2) ∨
      ((ClaimPath.acquire.exec twoBudgets 0 State.fresh).1 = false ∧
        Unclaimed twoBudgets 0 State.fresh (ClaimPath.acquire.exec twoBudgets 0 State.fresh).2) :=
    claims_all_or_nothing .acquire nofun distinct
  rcases outcome with ⟨-, claimed⟩ | ⟨refused, -⟩
  · exact claimed
  · rw [admitted] at refused
    cases refused

end Dianemo
