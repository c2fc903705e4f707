import Dianemo.Writes

namespace Dianemo

open JsNumber

/-- What is live later is what is live now and has not lapsed in between. -/
theorem State.live_later {now t : ℚ} (order : now ≤ t) (s : State) (key : String) :
    s.live key t = (s.live key now).filter fun e => !e.expired t := by
  simp only [State.live, Option.filter_filter]
  congr 1
  funext e
  cases lapses : e.expiresAt with
  | none => simp [Entry.expired, lapses]
  | some deadline =>
    by_cases past : deadline ≤ now
    · simp [Entry.expired, lapses, past, past.trans order]
    · simp [Entry.expired, lapses, past]

/-- Nothing under the keys of `W` reads differently at `now` or later. -/
structure Keeps (W : Set String) (now : ℚ) (s s' : State) : Prop where
  live : ∀ k ∈ W, s'.live k now = s.live k now
  epochs : s.epochs ≤ s'.epochs

namespace Keeps

variable {W : Set String} {now : ℚ} {s s' s'' : State}

theorem refl (W : Set String) (now : ℚ) (s : State) : Keeps W now s s := ⟨fun _ _ => rfl, le_rfl⟩

theorem trans (first : Keeps W now s s') (second : Keeps W now s' s'') : Keeps W now s s'' :=
  ⟨fun k mem => (second.live k mem).trans (first.live k mem), first.epochs.trans second.epochs⟩

theorem put {key : String} (avoid : key ∉ W) (s : State) (e : Entry) : Keeps W now s (s.put key e) where
  live _ mem := State.live_congr (State.put_store_ne (ne_of_mem_of_not_mem mem avoid)) now
  epochs := le_rfl

theorem delete {key : String} (avoid : key ∉ W) (s : State) : Keeps W now s (s.delete key) where
  live _ mem := State.live_congr (State.delete_store_ne (ne_of_mem_of_not_mem mem avoid)) now
  epochs := le_rfl

theorem dropIfEmpty {key : String} (avoid : key ∉ W) (s : State) : Keeps W now s (s.dropIfEmpty key) := by
  unfold State.dropIfEmpty
  split
  · exact refl W now s
  · split
    · exact delete avoid s
    · exact refl W now s

theorem setFields {key : String} (avoid : key ∉ W) (s : State) (fields : List (String × Field)) :
    Keeps W now s (s.setFields key now fields) :=
  put avoid s _

theorem putFields {key : String} (avoid : key ∉ W) (s : State) (fields : List (String × Field)) (ttl : ℚ) :
    Keeps W now s (s.putFields key now fields ttl) :=
  put avoid s _

theorem takeEpoch {key : String} (avoid : key ∉ W) (s : State) : Keeps W now s (takeEpoch s key now) := by
  unfold Dianemo.takeEpoch
  split
  · exact refl W now s
  · exact ⟨(setFields avoid s _).live, Nat.le_succ _⟩

/-- A mark is written after the bucket has its epoch. -/
theorem putMark {key : String} {mark : String × ℚ} (avoid : key ∉ W) (avoidMark : claimMarkKey key mark.1 ∉ W)
    (s : State) (cost : JsNumber) (state : BucketState) : Keeps W now s (s.putMark key mark cost state now) :=
  (takeEpoch avoid s).trans (putFields avoidMark _ _ _)

theorem spend {key : String} {mark : Option (String × ℚ)} (avoid : key ∉ W)
    (avoidMark : ∀ claim ∈ mark, claimMarkKey key claim.1 ∉ W) (s : State) (state : BucketState) (cost : JsNumber)
    (ttl : ℚ) : Keeps W now s (s.spend key state cost ttl mark now) := by
  cases mark with
  | none => exact putFields avoid s _ _
  | some claim => exact (putFields avoid s _ _).trans (putMark avoid (avoidMark claim rfl) _ _ _)

theorem creditTokens {key : String} (avoid : key ∉ W) (s : State) (cost maxTokens : JsNumber)
    (freezeKey : Option String) : Keeps W now s (creditTokens s key cost maxTokens freezeKey now) := by
  unfold Dianemo.creditTokens
  split
  · exact refl W now s
  · split
    · exact refl W now s
    · split
      · exact refl W now s
      · exact setFields avoid s _

/-- Reaping touches the slots and their costs, and no other key. -/
theorem reapConcurrency {key : String} (avoid : key ∉ W) (avoidCosts : costsKey key ∉ W) (s : State)
    (expireTime : JsNumber) : Keeps W now s (reapConcurrency s key expireTime now) := by
  unfold Dianemo.reapConcurrency
  split
  · exact refl W now s
  · rename_i e found
    split
    · exact refl W now s
    · rename_i z slots
      have reaped : Keeps W now s (s.put key { e with zset := some (eraseAll z (staleSlots z expireTime)) }) :=
        put avoid s _
      refine trans (reaped.trans ?_) ((dropIfEmpty avoid _).trans (dropIfEmpty avoidCosts _))
      split
      · exact refl W now _
      · exact put avoidCosts _ _

theorem releaseSlot {key : String} (avoid : key ∉ W) (avoidCosts : costsKey key ∉ W) (s : State)
    (requestId : String) : Keeps W now s (releaseSlot s key requestId now) := by
  unfold Dianemo.releaseSlot
  refine trans ?_ ((dropIfEmpty avoid _).trans (dropIfEmpty avoidCosts _))
  cases s.live key now with
  | none =>
    dsimp only
    split
    · exact refl W now s
    · exact put avoidCosts s _
  | some e =>
    have erased : Keeps W now s (s.put key { e with zset := e.zset.map fun z : Scores => z.erase requestId }) := put avoid s _
    dsimp only
    split
    · exact erased
    · exact erased.trans (put avoidCosts _ _)

end Keeps

/-- The state a claimed slot leaves. -/
def State.takeSlot (s : State) (key requestId : String) (cost : JsNumber) (ttl now : ℚ) : State :=
  let slots := s.put key { s.entry key now with
    zset := some (((s.entry key now).zset.getD ∅).insert requestId now)
    expiresAt := some (now + ttl * 1000) }
  slots.putFields (costsKey key) now [(requestId, .num cost)] ttl

theorem costsKey_ne (key : String) : costsKey key ≠ key := by
  intro same
  have lengths := congrArg String.length same
  simp [costsKey] at lengths

/-- A mark's key is longer than its bucket's. -/
theorem claimMarkKey_ne (key id : String) : claimMarkKey key id ≠ key := by
  intro same
  have lengths := congrArg String.length same
  simp only [claimMarkKey, String.length_append] at lengths
  have colons : (":claim:" : String).length = 7 := by decide
  omega

theorem claimMarkKey_inj {key id other : String} : claimMarkKey key id = claimMarkKey key other ↔ id = other := by
  simp only [claimMarkKey, String.append_right_inj]

theorem Keeps.takeSlot {W : Set String} {key : String} (avoid : key ∉ W) (avoidCosts : costsKey key ∉ W) (s : State)
    (requestId : String) (cost : JsNumber) (ttl now : ℚ) :
    Keeps W now s (s.takeSlot key requestId cost ttl now) :=
  (Keeps.put avoid s _).trans (Keeps.putFields avoidCosts _ _ _)

/-- A key that is found keeps what it holds. -/
theorem expire_put {ttl : ℚ} (whole : WholeTtl ttl) {s : State} {key : String} {e : Entry} {now : ℚ}
    (found : s.live key now = some e) :
    (expire key ttl now).run s = (.ok (), s.put key { e with expiresAt := some (now + ttl * 1000) }) := by
  have above : ¬ ttl ≤ 0 := not_le.mpr whole.pos
  rw [expire, Op.run_bind_ok (by rw [whole.normalize]; rfl), Op.run_modify]
  simp only [found, above, if_false]

theorem put_comm {key other : String} (ne : key ≠ other) (s : State) (e e' : Entry) :
    (s.put key e).put other e' = (s.put other e').put key e := by
  simp only [State.put, Function.update_comm ne]

theorem entry_put_ne {key other : String} (ne : other ≠ key) (s : State) (e : Entry) (now : ℚ) :
    (s.put key e).entry other now = s.entry other now := by
  simp only [State.entry, State.live_congr (State.put_store_ne ne)]

/-- A slot and its cost are stored, and both keys are given the lifetime. -/
theorem claimSlot_run {ttl : ℚ} (whole : WholeTtl ttl) (key requestId : String) (cost : JsNumber) (now : ℚ)
    (s : State) :
    (claimSlot key requestId cost ttl now).run s = (.ok (), s.takeSlot key requestId cost ttl now) := by
  have ne := costsKey_ne key
  rw [claimSlot, Op.run_bind_ok (by rw [whole.normalize]; rfl), Op.run_bind_ok (Op.run_modify _ _),
    Op.run_bind_ok (Op.run_modify _ _)]
  have slot : ((s.setScore key now requestId now).setFields (costsKey key) now [(requestId, .num cost)]).live key now =
      some { s.entry key now with zset := some (((s.entry key now).zset.getD ∅).insert requestId now) } := by
    rw [State.setFields, State.live_congr (State.put_store_ne ne.symm)]
    exact State.live_put_self (s.entry_expired key now)
  rw [Op.run_bind_ok (expire_put whole slot)]
  have moved : ((s.setScore key now requestId now).setFields (costsKey key) now [(requestId, .num cost)]).put key
      { s.entry key now with
        zset := some (((s.entry key now).zset.getD ∅).insert requestId now)
        expiresAt := some (now + ttl * 1000) } =
      (s.put key { s.entry key now with
        zset := some (((s.entry key now).zset.getD ∅).insert requestId now)
        expiresAt := some (now + ttl * 1000) }).setFields (costsKey key) now [(requestId, .num cost)] := by
    simp only [State.setFields, State.setScore, entry_put_ne ne]
    rw [put_comm ne, State.put_put]
  rw [moved]
  exact expire_setFields whole _ _ now _

theorem Keeps.acquireConcurrency {W : Set String} {key : String} (avoid : key ∉ W) (avoidCosts : costsKey key ∉ W)
    (s : State) (cost : JsNumber) (slotId : String) (config : ConcurrencyConfig) (now : ℚ) :
    Keeps W now s ((Dianemo.acquireConcurrency key cost slotId config now).run s).2 := by
  unfold Dianemo.acquireConcurrency
  split
  · exact refl W now s
  · rw [Op.run_bind_ok (Op.run_modify _ _), Op.run_bind_ok (Op.run_read _)]
    have reaped : Keeps W now s (Dianemo.reapConcurrency s key (fin now - config.requestTtl) now) :=
      .reapConcurrency avoid avoidCosts s _
    dsimp only
    split
    · exact reaped
    · simp only [ofNat_eq]
      rw [Op.run_bind_ok (claimSlot_run WholeTtl.day _ _ _ _ _)]
      exact reaped.trans (.takeSlot avoid avoidCosts _ slotId cost 86400 now)

/-- A queued claim is a claim made while the entry's metadata is there. -/
theorem Keeps.acquireQueuedConcurrency {W : Set String} {key : String} (avoid : key ∉ W)
    (avoidCosts : costsKey key ∉ W)
    (s : State) (metadataKey : String) (cost : JsNumber) (slotId : String) (config : ConcurrencyConfig) (now : ℚ) :
    Keeps W now s ((Dianemo.acquireQueuedConcurrency key metadataKey cost slotId config now).run s).2 := by
  unfold Dianemo.acquireQueuedConcurrency
  split
  · exact refl W now s
  · rw [Op.run_bind_ok (Op.run_modify _ _), Op.run_bind_ok (Op.run_read _)]
    have reaped : Keeps W now s (Dianemo.reapConcurrency s key (fin now - config.requestTtl) now) :=
      .reapConcurrency avoid avoidCosts s _
    split
    · exact reaped
    · exact reaped.trans (.acquireConcurrency avoid avoidCosts _ cost slotId config now)

end Dianemo
