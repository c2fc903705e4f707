import Dianemo.Queue

namespace Dianemo

open JsNumber

/-- An id as `crypto.randomUUID` makes them, as far as the store's keys care. -/
def PlainId (id : String) : Prop := ':' ∉ id.toList

instance (id : String) : Decidable (PlainId id) := inferInstanceAs (Decidable (':' ∉ id.toList))

/-- Where a client keeps its queue: `getQueueKey` and `getMetadataKeyPrefix`. -/
def clientQueue (nspace : String) : QueueKeys where
  queueKey := nspace ++ ":queue"
  metadataKeyPrefix := nspace ++ ":request"
  apart tail same := by
    rw [String.append_assoc, String.append_assoc, String.append_right_inj] at same
    have heads := congrArg (fun s => s.toList.take 2) same
    simp at heads

namespace QueueKeys

variable (q : QueueKeys)

/-- The keys a queue lives under. -/
def keys : Set String := {k | k = q.queueKey ∨ ∃ tail, k = q.metadataKey tail}

/-- An entry's metadata. -/
def item (s : State) (now : ℚ) (requestId : String) : Option Fields := s.hash (q.metadataKey requestId) now

variable {q}

theorem metadataKey_inj {id other : String} : q.metadataKey id = q.metadataKey other ↔ id = other := by
  simp only [metadataKey, String.append_right_inj]

theorem tombstoneKey_eq (id : String) : q.tombstoneKey id = q.metadataKey (id ++ ":removed") := by
  simp only [tombstoneKey, metadataKey, String.append_assoc]

theorem metadataKey_ne (id : String) : q.metadataKey id ≠ q.queueKey := (q.apart id).symm

theorem tombstoneKey_ne (id : String) : q.tombstoneKey id ≠ q.queueKey := by
  rw [tombstoneKey_eq]
  exact metadataKey_ne _

theorem tombstoneKey_ne_metadataKey (id : String) {other : String} (plain : PlainId other) :
    q.tombstoneKey id ≠ q.metadataKey other := by
  rw [tombstoneKey_eq, Ne, metadataKey_inj]
  rintro rfl
  exact plain (by simp)

theorem tombstoneKey_inj {id other : String} : q.tombstoneKey id = q.tombstoneKey other ↔ id = other := by
  rw [tombstoneKey_eq, tombstoneKey_eq, metadataKey_inj, String.append_left_inj]

theorem queueKey_mem : q.queueKey ∈ q.keys := Or.inl rfl

theorem metadataKey_mem (id : String) : q.metadataKey id ∈ q.keys := Or.inr ⟨id, rfl⟩

theorem tombstoneKey_mem (id : String) : q.tombstoneKey id ∈ q.keys := Or.inr ⟨_, tombstoneKey_eq id⟩

end QueueKeys

section Writes

variable {s s' : State} {key other : String} {now t : ℚ}

theorem State.hash_congr (same : s'.live key now = s.live key now) : s'.hash key now = s.hash key now := by
  simp only [State.hash, same]

theorem State.zset_congr (same : s'.live key now = s.live key now) : s'.zset key now = s.zset key now := by
  simp only [State.zset, same]

theorem State.sorted_congr (same : s'.live key now = s.live key now) : s'.sorted key now = s.sorted key now := by
  simp only [State.sorted, State.zset, same]

theorem State.setFields_live_ne (ne : other ≠ key) (s : State) (now' : ℚ) (fields : List (String × Field)) :
    (s.setFields key now fields).live other now' = s.live other now' :=
  State.live_congr (State.put_store_ne ne) now'

theorem State.putFields_live_ne (ne : other ≠ key) (s : State) (now' : ℚ)
    (fields : List (String × Field)) (ttl : ℚ) :
    (s.putFields key now fields ttl).live other now' = s.live other now' :=
  State.live_congr (State.put_store_ne ne) now'

theorem State.setScore_live_ne (ne : other ≠ key) (s : State) (now' : ℚ) (member : String) (score : ℚ) :
    (s.setScore key now member score).live other now' = s.live other now' :=
  State.live_congr (State.put_store_ne ne) now'

theorem State.eraseField_store_ne (ne : other ≠ key) (s : State) (field : String) :
    (s.eraseField key now field).store other = s.store other := by
  unfold State.eraseField
  split
  · rfl
  · exact State.put_store_ne ne

theorem State.eraseScore_store_ne (ne : other ≠ key) (s : State) (member : String) :
    (s.eraseScore key now member).store other = s.store other := by
  unfold State.eraseScore
  split
  · rfl
  · exact State.put_store_ne ne

theorem State.dropIfEmpty_store_ne (ne : other ≠ key) (s : State) :
    (s.dropIfEmpty key).store other = s.store other := by
  unfold State.dropIfEmpty
  split
  · rfl
  · split
    · exact State.delete_store_ne ne
    · rfl

/-- A write to a key leaves its lifetime as it was. -/
theorem State.live_setFields {e : Entry} (found : s.live key now = some e) (fields : List (String × Field)) :
    (s.setFields key now fields).live key now =
      some { e with hash := some (withFields (e.hash.getD ∅) fields) } := by
  have same : s.entry key now = e := by simp [State.entry, found]
  rw [← same]
  exact State.live_put_self (s.entry_expired key now)

theorem State.hash_setFields {h : Fields} (found : s.hash key now = some h) (fields : List (String × Field)) :
    (s.setFields key now fields).hash key now = some (withFields h fields) := by
  unfold State.hash at found ⊢
  obtain ⟨e, live, hash⟩ := Option.bind_eq_some_iff.mp found
  rw [State.live_setFields live]
  simp [hash]

theorem State.hash_eraseField (s : State) (key : String) (now : ℚ) (field : String) :
    (s.eraseField key now field).hash key now = (s.hash key now).map fun h : Fields => h.erase field := by
  unfold State.eraseField State.hash
  cases live : s.live key now with
  | none => simp [live]
  | some e =>
    have fresh : e.expired now = false := (State.live_eq_some.mp live).2
    have kept : ({ e with hash := e.hash.map fun h : Fields => h.erase field } : Entry).expired now = false := fresh
    dsimp only
    rw [State.live_put_self kept]
    rfl

theorem State.hash_later (order : t ≤ now) (s : State) (key : String) :
    s.hash key now = none ∨ s.hash key now = s.hash key t := by
  unfold State.hash
  rw [State.live_later order]
  cases found : s.live key t with
  | none => exact .inl rfl
  | some e =>
    by_cases lapsed : e.expired now
    · exact .inl (by simp [Option.filter, lapsed])
    · exact .inr (by simp [Option.filter, lapsed])

theorem State.zset_later (order : t ≤ now) (s : State) (key : String) :
    s.zset key now = none ∨ s.zset key now = s.zset key t := by
  unfold State.zset
  rw [State.live_later order]
  cases found : s.live key t with
  | none => exact .inl rfl
  | some e =>
    by_cases lapsed : e.expired now
    · exact .inl (by simp [Option.filter, lapsed])
    · exact .inr (by simp [Option.filter, lapsed])

theorem State.mem_sorted {id : String} : id ∈ s.sorted key now ↔ ∃ z, s.zset key now = some z ∧ id ∈ z := by
  unfold State.sorted
  cases found : s.zset key now with
  | none => simp
  | some z =>
    simp only [List.mem_map, List.mem_insertionSort, Option.some.injEq, exists_eq_left', AList.mem_keys]
    simp only [AList.keys, List.keys, List.mem_map, Prod.exists, exists_and_right, exists_eq_right]
    constructor
    · rintro ⟨score, e, member, same⟩
      exact ⟨e, member, (Prod.mk.inj same).1⟩
    · rintro ⟨e, member, rfl⟩
      exact ⟨e.2, e, member, rfl⟩

theorem State.zset_eraseScore (s : State) (key : String) (now : ℚ) (member : String) :
    (s.eraseScore key now member).zset key now = (s.zset key now).map fun z : Scores => z.erase member := by
  unfold State.eraseScore State.zset
  cases live : s.live key now with
  | none => simp [live]
  | some e =>
    have fresh : e.expired now = false := (State.live_eq_some.mp live).2
    have kept : ({ e with zset := e.zset.map fun z : Scores => z.erase member } : Entry).expired now =
      false := fresh
    simp [State.live_put_self kept]

theorem State.zset_setScore (s : State) (key : String) (now : ℚ) (member : String) (score : ℚ) :
    (s.setScore key now member score).zset key now = some (((s.zset key now).getD ∅).insert member score) := by
  have fresh : ({ s.entry key now with zset := some (((s.entry key now).zset.getD ∅).insert member score) } : Entry).expired
      now = false := s.entry_expired key now
  rw [State.setScore, State.zset, State.live_put_self fresh]
  cases live : s.live key now with
  | none => simp [State.entry, State.zset, live]
  | some e => simp [State.entry, State.zset, live]

/-- Dropping an empty key takes no member with it. -/
theorem State.zset_dropIfEmpty (s : State) (key : String) (now : ℚ) :
    (s.dropIfEmpty key).zset key now = none ∨ (s.dropIfEmpty key).zset key now = s.zset key now := by
  unfold State.dropIfEmpty
  split
  · exact .inr rfl
  · split
    · exact .inl (by simp [State.zset, State.live_delete_self])
    · exact .inr rfl

end Writes

section Adding

variable {q : QueueKeys} {s : State} {now : ℚ}

/-- The state an accepted add leaves. -/
def State.enqueue (s : State) (q : QueueKeys) (request : QueuedRequest) (score ttl now : ℚ) : State :=
  (s.put q.queueKey { s.entry q.queueKey now with
    zset := some (((s.entry q.queueKey now).zset.getD ∅).insert request.requestId score)
    expiresAt := some (now + ttl * 1000) }).putFields (q.metadataKey request.requestId) now request.fields ttl

/-- An add either throws or is refused and changes nothing, or writes the entry
under the score of its request. -/
theorem addRequest_scored (q : QueueKeys) (request : QueuedRequest) (ttl : JsNumber) (now : ℚ) (s : State) :
    (∃ e, (addRequest q request ttl now).run s = (.error e, s)) ∨
      ((addRequest q request ttl now).run s = (.ok false, s) ∧
        ((s.live (q.tombstoneKey request.requestId) now).isSome ∨ (q.item s now request.requestId).isSome)) ∨
      ∃ score seconds, calculateQueueScore request.priority request.retries request.timestamp = .ok score ∧
        normalizeStateTtlSeconds ttl = .ok seconds ∧ s.live (q.tombstoneKey request.requestId) now = none ∧
        q.item s now request.requestId = none ∧
        (addRequest q request ttl now).run s = (.ok true, s.enqueue q request score seconds now) := by
  unfold addRequest
  cases scored : calculateQueueScore request.priority request.retries request.timestamp with
  | error e =>
    rw [Op.run_bind_error (Op.run_lift _ s)]
    exact .inl ⟨e, rfl⟩
  | ok score =>
    rw [Op.run_bind_ok (Op.run_lift _ s)]
    cases normal : normalizeStateTtlSeconds ttl with
    | error e =>
      rw [Op.run_bind_error (Op.run_lift _ s)]
      exact .inl ⟨e, rfl⟩
    | ok seconds =>
      rw [Op.run_bind_ok (Op.run_lift _ s), Op.run_bind_ok (Op.run_read s)]
      by_cases removed : (s.live (q.tombstoneKey request.requestId) now).isSome
      · rw [if_pos removed]
        exact .inr (.inl ⟨rfl, .inl removed⟩)
      rw [if_neg removed]
      by_cases queued : (s.hash (q.metadataKey request.requestId) now).isSome
      · rw [if_pos queued]
        exact .inr (.inl ⟨rfl, .inr queued⟩)
      rw [if_neg queued]
      have whole := normalizeStateTtlSeconds_whole normal
      refine .inr (.inr ⟨score, seconds, rfl, rfl, by simpa using removed, by simpa [QueueKeys.item] using queued, ?_⟩)
      have ne : q.metadataKey request.requestId ≠ q.queueKey := QueueKeys.metadataKey_ne _
      rw [Op.run_bind_ok (Op.run_modify _ s), Op.run_bind_ok (Op.run_modify _ _)]
      have placed : ((s.setScore q.queueKey now request.requestId score).setFields (q.metadataKey request.requestId) now
          request.fields).live q.queueKey now =
          some { s.entry q.queueKey now with
            zset := some (((s.entry q.queueKey now).zset.getD ∅).insert request.requestId score) } := by
        rw [State.setFields_live_ne ne.symm]
        exact State.live_put_self (s.entry_expired _ now)
      rw [Op.run_bind_ok (expire_put whole placed)]
      have moved : ((s.setScore q.queueKey now request.requestId score).setFields (q.metadataKey request.requestId) now
          request.fields).put q.queueKey { s.entry q.queueKey now with
            zset := some (((s.entry q.queueKey now).zset.getD ∅).insert request.requestId score)
            expiresAt := some (now + seconds * 1000) } =
          (s.put q.queueKey { s.entry q.queueKey now with
            zset := some (((s.entry q.queueKey now).zset.getD ∅).insert request.requestId score)
            expiresAt := some (now + seconds * 1000) }).setFields
              (q.metadataKey request.requestId) now request.fields := by
        simp only [State.setFields, State.setScore, entry_put_ne ne]
        rw [put_comm ne, State.put_put]
      rw [moved, Op.run_bind_ok (expire_setFields whole _ _ now _)]
      rfl

theorem addRequest_run (q : QueueKeys) (request : QueuedRequest) (ttl : JsNumber) (now : ℚ) (s : State) :
    (∃ e, (addRequest q request ttl now).run s = (.error e, s)) ∨
      ((addRequest q request ttl now).run s = (.ok false, s) ∧
        ((s.live (q.tombstoneKey request.requestId) now).isSome ∨ (q.item s now request.requestId).isSome)) ∨
      ∃ score seconds, WholeTtl seconds ∧ s.live (q.tombstoneKey request.requestId) now = none ∧
        q.item s now request.requestId = none ∧
        (addRequest q request ttl now).run s = (.ok true, s.enqueue q request score seconds now) := by
  rcases addRequest_scored q request ttl now s
    with thrown | refused | ⟨score, seconds, -, normal, unmarked, absent, run⟩
  · exact .inl thrown
  · exact .inr (.inl refused)
  · exact .inr (.inr ⟨score, seconds, normalizeStateTtlSeconds_whole normal, unmarked, absent, run⟩)

end Adding

end Dianemo
