import Dianemo.Items

namespace Dianemo

open JsNumber

/-- A backend call as one queue sees it. `elsewhere` stands for whatever other
keys' traffic, freezes included, turns the store into. -/
inductive QueueCall where
  | addRequest (request : QueuedRequest) (ttl : JsNumber)
  | getNextRequest (skipGrantIds skipRequestIds : List String)
  | confirmRequest (requestId : String) (claimedAt : JsNumber)
  | updateRequest (requestId : String) (updates : RequestUpdates)
  | removeRequest (requestId : String) (tombstoneTtlSeconds : JsNumber)
  | cleanupOrphanedRequests (aliveInstanceIds : List String) (currentInstanceId : String)
  | tryStartThawRequest (frozenGrantsKey requestId grantId : String) (anyGrant : Bool)
  | elsewhere (after : State)

namespace QueueCall

def exec (q : QueueKeys) (now : ℚ) (s : State) : QueueCall → State
  | .addRequest request ttl => ((Dianemo.addRequest q request ttl now).run s).2
  | .getNextRequest skipGrantIds skipRequestIds => (Dianemo.getNextRequest q s skipGrantIds skipRequestIds now).2
  | .confirmRequest requestId claimedAt => (Dianemo.confirmRequest q s requestId claimedAt now).2
  | .updateRequest requestId updates => Dianemo.updateRequest q s requestId updates now
  | .removeRequest requestId ttl => (Dianemo.removeRequest q s requestId ttl now).2
  | .cleanupOrphanedRequests alive current => Dianemo.cleanupOrphanedRequests q s alive current now
  | .tryStartThawRequest frozenGrantsKey requestId grantId anyGrant =>
    (Dianemo.tryStartThawRequest q s frozenGrantsKey requestId grantId anyGrant now).2
  | .elsewhere after => after

/-- The ids are request ids, and nothing else reaches the queue's keys. -/
def Apart (q : QueueKeys) (now : ℚ) (s : State) : QueueCall → Prop
  | .addRequest request _ => PlainId request.requestId
  | .getNextRequest _ _ => True
  | .confirmRequest requestId _ => PlainId requestId
  | .updateRequest requestId _ => PlainId requestId
  | .removeRequest requestId _ => PlainId requestId
  | .cleanupOrphanedRequests _ _ => True
  | .tryStartThawRequest frozenGrantsKey requestId _ _ => PlainId requestId ∧ frozenGrantsKey ∉ q.keys
  | .elsewhere after => Keeps q.keys now s after

/-- The id whose removal the call is, if it is one. -/
def removes : QueueCall → Option String
  | .removeRequest requestId _ => some requestId
  | _ => none

end QueueCall

/-- Runs of the backend as one queue sees them. -/
def queueRuns (q : QueueKeys) : Timed.Machine ℚ State QueueCall where
  step now call s := call.exec q now s
  allowed now call s := call.Apart q now s

/-- The same with no removal of `id` among the calls. -/
def unremovedRuns (q : QueueKeys) (id : String) : Timed.Machine ℚ State QueueCall where
  step now call s := call.exec q now s
  allowed now call s := call.Apart q now s ∧ call.removes ≠ some id

/-- One write to a queue's keys. Tombstones are set for ids of `buried` only. -/
inductive Edit (q : QueueKeys) (buried : Set String) (now : ℚ) : State → State → Prop
  | elsewhere {s s'} : Keeps q.keys now s s' → Edit q buried now s s'
  | write {s id h fields} : PlainId id → q.item s now id = some h → (∀ f ∈ fields, f.1 ≠ "requestId") →
      Edit q buried now s (s.setFields (q.metadataKey id) now fields)
  | eraseField {s id field} : PlainId id → field ≠ "requestId" →
      Edit q buried now s (s.eraseField (q.metadataKey id) now field)
  | rescore {s id h score} : PlainId id → q.item s now id = some h →
      Edit q buried now s (s.setScore q.queueKey now id score)
  | eraseScore {s id} : Edit q buried now s (s.eraseScore q.queueKey now id)
  | dropIfEmpty {s} : Edit q buried now s (s.dropIfEmpty q.queueKey)
  | delete {s id} : PlainId id → Edit q buried now s (s.delete (q.metadataKey id))
  | entomb {s id e} : id ∈ buried → e.hash = none → Edit q buried now s (s.put (q.tombstoneKey id) e)
  | enqueue {s request score ttl} : WholeTtl ttl → PlainId request.requestId →
      s.live (q.tombstoneKey request.requestId) now = none → q.item s now request.requestId = none →
      Edit q buried now s (s.enqueue q request score ttl now)

/-- Entries carry their own id, and the queue's members are request ids. -/
structure Tidy (q : QueueKeys) (now : ℚ) (s : State) : Prop where
  named : ∀ id h, PlainId id → q.item s now id = some h → h.lookup "requestId" = some (.text id)
  members : ∀ z, s.zset q.queueKey now = some z → ∀ id ∈ z, PlainId id

/-- The id is out of the queue and marked as removed until `deadline`. -/
structure Gone (q : QueueKeys) (id : String) (deadline now : ℚ) (s : State) : Prop where
  tombstone : ∃ e, s.live (q.tombstoneKey id) now = some e ∧ e.expiresAt = some deadline
  metadata : s.live (q.metadataKey id) now = none
  unqueued : ∀ z, s.zset q.queueKey now = some z → id ∉ z

section Edits

variable {q : QueueKeys} {buried : Set String} {now t deadline : ℚ} {s s' : State} {id : String}

theorem withFields_lookup_ne {field : String} {fields : List (String × Field)} (avoid : ∀ f ∈ fields, f.1 ≠ field)
    (h : Fields) : (withFields h fields).lookup field = h.lookup field := by
  induction fields generalizing h with
  | nil => rfl
  | cons f rest ih =>
    have other : f.1 ≠ field := avoid f (List.mem_cons_self ..)
    change (withFields (h.insert f.1 f.2) rest).lookup field = h.lookup field
    rw [ih (fun f' member => avoid f' (List.mem_cons_of_mem _ member))]
    exact AList.lookup_insert_ne other.symm

theorem QueuedRequest.fields_requestId (request : QueuedRequest) (h : Fields) :
    (withFields h request.fields).lookup "requestId" = some (.text request.requestId) := by
  cases settled : request.settles <;> simp [QueuedRequest.fields, settled, withFields, AList.lookup_insert_ne]

theorem State.live_enqueue_ne {request : QueuedRequest} {score ttl : ℚ} {key : String} (queue : key ≠ q.queueKey)
    (entry : key ≠ q.metadataKey request.requestId) (t : ℚ) :
    (s.enqueue q request score ttl now).live key t = s.live key t := by
  rw [State.enqueue, State.putFields_live_ne entry, State.live_congr (State.put_store_ne queue)]

theorem State.zset_enqueue {request : QueuedRequest} {score ttl : ℚ} (positive : 0 < ttl) :
    (s.enqueue q request score ttl now).zset q.queueKey now =
      some (((s.zset q.queueKey now).getD ∅).insert request.requestId score) := by
  have ne : q.queueKey ≠ q.metadataKey request.requestId := (QueueKeys.metadataKey_ne _).symm
  have lasts : now < now + ttl * 1000 := by linarith
  have entry : (s.entry q.queueKey now).zset.getD ∅ = (s.zset q.queueKey now).getD ∅ := by
    cases found : s.live q.queueKey now <;> simp [State.entry, State.zset, found]
  rw [State.zset, State.enqueue, State.putFields_live_ne ne, State.live_put_self (expired_of_lt rfl lasts)]
  simp [entry]

theorem item_enqueue {request : QueuedRequest} {score ttl : ℚ} (positive : 0 < ttl) :
    ∃ h, q.item (s.enqueue q request score ttl now) now request.requestId = some (withFields h request.fields) := by
  have held : ∃ h, (s.enqueue q request score ttl now).Held (q.metadataKey request.requestId) now
      (withFields h request.fields) (now + ttl * 1000) := ⟨_, held_putFields positive request.fields⟩
  obtain ⟨h, e, live, hash, -⟩ := held
  exact ⟨h, by simp only [QueueKeys.item, State.hash, live, Option.bind_some, hash]⟩

/-- What one write leaves under an entry's key: the same hash but for fields
other than its id, a new one under its own id, or none. -/
theorem Edit.item (edit : Edit q buried now s s') (plain : PlainId id) :
    (∀ h', q.item s' now id = some h' → h'.lookup "requestId" = some (.text id) ∨
      ∃ h, q.item s now id = some h ∧ h'.lookup "requestId" = h.lookup "requestId") := by
  intro h' found
  cases edit with
  | elsewhere keeps =>
    rw [QueueKeys.item, State.hash_congr (keeps.live _ (QueueKeys.metadataKey_mem id))] at found
    exact .inr ⟨h', found, rfl⟩
  | @write other h fields _ held safe =>
    by_cases same : id = other
    · subst same
      rw [QueueKeys.item, State.hash_setFields held] at found
      cases found
      exact .inr ⟨h, held, withFields_lookup_ne safe h⟩
    · rw [QueueKeys.item, State.hash_congr (State.setFields_live_ne (mt QueueKeys.metadataKey_inj.mp same) s now _)] at found
      exact .inr ⟨h', found, rfl⟩
  | @eraseField other field _ safe =>
    by_cases same : id = other
    · subst same
      rw [QueueKeys.item, State.hash_eraseField] at found
      obtain ⟨h, held, rfl⟩ := Option.map_eq_some_iff.mp found
      exact .inr ⟨h, held, AList.lookup_erase_ne safe.symm⟩
    · rw [QueueKeys.item, State.hash_congr (State.live_congr
        (State.eraseField_store_ne (mt QueueKeys.metadataKey_inj.mp same) s field) now)] at found
      exact .inr ⟨h', found, rfl⟩
  | rescore =>
    rw [QueueKeys.item, State.hash_congr (State.setScore_live_ne (QueueKeys.metadataKey_ne id) s now _ _)] at found
    exact .inr ⟨h', found, rfl⟩
  | eraseScore =>
    rw [QueueKeys.item, State.hash_congr (State.live_congr
      (State.eraseScore_store_ne (QueueKeys.metadataKey_ne id) s _) now)] at found
    exact .inr ⟨h', found, rfl⟩
  | dropIfEmpty =>
    rw [QueueKeys.item, State.hash_congr (State.live_congr
      (State.dropIfEmpty_store_ne (QueueKeys.metadataKey_ne id) s) now)] at found
    exact .inr ⟨h', found, rfl⟩
  | @delete other _ =>
    by_cases same : id = other
    · subst same
      simp [QueueKeys.item, State.hash, State.live_delete_self] at found
    · rw [QueueKeys.item, State.hash_congr (State.live_congr
        (State.delete_store_ne (mt QueueKeys.metadataKey_inj.mp same)) now)] at found
      exact .inr ⟨h', found, rfl⟩
  | @entomb other e member bare =>
    rw [QueueKeys.item, State.hash_congr (State.live_congr
      (State.put_store_ne (QueueKeys.tombstoneKey_ne_metadataKey other plain).symm) now)] at found
    exact .inr ⟨h', found, rfl⟩
  | @enqueue request score ttl whole _ _ absent =>
    by_cases same : id = request.requestId
    · subst same
      obtain ⟨h, added⟩ := item_enqueue whole.pos
      rw [added] at found
      cases found
      exact .inl (request.fields_requestId h)
    · rw [QueueKeys.item, State.hash_congr (State.live_enqueue_ne (QueueKeys.metadataKey_ne id)
        (mt QueueKeys.metadataKey_inj.mp same) now)] at found
      exact .inr ⟨h', found, rfl⟩

/-- What one write leaves in the queue: members it had, an id whose entry is
there, or one just added. -/
theorem Edit.zset (edit : Edit q buried now s s') {z' : Scores}
    (found : s'.zset q.queueKey now = some z') {id : String}
    (member : id ∈ z') : (∃ z, s.zset q.queueKey now = some z ∧ id ∈ z) ∨ PlainId id ∧ (q.item s now id).isSome ∨
      PlainId id ∧ s.live (q.tombstoneKey id) now = none := by
  have inserted : ∀ {other : String} {score : ℚ}, z' = (((s.zset q.queueKey now).getD ∅).insert other score) →
      id = other ∨ ∃ z, s.zset q.queueKey now = some z ∧ id ∈ z := by
    rintro other score rfl
    rcases (AList.mem_insert _).mp member with same | old
    · exact .inl same
    · cases had : s.zset q.queueKey now with
      | none => simp [had] at old
      | some z => exact .inr ⟨z, rfl, by simpa [had] using old⟩
  cases edit with
  | elsewhere keeps =>
    rw [State.zset_congr (keeps.live _ QueueKeys.queueKey_mem)] at found
    exact .inl ⟨z', found, member⟩
  | write =>
    rw [State.zset_congr (State.setFields_live_ne (QueueKeys.metadataKey_ne _).symm s now _)] at found
    exact .inl ⟨z', found, member⟩
  | eraseField =>
    rw [State.zset_congr (State.live_congr (State.eraseField_store_ne (QueueKeys.metadataKey_ne _).symm s _) now)] at found
    exact .inl ⟨z', found, member⟩
  | @rescore other h score plain held =>
    rw [State.zset_setScore] at found
    rcases inserted (Option.some.inj found).symm with rfl | old
    · exact .inr (.inl ⟨plain, by simp [held]⟩)
    · exact .inl old
  | eraseScore =>
    rw [State.zset_eraseScore] at found
    obtain ⟨z, had, rfl⟩ := Option.map_eq_some_iff.mp found
    exact .inl ⟨z, had, (AList.mem_erase.mp member).2⟩
  | dropIfEmpty =>
    rcases s.zset_dropIfEmpty q.queueKey now with none_ | same
    · rw [none_] at found
      cases found
    · exact .inl ⟨z', same.symm.trans found, member⟩
  | delete =>
    rw [State.zset_congr (State.live_congr (State.delete_store_ne (QueueKeys.metadataKey_ne _).symm) now)] at found
    exact .inl ⟨z', found, member⟩
  | entomb =>
    rw [State.zset_congr (State.live_congr (State.put_store_ne (QueueKeys.tombstoneKey_ne _).symm) now)] at found
    exact .inl ⟨z', found, member⟩
  | @enqueue request score ttl whole plain unmarked absent =>
    rw [State.zset_enqueue whole.pos] at found
    rcases inserted (Option.some.inj found).symm with rfl | old
    · exact .inr (.inr ⟨plain, unmarked⟩)
    · exact .inl old

theorem Edit.tidy (edit : Edit q buried now s s') (tidy : Tidy q now s) : Tidy q now s' := by
  constructor
  · intro id h' plain found
    rcases edit.item plain h' found with own | ⟨h, had, same⟩
    · exact own
    · rw [same]
      exact tidy.named id h plain had
  · intro z' found id member
    rcases edit.zset found member with ⟨z, had, old⟩ | ⟨plain, -⟩ | ⟨plain, -⟩
    · exact tidy.members z had id old
    · exact plain
    · exact plain

/-- No write but the removal of the id itself brings it back or unmarks it. -/
theorem Edit.gone (edit : Edit q buried now s s') (plain : PlainId id) (other : id ∉ buried)
    (gone : Gone q id deadline now s) : Gone q id deadline now s' := by
  obtain ⟨e, marked, lasts⟩ := gone.tombstone
  have noItem : q.item s now id = none := by simp [QueueKeys.item, State.hash, gone.metadata]
  -- neither the mark nor the metadata key is written to
  have untouched : s'.live (q.tombstoneKey id) now = s.live (q.tombstoneKey id) now ∧
      s'.live (q.metadataKey id) now = none := by
    cases edit with
    | elsewhere keeps =>
      exact ⟨keeps.live _ (QueueKeys.tombstoneKey_mem id),
        (keeps.live _ (QueueKeys.metadataKey_mem id)).trans gone.metadata⟩
    | @write other h fields plain' held safe =>
      have ne : id ≠ other := by
        rintro rfl
        rw [noItem] at held
        cases held
      exact ⟨State.setFields_live_ne (QueueKeys.tombstoneKey_ne_metadataKey id plain') s now _,
        (State.setFields_live_ne (mt QueueKeys.metadataKey_inj.mp ne) s now _).trans gone.metadata⟩
    | @eraseField other field plain' safe =>
      refine ⟨State.live_congr (State.eraseField_store_ne (QueueKeys.tombstoneKey_ne_metadataKey id plain') s field) now, ?_⟩
      by_cases same : id = other
      · subst same
        rw [State.eraseField, gone.metadata]
        exact gone.metadata
      · exact (State.live_congr (State.eraseField_store_ne (mt QueueKeys.metadataKey_inj.mp same) s field) now).trans
          gone.metadata
    | rescore =>
      exact ⟨State.setScore_live_ne (QueueKeys.tombstoneKey_ne id) s now _ _,
        (State.setScore_live_ne (QueueKeys.metadataKey_ne id) s now _ _).trans gone.metadata⟩
    | eraseScore =>
      exact ⟨State.live_congr (State.eraseScore_store_ne (QueueKeys.tombstoneKey_ne id) s _) now,
        (State.live_congr (State.eraseScore_store_ne (QueueKeys.metadataKey_ne id) s _) now).trans gone.metadata⟩
    | dropIfEmpty =>
      exact ⟨State.live_congr (State.dropIfEmpty_store_ne (QueueKeys.tombstoneKey_ne id) s) now,
        (State.live_congr (State.dropIfEmpty_store_ne (QueueKeys.metadataKey_ne id) s) now).trans gone.metadata⟩
    | @delete other plain' =>
      refine ⟨State.live_congr (State.delete_store_ne (QueueKeys.tombstoneKey_ne_metadataKey id plain')) now, ?_⟩
      by_cases same : id = other
      · subst same
        exact State.live_delete_self s _ now
      · exact (State.live_congr (State.delete_store_ne (mt QueueKeys.metadataKey_inj.mp same)) now).trans gone.metadata
    | @entomb buriedId e member bare =>
      have ne : id ≠ buriedId := by
        rintro rfl
        exact other member
      exact ⟨State.live_congr (State.put_store_ne (mt QueueKeys.tombstoneKey_inj.mp ne)) now,
        (State.live_congr (State.put_store_ne (QueueKeys.tombstoneKey_ne_metadataKey buriedId plain).symm) now).trans
          gone.metadata⟩
    | @enqueue request score ttl whole plain' unmarked absent =>
      have ne : id ≠ request.requestId := by
        rintro rfl
        rw [marked] at unmarked
        cases unmarked
      exact ⟨State.live_enqueue_ne (QueueKeys.tombstoneKey_ne id) (QueueKeys.tombstoneKey_ne_metadataKey id plain') now,
        (State.live_enqueue_ne (QueueKeys.metadataKey_ne id) (mt QueueKeys.metadataKey_inj.mp ne) now).trans gone.metadata⟩
  refine ⟨⟨e, untouched.1.trans marked, lasts⟩, untouched.2, ?_⟩
  intro z' found member
  rcases edit.zset found member with ⟨z, had, old⟩ | ⟨-, there⟩ | ⟨-, unmarked⟩
  · exact gone.unqueued z had old
  · simp [noItem] at there
  · simp [marked] at unmarked

/-- A run of writes. -/
abbrev Edits (q : QueueKeys) (buried : Set String) (now : ℚ) : State → State → Prop :=
  Relation.ReflTransGen (Edit q buried now)

theorem Edits.tidy (edits : Edits q buried now s s') (tidy : Tidy q now s) : Tidy q now s' := by
  induction edits with
  | refl => exact tidy
  | tail _ edit ih => exact edit.tidy ih

theorem Edits.gone (edits : Edits q buried now s s') (plain : PlainId id) (other : id ∉ buried)
    (gone : Gone q id deadline now s) : Gone q id deadline now s' := by
  induction edits with
  | refl => exact gone
  | tail _ edit ih => exact edit.gone plain other ih

theorem getNextRequest_edits (tidy : Tidy q now s) (skipGrantIds skipRequestIds : List String) :
    Edits q buried now s (getNextRequest q s skipGrantIds skipRequestIds now).2 := by
  unfold getNextRequest
  split
  · exact .refl
  · rename_i id found
    split
    · exact .refl
    · rename_i h held
      obtain ⟨z, members, member⟩ := State.mem_sorted.mp (List.mem_of_find?_eq_some found)
      refine .single (.write (tidy.members z members id member) held ?_)
      intro f among
      simp only [claimFields, List.mem_append, List.mem_cons, List.not_mem_nil, or_false] at among
      rcases among with cleared | rfl | rfl
      · split at cleared
        · cases cleared
        · cases List.mem_singleton.mp cleared
          simp
      · simp
      · simp

theorem confirmRequest_edits (plain : PlainId id) (claimedAt : JsNumber) :
    Edits q buried now s (confirmRequest q s id claimedAt now).2 := by
  unfold confirmRequest
  split
  · exact .refl
  · split
    · exact .refl
    · split
      · exact .refl
      · split
        · exact .refl
        · exact .single (.eraseField plain (by decide))

theorem writeStatus_edits (plain : PlainId id) {h : Fields} (held : q.item s now id = some h)
    (status : Option String) :
    ∃ h', q.item (writeStatus s (q.metadataKey id) status now) now id = some h' ∧
      Edits q buried now s (writeStatus s (q.metadataKey id) status now) := by
  cases status with
  | none => exact ⟨h, held, .refl⟩
  | some status =>
    have written := State.hash_setFields held [("status", .text status)]
    refine ⟨_, by rw [writeStatus, QueueKeys.item, State.hash_eraseField, written]; rfl, ?_⟩
    exact (Relation.ReflTransGen.single (.write plain held (by simp))).tail (.eraseField plain (by decide))

theorem RequestUpdates.fields_safe (updates : RequestUpdates) : ∀ f ∈ updates.fields, f.1 ≠ "requestId" := by
  intro f among
  simp only [RequestUpdates.fields, List.mem_append, List.mem_map] at among
  rcases among with (⟨x, -, rfl⟩ | ⟨x, -, rfl⟩) | ⟨b, -, rfl⟩ <;> simp

theorem updateRequest_edits (tidy : Tidy q now s) (plain : PlainId id) (updates : RequestUpdates) :
    Edits q buried now s (updateRequest q s id updates now) := by
  unfold updateRequest
  cases held : s.hash (q.metadataKey id) now with
  | none => exact .refl
  | some h =>
    have own : h.lookup "requestId" = some (.text id) := tidy.named id h plain held
    obtain ⟨h', held', first⟩ := writeStatus_edits plain held updates.status
    have second : Edits q buried now s
        ((writeStatus s (q.metadataKey id) updates.status now).setFields (q.metadataKey id) now updates.fields) :=
      first.tail (.write plain held' updates.fields_safe)
    dsimp only
    split
    · exact .refl
    · split
      · rw [own]
        exact second.tail (.rescore plain (State.hash_setFields held' _))
      · exact second

theorem removeRequest_edits (plain : PlainId id) (ttl : JsNumber) :
    Edits q {id} now s (removeRequest q s id ttl now).2 :=
  (((Relation.ReflTransGen.single .eraseScore).tail .dropIfEmpty).tail (.delete plain)).tail (.entomb rfl rfl)

theorem cleanupOrphanedRequests_edits (tidy : Tidy q now s) (alive : List String) (current : String) :
    Edits q buried now s (cleanupOrphanedRequests q s alive current now) := by
  unfold cleanupOrphanedRequests
  split
  · exact .refl
  · refine Relation.ReflTransGen.tail ?_ .dropIfEmpty
    have members : ∀ id ∈ s.sorted q.queueKey now, PlainId id := by
      intro id member
      obtain ⟨z, found, inside⟩ := State.mem_sorted.mp member
      exact tidy.members z found id inside
    generalize s.sorted q.queueKey now = ids at members
    induction ids generalizing s with
    | nil => exact .refl
    | cons id rest ih =>
      have step : Edits q buried now s (sweepRequest q alive now s id) := by
        unfold sweepRequest
        split
        · exact .single .eraseScore
        · split
          · exact (Relation.ReflTransGen.single .eraseScore).tail (.delete (members id (List.mem_cons_self ..)))
          · exact .refl
      exact step.trans (ih (step.tidy tidy) fun id' member => members id' (List.mem_cons_of_mem _ member))

/-- Joining the frozen grants writes to their key alone. -/
theorem addMember_keeps {W : Set String} {key : String} (avoid : key ∉ W) (s : State) (member : String) (now : ℚ) :
    Keeps W now s ((do
      Op.modify fun s => s.addMember key now member
      expire key 86400 now : Op Unit).run s).2 := by
  have made : (s.addMember key now member).live key now =
      some { s.entry key now with set := some (insert member ((s.entry key now).set.getD ∅)) } :=
    State.live_put_self (s.entry_expired _ now)
  have day : (86400 : JsNumber) = fin 86400 := ofNat_eq 86400
  rw [Op.run_bind_ok (Op.run_modify _ s), day, expire_put WholeTtl.day made]
  exact (Keeps.put avoid s _).trans (Keeps.put avoid _ _)

theorem tryStartThawRequest_edits (plain : PlainId id) {frozenGrantsKey : String} (avoid : frozenGrantsKey ∉ q.keys)
    (grantId : String) (anyGrant : Bool) :
    Edits q buried now s (tryStartThawRequest q s frozenGrantsKey id grantId anyGrant now).2 := by
  unfold tryStartThawRequest
  have joined : Keeps q.keys now s (if grantId = "" then s else ((do
      Op.modify fun s => s.addMember frozenGrantsKey now grantId
      expire frozenGrantsKey 86400 now : Op Unit).run s).2) := by
    split
    · exact Keeps.refl _ _ _
    · exact addMember_keeps avoid s grantId now
  generalize (if grantId = "" then s else ((do
      Op.modify fun s => s.addMember frozenGrantsKey now grantId
      expire frozenGrantsKey 86400 now : Op Unit).run s).2) = u at joined ⊢
  have first : Edits q buried now s u := .single (.elsewhere joined)
  dsimp only
  split
  · exact first
  · split
    · exact first
    · rename_i there
      obtain ⟨h, held⟩ := Option.ne_none_iff_exists'.mp (by simpa using there)
      exact first.tail (.write plain held (by simp))

/-- Every call is a run of writes that buries no id but the one it removes. -/
theorem QueueCall.edits {call : QueueCall} (tidy : Tidy q now s) (apart : call.Apart q now s) :
    Edits q {id | call.removes = some id} now s (call.exec q now s) := by
  cases call with
  | addRequest request ttl =>
    simp only [exec]
    rcases addRequest_run q request ttl now s
      with ⟨e, run⟩ | ⟨run, -⟩ | ⟨score, seconds, whole, unmarked, absent, run⟩
    · rw [run]
    · rw [run]
    · rw [run]
      exact .single (.enqueue whole apart unmarked absent)
  | getNextRequest skipGrantIds skipRequestIds => exact getNextRequest_edits tidy skipGrantIds skipRequestIds
  | confirmRequest requestId claimedAt => exact confirmRequest_edits apart claimedAt
  | updateRequest requestId updates => exact updateRequest_edits tidy apart updates
  | removeRequest requestId ttl =>
    have same : {id | (QueueCall.removeRequest requestId ttl).removes = some id} = {requestId} := by
      ext id
      simp [removes, eq_comm]
    rw [same]
    exact removeRequest_edits apart ttl
  | cleanupOrphanedRequests alive current => exact cleanupOrphanedRequests_edits tidy alive current
  | tryStartThawRequest frozenGrantsKey requestId grantId anyGrant =>
    exact tryStartThawRequest_edits apart.1 apart.2 grantId anyGrant
  | elsewhere after => exact .single (.elsewhere apart)

theorem Tidy.later (tidy : Tidy q t s) (order : t ≤ now) : Tidy q now s := by
  constructor
  · intro id h plain found
    rcases s.hash_later order (q.metadataKey id) with none_ | same
    · rw [QueueKeys.item, none_] at found
      cases found
    · exact tidy.named id h plain (same.symm.trans found)
  · intro z found
    rcases s.zset_later order q.queueKey with none_ | same
    · rw [none_] at found
      cases found
    · exact tidy.members z (same.symm.trans found)

theorem Gone.later (gone : Gone q id deadline t s) (order : t ≤ now) (before : now < deadline) :
    Gone q id deadline now s := by
  obtain ⟨e, marked, lasts⟩ := gone.tombstone
  refine ⟨⟨e, ?_, lasts⟩, live_none_later order gone.metadata, ?_⟩
  · rw [State.live_later order, marked, Option.filter_some_pos]
    simp [expired_of_lt lasts before]
  · intro z found
    rcases s.zset_later order q.queueKey with none_ | same
    · rw [none_] at found
      cases found
    · exact gone.unqueued z (same.symm.trans found)

theorem normalizeTombstoneTtl_pos (x : JsNumber) : 0 < normalizeTombstoneTtl x := by
  cases x with
  | fin r =>
    by_cases positive : 0 < r
    · simp only [normalizeTombstoneTtl, if_pos positive]
      exact lt_min (by exact_mod_cast Int.ceil_pos.mpr positive) (by norm_num [redisMaxTtlSeconds])
    · simp only [normalizeTombstoneTtl, if_neg positive]
      norm_num [requestTombstoneTtlSeconds]
  | posInf => norm_num [normalizeTombstoneTtl, redisMaxTtlSeconds]
  | negInf => norm_num [normalizeTombstoneTtl, requestTombstoneTtlSeconds]
  | nan => norm_num [normalizeTombstoneTtl, requestTombstoneTtlSeconds]

theorem removeRequest_gone (plain : PlainId id) (ttl : JsNumber) (s : State) :
    Gone q id (now + normalizeTombstoneTtl ttl * 1000) now (removeRequest q s id ttl now).2 := by
  have positive := normalizeTombstoneTtl_pos ttl
  have lasts : now < now + normalizeTombstoneTtl ttl * 1000 := by linarith
  refine ⟨⟨_, State.live_put_self (expired_of_lt rfl lasts), rfl⟩, ?_, ?_⟩
  · rw [removeRequest, State.live_congr (State.put_store_ne (QueueKeys.tombstoneKey_ne_metadataKey id plain).symm)]
    exact State.live_delete_self _ _ now
  · intro z found member
    rw [removeRequest, State.zset_congr (State.live_congr (State.put_store_ne (QueueKeys.tombstoneKey_ne id).symm) now),
      State.zset_congr (State.live_congr (State.delete_store_ne (QueueKeys.metadataKey_ne id).symm) now)] at found
    rcases (s.eraseScore q.queueKey now id).zset_dropIfEmpty q.queueKey now with none_ | same
    · rw [none_] at found
      cases found
    · rw [same, State.zset_eraseScore] at found
      obtain ⟨z, -, rfl⟩ := Option.map_eq_some_iff.mp found
      exact (AList.mem_erase.mp member).1 rfl

theorem Gone.addRequest (gone : Gone q id deadline now s) {request : QueuedRequest} (named : request.requestId = id)
    (ttl : JsNumber) :
    ((addRequest q request ttl now).run s).2 = s ∧
      ∀ added, ((addRequest q request ttl now).run s).1 = .ok added → added = false := by
  obtain ⟨e, marked, -⟩ := gone.tombstone
  subst named
  rcases addRequest_run q request ttl now s with ⟨e, run⟩ | ⟨run, -⟩ | ⟨score, seconds, -, unmarked, -⟩
  · rw [run]
    exact ⟨rfl, nofun⟩
  · rw [run]
    exact ⟨rfl, fun added told => (Except.ok.inj told).symm⟩
  · rw [marked] at unmarked
    cases unmarked

end Edits

/-- The id is in no queue and has no metadata, and no add of it is accepted. -/
structure Refused (q : QueueKeys) (id : String) (now : ℚ) (s : State) : Prop where
  unqueued : id ∉ s.sorted q.queueKey now
  metadata : s.live (q.metadataKey id) now = none
  refuses : ∀ request ttl added, request.requestId = id →
    ((addRequest q request ttl now).run s).1 = .ok added → added = false

/-- Whichever came first, an add and the removal at `t` of one id leave every key but the queue's the same;
the queue's key may lapse at another time, as an add that came first gave it its lifetime, but has the same
members if no time passed in between. -/
def OrderFree (q : QueueKeys) (s : State) (id : String) (tombstoneTtl : JsNumber) (t : ℚ) : Prop :=
  ∀ request ttl early late, request.requestId = id → early ≤ t → t ≤ late →
    late < t + normalizeTombstoneTtl tombstoneTtl * 1000 →
    let addedFirst := (removeRequest q ((addRequest q request ttl early).run s).2 id tombstoneTtl t).2
    let removedFirst := ((addRequest q request ttl late).run (removeRequest q s id tombstoneTtl t).2).2
    (∀ k, k ≠ q.queueKey → addedFirst.store k = removedFirst.store k) ∧
      (early = t → addedFirst.sorted q.queueKey t = removedFirst.sorted q.queueKey t)

section Order

variable {q : QueueKeys} {t : ℚ} {s s' : State} {id : String}

/-- A sorted set's members in order. -/
def Scores.sorted (z : Scores) : List String :=
  ((z.entries.map fun e => (e.1, e.2)).insertionSort State.scoreLe).map Prod.fst

theorem Scores.sorted_of_empty {z : Scores} (empty : z.entries.length = 0) : Scores.sorted z = [] := by
  simp [Scores.sorted, List.eq_nil_of_length_eq_zero empty]

theorem sorted_dropIfEmpty {e : Entry} (fresh : e.expired t = false) (s : State) (key : String) :
    ((s.put key e).dropIfEmpty key).sorted key t = if e.size = some 0 then [] else
      Scores.sorted (e.zset.getD ∅) := by
  simp only [State.dropIfEmpty, State.put_store_self]
  by_cases empty : e.size = some 0
  · simp [empty, State.sorted, State.zset, State.live_delete_self]
  · rw [if_neg empty, if_neg empty, State.sorted, State.zset, State.live_put_self fresh, Option.bind_some]
    cases e.zset with
    | none => exact (Scores.sorted_of_empty rfl).symm
    | some z => rfl

/-- What is left of a queue once a member is taken out and an emptied key dropped. -/
theorem sorted_dequeue (s : State) (key id : String) (t : ℚ) :
    ((s.eraseScore key t id).dropIfEmpty key).sorted key t = match s.live key t with
      | none => []
      | some e => if e.set.elim false fun members => decide (members.card = 0) then []
        else Scores.sorted ((e.zset.getD ∅).erase id) := by
  unfold State.eraseScore
  cases live : s.live key t with
  | none =>
    dsimp only
    unfold State.dropIfEmpty
    split
    · simp [State.sorted, State.zset, live]
    · split
      · simp [State.sorted, State.zset, State.live_delete_self]
      · simp [State.sorted, State.zset, live]
  | some e =>
    have fresh : e.expired t = false := (State.live_eq_some.mp live).2
    have kept : ({ e with zset := e.zset.map fun z : Scores => z.erase id } : Entry).expired t = false := fresh
    have rest : (e.zset.map fun z : Scores => z.erase id).getD ∅ = (e.zset.getD ∅).erase id := by
      cases e.zset with
      | none => exact AList.ext rfl
      | some z => rfl
    dsimp only
    rw [sorted_dropIfEmpty kept]
    dsimp only
    rw [rest]
    cases members : e.set with
    | some set => simp [Entry.size]
    | none =>
      cases zset : e.zset with
      | none =>
        have nothing : Scores.sorted ((∅ : Scores).erase id) = [] := Scores.sorted_of_empty rfl
        simp [nothing]
      | some z =>
        by_cases nothing : (z.erase id).entries.length = 0
        · simp [Scores.sorted_of_empty nothing]
        · simp [Entry.size, nothing]

theorem erase_insert (z : Scores) (id : String) (score : ℚ) : (z.insert id score).erase id = z.erase id := by
  refine AList.ext ?_
  change List.kerase id (AList.insert id score z).entries = List.kerase id z.entries
  rw [AList.entries_insert]
  exact List.kerase_cons_eq rfl

theorem removeRequest_store (ttl : JsNumber) (s : State) {k : String} (ne : k ≠ q.queueKey) :
    (removeRequest q s id ttl t).2.store k =
      if k = q.tombstoneKey id then
        some { str := some "1", expiresAt := some (t + normalizeTombstoneTtl ttl * 1000) }
      else if k = q.metadataKey id then none else s.store k := by
  by_cases tomb : k = q.tombstoneKey id
  · subst tomb
    simp [removeRequest]
  · rw [if_neg tomb, removeRequest, State.put_store_ne tomb]
    by_cases entry : k = q.metadataKey id
    · subst entry
      simp
    · rw [if_neg entry, State.delete_store_ne entry, State.dropIfEmpty_store_ne ne, State.eraseScore_store_ne ne]

theorem removeRequest_sorted (ttl : JsNumber) (s : State) :
    (removeRequest q s id ttl t).2.sorted q.queueKey t =
      ((s.eraseScore q.queueKey t id).dropIfEmpty q.queueKey).sorted q.queueKey t := by
  rw [removeRequest, State.sorted_congr (State.live_congr (State.put_store_ne (QueueKeys.tombstoneKey_ne id).symm) t),
    State.sorted_congr (State.live_congr (State.delete_store_ne (QueueKeys.metadataKey_ne id).symm) t)]

theorem orderFree (plain : PlainId id) (s : State) (ttl : JsNumber) : OrderFree q s id ttl t := by
  intro request addTtl early late named before after within
  have gone : Gone q id (t + normalizeTombstoneTtl ttl * 1000) late (removeRequest q s id ttl t).2 :=
    (removeRequest_gone plain ttl s).later after within
  dsimp only
  rw [(gone.addRequest named addTtl).1]
  subst named
  rcases addRequest_run q request addTtl early s with ⟨e, run⟩ | ⟨run, -⟩ | ⟨score, seconds, whole, -, -, run⟩
  · rw [run]
    exact ⟨fun _ _ => rfl, fun _ => rfl⟩
  · rw [run]
    exact ⟨fun _ _ => rfl, fun _ => rfl⟩
  · rw [run]
    refine ⟨?_, ?_⟩
    · intro k ne
      rw [removeRequest_store ttl _ ne, removeRequest_store ttl _ ne]
      by_cases entry : k = q.metadataKey request.requestId
      · simp [entry]
      · have same : (s.enqueue q request score seconds early).store k = s.store k := by
          rw [State.enqueue, State.putFields, State.put_store_ne entry, State.put_store_ne ne]
        simp only [same]
    · rintro rfl
      have lasts : early < early + seconds * 1000 := by linarith [whole.pos]
      have apart : q.queueKey ≠ q.metadataKey request.requestId := (QueueKeys.metadataKey_ne _).symm
      rw [removeRequest_sorted, removeRequest_sorted, sorted_dequeue, sorted_dequeue, State.enqueue,
        State.putFields_live_ne apart, State.live_put_self (expired_of_lt rfl lasts)]
      simp only [Option.getD_some, erase_insert]
      cases live : s.live q.queueKey early with
      | none =>
        have empty : Scores.sorted (((none : Option Scores).getD ∅).erase request.requestId) = [] :=
          Scores.sorted_of_empty rfl
        simpa [State.entry, live] using empty
      | some e => simp [State.entry, live]

end Order

section QueueRuns

variable {q : QueueKeys} {t₀ t now : ℚ} {id : String}

theorem Tidy.fresh (q : QueueKeys) (t : ℚ) : Tidy q t State.fresh where
  named _ _ _ found := nomatch found
  members _ found := nomatch found

theorem queueRuns_tidy {history : List (ℚ × QueueCall)} (valid : (queueRuns q).Valid t₀ State.fresh history) :
    Tidy q ((queueRuns q).clock t₀ history) ((queueRuns q).final State.fresh history) :=
  valid.invariant
    (fun _ _ _ _ order apart tidy => (QueueCall.edits (tidy.later order) apart).tidy (tidy.later order))
    (Tidy.fresh q t₀)

/-- A removed request stays removed for as long as it is marked, whatever the
queue goes through, and its removal and its add commute. -/
theorem removed_stays_removed (plain : PlainId id) {early late : List (ℚ × QueueCall)}
    (before : (queueRuns q).Valid t₀ State.fresh early) (since : (queueRuns q).clock t₀ early ≤ t) (ttl : JsNumber)
    (after : (unremovedRuns q id).Valid t (removeRequest q ((queueRuns q).final State.fresh early) id ttl t).2 late)
    (later : (unremovedRuns q id).clock t late ≤ now) (within : now < t + normalizeTombstoneTtl ttl * 1000) :
    Refused q id now ((unremovedRuns q id).final
      (removeRequest q ((queueRuns q).final State.fresh early) id ttl t).2 late) ∧
      OrderFree q ((queueRuns q).final State.fresh early) id ttl t := by
  refine ⟨?_, orderFree plain _ ttl⟩
  have tidy := (removeRequest_edits plain ttl).tidy ((queueRuns_tidy before).later since)
  -- until the mark lapses, every call leaves the id gone
  have kept := after.invariant
    (I := fun now s => Tidy q now s ∧ (now < t + normalizeTombstoneTtl ttl * 1000 →
      Gone q id (t + normalizeTombstoneTtl ttl * 1000) now s))
    (by
      rintro t' now call s order ⟨apart, other⟩ ⟨tidy, gone⟩
      have edits := QueueCall.edits (tidy.later order) apart
      refine ⟨edits.tidy (tidy.later order), fun within => ?_⟩
      exact edits.gone plain other ((gone (order.trans_lt within)).later order within))
    ⟨tidy, fun _ => removeRequest_gone plain ttl _⟩
  have gone := (kept.2 (later.trans_lt within)).later later within
  refine ⟨?_, gone.metadata, ?_⟩
  · intro member
    obtain ⟨z, found, inside⟩ := State.mem_sorted.mp member
    exact gone.unqueued z found inside
  · intro request addTtl added named run
    exact (gone.addRequest named addTtl).2 added run

end QueueRuns

/-- A plain request of an instance. -/
def plainRequest (requestId ownerId : String) : QueuedRequest where
  requestId := requestId
  clientName := "client"
  requestName := "request"
  status := "pending"
  priority := 1
  cost := .amount 1
  retries := 0
  timestamp := 1767225600000
  grantId := none
  isThawRequest := false
  ownerId := ownerId

/-- Two requests are queued and the first is claimed, -/
def queuedRun : List (ℚ × QueueCall) :=
  [(0, .addRequest (plainRequest "first" "owner") 86400), (1, .addRequest (plainRequest "second" "owner") 86400),
    (2, .getNextRequest [] [])]

/-- and after its removal it is added late, set pending, nominated and confirmed. -/
def lateRun : List (ℚ × QueueCall) :=
  [(20, .addRequest (plainRequest "first" "owner") 86400),
    (21, .updateRequest "first" { status := some "pending" }),
    (22, .tryStartThawRequest "grants" "first" "" true), (23, .confirmRequest "first" 2),
      (24, .getNextRequest [] []), (25, .removeRequest "second" 60)]

theorem removed_stays_removed_late :
    Refused (clientQueue "ns") "first" 60009 ((unremovedRuns (clientQueue "ns") "first").final
      (removeRequest (clientQueue "ns") ((queueRuns (clientQueue "ns")).final State.fresh queuedRun) "first" 60 10).2
      lateRun) ∧ OrderFree (clientQueue "ns")
        ((queueRuns (clientQueue "ns")).final State.fresh queuedRun) "first" 60 10 := by
  have first : PlainId "first" := by decide
  have second : PlainId "second" := by decide
  have grants : "grants" ∉ (clientQueue "ns").keys := by
    rintro (queue | ⟨tail, entry⟩)
    · revert queue
      decide
    · have heads := congrArg (fun s => s.toList.take 1) entry
      simp [QueueKeys.metadataKey, clientQueue] at heads
  have early : (queueRuns (clientQueue "ns")).Valid 0 State.fresh queuedRun :=
    Timed.Machine.valid_cons.mpr ⟨le_rfl, first, Timed.Machine.valid_cons.mpr ⟨by norm_num, second,
      Timed.Machine.valid_cons.mpr ⟨by norm_num, trivial, Timed.Machine.valid_nil⟩⟩⟩
  have late : (unremovedRuns (clientQueue "ns") "first").Valid 10
      (removeRequest (clientQueue "ns") ((queueRuns (clientQueue "ns")).final State.fresh queuedRun) "first" 60 10).2
      lateRun :=
    Timed.Machine.valid_cons.mpr ⟨by norm_num, ⟨first, by simp [QueueCall.removes]⟩,
      Timed.Machine.valid_cons.mpr ⟨by norm_num, ⟨first, by simp [QueueCall.removes]⟩,
      Timed.Machine.valid_cons.mpr ⟨by norm_num, ⟨⟨first, grants⟩, by simp [QueueCall.removes]⟩,
        Timed.Machine.valid_cons.mpr
        ⟨by norm_num, ⟨first, by simp [QueueCall.removes]⟩,
          Timed.Machine.valid_cons.mpr ⟨by norm_num, ⟨trivial, by simp [QueueCall.removes]⟩,
          Timed.Machine.valid_cons.mpr ⟨by norm_num, ⟨second, by simp [QueueCall.removes]⟩, Timed.Machine.valid_nil⟩⟩⟩⟩⟩⟩
  exact removed_stays_removed first early (by decide +kernel) 60 late (by decide +kernel) (by decide +kernel)

end Dianemo
