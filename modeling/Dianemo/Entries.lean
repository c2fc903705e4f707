import Dianemo.Tombstone

namespace Dianemo

open JsNumber

/-- The entry `getNextRequest` comes to a stop at. -/
def nextId (q : QueueKeys) (s : State) (skipGrantIds skipRequestIds : List String) (now : ℚ) : Option String :=
  (s.sorted q.queueKey now).find? (mayHandOut q s skipGrantIds skipRequestIds now)

/-- What `updateRequest` makes of an entry's metadata. -/
def RequestUpdates.apply (updates : RequestUpdates) (h : Fields) : Fields :=
  withFields (match updates.status with
    | none => h
    | some status => (withFields h [("status", .text status)]).erase "claimedAt") updates.fields

section Entries

variable {q : QueueKeys} {s s' : State} {now t : ℚ} {id : String} {h : Fields}

theorem item_keeps (keeps : Keeps q.keys now s s') : q.item s' now = q.item s now := by
  funext id
  exact State.hash_congr (keeps.live _ (QueueKeys.metadataKey_mem id))

theorem item_setFields (held : q.item s now id = some h) (fields : List (String × Field)) :
    q.item (s.setFields (q.metadataKey id) now fields) now =
      Function.update (q.item s now) id (some (withFields h fields)) := by
  funext other
  by_cases same : other = id
  · subst same
    rw [Function.update_self]
    exact State.hash_setFields held fields
  · rw [Function.update_of_ne same]
    exact State.hash_congr (State.setFields_live_ne (mt QueueKeys.metadataKey_inj.mp same) s now fields)

theorem item_eraseField (held : q.item s now id = some h) (field : String) :
    q.item (s.eraseField (q.metadataKey id) now field) now =
      Function.update (q.item s now) id (some (h.erase field)) := by
  funext other
  by_cases same : other = id
  · subst same
    rw [Function.update_self, QueueKeys.item, State.hash_eraseField]
    exact congrArg (Option.map fun h : Fields => h.erase field) held
  · rw [Function.update_of_ne same]
    exact State.hash_congr (State.live_congr (State.eraseField_store_ne (mt QueueKeys.metadataKey_inj.mp same) s field) now)

theorem item_setScore (s : State) (member : String) (score : ℚ) :
    q.item (s.setScore q.queueKey now member score) now = q.item s now := by
  funext id
  exact State.hash_congr (State.setScore_live_ne (QueueKeys.metadataKey_ne id) s now _ _)

theorem item_later (order : t ≤ now) (s : State) (id : String) :
    q.item s now id = none ∨ q.item s now id = q.item s t id := s.hash_later order (q.metadataKey id)

theorem getNextRequest_of_none {skipGrantIds skipRequestIds : List String}
    (nothing : nextId q s skipGrantIds skipRequestIds now = none) :
    getNextRequest q s skipGrantIds skipRequestIds now = (none, s) := by
  unfold nextId at nothing
  rw [getNextRequest, nothing]

/-- The entry handed out was claimable and is written as claimed. -/
theorem getNextRequest_of_some {skipGrantIds skipRequestIds : List String}
    (next : nextId q s skipGrantIds skipRequestIds now = some id) :
    ∃ h, q.item s now id = some h ∧ claimable (h.lookup "status") (h.lookup "claimedAt") now = true ∧
      (toQueued h).isSome = true ∧ getNextRequest q s skipGrantIds skipRequestIds now =
        (toQueued (withFields h (claimFields h now)), s.setFields (q.metadataKey id) now (claimFields h now)) := by
  unfold nextId at next
  have may := List.find?_some next
  unfold mayHandOut at may
  cases held : s.hash (q.metadataKey id) now with
  | none => simp [held] at may
  | some h =>
    simp only [held, Bool.and_eq_true, decide_eq_true_eq] at may
    refine ⟨h, held, may.2.1.1, may.2.2, ?_⟩
    rw [getNextRequest, next]
    dsimp only
    rw [held]

theorem lookup_claimFields {field : String} (h : Fields) (now : ℚ)
    (other : field ≠ "status" ∧ field ≠ "claimedAt" ∧ field ≠ "isThawRequest") :
    (withFields h (claimFields h now)).lookup field = h.lookup field := by
  refine withFields_lookup_ne ?_ h
  intro f member
  simp only [claimFields, List.mem_append, List.mem_cons, List.not_mem_nil, or_false] at member
  rcases member with cleared | rfl | rfl
  · split at cleared
    · cases cleared
    · cases List.mem_singleton.mp cleared
      exact other.2.2.symm
  · exact other.1.symm
  · exact other.2.1.symm

/-- A claim reads back as its own, with the instant it was made at. -/
theorem toQueued_claimFields {request : QueuedRequest}
    (read : toQueued (withFields h (claimFields h now)) = some request)
    (named : h.lookup "requestId" = some (.text id)) :
    request.requestId = id ∧ request.claimedAt = some now ∧
      (request.isThawRequest = true ↔
        h.lookup "status" = some (.text "pending") ∧ h.lookup "isThawRequest" = some (.text "true")) ∧
      request.retries = (parseInt (h.lookup "retries")).orDefault 0 := by
  have name : (withFields h (claimFields h now)).lookup "requestId" = h.lookup "requestId" :=
    lookup_claimFields h now (by decide)
  have stamp : (withFields h (claimFields h now)).lookup "claimedAt" = some (.num (fin now)) := by
    simp [claimFields, withFields]
  have mark : (withFields h (claimFields h now)).lookup "isThawRequest" =
      if h.lookup "status" = some (.text "pending") then h.lookup "isThawRequest" else some (flagField false) := by
    by_cases waiting : h.lookup "status" = some (.text "pending")
    · simp [claimFields, waiting, withFields, AList.lookup_insert_ne]
    · simp [claimFields, waiting, withFields, AList.lookup_insert_ne]
  have count : (withFields h (claimFields h now)).lookup "retries" = h.lookup "retries" :=
    lookup_claimFields h now (by decide)
  simp only [toQueued, name, named, stamp, mark, count, Option.bind_eq_bind, Option.bind_eq_some_iff,
    Option.some.injEq] at read
  obtain ⟨name', present', client, -, title, -, status, -, rfl⟩ := read
  refine ⟨?_, ?_, ?_, rfl⟩
  · simp only [present] at present'
    split at present'
    · cases present'
    · exact (Option.some.inj present').symm
  · simp [parseStoredNumber]
  · by_cases waiting : h.lookup "status" = some (.text "pending")
    · simp [waiting]
    · simp [waiting, flagField]

/-- A confirmation takes the stamp off an entry that still carries it, unlapsed, and does nothing else. -/
theorem confirmRequest_cases (q : QueueKeys) (s : State) (id : String) (x now : ℚ) :
    confirmRequest q s id (fin x) now = (false, s) ∨
      ∃ h, q.item s now id = some h ∧ h.lookup "status" = some (.text "inProgress") ∧
        parseStoredNumber (h.lookup "claimedAt") nan = fin x ∧ claimLapsed (h.lookup "claimedAt") now = false ∧
        confirmRequest q s id (fin x) now = (true, s.eraseField (q.metadataKey id) now "claimedAt") := by
  unfold confirmRequest
  cases held : s.hash (q.metadataKey id) now with
  | none => exact .inl rfl
  | some h =>
    dsimp only
    by_cases status : h.lookup "status" = some (.text "inProgress")
    · rw [if_neg (not_not.mpr status)]
      by_cases stamp : parseStoredNumber (h.lookup "claimedAt") nan = fin x
      · rw [if_neg (by simp [stamp])]
        cases lapsed : claimLapsed (h.lookup "claimedAt") now with
        | true => exact .inl rfl
        | false => exact .inr ⟨h, held, status, stamp, lapsed, rfl⟩
      · rw [if_pos (.inr stamp)]
        exact .inl rfl
    · rw [if_pos status]
      exact .inl rfl

theorem updateRequest_of_none (absent : q.item s now id = none) (updates : RequestUpdates) :
    updateRequest q s id updates now = s := by
  unfold QueueKeys.item at absent
  rw [updateRequest, absent]

theorem item_writeStatus (held : q.item s now id = some h) (status : Option String) :
    q.item (writeStatus s (q.metadataKey id) status now) now = Function.update (q.item s now) id (some (match status with
      | none => h
      | some status => (withFields h [("status", .text status)]).erase "claimedAt")) := by
  cases status with
  | none => rw [writeStatus, ← held, Function.update_eq_self]
  | some status =>
    have first := item_setFields held [("status", .text status)]
    have found : q.item (s.setFields (q.metadataKey id) now [("status", .text status)]) now id =
        some (withFields h [("status", .text status)]) := by
      rw [first, Function.update_self]
    rw [writeStatus, item_eraseField found, first, Function.update_idem]

theorem item_updateRequest (held : q.item s now id = some h) (named : h.lookup "requestId" = some (.text id))
    (updates : RequestUpdates) :
    q.item (updateRequest q s id updates now) now = Function.update (q.item s now) id (some (updates.apply h)) := by
  have first := item_writeStatus held updates.status
  have found := congrFun first id
  rw [Function.update_self] at found
  have second := item_setFields found updates.fields
  rw [first, Function.update_idem] at second
  unfold updateRequest
  unfold QueueKeys.item at held
  rw [held]
  dsimp only
  rw [if_neg (by simp [named])]
  split
  · rw [item_setScore]
    exact second
  · exact second

/-- A retry counted leaves every other field. -/
theorem recount_lookup {field : String} (other : field ≠ "retries") (retries : JsNumber) (h : Fields) :
    (({ retries := some retries } : RequestUpdates).apply h).lookup field = h.lookup field := by
  refine withFields_lookup_ne ?_ h
  intro f member
  simp only [RequestUpdates.fields, finiteUpdate] at member
  split at member
  · simp at member
    rw [member]
    exact other.symm
  · simp at member

/-- Each entry is gone or as it was. -/
def Fewer (q : QueueKeys) (now : ℚ) (s s' : State) : Prop :=
  ∀ id, q.item s' now id = none ∨ q.item s' now id = q.item s now id

theorem Fewer.refl (q : QueueKeys) (now : ℚ) (s : State) : Fewer q now s s := fun _ => .inr rfl

theorem Fewer.trans {s'' : State} (first : Fewer q now s s') (second : Fewer q now s' s'') : Fewer q now s s'' := by
  intro id
  rcases second id with gone | same
  · exact .inl gone
  · rw [same]
    exact first id

theorem fewer_of_item (same : q.item s' now = q.item s now) : Fewer q now s s' := fun id => .inr (congrFun same id)

theorem fewer_delete (s : State) (id : String) : Fewer q now s (s.delete (q.metadataKey id)) := by
  intro other
  by_cases same : other = id
  · subst same
    exact .inl (by simp [QueueKeys.item, State.hash, State.live_delete_self])
  · exact .inr (State.hash_congr (State.live_congr (State.delete_store_ne (mt QueueKeys.metadataKey_inj.mp same)) now))

theorem item_eraseScore (s : State) (member : String) :
    q.item (s.eraseScore q.queueKey now member) now = q.item s now := by
  funext id
  exact State.hash_congr (State.live_congr (State.eraseScore_store_ne (QueueKeys.metadataKey_ne id) s member) now)

theorem item_dropIfEmpty (s : State) : q.item (s.dropIfEmpty q.queueKey) now = q.item s now := by
  funext id
  exact State.hash_congr (State.live_congr (State.dropIfEmpty_store_ne (QueueKeys.metadataKey_ne id) s) now)

/-- A removal takes its own entry out. Its mark can only hide another. -/
theorem removeRequest_fewer (s : State) (id : String) (ttl : JsNumber) :
    Fewer q now s (removeRequest q s id ttl now).2 ∧ q.item (removeRequest q s id ttl now).2 now id = none := by
  have dropped : Fewer q now s (((s.eraseScore q.queueKey now id).dropIfEmpty q.queueKey).delete (q.metadataKey id)) := by
    refine .trans (fewer_of_item ?_) (fewer_delete _ id)
    rw [item_dropIfEmpty, item_eraseScore]
  constructor
  · refine dropped.trans fun other => ?_
    by_cases hidden : q.metadataKey other = q.tombstoneKey id
    · refine .inl ?_
      simp only [QueueKeys.item, State.hash, removeRequest, hidden]
      rw [Option.bind_eq_none_iff]
      intro e live
      have put := (State.live_eq_some.mp live).1
      rw [State.put_store_self] at put
      cases put
      rfl
    · exact .inr (State.hash_congr (State.live_congr (State.put_store_ne hidden) now))
  · have apart : q.metadataKey id ≠ q.tombstoneKey id := by
      rw [QueueKeys.tombstoneKey_eq, Ne, QueueKeys.metadataKey_inj]
      intro same
      have lengths := congrArg String.length same
      simp at lengths
    rw [QueueKeys.item, removeRequest, State.hash_congr (State.live_congr (State.put_store_ne apart) now)]
    simp [State.hash, State.live_delete_self]

theorem cleanupOrphanedRequests_fewer (s : State) (alive : List String) (current : String) :
    Fewer q now s (cleanupOrphanedRequests q s alive current now) := by
  have sweep : ∀ (ids : List String) (s : State), Fewer q now s (ids.foldl (sweepRequest q alive now) s) := by
    intro ids
    induction ids with
    | nil => exact Fewer.refl q now
    | cons id rest ih =>
      intro s
      refine .trans ?_ (ih _)
      unfold sweepRequest
      split
      · exact fewer_of_item (item_eraseScore s id)
      · split
        · exact (fewer_of_item (item_eraseScore s id)).trans (fewer_delete _ id)
        · exact .refl q now s
  unfold cleanupOrphanedRequests
  split
  · exact .refl q now s
  · exact (sweep _ s).trans (fewer_of_item (item_dropIfEmpty _))

/-- A nomination, once its grant is among the frozen ones: that reaches no other key. -/
theorem tryStartThawRequest_marks (q : QueueKeys) (s : State) (frozenGrantsKey id grantId : String)
    (anyGrant : Bool) (now : ℚ) : ∃ u, (∀ W : Set String, frozenGrantsKey ∉ W → Keeps W now s u) ∧
      tryStartThawRequest q s frozenGrantsKey id grantId anyGrant now =
        if (u.sorted q.queueKey now).any fun other =>
          decide (other ≠ id) && isCompetingProbe q u other grantId anyGrant now then (false, u)
        else if (q.item u now id).isNone then (false, u)
        else (true, u.setFields (q.metadataKey id) now [("isThawRequest", flagField true)]) := by
  refine ⟨_, ?_, rfl⟩
  intro W avoid
  split
  · exact Keeps.refl _ _ _
  · exact addMember_keeps avoid s grantId now

theorem tryStartThawRequest_run {frozenGrantsKey : String} (avoid : frozenGrantsKey ∉ q.keys) (s : State)
    (id grantId : String) (anyGrant : Bool) (now : ℚ) :
    ∃ u, Keeps q.keys now s u ∧ tryStartThawRequest q s frozenGrantsKey id grantId anyGrant now =
      if (u.sorted q.queueKey now).any fun other =>
        decide (other ≠ id) && isCompetingProbe q u other grantId anyGrant now then (false, u)
      else if (q.item u now id).isNone then (false, u)
      else (true, u.setFields (q.metadataKey id) now [("isThawRequest", flagField true)]) := by
  obtain ⟨u, joined, run⟩ := tryStartThawRequest_marks q s frozenGrantsKey id grantId anyGrant now
  exact ⟨u, joined _ avoid, run⟩

/-- A nomination marks an entry that is there, and is refused without a trace in the queue. -/
theorem tryStartThawRequest_cases {frozenGrantsKey : String} (avoid : frozenGrantsKey ∉ q.keys) (s : State)
    (id grantId : String) (anyGrant : Bool) :
    ((tryStartThawRequest q s frozenGrantsKey id grantId anyGrant now).1 = false ∧
      q.item (tryStartThawRequest q s frozenGrantsKey id grantId anyGrant now).2 now = q.item s now) ∨
    ∃ h, q.item s now id = some h ∧ (tryStartThawRequest q s frozenGrantsKey id grantId anyGrant now).1 = true ∧
      q.item (tryStartThawRequest q s frozenGrantsKey id grantId anyGrant now).2 now =
        Function.update (q.item s now) id (some (withFields h [("isThawRequest", flagField true)])) := by
  obtain ⟨u, joined, run⟩ := tryStartThawRequest_run avoid s id grantId anyGrant now
  have same := item_keeps joined
  rw [run]
  split
  · exact .inl ⟨rfl, same⟩
  · split
    · exact .inl ⟨rfl, same⟩
    · rename_i there
      obtain ⟨h, held⟩ := Option.ne_none_iff_exists'.mp (by simpa using there)
      refine .inr ⟨h, by rw [← same]; exact held, rfl, ?_⟩
      rw [item_setFields held, same]

theorem isCompetingProbe_keeps (keeps : Keeps q.keys now s s') (grantId : String) (anyGrant : Bool) :
    isCompetingProbe q s' id grantId anyGrant now = isCompetingProbe q s id grantId anyGrant now := by
  have same : ∀ field, s'.hget (q.metadataKey id) field now = s.hget (q.metadataKey id) field now :=
    fun field => State.hget_congr (keeps.live _ (QueueKeys.metadataKey_mem id)) field
  simp only [isCompetingProbe, same]

/-- Who is nominated is alone: no other entry of the queue is a competing probe. -/
theorem tryStartThawRequest_alone {frozenGrantsKey : String} (avoid : frozenGrantsKey ∉ q.keys) {s : State}
    {id grantId : String} {anyGrant : Bool}
    (started : (tryStartThawRequest q s frozenGrantsKey id grantId anyGrant now).1 = true)
    {other : String} (ne : other ≠ id)
    (listed : other ∈ s.sorted q.queueKey now) : isCompetingProbe q s other grantId anyGrant now = false := by
  obtain ⟨u, joined, run⟩ := tryStartThawRequest_run avoid s id grantId anyGrant now
  rw [run] at started
  split at started
  · cases started
  · rename_i alone
    rw [State.sorted_congr (joined.live _ QueueKeys.queueKey_mem).symm] at listed
    simp only [Bool.not_eq_true, List.any_eq_false, Bool.and_eq_true, decide_eq_true_eq, not_and] at alone
    rw [← isCompetingProbe_keeps joined]
    simpa using alone other listed ne

/-- A nomination leaves the queue itself alone. -/
theorem tryStartThawRequest_queue {frozenGrantsKey : String} (avoid : frozenGrantsKey ∉ q.keys) (s : State)
    (id grantId : String) (anyGrant : Bool) :
    (tryStartThawRequest q s frozenGrantsKey id grantId anyGrant now).2.live q.queueKey now =
      s.live q.queueKey now := by
  obtain ⟨u, joined, run⟩ := tryStartThawRequest_run avoid s id grantId anyGrant now
  rw [run, ← joined.live _ (QueueKeys.queueKey_mem (q := q))]
  split
  · rfl
  · split
    · rfl
    · exact State.setFields_live_ne (QueueKeys.metadataKey_ne id).symm u now _

/-- The metadata an accepted add writes. -/
theorem item_enqueue_self {request : QueuedRequest} {score ttl : ℚ} (positive : 0 < ttl)
    (absent : q.item s now request.requestId = none) :
    q.item (s.enqueue q request score ttl now) now =
      Function.update (q.item s now) request.requestId (some (withFields ∅ request.fields)) := by
  funext other
  by_cases same : other = request.requestId
  · subst same
    have ne : q.metadataKey request.requestId ≠ q.queueKey := QueueKeys.metadataKey_ne _
    have bare : ((s.put q.queueKey { s.entry q.queueKey now with
        zset := some (((s.entry q.queueKey now).zset.getD ∅).insert request.requestId score)
        expiresAt := some (now + ttl * 1000) }).entry (q.metadataKey request.requestId) now).hash = none := by
      rw [entry_put_ne ne]
      cases found : s.live (q.metadataKey request.requestId) now with
      | none => simp [State.entry, found]
      | some e => simpa [State.entry, found, QueueKeys.item, State.hash] using absent
    have lasts : now < now + ttl * 1000 := by linarith
    rw [Function.update_self, QueueKeys.item, State.hash, State.enqueue, State.putFields,
      State.live_put_self (expired_of_lt rfl lasts)]
    simp [bare]
  · rw [Function.update_of_ne same]
    exact State.hash_congr (State.live_enqueue_ne (QueueKeys.metadataKey_ne other) (mt QueueKeys.metadataKey_inj.mp same) now)

end Entries

end Dianemo
