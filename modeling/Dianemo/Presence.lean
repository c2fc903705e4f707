import Dianemo.Recovery

namespace Dianemo

open JsNumber

section Operations

variable {q : QueueKeys} {now t : ℚ} {s s' : State} {id : String} {h h' : Fields}

/-- The queue's key holds no plain set. -/
def Unset (q : QueueKeys) (now : ℚ) (s : State) : Prop := ∀ e, s.live q.queueKey now = some e → e.set = none

/-- Of the entries those in `gone` are taken out, and the rest stay in the queue. -/
structure Retains (q : QueueKeys) (now : ℚ) (gone : String → Prop) (s s' : State) : Prop where
  items : ∀ id, ¬ gone id → (q.item s now id).isSome → (q.item s' now id).isSome
  taken : ∀ id, gone id → q.item s' now id = none
  listed : ∀ id, ¬ gone id → (q.item s now id).isSome → id ∈ s.sorted q.queueKey now → id ∈ s'.sorted q.queueKey now
  fresh : ∀ id, (q.item s' now id).isSome → (q.item s now id).isSome ∨ id ∈ s'.sorted q.queueKey now
  unset : Unset q now s'

/-- The queue lists every entry there is. -/
structure Present (q : QueueKeys) (t : ℚ) (s : State) : Prop where
  listed : ∀ id, (q.item s t id).isSome → id ∈ s.sorted q.queueKey t
  unset : Unset q t s

theorem Unset.congr (unset : Unset q now s) (same : s'.live q.queueKey now = s.live q.queueKey now) :
    Unset q now s' := by
  intro e live
  exact unset e (same.symm.trans live)

theorem Unset.later (unset : Unset q t s) (order : t ≤ now) : Unset q now s := by
  intro e live
  rw [State.live_later order, Option.filter_eq_some_iff] at live
  exact unset e live.1

theorem Unset.entry (unset : Unset q now s) : (s.entry q.queueKey now).set = none := by
  cases live : s.live q.queueKey now with
  | none => simp [State.entry, live]
  | some e => simpa [State.entry, live] using unset e live

theorem Unset.setScore (unset : Unset q now s) (member : String) (score : ℚ) :
    Unset q now (s.setScore q.queueKey now member score) := by
  intro e live
  have fresh : ({ s.entry q.queueKey now with
      zset := some (((s.entry q.queueKey now).zset.getD ∅).insert member score) } : Entry).expired now = false :=
    s.entry_expired q.queueKey now
  rw [State.setScore, State.live_put_self fresh] at live
  cases live
  exact unset.entry

theorem Unset.eraseScore (unset : Unset q now s) (member : String) :
    Unset q now (s.eraseScore q.queueKey now member) := by
  intro e live
  unfold State.eraseScore at live
  split at live
  · exact unset e live
  · rename_i e' before
    have fresh : ({ e' with zset := e'.zset.map fun z : Scores => z.erase member } : Entry).expired now = false :=
      (State.live_eq_some.mp before).2
    rw [State.live_put_self fresh] at live
    cases live
    exact unset e' before

theorem Unset.dropIfEmpty (unset : Unset q now s) : Unset q now (s.dropIfEmpty q.queueKey) := by
  unfold State.dropIfEmpty
  split
  · exact unset
  · split
    · intro e live
      rw [State.live_delete_self] at live
      cases live
    · exact unset

/-- A queue with a member is not dropped. -/
theorem dropIfEmpty_of_mem (unset : Unset q now s) (member : id ∈ s.sorted q.queueKey now) :
    s.dropIfEmpty q.queueKey = s := by
  obtain ⟨z, found, listed⟩ := State.mem_sorted.mp member
  obtain ⟨e, live, zset⟩ := Option.bind_eq_some_iff.mp found
  have some_ : 0 < z.entries.length := by
    have keys : 0 < z.keys.length := List.length_pos_of_mem (AList.mem_keys.mp listed)
    rwa [AList.keys, List.keys, List.length_map] at keys
  have size : e.size = some z.entries.length := by simp [Entry.size, unset e live, zset]
  rw [State.dropIfEmpty, (State.live_eq_some.mp live).1]
  dsimp only
  rw [size, if_neg]
  intro empty
  rw [Option.some.inj empty] at some_
  exact lt_irrefl 0 some_

theorem mem_eraseScore {other : String} (ne : other ≠ id) (member : other ∈ s.sorted q.queueKey now) :
    other ∈ (s.eraseScore q.queueKey now id).sorted q.queueKey now := by
  obtain ⟨z, found, listed⟩ := State.mem_sorted.mp member
  refine State.mem_sorted.mpr ⟨z.erase id, ?_, AList.mem_erase.mpr ⟨ne, listed⟩⟩
  rw [State.zset_eraseScore, found]
  rfl

theorem mem_setScore (member : id ∈ s.sorted q.queueKey now) (other : String) (score : ℚ) :
    id ∈ (s.setScore q.queueKey now other score).sorted q.queueKey now := by
  obtain ⟨z, found, listed⟩ := State.mem_sorted.mp member
  refine State.mem_sorted.mpr ⟨_, State.zset_setScore s q.queueKey now other score, ?_⟩
  rw [found]
  exact (AList.mem_insert z).mpr (.inr listed)

theorem Retains.refl (unset : Unset q now s) : Retains q now (fun _ => False) s s :=
  ⟨fun _ _ there => there, nofun, fun _ _ _ member => member, fun _ there => .inl there, unset⟩

theorem Retains.of_keeps (unset : Unset q now s) (keeps : Keeps q.keys now s s') :
    Retains q now (fun _ => False) s s' := by
  have items := item_keeps keeps
  have queue := keeps.live _ (QueueKeys.queueKey_mem (q := q))
  refine ⟨fun id _ there => items ▸ there, nofun, ?_, fun id there => .inl (items ▸ there), unset.congr queue⟩
  intro id _ _ member
  rwa [State.sorted_congr queue]

/-- A write to one entry that is there. -/
theorem Retains.update (held : q.item s now id = some h)
    (items : q.item s' now = Function.update (q.item s now) id (some h'))
    (listed : ∀ other, other ∈ s.sorted q.queueKey now → other ∈ s'.sorted q.queueKey now)
    (unset : Unset q now s') : Retains q now (fun _ => False) s s' := by
  refine ⟨?_, nofun, fun other _ _ => listed other, ?_, unset⟩
  · intro other _ there
    rw [items]
    by_cases same : other = id
    · simp [same]
    · rwa [Function.update_of_ne same]
  · intro other there
    rw [items] at there
    by_cases same : other = id
    · exact .inl (by simp [same, held])
    · rw [Function.update_of_ne same] at there
      exact .inl there

/-- A write to one entry's metadata alone. -/
theorem Retains.write (unset : Unset q now s) (held : q.item s now id = some h)
    (items : q.item s' now = Function.update (q.item s now) id (some h'))
    (queue : s'.live q.queueKey now = s.live q.queueKey now) : Retains q now (fun _ => False) s s' := by
  refine .update held items ?_ (unset.congr queue)
  intro other member
  rwa [State.sorted_congr queue]

theorem writeStatus_queue (s : State) (id : String) (status : Option String) :
    (writeStatus s (q.metadataKey id) status now).live q.queueKey now = s.live q.queueKey now := by
  have ne : q.queueKey ≠ q.metadataKey id := (QueueKeys.metadataKey_ne id).symm
  cases status with
  | none => rfl
  | some status =>
    rw [writeStatus, State.live_congr (State.eraseField_store_ne ne _ _), State.setFields_live_ne ne]

theorem Retains.updateRequest (unset : Unset q now s)
    (named : ∀ h, q.item s now id = some h → h.lookup "requestId" = some (.text id)) (updates : RequestUpdates) :
    Retains q now (fun _ => False) s (updateRequest q s id updates now) := by
  cases held : q.item s now id with
  | none =>
    rw [updateRequest_of_none held]
    exact .refl unset
  | some h =>
    have items := item_updateRequest held (named h held) updates
    have queue : ((writeStatus s (q.metadataKey id) updates.status now).setFields (q.metadataKey id) now
        updates.fields).live q.queueKey now = s.live q.queueKey now := by
      rw [State.setFields_live_ne (QueueKeys.metadataKey_ne id).symm, writeStatus_queue]
    unfold QueueKeys.item at held
    unfold Dianemo.updateRequest at items ⊢
    rw [held] at items ⊢
    dsimp only at items ⊢
    rw [if_neg (by simp [named h held])] at items ⊢
    split at items
    · rename_i moves
      rw [if_pos moves]
      refine .update held items ?_ ((unset.congr queue).setScore _ _)
      intro other member
      refine mem_setScore ?_ _ _
      rwa [State.sorted_congr queue]
    · rename_i stays
      rw [if_neg stays]
      exact .write unset held items queue

theorem Retains.enqueue (unset : Unset q now s) {request : QueuedRequest} {score ttl : ℚ} (positive : 0 < ttl)
    (absent : q.item s now request.requestId = none) :
    Retains q now (fun _ => False) s (s.enqueue q request score ttl now) := by
  have items : q.item (s.enqueue q request score ttl now) now = _ := item_enqueue_self positive absent
  have zset : (s.enqueue q request score ttl now).zset q.queueKey now = _ := State.zset_enqueue positive
  have listed : ∀ other, other = request.requestId ∨ other ∈ s.sorted q.queueKey now →
      other ∈ (s.enqueue q request score ttl now).sorted q.queueKey now := by
    intro other member
    refine State.mem_sorted.mpr ⟨_, zset, (AList.mem_insert _).mpr (member.imp_right fun old => ?_)⟩
    obtain ⟨z, found, listed⟩ := State.mem_sorted.mp old
    simpa [found] using listed
  refine ⟨?_, nofun, fun other _ _ member => listed other (.inr member), ?_, ?_⟩
  · intro other _ there
    rw [items]
    by_cases same : other = request.requestId
    · simp [same]
    · rwa [Function.update_of_ne same]
  · intro other there
    by_cases same : other = request.requestId
    · exact .inr (listed other (.inl same))
    · rw [items, Function.update_of_ne same] at there
      exact .inl there
  · intro e live
    have lasts : now < now + ttl * 1000 := by linarith
    rw [State.enqueue, State.putFields_live_ne (QueueKeys.metadataKey_ne _).symm,
      State.live_put_self (expired_of_lt rfl lasts)] at live
    cases live
    exact unset.entry

/-- A removal takes its own entry out of the queue and no other one. -/
theorem Retains.removeRequest (unset : Unset q now s)
    (plain : ∀ id, (q.item s now id).isSome → PlainId id) (id : String)
    (ttl : JsNumber) : Retains q now (· = id) s (Dianemo.removeRequest q s id ttl now).2 := by
  have dequeued : (Dianemo.removeRequest q s id ttl now).2.live q.queueKey now =
      ((s.eraseScore q.queueKey now id).dropIfEmpty q.queueKey).live q.queueKey now := by
    rw [Dianemo.removeRequest, State.live_congr (State.put_store_ne (QueueKeys.tombstoneKey_ne id).symm),
      State.live_congr (State.delete_store_ne (QueueKeys.metadataKey_ne id).symm)]
  obtain ⟨fewer, gone⟩ : Fewer q now s (Dianemo.removeRequest q s id ttl now).2 ∧
      q.item (Dianemo.removeRequest q s id ttl now).2 now id = none := removeRequest_fewer s id ttl
  refine ⟨?_, ?_, ?_, ?_, (unset.eraseScore id).dropIfEmpty.congr dequeued⟩
  · intro other ne there
    have apart : q.metadataKey other ≠ q.tombstoneKey id :=
      (QueueKeys.tombstoneKey_ne_metadataKey id (plain other there)).symm
    have same : (Dianemo.removeRequest q s id ttl now).2.store (q.metadataKey other) =
        s.store (q.metadataKey other) := by
      rw [removeRequest_store ttl s (QueueKeys.metadataKey_ne other), if_neg apart,
        if_neg (mt QueueKeys.metadataKey_inj.mp ne)]
    rwa [QueueKeys.item, State.hash_congr (State.live_congr same now)]
  · rintro other rfl
    exact gone
  · intro other ne _ member
    have left := mem_eraseScore ne member
    rw [State.sorted_congr dequeued, dropIfEmpty_of_mem (unset.eraseScore id) left]
    exact left
  · intro other there
    refine .inl ?_
    rcases fewer other with absent | same
    · rw [absent] at there
      cases there
    · rwa [← same]

/-- A sweep that finds every owner alive takes no entry. -/
theorem Retains.cleanup (unset : Unset q now s) {alive : List String} (current : String)
    (owned : ∀ id h, q.item s now id = some h → ∃ owner, h.lookup "ownerId" = some owner ∧
      Field.string (some owner) ≠ "" ∧ Field.string (some owner) ∈ alive) :
    Retains q now (fun _ => False) s (cleanupOrphanedRequests q s alive current now) := by
  -- what a sweep may have done to the queue so far
  have sweep : ∀ (ids : List String) (s' : State), q.item s' now = q.item s now → Unset q now s' →
      (∀ id, (q.item s now id).isSome → id ∈ s.sorted q.queueKey now → id ∈ s'.sorted q.queueKey now) →
      q.item (ids.foldl (sweepRequest q alive now) s') now = q.item s now ∧
      Unset q now (ids.foldl (sweepRequest q alive now) s') ∧
      ∀ id, (q.item s now id).isSome → id ∈ s.sorted q.queueKey now →
        id ∈ (ids.foldl (sweepRequest q alive now) s').sorted q.queueKey now := by
    intro ids
    induction ids with
    | nil => exact fun s' items unset' listed => ⟨items, unset', listed⟩
    | cons id rest ih =>
      intro s' items unset' listed
      have found : s'.hget (q.metadataKey id) "ownerId" now = (q.item s now id).bind (·.lookup "ownerId") := by
        rw [← items]
        rfl
      rw [List.foldl_cons, sweepRequest, found]
      cases held : q.item s now id with
      | none =>
        refine ih _ ((item_eraseScore s' id).trans items) (unset'.eraseScore id) ?_
        intro other there member
        refine mem_eraseScore ?_ (listed other there member)
        rintro rfl
        rw [held] at there
        cases there
      | some h =>
        obtain ⟨owner, written, proper, living⟩ := owned id h held
        simp only [Option.bind_some, written]
        rw [if_neg (by simp [proper, living])]
        exact ih s' items unset' listed
  unfold cleanupOrphanedRequests
  split
  · exact .refl unset
  · obtain ⟨items, unset', listed⟩ := sweep (s.sorted q.queueKey now) s rfl unset fun _ _ member => member
    have dropped : q.item (((s.sorted q.queueKey now).foldl (sweepRequest q alive now) s).dropIfEmpty q.queueKey) now =
        q.item s now := (item_dropIfEmpty _).trans items
    refine ⟨fun id _ there => dropped ▸ there, nofun, ?_,
      fun id there => .inl (dropped ▸ there), unset'.dropIfEmpty⟩
    intro id _ there member
    have left := listed id there member
    rwa [dropIfEmpty_of_mem unset' left]

theorem Retains.congr {gone gone' : String → Prop} (retains : Retains q now gone s s')
    (same : ∀ id, gone' id ↔ gone id) : Retains q now gone' s s' := by
  obtain rfl : gone' = gone := funext fun id => propext (same id)
  exact retains

theorem Retains.spare {gone : String → Prop} (retains : Retains q now (fun _ => False) s s')
    (none_ : ∀ id, ¬ gone id) : Retains q now gone s s' :=
  retains.congr fun id => iff_false_intro (none_ id)

theorem Present.retains {gone : String → Prop} (present : Present q now s) (retains : Retains q now gone s s') :
    Present q now s' := by
  refine ⟨?_, retains.unset⟩
  intro id there
  rcases retains.fresh id there with before | listed
  · refine retains.listed id ?_ before (present.listed id before)
    intro taken
    rw [retains.taken id taken] at there
    cases there
  · exact listed

/-- Nothing lapses in the meantime. -/
def Lasts (q : QueueKeys) (t now : ℚ) (s : State) : Prop := ∀ id, There q id t s → There q id now s

theorem Present.later (present : Present q t s) (order : t ≤ now) (lasts : Lasts q t now s) : Present q now s := by
  refine ⟨?_, present.unset.later order⟩
  intro id there
  rcases item_later order s id with gone | same
  · rw [gone] at there
    cases there
  · rw [same] at there
    exact (lasts id ⟨there, present.listed id there⟩).2

theorem Present.lasts (present : Present q t s) (lasts : Lasts q t now s) (there : (q.item s t id).isSome) :
    (q.item s now id).isSome := (lasts id ⟨there, present.listed id there⟩).1

theorem Call.exec_retains {c : Call} {client : Client} (apart : c.Apart q client now s)
    (named : ∀ id h, q.item s now id = some h → h.lookup "requestId" = some (.text id)) (unset : Unset q now s)
    (plain : ∀ id, (q.item s now id).isSome → PlainId id) (outlook : Outlook) :
    Retains q now (fun id => c = .removeRequest id) s (c.exec q client outlook now s).2 := by
  cases c with
  | removeRequest id => exact (Retains.removeRequest unset plain id _).congr fun other => by simp [eq_comm]
  | getNextRequest skipGrantIds skipRequestIds =>
    refine Retains.spare ?_ (by simp)
    simp only [Call.exec]
    cases next : nextId q s skipGrantIds skipRequestIds now with
    | none =>
      rw [getNextRequest_of_none next]
      exact .refl unset
    | some id =>
      obtain ⟨h, held, -, -, run⟩ := getNextRequest_of_some next
      rw [run]
      exact .write unset held (item_setFields held _)
        (State.setFields_live_ne (QueueKeys.metadataKey_ne id).symm s now _)
  | confirmRequest id x =>
    refine Retains.spare ?_ (by simp)
    simp only [Call.exec]
    rcases confirmRequest_cases q s id x now with run | ⟨h, held, -, -, -, run⟩
    · rw [run]
      exact .refl unset
    · rw [run]
      exact .write unset held (item_eraseField held _)
        (State.live_congr (State.eraseField_store_ne (QueueKeys.metadataKey_ne id).symm s _) now)
  | updateRequest id updates => exact (Retains.updateRequest unset (named id) updates).spare (by simp)
  | tryStartThawRequest id grantId anyGrant =>
    refine Retains.spare ?_ (by simp)
    have queue : (Dianemo.tryStartThawRequest q s client.frozenGrantsKey id grantId anyGrant now).2.live q.queueKey now =
        s.live q.queueKey now := tryStartThawRequest_queue apart s id grantId anyGrant
    rcases tryStartThawRequest_cases apart s id grantId anyGrant with ⟨-, items⟩ | ⟨h, held, -, items⟩
    · refine ⟨fun id _ there => items ▸ there, fun _ => False.elim, ?_,
        fun id there => .inl (items ▸ there), unset.congr queue⟩
      intro other _ _ member
      rwa [Call.exec, State.sorted_congr queue]
    · exact .write unset held items queue
  | claim budget => exact (Retains.of_keeps unset apart).spare (by simp)
  | releaseClaim release => exact (Retains.of_keeps unset apart).spare (by simp)
  | releaseUnusedAdmission release => exact (Retains.of_keeps unset apart).spare (by simp)
  | _ => exact (Retains.refl unset).spare (by simp)

end Operations

section Runs

variable {ι : Type} [DecidableEq ι] {q : QueueKeys} {clients : ι → Client} {now t : ℚ}
    {sys : System ι} {e : Event ι}

/-- The step removes the entry: its owner's does, or a pass that failed its waiter. -/
def Removes (clients : ι → Client) (sys : System ι) (e : Event ι) (id : String) : Prop :=
  (∃ ttl, e = .remove id ttl) ∨
    ∃ i outlook next, e = .pass i .answered outlook ∧ sys.program clients i = .call (.removeRequest id) next

/-- Entries leave the queue by removals alone, of requests with no attempt out:
every owner is alive, and request ids hold no separator. -/
def Event.Spares (q : QueueKeys) (clients : ι → Client) (now : ℚ) (sys : System ι) (e : Event ι) : Prop :=
  (∀ id, Removes clients sys e id → ∀ a ∈ sys.record.attempts, a.request.requestId ≠ id) ∧
  match e with
  | .add request _ => PlainId request.requestId
  | .cleanup alive _ => ∀ id h, q.item sys.store now id = some h → ∃ owner, h.lookup "ownerId" = some owner ∧
      Field.string (some owner) ≠ "" ∧ Field.string (some owner) ∈ alive
  | _ => True

/-- The entries of a queue and its list of them, and how a run names them. -/
structure Kept (q : QueueKeys) (t : ℚ) (sys : System ι) : Prop where
  clock : sys.clock = t
  present : Present q t sys.store
  plain : ∀ id ∈ sys.record.used, PlainId id

theorem System.step_retains (kept : Present q now sys.store) (plain : ∀ id ∈ sys.record.used, PlainId id)
    (orderly : Orderly q now sys) (fair : e.Fair q clients now sys) (answered : e.Answered)
    (spares : e.Spares q clients now sys) :
    Retains q now (Removes clients sys e) sys.store (sys.step q clients now e).store := by
  have unset := kept.unset
  have ids : ∀ id, (q.item sys.store now id).isSome → PlainId id := fun id there => plain id (orderly.used id there)
  have none_ : ∀ {s' : State}, Retains q now (fun _ => False) sys.store s' → (∀ id ttl, e ≠ .remove id ttl) →
      (∀ i fate outlook, e ≠ .pass i fate outlook) → Retains q now (Removes clients sys e) sys.store s' := by
    intro s' retains unremoved unpassed
    refine retains.spare fun id => ?_
    rintro (⟨ttl, same⟩ | ⟨i, outlook, next, same, -⟩)
    · exact unremoved id ttl same
    · exact unpassed i _ outlook same
  cases e with
  | pass i fate outlook =>
    simp only [Event.Answered] at answered
    subst answered
    simp only [System.step]
    cases at_ : sys.program clients i with
    | done out =>
      refine (Retains.refl unset).spare fun id => ?_
      rintro (⟨ttl, same⟩ | ⟨j, outlook', next, same, call⟩)
      · cases same
      · cases same
        rw [at_] at call
        cases call
    | call c next =>
      have retains := c.exec_retains (fair c next at_) orderly.named unset ids outlook
      simp only [System.call]
      rw [if_pos (by simp)]
      refine retains.congr fun id => ?_
      constructor
      · rintro (⟨ttl, same⟩ | ⟨j, outlook', next', same, call⟩)
        · cases same
        · cases same
          rw [at_] at call
          cases call
          rfl
      · rintro rfl
        exact .inr ⟨i, outlook, next, rfl, at_⟩
  | add request ttl =>
    refine none_ ?_ (by simp) (by simp)
    simp only [System.step, System.add]
    rcases addRequest_run q request ttl now sys.store
      with ⟨e, run⟩ | ⟨run, -⟩ | ⟨score, seconds, whole, -, absent, run⟩
    · rw [run]
      exact .refl unset
    · rw [run]
      exact .refl unset
    · rw [run]
      exact .enqueue unset whole.pos absent
  | recount id retries => exact none_ (.updateRequest unset (orderly.named id) _) (by simp) (by simp)
  | retry id => exact none_ (.updateRequest unset (orderly.named id) _) (by simp) (by simp)
  | complete id => exact none_ (.refl unset) (by simp) (by simp)
  | free id retries => exact none_ (.refl unset) (by simp) (by simp)
  | remove id ttl =>
    refine (Retains.removeRequest unset ids id ttl).congr fun other => ?_
    constructor
    · rintro (⟨ttl', same⟩ | ⟨i, outlook, next, same, -⟩) <;> cases same
      rfl
    · rintro rfl
      exact .inl ⟨ttl, rfl⟩
  | cleanup alive current => exact none_ (.cleanup unset current spares.2) (by simp) (by simp)
  | elsewhere after => exact none_ (.of_keeps unset fair) (by simp) (by simp)

theorem Record.after_used (r : Record ι) (i : ι) (v : Option ClaimView) (outlook : Outlook) (s : State) (c : Call) :
    (r.after q i v outlook now s c).used = r.used := by
  cases c with
  | getNextRequest skipGrantIds skipRequestIds =>
    simp only [Record.after, Record.claim]
    split <;> rfl
  | confirmRequest id x =>
    simp only [Record.after]
    split <;> rfl
  | updateRequest id updates =>
    simp only [Record.after]
    split <;> rfl
  | failWaitingRequest id =>
    simp only [Record.after]
    split <;> rfl
  | _ => rfl

/-- Only an add brings a new id. -/
theorem System.step_used (sys : System ι) (e : Event ι) {id : String}
    (used : id ∈ (sys.step q clients now e).record.used) :
    id ∈ sys.record.used ∨ ∃ request ttl, e = .add request ttl ∧ id = request.requestId := by
  cases e with
  | pass i fate outlook =>
    simp only [System.step] at used
    cases at_ : sys.program clients i with
    | done out =>
      rw [at_] at used
      exact .inl used
    | call c next =>
      rw [at_] at used
      simp only [System.call] at used
      split at used
      · rw [Record.after_used] at used
        exact .inl used
      · exact .inl used
  | add request ttl =>
    simp only [System.step, System.add] at used
    split at used
    · rcases List.mem_cons.mp used with same | old
      · exact .inr ⟨request, ttl, rfl, same⟩
      · exact .inl old
    · exact .inl used
  | retry id =>
    simp only [System.step, System.retry] at used
    split at used <;> exact .inl used
  | _ => exact .inl used

theorem Kept.step (kept : Kept q t sys) (order : t ≤ now) (lasts : Lasts q sys.clock now sys.store)
    (orderly : Orderly q now sys) (fair : e.Fair q clients now sys) (answered : e.Answered)
    (spares : e.Spares q clients now sys) : Kept q now (sys.step q clients now e) := by
  rw [kept.clock] at lasts
  have present := kept.present.later order lasts
  refine ⟨sys.step_clock e, ?_, ?_⟩
  · exact present.retains (System.step_retains present kept.plain orderly fair answered spares)
  · intro id used
    rcases sys.step_used e used with old | ⟨request, ttl, rfl, rfl⟩
    · exact kept.plain id old
    · exact spares.2

end Runs

end Dianemo
