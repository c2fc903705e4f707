import Dianemo.Dispatch

namespace Dianemo

open JsNumber

variable {ι : Type}

/-- The entry is in the queue with its metadata. -/
def There (q : QueueKeys) (id : String) (now : ℚ) (s : State) : Prop :=
  (q.item s now id).isSome = true ∧ id ∈ s.sorted q.queueKey now

instance (q : QueueKeys) (id : String) (now : ℚ) (s : State) : Decidable (There q id now s) :=
  inferInstanceAs (Decidable (_ ∧ _))

/-- Metadata that can be handed out. -/
def Whole (h : Fields) : Prop :=
  (present (h.lookup "requestId")).isSome = true ∧ (present (h.lookup "clientName")).isSome = true ∧
    (h.lookup "requestName").isSome = true

section Reading

variable {h h' : Fields}

theorem Whole.of_toQueued (read : (toQueued h).isSome = true) : Whole h := by
  obtain ⟨request, read⟩ := Option.isSome_iff_exists.mp read
  simp only [toQueued, Option.bind_eq_bind, Option.bind_eq_some_iff] at read
  obtain ⟨name, named, client, known, title, titled, -⟩ := read
  exact ⟨by simp [named], by simp [known], by simp [titled]⟩

theorem Whole.toQueued (whole : Whole h) {status : String} (stands : h.lookup "status" = some (.text status))
    (proper : status ≠ "") : (Dianemo.toQueued h).isSome = true := by
  obtain ⟨name, named⟩ := Option.isSome_iff_exists.mp whole.1
  obtain ⟨client, known⟩ := Option.isSome_iff_exists.mp whole.2.1
  obtain ⟨title, titled⟩ := Option.isSome_iff_exists.mp whole.2.2
  have read : present (h.lookup "status") = some status := by simp [stands, present, proper]
  simp [Dianemo.toQueued, named, known, titled, read]

theorem Whole.congr (whole : Whole h) (name : h'.lookup "requestId" = h.lookup "requestId")
    (client : h'.lookup "clientName" = h.lookup "clientName")
    (title : h'.lookup "requestName" = h.lookup "requestName") : Whole h' := by
  unfold Whole
  rw [name, client, title]
  exact whole

/-- The fields of an entry that are written again after it was added. -/
def volatileFields : List String := ["status", "claimedAt", "isThawRequest", "retries", "priority"]

/-- The rest of an entry's metadata is as it was. -/
def Faithful (h h' : Fields) : Prop := ∀ field, field ∉ volatileFields → h'.lookup field = h.lookup field

theorem Faithful.withFields (h : Fields) {fields : List (String × Field)}
    (volatile : ∀ f ∈ fields, f.1 ∈ volatileFields) : Faithful h (withFields h fields) := by
  intro field lasting
  refine withFields_lookup_ne ?_ h
  rintro f member rfl
  exact lasting (volatile f member)

theorem Faithful.trans {h'' : Fields} (first : Faithful h h') (second : Faithful h' h'') : Faithful h h'' :=
  fun field lasting => (second field lasting).trans (first field lasting)

theorem Faithful.erase (h : Fields) : Faithful h (h.erase "claimedAt") := by
  intro field lasting
  refine AList.lookup_erase_ne ?_
  rintro rfl
  exact lasting (by decide)

theorem Faithful.claimed (h : Fields) (now : ℚ) : Faithful h (Dianemo.withFields h (claimFields h now)) := by
  refine .withFields h ?_
  intro f member
  simp only [claimFields, List.mem_append, List.mem_cons, List.not_mem_nil, or_false] at member
  rcases member with cleared | rfl | rfl
  · split at cleared
    · cases cleared
    · cases List.mem_singleton.mp cleared
      simp [volatileFields]
  · simp [volatileFields]
  · simp [volatileFields]

theorem Faithful.updated (h : Fields) (updates : RequestUpdates) : Faithful h (updates.apply h) := by
  have volatile : ∀ f ∈ updates.fields, f.1 ∈ volatileFields := by
    intro f among
    simp only [RequestUpdates.fields, List.mem_append, List.mem_map] at among
    rcases among with (⟨x, -, rfl⟩ | ⟨x, -, rfl⟩) | ⟨b, -, rfl⟩ <;> simp [volatileFields]
  unfold RequestUpdates.apply
  cases updates.status with
  | none => exact .withFields h volatile
  | some status =>
    exact ((Faithful.withFields h (by simp [volatileFields])).trans (.erase _)).trans (.withFields _ volatile)

theorem Whole.faithful (whole : Whole h) (faithful : Faithful h h') : Whole h' :=
  whole.congr (faithful _ (by decide)) (faithful _ (by decide)) (faithful _ (by decide))

end Reading

section Entries

variable {q : QueueKeys} {now : ℚ} {s s' : State} {id : String} {h h' : Fields}

/-- Every entry of `s'` is one of `s` but for its volatile fields. -/
def Same (q : QueueKeys) (now : ℚ) (s s' : State) : Prop :=
  ∀ id h', q.item s' now id = some h' → ∃ h, q.item s now id = some h ∧ Faithful h h'

theorem Same.of_fewer (fewer : Fewer q now s s') : Same q now s s' := by
  intro id h' found
  rcases fewer id with gone | same
  · rw [gone] at found
    cases found
  · exact ⟨h', same.symm.trans found, fun _ _ => rfl⟩

theorem Same.update (held : q.item s now id = some h) (faithful : Faithful h h')
    (items : q.item s' now = Function.update (q.item s now) id (some h')) : Same q now s s' := by
  intro other h'' found
  rw [items] at found
  by_cases same : other = id
  · subst same
    rw [Function.update_self] at found
    cases found
    exact ⟨h, held, faithful⟩
  · rw [Function.update_of_ne same] at found
    exact ⟨h'', found, fun _ _ => rfl⟩

theorem Same.updateRequest (named : ∀ h, q.item s now id = some h → h.lookup "requestId" = some (.text id))
    (updates : RequestUpdates) : Same q now s (updateRequest q s id updates now) := by
  cases held : q.item s now id with
  | none =>
    rw [updateRequest_of_none held]
    exact .of_fewer (.refl q now s)
  | some h => exact .update held (.updated h updates) (item_updateRequest held (named h held) updates)

theorem Call.exec_same {c : Call} {client : Client} (apart : c.Apart q client now s)
    (named : ∀ id h, q.item s now id = some h → h.lookup "requestId" = some (.text id)) (outlook : Outlook) :
    Same q now s (c.exec q client outlook now s).2 := by
  cases c with
  | getNextRequest skipGrantIds skipRequestIds =>
    simp only [Call.exec]
    cases next : nextId q s skipGrantIds skipRequestIds now with
    | none =>
      rw [getNextRequest_of_none next]
      exact .of_fewer (.refl q now s)
    | some id =>
      obtain ⟨h, held, -, -, run⟩ := getNextRequest_of_some next
      rw [run]
      exact .update held (.claimed h now) (item_setFields held _)
  | confirmRequest id x =>
    simp only [Call.exec]
    rcases confirmRequest_cases q s id x now with run | ⟨h, held, -, -, -, run⟩
    · rw [run]
      exact .of_fewer (.refl q now s)
    · rw [run]
      exact .update held (.erase h) (item_eraseField held _)
  | updateRequest id updates => exact .updateRequest (named id) updates
  | claim budget => exact .of_fewer (fewer_of_item (item_keeps apart))
  | releaseClaim release => exact .of_fewer (fewer_of_item (item_keeps apart))
  | releaseUnusedAdmission release => exact .of_fewer (fewer_of_item (item_keeps apart))
  | removeRequest id => exact .of_fewer (removeRequest_fewer s id _).1
  | tryStartThawRequest id grantId anyGrant =>
    rcases tryStartThawRequest_cases apart s id grantId anyGrant with ⟨-, same⟩ | ⟨h, held, -, items⟩
    · exact .of_fewer (fewer_of_item same)
    · exact .update held (.withFields h (by simp [volatileFields])) items
  | _ => exact .of_fewer (Fewer.refl q now s)

end Entries

section Runs

variable [DecidableEq ι] {q : QueueKeys} {clients : ι → Client} {now t : ℚ} {sys : System ι} {id : String}

/-- Runs in which an entry, once there, is neither removed nor swept nor lapses. -/
def keptRuns (q : QueueKeys) (clients : ι → Client) (id : String) : Timed.Machine ℚ (System ι) (Event ι) where
  step now e sys := sys.step q clients now e
  allowed now e sys := (e.Fair q clients now sys ∧ e.Answered) ∧
    (There q id sys.clock sys.store → There q id now sys.store ∧ There q id now (sys.step q clients now e).store)

/-- An entry after a step is the one before it but for its volatile fields, or newly added. -/
theorem Orderly.step_same (orderly : Orderly q now sys) {e : Event ι}
    (fair : e.Fair q clients now sys) {h' : Fields}
    (found : q.item (sys.step q clients now e).store now id = some h') :
    (∃ h, q.item sys.store now id = some h ∧ Faithful h h') ∨ q.item sys.store now id = none := by
  have stays : ∀ s, Same q now sys.store s → q.item s now id = some h' →
      (∃ h, q.item sys.store now id = some h ∧ Faithful h h') ∨ q.item sys.store now id = none :=
    fun s same found => .inl (same id h' found)
  cases e with
  | pass i fate outlook =>
    refine stays _ ?_ found
    simp only [System.step]
    cases at_ : sys.program clients i with
    | done out => exact .of_fewer (.refl q now sys.store)
    | call c next =>
      simp only [System.call]
      split
      · exact c.exec_same (fair c next at_) orderly.named outlook
      · exact .of_fewer (.refl q now sys.store)
  | add request ttl =>
    simp only [System.step, System.add] at found
    rcases addRequest_run q request ttl now sys.store
      with ⟨e, run⟩ | ⟨run, -⟩ | ⟨score, seconds, whole, -, absent, run⟩
    · rw [run] at found
      exact .inl ⟨h', found, fun _ _ => rfl⟩
    · rw [run] at found
      exact .inl ⟨h', found, fun _ _ => rfl⟩
    · rw [run, item_enqueue_self whole.pos absent] at found
      by_cases same : id = request.requestId
      · subst same
        exact .inr absent
      · rw [Function.update_of_ne same] at found
        exact .inl ⟨h', found, fun _ _ => rfl⟩
  | recount id' retries => exact stays _ (.updateRequest (orderly.named id') _) found
  | retry id' => exact stays _ (.updateRequest (orderly.named id') _) found
  | complete id' => exact .inl ⟨h', found, fun _ _ => rfl⟩
  | free id' retries => exact .inl ⟨h', found, fun _ _ => rfl⟩
  | remove id' ttl => exact stays _ (.of_fewer (removeRequest_fewer sys.store id' ttl).1) found
  | cleanup alive current => exact stays _ (.of_fewer (cleanupOrphanedRequests_fewer sys.store alive current)) found
  | elsewhere after => exact stays _ (.of_fewer (fewer_of_item (item_keeps fair))) found

/-- Only a claim makes a pass the last one an entry was handed out to. -/
theorem System.step_claimant (sys : System ι) {e : Event ι} (answered : e.Answered) (id : String) :
    (sys.step q clients now e).record.claimant id = sys.record.claimant id ∨
      ∃ skipGrantIds skipRequestIds, nextId q sys.store skipGrantIds skipRequestIds now = some id ∧
        (sys.step q clients now e).store = (getNextRequest q sys.store skipGrantIds skipRequestIds now).2 := by
  cases e with
  | pass i fate outlook =>
    simp only [Event.Answered] at answered
    subst answered
    simp only [System.step]
    cases at_ : sys.program clients i with
    | done out => exact .inl rfl
    | call c next =>
      cases c with
      | getNextRequest skipGrantIds skipRequestIds =>
        cases found : nextId q sys.store skipGrantIds skipRequestIds now with
        | none => exact .inl (by simp [System.call, Record.after, Record.claim, found])
        | some other =>
          by_cases same : id = other
          · subst same
            exact .inr ⟨skipGrantIds, skipRequestIds, found, by simp [System.call, Call.exec]⟩
          · exact .inl (by simp [System.call, Record.after, Record.claim, found, same])
      | confirmRequest id' x =>
        refine .inl ?_
        simp only [System.call, Record.after]
        split
        · split <;> rfl
        · rfl
      | updateRequest id' updates =>
        refine .inl ?_
        simp only [System.call, Record.after]
        split
        · split <;> rfl
        · rfl
      | failWaitingRequest id' =>
        refine .inl ?_
        simp only [System.call, Record.after]
        split
        · split <;> rfl
        · rfl
      | _ => exact .inl rfl
  | add request ttl =>
    refine .inl ?_
    simp only [System.step, System.add]
    split <;> rfl
  | retry id' =>
    refine .inl ?_
    simp only [System.step, System.retry]
    split <;> rfl
  | _ => exact .inl rfl

theorem System.step_clock (sys : System ι) (e : Event ι) : (sys.step q clients now e).clock = now := by
  cases e with
  | pass i fate outlook =>
    simp only [System.step]
    cases sys.program clients i <;> rfl
  | _ => rfl

/-- An entry that was ever handed out is still there, fit to be handed out again. -/
structure Recoverable (q : QueueKeys) (id : String) (t : ℚ) (sys : System ι) : Prop where
  clock : sys.clock = t
  there : sys.record.claimant id ≠ none → There q id t sys.store
  whole : sys.record.claimant id ≠ none → ∀ h, q.item sys.store t id = some h → Whole h

theorem Recoverable.step (recoverable : Recoverable q id t sys) (order : t ≤ now)
    (orderly : Orderly q now sys) {e : Event ι}
    (allowed : (keptRuns q clients id).allowed now e sys) : Recoverable q id now (sys.step q clients now e) := by
  obtain ⟨⟨fair, answered⟩, stays⟩ := allowed
  rw [recoverable.clock] at stays
  rcases sys.step_claimant answered id with same | ⟨skipGrantIds, skipRequestIds, next, store⟩
  · refine ⟨sys.step_clock e, ?_, ?_⟩
    · intro claimed
      rw [same] at claimed
      exact (stays (recoverable.there claimed)).2
    · intro claimed h' found
      rw [same] at claimed
      obtain ⟨⟨there, -⟩, -⟩ := stays (recoverable.there claimed)
      rcases orderly.step_same fair found with ⟨h, held, faithful⟩ | absent
      · rcases item_later order sys.store id with gone | as_
        · rw [gone] at held
          cases held
        · exact (recoverable.whole claimed h (as_.symm.trans held)).faithful faithful
      · rw [absent] at there
        cases there
  · obtain ⟨h, held, -, read, run⟩ := getNextRequest_of_some next
    rw [run] at store
    have items := item_setFields held (claimFields h now)
    have queued : id ∈ sys.store.sorted q.queueKey now := List.mem_of_find?_eq_some next
    refine ⟨sys.step_clock e, fun _ => ?_, fun _ h' found => ?_⟩
    · rw [store]
      refine ⟨by rw [items, Function.update_self]; rfl, ?_⟩
      rwa [State.sorted_congr (State.setFields_live_ne (QueueKeys.metadataKey_ne id).symm _ now _)]
    · rw [store, items, Function.update_self] at found
      cases found
      exact (Whole.of_toQueued read).faithful (.claimed h now)

/-- With nothing claimable before it, a claimable entry is the one handed out. -/
theorem nextId_of_first {s : State} {early late : List String}
    (order : s.sorted q.queueKey now = early ++ id :: late)
    (gone : ∀ other ∈ early, mayHandOut q s [] [] now other = false) (may : mayHandOut q s [] [] now id = true) :
    nextId q s [] [] now = some id := by
  rw [nextId, order, List.find?_append, List.find?_cons_of_pos may]
  rw [List.find?_eq_none.mpr (fun other member => by simp [gone other member]), Option.none_or]

/-- A claim that lapsed unconfirmed, or was written back, leaves its entry to
the next pass. -/
theorem unconfirmed_claim_recovered {store : State} (bare : Bare q t store) {history : List (ℚ × Event ι)}
    (valid : (keptRuns q clients id).Valid t (.start clients store t) history)
    (later : (keptRuns q clients id).clock t history ≤ now) :
    let sys := (keptRuns q clients id).final (.start clients store t) history
    ∀ i early late, sys.record.claimant id = some i → (∀ j, sys.record.phase id ≠ .handed j) →
      (∀ j x, sys.record.phase id ≠ .confirmed j x) →
      (∀ j x, sys.record.phase id = .claimed j x → x + queueClaimLeaseMs ≤ now) →
      There q id now sys.store → sys.store.sorted q.queueKey now = early ++ id :: late →
      (∀ other ∈ early, mayHandOut q sys.store [] [] now other = false) →
      ∃ request, (getNextRequest q sys.store [] [] now).1 = some request ∧ request.requestId = id := by
  intro sys i early late latest unhanded unconfirmed lapsed there order gone
  have kept := valid.invariant
    (I := fun t sys => (Orderly q t sys ∧ Conformant sys ∧ Told sys) ∧ Recoverable q id t sys)
    (by
      rintro t now e sys order allowed ⟨⟨orderly, conformant, told⟩, recoverable⟩
      have orderly' := orderly.later order
      obtain ⟨after, conformant'⟩ := orderly'.step conformant allowed.1.1 (orderly'.guarded conformant told e)
      exact ⟨⟨after, conformant', told.step allowed.1.2⟩, recoverable.step order orderly' allowed⟩)
    ⟨⟨orderly_start bare, conformant_start store, told_start store⟩, rfl, fun claimed => absurd rfl claimed,
      fun claimed => absurd rfl claimed⟩
  obtain ⟨⟨orderly, -⟩, recoverable⟩ := kept
  have orderly' := orderly.later later
  obtain ⟨h, held⟩ := Option.isSome_iff_exists.mp there.1
  have whole : Whole h := by
    rcases item_later later sys.store id with none_ | same
    · rw [none_] at held
      cases held
    · exact recoverable.whole (by rw [latest]; simp) h (same.symm.trans held)
  have reads := orderly'.reads id h held
  have free : claimable (h.lookup "status") (h.lookup "claimedAt") now = true ∧ (toQueued h).isSome = true := by
    cases phase : sys.record.phase id with
    | idle =>
      rw [phase] at reads
      have pending : h.lookup "status" = some (.text "pending") := reads
      exact ⟨by simp [claimable, pending], whole.toQueued pending (by decide)⟩
    | claimed j x =>
      rw [phase] at reads
      have late_ : queueClaimLeaseMs ≤ now - x := by linarith [lapsed j x phase]
      refine ⟨?_, whole.toQueued reads.1 (by decide)⟩
      rw [reads.1, reads.2]
      simp [claimable, claimLapsed_num, late_]
    | confirmed j x => exact absurd phase (unconfirmed j x)
    | handed j => exact absurd phase (unhanded j)
  have may : mayHandOut q sys.store [] [] now id = true := by
    unfold QueueKeys.item at held
    simp [mayHandOut, held, free.1, free.2]
  obtain ⟨h', held', -, -, run⟩ := getNextRequest_of_some (nextId_of_first order gone may)
  rw [run]
  cases held.symm.trans held'
  have status : (withFields h (claimFields h now)).lookup "status" = some (.text "inProgress") := by
    simp [claimFields, withFields, AList.lookup_insert_ne]
  obtain ⟨request, read⟩ :=
    Option.isSome_iff_exists.mp ((whole.faithful (.claimed h now)).toQueued status (by decide))
  exact ⟨request, read, (toQueued_claimFields read (orderly'.named id h held)).1⟩

theorem keptRuns_of_test (confined : Confined q slotKey clients) (id : String) (now : ℚ)
    (e : Event ι) (sys : System ι)
    (test : (e.fair q slotKey clients now sys && e.answered && decide (There q id sys.clock sys.store →
      There q id now sys.store ∧ There q id now (sys.step q clients now e).store)) = true) :
    (keptRuns q clients id).allowed now e sys := by
  simp only [Bool.and_eq_true, decide_eq_true_eq] at test
  exact ⟨⟨Event.fair_of_test confined test.1.1, Event.answered_of_test test.1.2⟩, test.2⟩

end Runs

/-- A pass claims an entry, reads the freeze and stops. -/
def stoppedRun : List (ℚ × Event (Fin 2)) :=
  [(0, .add (plainRequest "first" "one") 86400), (1, .pass 0 .answered {}), (2, .pass 0 .answered {})]

theorem unconfirmed_claim_recovered_stopped :
    let sys := (keptRuns (clientQueue "ns") controllers "first").final (.start controllers State.fresh 0) stoppedRun
    ∃ request, (getNextRequest (clientQueue "ns") sys.store [] [] 10001).1 = some request ∧
      request.requestId = "first" := by
  intro sys
  have claimed : sys.record.phase "first" = .claimed 0 1 := by decide +kernel
  refine unconfirmed_claim_recovered (bare_fresh _ 0)
    (Timed.Machine.valid_of_checks (keptRuns_of_test controllers_confined "first") (by decide +kernel))
      (by decide +kernel) 0 [] []
    (by decide +kernel) ?_ ?_ ?_ (by decide +kernel) (by decide +kernel) nofun
  · intro j handed
    cases claimed.symm.trans handed
  · intro j x confirmed
    cases claimed.symm.trans confirmed
  · intro j x claimed'
    cases claimed.symm.trans claimed'
    norm_num [queueClaimLeaseMs]

/-- The pass stops only when its confirmation has taken effect, -/
def strandedRun : List (ℚ × Event (Fin 2)) := stoppedRun ++ [(3, .pass 0 .answered {})]

/-- and its entry, never handed over, is not handed out again after the lease. -/
theorem confirmed_claim_stranded :
    let sys :=
      (keptRuns (clientQueue "ns") controllers "first").final (.start controllers State.fresh 0) strandedRun
    (keptRuns (clientQueue "ns") controllers "first").Valid 0 (.start controllers State.fresh 0) strandedRun ∧
      sys.record.claimant "first" = some 0 ∧ sys.record.handed "first" = 0 ∧
      There (clientQueue "ns") "first" 20000 sys.store ∧
        sys.store.sorted (clientQueue "ns").queueKey 20000 = ["first"] ∧
      (getNextRequest (clientQueue "ns") sys.store [] [] 20000).1 = none :=
  ⟨Timed.Machine.valid_of_checks (keptRuns_of_test controllers_confined "first") (by decide +kernel), by decide +kernel⟩

end Dianemo
