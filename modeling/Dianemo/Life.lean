import Dianemo.Recovery

namespace Dianemo

open JsNumber Resumption

variable {ι : Type} [DecidableEq ι]

/-- The step nominates the entry as a probe, on behalf of pass `i`. -/
def Nominates (clients : ι → Client) (sys : System ι) (id : String) (e : Event ι) (i : ι) : Prop :=
  ∃ fate outlook grantId anyGrant next, e = .pass i fate outlook ∧
    sys.program clients i = .call (.tryStartThawRequest id grantId anyGrant) next

/-- What becomes of one entry in one step. -/
inductive Life (q : QueueKeys) (clients : ι → Client) (now : ℚ) (sys : System ι) (e : Event ι) (id : String) :
    System ι → Prop
  /-- It stays where it is. Its owner may count a retry, and a pass nominate it. -/
  | kept {sys'} (phase : sys'.record.phase id = sys.record.phase id)
      (slots : ∀ a ∈ sys'.record.slots, a.request.requestId = id → a ∈ sys.record.slots)
      (attempts : ∀ a ∈ sys'.record.attempts, a.request.requestId = id → a ∈ sys.record.attempts)
      (item : ∀ h', q.item sys'.store now id = some h' → ∃ h, q.item sys.store now id = some h ∧ Faithful h h' ∧
        h'.lookup "status" = h.lookup "status" ∧ h'.lookup "claimedAt" = h.lookup "claimedAt" ∧
        (h'.lookup "retries" = h.lookup "retries" ∨ ∃ retries, e = .recount id retries) ∧
        (h'.lookup "isThawRequest" = h.lookup "isThawRequest" ∨
          (∃ i, Nominates clients sys id e i) ∧ h'.lookup "isThawRequest" = some (flagField true))) :
      Life q clients now sys e id sys'
  /-- It is handed out to a pass. -/
  | claimed {sys' i outlook skipGrantIds skipRequestIds p h} (event : e = .pass i .answered outlook)
      (call : ∃ next, sys.program clients i = .call (.getNextRequest skipGrantIds skipRequestIds) next)
      (held : q.item sys.store now id = some h)
      (free : claimable (h.lookup "status") (h.lookup "claimedAt") now = true) (whole : Whole h)
      (after : sys' = {
        store := sys.store.setFields (q.metadataKey id) now (claimFields h now)
        clock := now
        passes := Function.update sys.passes i p
        views := Function.update sys.views i
          ((toQueued (withFields h (claimFields h now))).map fun request => { request := request })
        record := sys.record.claim i now (some id) }) :
      Life q clients now sys e id sys'
  /-- Its holder confirms it. -/
  | confirmed {sys' i outlook p h v x} (event : e = .pass i .answered outlook)
      (call : ∃ next, sys.program clients i = .call (.confirmRequest id x) next) (view : sys.views i = some v)
      (fits : (Call.confirmRequest id x).Fits v) (mine : sys.record.phase id = .claimed i x)
      (unlapsed : now - x < queueClaimLeaseMs) (held : q.item sys.store now id = some h)
      (after : sys' = {
        store := sys.store.eraseField (q.metadataKey id) now "claimedAt"
        clock := now
        passes := Function.update sys.passes i p
        views := Function.update sys.views i (some { v with standing := .confirmed })
        record := sys.record.confirm i id x }) :
      Life q clients now sys e id sys'
  /-- Its holder writes it back. -/
  | returned {sys' i outlook updates p h v x} (event : e = .pass i .answered outlook)
      (call : ∃ next, sys.program clients i = .call (.updateRequest id updates) next) (view : sys.views i = some v)
      (fits : (Call.updateRequest id updates).Fits v) (mine : sys.record.phase id = .confirmed i x)
      (held : q.item sys.store now id = some h)
      (after : sys' = {
        store := updateRequest q sys.store id updates now
        clock := now
        passes := Function.update sys.passes i p
        views := Function.update sys.views i (some { v with closed := true })
        record := (sys.record.release id).spend i }) :
      Life q clients now sys e id sys'
  /-- Its holder hands it over. -/
  | handed {sys' i outlook request p v x} (event : e = .pass i .answered outlook)
      (call : ∃ next, sys.program clients i = .call (.requestReady request) next) (view : sys.views i = some v)
      (fits : (Call.requestReady request).Fits v) (named : v.request.requestId = id)
      (mine : sys.record.phase id = .confirmed i x)
      (after : sys' = {
        store := sys.store
        clock := now
        passes := Function.update sys.passes i p
        views := Function.update sys.views i (some { v with closed := true })
        record := (sys.record.handOver i request v.started).spend i }) :
      Life q clients now sys e id sys'
  /-- It is added, new or for a retry. -/
  | added {sys' request ttl score seconds} (event : e = .add request ttl) (named : request.requestId = id)
      (whole : WholeTtl seconds) (absent : q.item sys.store now id = none)
      (accepted : ((addRequest q request ttl now).run sys.store).1 = .ok true)
      (owner : id ∈ sys.record.used → ∃ i, sys.record.phase id = .handed i)
      (after : sys' = { sys with
        store := sys.store.enqueue q request score seconds now
        clock := now
        record := { sys.record.release id with used := id :: sys.record.used } }) :
      Life q clients now sys e id sys'
  /-- Its owner makes it pending again. -/
  | retried {sys' i h} (event : e = .retry id) (theirs : sys.record.phase id = .handed i)
      (held : q.item sys.store now id = some h)
      (after : sys' = { sys with
        store := updateRequest q sys.store id { status := some "pending" } now
        clock := now
        record := sys.record.release id }) :
      Life q clients now sys e id sys'

section Life

variable {q : QueueKeys} {clients : ι → Client} {now : ℚ} {sys : System ι} {id : String} {i : ι} {c : Call}
  {next : Except DrainError (Reply c) → Program Call Reply DrainError (Option PassLocals)}

theorem System.call_answered (sys : System ι) (i : ι) (outlook : Outlook) (now : ℚ) (c : Call)
    (next : Except DrainError (Reply c) → Program Call Reply DrainError (Option PassLocals)) :
    sys.call q clients i .answered outlook now c next =
      { store := (c.exec q (clients i) outlook now sys.store).2
        clock := now
        passes := Function.update sys.passes i (next (c.exec q (clients i) outlook now sys.store).1)
        views := Function.update sys.views i (viewAfter (sys.views i) c (c.exec q (clients i) outlook now sys.store).1)
        record := sys.record.after q i (sys.views i) outlook now sys.store c } := by
  simp [System.call]

/-- An entry that no write reaches. -/
theorem Life.of_keeps {e : Event ι} {sys' : System ι} (item : q.item sys'.store now id = none ∨
      q.item sys'.store now id = q.item sys.store now id) (phase : sys'.record.phase id = sys.record.phase id)
    (slots : ∀ a ∈ sys'.record.slots, a.request.requestId = id → a ∈ sys.record.slots)
    (attempts : ∀ a ∈ sys'.record.attempts, a.request.requestId = id → a ∈ sys.record.attempts) :
    Life q clients now sys e id sys' := by
  refine .kept phase slots attempts ?_
  intro h' found
  rcases item with gone | same
  · rw [gone] at found
    cases found
  · exact ⟨h', same.symm.trans found, fun _ _ => rfl, rfl, rfl, .inl rfl, .inl rfl⟩

theorem Orderly.life_call (orderly : Orderly q now sys) (told : Told sys)
    (at_ : sys.program clients i = .call c next) (allows : c.isFree = true ∨ ∃ v, sys.views i = some v ∧ c.Fits v)
    (apart : c.Apart q (clients i) now sys.store) (outlook : Outlook) :
    Life q clients now sys (.pass i .answered outlook) id (sys.call q clients i .answered outlook now c next) := by
  rw [System.call_answered]
  have same : ∀ {s : State} {g : Option ClaimView} {p : Program Call Reply DrainError (Option PassLocals)} {r : Record ι},
      Fewer q now sys.store s → r.phase = sys.record.phase → r.slots = sys.record.slots →
      r.attempts = sys.record.attempts → Life q clients now sys (.pass i .answered outlook) id
        { store := s, clock := now, passes := Function.update sys.passes i p,
          views := Function.update sys.views i g, record := r } := by
    intro s g p r fewer phase slots attempts
    exact .of_keeps (fewer id) (congrFun phase id) (fun a member _ => slots ▸ member)
      (fun a member _ => attempts ▸ member)
  cases c with
  | getNextRequest skipGrantIds skipRequestIds =>
    simp only [Call.exec, Record.after, viewAfter]
    cases found : nextId q sys.store skipGrantIds skipRequestIds now with
    | none =>
      rw [getNextRequest_of_none found]
      exact same (.refl q now sys.store) rfl rfl rfl
    | some other =>
      obtain ⟨h, held, free, read, run⟩ := getNextRequest_of_some found
      rw [run]
      by_cases own : id = other
      · subst own
        exact .claimed rfl ⟨next, at_⟩ held free (.of_toQueued read) rfl
      · refine .of_keeps (.inr ?_) (Function.update_of_ne own _ _)
          (fun a member _ => member) fun a member _ => member
        rw [item_setFields held, Function.update_of_ne own]
  | confirmRequest other x =>
    obtain free | ⟨v, view, fits⟩ := allows
    · cases free
    · simp only [Call.exec, Record.after]
      rcases confirmRequest_cases q sys.store other x now with run | ⟨h, held, status, stamp, unlapsed, run⟩
      · rw [run, if_neg Bool.false_ne_true]
        exact same (.refl q now sys.store) rfl rfl rfl
      · rw [run, if_pos rfl, view]
        by_cases own : id = other
        · subst own
          have within : now - x < queueClaimLeaseMs := by simpa [claimLapsed, stamp] using unlapsed
          exact .confirmed rfl ⟨next, at_⟩ view fits (orderly.confirmer view fits stamp unlapsed) within held rfl
        · refine .of_keeps (.inr ?_) (Function.update_of_ne own _ _)
            (fun a member _ => member) fun a member _ => member
          rw [item_eraseField held, Function.update_of_ne own]
  | updateRequest other updates =>
    obtain free | ⟨v, view, fits⟩ := allows
    · cases free
    · simp only [Call.exec, Record.after]
      cases held : q.item sys.store now other with
      | none =>
        rw [if_neg (by simp), updateRequest_of_none held]
        exact same (.refl q now sys.store) rfl rfl rfl
      | some h =>
        simp only [Option.isSome_some, if_true]
        by_cases own : id = other
        · subst own
          obtain ⟨found, tried, published⟩ := told i v view
          obtain ⟨named, sent, closed, shape⟩ := fits
          have confirmed : v.standing = .confirmed := sent.resolve_right found
          obtain ⟨x, -, mine⟩ := orderly.holder view confirmed closed tried published
          rw [← named] at mine
          rw [view]
          exact .returned rfl ⟨next, at_⟩ view ⟨named, sent, closed, shape⟩ mine held rfl
        · refine .of_keeps (.inr ?_) (Function.update_of_ne own _ _)
            (fun a member _ => member) fun a member _ => member
          rw [item_updateRequest held (orderly.named other h held), Function.update_of_ne own]
  | requestReady request =>
    obtain free | ⟨v, view, fits⟩ := allows
    · cases free
    · simp only [Call.exec, Record.after]
      rw [view]
      obtain ⟨confirmed, closed, tried, published, rfl⟩ := fits
      by_cases own : id = v.request.requestId
      · subst own
        obtain ⟨x, -, mine⟩ := orderly.holder view confirmed closed tried published
        exact .handed rfl ⟨next, at_⟩ view ⟨confirmed, closed, tried, published, rfl⟩ rfl mine rfl
      · refine .of_keeps (.inr rfl) (Function.update_of_ne own _ _) ?_ ?_
        · intro a member name
          rcases List.mem_cons.mp member with rfl | old
          · exact absurd name.symm own
          · exact old
        · intro a member name
          simp only [Record.spend, Record.handOver] at member
          split at member
          · exact member
          · rcases List.mem_cons.mp member with rfl | old
            · exact absurd name.symm own
            · exact old
  | tryStartThawRequest other grantId anyGrant =>
    simp only [Call.exec, Record.after]
    rcases tryStartThawRequest_cases apart sys.store other grantId anyGrant with ⟨-, items⟩ | ⟨h, held, -, items⟩
    · exact same (fewer_of_item items) rfl rfl rfl
    · refine .kept rfl (fun a member _ => member) (fun a member _ => member) ?_
      intro h' found
      dsimp only at found
      rw [items] at found
      by_cases own : id = other
      · subst own
        rw [Function.update_self] at found
        cases found
        refine ⟨h, held, .withFields h (by simp [volatileFields]), ?_, ?_, .inl ?_, .inr ⟨⟨i, ?_⟩, ?_⟩⟩
        · simp [withFields, AList.lookup_insert_ne]
        · simp [withFields, AList.lookup_insert_ne]
        · simp [withFields, AList.lookup_insert_ne]
        · exact ⟨_, _, grantId, anyGrant, next, rfl, at_⟩
        · simp [withFields]
      · rw [Function.update_of_ne own] at found
        exact ⟨h', found, fun _ _ => rfl, rfl, rfl, .inl rfl, .inl rfl⟩
  | removeRequest other => exact same (removeRequest_fewer sys.store other _).1 rfl rfl rfl
  | failWaitingRequest other =>
    simp only [Call.exec, Record.after]
    split
    · exact same (.refl q now sys.store) rfl rfl rfl
    · exact same (.refl q now sys.store) rfl rfl rfl
  | claim budget => exact same (fewer_of_item (item_keeps apart)) rfl rfl rfl
  | releaseClaim release => exact same (fewer_of_item (item_keeps apart)) rfl rfl rfl
  | releaseUnusedAdmission release => exact same (fewer_of_item (item_keeps apart)) rfl rfl rfl
  | _ => exact same (.refl q now sys.store) rfl rfl rfl

/-- Every step of a run is one of these for every entry. -/
theorem Orderly.life (orderly : Orderly q now sys) (conformant : Conformant sys) (told : Told sys) {e : Event ι}
    (fair : e.Fair q clients now sys) (answered : e.Answered) (id : String) :
    Life q clients now sys e id (sys.step q clients now e) := by
  cases e with
  | pass i fate outlook =>
    simp only [Event.Answered] at answered
    subst answered
    simp only [System.step]
    cases at_ : sys.program clients i with
    | done out => exact .of_keeps (.inr rfl) rfl (fun a member _ => member) fun a member _ => member
    | call c next =>
      have conforms := conformant.program clients i
      rw [at_] at conforms
      exact orderly.life_call told at_ conforms.1 (fair c next at_) outlook
  | add request ttl =>
    simp only [System.step, System.add]
    rcases addRequest_run q request ttl now sys.store
      with ⟨e, run⟩ | ⟨run, -⟩ | ⟨score, seconds, whole, -, absent, run⟩
    · rw [run, if_neg (by simp)]
      exact .of_keeps (.inr rfl) rfl (fun a member _ => member) fun a member _ => member
    · rw [run, if_neg (by simp)]
      exact .of_keeps (.inr rfl) rfl (fun a member _ => member) fun a member _ => member
    · have accepted : ((addRequest q request ttl now).run sys.store).1 = .ok true := by rw [run]
      have owner := fair.2 accepted
      rw [run, if_pos rfl]
      by_cases own : id = request.requestId
      · subst own
        exact .added rfl rfl whole absent accepted (fun used => orderly.handed_phase (owner used).1) rfl
      · refine .of_keeps (.inr ?_) (Function.update_of_ne own _ _)
          (fun a member _ => member) fun a member _ => member
        rw [item_enqueue_self whole.pos absent, Function.update_of_ne own]
  | recount other retries =>
    simp only [System.step]
    cases held : q.item sys.store now other with
    | none =>
      rw [updateRequest_of_none held]
      exact .of_keeps (.inr rfl) rfl (fun a member _ => member) fun a member _ => member
    | some h =>
      have items := item_updateRequest held (orderly.named other h held) { retries := some retries }
      by_cases own : id = other
      · subst own
        refine .kept rfl (fun a member _ => member) (fun a member _ => member) ?_
        intro h' found
        rw [items, Function.update_self] at found
        cases found
        exact ⟨h, held, .updated h _, recount_lookup (by decide) retries h, recount_lookup (by decide) retries h,
          .inr ⟨retries, rfl⟩, .inl (recount_lookup (by decide) retries h)⟩
      · refine .of_keeps (.inr ?_) rfl (fun a member _ => member) fun a member _ => member
        rw [items, Function.update_of_ne own]
  | retry other =>
    simp only [System.step, System.retry]
    obtain ⟨i, handed⟩ := orderly.handed_phase fair.1
    cases held : q.item sys.store now other with
    | none =>
      rw [if_neg (by simp), updateRequest_of_none held]
      exact .of_keeps (.inr rfl) rfl (fun a member _ => member) fun a member _ => member
    | some h =>
      simp only [Option.isSome_some, if_true]
      by_cases own : id = other
      · subst own
        exact .retried rfl handed held rfl
      · refine .of_keeps (.inr ?_) (Function.update_of_ne own _ _)
          (fun a member _ => member) fun a member _ => member
        rw [item_updateRequest held (orderly.named other h held), Function.update_of_ne own]
  | complete other =>
    exact .of_keeps (.inr rfl) rfl (fun a member _ => member) fun a member _ => List.mem_of_mem_filter member
  | free other retries =>
    exact .of_keeps (.inr rfl) rfl (fun a member _ => List.mem_of_mem_filter member) fun a member _ => member
  | remove other ttl =>
    exact .of_keeps ((removeRequest_fewer sys.store other ttl).1 id) rfl
      (fun a member _ => member) fun a member _ => member
  | cleanup alive current =>
    exact .of_keeps (cleanupOrphanedRequests_fewer sys.store alive current id) rfl (fun a member _ => member)
      fun a member _ => member
  | elsewhere after =>
    exact .of_keeps (.inr (congrFun (item_keeps fair) id)) rfl (fun a member _ => member) fun a member _ => member

/-- The step asks for a claim, on behalf of pass `i`. -/
def Claims (clients : ι → Client) (sys : System ι) (e : Event ι) (i : ι) : Prop :=
  ∃ outlook skipGrantIds skipRequestIds next, e = .pass i .answered outlook ∧
    sys.program clients i = .call (.getNextRequest skipGrantIds skipRequestIds) next

/-- What a pass's view is after a step of any kind: a new claim's, or as it was
but for what its own call told it. -/
theorem System.step_view (sys : System ι) {e : Event ι} (answered : e.Answered) {v : ClaimView}
    (view : (sys.step q clients now e).views i = some v) :
    (∃ outlook skipGrantIds skipRequestIds next, e = .pass i .answered outlook ∧
      sys.program clients i = .call (.getNextRequest skipGrantIds skipRequestIds) next ∧
      (getNextRequest q sys.store skipGrantIds skipRequestIds now).1 = some v.request ∧
        v = { request := v.request }) ∨
    ∃ w, sys.views i = some w ∧ ¬ Claims clients sys e i ∧
      (v = w ∨ ∃ outlook c next, e = .pass i .answered outlook ∧
      sys.program clients i = .call c next ∧ v = w.after c (c.exec q (clients i) outlook now sys.store).1) := by
  cases e with
  | pass j fate outlook =>
    simp only [Event.Answered] at answered
    subst answered
    simp only [System.step] at view
    cases at_ : sys.program clients j with
    | done out =>
      rw [at_] at view
      refine .inr ⟨v, view, ?_, .inl rfl⟩
      rintro ⟨outlook', g, r, next, event, call⟩
      cases event
      rw [at_] at call
      cases call
    | call c next =>
      rw [at_] at view
      dsimp only at view
      rw [System.call_answered] at view
      by_cases own : i = j
      · subst own
        simp only [Function.update_self] at view
        cases c with
        | getNextRequest skipGrantIds skipRequestIds =>
          obtain ⟨request, found, rfl⟩ := Option.map_eq_some_iff.mp view
          exact .inl ⟨outlook, skipGrantIds, skipRequestIds, next, rfl, at_, found, rfl⟩
        | _ =>
          obtain ⟨w, before, rfl⟩ := Option.map_eq_some_iff.mp view
          refine .inr ⟨w, before, ?_, .inr ⟨outlook, _, next, rfl, at_, rfl⟩⟩
          rintro ⟨outlook', g, r, next', event, call⟩
          rw [at_] at call
          cases call
      · refine .inr ⟨v, by simpa [own] using view, ?_, .inl rfl⟩
        rintro ⟨outlook', g, r, next', event, -⟩
        cases event
        exact own rfl
  | _ =>
    refine .inr ⟨v, view, ?_, .inl rfl⟩
    rintro ⟨outlook', g, r, next', event, -⟩
    cases event

/-- A call that is not a claim tells a pass nothing new about what it claimed. -/
theorem ClaimView.after_request (v : ClaimView) (c : Call) (reply : Except DrainError (Reply c)) :
    (v.after c reply).request = v.request := by
  cases c <;> cases reply <;> rfl

end Life

end Dianemo
