import Dianemo.Life

namespace Dianemo

open JsNumber Resumption

variable {ι : Type}

/-- The entry is marked as a probe. -/
def Marked (h : Fields) : Prop := h.lookup "isThawRequest" = some (.text "true")

instance (h : Fields) : Decidable (Marked h) := inferInstanceAs (Decidable (_ = _))

/-- The claim was handed out unmarked, and nominated only for a thaw. -/
structure ClaimView.Plain (v : ClaimView) : Prop where
  unmarked : v.request.isThawRequest = false
  thaw : v.started = true → v.thaw = true

/-- Who the mark of an entry belongs to: nobody while it is pending, and
otherwise the pass or the attempt that has it and that nominated it. -/
structure Flagged (q : QueueKeys) (t : ℚ) (sys : System ι) (id : String) : Prop where
  idle : ∀ h, q.item sys.store t id = some h → sys.record.phase id = .idle → ¬ Marked h
  holder : ∀ i v x h, sys.views i = some v → v.request.requestId = id → v.request.claimedAt = some x →
    sys.record.phase id = .claimed i x ∨ sys.record.phase id = .confirmed i x → q.item sys.store t id = some h →
    Marked h → v.started = true
  attempts : ∀ a ∈ sys.record.attempts, a.request.requestId = id → sys.record.phase id = .handed a.pass ∧
    (a.request.isThawRequest = true → a.started = true) ∧ ∀ h, q.item sys.store t id = some h →
      Marked h → a.started = true

/-- A call that leaves no mark behind: a nomination is made for the entry's
current claim, and answered; a write-back is of a claim still held, and if
the claim is nominated it is the first one tried. -/
def Clears (now : ℚ) (sys : System ι) (i : ι) (fate : Fate) : Call → Prop
  | .tryStartThawRequest id _ _ => fate ≠ .failedBefore → fate = .answered ∧ ∃ x, sys.record.phase id = .claimed i x
  | .updateRequest _ _ => fate ≠ .failedBefore → ∀ v, sys.views i = some v →
      sys.record.Holding now i v ∧ (v.tried = true → v.started = false)
  | _ => True

/-- The step makes no marked entry pending, by an owner or by a pass. -/
def Event.Clears (q : QueueKeys) (clients : ι → Client) (now : ℚ) (sys : System ι) : Event ι → Prop
  | .pass i fate _ => ∀ c next, sys.program clients i = .call c next → Dianemo.Clears now sys i fate c
  | .add request ttl => ((addRequest q request ttl now).run sys.store).1 = .ok true → request.isThawRequest = false
  | .retry id => ∀ h, q.item sys.store now id = some h → ¬ Marked h
  | _ => True

section Steps

variable {q : QueueKeys} {clients : ι → Client} {now t : ℚ} {sys sys' : System ι} {id : String} {i : ι} {c : Call}

theorem Flagged.later (flagged : Flagged q t sys id) (order : t ≤ now) : Flagged q now sys id := by
  have same : ∀ h, q.item sys.store now id = some h → q.item sys.store t id = some h := by
    intro h found
    rcases item_later order sys.store id with gone | same
    · rw [gone] at found
      cases found
    · exact same.symm.trans found
  refine ⟨fun h found => flagged.idle h (same h found), ?_, ?_⟩
  · exact fun i v x h view named stamp mine found => flagged.holder i v x h view named stamp mine (same h found)
  · intro a out named
    obtain ⟨handed, own, marked⟩ := flagged.attempts a out named
    exact ⟨handed, own, fun h found => marked h (same h found)⟩

/-- An entry no step moves: its mark may only go. -/
theorem Flagged.calm (flagged : Flagged q now sys id)
    (item : ∀ h', q.item sys'.store now id = some h' →
      ∃ h, q.item sys.store now id = some h ∧ (Marked h' → Marked h))
    (phase : sys'.record.phase id = sys.record.phase id)
    (attempts : ∀ a ∈ sys'.record.attempts, a.request.requestId = id → a ∈ sys.record.attempts)
    (views : ∀ i v', sys'.views i = some v' → v'.request.requestId = id →
      ∃ v, sys.views i = some v ∧ v'.request = v.request ∧ (v.started = true → v'.started = true)) :
    Flagged q now sys' id := by
  refine ⟨?_, ?_, ?_⟩
  · intro h' found idle
    obtain ⟨h, held, mark⟩ := item h' found
    exact mt mark (flagged.idle h held (phase.symm.trans idle))
  · intro i v' x h' view named stamp mine found marked
    obtain ⟨h, held, mark⟩ := item h' found
    obtain ⟨v, before, same, grows⟩ := views i v' view named
    rw [same] at named stamp
    rw [phase] at mine
    exact grows (flagged.holder i v x h before named stamp mine held (mark marked))
  · intro a out named
    obtain ⟨handed, own, marked⟩ := flagged.attempts a (attempts a out named) named
    refine ⟨phase.trans handed, own, ?_⟩
    intro h' found mark'
    obtain ⟨h, held, mark⟩ := item h' found
    exact marked h held (mark mark')

/-- An entry that is left unmarked, with no attempt out. -/
theorem Flagged.of_unmarked (item : ∀ h, q.item sys'.store now id = some h → ¬ Marked h)
    (attempts : ∀ a ∈ sys'.record.attempts, a.request.requestId ≠ id) : Flagged q now sys' id := by
  refine ⟨fun h found _ => item h found, ?_, ?_⟩
  · exact fun _ _ _ h _ _ _ _ found marked => absurd marked (item h found)
  · exact fun a out named => absurd named (attempts a out)

theorem Flagged.unattempted (flagged : Flagged q now sys id) (unhanded : ∀ j, sys.record.phase id ≠ .handed j)
    {a : Dispatch ι} (out : a ∈ sys.record.attempts) : a.request.requestId ≠ id := by
  intro named
  exact unhanded _ (flagged.attempts a out named).1

theorem ClaimView.after_started (v : ClaimView) (c : Call) (reply : Except DrainError (Reply c))
    (started : v.started = true) : (v.after c reply).started = true := by
  cases c <;> cases reply <;> first | exact started | simp [ClaimView.after, started]

/-- A pass's own view after a call that is not a claim. -/
theorem ClaimView.Plain.after {v : ClaimView} (plain : v.Plain) (fits : c.Fits v)
    (reply : Except DrainError (Reply c)) : (v.after c reply).Plain := by
  refine ⟨by rw [v.after_request]; exact plain.unmarked, ?_⟩
  cases c <;> cases reply <;> first | exact plain.thaw | skip
  · intro started
    simp [ClaimView.after, plain.thaw started]
  · intro _
    exact fits.2.1

variable [DecidableEq ι]

variable {next : Except DrainError (Reply c) → Program Call Reply DrainError (Option PassLocals)}
    {fate : Fate} {outlook : Outlook}

/-- Nothing of it reaches the entry, and what the pass is told does not matter. -/
theorem Flagged.bystander (flagged : Flagged q now sys id) {s : State} {r : Record ι}
    {p : Program Call Reply DrainError (Option PassLocals)} {reply : Except DrainError (Reply c)}
    (item : q.item s now id = none ∨ q.item s now id = q.item sys.store now id)
    (phase : r.phase id = sys.record.phase id)
    (attempts : ∀ a ∈ r.attempts, a.request.requestId = id → a ∈ sys.record.attempts)
    (claims : ∀ v', viewAfter (sys.views i) c reply = some v' → v'.request.requestId = id →
      ∃ v, sys.views i = some v ∧ v'.request = v.request ∧ (v.started = true → v'.started = true)) :
    Flagged q now
      { store := s, clock := now, passes := Function.update sys.passes i p
        views := Function.update sys.views i (viewAfter (sys.views i) c reply), record := r } id := by
  refine flagged.calm ?_ phase attempts ?_
  · intro h' found
    rcases item with gone | same
    · rw [gone] at found
      cases found
    · exact ⟨h', same.symm.trans found, fun marked => marked⟩
  · intro j v' view named
    dsimp only at view
    by_cases own : j = i
    · subst own
      rw [Function.update_self] at view
      exact claims v' view named
    · rw [Function.update_of_ne own] at view
      exact ⟨v', view, rfl, fun started => started⟩

omit [DecidableEq ι] in
theorem views_of_call {i : ι} {reply : Except DrainError (Reply c)}
    (other : ∀ g r, c ≠ .getNextRequest g r) {v' : ClaimView}
    (view : viewAfter (sys.views i) c reply = some v') :
    ∃ v, sys.views i = some v ∧ v'.request = v.request ∧ (v.started = true → v'.started = true) := by
  cases c with
  | getNextRequest g r => exact absurd rfl (other g r)
  | _ =>
    obtain ⟨v, before, rfl⟩ := Option.map_eq_some_iff.mp view
    exact ⟨v, before, v.after_request _ _, v.after_started _ _⟩

omit [DecidableEq ι] in
/-- What is handed out is unmarked. -/
theorem Flagged.handedOut (flagged : Flagged q now sys id) (orderly : Orderly q now sys) {h : Fields}
    (held : q.item sys.store now id = some h)
    (free : claimable (h.lookup "status") (h.lookup "claimedAt") now = true) :
    ¬ Marked (withFields h (claimFields h now)) ∧ ∀ j, sys.record.phase id ≠ .handed j := by
  have unheld := (orderly.reads id h held).of_claimable free
  rcases unheld with idle | ⟨j, x, claimed, -⟩
  · have pending := orderly.reads id h held
    rw [idle] at pending
    change h.lookup "status" = some (.text "pending") at pending
    refine ⟨?_, by simp [idle]⟩
    have unmarked := flagged.idle h held idle
    simpa [Marked, claimFields, pending, withFields, AList.lookup_insert_ne] using unmarked
  · have busy := orderly.reads id h held
    rw [claimed] at busy
    refine ⟨?_, by simp [claimed]⟩
    simp [Marked, claimFields, busy.1, withFields, AList.lookup_insert_ne, flagField]

theorem Flagged.call_getNextRequest {skipGrantIds skipRequestIds : List String} (flagged : Flagged q now sys id)
    (orderly : Orderly q now sys) {p : Program Call Reply DrainError (Option PassLocals)} {client : Client}
    (reply : Except DrainError (Option QueuedRequest))
    (told : reply = .ok (getNextRequest q sys.store skipGrantIds skipRequestIds now).1 ∨ ∃ e, reply = .error e) :
    Flagged q now
      { store := ((Call.getNextRequest skipGrantIds skipRequestIds).exec q client outlook now sys.store).2
        clock := now
        passes := Function.update sys.passes i p
        views := Function.update sys.views i (viewAfter (sys.views i) (.getNextRequest skipGrantIds skipRequestIds) reply)
        record := sys.record.after q i (sys.views i) outlook now sys.store (.getNextRequest skipGrantIds skipRequestIds) } id := by
  simp only [Call.exec, Record.after]
  cases found : nextId q sys.store skipGrantIds skipRequestIds now with
  | none =>
    rw [getNextRequest_of_none found] at told ⊢
    refine flagged.bystander (.inr rfl) rfl (fun a out _ => out) ?_
    intro v' view _
    rcases told with rfl | ⟨e, rfl⟩ <;> cases view
  | some other =>
    obtain ⟨h, held, free, -, run⟩ := getNextRequest_of_some found
    rw [run] at told ⊢
    by_cases own : id = other
    · subst own
      obtain ⟨unmarked, unhanded⟩ := flagged.handedOut orderly held free
      refine .of_unmarked ?_ fun a out => flagged.unattempted unhanded out
      intro h' found'
      dsimp only at found'
      rw [item_setFields held, Function.update_self] at found'
      cases found'
      exact unmarked
    · refine flagged.bystander (.inr ?_) (Function.update_of_ne own _ _) (fun a out _ => out) ?_
      · rw [item_setFields held, Function.update_of_ne own]
      · intro v' view named
        rcases told with rfl | ⟨e, rfl⟩
        · obtain ⟨request, read, rfl⟩ := Option.map_eq_some_iff.mp view
          exact absurd (named.symm.trans (toQueued_claimFields read (orderly.named other h held)).1) own
        · cases view

theorem Flagged.call_confirmRequest {other : String} {x : ℚ} {v : ClaimView} (flagged : Flagged q now sys id)
    (orderly : Orderly q now sys) (view : sys.views i = some v) (fits : (Call.confirmRequest other x).Fits v)
    {p : Program Call Reply DrainError (Option PassLocals)} {client : Client} (reply : Except DrainError Bool) :
    Flagged q now
      { store := ((Call.confirmRequest other x).exec q client outlook now sys.store).2
        clock := now
        passes := Function.update sys.passes i p
        views := Function.update sys.views i (viewAfter (sys.views i) (.confirmRequest other x) reply)
        record := sys.record.after q i (sys.views i) outlook now sys.store (.confirmRequest other x) } id := by
  simp only [Call.exec, Record.after]
  have seen : ∀ v', viewAfter (sys.views i) (.confirmRequest other x) reply = some v' → v'.request.requestId = id →
      ∃ v, sys.views i = some v ∧ v'.request = v.request ∧ (v.started = true → v'.started = true) :=
    fun v' after _ => views_of_call (by simp) after
  rcases confirmRequest_cases q sys.store other x now with run | ⟨h, held, status, stamp, unlapsed, run⟩
  · rw [run, if_neg Bool.false_ne_true]
    exact flagged.bystander (.inr rfl) rfl (fun a out _ => out) seen
  · rw [run, if_pos rfl]
    by_cases own : id = other
    · subst own
      have mine := orderly.confirmer view fits stamp unlapsed
      have mark : ∀ h', q.item (sys.store.eraseField (q.metadataKey id) now "claimedAt") now id = some h' →
          Marked h' → Marked h := by
        intro h' found marked
        rw [item_eraseField held, Function.update_self] at found
        cases found
        rwa [Marked, AList.lookup_erase_ne (by decide)] at marked
      refine ⟨?_, ?_, ?_⟩
      · intro h' found idle
        cases (Function.update_self _ _ _).symm.trans idle
      · intro j v' y h' view' named stamp' mine' found marked
        have phase := mine'
        rw [show (sys.record.confirm i id x).phase id = .confirmed i x from Function.update_self _ _ _] at phase
        rcases phase with phase | phase
        · cases phase
        · cases phase
          dsimp only at view'
          rw [Function.update_self] at view'
          obtain ⟨w, before, same, grows⟩ := seen v' view' named
          rw [same] at named stamp'
          exact grows (flagged.holder i w x h before named stamp' (.inl mine) held (mark h' found marked))
      · intro a out named
        exact absurd named (flagged.unattempted (by simp [mine]) out)
    · refine flagged.bystander (.inr ?_) (Function.update_of_ne own _ _) (fun a out _ => out) seen
      rw [item_eraseField held, Function.update_of_ne own]

omit [DecidableEq ι] in
/-- A write-back of a claim still held leaves its entry unmarked. -/
theorem Flagged.writeBack {updates : RequestUpdates} {v : ClaimView} {h : Fields} (flagged : Flagged q now sys id)
    (orderly : Orderly q now sys) (view : sys.views i = some v) (fits : (Call.updateRequest id updates).Fits v)
    (holding : sys.record.Holding now i v) (first : v.tried = true → v.started = false)
    (held : q.item sys.store now id = some h) :
    ¬ Marked (updates.apply h) ∧ ∀ j, sys.record.phase id ≠ .handed j := by
  obtain ⟨rfl, -, -, shape⟩ := fits
  obtain ⟨x, stamp, mine⟩ := (orderly.keeping i v view).holding holding
  refine ⟨?_, by rcases mine with mine | mine <;> simp [mine]⟩
  rcases shape with rfl | ⟨rfl, plain⟩
  · simp [Marked, RequestUpdates.apply, RequestUpdates.fields, finiteUpdate, withFields, flagField]
  · have unstarted : v.started = false := by
      rcases plain with plain | tried
      · exact (Bool.or_eq_false_iff.mp plain).2
      · exact first tried
    have unmarked : ¬ Marked h := by
      intro marked
      rw [flagged.holder i v x h view rfl stamp mine held marked] at unstarted
      cases unstarted
    simpa [Marked, RequestUpdates.apply, RequestUpdates.fields, finiteUpdate, withFields, AList.lookup_insert_ne,
      AList.lookup_erase_ne] using unmarked

theorem Flagged.call_updateRequest {other : String} {updates : RequestUpdates} {v : ClaimView}
    (flagged : ∀ id, Flagged q now sys id) (orderly : Orderly q now sys) (view : sys.views i = some v)
    (fits : (Call.updateRequest other updates).Fits v) (holding : sys.record.Holding now i v)
    (first : v.tried = true → v.started = false)
    {p : Program Call Reply DrainError (Option PassLocals)} {client : Client}
    (reply : Except DrainError Unit) :
    Flagged q now
      { store := ((Call.updateRequest other updates).exec q client outlook now sys.store).2
        clock := now
        passes := Function.update sys.passes i p
        views := Function.update sys.views i (viewAfter (sys.views i) (.updateRequest other updates) reply)
        record := sys.record.after q i (sys.views i) outlook now sys.store (.updateRequest other updates) } id := by
  simp only [Call.exec, Record.after]
  have seen : ∀ v', viewAfter (sys.views i) (.updateRequest other updates) reply = some v' →
      v'.request.requestId = id →
      ∃ v, sys.views i = some v ∧ v'.request = v.request ∧ (v.started = true → v'.started = true) :=
    fun v' after _ => views_of_call (by simp) after
  cases held : q.item sys.store now other with
  | none =>
    rw [if_neg (by simp), updateRequest_of_none held]
    exact (flagged id).bystander (.inr rfl) rfl (fun a out _ => out) seen
  | some h =>
    simp only [Option.isSome_some, if_true]
    have items := item_updateRequest held (orderly.named other h held) updates
    by_cases own : id = other
    · subst own
      obtain ⟨unmarked, unhanded⟩ := (flagged id).writeBack orderly view fits holding first held
      refine .of_unmarked ?_ fun a out => (flagged id).unattempted unhanded out
      intro h' found
      dsimp only at found
      rw [items, Function.update_self] at found
      cases found
      exact unmarked
    · refine (flagged id).bystander (.inr ?_) (Function.update_of_ne own _ _) (fun a out _ => out) seen
      rw [items, Function.update_of_ne own]

theorem Flagged.call_requestReady {request : RequestMetadata} {v : ClaimView} (flagged : Flagged q now sys id)
    (orderly : Orderly q now sys) (plain : v.Plain) (view : sys.views i = some v)
    (fits : (Call.requestReady request).Fits v)
    {p : Program Call Reply DrainError (Option PassLocals)} {client : Client} (reply : Except DrainError Unit) :
    Flagged q now
      { store := ((Call.requestReady request).exec q client outlook now sys.store).2
        clock := now
        passes := Function.update sys.passes i p
        views := Function.update sys.views i (viewAfter (sys.views i) (.requestReady request) reply)
        record := sys.record.after q i (sys.views i) outlook now sys.store (.requestReady request) } id := by
  simp only [Call.exec, Record.after]
  have seen : ∀ v', viewAfter (sys.views i) (.requestReady request) reply = some v' → v'.request.requestId = id →
      ∃ v, sys.views i = some v ∧ v'.request = v.request ∧ (v.started = true → v'.started = true) :=
    fun v' after _ => views_of_call (by simp) after
  obtain ⟨confirmed, closed, tried, published, rfl⟩ := fits
  by_cases own : id = v.request.requestId
  · subst own
    obtain ⟨x, stamp, mine⟩ := orderly.holder view confirmed closed tried published
    have here : Function.update sys.record.phase v.request.requestId (.handed i) v.request.requestId = .handed i :=
      Function.update_self _ _ _
    refine ⟨?_, ?_, ?_⟩
    · intro h found idle
      cases here.symm.trans idle
    · intro j v' y h view' named stamp' held
      rcases held with held | held <;> cases here.symm.trans held
    · intro a out named
      have before : a ∉ sys.record.attempts := fun old => flagged.unattempted (by simp [mine]) old named
      simp only [Record.spend, Record.handOver, view, Option.elim_some] at out
      split at out
      · exact absurd out before
      · rcases List.mem_cons.mp out with rfl | old
        · refine ⟨here, ?_, ?_⟩
          · simp [Client.requestMetadata, ClaimView.flag, plain.unmarked]
          · intro h found marked
            exact flagged.holder i v x h view rfl stamp (.inr mine) found marked
        · exact absurd old before
  · refine flagged.bystander (.inr rfl) (Function.update_of_ne own _ _) ?_ seen
    intro a out named
    simp only [Record.spend, Record.handOver] at out
    split at out
    · exact out
    · rcases List.mem_cons.mp out with rfl | old
      · exact absurd named.symm own
      · exact old

theorem Flagged.call_tryStartThawRequest {other grantId : String} {anyGrant : Bool} {v : ClaimView} {x : ℚ}
    (flagged : Flagged q now sys id) (view : sys.views i = some v) (mine : sys.record.phase other = .claimed i x)
    (apart : (clients i).frozenGrantsKey ∉ q.keys) {p : Program Call Reply DrainError (Option PassLocals)} :
    Flagged q now
      { store := ((Call.tryStartThawRequest other grantId anyGrant).exec q (clients i) outlook now sys.store).2
        clock := now
        passes := Function.update sys.passes i p
        views := Function.update sys.views i (viewAfter (sys.views i) (.tryStartThawRequest other grantId anyGrant)
          ((Call.tryStartThawRequest other grantId anyGrant).exec q (clients i) outlook now sys.store).1)
        record := sys.record.after q i (sys.views i) outlook now sys.store (.tryStartThawRequest other grantId anyGrant) } id := by
  have seen : ∀ reply v', viewAfter (sys.views i) (.tryStartThawRequest other grantId anyGrant) reply = some v' →
      v'.request.requestId = id →
      ∃ v, sys.views i = some v ∧ v'.request = v.request ∧ (v.started = true → v'.started = true) :=
    fun _ v' after _ => views_of_call (by simp) after
  simp only [Call.exec, Record.after]
  rcases tryStartThawRequest_cases apart sys.store other grantId anyGrant
    with ⟨-, items⟩ | ⟨h, held, started, items⟩
  · exact flagged.bystander (.inr (congrFun items id)) rfl (fun a out _ => out) (seen _)
  · by_cases own : id = other
    · subst own
      refine ⟨?_, ?_, ?_⟩
      · intro h' found idle
        rw [mine] at idle
        cases idle
      · intro j v' y h' view' named stamp' mine' found marked
        rw [mine] at mine'
        rcases mine' with mine' | mine'
        · cases mine'
          dsimp only at view'
          rw [Function.update_self, view, started] at view'
          cases view'
          simp [ClaimView.after]
        · cases mine'
      · intro a out named
        exact absurd named (flagged.unattempted (by simp [mine]) out)
    · refine flagged.bystander (.inr ?_) rfl (fun a out _ => out) (seen _)
      rw [items, Function.update_of_ne own]

/-- Whatever a pass's call does, no mark is left to the wrong one. -/
theorem Flagged.call (flagged : ∀ id, Flagged q now sys id) (orderly : Orderly q now sys)
    (plain : ∀ j v, sys.views j = some v → v.Plain) (apart : c.Apart q (clients i) now sys.store)
    (allows : c.isFree = true ∨ ∃ v, sys.views i = some v ∧ c.Fits v)
    (clears : Clears now sys i fate c) (id : String) :
    Flagged q now (sys.call q clients i fate outlook now c next) id := by
  unfold System.call
  dsimp only
  cases took : decide (fate ≠ .failedBefore) || c.isLocal with
  | false =>
    refine (flagged id).bystander (.inr rfl) rfl (fun a out _ => out) ?_
    simp only [Bool.or_eq_false_iff, decide_eq_false_iff_not, not_not] at took
    obtain ⟨rfl, remote⟩ := took
    rw [if_neg (by simp [remote])]
    intro v' view _
    cases c with
    | getNextRequest => cases view
    | _ => exact views_of_call (by simp) view
  | true =>
    rw [if_pos rfl, if_pos rfl]
    have sent : c.isLocal = false → fate ≠ .failedBefore := by
      intro remote
      simpa [remote] using took
    cases c with
    | getNextRequest skipGrantIds skipRequestIds =>
      exact (flagged id).call_getNextRequest orderly _ (by split <;> simp [Call.exec])
    | confirmRequest other x =>
      obtain free | ⟨v, view, fits⟩ := allows
      · cases free
      · exact (flagged id).call_confirmRequest orderly view fits _
    | updateRequest other updates =>
      obtain free | ⟨v, view, fits⟩ := allows
      · cases free
      · obtain ⟨holding, first⟩ := clears (sent rfl) v view
        exact Flagged.call_updateRequest flagged orderly view fits holding first _
    | requestReady request =>
      obtain free | ⟨v, view, fits⟩ := allows
      · cases free
      · exact (flagged id).call_requestReady orderly (plain i v view) view fits _
    | tryStartThawRequest other grantId anyGrant =>
      obtain free | ⟨v, view, fits⟩ := allows
      · cases free
      · obtain ⟨rfl, x, mine⟩ := clears (sent rfl)
        rw [if_pos (.inl rfl)]
        exact (flagged id).call_tryStartThawRequest view mine apart
    | removeRequest other =>
      exact (flagged id).bystander ((removeRequest_fewer sys.store other _).1 id) rfl (fun a out _ => out)
        fun v' view _ => views_of_call (by simp) view
    | failWaitingRequest other =>
      refine (flagged id).bystander (.inr rfl) ?_ ?_ fun v' view _ => views_of_call (by simp) view
      · simp only [Record.after]
        split <;> rfl
      · intro a out _
        simp only [Record.after] at out
        split at out <;> exact out
    | claim budget =>
      exact (flagged id).bystander (.inr (congrFun (item_keeps apart) id)) rfl (fun a out _ => out)
        fun v' view _ => views_of_call (by simp) view
    | releaseClaim release =>
      exact (flagged id).bystander (.inr (congrFun (item_keeps apart) id)) rfl (fun a out _ => out)
        fun v' view _ => views_of_call (by simp) view
    | releaseUnusedAdmission release =>
      exact (flagged id).bystander (.inr (congrFun (item_keeps apart) id)) rfl (fun a out _ => out)
        fun v' view _ => views_of_call (by simp) view
    | _ =>
      exact (flagged id).bystander (.inr rfl) rfl (fun a out _ => out) fun v' view _ => views_of_call (by simp) view

theorem plain_call (flagged : ∀ id, Flagged q now sys id) (orderly : Orderly q now sys)
    (plain : ∀ j v, sys.views j = some v → v.Plain)
    (allows : c.isFree = true ∨ ∃ v, sys.views i = some v ∧ c.Fits v) (j : ι) (v : ClaimView)
    (view : (sys.call q clients i fate outlook now c next).views j = some v) : v.Plain := by
  by_cases own : j = i
  · subst own
    simp only [System.call, Function.update_self] at view
    cases c with
    | getNextRequest skipGrantIds skipRequestIds =>
      obtain ⟨request, read, rfl⟩ := Option.map_eq_some_iff.mp view
      split at read
      · refine ⟨?_, fun set => by cases set⟩
        simp only [Call.exec] at read
        cases found : nextId q sys.store skipGrantIds skipRequestIds now with
        | none =>
          rw [getNextRequest_of_none found] at read
          cases read
        | some id =>
          obtain ⟨h, held, free, -, run⟩ := getNextRequest_of_some found
          rw [run] at read
          have mark := (toQueued_claimFields read (orderly.named id h held)).2.2.1
          rw [Bool.eq_false_iff, Ne, mark]
          rintro ⟨pending, marked⟩
          refine ((flagged id).handedOut orderly held free).1 ?_
          simpa [Marked, claimFields, pending, withFields, AList.lookup_insert_ne] using marked
      · cases read
    | smembers key =>
      obtain ⟨w, before, rfl⟩ := Option.map_eq_some_iff.mp view
      exact plain j w before
    | _ =>
      obtain ⟨w, before, rfl⟩ := Option.map_eq_some_iff.mp view
      obtain free | ⟨w', before', fits⟩ := allows
      · cases free
      · cases before.symm.trans before'
        exact (plain j w before).after fits _
  · exact plain j v (by simpa [System.call, own] using view)

/-- Runs whose calls may fail and that make no marked entry pending. -/
def flagRuns (q : QueueKeys) (clients : ι → Client) : Timed.Machine ℚ (System ι) (Event ι) where
  step now e sys := sys.step q clients now e
  allowed now e sys := e.Fair q clients now sys ∧ e.Clears q clients now sys

omit [DecidableEq ι] in
theorem Event.Clears.guarded {e : Event ι} (clears : e.Clears q clients now sys) : e.Guarded clients now sys := by
  cases e with
  | pass i fate outlook =>
    intro c next at_
    have here := clears c next at_
    cases c with
    | updateRequest id updates =>
      intro sent v view
      exact (here sent v view).1
    | _ => trivial
  | _ => trivial

omit [DecidableEq ι] in
/-- An owner makes the entry pending. -/
theorem Flagged.release (flagged : Flagged q now sys id) {s : State} {other : String} {used : List String}
    (others : id ≠ other → q.item s now id = q.item sys.store now id)
    (own : ∀ h, q.item s now other = some h → ¬ Marked h)
    (over_ : ∀ a ∈ sys.record.attempts, a.request.requestId ≠ other) :
    Flagged q now { sys with store := s, clock := now, record := { sys.record.release other with used := used } } id := by
  by_cases same : id = other
  · subst same
    exact .of_unmarked own over_
  · refine flagged.calm ?_ (Function.update_of_ne same _ _) (fun a out _ => out) ?_
    · intro h' found
      exact ⟨h', (others same).symm.trans found, fun marked => marked⟩
    · exact fun j v' view _ => ⟨v', view, rfl, fun started => started⟩

theorem Flagged.step (flagged : ∀ id, Flagged q now sys id) (orderly : Orderly q now sys)
    (conformant : Conformant sys)
    (plain : ∀ j v, sys.views j = some v → v.Plain) {e : Event ι} (fair : e.Fair q clients now sys)
    (clears : e.Clears q clients now sys) :
    (∀ id, Flagged q now (sys.step q clients now e) id) ∧
      ∀ j v, (sys.step q clients now e).views j = some v → v.Plain := by
  have still : ∀ {s : State} {r : Record ι}, Fewer q now sys.store s → r.phase = sys.record.phase →
      (∀ a ∈ r.attempts, a ∈ sys.record.attempts) →
      ∀ id, Flagged q now { sys with store := s, clock := now, record := r } id := by
    intro s r fewer phase attempts id
    refine (flagged id).calm ?_ (congrFun phase id) (fun a out _ => attempts a out) ?_
    · intro h' found
      rcases fewer id with gone | same
      · rw [gone] at found
        cases found
      · exact ⟨h', same.symm.trans found, fun marked => marked⟩
    · exact fun j v' view _ => ⟨v', view, rfl, fun started => started⟩
  have unmoved := still (.refl q now sys.store) rfl fun a out => out
  cases e with
  | pass i fate outlook =>
    simp only [System.step]
    cases at_ : sys.program clients i with
    | done out => exact ⟨unmoved, plain⟩
    | call c next =>
      have conforms := conformant.program clients i
      rw [at_] at conforms
      exact ⟨Flagged.call flagged orderly plain (fair c next at_) conforms.1 (clears c next at_),
        plain_call flagged orderly plain conforms.1⟩
  | add request ttl =>
    refine ⟨?_, plain⟩
    simp only [System.step, System.add]
    rcases addRequest_run q request ttl now sys.store
      with ⟨e, run⟩ | ⟨run, -⟩ | ⟨score, seconds, whole, -, absent, run⟩
    · rw [run, if_neg (by simp)]
      exact unmoved
    · rw [run, if_neg (by simp)]
      exact unmoved
    · have accepted : ((addRequest q request ttl now).run sys.store).1 = .ok true := by rw [run]
      have owner := fair.2 accepted
      have unmarked : request.isThawRequest = false := clears accepted
      rw [run, if_pos rfl]
      intro id
      have items : q.item (sys.store.enqueue q request score seconds now) now = _ :=
        item_enqueue_self whole.pos absent
      refine (flagged id).release ?_ ?_ ?_
      · intro ne
        rw [items, Function.update_of_ne ne]
      · intro h found
        rw [items, Function.update_self] at found
        cases found
        have mark : (withFields ∅ request.fields).lookup "isThawRequest" =
            some (flagField request.isThawRequest) := by
          cases settled : request.settles <;>
            simp [QueuedRequest.fields, settled, withFields, AList.lookup_insert_ne]
        simp [Marked, mark, unmarked, flagField]
      · intro a out named
        have handed := ((flagged _).attempts a out named).1
        by_cases used : request.requestId ∈ sys.record.used
        · exact (owner used).2 a out named
        · rw [orderly.unused _ used] at handed
          cases handed
  | recount id retries =>
    refine ⟨?_, plain⟩
    intro other
    simp only [System.step]
    cases held : q.item sys.store now id with
    | none =>
      rw [updateRequest_of_none held]
      exact unmoved other
    | some h =>
      refine (flagged other).calm ?_ rfl (fun a out _ => out) fun j v' view _ =>
        ⟨v', view, rfl, fun started => started⟩
      intro h' found
      dsimp only at found
      rw [item_updateRequest held (orderly.named id h held)] at found
      by_cases same : other = id
      · subst same
        rw [Function.update_self] at found
        cases found
        refine ⟨h, held, ?_⟩
        intro marked
        rwa [Marked, recount_lookup (by decide)] at marked
      · rw [Function.update_of_ne same] at found
        exact ⟨h', found, fun marked => marked⟩
  | retry id =>
    refine ⟨?_, plain⟩
    simp only [System.step, System.retry]
    cases held : q.item sys.store now id with
    | none =>
      rw [if_neg (by simp), updateRequest_of_none held]
      exact unmoved
    | some h =>
      simp only [Option.isSome_some, if_true]
      intro other
      have items := item_updateRequest held (orderly.named id h held) { status := some "pending" }
      refine (flagged other).release ?_ ?_ fair.2
      · intro ne
        rw [items, Function.update_of_ne ne]
      · intro h' found
        rw [items, Function.update_self] at found
        cases found
        have unmarked : ¬ Marked h := clears h held
        simpa [Marked, RequestUpdates.apply, RequestUpdates.fields, finiteUpdate,
          withFields, AList.lookup_insert_ne, AList.lookup_erase_ne] using unmarked
  | complete id => exact ⟨still (.refl q now sys.store) rfl fun a out => List.mem_of_mem_filter out, plain⟩
  | free id retries => exact ⟨still (.refl q now sys.store) rfl fun a out => out, plain⟩
  | remove id ttl => exact ⟨still (removeRequest_fewer sys.store id ttl).1 rfl fun a out => out, plain⟩
  | cleanup alive current =>
    exact ⟨still (cleanupOrphanedRequests_fewer sys.store alive current) rfl fun a out => out, plain⟩
  | elsewhere after => exact ⟨still (fewer_of_item (item_keeps fair)) rfl fun a out => out, plain⟩

end Steps

section Runs

variable [DecidableEq ι] {q : QueueKeys} {clients : ι → Client} {t : ℚ}

/-- A pass hands an entry over with a probe flag that does not say whether, for
that claim, it was told of a thaw and got the entry nominated. -/
def Event.misflags (clients : ι → Client) (sys : System ι) : Event ι → Bool
  | .pass i _ _ =>
    match sys.program clients i with
    | .call (.requestReady request) _ => (sys.views i).any fun v => request.isThawRequest != (v.thaw && v.started)
    | _ => false
  | _ => false

/-- Whether the completion of an attempt counts as progress of a thaw, which
the entry's removal has a say in. -/
def Dispatch.counts (q : QueueKeys) (s : State) (a : Dispatch ι) (ttl : JsNumber) (now : ℚ) : Bool :=
  a.request.isThawRequest || (removeRequest q s a.request.requestId ttl now).1

/-- As long as no marked entry is made pending, every hand-over is flagged as it
was nominated and only nominated attempts count. -/
theorem flag_is_nomination {store : State} (bare : Bare q t store) {history : List (ℚ × Event ι)}
    (valid : (flagRuns q clients).Valid t (.start clients store t) history) :
    ¬ (flagRuns q clients).Passes (fun _ e sys => e.misflags clients sys = true) (.start clients store t) history ∧
      let sys := (flagRuns q clients).final (.start clients store t) history
      ∀ a ∈ sys.record.attempts, ∀ ttl now, (flagRuns q clients).clock t history ≤ now →
        a.counts q sys.store ttl now = true → a.started = true := by
  let I : ℚ → System ι → Prop := fun t sys =>
    (Orderly q t sys ∧ Conformant sys) ∧ (∀ id, Flagged q t sys id) ∧ ∀ j v, sys.views j = some v → v.Plain
  have step : ∀ t now e sys, t ≤ now → (flagRuns q clients).allowed now e sys → I t sys →
      I now ((flagRuns q clients).step now e sys) := by
    rintro t now e sys order ⟨fair, clears⟩ ⟨⟨orderly, conformant⟩, flagged, plain⟩
    have orderly' := orderly.later order
    exact ⟨orderly'.step conformant fair clears.guarded,
      Flagged.step (fun id => (flagged id).later order) orderly' conformant plain fair clears⟩
  have start : I t (System.start clients store t) := by
    refine ⟨⟨orderly_start bare, conformant_start store⟩, fun id => .of_unmarked ?_ ?_, ?_⟩
    · intro h found
      rw [System.start, bare id] at found
      cases found
    · intro a out
      cases out
    · intro j v view
      cases view
  constructor
  · refine valid.never step ?_ start
    rintro t now e sys - - ⟨⟨-, conformant⟩, -, plain⟩ misflags
    cases e with
    | pass i fate outlook =>
      simp only [Event.misflags] at misflags
      split at misflags
      · rename_i request next at_
        obtain ⟨v, view, differs⟩ := (Option.any_eq_true _ _).mp misflags
        have conforms := conformant.program clients i
        rw [at_] at conforms
        obtain free | ⟨w, view', -, -, -, -, rfl⟩ := conforms.1
        · cases free
        · cases view.symm.trans view'
          have plain' := plain i v view
          cases started : v.started with
          | false => simp [Client.requestMetadata, ClaimView.flag, plain'.unmarked, started] at differs
          | true => simp [Client.requestMetadata, ClaimView.flag, started, plain'.thaw started] at differs
      · cases misflags
    | _ => cases misflags
  · intro sys a out ttl now order counts
    obtain ⟨-, flagged, -⟩ := valid.invariant step start
    obtain ⟨-, own, marked⟩ := ((flagged a.request.requestId).later order).attempts a out rfl
    rw [Dispatch.counts, Bool.or_eq_true] at counts
    rcases counts with flag | removed
    · exact own flag
    · simp only [removeRequest, decide_eq_true_eq] at removed
      cases held : q.item sys.store now a.request.requestId with
      | none =>
        unfold QueueKeys.item at held
        simp [State.hget, held] at removed
      | some h =>
        refine marked h held ?_
        unfold QueueKeys.item at held
        simp [State.hget, held] at removed
        exact removed

end Runs

section Tests

variable [DecidableEq ι] {q : QueueKeys} {slotKey : String} {clients : ι → Client}

def Event.clears (q : QueueKeys) (clients : ι → Client) (now : ℚ) (sys : System ι) : Event ι → Bool
  | .pass i fate outlook =>
    match sys.program clients i with
    | .call (.tryStartThawRequest id _ _) _ => decide (fate = .failedBefore) || decide (fate = .answered) &&
      match sys.record.phase id with
      | .claimed j _ => decide (j = i)
      | _ => false
    | .call (.updateRequest _ _) _ => (Event.pass i fate outlook).guarded clients now sys &&
      (sys.views i).all fun v => !v.tried || !v.started
    | _ => true
  | .add request _ => !request.isThawRequest
  | .retry id => (q.item sys.store now id).all fun h => decide (¬ Marked h)
  | _ => true

theorem flagRuns_of_test (confined : Confined q slotKey clients) (now : ℚ) (e : Event ι) (sys : System ι)
    (test : (e.fair q slotKey clients now sys && e.clears q clients now sys) = true) :
    (flagRuns q clients).allowed now e sys := by
  rw [Bool.and_eq_true] at test
  obtain ⟨fair, clears⟩ := test
  refine ⟨Event.fair_of_test confined fair, ?_⟩
  cases e with
  | pass i fate outlook =>
    intro c next at_
    cases c with
    | tryStartThawRequest id grantId anyGrant =>
      intro sent
      simp only [Event.clears, at_, sent, decide_false, Bool.false_or, Bool.and_eq_true,
        decide_eq_true_eq] at clears
      refine ⟨clears.1, ?_⟩
      have current := clears.2
      split at current
      · rename_i j x phase
        exact ⟨x, by rw [phase, of_decide_eq_true current]⟩
      · cases current
    | updateRequest id updates =>
      intro sent v view
      simp only [Event.clears, at_, view, Bool.and_eq_true, Option.all_some] at clears
      refine ⟨Event.guarded_of_test clears.1 _ next at_ sent v view, ?_⟩
      intro tried
      simpa [tried] using clears.2
    | _ => trivial
  | add request ttl =>
    intro _
    simpa [Event.clears] using clears
  | retry id =>
    intro h held
    simpa [Event.clears, held] using clears
  | _ => trivial

/-- A freeze whose window is past, with one probe owed. -/
def probedStore : State :=
  State.fresh.putFields "ns:freezeState" 0 [("frozenUntil", .num 0), ("thawRequestCount", .num 1),
    ("emptiesBucket", .text "0")]
    604800

theorem probedStore_bare : Bare (clientQueue "ns") 0 probedStore := by
  have keeps : Keeps (clientQueue "ns").keys 0 State.fresh probedStore :=
    .putFields (outside_queue (by decide) (by decide)) State.fresh _ _
  intro id
  rw [item_keeps keeps]
  exact bare_fresh _ 0 id

/-- A probe is handed over, fails and is to be retried. -/
def probeRun : List (ℚ × Event (Fin 2)) :=
  [(0, .add (plainRequest "first" "one") 86400), (1, .pass 0 .answered {}), (2, .pass 0 .answered {}),
    (3, .pass 0 .answered {}), (4, .pass 0 .answered {}), (5, .pass 0 .answered {}),
      (6, .complete "first"), (7, .retry "first")]

/-- The freeze is over by then, and the retry is handed over. -/
def retriedRun : List (ℚ × Event (Fin 2)) :=
  probeRun ++ (8, .elsewhere (((drainRuns (clientQueue "ns") controllers).final
      (.start controllers probedStore 0) probeRun).store.delete "ns:freezeState")) ::
    [(9, .pass 1 .answered {}), (10, .pass 1 .answered {}), (11, .pass 1 .answered {}), (12, .pass 1 .answered {})]

theorem retried_probe_misflagged :
    (drainRuns (clientQueue "ns") controllers).Valid 0 (.start controllers probedStore 0) retriedRun ∧
    (drainRuns (clientQueue "ns") controllers).Passes (fun _ e sys => e.misflags controllers sys = true)
      (.start controllers probedStore 0) retriedRun := by
  refine ⟨Timed.Machine.valid_append.mpr ⟨?_, Timed.Machine.valid_cons.mpr ⟨by decide, ⟨?_, trivial⟩, ?_⟩⟩, by decide +kernel⟩
  · exact Timed.Machine.valid_of_checks (drainRuns_of_test controllers_confined) (by decide +kernel)
  · exact Keeps.delete (outside_queue (by decide) (by decide)) _
  · exact Timed.Machine.valid_of_checks (drainRuns_of_test controllers_confined) (by decide +kernel)

/-- A probe is written back after its confirmation's reply is lost, and the next pass nominates it anew. -/
def renominatedRun : List (ℚ × Event (Fin 2)) :=
  [(0, .add (plainRequest "first" "one") 86400), (1, .pass 0 .answered {}), (2, .pass 0 .answered {}),
    (3, .pass 0 .answered {}), (4, .pass 0 .failedAfter {}), (5, .pass 0 .answered {}), (6, .pass 1 .answered {}),
    (7, .pass 1 .answered {}), (8, .pass 1 .answered {}), (9, .pass 1 .answered {}), (10, .pass 1 .answered {})]

theorem flag_is_nomination_renominated :
    ¬ (flagRuns (clientQueue "ns") controllers).Passes (fun _ e sys => e.misflags controllers sys = true)
      (.start controllers probedStore 0) renominatedRun ∧
    let sys := (flagRuns (clientQueue "ns") controllers).final (.start controllers probedStore 0) renominatedRun
    sys.record.attempts.length = 1 ∧ ∀ a ∈ sys.record.attempts, ∀ ttl now, 10 ≤ now →
      a.counts (clientQueue "ns") sys.store ttl now = true → a.started = true := by
  have holds := flag_is_nomination probedStore_bare
    (Timed.Machine.valid_of_checks (flagRuns_of_test controllers_confined) (by decide +kernel) :
      (flagRuns (clientQueue "ns") controllers).Valid 0 (.start controllers probedStore 0) renominatedRun)
  exact ⟨holds.1, by decide +kernel, holds.2⟩

end Tests

end Dianemo
