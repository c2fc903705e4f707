import Dianemo.Drain

namespace Dianemo

open Resumption

/-- What became of the confirmation of a claim, as its pass knows it. -/
inductive Standing where
  | unsent
  | lost
  | confirmed
  | refused
  deriving DecidableEq

/-- A pass's claim on an entry, with what the calls made for it have told the pass. -/
structure ClaimView where
  request : QueuedRequest
  /-- A freeze check reported a thaw. -/
  thaw : Bool := false
  /-- The entry was nominated as a probe. -/
  started : Bool := false
  standing : Standing := .unsent
  /-- A write-back was tried and failed. -/
  tried : Bool := false
  /-- A hand-over was tried and failed. -/
  published : Bool := false
  /-- The entry was handed over or written back. -/
  closed : Bool := false
  /-- The last re-read found the entry gone, -/
  gone : Bool := false
  /-- and the clock read after that was within the lease. -/
  unbroken : Bool := false

namespace ClaimView

/-- The probe flag the claim is handed over with. -/
def flag (v : ClaimView) : Bool := v.request.isThawRequest || v.started

/-- What a call and its reply add to the view. -/
def after (v : ClaimView) : (c : Call) → Except DrainError (Reply c) → ClaimView
  | .canProcessRequest _, .ok res => { v with thaw := v.thaw || res.isThawRequest }
  | .tryStartThawRequest _ _ _, .ok started => { v with started := v.started || started }
  | .getRequest _, reply => { v with gone := reply.toOption.elim false Option.isNone, unbroken := false }
  | .now, .ok t =>
    { v with unbroken := v.gone && v.request.claimedAt.elim true fun x => decide (t - x < queueClaimLeaseMs) }
  | .confirmRequest _ _, .ok confirmed => { v with standing := if confirmed then .confirmed else .refused }
  | .confirmRequest _ _, .error _ => { v with standing := .lost }
  | .updateRequest _ _, .ok _ => { v with closed := true }
  | .updateRequest _ _, .error _ => { v with tried := true }
  | .requestReady _, .ok _ => { v with closed := true }
  | .requestReady _, .error _ => { v with published := true }
  | _, _ => v

end ClaimView

/-- A pass's view after a call: a claim is taken up by `getNextRequest` and
given up with the next one. -/
def viewAfter (g : Option ClaimView) : (c : Call) → Except DrainError (Reply c) → Option ClaimView
  | .getNextRequest _ _, reply => reply.toOption.join.map fun request => { request := request }
  | c, reply => g.map fun v => v.after c reply

namespace Call

/-- The call stays inside the process, so it cannot fail. -/
def isLocal : Call → Bool
  | .costProblem _ => true
  | .failWaitingRequest _ => true
  | _ => false

/-- What a pass that holds the claim `v` may call. -/
def Fits (v : ClaimView) : Call → Prop
  | .tryStartThawRequest requestId _ _ =>
    requestId = v.request.requestId ∧ v.thaw = true ∧ v.standing = .unsent ∧ v.closed = false
  | .confirmRequest requestId claimedAt => requestId = v.request.requestId ∧ v.request.claimedAt = some claimedAt ∧
      v.standing = .unsent ∧ v.closed = false
  | .updateRequest requestId updates => requestId = v.request.requestId ∧
      (v.standing = .confirmed ∨ v.standing = .lost) ∧ v.closed = false ∧
      (updates = { status := some "pending", isThawRequest := some false } ∨
        updates = { status := some "pending" } ∧ (v.flag = false ∨ v.tried = true))
  | .requestReady request => v.standing = .confirmed ∧ v.closed = false ∧ v.tried = false ∧ v.published = false ∧
      request = Client.requestMetadata v.request v.flag
  | .removeRequest requestId => requestId = v.request.requestId
  | .getRequest requestId => requestId = v.request.requestId ∧ v.closed = false ∧ v.tried = false ∧ v.published = false ∧
      (v.standing = .unsent ∨ v.standing = .refused)
  | .releaseUnusedAdmission _ => v.gone = true ∧ v.unbroken = true
  | _ => True

/-- The call needs no claim. -/
def isFree : Call → Bool
  | .smembers _ => true
  | .getNextRequest _ _ => true
  | _ => false

end Call

/-- The replies a pass can get: any call that leaves the process may fail. The
backend stamps every claim. -/
def Answers : (c : Call) → Except DrainError (Reply c) → Prop
  | .getNextRequest _ _, .ok (some request) => request.claimedAt.isSome
  | c, .error _ => c.isLocal = false
  | _, _ => True

theorem Answers.of_error {c : Call} {e : DrainError} (answers : Answers c (.error e)) : c.isLocal = false := by
  cases c <;> exact answers

/-- How a drain pass uses its claims. -/
def drainProtocol : Protocol Call Reply DrainError (Option ClaimView) where
  allows g c := c.isFree = true ∨ ∃ v, g = some v ∧ c.Fits v
  answers _ c reply := Answers c reply
  next := viewAfter

section Conformance

variable {g : Option ClaimView} {v : ClaimView} {l : PassLocals} {request : QueuedRequest}

theorem conforms_ask {c : Call} {Q : Except DrainError (Reply c) → PassLocals → Option ClaimView → Prop} :
    (ask c).Conforms drainProtocol Q g l ↔ (c.isFree = true ∨ ∃ v, g = some v ∧ c.Fits v) ∧
      ∀ reply, Answers c reply → Q reply l (viewAfter g c reply) := Act.conforms_call

theorem conforms_tryAsk {c : Call}
    {Q : Except DrainError (Option (Reply c)) → PassLocals → Option ClaimView → Prop} :
    (tryAsk c).Conforms drainProtocol Q g l ↔ (c.isFree = true ∨ ∃ v, g = some v ∧ c.Fits v) ∧
      ∀ reply, Answers c reply → Q (.ok reply.toOption) l (viewAfter g c reply) := Act.conforms_attempt

/-- The pass holds a claim on `request`, whatever became of it. -/
def Holds (request : QueuedRequest) (g : Option ClaimView) : Prop := ∃ v, g = some v ∧ v.request = request

/-- The claim is one that `returnToQueue` can act on: where the variables say
it was confirmed or not, it was. -/
structure Linked (request : QueuedRequest) (l : PassLocals) (v : ClaimView) : Prop where
  same : v.request = request
  stamped : request.claimedAt.isSome
  unsent : l.confirmation = .unsent → v.standing = .unsent ∧ v.closed = false ∧
    v.tried = false ∧ v.published = false ∧
    l.isThawRequest = v.flag
  sent : l.confirmation = .sent →
    (v.standing = .confirmed ∨ v.standing = .lost) ∧ v.closed = false ∧ (l.isThawRequest = v.flag ∨ v.tried = true)

/-- The call tells the pass nothing about its claim. -/
def Call.isNeutral : Call → Bool
  | .getNextRequest _ _ => false
  | .tryStartThawRequest _ _ _ => false
  | .confirmRequest _ _ => false
  | .updateRequest _ _ => false
  | .requestReady _ => false
  | _ => true

/-- A neutral call, whatever comes back, leaves the claim where it was. -/
theorem viewAfter_neutral (v : ClaimView) {c : Call} (neutral : c.isNeutral = true)
    (reply : Except DrainError (Reply c)) :
    ∃ v', viewAfter (some v) c reply = some v' ∧ v'.request = v.request ∧
      v'.standing = v.standing ∧ v'.closed = v.closed ∧
      v'.tried = v.tried ∧ v'.published = v.published ∧ v'.started = v.started := by
  cases c <;> cases reply <;> first | exact ⟨_, rfl, rfl, rfl, rfl, rfl, rfl, rfl⟩ | cases neutral

theorem Linked.neutral (linked : Linked request l v) {c : Call} (neutral : c.isNeutral = true)
    (reply : Except DrainError (Reply c)) : ∃ v', viewAfter (some v) c reply = some v' ∧ Linked request l v' := by
  obtain ⟨v', view, same, standing, closed, tried, published, started⟩ := viewAfter_neutral v neutral reply
  have flag : v'.flag = v.flag := by simp only [ClaimView.flag, same, started]
  refine ⟨v', view, same.trans linked.same, linked.stamped, ?_, ?_⟩
  · intro unsent
    rw [standing, closed, tried, published, flag]
    exact linked.unsent unsent
  · intro sent
    rw [standing, closed, flag, tried]
    exact linked.sent sent

theorem Holds.neutral (same : v.request = request) {c : Call} (neutral : c.isNeutral = true)
    (reply : Except DrainError (Reply c)) : ∃ v', viewAfter (some v) c reply = some v' ∧ v'.request = request := by
  obtain ⟨v', view, same', -⟩ := viewAfter_neutral v neutral reply
  exact ⟨v', view, same'.trans same⟩

/-- Whatever happens in it, the claim stays one `returnToQueue` can act on. -/
def Safe (request : QueuedRequest) {α : Type} (x : Pass α) : Prop :=
  ∀ l v, Linked request l v →
    x.Conforms drainProtocol (fun _ l' g' => l' = l ∧ ∃ v', g' = some v' ∧ Linked request l' v') (some v) l

/-- It throws nothing and does nothing about the claim. -/
def Quiet (request : QueuedRequest) {α : Type} (x : Pass α) : Prop :=
  ∀ l v, v.request = request →
    x.Conforms drainProtocol (fun out _ g' => (∃ a, out = .ok a) ∧ Holds request g') (some v) l

theorem Safe.pure {α : Type} (a : α) : Safe request (pure a : Pass α) := by
  intro l v linked
  exact ⟨rfl, v, rfl, linked⟩

theorem Safe.throw {α : Type} (e : DrainError) : Safe request (throw e : Pass α) := by
  intro l v linked
  exact ⟨rfl, v, rfl, linked⟩

theorem Safe.locals : Safe request (Act.locals : Pass PassLocals) := by
  intro l v linked
  exact ⟨rfl, v, rfl, linked⟩

theorem Safe.bind {α β : Type} {x : Pass α} {f : α → Pass β} (first : Safe request x)
    (rest : ∀ a, Safe request (f a)) : Safe request (x >>= f) := by
  intro l v linked
  rw [Act.conforms_bind]
  refine (first l v linked).mono ?_
  rintro out l' g' ⟨rfl, v', rfl, linked'⟩
  cases out with
  | ok a => exact rest a l' v' linked'
  | error e => exact ⟨rfl, v', rfl, linked'⟩

theorem Safe.tryCatch {α : Type} {x : Pass α} {handle : DrainError → Pass α} (first : Safe request x)
    (rest : ∀ e, Safe request (handle e)) : Safe request (tryCatch x handle) := by
  intro l v linked
  rw [Act.conforms_tryCatch]
  refine (first l v linked).mono ?_
  rintro out l' g' ⟨rfl, v', rfl, linked'⟩
  cases out with
  | ok a => exact ⟨rfl, v', rfl, linked'⟩
  | error e => exact rest e l' v' linked'

theorem Safe.ask {c : Call} (neutral : c.isNeutral = true) (fits : ∀ v, v.request = request → c.Fits v) :
    Safe request (ask c) := by
  intro l v linked
  refine conforms_ask.mpr ⟨.inr ⟨v, rfl, fits v linked.same⟩, ?_⟩
  intro reply _
  exact ⟨rfl, linked.neutral neutral reply⟩

theorem Quiet.pure {α : Type} (a : α) : Quiet request (pure a : Pass α) := by
  intro l v same
  exact ⟨⟨a, rfl⟩, v, rfl, same⟩

theorem Quiet.update (f : PassLocals → PassLocals) : Quiet request (Act.update f : Pass Unit) := by
  intro l v same
  exact ⟨⟨(), rfl⟩, v, rfl, same⟩

theorem Quiet.bind {α β : Type} {x : Pass α} {f : α → Pass β} (first : Quiet request x)
    (rest : ∀ a, Quiet request (f a)) : Quiet request (x >>= f) := by
  intro l v same
  rw [Act.conforms_bind]
  refine (first l v same).mono ?_
  rintro out l' g' ⟨⟨a, rfl⟩, v', rfl, same'⟩
  exact rest a l' v' same'

theorem Quiet.ask {c : Call} (inside : c.isLocal = true) (neutral : c.isNeutral = true)
    (fits : ∀ v, v.request = request → c.Fits v) : Quiet request (ask c) := by
  intro l v same
  refine conforms_ask.mpr ⟨.inr ⟨v, rfl, fits v same⟩, ?_⟩
  intro reply answers
  obtain ⟨v', view, same'⟩ := Holds.neutral same neutral reply
  refine ⟨?_, v', view, same'⟩
  cases reply with
  | ok a => exact ⟨a, rfl⟩
  | error e => exact absurd inside (by simp [answers.of_error])

theorem Quiet.tryAsk {c : Call} (neutral : c.isNeutral = true) (fits : ∀ v, v.request = request → c.Fits v) :
    Quiet request (tryAsk c) := by
  intro l v same
  refine conforms_tryAsk.mpr ⟨.inr ⟨v, rfl, fits v same⟩, ?_⟩
  intro reply _
  obtain ⟨v', view, same'⟩ := Holds.neutral same neutral reply
  exact ⟨⟨reply.toOption, rfl⟩, v', view, same'⟩

section Parts

open Client

variable (client : Client)

theorem isFrozen_safe (grantId : Option String) : Safe request (client.isFrozen grantId) :=
  .bind (.ask rfl fun _ _ => trivial) fun _ => .pure _

theorem releaseAll_safe (releases : List BudgetRelease) : Safe request (releaseAll .releaseClaim releases) := by
  induction releases with
  | nil => exact .pure _
  | cons release rest ih => exact .bind (.ask rfl fun _ _ => trivial) fun _ => ih

theorem releaseFrozenClaim_safe : Safe request (client.releaseFrozenClaim request) :=
  .bind .locals fun _ => .tryCatch (releaseAll_safe _) fun _ => .pure _

theorem tryAcquireTurn_safe : Safe request (client.tryAcquireTurn request) := by
  refine .bind .locals fun l => ?_
  split
  · exact .pure _
  split
  · exact .throw _
  refine .bind (.ask rfl fun _ _ => trivial) fun problem => ?_
  split
  · exact .throw _
  refine .bind (isFrozen_safe client _) fun frozen => ?_
  split
  · exact .throw _
  refine .bind (.ask rfl fun _ _ => trivial) fun claimed => ?_
  split
  · exact .throw _
  split
  · exact .pure _
  refine .bind (isFrozen_safe client _) fun frozen => ?_
  split
  · exact .bind (releaseFrozenClaim_safe client) fun _ => .throw _
  · exact .pure _

theorem scheduleDrainForFreeze_quiet (frozenUntil : Option ℚ) (grantId : Option String) :
    Quiet request (client.scheduleDrainForFreeze frozenUntil grantId) := by
  unfold scheduleDrainForFreeze
  split
  · exact .bind (.tryAsk rfl fun _ _ => trivial) fun _ => .pure _
  · refine .bind (.tryAsk rfl fun _ _ => trivial) fun state => ?_
    split
    · exact .pure _
    · split
      · exact .pure _
      · exact .bind (.tryAsk rfl fun _ _ => trivial) fun _ => .pure _

theorem failWaiter_quiet : Quiet request (failWaiter request) := by
  refine .bind (.ask rfl rfl fun _ _ => trivial) fun failed => ?_
  split
  · exact .bind (.tryAsk rfl fun v same => by rw [← same]; rfl) fun _ => .pure _
  · exact .pure _

theorem failUnsatisfiable_quiet : Quiet request (client.failUnsatisfiable request) := by
  unfold failUnsatisfiable
  split
  · exact .pure _
  · refine .bind (.ask rfl rfl fun _ _ => trivial) fun problem => ?_
    split
    · exact .pure _
    · exact failWaiter_quiet

theorem afterDecline_quiet : Quiet request (client.afterDecline request) := by
  unfold afterDecline
  split
  · split
    · exact .bind (.update _) fun _ => .pure _
    · exact .bind (.update _) fun _ => .pure _
  · exact .pure _

/-- How the claim stands once a part of the loop is through: over with, or, if
something was thrown, still one that can be returned. -/
def Through (request : QueuedRequest) {α : Type} (out : Except DrainError α) (l : PassLocals)
    (g : Option ClaimView) : Prop :=
  match out with
  | .ok _ => Holds request g
  | .error _ => ∃ v, g = some v ∧ Linked request l v

theorem confirm_through (linked : Linked request l v) (unsent : l.confirmation = .unsent) :
    (confirm request).Conforms drainProtocol (fun out l' g' => l'.isThawRequest = l.isThawRequest ∧
      ∃ v', g' = some v' ∧ Linked request l' v' ∧ ∀ confirmed, out = .ok confirmed →
        if confirmed then v'.standing = .confirmed ∧ v'.closed = false ∧ v'.tried = false ∧ v'.published = false ∧
          v'.flag = v.flag ∧ l'.confirmation = .sent
        else v'.standing = .refused ∧ v'.closed = false ∧ v'.tried = false ∧ v'.published = false ∧
          l'.confirmation = .refused) (some v) l := by
  obtain ⟨standing, open_, tried, published, flag⟩ := linked.unsent unsent
  obtain ⟨x, stamp⟩ := Option.isSome_iff_exists.mp linked.stamped
  simp only [confirm, confirmRequestInQueue, stamp, Act.conforms_bind, Act.conforms_update]
  have fits : (Call.confirmRequest request.requestId x).Fits v := by
    rw [← linked.same] at stamp ⊢
    exact ⟨rfl, stamp, standing, open_⟩
  refine conforms_ask.mpr ⟨.inr ⟨v, rfl, fits⟩, ?_⟩
  intro reply _
  cases reply with
  | error e =>
    refine ⟨rfl, _, rfl, ⟨linked.same, linked.stamped, by simp, fun _ => ⟨.inr rfl, open_, .inl flag⟩⟩, by simp⟩
  | ok confirmed =>
    cases confirmed with
    | true =>
      refine ⟨rfl, _, rfl, ⟨linked.same, linked.stamped, by simp, fun _ => ⟨.inl rfl, open_, .inl flag⟩⟩, ?_⟩
      rintro _ ⟨⟩
      exact ⟨rfl, open_, tried, published, rfl, rfl⟩
    | false =>
      refine ⟨rfl, _, rfl, ⟨linked.same, linked.stamped, by simp, by simp⟩, ?_⟩
      rintro _ ⟨⟩
      exact ⟨rfl, open_, tried, published, rfl⟩

theorem writeBack_through (linked : Linked request l v) (sent : l.confirmation = .sent) :
    (writeBack request).Conforms drainProtocol (Through request) (some v) l := by
  obtain ⟨standing, open_, flag⟩ := linked.sent sent
  simp only [writeBack, Act.conforms_bind, Act.conforms_locals]
  by_cases marked : l.isThawRequest = true
  · rw [if_pos marked, Act.conforms_bind, Act.conforms_update]
    refine conforms_ask.mpr ⟨.inr ⟨v, rfl, congrArg _ linked.same.symm, standing, open_, .inl rfl⟩, ?_⟩
    intro reply _
    cases reply with
    | ok done => exact ⟨_, rfl, linked.same⟩
    | error e => exact ⟨_, rfl, linked.same, linked.stamped, fun unsent => by simp [sent] at unsent,
        fun _ => ⟨standing, open_, .inr rfl⟩⟩
  · rw [if_neg marked]
    have plain : v.flag = false ∨ v.tried = true := by
      rcases flag with same | tried
      · exact .inl (same ▸ Bool.eq_false_of_not_eq_true marked)
      · exact .inr tried
    refine conforms_ask.mpr ⟨.inr ⟨v, rfl, congrArg _ linked.same.symm, standing, open_, .inr ⟨rfl, plain⟩⟩, ?_⟩
    intro reply _
    cases reply with
    | ok done => exact ⟨_, rfl, linked.same⟩
    | error e => exact ⟨_, rfl, linked.same, linked.stamped, fun unsent => by simp [sent] at unsent,
        fun _ => ⟨standing, open_, .inr rfl⟩⟩

/-- The write-back of a claim that can be written back. -/
theorem returnToQueue_through (linked : Linked request l v) :
    (returnToQueue request).Conforms drainProtocol (Through request) (some v) l := by
  simp only [returnToQueue, Act.conforms_bind, Act.conforms_locals]
  cases state : l.confirmation with
  | refused => exact ⟨v, rfl, linked.same⟩
  | sent => exact writeBack_through linked state
  | unsent =>
    simp only [Act.conforms_bind]
    refine (confirm_through linked state).mono ?_
    rintro out l' g' ⟨-, v', rfl, linked', told⟩
    cases out with
    | error e => exact ⟨v', rfl, linked'⟩
    | ok confirmed =>
      cases confirmed with
      | true => exact writeBack_through linked' (told true rfl).2.2.2.2.2
      | false => exact ⟨v', rfl, linked'.same⟩

theorem foundGone_safe (linked : Linked request l v) (fits : (Call.getRequest request.requestId).Fits v) :
    (client.foundGone request).Conforms drainProtocol (fun out l' g' => l' = l ∧
      ∃ v', g' = some v' ∧ Linked request l v' ∧ (out = .ok true → v'.gone = true)) (some v) l := by
  unfold foundGone
  by_cases reads : client.claimsReleasableCapacity = true
  · rw [if_pos reads, Act.conforms_bind]
    refine conforms_tryAsk.mpr ⟨.inr ⟨v, rfl, fits⟩, ?_⟩
    intro reply _
    obtain ⟨v', view, linked'⟩ := linked.neutral rfl reply
    rw [view]
    cases reply with
    | error e => exact ⟨rfl, v', rfl, linked', nofun⟩
    | ok entry =>
      cases entry with
      | none =>
        refine ⟨rfl, v', rfl, linked', fun _ => ?_⟩
        cases view
        rfl
      | some entry => exact ⟨rfl, v', rfl, linked', nofun⟩
  · rw [if_neg reads]
    exact ⟨rfl, v, rfl, linked, nofun⟩

theorem releaseUnused_safe (linked : Linked request l v) (gone : v.gone = true) (unbroken : v.unbroken = true)
    (releases : List BudgetRelease) :
    (releaseAll .releaseUnusedAdmission releases).Conforms drainProtocol
      (fun _ l' g' => l' = l ∧ ∃ v', g' = some v' ∧ Linked request l v') (some v) l := by
  induction releases with
  | nil => exact ⟨rfl, v, rfl, linked⟩
  | cons release rest ih =>
    rw [releaseAll, Act.conforms_bind]
    refine conforms_ask.mpr ⟨.inr ⟨v, rfl, gone, unbroken⟩, ?_⟩
    intro reply _
    cases reply with
    | error e => exact ⟨rfl, v, rfl, linked⟩
    | ok done => exact ih

theorem releaseGoneClaim_safe (linked : Linked request l v) (gone : v.gone = true) :
    (client.releaseGoneClaim request).Conforms drainProtocol
      (fun _ l' g' => l' = l ∧ ∃ v', g' = some v' ∧ Linked request l v') (some v) l := by
  obtain ⟨x, stamp⟩ := Option.isSome_iff_exists.mp linked.stamped
  simp only [releaseGoneClaim, stamp, Act.conforms_bind, Act.conforms_locals]
  refine conforms_tryAsk.mpr ⟨.inr ⟨v, rfl, trivial⟩, ?_⟩
  intro reply _
  obtain ⟨v', view, linked'⟩ := linked.neutral rfl reply
  rw [view]
  cases reply with
  | error e => exact ⟨rfl, v', rfl, linked'⟩
  | ok now =>
    dsimp only [Except.toOption]
    by_cases late : queueClaimLeaseMs ≤ now - x
    · rw [if_pos late]
      exact ⟨rfl, v', rfl, linked'⟩
    · rw [if_neg late]
      cases view
      refine releaseUnused_safe linked' gone ?_ _
      rw [← linked.same] at stamp
      simp [ClaimView.after, gone, stamp, not_le.mp late]

theorem Linked.through {α : Type} (linked : Linked request l v) (out : Except DrainError α) :
    Through request out l (some v) := by
  cases out with
  | ok a => exact ⟨v, rfl, linked.same⟩
  | error e => exact ⟨v, rfl, linked⟩

theorem dispatch_through (linked : Linked request l v) (unsent : l.confirmation = .unsent) :
    (client.dispatch request).Conforms drainProtocol (Through request) (some v) l := by
  unfold dispatch
  rw [Act.conforms_bind]
  obtain ⟨standing, open_, tried, published, -⟩ := linked.unsent unsent
  refine (foundGone_safe client linked ⟨congrArg _ linked.same.symm, open_, tried, published, .inl standing⟩).mono ?_
  rintro out _ g ⟨rfl, v, rfl, linked, there⟩
  cases out with
  | error e => exact linked.through _
  | ok gone =>
    cases gone with
    | true =>
      dsimp only
      rw [if_pos rfl, Act.conforms_bind]
      refine (releaseGoneClaim_safe client linked (there rfl)).mono ?_
      rintro out _ g ⟨rfl, v', rfl, linked'⟩
      cases out with
      | error e => exact linked'.through _
      | ok done => exact ⟨v', rfl, linked'.same⟩
    | false =>
      dsimp only
      rw [if_neg Bool.false_ne_true, Act.conforms_bind]
      refine (confirm_through linked unsent).mono ?_
      rintro out l' g ⟨thaw, v', rfl, linked', told⟩
      cases out with
      | error e => exact linked'.through _
      | ok confirmed =>
        cases confirmed with
        | true =>
          obtain ⟨standing, open_, tried, published, flag, sent⟩ := told true rfl
          simp only [not_true_eq_false, if_false, Act.conforms_bind, Act.conforms_locals]
          have ready : Client.requestMetadata request l'.isThawRequest =
              Client.requestMetadata v'.request v'.flag := by
            rw [thaw, (linked.unsent unsent).2.2.2.2, flag, linked'.same]
          refine conforms_ask.mpr ⟨.inr ⟨v', rfl, standing, open_, tried, published, ready⟩, ?_⟩
          intro reply _
          cases reply with
          | ok done => exact ⟨_, rfl, linked'.same⟩
          | error e => exact ⟨_, rfl, linked'.same, linked'.stamped, fun unsent => by simp [sent] at unsent,
              fun _ => linked'.sent sent⟩
        | false =>
          obtain ⟨refused, open_, tried, published, -⟩ := told false rfl
          simp only [Bool.false_eq_true, not_false_eq_true, if_true, Act.conforms_bind]
          refine (foundGone_safe client linked' ⟨congrArg _ linked'.same.symm, open_, tried, published, .inr refused⟩).mono ?_
          rintro out _ g ⟨rfl, v, rfl, linked, there⟩
          cases out with
          | error e => exact linked.through _
          | ok gone =>
            cases gone with
            | true =>
              simp only [if_true, Act.conforms_bind]
              refine (releaseGoneClaim_safe client linked (there rfl)).mono ?_
              rintro out _ g ⟨rfl, v', rfl, linked'⟩
              cases out with
              | error e => exact linked'.through _
              | ok done => exact ⟨v', rfl, linked'.same⟩
            | false => exact ⟨v, rfl, linked.same⟩

/-- Once a claim is returned the rest throws nothing. -/
theorem returned_through (linked : Linked request l v) {rest : Pass Flow} (quiet : Quiet request rest) :
    (do
      returnToQueue request
      rest : Pass Flow).Conforms drainProtocol (Through request) (some v) l := by
  rw [Act.conforms_bind]
  refine (returnToQueue_through linked).mono ?_
  intro out l' g' through
  cases out with
  | error e => exact through
  | ok done =>
    obtain ⟨v', rfl, same⟩ := through
    refine (quiet l' v' same).mono ?_
    rintro out' l'' g'' ⟨⟨a, rfl⟩, holds⟩
    exact holds

theorem takeTurn_through (linked : Linked request l v) (unsent : l.confirmation = .unsent) :
    (client.takeTurn request).Conforms drainProtocol (Through request) (some v) l := by
  unfold takeTurn
  rw [Act.conforms_bind]
  refine (tryAcquireTurn_safe client l v linked).mono ?_
  rintro out _ g ⟨rfl, v', rfl, linked'⟩
  cases out with
  | error e => exact linked'.through _
  | ok acquired =>
    cases acquired with
    | true => exact dispatch_through client linked' unsent
    | false => exact returned_through linked' (afterDecline_quiet client)

theorem declineFrozen_through (linked : Linked request l v) (frozenUntil : Option ℚ) :
    (client.declineFrozen request frozenUntil).Conforms drainProtocol (Through request) (some v) l := by
  refine returned_through linked (.bind (.ask rfl rfl fun _ _ => trivial) fun problem => ?_)
  split
  · exact .bind (.update _) fun _ => .bind (failUnsatisfiable_quiet client) fun _ => .pure _
  · exact .bind (scheduleDrainForFreeze_quiet client _ _) fun _ => afterDecline_quiet client

theorem admission_through (linked : Linked request l v) (unsent : l.confirmation = .unsent) :
    (client.admission request).Conforms drainProtocol (Through request) (some v) l := by
  unfold admission
  rw [Act.conforms_bind]
  refine conforms_ask.mpr ⟨.inr ⟨v, rfl, trivial⟩, ?_⟩
  intro reply _
  obtain ⟨v', view, linked'⟩ := linked.neutral rfl reply
  rw [view]
  cases reply with
  | error e => exact linked'.through _
  | ok res =>
    dsimp only
    by_cases free : res.canProcess = true
    · rw [if_neg (not_not.mpr free)]
      by_cases thaw : res.isThawRequest = true
      · rw [if_pos thaw, Act.conforms_bind]
        obtain ⟨standing, open_, tried, published, flag⟩ := linked'.unsent unsent
        have thawed : v'.thaw = true := by
          cases view
          simp [ClaimView.after, thaw]
        refine conforms_ask.mpr ⟨.inr ⟨v', rfl, congrArg _ linked'.same.symm, thawed, standing, open_⟩, ?_⟩
        intro reply _
        cases reply with
        | error e => exact linked'.through _
        | ok started =>
          cases started with
          | true =>
            dsimp only
            rw [if_pos rfl, Act.conforms_bind, Act.conforms_update]
            refine takeTurn_through client ⟨linked'.same, linked'.stamped,
              fun _ => ⟨standing, open_, tried, published, ?_⟩, ?_⟩ unsent
            · simp [ClaimView.flag, ClaimView.after]
            · intro sent
              rw [unsent] at sent
              cases sent
          | false =>
            dsimp only
            rw [if_neg Bool.false_ne_true]
            have kept : Linked request l (v'.after (.tryStartThawRequest request.requestId
                (if client.usesGrantIsolation then request.grantId.getD "" else "") (!client.usesGrantIsolation))
                (.ok false)) := by
              refine ⟨linked'.same, linked'.stamped, fun _ => ⟨standing, open_, tried, published, ?_⟩, ?_⟩
              · simpa [ClaimView.flag, ClaimView.after] using flag
              · intro sent
                rw [unsent] at sent
                cases sent
            exact returned_through kept (.pure _)
      · rw [if_neg thaw]
        exact takeTurn_through client linked' unsent
    · rw [if_pos free]
      exact declineFrozen_through client linked' _

theorem recover_holds (linked : Linked request l v) (error : DrainError) :
    (client.recover request error).Conforms drainProtocol (fun _ _ _ => True) (some v) l := by
  -- whatever the write-back did, what follows it sends nothing about the claim
  obtain ⟨rest, follows, quiet⟩ : ∃ rest : Pass Flow, client.recover request error = (do
      tryCatch (returnToQueue request) fun _ => pure ()
      rest) ∧ Quiet request rest := by
    refine ⟨_, rfl, ?_⟩
    split
    · exact .bind (.update _) fun _ => .bind (failUnsatisfiable_quiet client) fun _ => .pure _
    · refine .bind (.update _) fun _ => ?_
      split
      · exact .bind failWaiter_quiet fun _ => .pure _
      · exact .pure _
    · exact .bind (scheduleDrainForFreeze_quiet client _ _) fun _ => .pure _
    · exact .pure _
  rw [follows, Act.conforms_bind, Act.conforms_tryCatch]
  refine (returnToQueue_through linked).mono ?_
  intro out l' g' through
  cases out with
  | ok done =>
    obtain ⟨v', rfl, same⟩ := through
    exact (quiet l' v' same).mono fun _ _ _ _ => trivial
  | error e =>
    obtain ⟨v', rfl, linked'⟩ := through
    exact (quiet l' v' linked'.same).mono fun _ _ _ _ => trivial

theorem serve_conforms (stamped : request.claimedAt.isSome) (l : PassLocals) :
    (client.serve request).Conforms drainProtocol (fun _ _ _ => True) (some { request := request }) l := by
  simp only [serve, Act.conforms_bind, Act.conforms_update, Act.conforms_tryCatch]
  have linked : Linked request { l with confirmation := .unsent, isThawRequest := request.isThawRequest }
      { request := request } :=
    ⟨rfl, stamped, fun _ => ⟨rfl, rfl, rfl, rfl, by simp [ClaimView.flag]⟩, by simp⟩
  refine (admission_through client linked rfl).mono ?_
  intro out l' g' through
  cases out with
  | ok flow => trivial
  | error e =>
    obtain ⟨v, rfl, linked'⟩ := through
    exact recover_holds client linked' e

theorem drainOnce_conforms (g : Option ClaimView) (l : PassLocals) :
    client.drainOnce.Conforms drainProtocol (fun _ _ _ => True) g l := by
  have frozen : client.getFrozenGrantIds.Conforms drainProtocol (fun _ _ _ => True) g l := by
    unfold getFrozenGrantIds
    split
    · exact (conforms_ask (c := .smembers client.frozenGrantsKey)).mpr ⟨.inl rfl, fun _ _ => trivial⟩
    · trivial
  unfold drainOnce
  rw [Act.conforms_bind]
  refine frozen.mono ?_
  rintro out l g -
  cases out with
  | error e => trivial
  | ok ids =>
    simp only [Act.conforms_bind, Act.conforms_locals]
    refine conforms_ask.mpr ⟨.inl rfl, ?_⟩
    intro reply answers
    cases reply with
    | error e => trivial
    | ok found =>
      cases found with
      | none => trivial
      | some request => exact serve_conforms client answers l

/-- Every turn of every pass keeps to the protocol, from whatever came before. -/
theorem round_conforms (l : PassLocals) (g : Option ClaimView) :
    (client.round l).Conforms drainProtocol (fun _ _ => True) g := by
  refine Program.conforms_bind.mpr ?_
  refine Program.Conforms.mono ?_ (drainOnce_conforms client g l)
  rintro ⟨out, l'⟩ g' -
  cases out with
  | error e => trivial
  | ok flow => cases flow <;> trivial

end Parts

end Conformance

end Dianemo
