import Dianemo.Dispatch

namespace Dianemo

open Resumption

/-- The calls of a client's pass on the claim it has: budgets are claimed and
handed back as the client's limits ask for that request, and a client that does
not isolate its grants nominates for all of them. -/
def Client.Does (client : Client) (held : Option QueuedRequest) : Call → Prop
  | .tryStartThawRequest _ grantId anyGrant =>
    anyGrant = !client.usesGrantIsolation ∧ (client.usesGrantIsolation = false → grantId = "")
  | .claim budget => ∃ request flag, held = some request ∧
    budget = client.claim (Client.requestMetadata request flag)
  | .releaseClaim release => ∃ request flag, held = some request ∧
      release ∈ client.releaseClaim (Client.requestMetadata request flag)
  | .releaseUnusedAdmission release => ∃ request flag, held = some request ∧
      release ∈ client.releaseClaim (Client.requestMetadata request flag)
  | _ => True

/-- The claim a pass has after a call. -/
def heldAfter (held : Option QueuedRequest) : (c : Call) → Except DrainError (Reply c) → Option QueuedRequest
  | .getNextRequest _ _, reply => reply.toOption.join
  | _, _ => held

def habits (client : Client) : Protocol Call Reply DrainError (Option QueuedRequest) where
  allows held c := client.Does held c
  answers _ _ _ := True
  next := heldAfter

section Conformance

variable {client : Client} {request : QueuedRequest}

/-- The pass keeps to its client's habits with the claim it has, and keeps the claim. -/
def Habitual (client : Client) (request : QueuedRequest) {α : Type} (x : Pass α) : Prop :=
  ∀ l, x.Conforms (habits client) (fun _ _ held => held = some request) (some request) l

namespace Habitual

theorem pure {α : Type} (a : α) : Habitual client request (pure a : Pass α) := fun _ => rfl

theorem throw {α : Type} (e : DrainError) : Habitual client request (throw e : Pass α) := fun _ => rfl

theorem locals : Habitual client request (Act.locals : Pass PassLocals) := fun _ => rfl

theorem update (f : PassLocals → PassLocals) : Habitual client request (Act.update f : Pass Unit) := fun _ => rfl

/-- Habitual parts one after the other, whatever the first returns. -/
theorem bind {α β : Type} {x : Pass α} {f : α → Pass β} (first : Habitual client request x)
    (rest : ∀ a, Habitual client request (f a)) : Habitual client request (x >>= f) := by
  intro l
  rw [Act.conforms_bind]
  refine (first l).mono ?_
  rintro out l' held rfl
  cases out with
  | ok a => exact rest a l'
  | error e => rfl

/-- A recovery has the claim the attempt had. -/
theorem tryCatch {α : Type} {x : Pass α} {handle : DrainError → Pass α} (first : Habitual client request x)
    (rest : ∀ e, Habitual client request (handle e)) : Habitual client request (tryCatch x handle) := by
  intro l
  rw [Act.conforms_tryCatch]
  refine (first l).mono ?_
  rintro out l' held rfl
  cases out with
  | ok a => rfl
  | error e => exact rest e l'

/-- A call on the claim the pass has. -/
theorem ask {c : Call} (does : client.Does (some request) c)
    (keeps : ∀ reply, heldAfter (some request) c reply = some request) :
    Habitual client request (ask c) :=
  fun _ => Act.conforms_call.mpr ⟨does, fun reply _ => keeps reply⟩

theorem tryAsk {c : Call} (does : client.Does (some request) c)
    (keeps : ∀ reply, heldAfter (some request) c reply = some request) : Habitual client request (tryAsk c) :=
  fun _ => Act.conforms_attempt.mpr ⟨does, fun reply _ => keeps reply⟩

end Habitual

open Client

theorem isFrozen_habitual (grantId : Option String) : Habitual client request (client.isFrozen grantId) :=
  .bind (.ask trivial fun _ => rfl) fun _ => .pure _

theorem releaseAll_habitual {call : BudgetRelease → Call} {releases : List BudgetRelease}
    (does : ∀ release ∈ releases, client.Does (some request) (call release))
    (keeps : ∀ release reply, heldAfter (some request) (call release) reply = some request) :
    Habitual client request (releaseAll call releases) := by
  induction releases with
  | nil => exact .pure _
  | cons release rest ih =>
    refine .bind (.ask (does release (List.mem_cons_self ..)) (keeps release)) fun _ => ?_
    exact ih fun other member => does other (List.mem_cons_of_mem _ member)

/-- The turn claims budgets for its entry, and releases those budgets if it finds a freeze. -/
theorem tryAcquireTurn_habitual : Habitual client request (client.tryAcquireTurn request) := by
  refine .bind .locals fun l => ?_
  split
  · exact .pure _
  split
  · exact .throw _
  refine .bind (.ask trivial fun _ => rfl) fun problem => ?_
  split
  · exact .throw _
  refine .bind (isFrozen_habitual _) fun frozen => ?_
  split
  · exact .throw _
  refine .bind (.ask ⟨request, _, rfl, rfl⟩ fun _ => rfl) fun claimed => ?_
  split
  · exact .throw _
  split
  · exact .pure _
  refine .bind (isFrozen_habitual _) fun frozen => ?_
  split
  · refine .bind (.bind .locals fun l' => .tryCatch ?_ fun _ => .pure _) fun _ => .throw _
    exact releaseAll_habitual (fun release member => ⟨request, _, rfl, member⟩) fun _ _ => rfl
  · exact .pure _

theorem confirm_habitual : Habitual client request (confirm request) := by
  refine .bind (.update _) fun _ => .bind ?_ fun confirmed => ?_
  · unfold confirmRequestInQueue
    split
    · exact .pure _
    · exact .ask trivial fun _ => rfl
  · split
    · exact .pure _
    · exact .bind (.update _) fun _ => .pure _

theorem writeBack_habitual : Habitual client request (writeBack request) := by
  refine .bind .locals fun l => ?_
  split
  · exact .bind (.update _) fun _ => .ask trivial fun _ => rfl
  · exact .ask trivial fun _ => rfl

/-- A claim that was not confirmed yet is confirmed before it is written back. -/
theorem returnToQueue_habitual : Habitual client request (returnToQueue request) := by
  refine .bind .locals fun l => ?_
  split
  · exact .pure _
  · exact writeBack_habitual
  · refine .bind confirm_habitual fun confirmed => ?_
    split
    · exact writeBack_habitual
    · exact .pure _

theorem scheduleDrainForFreeze_habitual (frozenUntil : Option ℚ) (grantId : Option String) :
    Habitual client request (client.scheduleDrainForFreeze frozenUntil grantId) := by
  unfold scheduleDrainForFreeze
  split
  · exact .bind (.tryAsk trivial fun _ => rfl) fun _ => .pure _
  · refine .bind (.tryAsk trivial fun _ => rfl) fun state => ?_
    split
    · exact .pure _
    · split
      · exact .pure _
      · exact .bind (.tryAsk trivial fun _ => rfl) fun _ => .pure _

theorem failWaiter_habitual : Habitual client request (failWaiter request) := by
  refine .bind (.ask trivial fun _ => rfl) fun failed => ?_
  split
  · exact .bind (.tryAsk trivial fun _ => rfl) fun _ => .pure _
  · exact .pure _

theorem failUnsatisfiable_habitual : Habitual client request (client.failUnsatisfiable request) := by
  unfold failUnsatisfiable
  split
  · exact .pure _
  · refine .bind (.ask trivial fun _ => rfl) fun problem => ?_
    split
    · exact .pure _
    · exact failWaiter_habitual

theorem afterDecline_habitual : Habitual client request (client.afterDecline request) := by
  unfold afterDecline
  split
  · split
    · exact .bind (.update _) fun _ => .pure _
    · exact .bind (.update _) fun _ => .pure _
  · exact .pure _

theorem foundGone_habitual : Habitual client request (client.foundGone request) := by
  unfold foundGone
  split
  · refine .bind (.tryAsk trivial fun _ => rfl) fun entry => ?_
    split
    · exact .pure _
    · exact .pure _
  · exact .pure _

theorem releaseGoneClaim_habitual : Habitual client request (client.releaseGoneClaim request) := by
  refine .bind .locals fun l => ?_
  have release : Habitual client request
      (releaseAll .releaseUnusedAdmission (client.releaseClaim (requestMetadata request l.isThawRequest))) :=
    releaseAll_habitual (fun release member => ⟨request, _, rfl, member⟩) fun _ _ => rfl
  split
  · exact release
  · refine .bind (.tryAsk trivial fun _ => rfl) fun now => ?_
    split
    · exact .pure _
    · split
      · exact .pure _
      · exact release

theorem dispatch_habitual : Habitual client request (client.dispatch request) := by
  refine .bind foundGone_habitual fun gone => ?_
  split
  · exact .bind releaseGoneClaim_habitual fun _ => .pure _
  · refine .bind confirm_habitual fun confirmed => ?_
    split
    · refine .bind foundGone_habitual fun gone => ?_
      split
      · exact .bind releaseGoneClaim_habitual fun _ => .pure _
      · exact .pure _
    · exact .bind .locals fun l => .bind (.ask trivial fun _ => rfl) fun _ => .pure _

/-- From the claim of the budgets on. -/
theorem takeTurn_habitual : Habitual client request (client.takeTurn request) := by
  refine .bind tryAcquireTurn_habitual fun acquired => ?_
  split
  · exact dispatch_habitual
  · exact .bind returnToQueue_habitual fun _ => afterDecline_habitual

theorem declineFrozen_habitual (frozenUntil : Option ℚ) :
    Habitual client request (client.declineFrozen request frozenUntil) := by
  refine .bind returnToQueue_habitual fun _ => .bind (.ask trivial fun _ => rfl) fun problem => ?_
  split
  · exact .bind (.update _) fun _ => .bind failUnsatisfiable_habitual fun _ => .pure _
  · exact .bind (scheduleDrainForFreeze_habitual _ _) fun _ => afterDecline_habitual

theorem admission_habitual : Habitual client request (client.admission request) := by
  refine .bind (.ask trivial fun _ => rfl) fun res => ?_
  split
  · exact declineFrozen_habitual _
  split
  · refine .bind (.ask ⟨rfl, fun shared => by simp [shared]⟩ fun _ => rfl) fun started => ?_
    split
    · exact .bind (.update _) fun _ => takeTurn_habitual
    · exact .bind returnToQueue_habitual fun _ => .pure _
  · exact takeTurn_habitual

theorem recover_habitual (error : DrainError) : Habitual client request (client.recover request error) := by
  refine .bind (.tryCatch returnToQueue_habitual fun _ => .pure _) fun _ => ?_
  split
  · exact .bind (.update _) fun _ => .bind failUnsatisfiable_habitual fun _ => .pure _
  · refine .bind (.update _) fun _ => ?_
    split
    · exact .bind failWaiter_habitual fun _ => .pure _
    · exact .pure _
  · exact .bind (scheduleDrainForFreeze_habitual _ _) fun _ => .pure _
  · exact .pure _

/-- One entry handled; the claim a pass had before is its no longer. -/
theorem drainOnce_habits (l : PassLocals) (held : Option QueuedRequest) :
    client.drainOnce.Conforms (habits client) (fun _ _ _ => True) held l := by
  have frozen : client.getFrozenGrantIds.Conforms (habits client) (fun _ _ _ => True) held l := by
    unfold getFrozenGrantIds
    split
    · exact (Act.conforms_call (c := Call.smembers client.frozenGrantsKey)).mpr ⟨trivial, fun _ _ => trivial⟩
    · trivial
  unfold drainOnce
  rw [Act.conforms_bind]
  refine frozen.mono ?_
  rintro out l held -
  cases out with
  | error e => trivial
  | ok ids =>
    simp only [Act.conforms_bind, Act.conforms_locals]
    refine (Act.conforms_call (c := Call.getNextRequest (ids ++ l.blockedGrantIds) l.skippedRequestIds)).mpr ⟨trivial, ?_⟩
    intro reply _
    cases reply with
    | error e => trivial
    | ok found =>
      cases found with
      | none => trivial
      | some request =>
        have serve : Habitual client request (client.serve request) :=
          .bind (.update _) fun _ => .tryCatch admission_habitual recover_habitual
        exact (serve l).mono fun _ _ _ _ => trivial

theorem round_habits (l : PassLocals) (held : Option QueuedRequest) :
    (client.round l).Conforms (habits client) (fun _ _ => True) held := by
  refine Program.conforms_bind.mpr ?_
  refine Program.Conforms.mono ?_ (drainOnce_habits l held)
  rintro ⟨out, l'⟩ held' -
  cases out with
  | error e => trivial
  | ok flow => cases flow <;> trivial

end Conformance

section Runs

variable {ι : Type} {q : QueueKeys} {clients : ι → Client} {now t : ℚ} {sys : System ι} {i : ι} {c : Call}

/-- Every pass keeps to its client's habits from where it stands. -/
def Accustomed (clients : ι → Client) (sys : System ι) : Prop :=
  ∀ i, (sys.passes i).Conforms (habits (clients i)) (fun _ _ => True) ((sys.views i).map ClaimView.request)

/-- At the start no pass has a claim. -/
theorem accustomed_start (store : State) : Accustomed clients (System.start clients store t) :=
  fun _ => round_habits {} none

theorem Accustomed.program (accustomed : Accustomed clients sys) (i : ι) :
    (sys.program clients i).Conforms (habits (clients i)) (fun _ _ => True)
      ((sys.views i).map ClaimView.request) := by
  have all : ∀ {p : Program Call Reply DrainError (Option PassLocals)} {held : Option QueuedRequest},
      p.Conforms (habits (clients i)) (fun _ _ => True) held ↔
        p.Conforms (habits (clients i)) (fun o _ => ∀ l : PassLocals, o = some l → True) held :=
    ⟨fun conforms => conforms.mono fun _ _ _ _ _ => trivial, fun conforms => conforms.mono fun _ _ _ => trivial⟩
  refine all.mpr (Program.Conforms.unroll (I := fun _ _ => True) ?_ (all.mp (accustomed i)))
  intro l held _
  exact all.mp (round_habits l held)

/-- What a pass calls is what its client does for the claim in its view. -/
theorem Accustomed.does (accustomed : Accustomed clients sys)
    {next : Except DrainError (Reply c) → Program Call Reply DrainError (Option PassLocals)}
    (at_ : sys.program clients i = .call c next) : (clients i).Does ((sys.views i).map ClaimView.request) c := by
  have conforms := accustomed.program i
  rw [at_] at conforms
  exact conforms.1

theorem viewAfter_held (g : Option ClaimView) (c : Call) (reply : Except DrainError (Reply c)) :
    (viewAfter g c reply).map ClaimView.request = heldAfter (g.map ClaimView.request) c reply := by
  cases c with
  | getNextRequest skipGrantIds skipRequestIds =>
    simp only [viewAfter, heldAfter, Option.map_map]
    exact Option.map_id'
  | _ => cases g <;> cases reply <;> rfl

/-- Whoever acts next, and whatever the reply. -/
theorem Accustomed.step [DecidableEq ι] (accustomed : Accustomed clients sys) (e : Event ι) :
    Accustomed clients (sys.step q clients now e) := by
  cases e with
  | pass i fate outlook =>
    simp only [System.step]
    cases at_ : sys.program clients i with
    | done out => exact accustomed
    | call c next =>
      intro j
      by_cases own : j = i
      · subst own
        have conforms := accustomed.program j
        rw [at_] at conforms
        simp only [System.call, Function.update_self, viewAfter_held]
        exact conforms.2 _ trivial
      · simpa [System.call, own] using accustomed j
  | _ => exact accustomed

end Runs

end Dianemo
