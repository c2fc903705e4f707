import Dianemo.Alone
import Dianemo.Recovery

namespace Dianemo

open JsNumber Resumption Client

section Touch

variable {q : QueueKeys} {client : Client} {limits : Limits} {last now : ℚ} {L rest : List String}
    {w : Scene} {l : PassLocals}
  {request : QueuedRequest} {s s' : State} {id : String} {P : Fields → Prop}

/-- Of the queue only one entry changes, and neither in its id nor in its cost. -/
structure Touch (q : QueueKeys) (now : ℚ) (id : String) (s s' : State) : Prop where
  others : ∀ k ∈ q.keys, k ≠ q.metadataKey id → s'.live k now = s.live k now
  own : ∀ h', q.item s' now id = some h' → ∃ h, q.item s now id = some h ∧
    h'.lookup "requestId" = h.lookup "requestId" ∧
    h'.lookup "cost" = h.lookup "cost"

namespace Touch

theorem refl (q : QueueKeys) (now : ℚ) (id : String) (s : State) : Touch q now id s s :=
  ⟨fun _ _ _ => rfl, fun h' found => ⟨h', found, rfl, rfl⟩⟩

theorem of_keeps (keeps : Keeps q.keys now s s') : Touch q now id s s' where
  others k mem _ := keeps.live k mem
  own h' found := ⟨h', (congrFun (item_keeps keeps) id).symm.trans found, rfl, rfl⟩

theorem trans {s'' : State} (first : Touch q now id s s') (second : Touch q now id s' s'') :
    Touch q now id s s'' where
  others k mem ne := (second.others k mem ne).trans (first.others k mem ne)
  own h'' found := by
    obtain ⟨h', found', name', cost'⟩ := second.own h'' found
    obtain ⟨h, found, name, cost⟩ := first.own h' found'
    exact ⟨h, found, name'.trans name, cost'.trans cost⟩

theorem write {h : Fields} (held : q.item s now id = some h) {fields : List (String × Field)}
    (avoid : ∀ f ∈ fields, f.1 ≠ "requestId" ∧ f.1 ≠ "cost") :
    Touch q now id s (s.setFields (q.metadataKey id) now fields) where
  others k _ ne := State.setFields_live_ne ne s now fields
  own h' found := by
    rw [item_setFields held, Function.update_self] at found
    cases found
    exact ⟨h, held, withFields_lookup_ne (fun f mem => (avoid f mem).1) h,
      withFields_lookup_ne (fun f mem => (avoid f mem).2) h⟩

theorem erase {field : String} (name : field ≠ "requestId") (cost : field ≠ "cost") (s : State) :
    Touch q now id s (s.eraseField (q.metadataKey id) now field) where
  others k _ ne := State.live_congr (State.eraseField_store_ne ne s field) now
  own h' found := by
    rw [QueueKeys.item, State.hash_eraseField] at found
    obtain ⟨h, held, rfl⟩ := Option.map_eq_some_iff.mp found
    exact ⟨h, held, AList.lookup_erase_ne name.symm, AList.lookup_erase_ne cost.symm⟩

theorem queue (touch : Touch q now id s s') : s'.live q.queueKey now = s.live q.queueKey now :=
  touch.others _ QueueKeys.queueKey_mem (QueueKeys.metadataKey_ne id).symm

theorem entry (touch : Touch q now id s s') {other : String} (ne : other ≠ id) :
    s'.live (q.metadataKey other) now = s.live (q.metadataKey other) now :=
  touch.others _ (QueueKeys.metadataKey_mem other) (mt QueueKeys.metadataKey_inj.mp ne)

theorem item (touch : Touch q now id s s') {other : String} {h' : Fields} (found : q.item s' now other = some h') :
    ∃ h, q.item s now other = some h ∧ h'.lookup "requestId" = h.lookup "requestId" ∧
      h'.lookup "cost" = h.lookup "cost" := by
  by_cases same : other = id
  · subst same
    exact touch.own h' found
  · exact ⟨h', (State.hash_congr (touch.entry same)).symm.trans found, rfl, rfl⟩

theorem tidy (touch : Touch q now id s s') (tidy : Tidy q now s) : Tidy q now s' where
  named other h' plain found := by
    obtain ⟨h, found, name, -⟩ := touch.item found
    exact name.trans (tidy.named other h plain found)
  members z found := tidy.members z ((State.zset_congr touch.queue).symm.trans found)

end Touch

theorem InLine.touch (inLine : InLine q client limits last L w rest (some id))
    (touch : Touch q w.clock id w.store s')
    (front : id ∈ L → id ∈ rest) : InLine q client limits last L { w with store := s' } rest (some id) where
  tidy := touch.tidy inLine.tidy
  before := inLine.before
  nodup := inLine.nodup
  known := by
    rw [State.sorted_congr touch.queue]
    exact inLine.known
  plain := inLine.plain
  line := by
    rw [State.sorted_congr touch.queue]
    exact inLine.line
  handed := inLine.handed
  shut other member out := by
    have ne : other ≠ id := by
      rintro rfl
      exact out (front member)
    exact (inLine.shut other member out).congr (touch.entry ne)
  waits other member free := by
    have ne : other ≠ id := by
      rintro rfl
      exact free rfl
    exact (inLine.waits other member free).congr (touch.entry ne)

theorem Amid.mem_rest (amid : Amid q client limits last L w rest request) (member : request.requestId ∈ L) :
    request.requestId ∈ rest := by
  obtain ⟨⟨behind, rfl⟩, -⟩ := amid.front member
  exact List.mem_cons_self

theorem Amid.touch (amid : Amid q client limits last L w rest request)
    (touch : Touch q w.clock request.requestId w.store s') :
    Amid q client limits last L { w with store := s' } rest request where
  inLine := amid.inLine.touch touch amid.mem_rest
  plain := amid.plain
  known := amid.known
  costed h' found := by
    obtain ⟨h, found, -, cost⟩ := touch.own h' found
    rw [cost]
    exact amid.costed h found
  front := amid.front

theorem Skips.touch (skips : Skips q client limits w l) (touch : Touch q w.clock id w.store s') :
    Skips q client limits { w with store := s' } l := by
  refine ⟨skips.1, ?_⟩
  intro other member
  obtain ⟨plain, known, never⟩ := skips.2 other member
  refine ⟨plain, known, ?_⟩
  intro h' found
  obtain ⟨h, found, -, cost⟩ := touch.item found
  rw [cost]
  exact never h found

/-- A confirmation takes a stamp off, or does nothing. -/
theorem confirmRequest_touch (s : State) (id : String) (x : ℚ) :
    Touch q now id s (confirmRequest q s id (fin x) now).2 := by
  rcases confirmRequest_cases q s id x now with nothing | ⟨h, -, -, -, -, run⟩
  · rw [nothing]
    exact .refl q now id s
  · rw [run]
    exact .erase (by decide) (by decide) s

/-- An update of a claim's status leaves the order of the queue. -/
theorem updateRequest_touch (s : State) (id : String) {updates : RequestUpdates}
    (plain : updates.retries = none ∧ updates.priority = none) :
    Touch q now id s (updateRequest q s id updates now) := by
  cases held : q.item s now id with
  | none =>
    rw [updateRequest_of_none held]
    exact .refl q now id s
  | some h =>
    have still : updates.needsScoreUpdate = false := by
      simp [RequestUpdates.needsScoreUpdate, plain.1, plain.2, finiteUpdate]
    have avoid : ∀ f ∈ updates.fields, f.1 ≠ "requestId" ∧ f.1 ≠ "cost" := by
      intro f member
      simp only [RequestUpdates.fields, plain.1, plain.2, finiteUpdate, Option.toList_none,
        List.map_nil, List.nil_append, List.mem_map] at member
      obtain ⟨b, -, rfl⟩ := member
      exact ⟨(by decide : "isThawRequest" ≠ "requestId"), (by decide : "isThawRequest" ≠ "cost")⟩
    have wrote : updateRequest q s id updates now =
        (writeStatus s (q.metadataKey id) updates.status now).setFields (q.metadataKey id) now updates.fields := by
      unfold QueueKeys.item at held
      simp only [updateRequest, held, still, Bool.false_and, Bool.false_eq_true, if_false]
    rw [wrote]
    have items := item_writeStatus held updates.status
    have first : Touch q now id s (writeStatus s (q.metadataKey id) updates.status now) := by
      cases updates.status with
      | none => exact .refl q now id s
      | some status => exact (Touch.write held (by simp)).trans (.erase (by decide) (by decide) _)
    refine first.trans (Touch.write ((congrFun items id).trans (Function.update_self ..)) avoid)

/-- A nomination marks the entry, or nothing in the queue. -/
theorem tryStartThawRequest_touch {frozenGrantsKey : String} (avoid : frozenGrantsKey ∉ q.keys) (s : State)
    (id grantId : String) (anyGrant : Bool) :
    Touch q now id s (tryStartThawRequest q s frozenGrantsKey id grantId anyGrant now).2 := by
  obtain ⟨u, joined, run⟩ := tryStartThawRequest_run avoid s id grantId anyGrant now
  rw [run]
  split
  · exact .of_keeps joined
  · split
    · exact .of_keeps joined
    · rename_i there
      obtain ⟨h, held⟩ := Option.ne_none_iff_exists'.mp (by simpa using there)
      exact (Touch.of_keeps joined).trans (.write held (by simp))

end Touch

/-- The failure is one of the cost, which no later turn will mend. -/
def DrainError.isCost : DrainError → Bool
  | .requestCost _ => true
  | .invalidRequestCost => true
  | _ => false

section Carries

variable {q : QueueKeys} {client : Client} {limits : Limits} {last : ℚ} {L rest : List String}
    {w w' : Scene} {l : PassLocals}
  {request : QueuedRequest} {I : PassLocals → Scene → Prop}

/-- The call leaves the queue alone and hands nothing over. -/
def Call.isAside : Call → Bool
  | .getNextRequest _ _ => false
  | .tryStartThawRequest _ _ _ => false
  | .confirmRequest _ _ => false
  | .updateRequest _ _ => false
  | .removeRequest _ => false
  | .requestReady _ => false
  | _ => true

theorem Call.exec_keeps {c : Call} (aside : c.isAside = true) {outlook : Outlook} {now : ℚ} {s : State}
    (apart : c.Apart q client now s) : Keeps q.keys now s (c.exec q client outlook now s).2 := by
  cases c with
  | claim budget => exact apart
  | releaseClaim release => exact apart
  | releaseUnusedAdmission release => exact apart
  | getNextRequest _ _ => cases aside
  | tryStartThawRequest _ _ _ => cases aside
  | confirmRequest _ _ => cases aside
  | updateRequest _ _ => cases aside
  | removeRequest _ => cases aside
  | requestReady _ => cases aside
  | _ => exact Keeps.refl _ _ _

theorem handedAfter_aside {c : Call} (aside : c.isAside = true) (w : Scene) : w.handedAfter c = w.handed := by
  cases c <;> first | rfl | cases aside

/-- What such a call does may as well go on around the pass. -/
theorem answers_aside {c : Call} (aside : c.isAside = true) {reply : Except DrainError (Reply c)}
    (answers : (loneWorld q client limits last L).answers w c reply w') :
    Relation.ReflTransGen (Aside q last) w w' := by
  obtain ⟨w₁, now, fate, outlook, around, order, before, apart, -, run⟩ := answers
  obtain ⟨-, rfl⟩ := Prod.mk.inj run
  refine around.tail ?_
  rw [handedAfter_aside aside, ite_self]
  refine Aside.elsewhere order before ?_
  split
  · exact Call.exec_keeps aside apart
  · exact Keeps.refl _ _ _

/-- Where a call of a claim touches one entry, the pass finds what went on around it and then that. -/
theorem answers_touch {c : Call} {id : String} {reply : Except DrainError (Reply c)}
    (unready : ∀ w : Scene, w.handedAfter c = w.handed)
    (touches : ∀ outlook now s, c.Apart q client now s → Touch q now id s (c.exec q client outlook now s).2)
    (answers : (loneWorld q client limits last L).answers w c reply w') :
    ∃ w₁ s', Relation.ReflTransGen (Aside q last) w w₁ ∧ Touch q w₁.clock id w₁.store s' ∧
      w' = { w₁ with store := s' } := by
  obtain ⟨w₁, now, fate, outlook, around, order, before, apart, -, run⟩ := answers
  obtain ⟨-, rfl⟩ := Prod.mk.inj run
  have waited : Aside q last w₁ { w₁ with store := w₁.store, clock := now } :=
    .elsewhere order before (Keeps.refl _ _ _)
  refine ⟨_, _, around.tail waited, ?_, by rw [unready, ite_self]⟩
  split
  · exact touches outlook now w₁.store apart
  · exact Touch.refl _ _ _ _

theorem exec_error {c : Call} {outlook : Outlook} {now : ℚ} {s : State} {e : DrainError}
    (failed : (c.exec q client outlook now s).1 = .error e) : e = .failed := by
  have of_answer : ∀ {α β : Type} {tell : α → β} {out : Except RangeError α × State},
      (answer tell out).1 = .error e → e = .failed := by
    intro α β tell out failed
    obtain ⟨result, s'⟩ := out
    cases result with
    | ok a => cases failed
    | error _ =>
      cases failed
      rfl
  cases c with
  | claim budget => cases budget <;> exact of_answer failed
  | releaseClaim release => cases release <;> exact of_answer failed
  | releaseUnusedAdmission release => cases release <;> exact of_answer failed
  | _ => cases failed

/-- A call fails in one way only. -/
theorem answers_error {c : Call} {e : DrainError}
    (answers : (loneWorld q client limits last L).answers w c (.error e) w') : e = .failed := by
  obtain ⟨w₁, now, fate, outlook, -, -, -, -, -, run⟩ := answers
  have reply := (Prod.mk.inj run).1
  split at reply
  · exact exec_error reply.symm
  · exact Except.error.inj reply

/-- Whatever comes of its calls, `I` holds before and after and nothing is said against a cost. -/
def Carries (q : QueueKeys) (client : Client) (limits : Limits) (last : ℚ) (L : List String)
    (I : PassLocals → Scene → Prop) {α : Type} (x : Pass α) : Prop :=
  ∀ w l, I l w → x.Abides (loneWorld q client limits last L)
    (fun out l' w' => I l' w' ∧ ∀ e, out = .error e → e.isCost = false) w l

namespace Carries

theorem pure {α : Type} (a : α) : Carries q client limits last L I (pure a : Pass α) :=
  fun _ _ holds => ⟨holds, nofun⟩

theorem throw {α : Type} {e : DrainError} (blameless : e.isCost = false) :
    Carries q client limits last L I (throw e : Pass α) := by
  intro w l holds
  refine ⟨holds, ?_⟩
  rintro _ ⟨⟩
  exact blameless

theorem locals : Carries q client limits last L I (Act.locals : Pass PassLocals) := fun _ _ holds => ⟨holds, nofun⟩

theorem update {f : PassLocals → PassLocals} (keeps : ∀ l w, I l w → I (f l) w) :
    Carries q client limits last L I (Act.update f : Pass Unit) := fun w l holds => ⟨keeps l w holds, nofun⟩

theorem bind {α β : Type} {x : Pass α} {f : α → Pass β} (first : Carries q client limits last L I x)
    (rest : ∀ a, Carries q client limits last L I (f a)) : Carries q client limits last L I (x >>= f) := by
  intro w l holds
  rw [Act.abides_bind]
  refine (first w l holds).mono ?_
  rintro out l' w' ⟨holds, blameless⟩
  cases out with
  | ok a => exact rest a w' l' holds
  | error e => exact ⟨holds, by rintro _ ⟨⟩; exact blameless e rfl⟩

theorem tryCatch {α : Type} {x : Pass α} {handle : DrainError → Pass α} (first : Carries q client limits last L I x)
    (rest : ∀ e, Carries q client limits last L I (handle e)) :
    Carries q client limits last L I (tryCatch x handle) := by
  intro w l holds
  rw [Act.abides_tryCatch]
  refine (first w l holds).mono ?_
  rintro out l' w' ⟨holds, -⟩
  cases out with
  | ok a => exact ⟨holds, nofun⟩
  | error e => exact rest e w' l' holds

theorem ask {c : Call} (free : ∀ w, (loneWorld q client limits last L).allows w c)
    (keeps : ∀ l w reply w', (loneWorld q client limits last L).answers w c reply w' → I l w → I l w') :
    Carries q client limits last L I (ask c) := by
  intro w l holds
  refine Act.abides_call.mpr ⟨free w, ?_⟩
  intro reply w' answers
  refine ⟨keeps l w reply w' answers holds, ?_⟩
  rintro e rfl
  rw [answers_error answers]
  rfl

theorem tryAsk {c : Call} (free : ∀ w, (loneWorld q client limits last L).allows w c)
    (keeps : ∀ l w reply w', (loneWorld q client limits last L).answers w c reply w' → I l w → I l w') :
    Carries q client limits last L I (tryAsk c) := by
  intro w l holds
  refine Act.abides_attempt.mpr ⟨free w, ?_⟩
  intro reply w' answers
  exact ⟨keeps l w reply w' answers holds, nofun⟩

theorem aside (still : ∀ l, Still q last (I l)) {c : Call} (aside_ : c.isAside = true) :
    Carries q client limits last L I (Dianemo.ask c) := by
  refine .ask (by cases c <;> first | exact fun _ => trivial | cases aside_) ?_
  intro l w reply w' answers holds
  exact (still l).run (answers_aside aside_ answers) holds

theorem tryAside (still : ∀ l, Still q last (I l)) {c : Call} (aside_ : c.isAside = true) :
    Carries q client limits last L I (Dianemo.tryAsk c) := by
  refine .tryAsk (by cases c <;> first | exact fun _ => trivial | cases aside_) ?_
  intro l w reply w' answers holds
  exact (still l).run (answers_aside aside_ answers) holds

end Carries

section Parts

variable (still : ∀ l, Still q last (I l))

include still

theorem isFrozen_carries (grantId : Option String) : Carries q client limits last L I (client.isFrozen grantId) :=
  .bind (.aside still rfl) fun _ => .pure _

theorem releaseAll_carries {call : BudgetRelease → Call} (aside : ∀ release, (call release).isAside = true)
    (releases : List BudgetRelease) : Carries q client limits last L I (releaseAll call releases) := by
  induction releases with
  | nil => exact .pure _
  | cons release rest ih => exact .bind (.aside still (aside release)) fun _ => ih

theorem releaseFrozenClaim_carries : Carries q client limits last L I (client.releaseFrozenClaim request) :=
  .bind .locals fun _ => .tryCatch (releaseAll_carries still (fun _ => rfl) _) fun _ => .pure _

theorem scheduleDrainForFreeze_carries (frozenUntil : Option ℚ) (grantId : Option String) :
    Carries q client limits last L I (client.scheduleDrainForFreeze frozenUntil grantId) := by
  unfold scheduleDrainForFreeze
  split
  · exact .bind (.tryAside still rfl) fun _ => .pure _
  · refine .bind (.tryAside still rfl) fun state => ?_
    split
    · exact .pure _
    · split
      · exact .pure _
      · exact .bind (.tryAside still rfl) fun _ => .pure _

theorem releaseGoneClaim_carries : Carries q client limits last L I (client.releaseGoneClaim request) := by
  refine .bind .locals fun l => ?_
  split
  · exact releaseAll_carries still (fun _ => rfl) _
  · refine .bind (.tryAside still rfl) fun now => ?_
    split
    · exact .pure _
    · split
      · exact .pure _
      · exact releaseAll_carries still (fun _ => rfl) _

theorem foundGone_carries : Carries q client limits last L I (client.foundGone request) := by
  unfold foundGone
  split
  · refine .bind (.tryAside still rfl) fun entry => ?_
    split
    · exact .pure _
    · exact .pure _
  · exact .pure _

end Parts

end Carries

section Claims

variable {q : QueueKeys} {client : Client} {limits : Limits} {last since : ℚ} {L rest : List String} {w w' : Scene}
  {l : PassLocals} {request : QueuedRequest} {I : PassLocals → Scene → Prop}

theorem answers_costProblem {cost : RequestCost} {found : Option CostProblem}
    (answers : (loneWorld q client limits last L).answers w (.costProblem cost) (.ok found) w') :
    found = limits cost := by
  obtain ⟨w₁, now, fate, outlook, -, -, -, -, told, run⟩ := answers
  have reply := (Prod.mk.inj run).1
  rw [if_pos (.inr rfl)] at reply
  exact (Except.ok.inj reply).trans (told cost rfl)

theorem answers_getRequest {id : String} {found : Option QueuedRequest}
    (answers : (loneWorld q client limits last L).answers w (.getRequest id) (.ok found) w') :
    found = getRequest q w'.store id w'.clock := by
  obtain ⟨w₁, now, fate, outlook, -, -, -, -, -, run⟩ := answers
  obtain ⟨reply, rfl⟩ := Prod.mk.inj run
  split at reply
  · dsimp only
    rw [Call.exec, ite_self]
    exact Except.ok.inj reply
  · cases reply

theorem unpayable_of_problem (problem : limits request.cost ≠ none) :
    client.payable limits request.cost = false := by
  obtain ⟨p, problem⟩ := Option.ne_none_iff_exists'.mp problem
  simp [payable, problem]

theorem unpayable_of_unusable (unusable : client.unusableCost request.cost = true) :
    client.payable limits request.cost = false := by
  simp [payable, unusable]

/-- A turn fails for its cost only if the cost is never to be admitted. -/
theorem tryAcquireTurn_abides (still : ∀ l, Still q last (I l)) (holds : I l w) :
    (client.tryAcquireTurn request).Abides (loneWorld q client limits last L) (fun out l' w' => I l' w' ∧
      ∀ e, out = .error e → e.isCost = true → client.payable limits request.cost = false) w l := by
  have calm : ∀ {α : Type} {x : Pass α}, Carries q client limits last L I x → ∀ w l, I l w →
      x.Abides (loneWorld q client limits last L) (fun out l' w' => I l' w' ∧
        ∀ e, out = .error e → e.isCost = true → client.payable limits request.cost = false) w l := by
    intro α x carries w l holds
    refine (carries w l holds).mono ?_
    rintro out l' w' ⟨holds, blameless⟩
    refine ⟨holds, ?_⟩
    intro e failed blames
    rw [blameless e failed] at blames
    cases blames
  simp only [tryAcquireTurn, Act.abides_bind, Act.abides_locals]
  split
  · exact ⟨holds, fun e failed => by cases failed⟩
  split
  · rename_i unusable
    exact ⟨holds, fun _ _ _ => unpayable_of_unusable unusable⟩
  rw [Act.abides_bind]
  refine Act.abides_call.mpr ⟨trivial, ?_⟩
  intro reply w' answers
  have holds := (still l).run (answers_aside rfl answers) holds
  cases reply with
  | error e =>
    refine ⟨holds, ?_⟩
    rintro _ ⟨⟩ blames
    rw [answers_error answers] at blames
    cases blames
  | ok problem =>
    have told := answers_costProblem answers
    cases problem with
    | some problem => exact ⟨holds, fun _ _ _ => unpayable_of_problem (by simp [← told])⟩
    | none =>
      refine calm ?_ w' l holds
      refine .bind (isFrozen_carries still _) fun frozen => ?_
      split
      · exact .throw rfl
      refine .bind (.aside still rfl) fun claimed => ?_
      split
      · exact .throw rfl
      split
      · exact .pure _
      refine .bind (isFrozen_carries still _) fun frozen => ?_
      split
      · exact .bind (releaseFrozenClaim_carries still) fun _ => .throw rfl
      · exact .pure _

/-- What a pass does about its claim leaves `I` as it is. -/
structure Robust (q : QueueKeys) (last : ℚ) (request : QueuedRequest) (I : PassLocals → Scene → Prop) : Prop where
  still : ∀ l, Still q last (I l)
  touched : ∀ l w s', I l w → Touch q w.clock request.requestId w.store s' → I l { w with store := s' }
  kept : ∀ l l' w, l'.blockedGrantIds = l.blockedGrantIds →
    l'.skippedRequestIds = l.skippedRequestIds → I l w → I l' w

theorem robust_true : Robust q last request fun _ _ => True :=
  ⟨fun _ _ _ _ _ => trivial, fun _ _ _ _ _ => trivial, fun _ _ _ _ _ _ => trivial⟩

theorem robust_amid : Robust q last request fun l w => Amid q client limits last L w rest request ∧
    Skips q client limits w l where
  still _ := amid_still.and skips_still
  touched _ _ _ holds touch := ⟨holds.1.touch touch, holds.2.touch touch⟩
  kept _ _ _ blocked skipped holds := ⟨holds.1, by rw [Skips, blocked, skipped]; exact holds.2⟩

section Robust

variable (robust : Robust q last request I)

include robust

theorem Robust.answers {c : Call} {reply : Except DrainError (Reply c)}
    (unready : ∀ w : Scene, w.handedAfter c = w.handed)
    (touches : ∀ outlook now s, c.Apart q client now s →
      Touch q now request.requestId s (c.exec q client outlook now s).2)
    (answers : (loneWorld q client limits last L).answers w c reply w') (holds : I l w) : I l w' := by
  obtain ⟨w₁, s', around, touch, rfl⟩ := answers_touch unready touches answers
  exact robust.touched l w₁ s' ((robust.still l).run around holds) touch

theorem confirm_carries : Carries q client limits last L I (confirm request) := by
  refine .bind (.update fun l w holds => robust.kept l _ w rfl rfl holds) fun _ => .bind ?_ fun confirmed => ?_
  · unfold confirmRequestInQueue
    split
    · exact .pure _
    · refine .ask (fun _ => trivial) ?_
      intro l w reply w' answers holds
      exact robust.answers (fun _ => rfl) (fun _ _ s _ => confirmRequest_touch s _ _) answers holds
  · split
    · exact .pure _
    · exact .bind (.update fun l w holds => robust.kept l _ w rfl rfl holds) fun _ => .pure _

theorem update_carries {updates : RequestUpdates} (plain : updates.retries = none ∧ updates.priority = none) :
    Carries q client limits last L I (ask (.updateRequest request.requestId updates)) := by
  refine .ask (fun _ => trivial) ?_
  intro l w reply w' answers holds
  exact robust.answers (fun _ => rfl) (fun _ _ s _ => updateRequest_touch s _ plain) answers holds

theorem returnToQueue_carries : Carries q client limits last L I (returnToQueue request) := by
  have writes : Carries q client limits last L I (writeBack request) := by
    refine .bind .locals fun l => ?_
    split
    · exact .bind (.update fun l w holds => robust.kept l _ w rfl rfl holds) fun _ =>
        update_carries robust ⟨rfl, rfl⟩
    · exact update_carries robust ⟨rfl, rfl⟩
  refine .bind .locals fun l => ?_
  split
  · exact .pure _
  · exact writes
  · refine .bind (confirm_carries robust) fun confirmed => ?_
    split
    · exact writes
    · exact .pure _

end Robust

/-- The pass may go on: its line is in order and so is what it skips. -/
def Resumes (q : QueueKeys) (client : Client) (limits : Limits) (last : ℚ) (L : List String)
    (l : PassLocals) (w : Scene) : Prop :=
  ∃ rest, InLine q client limits last L w rest none ∧ Skips q client limits w l

theorem resumes_still : Still q last (Resumes q client limits last L l) := by
  rintro w w' step ⟨rest, inLine, skips⟩
  exact ⟨rest, inLine_still w w' step inLine, skips_still w w' step skips⟩

/-- An entry that is not of the line need not be waited for. -/
theorem Amid.free (amid : Amid q client limits last L w rest request) (unlisted : request.requestId ∉ L) :
    InLine q client limits last L w rest none where
  __ := amid.inLine
  waits id member _ := by
    refine amid.inLine.waits id member ?_
    rintro ⟨⟩
    refine unlisted ?_
    rw [← amid.inLine.handed]
    exact List.mem_append_right _ member

/-- An entry of the line that is open again still waits. -/
theorem Amid.reopened (amid : Amid q client limits last L w rest request)
    (open_ : request.requestId ∈ L → Stays q last w.store w.clock request.requestId (Open client limits w.clock)) :
    InLine q client limits last L w rest none := by
  by_cases member : request.requestId ∈ L
  · refine { amid.inLine with waits := ?_ }
    intro id there _
    by_cases same : request.requestId = id
    · subst same
      exact open_ member
    · exact amid.inLine.waits id there fun eq => same (Option.some.inj eq)
  · exact amid.free member

theorem Amid.unlisted (amid : Amid q client limits last L w rest request)
    (unpayable : client.payable limits request.cost = false) : request.requestId ∉ L := by
  intro member
  rw [(amid.front member).2] at unpayable
  cases unpayable

/-- The claim is skipped from now on. -/
theorem Amid.skip (amid : Amid q client limits last L w rest request) (skips : Skips q client limits w l)
    (unpayable : client.payable limits request.cost = false) :
    Skips q client limits w { l with skippedRequestIds := request.requestId :: l.skippedRequestIds } := by
  refine ⟨skips.1, ?_⟩
  intro id member
  rcases List.mem_cons.mp member with rfl | old
  · refine ⟨amid.plain, amid.known, ?_⟩
    intro h found
    rw [amid.costed h found]
    exact unpayable
  · exact skips.2 id old

/-- The removal of an entry that is not of the line. -/
theorem InLine.remove {id : String} {ttl : JsNumber}
    (inLine : InLine q client limits last L w rest none) (plain : PlainId id) (unlisted : id ∉ L) :
    InLine q client limits last L { w with store := (removeRequest q w.store id ttl w.clock).2 } rest none := by
  have listed : ∀ other ∈ rest, other ∈ L := by
    intro other member
    rw [← inLine.handed]
    exact List.mem_append_right _ member
  have entries : ∀ other ∈ L, (removeRequest q w.store id ttl w.clock).2.live (q.metadataKey other) w.clock =
      w.store.live (q.metadataKey other) w.clock := by
    intro other member
    refine State.live_congr ?_ _
    rw [removeRequest_store ttl _ (QueueKeys.metadataKey_ne other),
      if_neg (QueueKeys.tombstoneKey_ne_metadataKey id (inLine.plain other member).1).symm, if_neg]
    rw [QueueKeys.metadataKey_inj]
    rintro rfl
    exact unlisted member
  have queue : (removeRequest q w.store id ttl w.clock).2.sorted q.queueKey w.clock = [] ∨
      (removeRequest q w.store id ttl w.clock).2.sorted q.queueKey w.clock =
        Scores.sorted (((w.store.zset q.queueKey w.clock).getD ∅).erase id) := by
    rw [removeRequest_sorted, sorted_dequeue]
    cases live : w.store.live q.queueKey w.clock with
    | none => exact .inl rfl
    | some e =>
      dsimp only
      split
      · exact .inl rfl
      · exact .inr (by rw [State.zset, live, Option.bind_some])
  have out : decide (id ∈ L) = false := decide_eq_false unlisted
  refine ⟨(removeRequest_edits plain ttl).tidy inLine.tidy, inLine.before, inLine.nodup, ?_, inLine.plain,
    ?_, inLine.handed, ?_, ?_⟩
  · intro other member
    rcases queue with none_ | less
    · exact absurd (none_ ▸ member) List.not_mem_nil
    · refine inLine.known other ?_
      rw [sorted_getD]
      exact Scores.mem_sorted_erase (less ▸ member)
  · rcases queue with none_ | less
    · exact .inr (by simp [none_])
    · have same :=
        Scores.sorted_erase_filter (p := fun x => decide (x ∈ L)) out ((w.store.zset q.queueKey w.clock).getD ∅)
      rw [← sorted_getD] at same
      simp only [less, same]
      exact inLine.line
  · intro other member gone
    exact (inLine.shut other member gone).congr (entries other member)
  · intro other member free
    exact (inLine.waits other member free).congr (entries other (listed other member))

/-- A removed entry is skipped no less than before. -/
theorem Skips.remove {id : String} {ttl : JsNumber} (skips : Skips q client limits w l) :
    Skips q client limits { w with store := (removeRequest q w.store id ttl w.clock).2 } l := by
  refine ⟨skips.1, ?_⟩
  intro other member
  obtain ⟨plain, known, never⟩ := skips.2 other member
  refine ⟨plain, known, ?_⟩
  intro h found
  have fewer : Fewer q w.clock w.store (removeRequest q w.store id ttl w.clock).2 :=
    (removeRequest_fewer w.store id ttl).1
  rcases fewer other with gone | same
  · rw [gone] at found
    cases found
  · exact never h (same.symm.trans found)

/-- The pass may take out an entry that is not of the line. -/
theorem resumes_remove {id : String} (plain : PlainId id) (unlisted : id ∉ L) :
    Carries q client limits last L (Resumes q client limits last L) (tryAsk (.removeRequest id)) := by
  refine .tryAsk (fun _ => trivial) ?_
  rintro l w reply w' ⟨w₁, now, fate, outlook, around, order, before, -, -, run⟩ resumes
  obtain ⟨-, rfl⟩ := Prod.mk.inj run
  have waited : Aside q last w₁ { w₁ with store := w₁.store, clock := now } :=
    .elsewhere order before (Keeps.refl _ _ _)
  obtain ⟨rest, inLine, skips⟩ := resumes_still.run (around.tail waited) resumes
  change Resumes q client limits last L l { store := if _ then _ else _, clock := now, known := _, handed := if _ then _ else _ }
  rw [show w₁.handedAfter (.removeRequest id) = w₁.handed from rfl, ite_self]
  split
  · exact ⟨rest, inLine.remove plain unlisted, skips.remove⟩
  · exact ⟨rest, inLine, skips⟩

theorem failWaiter_carries (plain : PlainId request.requestId) (unlisted : request.requestId ∉ L) :
    Carries q client limits last L (Resumes q client limits last L) (failWaiter request) := by
  refine .bind (.aside (fun _ => resumes_still) rfl) fun failed => ?_
  split
  · exact .bind (resumes_remove plain unlisted) fun _ => .pure _
  · exact .pure _

theorem failUnsatisfiable_carries (plain : PlainId request.requestId) (unlisted : request.requestId ∉ L) :
    Carries q client limits last L (Resumes q client limits last L) (client.failUnsatisfiable request) := by
  unfold failUnsatisfiable
  split
  · exact .pure _
  · refine .bind (.aside (fun _ => resumes_still) rfl) fun problem => ?_
    split
    · exact .pure _
    · exact failWaiter_carries plain unlisted

/-- How a part of the loop leaves the pass: fit to go on if it does, and fit to
step over the claim if it throws because of the cost. -/
def Leaves (q : QueueKeys) (client : Client) (limits : Limits) (last : ℚ) (L : List String)
    (request : QueuedRequest) (out : Except DrainError Flow) (l : PassLocals) (w : Scene) : Prop :=
  match out with
  | .ok .next => Resumes q client limits last L l w
  | .ok .stop => True
  | .error e => e.isCost = true → client.payable limits request.cost = false ∧
      ∃ rest, Amid q client limits last L w rest request ∧ Skips q client limits w l

/-- A claim is stepped over for its cost. -/
theorem stepOver_abides {rest : List String} (amid : Amid q client limits last L w rest request)
    (skips : Skips q client limits w l)
    (unpayable : client.payable limits request.cost = false) {x : Pass Unit}
    (carries : Carries q client limits last L (Resumes q client limits last L) x) :
    (do
      skip request
      x
      pure .next : Pass Flow).Abides (loneWorld q client limits last L)
        (Leaves q client limits last L request) w l := by
  rw [Act.abides_bind]
  refine Act.abides_update.mpr ?_
  rw [Act.abides_bind]
  refine (carries w _ ⟨rest, amid.free (amid.unlisted unpayable), amid.skip skips unpayable⟩).mono ?_
  rintro out l' w' ⟨resumes, blameless⟩
  cases out with
  | ok done => exact resumes
  | error e =>
    intro blames
    rw [blameless e rfl] at blames
    cases blames

theorem afterDecline_stops (shared : client.usesGrantIsolation = false) :
    client.afterDecline request = pure .stop := by
  simp [afterDecline, shared]

/-- Once a claim is returned, what becomes of it is up to the rest. -/
theorem returned_abides {rest : List String} (amid : Amid q client limits last L w rest request)
    (skips : Skips q client limits w l) {x : Pass Flow}
    (after : ∀ w l, Amid q client limits last L w rest request → Skips q client limits w l →
      x.Abides (loneWorld q client limits last L) (Leaves q client limits last L request) w l) :
    (do
      returnToQueue request
      x : Pass Flow).Abides (loneWorld q client limits last L) (Leaves q client limits last L request) w l := by
  rw [Act.abides_bind]
  refine (returnToQueue_carries robust_amid w l ⟨amid, skips⟩).mono ?_
  rintro out l' w' ⟨⟨amid, skips⟩, blameless⟩
  cases out with
  | ok done => exact after w' l' amid skips
  | error e =>
    intro blames
    rw [blameless e rfl] at blames
    cases blames

theorem declineFrozen_abides {rest : List String} (shared : client.usesGrantIsolation = false)
    (amid : Amid q client limits last L w rest request) (skips : Skips q client limits w l)
    (frozenUntil : Option ℚ) :
    (client.declineFrozen request frozenUntil).Abides (loneWorld q client limits last L)
      (Leaves q client limits last L request) w l := by
  refine returned_abides amid skips ?_
  intro w l amid skips
  rw [Act.abides_bind]
  refine Act.abides_call.mpr ⟨trivial, ?_⟩
  intro reply w' answers
  have amid := amid_still.run (answers_aside rfl answers) amid
  have skips := skips_still.run (answers_aside rfl answers) skips
  cases reply with
  | error e =>
    intro blames
    rw [answers_error answers] at blames
    cases blames
  | ok problem =>
    have told := answers_costProblem answers
    cases problem with
    | some problem =>
      have unpayable : client.payable limits request.cost = false := unpayable_of_problem (by simp [← told])
      exact stepOver_abides amid skips unpayable (failUnsatisfiable_carries amid.plain (amid.unlisted unpayable))
    | none =>
      dsimp only
      rw [afterDecline_stops shared, Act.abides_bind]
      have calm : Carries q client limits last L (fun _ _ => True)
          (client.scheduleDrainForFreeze frozenUntil request.grantId) :=
        scheduleDrainForFreeze_carries (fun _ _ _ _ _ => trivial) _ _
      refine (calm w' l trivial).mono ?_
      rintro out l' w'' ⟨-, blameless⟩
      cases out with
      | ok done => trivial
      | error e =>
        intro blames
        rw [blameless e rfl] at blames
        cases blames

/-- The claim is the pass's own: an entry of the line is stamped with it. -/
def Own (q : QueueKeys) (client : Client) (limits : Limits) (last since : ℚ) (L : List String)
    (request : QueuedRequest) (w : Scene) : Prop :=
  request.requestId ∈ L → Stays q last w.store w.clock request.requestId (Held client limits since)

/-- What a change of the rest of the store and an add leave of an entry that is in the queue. -/
theorem stays_still {P : Fields → Prop} :
    Still q last fun w => w.clock ≤ last ∧ request.requestId ∈ w.known ∧
      (request.requestId ∈ L → Stays q last w.store w.clock request.requestId P) := by
  refine still_of (I := fun w => w.clock ≤ last ∧ request.requestId ∈ w.known ∧
    (request.requestId ∈ L → Stays q last w.store w.clock request.requestId P)) ?_ ?_
  · rintro w after now order before keeps ⟨-, known, stays⟩
    refine ⟨before, known, ?_⟩
    intro member
    exact ((stays member).later order before).congr (keeps.live _ (QueueKeys.metadataKey_mem _))
  · rintro w joined score ttl - - - - fresh ⟨before, known, stays⟩
    refine ⟨before, List.mem_cons_of_mem _ known, ?_⟩
    intro member
    exact (stays member).congr (enqueue_live fun same => fresh (same ▸ known))

/-- A pass in the middle of a claim it has not confirmed. -/
def Holding (q : QueueKeys) (client : Client) (limits : Limits) (last since : ℚ) (L rest : List String)
    (request : QueuedRequest) (l : PassLocals) (w : Scene) : Prop :=
  (Amid q client limits last L w rest request ∧ Skips q client limits w l) ∧
    Own q client limits last since L request w

theorem holding_still : Still q last (Holding q client limits last since L rest request l) := by
  rintro w w' step ⟨⟨amid, skips⟩, own⟩
  exact ⟨⟨amid_still w w' step amid, skips_still w w' step skips⟩,
    (stays_still w w' step ⟨amid.inLine.before, amid.known, own⟩).2.2⟩

/-- A re-read that finds the entry gone finds none of the line gone. -/
theorem foundGone_abides (holding : Holding q client limits last since L rest request l w) :
    (client.foundGone request).Abides (loneWorld q client limits last L) (fun out l' w' =>
      Holding q client limits last since L rest request l' w' ∧ (out = .ok true → request.requestId ∉ L) ∧
        ∀ e, out = .error e → e.isCost = false) w l := by
  unfold foundGone
  split
  · rw [Act.abides_bind]
    refine Act.abides_attempt.mpr ⟨trivial, ?_⟩
    intro reply w' answers
    have holding := holding_still.run (answers_aside rfl answers) holding
    cases reply with
    | error e => exact ⟨holding, nofun, nofun⟩
    | ok found =>
      cases found with
      | some entry => exact ⟨holding, nofun, nofun⟩
      | none =>
        refine ⟨holding, ?_, nofun⟩
        intro _ member
        obtain ⟨h, item, -, -, reads, -⟩ := (holding.2 member).item
        have read := answers_getRequest answers
        unfold QueueKeys.item at item
        rw [getRequest, item, Option.bind_some] at read
        rw [← read] at reads
        cases reads
  · exact ⟨holding, nofun, nofun⟩

/-- A claim is refused its own stamp only once it has lapsed. -/
theorem confirmRequest_refused {s : State} {id : String} {x now : ℚ} {h : Fields} (item : q.item s now id = some h)
    (status : h.lookup "status" = some (.text "inProgress")) (stamp : h.lookup "claimedAt" = some (.num (fin x)))
    (refused : (confirmRequest q s id (fin x) now).1 = false) : claimLapsed (h.lookup "claimedAt") now = true := by
  unfold QueueKeys.item at item
  cases lapsed : claimLapsed (h.lookup "claimedAt") now with
  | true => rfl
  | false =>
    rw [stamp] at lapsed
    simp [confirmRequest, item, status, stamp, parseStoredNumber, lapsed] at refused

/-- A confirmation leaves an entry of the line shut, or else open again. -/
theorem confirm_abides (stamped : request.claimedAt = some since)
    (holding : Holding q client limits last since L rest request l w) :
    (confirm request).Abides (loneWorld q client limits last L) (fun out l' w' =>
      (Amid q client limits last L w' rest request ∧ Skips q client limits w' l') ∧ match out with
        | .ok true => request.requestId ∈ L → Stays q last w'.store w'.clock request.requestId Shut
        | .ok false =>
          request.requestId ∈ L → Stays q last w'.store w'.clock request.requestId (Open client limits w'.clock)
        | .error e => e.isCost = false) w l := by
  simp only [confirm, confirmRequestInQueue, stamped, Act.abides_bind, Act.abides_update]
  refine (Act.abides_call (c := Call.confirmRequest request.requestId since)).mpr ⟨trivial, ?_⟩
  intro reply w' answers
  have kept : Amid q client limits last L w' rest request ∧
      Skips q client limits w' { l with confirmation := .sent } :=
    robust_amid.answers (l := { l with confirmation := .sent }) (fun _ => rfl)
      (fun _ _ s _ => confirmRequest_touch s _ _) answers
      holding.1
  cases reply with
  | error e => exact ⟨kept, by rw [answers_error answers]; rfl⟩
  | ok confirmed =>
    obtain ⟨w₁, now, fate, outlook, around, order, before, -, -, run⟩ := answers
    have waited : Aside q last w₁ { w₁ with store := w₁.store, clock := now } :=
      .elsewhere order before (Keeps.refl _ _ _)
    have held := (holding_still.run (around.tail waited) holding).2
    obtain ⟨reply, rfl⟩ := Prod.mk.inj run
    split at reply
    · rename_i answered
      have took : (decide (fate ≠ Fate.failedBefore) ||
          (Call.confirmRequest request.requestId since).isLocal) = true := by
        rcases answered with rfl | inside
        · rfl
        · cases inside
      simp only [took, if_true]
      cases confirmed with
      | true =>
        refine ⟨?_, ?_⟩
        · simpa only [took, if_true] using kept
        · intro member
          rcases confirmRequest_cases q w₁.store request.requestId since now with nothing | ⟨h, -, -, -, -, run⟩
          · simp [Call.exec, nothing] at reply
          · change Stays q last (confirmRequest q w₁.store request.requestId (fin since) now).2 now request.requestId Shut
            rw [run]
            refine (held member).erase ?_
            rintro h ⟨status, -, -, -⟩
            exact ⟨(AList.lookup_erase_ne (by decide)).trans status, AList.lookup_erase _ h⟩
      | false =>
        refine ⟨?_, ?_⟩
        · exact ⟨by simpa only [took, if_true] using kept.1, by simpa only [took, if_true, Skips] using kept.2⟩
        · intro member
          rcases confirmRequest_cases q w₁.store request.requestId since now with nothing | ⟨h, -, -, -, -, run⟩
          · change Stays q last (confirmRequest q w₁.store request.requestId (fin since) now).2 now request.requestId _
            rw [nothing]
            obtain ⟨h, item, status, stamp, -⟩ := (held member).item
            have lapsed := confirmRequest_refused item status stamp (by rw [nothing])
            rw [stamp] at lapsed
            refine (held member).mono ?_
            rintro h' ⟨status', stamp', reads, payable⟩
            exact ⟨by simp [claimable, status', stamp', lapsed], reads, payable⟩
          · simp [Call.exec, run] at reply
    · cases reply

theorem resumes_carries {x : Pass Unit} (carries : Carries q client limits last L I x)
    (resumes : ∀ l w, I l w → Resumes q client limits last L l w) (holds : I l w) :
    (do
      x
      pure .next : Pass Flow).Abides (loneWorld q client limits last L)
        (Leaves q client limits last L request) w l := by
  rw [Act.abides_bind]
  refine (carries w l holds).mono ?_
  rintro out l' w' ⟨holds, blameless⟩
  cases out with
  | ok done => exact resumes l' w' holds
  | error e =>
    intro blames
    rw [blameless e rfl] at blames
    cases blames

/-- The next of the line is handed over. -/
theorem Amid.handOver (amid : Amid q client limits last L w rest request)
    (shut : request.requestId ∈ L → Stays q last w.store w.clock request.requestId Shut) :
    ∃ rest', InLine q client limits last L { w with handed := request.requestId :: w.handed } rest' none := by
  by_cases member : request.requestId ∈ L
  · obtain ⟨⟨behind, rfl⟩, -⟩ := amid.front member
    have inLine := amid.inLine
    have later : request.requestId ∉ behind := by
      have nodup := inLine.handed ▸ inLine.nodup
      exact (List.nodup_cons.mp (List.nodup_append.mp nodup).2.1).1
    refine ⟨behind, { inLine with handed := ?_, shut := ?_, waits := ?_ }⟩
    · simpa [List.filter_append, member] using inLine.handed
    · intro id there gone
      by_cases same : id = request.requestId
      · subst same
        exact shut member
      · exact inLine.shut id there fun old => (List.mem_cons.mp old).elim same gone
    · intro id there _
      refine inLine.waits id (List.mem_cons_of_mem _ there) ?_
      rintro ⟨⟩
      exact later there
  · refine ⟨rest, { amid.free member with handed := ?_ }⟩
    simpa [List.filter_append, member] using amid.inLine.handed

theorem ready_allowed (amid : Amid q client limits last L w rest request) (isThawRequest : Bool) :
    (loneWorld q client limits last L).allows w (.requestReady (requestMetadata request isThawRequest)) := by
  change (request.requestId :: w.handed).reverse.filter (· ∈ L) <+: L
  rw [List.reverse_cons, List.filter_append]
  by_cases member : request.requestId ∈ L
  · obtain ⟨⟨behind, rfl⟩, -⟩ := amid.front member
    refine ⟨behind, ?_⟩
    simpa [member] using amid.inLine.handed
  · refine ⟨rest, ?_⟩
    simpa [member] using amid.inLine.handed

/-- The way out of the loop of a claim that got its turn. -/
theorem dispatch_abides (stamped : request.claimedAt = some since)
    (holding : Holding q client limits last since L rest request l w) :
    (client.dispatch request).Abides (loneWorld q client limits last L)
      (Leaves q client limits last L request) w l := by
  have blameless_leaves : ∀ {e : DrainError} {l : PassLocals} {w : Scene}, e.isCost = false →
      Leaves q client limits last L request (.error e) l w := by
    intro e l w blameless blames
    rw [blameless] at blames
    cases blames
  -- An entry a re-read found gone is none of the line: its claim is handed back and the pass goes on.
  have gone : ∀ w l, Amid q client limits last L w rest request ∧
      Skips q client limits w l → request.requestId ∉ L →
      (do
        client.releaseGoneClaim request
        pure .next : Pass Flow).Abides (loneWorld q client limits last L)
          (Leaves q client limits last L request) w l := by
    intro w l holds unlisted
    exact resumes_carries (releaseGoneClaim_carries fun _ => resumes_still) (fun _ _ resumes => resumes)
      ⟨rest, holds.1.free unlisted, holds.2⟩
  unfold dispatch
  rw [Act.abides_bind]
  refine (foundGone_abides holding).mono ?_
  rintro out l w ⟨holding, absent, blameless⟩
  cases out with
  | error e => exact blameless_leaves (blameless e rfl)
  | ok found =>
    cases found with
    | true => exact gone w l holding.1 (absent rfl)
    | false =>
      dsimp only
      rw [if_neg Bool.false_ne_true, Act.abides_bind]
      refine (confirm_abides stamped holding).mono ?_
      rintro out l w ⟨⟨amid, skips⟩, told⟩
      cases out with
      | error e => exact blameless_leaves told
      | ok confirmed =>
        cases confirmed with
        | true =>
          simp only [not_true_eq_false, if_false, Act.abides_bind, Act.abides_locals]
          refine (Act.abides_call (c := Call.requestReady (requestMetadata request l.isThawRequest))).mpr
            ⟨ready_allowed amid _, ?_⟩
          intro reply w' answers
          cases reply with
          | error e => exact blameless_leaves (by rw [answers_error answers]; rfl)
          | ok done =>
            obtain ⟨w₁, now, fate, outlook, around, order, before, -, -, run⟩ := answers
            have waited : Aside q last w₁ { w₁ with store := w₁.store, clock := now } :=
              .elsewhere order before (Keeps.refl _ _ _)
            have shut := (stays_still.run (around.tail waited) ⟨amid.inLine.before, amid.known, told⟩).2.2
            obtain ⟨rest', inLine⟩ := (amid_still.run (around.tail waited) amid).handOver shut
            have skips := skips_still.run (around.tail waited) skips
            obtain ⟨reply, rfl⟩ := Prod.mk.inj run
            split at reply
            · rename_i answered
              have took : (decide (fate ≠ Fate.failedBefore) ||
                  (Call.requestReady (requestMetadata request l.isThawRequest)).isLocal) = true := by
                rcases answered with rfl | inside
                · rfl
                · cases inside
              simp only [took, if_true]
              exact ⟨rest', inLine, skips⟩
            · cases reply
        | false =>
          simp only [Bool.false_eq_true, not_false_eq_true, if_true, Act.abides_bind]
          have resumes : Resumes q client limits last L l w := ⟨rest, amid.reopened told, skips⟩
          refine (foundGone_carries (I := Resumes q client limits last L) (fun _ => resumes_still) w l resumes).mono ?_
          rintro out l w ⟨resumes, blameless⟩
          cases out with
          | error e => exact blameless_leaves (blameless e rfl)
          | ok found =>
            cases found with
            | true =>
              exact resumes_carries (releaseGoneClaim_carries fun _ => resumes_still)
                (fun _ _ resumes => resumes) resumes
            | false => exact resumes

theorem leaves_blameless {e : DrainError} (blameless : e.isCost = false) :
    Leaves q client limits last L request (.error e) l w := by
  intro blames
  rw [blameless] at blames
  cases blames

theorem takeTurn_abides (shared : client.usesGrantIsolation = false) (stamped : request.claimedAt = some since)
    (holding : Holding q client limits last since L rest request l w) :
    (client.takeTurn request).Abides (loneWorld q client limits last L)
      (Leaves q client limits last L request) w l := by
  unfold takeTurn
  rw [Act.abides_bind]
  refine (tryAcquireTurn_abides (I := Holding q client limits last since L rest request) (fun _ => holding_still) holding).mono ?_
  rintro out l w ⟨holding, blames⟩
  cases out with
  | error e => exact fun blamed => ⟨blames e rfl blamed, rest, holding.1⟩
  | ok acquired =>
    cases acquired with
    | true => exact dispatch_abides stamped holding
    | false =>
      refine returned_abides holding.1.1 holding.1.2 ?_
      intro w l _ _
      rw [afterDecline_stops shared]
      trivial

/-- A nomination leaves the claim the pass's own. -/
theorem Own.thaw {frozenGrantsKey : String} (avoid : frozenGrantsKey ∉ q.keys)
    (own : Own q client limits last since L request w) (grantId : String) (anyGrant : Bool) :
    Own q client limits last since L request { w with
      store := (tryStartThawRequest q w.store frozenGrantsKey request.requestId grantId anyGrant w.clock).2 } := by
  intro member
  obtain ⟨u, joined, run⟩ := tryStartThawRequest_run avoid w.store request.requestId grantId anyGrant w.clock
  have there : Stays q last u w.clock request.requestId (Held client limits since) :=
    (own member).congr (joined.live _ (QueueKeys.metadataKey_mem _))
  change Stays q last (tryStartThawRequest q w.store frozenGrantsKey request.requestId grantId anyGrant w.clock).2 w.clock _ _
  rw [run]
  split
  · exact there
  · split
    · exact there
    · refine there.write ?_
      rintro h ⟨status, stamp, reads, payable⟩
      have other : ∀ field : String, field ≠ "isThawRequest" →
          (withFields h [("isThawRequest", flagField true)]).lookup field = h.lookup field := by
        intro field ne
        exact AList.lookup_insert_ne ne
      refine ⟨(other _ (by decide)).trans status, (other _ (by decide)).trans stamp, ?_, ?_⟩
      · exact ((Whole.of_toQueued reads).congr (other _ (by decide)) (other _ (by decide)) (other _ (by decide))).toQueued
          ((other _ (by decide)).trans status) (by decide)
      · rw [other _ (by decide)]
        exact payable

theorem holding_thaw {grantId : String} {anyGrant : Bool} {reply : Except DrainError Bool}
    (answers : (loneWorld q client limits last L).answers w (.tryStartThawRequest request.requestId grantId anyGrant) reply w')
    (holding : Holding q client limits last since L rest request l w) :
    Holding q client limits last since L rest request l w' := by
  obtain ⟨w₁, now, fate, outlook, around, order, before, apart, -, run⟩ := answers
  have waited : Aside q last w₁ { w₁ with store := w₁.store, clock := now } :=
    .elsewhere order before (Keeps.refl _ _ _)
  have holding := holding_still.run (around.tail waited) holding
  obtain ⟨-, rfl⟩ := Prod.mk.inj run
  simp only [Scene.handedAfter, ite_self]
  split
  · have touch : Touch q now request.requestId w₁.store
        (tryStartThawRequest q w₁.store client.frozenGrantsKey request.requestId grantId anyGrant now).2 :=
      tryStartThawRequest_touch apart w₁.store request.requestId grantId anyGrant
    change Holding q client limits last since L rest request l { w₁ with
      store := (tryStartThawRequest q w₁.store client.frozenGrantsKey request.requestId grantId anyGrant now).2
      clock := now }
    have own := holding.2.thaw apart grantId anyGrant
    exact ⟨⟨holding.1.1.touch touch, holding.1.2.touch touch⟩, own⟩
  · exact holding

theorem admission_abides (shared : client.usesGrantIsolation = false) (stamped : request.claimedAt = some since)
    (holding : Holding q client limits last since L rest request l w) :
    (client.admission request).Abides (loneWorld q client limits last L)
      (Leaves q client limits last L request) w l := by
  unfold admission
  rw [Act.abides_bind]
  refine Act.abides_call.mpr ⟨trivial, ?_⟩
  intro reply w' answers
  have holding := holding_still.run (answers_aside rfl answers) holding
  cases reply with
  | error e => exact leaves_blameless (by rw [answers_error answers]; rfl)
  | ok res =>
    dsimp only
    by_cases free : res.canProcess = true
    · rw [if_neg (not_not.mpr free)]
      by_cases thaw : res.isThawRequest = true
      · rw [if_pos thaw, Act.abides_bind]
        refine Act.abides_call.mpr ⟨trivial, ?_⟩
        intro reply w' answers
        cases reply with
        | error e => exact leaves_blameless (by rw [answers_error answers]; rfl)
        | ok started =>
          have holding := holding_thaw answers holding
          cases started with
          | true =>
            dsimp only
            rw [if_pos rfl, Act.abides_bind]
            exact takeTurn_abides shared stamped holding
          | false =>
            dsimp only
            rw [if_neg Bool.false_ne_true]
            exact returned_abides holding.1.1 holding.1.2 fun _ _ _ _ => trivial
      · rw [if_neg thaw]
        exact takeTurn_abides shared stamped holding
    · rw [if_pos free]
      exact declineFrozen_abides shared holding.1.1 holding.1.2 _

/-- The way out of a failure: past a claim whose cost it was, out of the loop for any other. -/
theorem recover_abides {error : DrainError} (left : Leaves q client limits last L request (.error error) l w) :
    (client.recover request error).Abides (loneWorld q client limits last L)
      (fun out l w => out = .ok .next → Resumes q client limits last L l w) w l := by
  have over_ : ∀ {out : Except DrainError Flow} {l : PassLocals} {w : Scene},
      Leaves q client limits last L request out l w →
      out = .ok .next → Resumes q client limits last L l w := by
    rintro _ l w left rfl
    exact left
  have stops : error.isCost = false → (client.recover request error).Abides (loneWorld q client limits last L)
      (fun out _ _ => out ≠ .ok .next) w l := by
    intro blameless
    unfold recover
    rw [Act.abides_bind]
    refine ((Carries.tryCatch (returnToQueue_carries robust_true) fun _ => .pure _ :
      Carries q client limits last L (fun _ _ => True) _) w l trivial).mono ?_
    rintro out l' w' -
    cases out with
    | error e => nofun
    | ok done =>
      cases error with
      | requestCost problem => cases blameless
      | invalidRequestCost => cases blameless
      | clientFrozen =>
        dsimp only
        rw [Act.abides_bind]
        have calm : Carries q client limits last L (fun _ _ => True)
            (client.scheduleDrainForFreeze none request.grantId) :=
          scheduleDrainForFreeze_carries (fun _ _ _ _ _ => trivial) _ _
        refine (calm w' l' trivial).mono ?_
        rintro out l w -
        cases out <;> nofun
      | unusableRateLimit => nofun
      | failed => nofun
  cases blames : error.isCost with
  | false => exact (stops blames).mono fun out l w other next => absurd next other
  | true =>
    obtain ⟨unpayable, rest, amid, skips⟩ := left blames
    unfold recover
    rw [Act.abides_bind]
    refine ((Carries.tryCatch (returnToQueue_carries robust_amid) fun _ => .pure _ :
      Carries q client limits last L _ _) w l ⟨amid, skips⟩).mono ?_
    rintro out l' w' ⟨⟨amid, skips⟩, -⟩
    cases out with
    | error e => nofun
    | ok done =>
      cases error with
      | requestCost problem =>
        exact (stepOver_abides amid skips unpayable (failUnsatisfiable_carries amid.plain (amid.unlisted unpayable))).mono
          fun _ _ _ left => over_ left
      | invalidRequestCost =>
        by_cases mine : request.ownerId = client.instanceId
        · simp only [if_pos mine]
          exact (stepOver_abides amid skips unpayable (failWaiter_carries amid.plain (amid.unlisted unpayable))).mono
            fun _ _ _ left => over_ left
        · simp only [if_neg mine]
          exact (stepOver_abides amid skips unpayable (.pure ())).mono fun _ _ _ left => over_ left
      | clientFrozen => cases blames
      | unusableRateLimit => cases blames
      | failed => cases blames

theorem serve_abides (shared : client.usesGrantIsolation = false) (stamped : request.claimedAt = some since)
    (holding : Holding q client limits last since L rest request l w) :
    (client.serve request).Abides (loneWorld q client limits last L)
      (fun out l w => out = .ok .next → Resumes q client limits last L l w) w l := by
  simp only [serve, Act.abides_bind, Act.abides_update, Act.abides_tryCatch]
  have holding : Holding q client limits last since L rest request
      { l with confirmation := .unsent, isThawRequest := request.isThawRequest } w := holding
  refine (admission_abides shared stamped holding).mono ?_
  intro out l w left
  cases out with
  | ok flow =>
    rintro ⟨⟩
    exact left
  | error e => exact recover_abides left

end Claims

section Turns

variable {q : QueueKeys} {client : Client} {limits : Limits} {last : ℚ} {L rest : List String}
    {w w' : Scene} {l : PassLocals}
  {id other : String}

/-- In a list without repeats nothing stands both before and after another. -/
theorem mem_takeWhile_of_ahead {p : String → Bool} {members ahead behind : List String}
    (listed : members.filter p = ahead ++ other :: behind)
    (nodup : (ahead ++ other :: behind).Nodup) (later : id ∈ behind) :
    other ∈ members.takeWhile (· ≠ id) := by
  obtain ⟨-, nodup, apart⟩ := List.nodup_append.mp nodup
  have differ : other ≠ id := by
    rintro rfl
    exact (List.nodup_cons.mp nodup).1 later
  have member : id ∈ members.filter p := by simp [listed, later]
  obtain ⟨member, kept⟩ := List.mem_filter.mp member
  have split := List.takeWhile_append_dropWhile (p := fun x => decide (x ≠ id)) (l := members)
  cases tail : members.dropWhile fun x => decide (x ≠ id) with
  | nil =>
    rw [tail, List.append_nil] at split
    rw [← split] at member
    exact absurd (List.mem_takeWhile_imp member) (by simp)
  | cons head rest =>
    have here : head = id := by
      have first := List.head?_dropWhile_not (fun x => decide (x ≠ id)) members
      rw [tail] at first
      simpa using first
    subst here
    rw [← split, tail, List.filter_append, List.filter_cons_of_pos kept] at listed
    rcases List.append_eq_append_iff.mp listed with ⟨more, rfl, tail'⟩ | ⟨more, ahead', tail'⟩
    · cases more with
      | nil => exact absurd (List.cons.inj tail').1.symm differ
      | cons first more =>
        obtain ⟨rfl, -⟩ := List.cons.inj tail'
        exact absurd rfl (apart head (by simp) head (List.mem_cons_of_mem _ later))
    · cases more with
      | nil => exact absurd (List.cons.inj tail').1 differ
      | cons first more =>
        obtain ⟨rfl, -⟩ := List.cons.inj tail'
        have there : other ∈ (members.takeWhile fun x => decide (x ≠ head)).filter p := by
          rw [ahead']
          simp
        exact (List.mem_filter.mp there).1

/-- What a claim passes over is not waiting. -/
theorem passed_over (skips : Skips q client limits w l)
    (next : nextId q w.store [] l.skippedRequestIds w.clock = some id)
    (ahead : other ∈ (w.store.sorted q.queueKey w.clock).takeWhile (· ≠ id)) :
    other ∉ waiting q client limits w.store w.clock := by
  intro waits
  obtain ⟨may, before, after, split, refused⟩ := List.find?_eq_some_iff_append.mp next
  have early : other ∈ before := by
    rw [split] at ahead
    have apart : ∀ x ∈ before, decide (x ≠ id) = true := by
      intro x member
      refine decide_eq_true ?_
      rintro rfl
      have := refused x member
      simp [may] at this
    rw [List.takeWhile_append_of_pos apart] at ahead
    simpa using ahead
  have refused := refused other early
  obtain ⟨-, free⟩ := List.mem_filter.mp waits
  simp only [Bool.and_eq_true] at free
  obtain ⟨may', payable⟩ := free
  simp only [mayHandOut, List.not_mem_nil, not_false_eq_true, decide_true, Bool.true_and, Bool.or_true,
    Bool.and_true] at may' refused
  have skipped : other ∈ l.skippedRequestIds := by
    by_contra unskipped
    simp [unskipped, may'] at refused
  cases found : q.item w.store w.clock other with
  | none => simp [found] at payable
  | some h =>
    rw [found] at payable
    have never := (skips.2 other skipped).2.2 h found
    simp only [Option.elim_some] at payable
    rw [never] at payable
    cases payable

/-- An entry of the line that is claimed is the first of what is left. -/
theorem InLine.front (inLine : InLine q client limits last L w rest none) (skips : Skips q client limits w l)
    (next : nextId q w.store [] l.skippedRequestIds w.clock = some id) (member : id ∈ L) :
    ∃ behind, rest = id :: behind := by
  obtain ⟨h, held, free, -, -⟩ := getNextRequest_of_some next
  have listed : id ∈ w.store.sorted q.queueKey w.clock := List.mem_of_find?_eq_some next
  have line : (w.store.sorted q.queueKey w.clock).filter (· ∈ L) = L := by
    rcases inLine.line with all | none_
    · exact all
    · have there : id ∈ (w.store.sorted q.queueKey w.clock).filter (· ∈ L) := by simp [listed, member]
      rw [none_] at there
      cases there
  have waits : id ∈ rest := by
    by_contra gone
    obtain ⟨h', item, status, stamp⟩ := (inLine.shut id member gone).item
    cases held.symm.trans item
    rw [status, stamp] at free
    simp [claimable, claimLapsed_none] at free
  cases shape : rest with
  | nil =>
    rw [shape] at waits
    cases waits
  | cons other behind =>
    rw [shape] at waits
    rcases List.mem_cons.mp waits with rfl | later
    · exact ⟨behind, rfl⟩
    · exfalso
      have split := inLine.handed
      rw [shape] at split
      have ahead := mem_takeWhile_of_ahead (line.trans split.symm) (by rw [split]; exact inLine.nodup) later
      refine passed_over skips next ahead ?_
      obtain ⟨h', item, free, reads, payable⟩ := (inLine.waits other (by simp [shape]) (by simp)).item
      refine List.mem_filter.mpr ⟨List.takeWhile_subset _ ahead, ?_⟩
      have item' := item
      unfold QueueKeys.item at item'
      simp [mayHandOut, item, item', free, reads, payable]

theorem toQueued_cost {h : Fields} {request : QueuedRequest} (read : toQueued h = some request) :
    request.cost = parseStoredCost (h.lookup "cost") := by
  simp only [toQueued, Option.bind_eq_bind, Option.bind_eq_some_iff, Option.some.injEq] at read
  obtain ⟨_, -, _, -, _, -, _, -, rfl⟩ := read
  rfl

/-- A claim of the pass's own, of an entry it may go on with. -/
theorem Resumes.hold {h : Fields} {request : QueuedRequest} (inLine : InLine q client limits last L w rest none)
    (skips : Skips q client limits w l) (next : nextId q w.store [] l.skippedRequestIds w.clock = some id)
    (held : q.item w.store w.clock id = some h)
    (read : toQueued (withFields h (claimFields h w.clock)) = some request) :
    request.claimedAt = some w.clock ∧ Holding q client limits last w.clock L rest request l
      { w with store := w.store.setFields (q.metadataKey id) w.clock (claimFields h w.clock) } := by
  have listed : id ∈ w.store.sorted q.queueKey w.clock := List.mem_of_find?_eq_some next
  have plain : PlainId id := by
    obtain ⟨z, found, member⟩ := State.mem_sorted.mp listed
    exact inLine.tidy.members z found id member
  obtain ⟨name, stamp, -⟩ := toQueued_claimFields read (inLine.tidy.named id h plain held)
  subst name
  refine ⟨stamp, ?_⟩
  have avoid : ∀ f ∈ claimFields h w.clock, f.1 ≠ "requestId" ∧ f.1 ≠ "cost" := by
    intro f member
    simp only [claimFields, List.mem_append, List.mem_cons, List.not_mem_nil, or_false] at member
    rcases member with cleared | rfl | rfl
    · split at cleared
      · cases cleared
      · cases List.mem_singleton.mp cleared
        exact ⟨(by decide : "isThawRequest" ≠ "requestId"), (by decide : "isThawRequest" ≠ "cost")⟩
    · exact ⟨(by decide : "status" ≠ "requestId"), (by decide : "status" ≠ "cost")⟩
    · exact ⟨(by decide : "claimedAt" ≠ "requestId"), (by decide : "claimedAt" ≠ "cost")⟩
  have touch : Touch q w.clock request.requestId w.store
      (w.store.setFields (q.metadataKey request.requestId) w.clock (claimFields h w.clock)) := .write held avoid
  have cost : request.cost = parseStoredCost (h.lookup "cost") := by
    rw [toQueued_cost read, withFields_lookup_ne fun f member => (avoid f member).2]
  have front := inLine.front skips next
  have busy : InLine q client limits last L w rest (some request.requestId) :=
    { inLine with waits := fun id member _ => inLine.waits id member (by simp) }
  have amid : Amid q client limits last L w rest request := by
    refine ⟨busy, plain, inLine.known _ listed, ?_, ?_⟩
    · intro h' found
      cases held.symm.trans found
      exact cost.symm
    · intro member
      obtain ⟨behind, shape⟩ := front member
      refine ⟨⟨behind, shape⟩, ?_⟩
      obtain ⟨h', item, -, -, payable⟩ := (inLine.waits request.requestId (by simp [shape]) (by simp)).item
      cases held.symm.trans item
      rw [cost]
      exact payable
  refine ⟨⟨amid.touch touch, skips.touch touch⟩, ?_⟩
  intro member
  obtain ⟨behind, shape⟩ := front member
  have waits := inLine.waits request.requestId (by simp [shape]) (by simp)
  obtain ⟨h', item, -⟩ := waits.item
  cases held.symm.trans item
  have itself : Stays q last w.store w.clock request.requestId fun h' => h' = h ∧
      Open client limits w.clock h' := by
    obtain ⟨e, h'', live, lasts, hash, open_⟩ := waits
    have same : q.item w.store w.clock request.requestId = some h'' := by
      rw [QueueKeys.item, State.hash, live, Option.bind_some, hash]
    exact ⟨e, h'', live, lasts, hash, Option.some.inj (same.symm.trans held), open_⟩
  refine itself.write ?_
  rintro h' ⟨rfl, -, reads, payable⟩
  refine ⟨by simp [claimFields, withFields, AList.lookup_insert_ne], by simp [claimFields, withFields], by simp [read], ?_⟩
  rw [withFields_lookup_ne fun f member => (avoid f member).2]
  exact payable

theorem drainOnce_abides (shared : client.usesGrantIsolation = false)
    (resumes : Resumes q client limits last L l w) :
    client.drainOnce.Abides (loneWorld q client limits last L)
      (fun out l w => out = .ok .next → Resumes q client limits last L l w) w l := by
  have unblocked : [] ++ l.blockedGrantIds = [] := by
    obtain ⟨rest, -, skips⟩ := resumes
    rw [skips.1, List.append_nil]
  have frozen : client.getFrozenGrantIds = pure [] := by simp [getFrozenGrantIds, shared]
  unfold drainOnce
  rw [frozen]
  simp only [Act.abides_bind, Act.abides_pure, Act.abides_locals]
  refine Act.abides_call.mpr ⟨?_, ?_⟩
  · intro w₁ now around order before
    have waited : Aside q last w₁ { w₁ with store := w₁.store, clock := now } :=
      .elsewhere order before (Keeps.refl _ _ _)
    obtain ⟨rest, inLine, skips⟩ := resumes_still.run (around.tail waited) resumes
    rintro ⟨id, next, other, ahead, waits⟩
    rw [unblocked] at next
    exact passed_over skips next ahead waits
  · rintro reply w' ⟨w₁, now, fate, outlook, around, order, before, -, -, run⟩
    have waited : Aside q last w₁ { w₁ with store := w₁.store, clock := now } :=
      .elsewhere order before (Keeps.refl _ _ _)
    obtain ⟨rest, inLine, skips⟩ := resumes_still.run (around.tail waited) resumes
    obtain ⟨reply', rfl⟩ := Prod.mk.inj run
    cases reply with
    | error e =>
      intro goes
      cases goes
    | ok found =>
      cases found with
      | none =>
        intro goes
        cases goes
      | some request =>
        split at reply'
        · rename_i answered
          have took : (decide (fate ≠ Fate.failedBefore) ||
              (Call.getNextRequest ([] ++ l.blockedGrantIds) l.skippedRequestIds).isLocal) = true := by
            rcases answered with rfl | inside
            · rfl
            · cases inside
          simp only [took, if_true]
          simp only [Call.exec, unblocked] at reply' ⊢
          cases next : nextId q w₁.store [] l.skippedRequestIds now with
          | none =>
            rw [getNextRequest_of_none next] at reply'
            cases reply'
          | some id =>
            obtain ⟨h, held, -, -, run⟩ := getNextRequest_of_some next
            rw [run] at reply' ⊢
            obtain ⟨stamp, holding⟩ := Resumes.hold inLine skips next held (Except.ok.inj reply').symm
            exact serve_abides shared stamp holding
        · cases reply'

/-- Round after round a lone pass goes on in order. -/
theorem lone_round (shared : client.usesGrantIsolation = false) (resumes : Resumes q client limits last L l w) :
    (client.round l).Abides (loneWorld q client limits last L)
      (fun o w => ∀ l, o = some l → Resumes q client limits last L l w) w := by
  refine Program.abides_bind.mpr ?_
  refine Program.Abides.mono ?_ (drainOnce_abides shared resumes)
  rintro ⟨out, l'⟩ w' resumes
  cases out with
  | error e => nofun
  | ok flow =>
    cases flow with
    | next =>
      rintro l ⟨⟩
      exact resumes rfl
    | stop => nofun

end Turns

end Dianemo
