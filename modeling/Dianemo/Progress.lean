import Dianemo.Dispatch
import Dianemo.Library.Worlds

namespace Dianemo

open JsNumber Resumption

/-- The store and the clock a pass calls into. -/
structure Backend where
  store : State
  clock : ℚ

/-- An entry that could be handed out at some instant before the horizon. -/
def Ready (horizon : ℚ) (h : Fields) : Prop :=
  ∃ t < horizon, claimable (h.lookup "status") (h.lookup "claimedAt") t = true

/-- What else happens adds no entry and makes none ready that was not. -/
structure Meanwhile (q : QueueKeys) (horizon : ℚ) (w w' : Backend) : Prop where
  entries : ∀ id h', q.item w'.store w'.clock id = some h' → ∃ h, q.item w.store w.clock id = some h ∧
    h'.lookup "requestId" = h.lookup "requestId" ∧ h'.lookup "grantId" = h.lookup "grantId" ∧
      (Ready horizon h' → Ready horizon h)
  queued : ∀ id ∈ w'.store.sorted q.queueKey w'.clock, id ∈ w.store.sorted q.queueKey w.clock

/-- The backend a pass calls into before the horizon. No call fails; between two
calls the others on the queue only take entries, or let them go. -/
def quietWorld (q : QueueKeys) (client : Client) (horizon : ℚ) : World Call Reply DrainError Backend where
  allows _ _ := True
  answers w c reply w' := ∃ s outlook r, w.clock ≤ w'.clock ∧ w'.clock < horizon ∧
    Meanwhile q horizon w ⟨s, w'.clock⟩ ∧ c.Apart q client w'.clock s ∧ reply = .ok r ∧
      c.exec q client outlook w'.clock s = (.ok r, w'.store)

section Ready

variable {q : QueueKeys} {horizon now t : ℚ} {h h' : Fields} {w w' w'' : Backend} {s s' : State} {id : String}

namespace Meanwhile

theorem refl (q : QueueKeys) (horizon : ℚ) (w : Backend) : Meanwhile q horizon w w where
  entries _ h' held := ⟨h', held, rfl, rfl, fun ready => ready⟩
  queued _ member := member

theorem trans (first : Meanwhile q horizon w w') (second : Meanwhile q horizon w' w'') :
    Meanwhile q horizon w w'' where
  entries id h'' held := by
    obtain ⟨h', held', name', grant', ready'⟩ := second.entries id h'' held
    obtain ⟨h, held, name, grant, ready⟩ := first.entries id h' held'
    exact ⟨h, held, name'.trans name, grant'.trans grant, fun r => ready (ready' r)⟩
  queued id member := first.queued id (second.queued id member)

/-- A call that leaves the entries and the queue as they are. -/
theorem of_same (items : q.item s' now = q.item s now)
    (sorted : s'.sorted q.queueKey now = s.sorted q.queueKey now) :
    Meanwhile q horizon ⟨s, now⟩ ⟨s', now⟩ where
  entries id h' held := ⟨h', by rw [← items]; exact held, rfl, rfl, fun ready => ready⟩
  queued id member := by rw [← sorted]; exact member

theorem of_keeps (keeps : Keeps q.keys now s s') : Meanwhile q horizon ⟨s, now⟩ ⟨s', now⟩ :=
  of_same (item_keeps keeps) (State.sorted_congr (keeps.live _ QueueKeys.queueKey_mem))

/-- A write to one entry that makes it no readier. -/
theorem of_update (held : q.item s now id = some h)
    (items : q.item s' now = Function.update (q.item s now) id (some h'))
    (sorted : s'.sorted q.queueKey now = s.sorted q.queueKey now)
    (name : h'.lookup "requestId" = h.lookup "requestId")
    (grant : h'.lookup "grantId" = h.lookup "grantId") (ready : Ready horizon h' → Ready horizon h) :
    Meanwhile q horizon ⟨s, now⟩ ⟨s', now⟩ where
  entries other h'' found := by
    rw [items] at found
    by_cases same : other = id
    · subst same
      rw [Function.update_self] at found
      cases found
      exact ⟨h, held, name, grant, ready⟩
    · rw [Function.update_of_ne same] at found
      exact ⟨h'', found, rfl, rfl, fun ready => ready⟩
  queued _ member := by rw [← sorted]; exact member

end Meanwhile

/-- What a pass and the others leave after a while without a write-back. -/
structure Later (q : QueueKeys) (horizon : ℚ) (w w' : Backend) : Prop where
  clock : w.clock ≤ w'.clock
  meanwhile : Meanwhile q horizon w w'

theorem Later.refl (q : QueueKeys) (horizon : ℚ) (w : Backend) : Later q horizon w w := ⟨le_rfl, .refl q horizon w⟩

theorem Later.trans {w w' w'' : Backend} (first : Later q horizon w w') (second : Later q horizon w' w'') :
    Later q horizon w w'' := ⟨first.clock.trans second.clock, first.meanwhile.trans second.meanwhile⟩

/-- A claim made within a lease of the horizon keeps its entry until then. -/
theorem not_ready_claimed (early : horizon ≤ now + queueClaimLeaseMs) :
    ¬ Ready horizon (withFields h (claimFields h now)) := by
  rintro ⟨t, before, may⟩
  have status : (withFields h (claimFields h now)).lookup "status" = some (.text "inProgress") := by
    simp [claimFields, withFields, AList.lookup_insert_ne]
  have stamp : (withFields h (claimFields h now)).lookup "claimedAt" = some (.num (fin now)) := by
    simp [claimFields, withFields]
  simp [claimable, status, stamp, claimLapsed, parseStoredNumber] at may
  linarith

theorem not_ready_confirmed (status : h.lookup "status" = some (.text "inProgress")) :
    ¬ Ready horizon (h.erase "claimedAt") := by
  rintro ⟨t, -, may⟩
  have kept : (h.erase "claimedAt").lookup "status" = some (.text "inProgress") := by
    rw [AList.lookup_erase_ne (by decide), status]
  simp [claimable, kept, claimLapsed, parseStoredNumber] at may
  exact Bool.false_ne_true may

theorem sorted_setFields (s : State) (id : String) (now : ℚ) (fields : List (String × Field)) :
    (s.setFields (q.metadataKey id) now fields).sorted q.queueKey now = s.sorted q.queueKey now :=
  State.sorted_congr (State.setFields_live_ne (QueueKeys.metadataKey_ne id).symm s now fields)

theorem sorted_eraseField (s : State) (id field : String) (now : ℚ) :
    (s.eraseField (q.metadataKey id) now field).sorted q.queueKey now = s.sorted q.queueKey now :=
  State.sorted_congr (State.live_congr (State.eraseField_store_ne (QueueKeys.metadataKey_ne id).symm s field) now)

theorem mem_sorted_dropIfEmpty (member : id ∈ (s.dropIfEmpty q.queueKey).sorted q.queueKey now) :
    id ∈ s.sorted q.queueKey now := by
  obtain ⟨z, held, among⟩ := State.mem_sorted.mp member
  rcases State.zset_dropIfEmpty s q.queueKey now with gone | same
  · rw [gone] at held
    cases held
  · exact State.mem_sorted.mpr ⟨z, same ▸ held, among⟩

theorem Meanwhile.removeRequest (s : State) (id : String) (ttl : JsNumber) :
    Meanwhile q horizon ⟨s, now⟩ ⟨(Dianemo.removeRequest q s id ttl now).2, now⟩ where
  entries other h' held := by
    rcases (removeRequest_fewer s id ttl).1 other with gone | same
    · rw [gone] at held
      cases held
    · exact ⟨h', same ▸ held, rfl, rfl, fun ready => ready⟩
  queued other member := by
    have apart : q.queueKey ≠ q.tombstoneKey id := (QueueKeys.tombstoneKey_ne id).symm
    have dropped : other ∈ ((s.eraseScore q.queueKey now id).dropIfEmpty q.queueKey).sorted q.queueKey now := by
      rw [Dianemo.removeRequest] at member
      rwa [State.sorted_congr (State.live_congr (State.put_store_ne apart) now),
        State.sorted_congr (State.live_congr (State.delete_store_ne (QueueKeys.metadataKey_ne id).symm) now)] at member
    obtain ⟨z, held, among⟩ := State.mem_sorted.mp (mem_sorted_dropIfEmpty dropped)
    rw [State.zset_eraseScore, Option.map_eq_some_iff] at held
    obtain ⟨z', held', rfl⟩ := held
    exact State.mem_sorted.mpr ⟨z', held', (AList.mem_erase.mp among).2⟩

/-- No call but a write-back makes an entry ready. -/
theorem Call.exec_meanwhile {client : Client} {c : Call} (early : horizon ≤ now + queueClaimLeaseMs)
    (apart : c.Apart q client now s) (outlook : Outlook) (read : ∀ id updates, c ≠ .updateRequest id updates) :
    Meanwhile q horizon ⟨s, now⟩ ⟨(c.exec q client outlook now s).2, now⟩ := by
  cases c with
  | getNextRequest skipGrantIds skipRequestIds =>
    simp only [Call.exec]
    cases next : nextId q s skipGrantIds skipRequestIds now with
    | none =>
      rw [getNextRequest_of_none next]
      exact .refl q horizon _
    | some id =>
      obtain ⟨h, held, -, -, run⟩ := getNextRequest_of_some next
      rw [run]
      refine .of_update held (item_setFields held _) (sorted_setFields s id now _)
        (lookup_claimFields h now (by decide))
        (lookup_claimFields h now (by decide)) fun ready => absurd ready (not_ready_claimed early)
  | confirmRequest id x =>
    simp only [Call.exec]
    rcases confirmRequest_cases q s id x now with run | ⟨h, held, status, -, -, run⟩
    · rw [run]
      exact .refl q horizon _
    · rw [run]
      refine .of_update held (item_eraseField held _) (sorted_eraseField s id _ now)
        (AList.lookup_erase_ne (by decide))
        (AList.lookup_erase_ne (by decide)) fun ready => absurd ready (not_ready_confirmed status)
  | claim budget => exact .of_keeps apart
  | releaseClaim release => exact .of_keeps apart
  | releaseUnusedAdmission release => exact .of_keeps apart
  | removeRequest id => exact .removeRequest s id _
  | tryStartThawRequest id grantId anyGrant =>
    simp only [Call.exec]
    obtain ⟨u, joined, run⟩ := tryStartThawRequest_run apart s id grantId anyGrant now
    rw [run]
    refine .trans (.of_keeps joined) ?_
    split
    · exact .refl q horizon _
    · split
      · exact .refl q horizon _
      · rename_i there
        obtain ⟨h, held⟩ := Option.ne_none_iff_exists'.mp (by simpa using there)
        refine .of_update held (item_setFields held _) (sorted_setFields u id now _) ?_ ?_ ?_
        · simp [withFields, AList.lookup_insert_ne]
        · simp [withFields, AList.lookup_insert_ne]
        · rintro ⟨t, before, may⟩
          refine ⟨t, before, ?_⟩
          simpa [withFields, AList.lookup_insert_ne] using may
  | updateRequest id updates => exact absurd rfl (read id updates)
  | _ => exact .refl q horizon _

/-- A write-back changes no entry but its own, and adds none. -/
theorem updateRequest_writeBack (held : q.item s now id = some h) (named : h.lookup "requestId" = some (.text id))
    {updates : RequestUpdates} (counts : updates.retries = none ∧ updates.priority = none) :
    q.item (updateRequest q s id updates now) now = Function.update (q.item s now) id (some (updates.apply h)) ∧
      (updateRequest q s id updates now).sorted q.queueKey now = s.sorted q.queueKey now := by
  refine ⟨item_updateRequest held named updates, ?_⟩
  have still : updates.needsScoreUpdate = false := by
    simp [RequestUpdates.needsScoreUpdate, counts.1, counts.2, finiteUpdate]
  unfold QueueKeys.item at held
  rw [updateRequest, held]
  simp only [still, Bool.false_and, Bool.false_eq_true, if_false]
  rw [sorted_setFields]
  cases updates.status with
  | none => rfl
  | some status => rw [writeStatus, sorted_eraseField, sorted_setFields]

theorem RequestUpdates.apply_lookup {field : String} (updates : RequestUpdates)
    (other : field = "requestId" ∨ field = "grantId") : (updates.apply h).lookup field = h.lookup field := by
  have avoid : ∀ f ∈ updates.fields, f.1 ≠ field := by
    intro f member
    simp only [RequestUpdates.fields, List.mem_append, List.mem_map] at member
    rcases member with (⟨_, -, rfl⟩ | ⟨_, -, rfl⟩) | ⟨_, -, rfl⟩ <;> rcases other with rfl | rfl <;> simp
  rw [RequestUpdates.apply, withFields_lookup_ne avoid]
  cases updates.status with
  | none => rfl
  | some status =>
    rcases other with rfl | rfl
    · simp [withFields, AList.lookup_insert_ne]
    · simp [withFields, AList.lookup_insert_ne]

end Ready

section Offers

/-- The grant an entry is for, empty if for none. -/
def grantOf (h : Fields) : String := Field.string (h.lookup "grantId")

open Classical in
/-- The entries that may still be handed out before the horizon, each with its grant. -/
noncomputable def offers (q : QueueKeys) (horizon : ℚ) (w : Backend) : Finset (String × String) :=
  ((w.store.sorted q.queueKey w.clock).filterMap fun id =>
    (q.item w.store w.clock id).bind fun h => if Ready horizon h then some (id, grantOf h) else none).toFinset

/-- Whether a pass goes on past an entry. -/
def PassLocals.skips (l : PassLocals) (offer : String × String) : Prop :=
  offer.1 ∈ l.skippedRequestIds ∨ offer.2 ≠ "" ∧ offer.2 ∈ l.blockedGrantIds

open Classical in
/-- The entries `getNextRequest` can still return to a pass. -/
noncomputable def returnable (q : QueueKeys) (horizon : ℚ) (l : PassLocals) (w : Backend) :
    Finset (String × String) :=
  (offers q horizon w).filter fun offer => ¬ l.skips offer

/-- Every entry is named as its key is. -/
def KeyNamed (q : QueueKeys) (w : Backend) : Prop :=
  ∀ id h, q.item w.store w.clock id = some h → h.lookup "requestId" = some (.text id)

/-- What stays so while a pass has the entry `offer` in hand: nothing is offered that
was not among `known`, and the entry keeps its grant. -/
structure InHand (q : QueueKeys) (horizon : ℚ) (known : Finset (String × String))
    (offer : String × String) (w : Backend) : Prop where
  named : KeyNamed q w
  grant : ∀ h, q.item w.store w.clock offer.1 = some h → grantOf h = offer.2
  offered : offers q horizon w ⊆ known
  among : offer ∈ known
  early : horizon ≤ w.clock + queueClaimLeaseMs

variable {q : QueueKeys} {client : Client} {horizon : ℚ} {w w' : Backend} {known : Finset (String × String)}
  {offer : String × String} {l l' : PassLocals} {c : Call} {id grant : String}

theorem mem_offers : (id, grant) ∈ offers q horizon w ↔ id ∈ w.store.sorted q.queueKey w.clock ∧
    ∃ h, q.item w.store w.clock id = some h ∧ Ready horizon h ∧ grantOf h = grant := by
  classical
  simp only [offers, List.mem_toFinset, List.mem_filterMap, Option.bind_eq_some_iff, Option.ite_none_right_eq_some,
    Option.some.injEq, Prod.mk.injEq]
  constructor
  · rintro ⟨_, queued, h, held, ready, rfl, rfl⟩
    exact ⟨queued, h, held, ready, rfl⟩
  · rintro ⟨queued, h, held, ready, rfl⟩
    exact ⟨id, queued, h, held, ready, rfl, rfl⟩

theorem Meanwhile.offers (meanwhile : Meanwhile q horizon w w') : offers q horizon w' ⊆ offers q horizon w := by
  rintro ⟨id, grant⟩ member
  obtain ⟨queued, h', held', ready', rfl⟩ := mem_offers.mp member
  obtain ⟨h, held, -, grant, ready⟩ := meanwhile.entries id h' held'
  exact mem_offers.mpr ⟨meanwhile.queued id queued, h, held, ready ready', by rw [grantOf, grantOf, grant]⟩

theorem KeyNamed.meanwhile (named : KeyNamed q w) (meanwhile : Meanwhile q horizon w w') : KeyNamed q w' := by
  intro id h' held'
  obtain ⟨h, held, name, -, -⟩ := meanwhile.entries id h' held'
  rw [name, named id h held]

theorem InHand.later (kept : InHand q horizon known offer w) (later : Later q horizon w w') :
    InHand q horizon known offer w' where
  named := kept.named.meanwhile later.meanwhile
  grant h' held' := by
    obtain ⟨h, held, -, grant, -⟩ := later.meanwhile.entries offer.1 h' held'
    rw [grantOf, grant]
    exact kept.grant h held
  offered := later.meanwhile.offers.trans kept.offered
  among := kept.among
  early := by linarith [kept.early, later.clock]

/-- A call that is no write-back, and what happened before it. -/
theorem quietWorld_later (start : horizon ≤ w.clock + queueClaimLeaseMs) {reply : Except DrainError (Reply c)}
    (answers : (quietWorld q client horizon).answers w c reply w')
    (read : ∀ id updates, c ≠ .updateRequest id updates) : Later q horizon w w' := by
  obtain ⟨s, outlook, r, order, -, aside, apart, -, run⟩ := answers
  have exec : Meanwhile q horizon ⟨s, w'.clock⟩ ⟨(c.exec q client outlook w'.clock s).2, w'.clock⟩ :=
    Call.exec_meanwhile (start.trans (by linarith)) apart outlook read
  rw [run] at exec
  exact ⟨order, aside.trans exec⟩

theorem InHand.writeBack (kept : InHand q horizon known offer w) {updates : RequestUpdates}
    (counts : updates.retries = none ∧ updates.priority = none) {reply : Except DrainError Unit}
    (answers : (quietWorld q client horizon).answers w (.updateRequest offer.1 updates) reply w') :
    InHand q horizon known offer w' := by
  obtain ⟨s, outlook, r, order, -, aside, apart, -, run⟩ := answers
  have before : InHand q horizon known offer ⟨s, w'.clock⟩ := kept.later ⟨order, aside⟩
  simp only [Call.exec, Prod.mk.injEq] at run
  cases held : q.item s w'.clock offer.1 with
  | none =>
    rw [updateRequest_of_none held] at run
    have same : w' = ⟨s, w'.clock⟩ := by rw [run.2]
    rw [same]
    exact before
  | some h =>
    obtain ⟨items, sorted⟩ := updateRequest_writeBack held (before.named offer.1 h held) counts
    rw [run.2] at items sorted
    have grant := before.grant h held
    refine ⟨fun id h' held' => ?_, fun h' held' => ?_, ?_, before.among, before.early⟩
    · rw [items] at held'
      by_cases same : id = offer.1
      · rw [same, Function.update_self] at held'
        cases held'
        rw [updates.apply_lookup (.inl rfl), same, before.named offer.1 h held]
      · rw [Function.update_of_ne same] at held'
        exact before.named id h' held'
    · rw [items, Function.update_self] at held'
      cases held'
      rw [grantOf, updates.apply_lookup (.inr rfl)]
      exact grant
    · rintro ⟨id, g⟩ member
      obtain ⟨queued, h', held', ready, rfl⟩ := mem_offers.mp member
      rw [items] at held'
      by_cases same : id = offer.1
      · rw [same, Function.update_self] at held'
        cases held'
        have whole : (id, grantOf (updates.apply h)) = offer := by
          rw [grantOf, updates.apply_lookup (.inr rfl), same]
          exact Prod.ext rfl grant
        rw [whole]
        exact kept.among
      · rw [Function.update_of_ne same] at held'
        rw [sorted] at queued
        exact before.offered (mem_offers.mpr ⟨queued, h', held', ready, rfl⟩)

end Offers

section Hushed

variable {q : QueueKeys} {client : Client} {horizon : ℚ} {α β : Type}

/-- What a pass skips is as it was. -/
def SameSkips (l l' : PassLocals) : Prop :=
  l'.skippedRequestIds = l.skippedRequestIds ∧ l'.blockedGrantIds = l.blockedGrantIds

theorem SameSkips.trans {l l' l'' : PassLocals} (first : SameSkips l l')
    (second : SameSkips l' l'') : SameSkips l l'' :=
  ⟨second.1.trans first.1, second.2.trans first.2⟩

/-- A part of a pass that writes nothing back and skips nothing. -/
def Hushed (q : QueueKeys) (client : Client) (horizon : ℚ) (x : Pass α) : Prop :=
  ∀ w l, horizon ≤ w.clock + queueClaimLeaseMs →
    x.Abides (quietWorld q client horizon) (fun _ l' w' => Later q horizon w w' ∧ SameSkips l l') w l

namespace Hushed

theorem pure (a : α) : Hushed q client horizon (pure a : Pass α) := fun w _ _ => ⟨.refl q horizon w, rfl, rfl⟩

theorem throw (e : DrainError) : Hushed q client horizon (throw e : Pass α) :=
  fun w _ _ => ⟨.refl q horizon w, rfl, rfl⟩

theorem locals : Hushed q client horizon (Act.locals : Pass PassLocals) :=
  fun w _ _ => ⟨.refl q horizon w, rfl, rfl⟩

theorem update {f : PassLocals → PassLocals} (same : ∀ l, SameSkips l (f l)) :
    Hushed q client horizon (Act.update f : Pass Unit) := fun w l _ => ⟨.refl q horizon w, same l⟩

theorem ask {c : Call} (read : ∀ id updates, c ≠ .updateRequest id updates) :
    Hushed q client horizon (Dianemo.ask c) := by
  intro w l early
  rw [Dianemo.ask, Act.abides_call]
  exact ⟨trivial, fun reply w' answers => ⟨quietWorld_later early answers read, rfl, rfl⟩⟩

theorem tryAsk {c : Call} (read : ∀ id updates, c ≠ .updateRequest id updates) :
    Hushed q client horizon (Dianemo.tryAsk c) := by
  intro w l early
  rw [Dianemo.tryAsk, Act.abides_attempt]
  exact ⟨trivial, fun reply w' answers => ⟨quietWorld_later early answers read, rfl, rfl⟩⟩

theorem bind {x : Pass α} {f : α → Pass β} (first : Hushed q client horizon x)
    (second : ∀ a, Hushed q client horizon (f a)) : Hushed q client horizon (x >>= f) := by
  intro w l early
  rw [Act.abides_bind]
  refine (first w l early).mono ?_
  rintro (e | a) l' w' ⟨later, same⟩
  · exact ⟨later, same⟩
  · refine (second a w' l' (by linarith [later.clock])).mono ?_
    rintro out l'' w'' ⟨later', same'⟩
    exact ⟨later.trans later', same.trans same'⟩

theorem tryCatch {x : Pass α} {handle : DrainError → Pass α} (first : Hushed q client horizon x)
    (second : ∀ e, Hushed q client horizon (handle e)) : Hushed q client horizon (tryCatch x handle) := by
  intro w l early
  rw [Act.abides_tryCatch]
  refine (first w l early).mono ?_
  rintro (e | a) l' w' ⟨later, same⟩
  · refine (second e w' l' (by linarith [later.clock])).mono ?_
    rintro out l'' w'' ⟨later', same'⟩
    exact ⟨later.trans later', same.trans same'⟩
  · exact ⟨later, same⟩

theorem ite {p : Prop} [Decidable p] {x y : Pass α} (yes : Hushed q client horizon x)
    (no : Hushed q client horizon y) : Hushed q client horizon (if p then x else y) := by
  split
  · exact yes
  · exact no

variable (request : QueuedRequest)

theorem confirmRequestInQueue : Hushed q client horizon (Client.confirmRequestInQueue request) := by
  rw [Client.confirmRequestInQueue.eq_def]
  split
  · exact pure _
  · exact ask (by rintro _ _ ⟨⟩)

theorem confirm : Hushed q client horizon (Client.confirm request) :=
  bind (update fun _ => ⟨rfl, rfl⟩) fun _ => bind (confirmRequestInQueue request) fun _ =>
    ite (pure _) (bind (update fun _ => ⟨rfl, rfl⟩) fun _ => pure _)

theorem releaseAll {call : BudgetRelease → Call}
    (read : ∀ release id updates, call release ≠ .updateRequest id updates)
    (releases : List BudgetRelease) : Hushed q client horizon (Client.releaseAll call releases) := by
  induction releases with
  | nil => exact pure _
  | cons release rest ih => exact bind (ask (read release)) fun _ => ih

theorem releaseGoneClaim : Hushed q client horizon (client.releaseGoneClaim request) := by
  have released : ∀ releases, Hushed q client horizon (Client.releaseAll .releaseUnusedAdmission releases) :=
    releaseAll (by rintro _ _ _ ⟨⟩)
  refine bind locals fun l => ?_
  dsimp only
  split
  · exact released _
  · refine bind (tryAsk (by rintro _ _ ⟨⟩)) fun now => ?_
    split
    · exact pure _
    · exact ite (pure _) (released _)

theorem scheduleDrainForFreeze (frozenUntil : Option ℚ) (grantId : Option String) :
    Hushed q client horizon (client.scheduleDrainForFreeze frozenUntil grantId) := by
  rw [Client.scheduleDrainForFreeze.eq_def]
  split
  · exact bind (tryAsk (by rintro _ _ ⟨⟩)) fun _ => pure _
  · refine bind (tryAsk (by rintro _ _ ⟨⟩)) fun state => ?_
    split
    · exact pure _
    · exact ite (pure _) (bind (tryAsk (by rintro _ _ ⟨⟩)) fun _ => pure _)

theorem failWaiter : Hushed q client horizon (Client.failWaiter request) :=
  bind (ask (by rintro _ _ ⟨⟩)) fun _ => ite (bind (tryAsk (by rintro _ _ ⟨⟩)) fun _ => pure _) (pure _)

theorem failUnsatisfiable : Hushed q client horizon (client.failUnsatisfiable request) := by
  refine ite (pure _) (bind (ask (by rintro _ _ ⟨⟩)) fun problem => ?_)
  split
  · exact pure _
  · exact failWaiter request

theorem isFrozen (grantId : Option String) : Hushed q client horizon (client.isFrozen grantId) :=
  bind (ask (by rintro _ _ ⟨⟩)) fun _ => pure _

theorem releaseFrozenClaim : Hushed q client horizon (client.releaseFrozenClaim request) := by
  have released : ∀ releases, Hushed q client horizon (Client.releaseAll .releaseClaim releases) :=
    releaseAll (by rintro _ _ _ ⟨⟩)
  exact bind locals fun _ => tryCatch (released _) fun _ => pure _

theorem tryAcquireTurn : Hushed q client horizon (client.tryAcquireTurn request) := by
  refine bind locals fun l => ite (pure _) (ite (throw _) (bind (ask (by rintro _ _ ⟨⟩)) fun problem => ?_))
  split
  · exact throw _
  · refine bind (isFrozen _) fun frozen => ite (throw _) (bind (ask (by rintro _ _ ⟨⟩)) fun claimed => ?_)
    refine ite (throw _) (ite (pure _) ?_)
    exact bind (isFrozen _) fun frozen => ite (bind (releaseFrozenClaim request) fun _ => throw _) (pure _)

theorem foundGone : Hushed q client horizon (client.foundGone request) := by
  refine ite (bind (tryAsk (by rintro _ _ ⟨⟩)) fun read => ?_) (pure _)
  split
  · exact pure _
  · exact pure _

theorem dispatch : Hushed q client horizon (client.dispatch request) := by
  refine bind (foundGone request) fun gone => ite (bind (releaseGoneClaim request) fun _ => pure _) ?_
  refine bind (confirm request) fun confirmed => ite (bind (foundGone request) fun gone => ?_) ?_
  · exact ite (bind (releaseGoneClaim request) fun _ => pure _) (pure _)
  · exact bind locals fun l => bind (ask (by rintro _ _ ⟨⟩)) fun _ => pure _

end Hushed

end Hushed

section Turns

variable {q : QueueKeys} {client : Client} {horizon : ℚ} {known : Finset (String × String)}
    {offer : String × String}
  {request : QueuedRequest} {w w' : Backend} {l l' : PassLocals} {α : Type}

/-- A pass skips what it skipped before, and maybe more. -/
def Grown (l l' : PassLocals) : Prop :=
  l.skippedRequestIds ⊆ l'.skippedRequestIds ∧ l.blockedGrantIds ⊆ l'.blockedGrantIds

theorem SameSkips.grown (same : SameSkips l l') : Grown l l' :=
  ⟨same.1 ▸ List.Subset.refl _, same.2 ▸ List.Subset.refl _⟩

theorem Grown.trans {l'' : PassLocals} (first : Grown l l') (second : Grown l' l'') : Grown l l'' :=
  ⟨fun _ member => second.1 (first.1 member), fun _ member => second.2 (first.2 member)⟩

/-- How the turn of an entry may end: where the loop goes on, the entry is no longer
offered, or skipped. -/
def TurnEnds (q : QueueKeys) (horizon : ℚ) (known : Finset (String × String))
    (offer : String × String) (l : PassLocals) : Except DrainError Flow → PassLocals → Backend → Prop
  | .ok .stop, _, _ => True
  | .ok .next, l', w' => InHand q horizon known offer w' ∧ Grown l l' ∧
    (offer ∉ offers q horizon w' ∨ l'.skips offer)
  | .error _, l', w' => InHand q horizon known offer w' ∧ Grown l l'

/-- The request is the entry `offer` as it was handed out. -/
def RequestOf (offer : String × String) (request : QueuedRequest) : Prop :=
  request.requestId = offer.1 ∧ ∀ grantId, request.grantId = some grantId → grantId = offer.2 ∧ grantId ≠ ""

theorem Hushed.kept {x : Pass α} (calm : Hushed q client horizon x) (kept : InHand q horizon known offer w) :
    x.Abides (quietWorld q client horizon) (fun _ l' w' => InHand q horizon known offer w' ∧ SameSkips l l' ∧
      (offer ∉ offers q horizon w → offer ∉ offers q horizon w')) w l := by
  refine (calm w l kept.early).mono ?_
  rintro out l' w' ⟨later, same⟩
  exact ⟨kept.later later, same, fun absent member => absent (later.meanwhile.offers member)⟩

/-- A call that writes the entry back. -/
theorem ask_writeBack (kept : InHand q horizon known offer w) {updates : RequestUpdates}
    (counts : updates.retries = none ∧ updates.priority = none) :
    (ask (.updateRequest offer.1 updates)).Abides (quietWorld q client horizon)
      (fun _ l' w' => InHand q horizon known offer w' ∧ SameSkips l l') w l := by
  rw [ask, Act.abides_call]
  exact ⟨trivial, fun reply w' answers => ⟨kept.writeBack counts answers, rfl, rfl⟩⟩

theorem writeBack_kept (kept : InHand q horizon known offer w) (of : RequestOf offer request) :
    (Client.writeBack request).Abides (quietWorld q client horizon)
      (fun _ l' w' => InHand q horizon known offer w' ∧ SameSkips l l') w l := by
  rw [Client.writeBack, Act.abides_bind, Act.abides_locals, of.1]
  dsimp only
  split
  · rw [Act.abides_bind, Act.abides_update]
    exact ask_writeBack kept ⟨rfl, rfl⟩
  · exact ask_writeBack kept ⟨rfl, rfl⟩

theorem returnToQueue_kept (kept : InHand q horizon known offer w) (of : RequestOf offer request) :
    (Client.returnToQueue request).Abides (quietWorld q client horizon)
      (fun _ l' w' => InHand q horizon known offer w' ∧ SameSkips l l') w l := by
  rw [Client.returnToQueue, Act.abides_bind, Act.abides_locals]
  dsimp only
  split
  · exact ⟨kept, rfl, rfl⟩
  · exact writeBack_kept kept of
  · rw [Act.abides_bind]
    refine ((Hushed.confirm request).kept kept).mono ?_
    rintro (e | confirmed) l' w' ⟨kept', same, -⟩
    · exact ⟨kept', same⟩
    · dsimp only
      split
      · refine (writeBack_kept kept' of).mono ?_
        rintro out l'' w'' ⟨kept'', same'⟩
        exact ⟨kept'', same.trans same'⟩
      · exact ⟨kept', same⟩

/-- A part of the turn, and then what ends it. -/
theorem turnEnds_bind {x : Pass α} {f : α → Pass Flow} {P : PassLocals → Backend → Prop} {l₀ : PassLocals}
    (first : x.Abides (quietWorld q client horizon) (fun _ l' w' => InHand q horizon known offer w' ∧ Grown l₀ l' ∧ P l' w') w l)
    (second : ∀ a l' w', InHand q horizon known offer w' → Grown l₀ l' → P l' w' →
      (f a).Abides (quietWorld q client horizon) (TurnEnds q horizon known offer l₀) w' l') :
    (x >>= f).Abides (quietWorld q client horizon) (TurnEnds q horizon known offer l₀) w l := by
  rw [Act.abides_bind]
  refine first.mono ?_
  rintro (e | a) l' w' ⟨kept, grown, more⟩
  · exact ⟨kept, grown⟩
  · exact second a l' w' kept grown more

variable {l₀ : PassLocals}

theorem Hushed.turn {x : Pass α} (calm : Hushed q client horizon x)
    (kept : InHand q horizon known offer w) (grown : Grown l₀ l) :
    x.Abides (quietWorld q client horizon) (fun _ l' w' => InHand q horizon known offer w' ∧ Grown l₀ l' ∧
      (offer ∉ offers q horizon w ∨ l.skips offer → offer ∉ offers q horizon w' ∨ l'.skips offer)) w l := by
  refine (calm.kept kept).mono ?_
  rintro out l' w' ⟨kept', same, absent⟩
  refine ⟨kept', grown.trans same.grown, Or.imp absent fun skips => ?_⟩
  rw [PassLocals.skips, same.1, same.2]
  exact skips

theorem returnToQueue_turn (kept : InHand q horizon known offer w)
    (of : RequestOf offer request) (grown : Grown l₀ l) :
    (Client.returnToQueue request).Abides (quietWorld q client horizon)
      (fun _ l' w' => InHand q horizon known offer w' ∧ Grown l₀ l' ∧ True) w l := by
  refine (returnToQueue_kept kept of).mono ?_
  rintro out l' w' ⟨kept', same⟩
  exact ⟨kept', grown.trans same.grown, trivial⟩

theorem afterDecline_ends (kept : InHand q horizon known offer w)
    (of : RequestOf offer request) (grown : Grown l₀ l) :
    (client.afterDecline request).Abides (quietWorld q client horizon) (TurnEnds q horizon known offer l₀) w l := by
  rw [Client.afterDecline]
  split
  · split
    · rename_i grantId given
      obtain ⟨same, named⟩ := of.2 grantId given
      rw [Act.abides_bind, Act.abides_update]
      refine ⟨kept, ⟨grown.1, fun _ member => List.mem_cons_of_mem _ (grown.2 member)⟩,
        .inr (.inr ⟨same ▸ named, ?_⟩)⟩
      rw [← same]
      exact List.mem_cons_self
    · rw [Act.abides_bind, Act.abides_update]
      refine ⟨kept, ⟨fun _ member => List.mem_cons_of_mem _ (grown.1 member), grown.2⟩, .inr (.inl ?_)⟩
      rw [← of.1]
      exact List.mem_cons_self
  · trivial

/-- An entry that is skipped, and what is done about its waiter. -/
theorem skip_ends (kept : InHand q horizon known offer w) (of : RequestOf offer request)
    (grown : Grown l₀ l) {x : Pass Unit} (calm : Hushed q client horizon x) :
    (do Client.skip request; x; pure .next : Pass Flow).Abides (quietWorld q client horizon)
      (TurnEnds q horizon known offer l₀) w l := by
  rw [Client.skip, Act.abides_bind, Act.abides_update]
  have wider : Grown l₀ { l with skippedRequestIds := request.requestId :: l.skippedRequestIds } :=
    ⟨fun _ member => List.mem_cons_of_mem _ (grown.1 member), grown.2⟩
  refine turnEnds_bind (calm.turn kept wider) fun _ l' w' kept' grown' stays =>
    ⟨kept', grown', stays (.inr (.inl ?_))⟩
  rw [← of.1]
  exact List.mem_cons_self

theorem declineFrozen_ends (kept : InHand q horizon known offer w)
    (of : RequestOf offer request) (frozenUntil : Option ℚ)
    (grown : Grown l₀ l) : (client.declineFrozen request frozenUntil).Abides (quietWorld q client horizon)
      (TurnEnds q horizon known offer l₀) w l := by
  refine turnEnds_bind (returnToQueue_turn kept of grown) fun _ l₁ w₁ kept₁ grown₁ _ => ?_
  have asked : Hushed q client horizon (ask (.costProblem request.cost)) := .ask (by rintro _ _ ⟨⟩)
  refine turnEnds_bind (asked.turn kept₁ grown₁) fun problem l₂ w₂ kept₂ grown₂ _ => ?_
  split
  · exact skip_ends kept₂ of grown₂ (.failUnsatisfiable request)
  · refine turnEnds_bind ((Hushed.scheduleDrainForFreeze _ _).turn kept₂ grown₂) fun _ l₃ w₃ kept₃ grown₃ _ => ?_
    exact afterDecline_ends kept₃ of grown₃

theorem takeTurn_turnEnds (kept : InHand q horizon known offer w)
    (of : RequestOf offer request) (grown : Grown l₀ l)
    (taken : offer ∉ offers q horizon w ∨ l.skips offer) :
    (client.takeTurn request).Abides (quietWorld q client horizon) (TurnEnds q horizon known offer l₀) w l := by
  refine turnEnds_bind ((Hushed.tryAcquireTurn request).turn kept grown) fun acquired l₁ w₁ kept₁ grown₁ stays => ?_
  split
  · refine ((Hushed.dispatch request).turn kept₁ grown₁).mono ?_
    rintro (e | flow) l' w' ⟨kept', grown', stays'⟩
    · exact ⟨kept', grown'⟩
    · cases flow with
      | next => exact ⟨kept', grown', stays' (stays taken)⟩
      | stop => trivial
  · refine turnEnds_bind (returnToQueue_turn kept₁ of grown₁) fun _ l₂ w₂ kept₂ grown₂ _ => ?_
    exact afterDecline_ends kept₂ of grown₂

theorem admission_turnEnds (kept : InHand q horizon known offer w)
    (of : RequestOf offer request) (grown : Grown l₀ l)
    (taken : offer ∉ offers q horizon w ∨ l.skips offer) :
    (client.admission request).Abides (quietWorld q client horizon) (TurnEnds q horizon known offer l₀) w l := by
  have asked : Hushed q client horizon (ask (.canProcessRequest (client.freezeStateKey request.grantId))) :=
    .ask (by rintro _ _ ⟨⟩)
  refine turnEnds_bind (asked.turn kept grown) fun res l₁ w₁ kept₁ grown₁ stays => ?_
  split
  · exact declineFrozen_ends kept₁ of _ grown₁
  · split
    · have nominated : ∀ grantId anyGrant, Hushed q client horizon
          (ask (.tryStartThawRequest request.requestId grantId anyGrant)) :=
        fun _ _ => .ask (by rintro _ _ ⟨⟩)
      refine turnEnds_bind ((nominated _ _).turn kept₁ grown₁) fun started l₂ w₂ kept₂ grown₂ stays₂ => ?_
      split
      · rw [Act.abides_bind, Act.abides_update]
        exact takeTurn_turnEnds kept₂ of grown₂ (stays₂ (stays taken))
      · refine turnEnds_bind (returnToQueue_turn kept₂ of grown₂) fun _ l₃ w₃ kept₃ grown₃ _ => ?_
        trivial
    · exact takeTurn_turnEnds kept₁ of grown₁ (stays taken)

theorem recover_ends (kept : InHand q horizon known offer w) (of : RequestOf offer request) (error : DrainError)
    (grown : Grown l₀ l) : (client.recover request error).Abides (quietWorld q client horizon)
      (TurnEnds q horizon known offer l₀) w l := by
  have returned : (tryCatch (Client.returnToQueue request) fun _ => pure () : Pass Unit).Abides
      (quietWorld q client horizon)
      (fun _ l' w' => InHand q horizon known offer w' ∧ Grown l₀ l' ∧ True) w l := by
    rw [Act.abides_tryCatch]
    refine (returnToQueue_turn kept of grown).mono ?_
    rintro (e | a) l' w' held
    · exact held
    · exact held
  refine turnEnds_bind returned fun _ l₁ w₁ kept₁ grown₁ _ => ?_
  cases error with
  | requestCost problem => exact skip_ends kept₁ of grown₁ (.failUnsatisfiable request)
  | invalidRequestCost =>
    by_cases mine : request.ownerId = client.instanceId
    · simp only [if_pos mine]
      exact skip_ends kept₁ of grown₁ (.failWaiter request)
    · simp only [if_neg mine]
      exact skip_ends kept₁ of grown₁ (.pure ())
  | clientFrozen =>
    refine turnEnds_bind ((Hushed.scheduleDrainForFreeze _ _).turn kept₁ grown₁) fun _ l₂ w₂ kept₂ grown₂ _ => ?_
    trivial
  | unusableRateLimit => trivial
  | failed => trivial

theorem serve_ends (kept : InHand q horizon known offer w) (of : RequestOf offer request)
    (taken : offer ∉ offers q horizon w) : (client.serve request).Abides (quietWorld q client horizon)
      (fun out l' w' => ∀ flow, out = .ok flow → TurnEnds q horizon known offer l (.ok flow) l' w') w l := by
  rw [Client.serve, Act.abides_bind, Act.abides_update]
  dsimp only
  rw [Act.abides_tryCatch]
  have same : Grown l { l with confirmation := .unsent, isThawRequest := request.isThawRequest } :=
    ⟨fun _ m => m, fun _ m => m⟩
  refine (admission_turnEnds kept of same (.inl taken)).mono ?_
  rintro (e | flow) l' w' ends
  · refine (recover_ends ends.1 of e ends.2).mono ?_
    rintro out l'' w'' ends' flow rfl
    exact ends'
  · rintro flow' ⟨⟩
    exact ends

theorem grantOf_toQueued {h : Fields} (read : toQueued h = some request) {grantId : String}
    (given : request.grantId = some grantId) : grantId = grantOf h ∧ grantId ≠ "" := by
  simp only [toQueued, Option.bind_eq_bind, Option.bind_eq_some_iff, Option.some.injEq] at read
  obtain ⟨_, _, _, _, _, _, _, _, rfl⟩ := read
  simp only [present] at given
  rw [grantOf]
  split at given
  · rename_i text found
    rw [found]
    split at given
    · cases given
    · rename_i named
      cases given
      exact ⟨rfl, named⟩
  · cases given

/-- What is handed out was returnable, and is in hand from then on. -/
theorem getNextRequest_taken {skipGrantIds : List String} {reply : Except DrainError (Option QueuedRequest)}
    (named : KeyNamed q w) (early : horizon ≤ w.clock + queueClaimLeaseMs)
    (answers : (quietWorld q client horizon).answers w (.getNextRequest (skipGrantIds ++ l.blockedGrantIds) l.skippedRequestIds)
      reply w') (handed : reply = .ok (some request)) :
    ∃ offer ∈ returnable q horizon l w, RequestOf offer request ∧ InHand q horizon (offers q horizon w) offer w' ∧
      offer ∉ offers q horizon w' := by
  have later := quietWorld_later early answers (by rintro _ _ ⟨⟩)
  obtain ⟨s, outlook, r, order, before, aside, -, told, run⟩ := answers
  rw [handed, Except.ok.injEq] at told
  subst told
  simp only [Call.exec, Prod.mk.injEq, Except.ok.injEq] at run
  cases next : nextId q s (skipGrantIds ++ l.blockedGrantIds) l.skippedRequestIds w'.clock with
  | none =>
    rw [getNextRequest_of_none next] at run
    cases run.1
  | some id =>
    obtain ⟨h, held, free, -, claimed⟩ := getNextRequest_of_some next
    have queued : id ∈ s.sorted q.queueKey w'.clock := List.mem_of_find?_eq_some next
    have may := List.find?_some next
    unfold QueueKeys.item at held
    simp only [mayHandOut, held, Bool.and_eq_true, Bool.or_eq_true, decide_eq_true_eq,
      List.mem_append, not_or] at may
    obtain ⟨unskipped, ⟨-, unblocked⟩, -⟩ := may
    have known : h.lookup "requestId" = some (.text id) := (named.meanwhile aside) id h held
    have item : q.item w'.store w'.clock id = some (withFields h (claimFields h w'.clock)) := by
      rw [← run.2, claimed, item_setFields held, Function.update_self]
    have grant : grantOf (withFields h (claimFields h w'.clock)) = grantOf h := by
      rw [grantOf, lookup_claimFields h w'.clock (by decide), grantOf]
    have offered : (id, grantOf h) ∈ offers q horizon w :=
      aside.offers (mem_offers.mpr ⟨queued, h, held, ⟨w'.clock, before, free⟩, rfl⟩)
    rw [claimed] at run
    refine ⟨(id, grantOf h), ?_, ⟨(toQueued_claimFields run.1 known).1, ?_⟩, ⟨named.meanwhile later.meanwhile, ?_,
      later.meanwhile.offers, offered, by linarith⟩, ?_⟩
    · classical
      refine Finset.mem_filter.mpr ⟨offered, ?_⟩
      rintro (skipped | ⟨given, blocked⟩)
      · exact unskipped skipped
      · rcases unblocked with none_ | free
        · exact given none_
        · exact free.2 blocked
    · intro grantId given
      rw [← grant]
      exact grantOf_toQueued run.1 given
    · intro h' held'
      rw [item] at held'
      cases held'
      exact grant
    · intro member
      obtain ⟨-, h', held', ready, -⟩ := mem_offers.mp member
      rw [item] at held'
      cases held'
      exact not_ready_claimed (by linarith) ready

/-- A turn after which the loop goes on leaves the pass fewer entries to be handed. -/
theorem drainOnce_ends (named : KeyNamed q w) (early : horizon ≤ w.clock + queueClaimLeaseMs) :
    client.drainOnce.Abides (quietWorld q client horizon) (fun out l' w' => out = .ok .next → KeyNamed q w' ∧
      horizon ≤ w'.clock + queueClaimLeaseMs ∧ returnable q horizon l' w' ⊂ returnable q horizon l w) w l := by
  have frozen : Hushed q client horizon client.getFrozenGrantIds := .ite (.ask (by rintro _ _ ⟨⟩)) (.pure _)
  rw [Client.drainOnce, Act.abides_bind]
  refine (frozen w l early).mono ?_
  rintro (e | frozenGrantIds) l₁ w₁ ⟨later, same⟩
  · rintro ⟨⟩
  dsimp only
  rw [Act.abides_bind, Act.abides_locals]
  dsimp only
  rw [Act.abides_bind, ask, Act.abides_call]
  refine ⟨trivial, fun reply w₂ answers => ?_⟩
  have named₁ := named.meanwhile later.meanwhile
  have early₁ : horizon ≤ w₁.clock + queueClaimLeaseMs := by linarith [later.clock]
  cases reply with
  | error e => rintro ⟨⟩
  | ok next =>
    cases next with
    | none => rintro ⟨⟩
    | some request =>
      obtain ⟨offer, returned, of, kept, taken⟩ := getNextRequest_taken named₁ early₁ answers rfl
      refine (serve_ends kept of taken).mono ?_
      rintro out l' w' ends rfl
      obtain ⟨kept', grown, gone⟩ := ends .next rfl
      refine ⟨kept'.named, kept'.early, ?_⟩
      classical
      have fewer : ∀ l'' : PassLocals, Grown l l'' → ∀ other, l.skips other → l''.skips other := by
        rintro l'' ⟨skipped, blocked⟩ other (here | ⟨named, here⟩)
        · exact .inl (skipped here)
        · exact .inr ⟨named, blocked here⟩
      have wider : Grown l l' := same.grown.trans grown
      have before : offer ∈ returnable q horizon l w := by
        rw [returnable, Finset.mem_filter] at returned ⊢
        refine ⟨later.meanwhile.offers returned.1, ?_⟩
        rw [PassLocals.skips, ← same.1, ← same.2]
        exact returned.2
      refine (Finset.ssubset_iff_of_subset fun other member => ?_).mpr ⟨offer, before, fun member => ?_⟩
      · rw [returnable, Finset.mem_filter] at member ⊢
        exact ⟨later.meanwhile.offers (kept'.offered member.1),
          fun skipped => member.2 (fewer l' wider other skipped)⟩
      · rw [returnable, Finset.mem_filter] at member
        rcases gone with absent | skipped
        · exact absent member.1
        · exact member.2 skipped

end Turns

section Runs

variable {q : QueueKeys} {client : Client} {horizon : ℚ}

/-- A pass under way, and the backend it calls into. -/
abbrev Underway := Program Call Reply DrainError (Option PassLocals) × Backend

/-- One call of a pass, or its going round the loop once more. -/
inductive PassStep (q : QueueKeys) (client : Client) (horizon : ℚ) : Underway → Underway → Prop where
  | call {c : Call} {next : Except DrainError (Reply c) → Program Call Reply DrainError (Option PassLocals)}
      {w w' : Backend}
      {reply : Except DrainError (Reply c)} (answers : (quietWorld q client horizon).answers w c reply w') :
      PassStep q client horizon (.call c next, w) (next reply, w')
  | turn {l : PassLocals} {w : Backend} : PassStep q client horizon (.done (some l), w) (client.round l, w)

/-- Some steps of a pass, `n` of them once more round the loop. -/
inductive Drains (q : QueueKeys) (client : Client) (horizon : ℚ) : ℕ → Underway → Underway → Prop where
  | here (u : Underway) : Drains q client horizon 0 u u
  | call {n : ℕ} {c : Call} {next : Except DrainError (Reply c) → Program Call Reply DrainError (Option PassLocals)}
      {w w' : Backend} {reply : Except DrainError (Reply c)} {u : Underway}
      (answers : (quietWorld q client horizon).answers w c reply w')
      (rest : Drains q client horizon n (next reply, w') u) :
      Drains q client horizon n (.call c next, w) u
  | turn {n : ℕ} {l : PassLocals} {w : Backend} {u : Underway}
      (rest : Drains q client horizon n (client.round l, w) u) :
      Drains q client horizon (n + 1) (.done (some l), w) u

/-- A turn that is over has left the pass fewer than `n` entries to be handed. -/
def LeavesFewer (q : QueueKeys) (horizon : ℚ) (n : ℕ) (o : Option PassLocals) (w : Backend) : Prop :=
  ∀ l, o = some l → KeyNamed q w ∧ horizon ≤ w.clock + queueClaimLeaseMs ∧ (returnable q horizon l w).card < n

variable {w : Backend} {l : PassLocals} {n : ℕ}

theorem round_leavesFewer (named : KeyNamed q w) (early : horizon ≤ w.clock + queueClaimLeaseMs) :
    (client.round l).Abides (quietWorld q client horizon)
      (LeavesFewer q horizon (returnable q horizon l w).card) w := by
  rw [Client.round, Program.abides_bind]
  refine Program.Abides.mono ?_ (drainOnce_ends named early)
  rintro ⟨out, l'⟩ w' ends
  match out, ends with
  | .ok .next, ends =>
    rintro l'' ⟨⟩
    obtain ⟨named', early', fewer⟩ := ends rfl
    exact ⟨named', early', Finset.card_lt_card fewer⟩
  | .ok .stop, _ => rintro l'' ⟨⟩
  | .error _, _ => rintro l'' ⟨⟩

theorem acc_of_leavesFewer (rounds : ∀ l w, KeyNamed q w → horizon ≤ w.clock + queueClaimLeaseMs →
      (returnable q horizon l w).card < n → Acc (fun u u' => PassStep q client horizon u' u) (client.round l, w))
    {p : Program Call Reply DrainError (Option PassLocals)}
    (abides : p.Abides (quietWorld q client horizon) (LeavesFewer q horizon n) w) :
    Acc (fun u u' => PassStep q client horizon u' u) (p, w) := by
  induction p generalizing w with
  | done o =>
    refine .intro _ fun u step => ?_
    cases step with
    | turn =>
      obtain ⟨named, early, fewer⟩ := abides _ rfl
      exact rounds _ _ named early fewer
  | call c next ih =>
    refine .intro _ fun u step => ?_
    cases step with
    | call answers => exact ih _ (abides.2 _ _ answers)

/-- A round of the loop and all that follow it end: each leaves fewer entries to be handed. -/
theorem acc_round (named : KeyNamed q w) (early : horizon ≤ w.clock + queueClaimLeaseMs) :
    Acc (fun u u' => PassStep q client horizon u' u) (client.round l, w) := by
  induction size : (returnable q horizon l w).card using Nat.strong_induction_on generalizing l w with
  | _ n ih =>
    refine acc_of_leavesFewer (fun l' w' named' early' fewer => ih _ fewer named' early' rfl) ?_
    rw [← size]
    exact round_leavesFewer named early

/-- The loop goes round no more often than there are entries to be handed. -/
theorem Drains.bound {u u' : Underway} (drains : Drains q client horizon n u u') {m : ℕ}
    (abides : u.1.Abides (quietWorld q client horizon) (LeavesFewer q horizon m) u.2) : n ≤ m := by
  induction drains generalizing m with
  | here => exact Nat.zero_le _
  | call answers _ ih => exact ih (abides.2 _ _ answers)
  | turn _ ih =>
    obtain ⟨named, early, fewer⟩ := abides _ rfl
    exact Nat.succ_le_of_lt (lt_of_le_of_lt (ih (round_leavesFewer named early)) fewer)

/-- A pass comes to its end, having gone round its loop at most once for each entry
there was to be handed out. -/
theorem drain_terminates (q : QueueKeys) (client : Client) (w : Backend) (named : KeyNamed q w) :
    Acc (fun u u' => PassStep q client (w.clock + queueClaimLeaseMs) u' u) (client.processRequests, w) ∧
      ∀ n u, Drains q client (w.clock + queueClaimLeaseMs) n (client.processRequests, w) u →
        n ≤ (returnable q (w.clock + queueClaimLeaseMs) {} w).card :=
  ⟨acc_round named le_rfl, fun _ _ drains => drains.bound (round_leavesFewer named le_rfl)⟩

/-- One entry waits, added by its owner. -/
def onePending : Backend := ⟨State.fresh.enqueue (clientQueue "ns") (plainRequest "first" "one") 1 86400 0, 0⟩

theorem onePending_named : KeyNamed (clientQueue "ns") onePending := by
  intro id h held
  rw [onePending] at held
  rw [item_enqueue_self (by norm_num) (bare_fresh _ 0 _)] at held
  by_cases same : id = "first"
  · subst same
    rw [show (plainRequest "first" "one").requestId = "first" from rfl, Function.update_self] at held
    cases held
    decide +kernel
  · rw [Function.update_of_ne (show id ≠ (plainRequest "first" "one").requestId from same)] at held
    cases held

/-- A pass over that queue comes to its end. -/
theorem drain_terminates_onePending :
    Acc (fun u u' => PassStep (clientQueue "ns") (plainClient "one") (onePending.clock + queueClaimLeaseMs) u' u)
        ((plainClient "one").processRequests, onePending) ∧
      ∀ n u, Drains (clientQueue "ns") (plainClient "one") (onePending.clock + queueClaimLeaseMs) n
          ((plainClient "one").processRequests, onePending) u →
        n ≤ (returnable (clientQueue "ns") (onePending.clock + queueClaimLeaseMs) {} onePending).card :=
  drain_terminates (clientQueue "ns") (plainClient "one") onePending onePending_named

end Runs

end Dianemo
