import Dianemo.Sole
import Dianemo.Habits
import Dianemo.Slots
import Dianemo.Release

namespace Dianemo

open JsNumber Resumption

section Slots

variable {s s' : State} {key other slotId member : String} {now t : ℚ} {e : Entry}

/-- A slot is in a ledger. -/
def SlotHeld (key slotId : String) (s : State) (now : ℚ) : Prop := ∃ z, s.zset key now = some z ∧ slotId ∈ z

namespace SlotHeld

theorem congr (same : s'.live key now = s.live key now) (held : SlotHeld key slotId s' now) :
    SlotHeld key slotId s now := by
  obtain ⟨z, slots, member⟩ := held
  exact ⟨z, (State.zset_congr same).symm.trans slots, member⟩

theorem earlier (order : t ≤ now) (held : SlotHeld key slotId s now) : SlotHeld key slotId s t := by
  obtain ⟨z, slots, member⟩ := held
  rcases s.zset_later order key with gone | same
  · rw [gone] at slots
    cases slots
  · exact ⟨z, same.symm.trans slots, member⟩

theorem of_put (held : SlotHeld key slotId (s.put other e) now) :
    (key = other ∧ ∃ z, e.zset = some z ∧ slotId ∈ z) ∨ SlotHeld key slotId s now := by
  by_cases same : key = other
  · subst same
    obtain ⟨z, slots, member⟩ := held
    obtain ⟨e', live, slots⟩ := Option.bind_eq_some_iff.mp slots
    have there := (State.live_eq_some.mp live).1
    rw [State.put_store_self] at there
    cases there
    exact .inl ⟨rfl, z, slots, member⟩
  · exact .inr (held.congr (State.live_congr (State.put_store_ne same) now).symm.symm)

theorem of_delete (held : SlotHeld key slotId (s.delete other) now) : SlotHeld key slotId s now := by
  by_cases same : key = other
  · subst same
    obtain ⟨z, slots, -⟩ := held
    simp [State.zset, State.live_delete_self] at slots
  · exact held.congr (State.live_congr (State.delete_store_ne same) now)

theorem of_dropIfEmpty (held : SlotHeld key slotId (s.dropIfEmpty other) now) : SlotHeld key slotId s now := by
  unfold State.dropIfEmpty at held
  split at held
  · exact held
  · split at held
    · exact held.of_delete
    · exact held

/-- What is written into an entry beside its slots leaves them. -/
theorem of_entry (held : SlotHeld key slotId (s.put other e) now)
    (slots : ∀ z, e.zset = some z → slotId ∈ z → ∃ e', s.live other now = some e' ∧
      ∃ z', e'.zset = some z' ∧ slotId ∈ z') : SlotHeld key slotId s now := by
  rcases held.of_put with ⟨rfl, z, found, member⟩ | before
  · obtain ⟨e', live, z', found', member'⟩ := slots z found member
    exact ⟨z', by rw [State.zset, live]; exact found', member'⟩
  · exact before

theorem of_setFields {fields : List (String × Field)}
    (held : SlotHeld key slotId (s.setFields other now fields) now) : SlotHeld key slotId s now := by
  refine of_entry held ?_
  intro z found member
  cases live : s.live other now with
  | none => simp [State.entry, live] at found
  | some e => exact ⟨e, rfl, z, by simpa [State.entry, live] using found, member⟩

theorem of_setScore {score : ℚ} (held : SlotHeld key slotId (s.setScore other now member score) now) :
    (key = other ∧ slotId = member) ∨ SlotHeld key slotId s now := by
  rcases held.of_put with ⟨rfl, z, found, there⟩ | before
  · cases found
    rcases (AList.mem_insert _).mp there with same | old
    · exact .inl ⟨rfl, same⟩
    · right
      cases live : s.live key now with
      | none => simp [State.entry, live] at old
      | some e =>
        cases slots : e.zset with
        | none => simp [State.entry, live, slots] at old
        | some z' =>
          exact ⟨z', by rw [State.zset, live]; exact slots, by simpa [State.entry, live, slots] using old⟩
  · exact .inr before

theorem of_expire {ttl : JsNumber} (held : SlotHeld key slotId ((expire other ttl now).run s).2 now) :
    SlotHeld key slotId s now := by
  unfold expire at held
  cases normal : normalizeTtlSeconds ttl with
  | error e =>
    rw [Op.run_bind_error (by rw [normal]; rfl)] at held
    exact held
  | ok seconds =>
    rw [Op.run_bind_ok (by rw [normal]; rfl), Op.run_modify] at held
    dsimp only at held
    split at held
    · exact held
    · rename_i e live
      split at held
      · exact held.of_delete
      · exact of_entry held fun z found member => ⟨e, live, z, found, member⟩

theorem of_reap {expireTime : JsNumber} (held : SlotHeld key slotId (reapConcurrency s other expireTime now) now) :
    SlotHeld key slotId s now := by
  unfold reapConcurrency at held
  split at held
  · exact held
  rename_i e live
  split at held
  · exact held
  rename_i z slots
  have kept : SlotHeld key slotId (s.put other { e with zset := some (eraseAll z (staleSlots z expireTime)) }) now →
      SlotHeld key slotId s now := by
    intro dropped
    refine of_entry dropped ?_
    rintro z' ⟨⟩ member
    exact ⟨e, live, z, slots, (mem_eraseAll.mp member).1⟩
  dsimp only at held
  have held := held.of_dropIfEmpty.of_dropIfEmpty
  split at held
  · exact kept held
  · rename_i c costs
    refine kept (of_entry held ?_)
    intro z' found member
    exact ⟨c, costs, z', found, member⟩

/-- A slot held after a release was held once its key had lost the one let go. -/
theorem before_releaseSlot (held : SlotHeld key slotId (releaseSlot s other member now) now) :
    ∃ u, SlotHeld key slotId u now ∧ (s.live other now = none ∧ u = s ∨ ∃ e, s.live other now = some e ∧
      u = s.put other { e with zset := e.zset.map fun z : Scores => z.erase member }) := by
  unfold releaseSlot at held
  have held := held.of_dropIfEmpty.of_dropIfEmpty
  cases live : s.live other now with
  | none =>
    refine ⟨s, ?_, .inl ⟨rfl, rfl⟩⟩
    simp only [live] at held
    split at held
    · exact held
    · rename_i c costs
      refine of_entry held ?_
      intro z found there
      exact ⟨c, costs, z, found, there⟩
  | some e =>
    refine ⟨_, ?_, .inr ⟨e, rfl, rfl⟩⟩
    simp only [live] at held
    split at held
    · exact held
    · rename_i c costs
      refine of_entry held ?_
      intro z found there
      exact ⟨c, costs, z, found, there⟩

theorem of_releaseSlot (held : SlotHeld key slotId (releaseSlot s other member now) now) :
    SlotHeld key slotId s now := by
  obtain ⟨u, before, ⟨-, rfl⟩ | ⟨e, live, rfl⟩⟩ := before_releaseSlot held
  · exact before
  · refine of_entry before ?_
    intro z found there
    obtain ⟨z', slots, rfl⟩ := Option.map_eq_some_iff.mp found
    exact ⟨e, live, z', slots, (AList.mem_erase.mp there).2⟩

/-- A released slot is gone. -/
theorem not_releaseSlot (s : State) (key slotId : String) (now : ℚ) :
    ¬ SlotHeld key slotId (releaseSlot s key slotId now) now := by
  intro held
  obtain ⟨u, ⟨z, slots, member⟩, ⟨absent, rfl⟩ | ⟨e, live, rfl⟩⟩ := before_releaseSlot held
  · simp [absent, State.zset] at slots
  · obtain ⟨e', there, slots⟩ := Option.bind_eq_some_iff.mp slots
    have put := (State.live_eq_some.mp there).1
    rw [State.put_store_self] at put
    cases put
    obtain ⟨z', -, rfl⟩ := Option.map_eq_some_iff.mp slots
    exact (AList.mem_erase.mp member).1 rfl

theorem of_claimSlot {cost keyTtl : JsNumber}
    (held : SlotHeld key slotId ((claimSlot other member cost keyTtl now).run s).2 now) :
    (key = other ∧ slotId = member) ∨ SlotHeld key slotId s now := by
  unfold claimSlot at held
  cases normal : normalizeTtlSeconds keyTtl with
  | error e =>
    rw [Op.run_bind_error (by rw [normal]; rfl)] at held
    exact .inr held
  | ok ttl =>
    rw [Op.run_bind_ok (by rw [normal]; rfl), Op.run_bind_ok (Op.run_modify _ s),
      Op.run_bind_ok (Op.run_modify _ _)] at held
    have lasts : ∀ s', SlotHeld key slotId ((do
        expire other (fin ttl) now
        expire (costsKey other) (fin ttl) now : Op Unit).run s').2 now → SlotHeld key slotId s' now := by
      intro s' held
      cases first : (expire other (fin ttl) now).run s' with
      | mk out u =>
        have back : SlotHeld key slotId u now → SlotHeld key slotId s' now := by
          intro held
          rw [show u = ((expire other (fin ttl) now).run s').2 by rw [first]] at held
          exact held.of_expire
        cases out with
        | error e =>
          rw [Op.run_bind_error first] at held
          exact back held
        | ok done =>
          rw [Op.run_bind_ok first] at held
          exact back held.of_expire
    exact (lasts _ held).of_setFields.of_setScore

theorem of_acquireConcurrency {cost : JsNumber} {config : ConcurrencyConfig}
    (held : SlotHeld key slotId ((acquireConcurrency other cost member config now).run s).2 now) :
    (key = other ∧ slotId = member) ∨ SlotHeld key slotId s now := by
  unfold acquireConcurrency at held
  split at held
  · exact .inr held
  · rw [Op.run_bind_ok (Op.run_modify _ s), Op.run_bind_ok (Op.run_read _)] at held
    dsimp only at held
    split at held
    · exact .inr held.of_reap
    · cases claimed : (claimSlot other member cost 86400 now).run
        (reapConcurrency s other (fin now - config.requestTtl) now) with
      | mk out u =>
        have back : SlotHeld key slotId u now → (key = other ∧ slotId = member) ∨ SlotHeld key slotId s now := by
          intro held
          rw [show u = ((claimSlot other member cost 86400 now).run
            (reapConcurrency s other (fin now - config.requestTtl) now)).2 by rw [claimed]] at held
          exact held.of_claimSlot.imp_right of_reap
        cases out with
        | error e =>
          rw [Op.run_bind_error claimed] at held
          exact back held
        | ok done =>
          rw [Op.run_bind_ok claimed] at held
          exact back held

/-- A slot comes to a ledger under its own id, and for an entry in progress. -/
theorem of_acquireQueuedConcurrency {metadataKey : String} {cost : JsNumber} {config : ConcurrencyConfig}
    (ne : metadataKey ≠ other) (off : metadataKey ≠ costsKey other)
    (held : SlotHeld key slotId ((acquireQueuedConcurrency other metadataKey cost member config now).run s).2 now) :
    ((key = other ∧ slotId = member) ∧ (s.hash metadataKey now).isSome) ∨ SlotHeld key slotId s now := by
  unfold acquireQueuedConcurrency at held
  split at held
  · exact .inr held
  · rw [Op.run_bind_ok (Op.run_modify _ s), Op.run_bind_ok (Op.run_read _)] at held
    split at held
    · exact .inr held.of_reap
    · rename_i stands
      rcases held.of_acquireConcurrency with own | before
      · refine .inl ⟨own, ?_⟩
        have avoids : Keeps {metadataKey} now s (reapConcurrency s other (fin now - config.requestTtl) now) :=
          .reapConcurrency (fun same => ne (Set.mem_singleton_iff.mp same).symm)
            (fun same => off (Set.mem_singleton_iff.mp same).symm) s _
        rw [State.hget, State.hash_congr (avoids.live _ rfl)] at stands
        cases there : s.hash metadataKey now with
        | none => simp [there] at stands
        | some h => rfl
      · exact .inr before.of_reap

end SlotHeld

end Slots

/-- What completes an attempt: its entry is removed, and then its slot released. -/
inductive Completion where
  | due
  | removed
  | through
  deriving DecidableEq

inductive RaceEvent (ι : Type) where
  /-- A pass makes its next call. -/
  | pass (i : ι) (fate : Fate) (outlook : Outlook)
  | removeRequest
  | releaseConcurrency

/-- The passes of a client, and how far the completion of one attempt is. -/
structure Race (ι : Type) where
  sys : System ι
  completion : Completion

section Race

variable {ι : Type} [DecidableEq ι]

/-- The passes and the completion of the attempt make their calls in any order. -/
def raceRuns (q : QueueKeys) (clients : ι → Client) (limit : SlotLimit) (requestId : String)
    (grantId : Option String) (retries ttl : JsNumber) : Timed.Machine ℚ (Race ι) (RaceEvent ι) where
  step now e race := match e with
    | .pass i fate outlook =>
      { race with sys := race.sys.step q (fun i => (clients i).withSlots q limit) now (.pass i fate outlook) }
    | .removeRequest =>
      { sys := race.sys.step q (fun i => (clients i).withSlots q limit) now (.remove requestId ttl)
        completion := .removed }
    | .releaseConcurrency =>
      { sys := { race.sys with
          store := ((releaseConcurrency (limit.getSlotKey grantId) (limit.getSlotId requestId retries) now).run race.sys.store).2
          clock := now }
        completion := .through }
  allowed _ e race := match e with
    | .pass _ _ _ => True
    | .removeRequest => race.completion = .due
    | .releaseConcurrency => race.completion = .removed

def Race.start (q : QueueKeys) (clients : ι → Client) (limit : SlotLimit) (store : State) (clock : ℚ) : Race ι where
  sys := System.start (fun i => (clients i).withSlots q limit) store clock
  completion := .due

/-- The ledgers of a limit have keys of their own. -/
structure SlotLimit.Separate (limit : SlotLimit) (q : QueueKeys) (clients : ι → Client) : Prop where
  slots : ∀ grantId, limit.getSlotKey grantId ∉ q.keys
  costs : ∀ grantId, costsKey (limit.getSlotKey grantId) ∉ q.keys
  grants : ∀ i, (clients i).frozenGrantsKey ∉ q.keys
  apart : ∀ i grantId, limit.getSlotKey grantId ≠ (clients i).frozenGrantsKey

/-- What holds between the calls of a race. -/
structure Racing (q : QueueKeys) (clients : ι → Client) (limit : SlotLimit) (requestId : String)
    (grantId : Option String) (retries : JsNumber) (t : ℚ) (race : Race ι) : Prop where
  accustomed : Accustomed (fun i => (clients i).withSlots q limit) race.sys
  named : Named q t race.sys.store
  plain : ∀ id, (q.item race.sys.store t id).isSome → PlainId id
  views : ∀ i v, race.sys.views i = some v → PlainId v.request.requestId
  gone : race.completion ≠ .due → q.item race.sys.store t requestId = none
  freed : race.completion = .through →
    ¬ SlotHeld (limit.getSlotKey grantId) (limit.getSlotId requestId retries) race.sys.store t

variable {q : QueueKeys} {clients : ι → Client} {limit : SlotLimit} {requestId id other : String}
    {grantId : Option String}
  {retries ttl n m : JsNumber} {t now : ℚ} {race : Race ι} {s : State}

theorem getSlotId_head (plain : PlainId id) (n : JsNumber) :
    (limit.getSlotId id n).toList.takeWhile (· ≠ ':') = id.toList := by
  have apart : ∀ c ∈ id.toList, decide (c ≠ ':') = true := by
    intro c member
    refine decide_eq_true ?_
    rintro rfl
    exact plain member
  unfold SlotLimit.getSlotId
  split
  · exact List.takeWhile_eq_self_iff.mpr apart
  · rw [String.toList_append, String.toList_append, List.append_assoc, List.takeWhile_append_of_pos apart]
    simp

/-- Attempts of different requests hold different slots. -/
theorem getSlotId_inj (plain : PlainId id) (plain' : PlainId other)
    (same : limit.getSlotId id n = limit.getSlotId other m) : id = other := by
  have heads := congrArg (fun slot : String => slot.toList.takeWhile (· ≠ ':')) same
  simp only [getSlotId_head plain, getSlotId_head plain'] at heads
  exact String.toList_inj.mp heads

omit [DecidableEq ι] in
theorem Racing.later (racing : Racing q clients limit requestId grantId retries t race) (order : t ≤ now) :
    Racing q clients limit requestId grantId retries now race where
  accustomed := racing.accustomed
  named := racing.named.sourced (sourced_later order _)
  plain id there := by
    rcases item_later order race.sys.store id with gone | same
    · rw [gone] at there
      cases there
    · exact racing.plain id (same ▸ there)
  views := racing.views
  gone begun := by
    rcases item_later order race.sys.store requestId with gone | same
    · exact gone
    · exact same.trans (racing.gone begun)
  freed through held := racing.freed through (held.earlier order)

theorem answer_snd {α β : Type} (tell : α → β) (out : Except RangeError α × State) :
    (answer tell out).2 = out.2 := by
  obtain ⟨result, s'⟩ := out
  cases result <;> rfl

omit [DecidableEq ι] in
/-- What a pass claims and hands back are slots of its claim's own request. -/
theorem Racing.apart (separate : limit.Separate q clients)
    (racing : Racing q clients limit requestId grantId retries t race)
    {i : ι} {c : Call} {next : Except DrainError (Reply c) → Program Call Reply DrainError (Option PassLocals)}
    (at_ : race.sys.program (fun i => (clients i).withSlots q limit) i = .call c next) (now : ℚ) (s : State) :
    c.Apart q ((clients i).withSlots q limit) now s := by
  have does := racing.accustomed.does at_
  cases c with
  | tryStartThawRequest id grant anyGrant => exact separate.grants i
  | claim budget =>
    obtain ⟨request, flag, -, rfl⟩ := does
    have keeps := Keeps.acquireQueuedConcurrency (separate.slots request.grantId) (separate.costs request.grantId) s
      (q.metadataKey request.requestId) (limit.costFor request.cost)
        (limit.getSlotId request.requestId request.retries) limit.config now
    change Keeps q.keys now s (answer _ ((acquireQueuedConcurrency _ _ _ _ _ now).run s)).2
    rw [answer_snd]
    exact keeps
  | releaseClaim release =>
    obtain ⟨request, flag, -, member⟩ := does
    cases List.mem_singleton.mp member
    exact .releaseSlot (separate.slots request.grantId) (separate.costs request.grantId) s _
  | releaseUnusedAdmission release =>
    obtain ⟨request, flag, -, member⟩ := does
    cases List.mem_singleton.mp member
    exact .releaseSlot (separate.slots request.grantId) (separate.costs request.grantId) s _
  | _ => trivial

omit [DecidableEq ι] in
/-- A pass takes no slot for the attempt once its entry is gone. -/
theorem Racing.held (separate : limit.Separate q clients) (plain : PlainId requestId)
    (racing : Racing q clients limit requestId grantId retries now race) {i : ι} {c : Call}
    {next : Except DrainError (Reply c) → Program Call Reply DrainError (Option PassLocals)}
    (at_ : race.sys.program (fun i => (clients i).withSlots q limit) i = .call c next) (outlook : Outlook)
    (absent : q.item race.sys.store now requestId = none)
    (held : SlotHeld (limit.getSlotKey grantId) (limit.getSlotId requestId retries)
      (c.exec q ((clients i).withSlots q limit) outlook now race.sys.store).2 now) :
    SlotHeld (limit.getSlotKey grantId) (limit.getSlotId requestId retries) race.sys.store now := by
  have does := racing.accustomed.does at_
  cases budget : c.isBudget with
  | false => exact held.congr (c.exec_outside budget (separate.slots grantId) (separate.apart i grantId) outlook)
  | true =>
    cases c with
    | claim budget =>
      obtain ⟨request, flag, view, rfl⟩ := does
      obtain ⟨v, there, rfl⟩ := Option.map_eq_some_iff.mp view
      have ne : q.metadataKey v.request.requestId ≠ limit.getSlotKey v.request.grantId :=
        ne_of_mem_of_not_mem (QueueKeys.metadataKey_mem _) (separate.slots _)
      have off : q.metadataKey v.request.requestId ≠ costsKey (limit.getSlotKey v.request.grantId) :=
        ne_of_mem_of_not_mem (QueueKeys.metadataKey_mem _) (separate.costs _)
      have run : (Call.exec q ((clients i).withSlots q limit) outlook now race.sys.store
          (.claim (((clients i).withSlots q limit).claim (Client.requestMetadata v.request flag)))).2 =
          ((acquireQueuedConcurrency (limit.getSlotKey v.request.grantId) (q.metadataKey v.request.requestId)
            (limit.costFor v.request.cost) (limit.getSlotId v.request.requestId v.request.retries) limit.config now).run
            race.sys.store).2 := answer_snd _ _
      rw [run] at held
      rcases held.of_acquireQueuedConcurrency ne off with ⟨⟨-, same⟩, there'⟩ | before
      · rw [← getSlotId_inj plain (racing.views i v there) same] at there'
        unfold QueueKeys.item at absent
        rw [absent] at there'
        cases there'
      · exact before
    | releaseClaim release =>
      obtain ⟨request, flag, -, member⟩ := does
      cases List.mem_singleton.mp member
      exact held.of_releaseSlot
    | releaseUnusedAdmission release =>
      obtain ⟨request, flag, -, member⟩ := does
      cases List.mem_singleton.mp member
      exact held.of_releaseSlot
    | _ => cases budget

/-- A call of a pass that takes effect. -/
theorem Racing.pass (separate : limit.Separate q clients) (plain : PlainId requestId)
    (racing : Racing q clients limit requestId grantId retries now race) (i : ι) (fate : Fate) (outlook : Outlook) :
    Racing q clients limit requestId grantId retries now
      ((raceRuns q clients limit requestId grantId retries ttl).step now (.pass i fate outlook) race) := by
  have accustomed : Accustomed (fun i => (clients i).withSlots q limit)
      (race.sys.step q (fun i => (clients i).withSlots q limit) now (.pass i fate outlook)) :=
        racing.accustomed.step _
  simp only [raceRuns]
  cases at_ : race.sys.program (fun i => (clients i).withSlots q limit) i with
  | done out =>
    simp only [System.step, at_] at accustomed ⊢
    exact { racing with accustomed := accustomed }
  | call c next =>
    simp only [System.step, at_] at accustomed ⊢
    have apart := racing.apart separate at_ now race.sys.store
    have effect : Same q now race.sys.store (race.sys.call q (fun i => (clients i).withSlots q limit) i fate outlook now c
        next).store := by
      simp only [System.call]
      split
      · exact c.exec_same apart racing.named outlook
      · exact .of_fewer (.refl q now race.sys.store)
    have absent : race.completion ≠ .due → q.item race.sys.store now requestId = none := racing.gone
    refine ⟨accustomed, racing.named.sourced effect, ?_, ?_, ?_, ?_⟩
    · intro id there
      obtain ⟨h', found⟩ := Option.isSome_iff_exists.mp there
      obtain ⟨h, before, -⟩ := effect id h' found
      exact racing.plain id (by rw [before]; rfl)
    · intro j v view
      by_cases own : j = i
      · subst own
        simp only [System.call, Function.update_self] at view
        have held := congrArg (Option.map ClaimView.request) view
        rw [viewAfter_held] at held
        cases c with
        | getNextRequest skipGrantIds skipRequestIds =>
          simp only [heldAfter, Option.map_some] at held
          split at held
          · change (getNextRequest q race.sys.store skipGrantIds skipRequestIds now).1 = some v.request at held
            cases picked : nextId q race.sys.store skipGrantIds skipRequestIds now with
            | none =>
              rw [getNextRequest_of_none picked] at held
              cases held
            | some id =>
              obtain ⟨h, item, -, -, run⟩ := getNextRequest_of_some picked
              rw [run] at held
              obtain ⟨name, -⟩ := toQueued_claimFields held (racing.named id h item)
              rw [name]
              exact racing.plain id (by rw [item]; rfl)
          · cases held
        | _ =>
          obtain ⟨w, before, same⟩ := Option.map_eq_some_iff.mp held
          rw [← same]
          exact racing.views j w before
      · simp only [System.call, Function.update_of_ne own] at view
        exact racing.views j v view
    · intro begun
      cases found : q.item (race.sys.call q (fun i => (clients i).withSlots q limit) i fate outlook now c next).store now
          requestId with
      | none => rfl
      | some h' =>
        obtain ⟨h, before, -⟩ := effect requestId h' found
        rw [absent begun] at before
        cases before
    · intro through held
      refine racing.freed through ?_
      simp only [System.call] at held
      split at held
      · exact racing.held separate plain at_ outlook (absent fun due => by cases through.symm.trans due) held
      · exact held

theorem Racing.step (separate : limit.Separate q clients) (plain : PlainId requestId)
    (racing : Racing q clients limit requestId grantId retries t race) (order : t ≤ now) {e : RaceEvent ι}
    (allowed : (raceRuns q clients limit requestId grantId retries ttl).allowed now e race) :
    Racing q clients limit requestId grantId retries now
      ((raceRuns q clients limit requestId grantId retries ttl).step now e race) := by
  have racing := racing.later order
  cases e with
  | pass i fate outlook => exact racing.pass separate plain i fate outlook
  | removeRequest =>
    have fewer : Same q now race.sys.store (removeRequest q race.sys.store requestId ttl now).2 :=
      .of_fewer (removeRequest_fewer race.sys.store requestId ttl).1
    have accustomed : Accustomed (fun i => (clients i).withSlots q limit)
        (race.sys.step q (fun i => (clients i).withSlots q limit) now (.remove requestId ttl)) :=
          racing.accustomed.step _
    refine ⟨accustomed, racing.named.sourced fewer, ?_, racing.views, ?_, nofun⟩
    · intro id there
      obtain ⟨h', found⟩ := Option.isSome_iff_exists.mp there
      obtain ⟨h, before, -⟩ := fewer id h' found
      exact racing.plain id (by rw [before]; rfl)
    · intro _
      exact (removeRequest_fewer race.sys.store requestId ttl).2
  | releaseConcurrency =>
    have items : q.item (releaseSlot race.sys.store (limit.getSlotKey grantId) (limit.getSlotId requestId retries) now) now =
        q.item race.sys.store now :=
      item_keeps (.releaseSlot (separate.slots grantId) (separate.costs grantId) _ _)
    refine ⟨racing.accustomed, ?_, ?_, racing.views, ?_, fun _ => SlotHeld.not_releaseSlot _ _ _ _⟩
    · intro id h found
      exact racing.named id h (items ▸ found)
    · intro id there
      exact racing.plain id (items ▸ there)
    · intro _
      change q.item (releaseSlot race.sys.store _ _ now) now requestId = none
      rw [items]
      refine racing.gone ?_
      rw [show race.completion = .removed from allowed]
      nofun

/-- Whatever a pass and the completion of an attempt do to each other, once the
completion is through no slot of the attempt is left. -/
theorem no_slot_stranded (separate : limit.Separate q clients) (plain : PlainId requestId)
    {store : State} {clock : ℚ}
    (named : Named q clock store) (ids : ∀ id, (q.item store clock id).isSome → PlainId id)
    {history : List (ℚ × RaceEvent ι)}
    (valid : (raceRuns q clients limit requestId grantId retries ttl).Valid clock (Race.start q clients limit store clock) history)
    (through : ((raceRuns q clients limit requestId grantId retries ttl).final (Race.start q clients limit store clock)
      history).completion = .through) :
    ¬ SlotHeld (limit.getSlotKey grantId) (limit.getSlotId requestId retries)
      ((raceRuns q clients limit requestId grantId retries ttl).final (Race.start q clients limit store clock) history).sys.store
      ((raceRuns q clients limit requestId grantId retries ttl).clock clock history) := by
  have start : Racing q clients limit requestId grantId retries clock (Race.start q clients limit store clock) := by
    refine ⟨accustomed_start store, named, ids, ?_, fun begun => absurd rfl begun, ?_⟩
    · intro i v view
      cases view
    · intro through
      cases through
  have racing := valid.invariant
    (fun t now e race order allowed racing => Racing.step separate plain racing order allowed) start
  exact racing.freed through

end Race

section Tests

/-- The completion of an attempt runs between the claim of its slot and the hand-over. -/
def overtakenRun : List (ℚ × RaceEvent Unit) :=
  [(1, .pass () .answered {}), (2, .pass () .answered {}), (3, .pass () .answered {}), (4, .pass () .answered {}),
    (5, .pass () .answered {}), (6, .removeRequest), (7, .pass () .answered {}), (8, .releaseConcurrency),
    (9, .pass () .answered {}), (10, .pass () .answered {})]

/-- A test of what may happen in a race. -/
def RaceEvent.due (race : Race Unit) : RaceEvent Unit → Bool
  | .pass _ _ _ => true
  | .removeRequest => decide (race.completion = .due)
  | .releaseConcurrency => decide (race.completion = .removed)

theorem raceRuns_of_test {q : QueueKeys} {clients : Unit → Client} {limit : SlotLimit} {requestId : String}
    {grantId : Option String} {retries ttl : JsNumber} (now : ℚ) (e : RaceEvent Unit) (race : Race Unit)
    (test : e.due race = true) : (raceRuns q clients limit requestId grantId retries ttl).allowed now e race := by
  cases e with
  | pass i fate outlook => trivial
  | removeRequest => exact (of_decide_eq_true test : race.completion = .due)
  | releaseConcurrency => exact (of_decide_eq_true test : race.completion = .removed)

def queuedOnce : State := ((addRequest (clientQueue "ns") (plainRequest "first" "two") 86400 0).run State.fresh).2

theorem queuedOnce_ids (id : String) (there : ((clientQueue "ns").item queuedOnce 0 id).isSome) : PlainId id := by
  have empty : (clientQueue "ns").item State.fresh 0 "first" = none := rfl
  rcases addRequest_run (clientQueue "ns") (plainRequest "first" "two") 86400 0 State.fresh with
    ⟨e, run⟩ | ⟨run, -⟩ | ⟨score, seconds, whole, -, -, run⟩
  · rw [queuedOnce, run] at there
    cases there
  · rw [queuedOnce, run] at there
    cases there
  · rw [queuedOnce, run, item_enqueue_self whole.pos empty] at there
    by_cases same : id = "first"
    · rw [same]
      decide
    · rw [Function.update_of_ne (by exact same)] at there
      cases there

theorem plain_separate : twoSlots.Separate (clientQueue "ns") fun _ : Unit => plainClient "one" where
  slots _ := (outside_queue (by decide) (by decide) : "ns:slots" ∉ (clientQueue "ns").keys)
  costs _ := (outside_queue (by decide +kernel) (by decide +kernel) : costsKey "ns:slots" ∉ (clientQueue "ns").keys)
  grants _ := outside_queue (by decide) (by decide)
  apart _ _ := (by decide +kernel : "ns:slots" ≠ "ns:frozenGrants")

theorem no_slot_stranded_overtaken :
    ¬ SlotHeld (twoSlots.getSlotKey none) (twoSlots.getSlotId "first" 0)
      ((raceRuns (clientQueue "ns") (fun _ => plainClient "one") twoSlots "first" none 0 60).final
        (Race.start (clientQueue "ns") (fun _ => plainClient "one") twoSlots queuedOnce 0) overtakenRun).sys.store
      ((raceRuns (clientQueue "ns") (fun _ => plainClient "one") twoSlots "first" none 0 60).clock 0 overtakenRun) := by
  have named : Named (clientQueue "ns") 0 queuedOnce := by
    have empty : Named (clientQueue "ns") 0 State.fresh := nofun
    exact empty.add _ _
  exact no_slot_stranded plain_separate (by decide) named queuedOnce_ids
    (Timed.Machine.valid_of_checks raceRuns_of_test (by decide +kernel)) (by decide +kernel)

end Tests

end Dianemo
