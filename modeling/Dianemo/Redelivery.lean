import Dianemo.Window

namespace Dianemo

open JsNumber

/-- `isFrozen`. -/
def isFrozen (s : State) (key : String) (now : ℚ) : Bool :=
  match readFreezeState s key now with
  | none => false
  | some state => if now < state.frozenUntil then true else decide (0 < state.thawRequestCount)

/-- A read of a freeze key. -/
inductive FreezeRead where
  | getFreezeState
  | canProcessRequest
  | isFrozen

inductive FreezeAnswer where
  | state (answer : Option FreezeState)
  | canProcess (answer : CanProcess)
  | frozen (answer : Bool)

def FreezeRead.answer (key : String) (now : ℚ) (s : State) : FreezeRead → FreezeAnswer
  | .getFreezeState => .state (readFreezeState s key now)
  | .canProcessRequest => .canProcess (Dianemo.canProcessRequest s key now)
  | .isFrozen => .frozen (Dianemo.isFrozen s key now)

inductive ThawEvent where
  | armFreeze (frozenUntil thawRequestCount : JsNumber) (emptiesBucket : Bool)
  | deliver (success : Bool) (completionId : String)
  | read (question : FreezeRead)

/-- Arms, reads, and completions delivered as often as the transport likes. -/
def thawRuns (key : String) : Timed.Machine ℚ State ThawEvent where
  step now event s := match event with
    | .armFreeze frozenUntil thawRequestCount emptiesBucket =>
      ((armFreeze key frozenUntil thawRequestCount emptiesBucket now).run s).2
    | .deliver success completionId => ((updateThawProgress key success (some completionId) now).run s).2
    | .read _ => s
  allowed _ event _ := ∀ success completionId, event = .deliver success completionId → completionId ≠ ""

/-- What an event is answered, if it asks anything. -/
def ThawEvent.answer (key : String) (now : ℚ) (s : State) : ThawEvent → List (ℚ × FreezeAnswer)
  | .read question => [(now, question.answer key now s)]
  | .armFreeze .. => []
  | .deliver .. => []

/-- The answers a run gets, with the instants it gets them at. -/
def freezeAnswers (key : String) : State → List (ℚ × ThawEvent) → List (ℚ × FreezeAnswer)
  | _, [] => []
  | s, (now, event) :: rest => event.answer key now s ++ freezeAnswers key ((thawRuns key).step now event s) rest

/-- A history without the deliveries of what was delivered before. -/
def firstDeliveries : List String → List (ℚ × ThawEvent) → List (ℚ × ThawEvent)
  | _, [] => []
  | before, (now, .deliver success completionId) :: rest =>
    if completionId ∈ before then firstDeliveries before rest
    else (now, .deliver success completionId) :: firstDeliveries (completionId :: before) rest
  | before, (now, .armFreeze frozenUntil thawRequestCount emptiesBucket) :: rest =>
    (now, .armFreeze frozenUntil thawRequestCount emptiesBucket) :: firstDeliveries before rest
  | before, (now, .read question) :: rest => (now, .read question) :: firstDeliveries before rest

/-- The probes the freeze in force still owes. -/
def probesOwed (s : State) (key : String) (now : ℚ) : ℚ :=
  (readFreezeState s key now).elim 0 fun state => state.thawRequestCount.toRat

/-- How far a delivery of `completionId` lowers the probes owed. -/
def loweredBy (key completionId : String) (now : ℚ) (event : ThawEvent) (s : State) : ℚ :=
  match event with
  | .deliver _ id =>
    if id = completionId then
      Max.max 0 (probesOwed s key now - probesOwed ((thawRuns key).step now event s) key now) else 0
  | .armFreeze .. => 0
  | .read _ => 0

section Progress

variable {s : State} {key : String} {now : ℚ}

theorem hash_entry (s : State) (key : String) (now : ℚ) :
    (s.entry key now).hash.getD ∅ = (s.hash key now).getD ∅ := by
  rw [State.entry, State.hash]
  cases s.live key now <;> rfl

theorem hget_withFields {e : Entry} {h : Fields} (s : State) (key : String)
    (fresh : e.expired now = false) (field : String) :
    (s.put key { e with hash := some h }).hget key field now = h.lookup field := by
  have live : (s.put key { e with hash := some h }).live key now = some { e with hash := some h } :=
    State.live_put_self fresh
  simp only [State.hget, State.hash, live, Option.bind_some]

/-- A write to some fields of a live hash leaves the others. -/
theorem lookup_count (s : State) (key : String) (count : JsNumber) (field : String) :
    (withFields ((s.entry key now).hash.getD ∅) [("thawRequestCount", .num count)]).lookup field =
      if field = "thawRequestCount" then some (.num count) else s.hget key field now := by
  rw [hash_entry, State.hget]
  by_cases this_ : field = "thawRequestCount"
  · subst this_
    rw [if_pos rfl]
    exact AList.lookup_insert _
  · rw [if_neg this_]
    refine (AList.lookup_insert_ne this_).trans ?_
    cases s.hash key now <;> rfl

/-- What a counted probe leaves under the freeze key: one probe fewer. -/
structure Counted (key : String) (now : ℚ) (u s' : State) (newCount : JsNumber) : Prop where
  frozenUntil : s'.hget key "frozenUntil" now = u.hget key "frozenUntil" now
  thawRequestCount : s'.hget key "thawRequestCount" now = some (.num newCount)
  keeps : ∀ other, other ≠ key → s'.store other = u.store other

theorem counted_setFields (u : State) (newCount : JsNumber) :
    Counted key now u (u.setFields key now [("thawRequestCount", .num newCount)]) newCount where
  frozenUntil := (hget_withFields _ _ (u.entry_expired key now) _).trans (lookup_count u key newCount _)
  thawRequestCount := (hget_withFields _ _ (u.entry_expired key now) _).trans (lookup_count u key newCount _)
  keeps _ ne := State.put_store_ne ne

theorem counted_putFields {ttl : ℚ} (positive : 0 < ttl) (u : State) (newCount : JsNumber) :
    Counted key now u (u.putFields key now [("thawRequestCount", .num newCount)] ttl) newCount := by
  have fresh : ({ u.entry key now with expiresAt := some (now + ttl * 1000) } : Entry).expired now = false :=
    expired_of_lt rfl (by linarith)
  exact ⟨(hget_withFields _ _ fresh _).trans (lookup_count u key newCount _),
    (hget_withFields _ _ fresh _).trans (lookup_count u key newCount _), fun _ ne => State.put_store_ne ne⟩

theorem counted_run (F : ℚ) (newCount : JsNumber) (u : State) :
    Counted key now u ((do
        Op.modify fun s => s.setFields key now [("thawRequestCount", .num newCount)]
        expire key (freezeTtlSeconds (fin F) newCount now) now : Op Unit).run u).2 newCount := by
  obtain ⟨ttl, sized, positive, -⟩ := freezeTtlSeconds_fin F newCount now
  rw [Op.run_bind_ok (Op.run_modify _ u), sized]
  cases normal : normalizeTtlSeconds (fin ttl) with
  | error e =>
    rw [expire, Op.run_bind_error (by rw [normal]; rfl)]
    exact counted_setFields u newCount
  | ok w =>
    have up := normalizeTtlSeconds_le normal
    have whole := normalizeTtlSeconds_whole normal (positive.trans_le up)
    have resized : (expire key (fin ttl) now).run (u.setFields key now [("thawRequestCount", .num newCount)]) =
        (expire key w now).run (u.setFields key now [("thawRequestCount", .num newCount)]) := by
      simp only [expire, normal, whole.normalize]
    rw [resized, expire_setFields whole]
    exact counted_putFields whole.pos u newCount

/-- A completion seen before changes nothing. -/
theorem updateThawProgress_seen {success : Bool} {completionId : Option String}
    (seen : completionSeen s key completionId now = true) :
    ((updateThawProgress key success completionId now).run s).2 = s := by
  cases completionId with
  | none => cases seen
  | some id =>
    have skip : id = "" ∨ completionSeen s key (some id) now = true := .inr seen
    have recorded : (recordCompletion key (some id) now).run s = (.ok (), s) := by
      rw [recordCompletion, Op.run_bind_ok (Op.run_read s), if_pos skip]
      rfl
    rw [updateThawProgress, Op.run_bind_ok (Op.run_read s), Op.run_bind_ok recorded, Op.run_bind_ok (Op.run_read s)]
    cases usableDeadline (s.hget key "frozenUntil" now) with
    | none => rfl
    | some F =>
      simp only [seen, if_true]
      rfl

/-- What a delivery turns the store into, once it is recorded. -/
inductive Progressed (key : String) (now : ℚ) (u : State) : State → Prop where
  | same : Progressed key now u u
  /-- The window is past and at most one probe was owed. -/
  | cleared (F : ℚ) (deadline : usableDeadline (u.hget key "frozenUntil" now) = some F) (past : F ≤ now)
      (owed : (parseFiniteStored (u.hget key "thawRequestCount" now) 0).toRat ≤ 1) :
      Progressed key now u (u.delete key)
  | counted (F : ℚ) (deadline : usableDeadline (u.hget key "frozenUntil" now) = some F) (s' : State)
      (written : Counted key now u s'
        (JsNumber.max 0 (parseFiniteStored (u.hget key "thawRequestCount" now) 0 - 1))) : Progressed key now u s'

theorem updateThawProgress_progressed (success : Bool) (completionId : Option String) (s : State) :
    Progressed key now ((recordCompletion key completionId now).run s).2
      ((updateThawProgress key success completionId now).run s).2 := by
  obtain ⟨u, recorded, -⟩ := recordCompletion_keeps key completionId now s
  rw [updateThawProgress, Op.run_bind_ok (Op.run_read s), Op.run_bind_ok recorded,
    Op.run_bind_ok (Op.run_read u), recorded]
  cases deadline : usableDeadline (u.hget key "frozenUntil" now) with
  | none => exact .same
  | some F =>
    dsimp only
    obtain ⟨c, count⟩ : ∃ c, parseFiniteStored (u.hget key "thawRequestCount" now) 0 = fin c := 
      ⟨_, (fin_toRat (parseFiniteStored_zero_finite _)).symm⟩
    have owed : c ≤ 1 → (parseFiniteStored (u.hget key "thawRequestCount" now) 0).toRat ≤ 1 := by
      rw [count]
      exact id
    by_cases seen : completionSeen s key completionId now
    · rw [if_pos seen]
      exact .same
    rw [if_neg seen]
    by_cases spent : F ≤ now ∧ parseFiniteStored (u.hget key "thawRequestCount" now) 0 ≤ 0
    · rw [if_pos spent, Op.run_bind_ok (Op.run_modify _ u)]
      refine .cleared F deadline spent.1 (owed ?_)
      have none_ : c ≤ 0 := by
        rw [count, zero_eq, fin_le_fin] at spent
        exact spent.2
      linarith
    rw [if_neg spent]
    by_cases failed : ¬ success
    · rw [if_pos failed]
      exact .same
    rw [if_neg failed]
    by_cases last : JsNumber.max 0 (parseFiniteStored (u.hget key "thawRequestCount" now) 0 - 1) = 0 ∧ F ≤ now
    · rw [if_pos last, Op.run_bind_ok (Op.run_modify _ u)]
      refine .cleared F deadline last.2 (owed ?_)
      have few := last.1
      rw [count, zero_eq, one_eq, sub_fin, max_fin, fin.injEq] at few
      linarith [le_max_right (0 : ℚ) (c - 1)]
    rw [if_neg last]
    refine .counted F deadline _ ?_
    have counted : Counted key now u _ _ := counted_run F
      (JsNumber.max 0 (parseFiniteStored (u.hget key "thawRequestCount" now) 0 - 1)) u
    rw [Op.run_bind_ok (Op.run_modify _ u)] at counted ⊢
    generalize u.setFields key now [("thawRequestCount", Field.num
      (JsNumber.max 0 (parseFiniteStored (u.hget key "thawRequestCount" now) 0 - 1)))] = v at counted ⊢
    cases run : (expire key (freezeTtlSeconds (fin F)
        (JsNumber.max 0 (parseFiniteStored (u.hget key "thawRequestCount" now) 0 - 1)) now) now).run v with
    | mk result w =>
      rw [run] at counted
      cases result with
      | error e =>
        rw [Op.run_bind_error run]
        exact counted
      | ok done =>
        rw [Op.run_bind_ok run]
        exact counted

theorem probesOwed_of_deadline {u : State} {F c : ℚ}
    (deadline : usableDeadline (u.hget key "frozenUntil" now) = some F)
    (count : parseFiniteStored (u.hget key "thawRequestCount" now) 0 = fin c) :
    probesOwed u key now = if F ≤ now ∧ c ≤ 0 then 0 else c := by
  rw [probesOwed, readFreezeState, deadline]
  have same : F ≤ now ∧ parseFiniteStored (u.hget key "thawRequestCount" now) 0 ≤ 0 ↔ F ≤ now ∧ c ≤ 0 := by
    rw [count, zero_eq, fin_le_fin]
  dsimp only
  by_cases spent : F ≤ now ∧ c ≤ 0
  · rw [if_pos spent, if_pos (same.mpr spent), Option.elim_none]
  · rw [if_neg spent, if_neg fun both => spent (same.mp both), Option.elim_some, count, toRat_fin]

/-- One delivery takes at most one off the probes owed. -/
theorem Progressed.owed {u s' : State} (progressed : Progressed key now u s') :
    probesOwed u key now - probesOwed s' key now ≤ 1 := by
  cases progressed with
  | same => linarith
  | cleared F deadline past owed =>
    obtain ⟨c, count⟩ : ∃ c, parseFiniteStored (u.hget key "thawRequestCount" now) 0 = fin c :=
      ⟨_, (fin_toRat (parseFiniteStored_zero_finite _)).symm⟩
    have gone : probesOwed (u.delete key) key now = 0 := by
      rw [probesOwed, readFreezeState, hget_of_absent (State.live_delete_self u key now)]
      rfl
    rw [count, toRat_fin] at owed
    rw [gone, probesOwed_of_deadline deadline count]
    split <;> linarith
  | counted F deadline s' written =>
    obtain ⟨c, count⟩ : ∃ c, parseFiniteStored (u.hget key "thawRequestCount" now) 0 = fin c :=
      ⟨_, (fin_toRat (parseFiniteStored_zero_finite _)).symm⟩
    have after : parseFiniteStored (s'.hget key "thawRequestCount" now) 0 = fin (Max.max 0 (c - 1)) := by
      rw [written.thawRequestCount, count, one_eq, sub_fin, zero_eq, max_fin]
      rfl
    rw [probesOwed_of_deadline deadline count, probesOwed_of_deadline (written.frozenUntil ▸ deadline) after]
    have most := le_max_left (0 : ℚ) (c - 1)
    have rest := le_max_right (0 : ℚ) (c - 1)
    generalize Max.max 0 (c - 1) = d at most rest ⊢
    by_cases none_ : F ≤ now ∧ c ≤ 0
    · rw [if_pos none_]
      split <;> linarith
    · rw [if_neg none_]
      split
      · linarith
      · linarith

theorem expire_store {other : String} (ne : other ≠ key) (ttl : JsNumber) (s : State) :
    ((expire key ttl now).run s).2.store other = s.store other := by
  rw [expire]
  cases normal : normalizeTtlSeconds ttl with
  | error e => rw [Op.run_bind_error (Op.run_lift _ s)]
  | ok w =>
    rw [Op.run_bind_ok (Op.run_lift _ s), Op.run_modify]
    dsimp only
    split
    · rfl
    · split
      · exact State.delete_store_ne ne
      · exact State.put_store_ne ne

/-- Arming touches the freeze key alone. -/
theorem armFreeze_store {other : String} (ne : other ≠ key) (frozenUntil thawRequestCount : JsNumber)
    (emptiesBucket : Bool) (s : State) :
    ((armFreeze key frozenUntil thawRequestCount emptiesBucket now).run s).2.store other = s.store other := by
  rw [armFreeze, writeFreezeState, Op.run_bind_ok (Op.run_read s)]
  dsimp only
  generalize normalizeTtlSeconds (freezeTtlSeconds _ _ now) = sized
  cases sized with
  | error e => rw [Op.run_bind_error (Op.run_lift _ s)]
  | ok w =>
    rw [Op.run_bind_ok (Op.run_lift _ s), Op.run_bind_ok (Op.run_modify _ s)]
    generalize written : s.setFields key now _ = u
    have same : u.store other = s.store other := written ▸ State.put_store_ne ne
    cases run : (expire key w now).run u with
    | mk result v =>
      have kept : ((expire key w now).run u).2.store other = u.store other := expire_store ne _ u
      rw [run] at kept
      cases result with
      | error e =>
        rw [Op.run_bind_error run]
        exact kept.trans same
      | ok done =>
        rw [Op.run_bind_ok run]
        exact kept.trans same

theorem Progressed.store {u s' : State} (progressed : Progressed key now u s') {other : String} (ne : other ≠ key) :
    s'.store other = u.store other := by
  cases progressed with
  | same => rfl
  | cleared F deadline past owed => exact State.delete_store_ne ne
  | counted F deadline s' written => exact written.keeps other ne

end Progress

/-- How long a recorded completion is known, in milliseconds. -/
def completionMillis : ℚ := freezeProbeTtlSeconds * 1000

/-- `id` is among the completions of `key`, and stays there until `lapses`. -/
def Recorded (key : String) (lapses : ℚ) (s : State) (id : String) : Prop :=
  ∃ e members T, s.store (thawCompletionsKey key) = some e ∧ e.set = some members ∧ id ∈ members ∧
    e.expiresAt = some T ∧ lapses ≤ T

section Completions

variable {s : State} {key id : String} {t now lapses : ℚ}

theorem completionSeen_iff : completionSeen s key (some id) now = true ↔
    id ≠ "" ∧ ∃ e members, s.live (thawCompletionsKey key) now = some e ∧ e.set = some members ∧ id ∈ members := by
  simp only [completionSeen, Bool.and_eq_true, decide_eq_true_eq]
  refine and_congr_right fun _ => ?_
  cases s.live (thawCompletionsKey key) now with
  | none => simp
  | some e => cases set : e.set <;> simp [set]

theorem Recorded.live (recorded : Recorded key lapses s id) (within : now < lapses) :
    ∃ e members, s.live (thawCompletionsKey key) now = some e ∧ e.set = some members ∧ id ∈ members := by
  obtain ⟨e, members, T, stored, set, mem, at_, later⟩ := recorded
  exact ⟨e, members, State.live_eq_some.mpr ⟨stored, expired_of_lt at_ (within.trans_le later)⟩, set, mem⟩

theorem Recorded.seen (recorded : Recorded key lapses s id) (within : now < lapses) (named : id ≠ "") :
    completionSeen s key (some id) now = true :=
  completionSeen_iff.mpr ⟨named, recorded.live within⟩

theorem Recorded.congr {s' : State} (same : s'.store (thawCompletionsKey key) = s.store (thawCompletionsKey key))
    (recorded : Recorded key lapses s id) : Recorded key lapses s' id := by
  simpa only [Recorded, same] using recorded

/-- What is seen later was seen before. -/
theorem completionSeen_sooner (order : t ≤ now) (seen : completionSeen s key (some id) now = true) :
    completionSeen s key (some id) t = true := by
  obtain ⟨named, e, members, live, rest⟩ := completionSeen_iff.mp seen
  obtain ⟨stored, fresh⟩ := State.live_eq_some.mp live
  refine completionSeen_iff.mpr ⟨named, e, members, State.live_eq_some.mpr ⟨stored, ?_⟩, rest⟩
  cases at_ : e.expiresAt with
  | none => simp [Entry.expired, at_]
  | some T =>
    simp only [Entry.expired, at_, decide_eq_false_iff_not, not_le] at fresh ⊢
    exact order.trans_lt fresh

/-- The completions of `key` once a new one is recorded. -/
theorem recordCompletion_store (named : id ≠ "") (unseen : completionSeen s key (some id) now = false) :
    ((recordCompletion key (some id) now).run s).2.store (thawCompletionsKey key) =
      some { s.entry (thawCompletionsKey key) now with
        set := some (insert id ((s.entry (thawCompletionsKey key) now).set.getD ∅))
        expiresAt := some (now + completionMillis) } := by
  have week : WholeTtl freezeProbeTtlSeconds :=
    ⟨by norm_num [freezeProbeTtlSeconds], by norm_num [freezeProbeTtlSeconds, redisMaxTtlSeconds],
      by norm_num [freezeProbeTtlSeconds]⟩
  have skip : ¬ (id = "" ∨ completionSeen s key (some id) now = true) := by simp [named, unseen]
  have made : (s.addMember (thawCompletionsKey key) now id).live (thawCompletionsKey key) now =
      some { s.entry (thawCompletionsKey key) now with
        set := some (insert id ((s.entry (thawCompletionsKey key) now).set.getD ∅)) } :=
    State.live_put_self (s.entry_expired _ now)
  rw [recordCompletion, Op.run_bind_ok (Op.run_read s), if_neg skip, Op.run_bind_ok (Op.run_modify _ s),
    expire_put week made, State.put_store_self]
  rfl

/-- A first delivery is recorded, beside what was recorded before it. -/
theorem deliver_recorded (success : Bool) (named : id ≠ "") (unseen : completionSeen s key (some id) now = false)
    (later : lapses ≤ now + completionMillis) :
    Recorded key lapses ((updateThawProgress key success (some id) now).run s).2 id ∧
      (∀ other, now < lapses → Recorded key lapses s other →
        Recorded key lapses ((updateThawProgress key success (some id) now).run s).2 other) ∧
      ∀ other, completionSeen ((updateThawProgress key success (some id) now).run s).2 key (some other) now = true →
        other = id ∨ completionSeen s key (some other) now = true := by
  have progressed : Progressed key now _ _ := updateThawProgress_progressed success (some id) s
  have stored := (progressed.store (thawCompletionsKey_ne key).symm).trans (recordCompletion_store named unseen)
  generalize ((updateThawProgress key success (some id) now).run s).2 = s' at stored
  refine ⟨⟨_, _, _, stored, rfl, Finset.mem_insert_self _ _, rfl, later⟩, ?_, ?_⟩
  · intro other within recorded
    obtain ⟨e, members, live, set, mem⟩ := recorded.live within
    refine ⟨_, _, _, stored, rfl, Finset.mem_insert_of_mem ?_, rfl, later⟩
    simpa [State.entry, live, set] using mem
  · intro other seen
    obtain ⟨named', e, members, live, set, mem⟩ := completionSeen_iff.mp seen
    obtain ⟨stored', -⟩ := State.live_eq_some.mp live
    rw [stored, Option.some.injEq] at stored'
    subst stored'
    cases set
    rcases Finset.mem_insert.mp mem with rfl | old
    · exact .inl rfl
    · right
      refine completionSeen_iff.mpr ⟨named', ?_⟩
      rw [State.entry] at old
      cases found : s.live (thawCompletionsKey key) now with
      | none => simp [found] at old
      | some e =>
        cases before : e.set with
        | none => simp [found, before] at old
        | some members => exact ⟨e, members, rfl, before, by simpa [found, before] using old⟩

end Completions

section Deliveries

variable {s : State} {key : String} {t lapses : ℚ}

theorem deliver_owed {now : ℚ} (success : Bool) (id : String) (s : State) :
    probesOwed s key now - probesOwed ((thawRuns key).step now (.deliver success id) s) key now ≤ 1 := by
  obtain ⟨u, recorded, live⟩ := recordCompletion_keeps key (some id) now s
  have progressed : Progressed key now _ _ := updateThawProgress_progressed success (some id) s
  rw [recorded] at progressed
  have same : probesOwed s key now = probesOwed u key now := by
    simp only [probesOwed, readFreezeState, State.hget_congr live]
  rw [same]
  exact progressed.owed

theorem deliver_seen {now : ℚ} {success : Bool} {id : String}
    (recorded : Recorded key lapses s id) (within : now < lapses)
    (named : id ≠ "") : (thawRuns key).step now (.deliver success id) s = s :=
  updateThawProgress_seen (recorded.seen within named)

/-- Redeliveries change neither an answer nor the state, and count nothing down. -/
theorem redelivery_run {history : List (ℚ × ThawEvent)} {before : List String}
    (valid : (thawRuns key).Valid t s history)
    (within : (thawRuns key).clock t history < lapses) (long : lapses ≤ t + completionMillis)
    (known : ∀ id ∈ before, Recorded key lapses s id)
    (unseen : ∀ now success id, (now, .deliver success id) ∈ history → id ∉ before →
      completionSeen s key (some id) t = false) :
    (thawRuns key).final s (firstDeliveries before history) = (thawRuns key).final s history ∧
      freezeAnswers key s (firstDeliveries before history) = freezeAnswers key s history ∧
      ∀ id, (thawRuns key).total (loweredBy key id) s history ≤ if id ∈ before then 0 else 1 := by
  induction history generalizing t s before with
  | nil =>
    refine ⟨rfl, rfl, fun id => ?_⟩
    simp only [Timed.Machine.total]
    split <;> norm_num
  | cons head rest ih =>
    obtain ⟨now, event⟩ := head
    obtain ⟨order, allowed, valid⟩ := Timed.Machine.valid_cons.mp valid
    have soon : now < lapses := valid.le_clock.trans_lt within
    have long' : lapses ≤ now + completionMillis := by linarith
    -- what the rest of the run asks of the state it starts from
    have onward : ∀ s', s'.store (thawCompletionsKey key) = s.store (thawCompletionsKey key) →
        (∀ id ∈ before, Recorded key lapses s' id) ∧
          ∀ now' success id, (now', .deliver success id) ∈ rest → id ∉ before →
          completionSeen s' key (some id) now = false := by
      intro s' same
      refine ⟨fun id mem => (known id mem).congr same, fun now' success id mem new => ?_⟩
      have before_ := unseen now' success id (List.mem_cons_of_mem _ mem) new
      have same' : completionSeen s' key (some id) now = completionSeen s key (some id) now := by
        simp only [completionSeen, State.live_congr same]
      rw [same']
      exact Bool.eq_false_iff.mpr fun seen =>
        absurd (completionSeen_sooner order seen) (Bool.eq_false_iff.mp before_)
    cases event with
    | armFreeze frozenUntil thawRequestCount emptiesBucket =>
      obtain ⟨known', unseen'⟩ :=
        onward _ (armFreeze_store (thawCompletionsKey_ne key).symm frozenUntil thawRequestCount
        emptiesBucket s)
      obtain ⟨final, answers, lowered⟩ := ih valid within long' known' unseen'
      refine ⟨final, answers, fun id => ?_⟩
      rw [Timed.Machine.total, loweredBy, zero_add]
      exact lowered id
    | read question =>
      obtain ⟨known', unseen'⟩ := onward s rfl
      obtain ⟨final, answers, lowered⟩ := ih valid within long' known' unseen'
      refine ⟨final, congrArg ((now, question.answer key now s) :: ·) answers, fun id => ?_⟩
      rw [Timed.Machine.total, loweredBy, zero_add]
      exact lowered id
    | deliver success id =>
      have named : id ≠ "" := allowed success id rfl
      by_cases repeated : id ∈ before
      · have idle : (thawRuns key).step now (.deliver success id) s = s :=
          deliver_seen (known id repeated) soon named
        obtain ⟨known', unseen'⟩ := onward s rfl
        rw [idle] at valid
        obtain ⟨final, answers, lowered⟩ := ih valid within long' known' unseen'
        rw [firstDeliveries, if_pos repeated]
        refine ⟨?_, ?_, fun other => ?_⟩
        · rw [final, Timed.Machine.final, idle]
        · rw [answers, freezeAnswers, idle]
          rfl
        · rw [Timed.Machine.total, loweredBy, idle, sub_self, max_self, ite_self, zero_add]
          exact lowered other
      · have new : completionSeen s key (some id) now = false :=
          Bool.eq_false_iff.mpr fun seen => absurd (completionSeen_sooner order seen)
            (Bool.eq_false_iff.mp (unseen now success id (List.mem_cons_self ..) repeated))
        obtain ⟨made, kept, others⟩ := deliver_recorded success named new long'
        have known' : ∀ other ∈ id :: before,
            Recorded key lapses ((thawRuns key).step now (.deliver success id) s) other := by
          intro other mem
          rcases List.mem_cons.mp mem with rfl | mem
          · exact made
          · exact kept other soon (known other mem)
        have unseen' : ∀ now' success' other, (now', .deliver success' other) ∈ rest → other ∉ id :: before →
            completionSeen ((thawRuns key).step now (.deliver success id) s) key (some other) now = false := by
          intro now' success' other mem apart
          obtain ⟨ne, new'⟩ := not_or.mp (List.mem_cons.not.mp apart)
          refine Bool.eq_false_iff.mpr fun seen => ?_
          rcases others other seen with same | sooner
          · exact ne same
          · exact absurd (completionSeen_sooner order sooner)
              (Bool.eq_false_iff.mp (unseen now' success' other (List.mem_cons_of_mem _ mem) new'))
        obtain ⟨final, answers, lowered⟩ := ih valid within long' known' unseen'
        rw [firstDeliveries, if_neg repeated]
        refine ⟨final, answers, fun other => ?_⟩
        have later := lowered other
        rw [Timed.Machine.total, loweredBy]
        by_cases this_ : id = other
        · subst this_
          rw [if_pos (List.mem_cons_self ..)] at later
          rw [if_pos rfl, if_neg repeated]
          have step : probesOwed s key now - probesOwed
              ((thawRuns key).step now (.deliver success id) s) key now ≤ 1 :=
            deliver_owed success id s
          linarith [max_le zero_le_one step]
        · rw [if_neg this_, zero_add]
          refine later.trans (le_of_eq ?_)
          simp [Ne.symm this_]

/-- Thaw progress is counted once however often it is delivered: no answer tells the
run from one without the redeliveries, and no id takes more than one probe off. -/
theorem thaw_progress_once {history : List (ℚ × ThawEvent)} (valid : (thawRuns key).Valid t s history)
    (span : (thawRuns key).clock t history < t + completionMillis)
    (first : ∀ now success id, (now, .deliver success id) ∈ history → completionSeen s key (some id) t = false) :
    freezeAnswers key s (firstDeliveries [] history) = freezeAnswers key s history ∧
      ∀ id, (thawRuns key).total (loweredBy key id) s history ≤ 1 := by
  obtain ⟨-, answers, lowered⟩ := redelivery_run valid span le_rfl (fun id mem => absurd mem List.not_mem_nil)
    fun now success id mem _ => first now success id mem
  exact ⟨answers, fun id => by simpa using lowered id⟩

end Deliveries

/-- A completion id is a string the clients made. -/
def ThawEvent.named : ThawEvent → Bool
  | .deliver _ id => decide (id ≠ "")
  | .armFreeze .. => true
  | .read _ => true

theorem named_allowed (key : String) (now : ℚ) (event : ThawEvent) (s : State) (named : event.named = true) :
    (thawRuns key).allowed now event s := by
  rintro success id rfl
  exact of_decide_eq_true named

/-- A completion delivered before the freeze, under it, after it was cleared and under the next one. -/
def redeliveredRun : List (ℚ × ThawEvent) :=
  [(0, .deliver true "early"), (0, .armFreeze 500 1 true), (600, .deliver true "early"), (700, .read .isFrozen),
    (800, .deliver true "probe"), (800, .deliver true "probe"), (900, .armFreeze 500 2 true),
      (950, .deliver true "probe"), (960, .read .canProcessRequest)]

theorem thaw_progress_once_redelivered :
    freezeAnswers "freeze" State.fresh (firstDeliveries [] redeliveredRun) =
      freezeAnswers "freeze" State.fresh redeliveredRun ∧
      ∀ id, (thawRuns "freeze").total (loweredBy "freeze" id) State.fresh redeliveredRun ≤ 1 := by
  have checked : (thawRuns "freeze").checks (fun _ event _ => event.named) 0 State.fresh redeliveredRun = true := by
    decide +kernel
  have valid : (thawRuns "freeze").Valid 0 State.fresh redeliveredRun :=
    Timed.Machine.valid_of_checks (named_allowed "freeze") checked
  refine thaw_progress_once valid (by decide +kernel) fun now success id _ => ?_
  simp [completionSeen, State.live, State.fresh]

end Dianemo
