import Dianemo.Settling

namespace Dianemo

namespace Completions

/-- The number is of a record of the completion. -/
def Names (client : CompletionClient) (s : Completions) (entry : String × ℕ) : Prop :=
  ∃ p, s.records[entry.2]? = some p ∧ p.data.completionId client.print = entry.1

/-- A pending entry, or one a flush loop may still come to. -/
def Held (s : Completions) (entry : String × ℕ) : Prop :=
  entry ∈ s.pendingRequestDone ∨ ∃ loop ∈ s.flushLoops, entry ∈ loop.rest

/-- An entry a flush loop may still come to. -/
def ToFlush (s : Completions) (entry : String × ℕ) : Prop :=
  (s.role = .controller ∧ entry ∈ s.pendingRequestDone) ∨ ∃ loop ∈ s.flushLoops, entry ∈ loop.rest

theorem ToFlush.held {s : Completions} {entry : String × ℕ} (flushed : s.ToFlush entry) : s.Held entry :=
  flushed.imp_left And.right

def Known (s : Completions) (completionId : String) : Prop :=
  completionId ∈ s.completedRequestIds ∨ completionId ∈ s.pendingRequestDone.map Prod.fst

/-- A loop that announces started then: one that waits, or one that has just dropped the retained copies. -/
def Began (client : CompletionClient) (now started : ℚ) (s : Completions) : Prop :=
  (started = now ∧ ∀ entry ∈ s.pendingRequestDone, client.foreign s entry.2 = false) ∨
    ∃ loop ∈ s.forwardLoops, loop.now = started

/-- What may happen to a client of completions at one go: `heard` are the completions
delivered, `told` those that were acknowledged. -/
inductive Move (client : CompletionClient) (now : ℚ) (heard : RequestDoneData → Prop) (told : String → Prop)
    (s : Completions) : Completions → Prop
  | announces {data : RequestDoneData} (hears : heard data) :
      Move client now heard told s (s.emit (.announced data))
  | stores {data : RequestDoneData} (hears : heard data) (unknown : ¬ s.Known (data.completionId client.print)) :
    Move client now heard told s (client.storePendingRequestDone now data s)
  | answers {data : RequestDoneData} (hears : heard data)
    (known : data.completionId client.print ∈ s.completedRequestIds) (another : data.ownerId ≠ client.instanceId) :
    Move client now heard told s (s.emit (.acknowledged (data.completionId client.print) data.ownerId))
  | told {completionId : String} (tells : told completionId) :
    Move client now heard told s (s.handleRequestDoneApplied completionId)
  | loops {loops : List FlushLoop} (held : ∀ loop ∈ loops, ∀ entry ∈ loop.rest, s.ToFlush entry) :
    Move client now heard told s { s with flushLoops := loops }
  | begins {completionId : String} {record : ℕ} {p : PendingRequestDone} {rest : List (String × ℕ)}
    (held : s.ToFlush (completionId, record)) (after : ∀ entry ∈ rest, s.ToFlush entry)
    (idle : ∀ flush ∈ s.completionFlushes, flush.completionId ≠ completionId)
    (found : s.records[record]? = some p) : Move client now heard told s
      (settleStretch { s with flushes := s.flushes + 1, flushLoops := s.flushLoops ++ [⟨s.flushes, rest⟩] }
        ⟨s.flushes, completionId, record, .returned⟩ p.handleRequestDone)
  | goesOn {flush : CompletionFlush} {p : PendingRequestDone} {reply : CompletionReply} {stretch : Stretch}
    (running : flush ∈ s.completionFlushes) (found : s.records[flush.record]? = some p)
    (resumed : flush.stage.resume p reply = some stretch) :
    Move client now heard told s ((s.without flush.completionId).settleStretch flush stretch)
  | fails {flush : CompletionFlush} (running : flush ∈ s.completionFlushes) :
    Move client now heard told s (s.settling flush)
  | applies {flush : CompletionFlush} {p : PendingRequestDone} (running : flush ∈ s.completionFlushes)
    (found : s.records[flush.record]? = some p) (returned : flush.stage = .returned) :
    Move client now heard told s ((s.emit (.applied flush.completionId flush.record)).handleRequestDoneApplied flush.completionId)
  | acknowledges (flush : CompletionFlush) {p : PendingRequestDone}
    (applied : .applied flush.completionId flush.record ∈ s.log) (found : s.records[flush.record]? = some p) :
    Move client now heard told s (client.acknowledgeCompletion p.data flush.completionId s)
  | settles (completionId : String) : Move client now heard told s (s.without completionId)
  | drops : Move client now heard told s (client.dropRetainedCopies s)
  | promoted : Move client now heard told s (client.dropRetainedCopies { s with role := .controller })
  | demoted : Move client now heard told s { s with role := .worker }
  | gaveUp {completionId : String} {record : ℕ} {p : PendingRequestDone} {started : ℚ}
    (held : (completionId, record) ∈ s.pendingRequestDone) (found : s.records[record]? = some p)
    (began : s.Began client now started) (due : p.forwardDueAt ≤ started)
    (spent : maxCompletionForwards ≤ p.forwards) :
    Move client now heard told s ((s.handleRequestDoneApplied completionId).emit (.gaveUp completionId record))
  | reannounces {completionId : String} {record : ℕ} {p : PendingRequestDone} {started : ℚ}
    (held : (completionId, record) ∈ s.pendingRequestDone) (found : s.records[record]? = some p)
    (began : s.Began client now started) (due : p.forwardDueAt ≤ started) :
    Move client now heard told s { s with
      records := s.records.set record (p.forwarded (started + client.healthCheckIntervalMs))
      forwardLoops := s.forwardLoops ++ [⟨started, record⟩]
      log := s.log ++ [.reannounced completionId record p.data] }
  | forwards {loops : List ForwardLoop} (sub : ∀ loop ∈ loops, loop ∈ s.forwardLoops) :
    Move client now heard told s { s with forwardLoops := loops }

section Effects

variable (s : Completions) (completionId : String)

/-- A remembered completion stays remembered, or makes room and is forgotten. -/
theorem rememberCompleted_spec : ∃ (forgotten kept : List String),
    s.rememberCompleted completionId =
      { s with completedRequestIds := kept, log := s.log ++ forgotten.map .forgot } ∧
      (∀ id, id = completionId ∨ id ∈ s.completedRequestIds → id ∈ kept ∨ id ∈ forgotten) ∧
      ∀ id ∈ kept, id = completionId ∨ id ∈ s.completedRequestIds := by
  obtain ⟨ids, same, members⟩ : ∃ ids, ids = (if completionId ∈ s.completedRequestIds then s.completedRequestIds
      else s.completedRequestIds ++ [completionId]) ∧
      ∀ id, id ∈ ids ↔ id = completionId ∨ id ∈ s.completedRequestIds := by
    refine ⟨_, rfl, ?_⟩
    intro id
    split
    · rename_i known
      exact ⟨Or.inr, fun either => either.elim (fun same => same ▸ known) fun known => known⟩
    · simp [or_comm]
  unfold rememberCompleted
  rw [← same]
  cases ids with
  | nil => exact ⟨[], [], by simp, fun id either => absurd ((members id).mpr either) (by simp), by simp⟩
  | cons oldest rest =>
    dsimp only
    split
    · refine ⟨[oldest], rest, rfl, ?_, fun id member => (members id).mp (List.mem_cons_of_mem _ member)⟩
      intro id either
      rcases List.mem_cons.mp ((members id).mpr either) with rfl | member
      · exact Or.inr (by simp)
      · exact Or.inl member
    · exact ⟨[], oldest :: rest, by simp, fun id either => Or.inl ((members id).mpr either),
        fun id => (members id).mp⟩

/-- What becomes of a completion that is done with. -/
theorem handleRequestDoneApplied_spec : ∃ (forgotten kept : List String),
    s.handleRequestDoneApplied completionId = { s with
      pendingRequestDone := s.pendingRequestDone.filter fun entry => entry.1 ≠ completionId
      completedRequestIds := kept
      log := s.log ++ forgotten.map .forgot } ∧
      (∀ id, id = completionId ∨ id ∈ s.completedRequestIds → id ∈ kept ∨ id ∈ forgotten) ∧
      ∀ id ∈ kept, id = completionId ∨ id ∈ s.completedRequestIds :=
  rememberCompleted_spec (s.forget completionId) completionId

end Effects

section Steps

open Relation (ReflTransGen)

variable {client : CompletionClient} {now : ℚ} {heard : RequestDoneData → Prop}
    {told : String → Prop} {s : Completions}

theorem flushEntries_moves {entries : List (String × ℕ)} (held : ∀ entry ∈ entries, s.ToFlush entry) :
    ReflTransGen (Move client now heard told) s (s.flushEntries entries) := by
  induction entries with
  | nil => exact .refl
  | cons entry rest ih =>
    obtain ⟨completionId, record⟩ := entry
    have after : ∀ entry ∈ rest, s.ToFlush entry := fun entry member => held entry (List.mem_cons_of_mem _ member)
    unfold flushEntries
    split
    · refine .single (.loops ?_)
      intro loop member entry inside
      rcases List.mem_append.mp member with old | new
      · exact Or.inr ⟨loop, old, inside⟩
      · cases List.mem_singleton.mp new
        exact after entry inside
    · rename_i idle
      split
      · exact ih after
      · rename_i p found
        refine .single (.begins (held _ List.mem_cons_self) after ?_ found)
        intro flush running same
        exact absurd (List.find?_eq_none.mp idle flush running) (by simp [same])

theorem forwardEntries_moves {started : ℚ} {entries : List (String × ℕ)} (began : s.Began client now started)
    (held : ∀ entry ∈ entries, entry ∈ s.pendingRequestDone) (keys : (entries.map Prod.fst).Nodup) :
    ReflTransGen (Move client now heard told) s (client.forwardEntries started s entries) := by
  induction entries generalizing s with
  | nil => exact .refl
  | cons entry rest ih =>
    obtain ⟨completionId, record⟩ := entry
    have after : ∀ entry ∈ rest, entry ∈ s.pendingRequestDone :=
      fun entry member => held entry (List.mem_cons_of_mem _ member)
    obtain ⟨apart, keys⟩ := List.nodup_cons.mp keys
    unfold CompletionClient.forwardEntries
    split
    · exact ih began after keys
    · rename_i p found
      split
      · exact ih began after keys
      · rename_i due
        split
        · rename_i spent
          have move : Move client now heard told s
              ((s.handleRequestDoneApplied completionId).emit (.gaveUp completionId record)) :=
            .gaveUp (held _ List.mem_cons_self) found began (not_lt.mp due) spent
          refine .head move (ih ?_ ?_ keys)
          · obtain ⟨_, _, same, -⟩ := handleRequestDoneApplied_spec s completionId
            rw [same]
            refine began.imp_left ?_
            rintro ⟨at_, own⟩
            exact ⟨at_, fun entry member => own entry (List.mem_filter.mp member).1⟩
          · obtain ⟨_, _, same, -⟩ := handleRequestDoneApplied_spec s completionId
            rw [same]
            intro entry member
            refine List.mem_filter.mpr ⟨after entry member, ?_⟩
            have other : entry.1 ≠ completionId := fun same => apart (List.mem_map.mpr ⟨entry, member, same⟩)
            simpa using other
        · exact .single (.reannounces (held _ List.mem_cons_self) found began (not_lt.mp due))

theorem flushGoesOn_moves (completionId : String) (reply : CompletionReply) :
    ReflTransGen (Move client now heard told) s (client.flushGoesOn completionId reply s) := by
  unfold CompletionClient.flushGoesOn
  split
  · exact .refl
  · rename_i flush found
    have running := List.mem_of_find?_eq_some found
    have same : flush.completionId = completionId := by simpa using List.find?_some found
    subst same
    dsimp only
    split
    · exact .refl
    · exact .single (.settles flush.completionId)
    · rename_i p record returned
      refine .head (.applies running record returned) ?_
      obtain ⟨forgotten, kept, same, -⟩ :=
        handleRequestDoneApplied_spec (s.emit (.applied flush.completionId flush.record))
        flush.completionId
      refine .head (.acknowledges flush ?_ ?_) (.single (.fails ?_))
      · rw [same]
        simp [emit]
      · rw [same]
        exact record
      · rw [same]
        unfold CompletionClient.acknowledgeCompletion
        split <;> exact running
    · rename_i p record _ _
      split
      · rename_i resumed
        exact .single (.goesOn running record resumed)
      · exact .single (.fails running)

theorem finalizeOwnedRequest_moves {data : RequestDoneData} (hears : heard data) :
    ReflTransGen (Move client now heard told) s (client.finalizeOwnedRequest now data s) := by
  unfold CompletionClient.finalizeOwnedRequest
  dsimp only
  split
  · rename_i known
    split
    · unfold CompletionClient.acknowledgeCompletion
      split
      · exact .refl
      · rename_i another
        exact .single (.answers hears known another)
    · exact .refl
  · rename_i unknown
    have stored : ReflTransGen (Move client now heard told) s (client.storePendingRequestDone now data s) := by
      by_cases pending : data.completionId client.print ∈ s.pendingRequestDone.map Prod.fst
      · have same : client.storePendingRequestDone now data s = s := if_pos (Or.inr pending)
        rw [same]
      · exact .single (.stores hears (not_or.mpr ⟨unknown, pending⟩))
    split
    · rename_i controls
      refine stored.trans (flushEntries_moves ?_)
      exact fun entry member => Or.inl ⟨controls, (List.mem_filter.mp member).1⟩
    · exact stored

theorem dropRetainedCopies_began (s : Completions) : (client.dropRetainedCopies s).Began client now now := by
  refine Or.inl ⟨rfl, ?_⟩
  intro entry member
  have own : (!client.foreign s entry.2) = true := (List.mem_filter.mp member).2
  exact Bool.eq_false_iff.mpr fun foreign => by simp [show client.foreign s entry.2 = true from foreign] at own

/-- All a client does at an event is made of such moves. -/
theorem step_moves (keys : (s.pendingRequestDone.map Prod.fst).Nodup) (e : CompletionEvent)
    (hears : ∀ data, e = .announce data ∨ e = .finalizeOwnedRequest data → heard data)
    (tells : ∀ completionId, e = .handleRequestDoneApplied completionId → told completionId) :
    ReflTransGen (Move client now heard told) s (client.step now e s) := by
  cases e with
  | announce data => exact .single (.announces (hears data (Or.inl rfl)))
  | finalizeOwnedRequest data => exact finalizeOwnedRequest_moves (hears data (Or.inr rfl))
  | handleRequestDoneApplied completionId => exact .single (.told (tells completionId rfl))
  | updateRole role =>
    simp only [CompletionClient.step, CompletionClient.updateRole]
    split
    · exact .refl
    split
    · rename_i promoted
      subst promoted
      exact .head .promoted (flushEntries_moves fun entry member => Or.inl ⟨rfl, member⟩)
    · cases role with
      | controller => contradiction
      | worker => exact .single .demoted
  | tick =>
    simp only [CompletionClient.step, CompletionClient.tick]
    split
    · rename_i controls
      exact flushEntries_moves fun entry member => Or.inl ⟨controls, member⟩
    · refine .head .drops (forwardEntries_moves (dropRetainedCopies_began s) (fun entry member => member) ?_)
      exact keys.sublist (List.filter_sublist.map _)
  | flushGoesOn completionId reply => exact flushGoesOn_moves completionId reply
  | loopGoesOn place =>
    simp only [CompletionClient.step, CompletionClient.loopGoesOn]
    split
    · exact .refl
    rename_i loop found
    split
    · exact .refl
    have inside : loop ∈ s.flushLoops := List.mem_of_getElem? found
    refine .tail (flushEntries_moves fun entry member => Or.inr ⟨loop, inside, member⟩) (.loops ?_)
    intro loop' member entry there
    exact Or.inr ⟨loop', List.mem_of_mem_eraseIdx member, there⟩
  | forwardGoesOn place published =>
    simp only [CompletionClient.step, CompletionClient.forwardGoesOn]
    split
    · exact .refl
    rename_i loop found
    refine .tail ?_ (.forwards fun loop' member => List.mem_of_mem_eraseIdx member)
    split
    · refine forwardEntries_moves (Or.inr ⟨loop, List.mem_of_getElem? found, rfl⟩) ?_ ?_
      · exact fun entry member => (List.mem_filter.mp member).1
      · exact keys.sublist (List.filter_sublist.map _)
    · exact .refl

end Steps

/-- Every entry and every flush is of the record it numbers, and a completion has one flush. -/
structure Tracked (client : CompletionClient) (s : Completions) : Prop where
  keys : (s.pendingRequestDone.map Prod.fst).Nodup
  names : ∀ entry, s.Held entry → s.Names client entry
  flushes : ∀ flush ∈ s.completionFlushes, s.Names client (flush.completionId, flush.record)
  fits : ∀ flush ∈ s.completionFlushes, ∀ p, s.records[flush.record]? = some p → flush.stage.Fits p
  single : (s.completionFlushes.map CompletionFlush.completionId).Nodup

section Invariants

variable {client : CompletionClient} {now : ℚ} {heard : RequestDoneData → Prop}
    {told : String → Prop} {s s' : Completions}

theorem Tracked.sub (tracked : s.Tracked client) (records : s'.records = s.records)
    (pending : s'.pendingRequestDone.Sublist s.pendingRequestDone) (held : ∀ entry, s'.Held entry → s.Held entry)
    (flushes : s'.completionFlushes.Sublist s.completionFlushes) : s'.Tracked client where
  keys := tracked.keys.sublist (pending.map _)
  names entry member := by
    rw [Names, records]
    exact tracked.names entry (held entry member)
  flushes flush member := by
    rw [Names, records]
    exact tracked.flushes flush (flushes.subset member)
  fits flush member p found := tracked.fits flush (flushes.subset member) p (records ▸ found)
  single := tracked.single.sublist (flushes.map _)

theorem held_of_filter {keep : String × ℕ → Bool} {entry : String × ℕ}
    (held : ({ s with pendingRequestDone := s.pendingRequestDone.filter keep } : Completions).Held entry) :
    s.Held entry :=
  held.imp_left fun member => (List.mem_filter.mp member).1

theorem Tracked.without (tracked : s.Tracked client) (completionId : String) :
    (s.without completionId).Tracked client :=
  tracked.sub rfl (.refl _) (fun _ => id) List.filter_sublist

theorem Tracked.applied (tracked : s.Tracked client) (completionId : String) :
    (s.handleRequestDoneApplied completionId).Tracked client := by
  obtain ⟨_, _, same, -⟩ := handleRequestDoneApplied_spec s completionId
  rw [same]
  exact tracked.sub rfl List.filter_sublist (fun _ => held_of_filter) (List.Sublist.refl _)

theorem Names.set {entry : String × ℕ} {record : ℕ} {p q : PendingRequestDone} (names : s.Names client entry)
    (found : s.records[record]? = some p) (same : ∀ print, q.data.completionId print = p.data.completionId print)
    (records : s'.records = s.records.set record q) : s'.Names client entry := by
  obtain ⟨p', found', id⟩ := names
  by_cases here : entry.2 = record
  · rw [here] at found'
    cases Option.some.inj (found.symm.trans found')
    refine ⟨q, ?_, (same _).trans id⟩
    rw [records, here]
    exact List.getElem?_set_self (List.getElem?_eq_some_iff.mp found).1
  · refine ⟨p', ?_, id⟩
    rw [records, List.getElem?_set_ne (Ne.symm here)]
    exact found'

/-- A record of the same completion in the place of another, where its flush may wait as it does. -/
theorem Tracked.rewrite (tracked : s.Tracked client) {record : ℕ} {p q : PendingRequestDone}
    (found : s.records[record]? = some p) (same : ∀ print, q.data.completionId print = p.data.completionId print)
    (fits : ∀ f ∈ s.completionFlushes, f.record = record → f.stage.Fits q)
    (records : s'.records = s.records.set record q)
    (pending : s'.pendingRequestDone = s.pendingRequestDone) (loops : s'.flushLoops = s.flushLoops)
    (flushes : s'.completionFlushes = s.completionFlushes) : s'.Tracked client where
  keys := pending ▸ tracked.keys
  names entry held := by
    refine (tracked.names entry ?_).set found same records
    rwa [Held, pending, loops] at held
  flushes f member := (tracked.flushes f (flushes ▸ member)).set found same records
  fits f member r after := by
    rw [records] at after
    by_cases here : f.record = record
    · rw [here, List.getElem?_set_self (List.getElem?_eq_some_iff.mp found).1] at after
      cases after
      exact fits f (flushes ▸ member) here
    · rw [List.getElem?_set_ne (Ne.symm here)] at after
      exact tracked.fits f (flushes ▸ member) r after
  single := flushes ▸ tracked.single

/-- One more flush, of a completion that has none. -/
theorem Tracked.start (tracked : s.Tracked client) (flush : CompletionFlush)
    (names : s.Names client (flush.completionId, flush.record))
    (idle : ∀ f ∈ s.completionFlushes, f.completionId ≠ flush.completionId)
    (fits : ∀ p, s.records[flush.record]? = some p → flush.stage.Fits p) :
    ({ s with completionFlushes := s.completionFlushes ++ [flush] } : Completions).Tracked client where
  keys := tracked.keys
  names := tracked.names
  flushes f member := by
    rcases List.mem_append.mp member with old | new
    · exact tracked.flushes f old
    · cases List.mem_singleton.mp new
      exact names
  fits f member := by
    rcases List.mem_append.mp member with old | new
    · exact tracked.fits f old
    · cases List.mem_singleton.mp new
      exact fits
  single := by
    show ((s.completionFlushes ++ [flush]).map CompletionFlush.completionId).Nodup
    rw [List.map_append, List.nodup_append]
    refine ⟨tracked.single, List.nodup_singleton _, ?_⟩
    intro id member other there same
    obtain ⟨f, old, rfl⟩ := List.mem_map.mp member
    cases List.mem_singleton.mp there
    exact idle f old same

theorem Tracked.stretch (tracked : s.Tracked client) {flush : CompletionFlush}
    {p : PendingRequestDone} {stretch : Stretch}
    (names : s.Names client (flush.completionId, flush.record)) (found : s.records[flush.record]? = some p)
    (idle : ∀ f ∈ s.completionFlushes, f.completionId ≠ flush.completionId) (taken : stretch.From p) :
    (s.settleStretch flush stretch).Tracked client := by
  have alone : ∀ f ∈ s.completionFlushes, f.record = flush.record → f.stage.Fits stretch.record := by
    intro f old same
    obtain ⟨p₁, first, id₁⟩ := tracked.flushes f old
    obtain ⟨p₂, second, id₂⟩ := names
    simp only [same] at first
    cases Option.some.inj (first.symm.trans second)
    exact absurd (id₁.symm.trans id₂) (idle f old)
  have same := taken.advances.completionId
  have rewritten : ({ s with records := s.records.set flush.record stretch.record } : Completions).Tracked client :=
    tracked.rewrite found same alone rfl rfl rfl rfl
  have started := rewritten.start { flush with stage := stretch.stage } (names.set found same rfl) idle ?_
  · exact started.sub rfl (.refl _) (fun _ => id) (.refl _)
  · intro q after
    rw [List.getElem?_set_self (List.getElem?_eq_some_iff.mp found).1] at after
    cases after
    exact taken.fits

theorem Tracked.add (tracked : s.Tracked client) {completionId : String} {p : PendingRequestDone}
    (unknown : completionId ∉ s.pendingRequestDone.map Prod.fst)
    (same : p.data.completionId client.print = completionId) :
    (s.add completionId p).Tracked client := by
  have kept : ∀ entry, s.Names client entry → (s.add completionId p).Names client entry := by
    rintro entry ⟨p', found, id⟩
    exact ⟨p', (List.getElem?_append_left (List.getElem?_eq_some_iff.mp found).1).trans found, id⟩
  refine ⟨?_, ?_, fun f member => kept _ (tracked.flushes f member), ?_, tracked.single⟩
  · show ((s.pendingRequestDone ++ [(completionId, s.records.length)]).map Prod.fst).Nodup
    rw [List.map_append, List.nodup_append]
    refine ⟨tracked.keys, List.nodup_singleton _, ?_⟩
    intro id member other there same
    cases List.mem_singleton.mp there
    have again : id = completionId := same
    exact unknown (again ▸ member)
  · rintro entry (pending | looped)
    · rcases List.mem_append.mp pending with old | new
      · exact kept _ (tracked.names entry (Or.inl old))
      · cases List.mem_singleton.mp new
        exact ⟨p, List.getElem?_concat_length, same⟩
    · exact kept _ (tracked.names entry (Or.inr looped))
  · intro f member q after
    obtain ⟨p', found, -⟩ := tracked.flushes f member
    refine tracked.fits f member q ?_
    exact (List.getElem?_append_left (List.getElem?_eq_some_iff.mp found).1).symm.trans after

theorem without_idle (s : Completions) (completionId : String) :
    ∀ f ∈ (s.without completionId).completionFlushes, f.completionId ≠ completionId := by
  intro f member
  simpa using (List.mem_filter.mp member).2

/-- A loop waits for the flush it is about to start. -/
theorem Tracked.looped (tracked : s.Tracked client) {rest : List (String × ℕ)}
    (after : ∀ entry ∈ rest, s.ToFlush entry) :
    ({ s with flushes := s.flushes + 1, flushLoops := s.flushLoops ++ [⟨s.flushes, rest⟩] } : Completions).Tracked client := by
  refine tracked.sub rfl (.refl _) ?_ (.refl _)
  rintro entry (pending | ⟨loop, member, inside⟩)
  · exact Or.inl pending
  · rcases List.mem_append.mp member with old | new
    · exact Or.inr ⟨loop, old, inside⟩
    · cases List.mem_singleton.mp new
      exact (after entry inside).held

theorem Tracked.move (tracked : s.Tracked client) (move : Move client now heard told s s') : s'.Tracked client := by
  cases move with
  | announces hears => exact tracked.sub rfl (.refl _) (fun _ => id) (.refl _)
  | answers hears known another => exact tracked.sub rfl (.refl _) (fun _ => id) (.refl _)
  | told tells => exact tracked.applied _
  | loops held =>
    refine tracked.sub rfl (.refl _) ?_ (.refl _)
    rintro entry (pending | ⟨loop, member, inside⟩)
    · exact Or.inl pending
    · exact (held loop member entry inside).held
  | settles completionId => exact tracked.sub rfl (.refl _) (fun _ => id) List.filter_sublist
  | drops => exact tracked.sub rfl List.filter_sublist (fun _ => held_of_filter) (.refl _)
  | promoted => exact tracked.sub rfl List.filter_sublist (fun _ => held_of_filter) (.refl _)
  | demoted => exact tracked.sub rfl (.refl _) (fun _ => id) (.refl _)
  | forwards sub => exact tracked.sub rfl (.refl _) (fun _ => id) (.refl _)
  | gaveUp held found began due spent => exact (tracked.applied _).sub rfl (.refl _) (fun _ => id) (.refl _)
  | @applies flush p running found returned =>
    have emitted : (s.emit (.applied flush.completionId flush.record)).Tracked client :=
      tracked.sub rfl (.refl _) (fun _ => id) (.refl _)
    exact emitted.applied _
  | acknowledges flush applied found =>
    unfold CompletionClient.acknowledgeCompletion
    split
    · exact tracked
    · exact tracked.sub rfl (.refl _) (fun _ => id) (.refl _)
  | @fails flush running =>
    exact (tracked.without flush.completionId).start _ (tracked.flushes flush running)
      (without_idle s flush.completionId) fun _ _ => trivial
  | goesOn running found resumed =>
    exact (tracked.without _).stretch (tracked.flushes _ running) found (without_idle s _)
      (CompletionStage.resume_from (tracked.fits _ running _ found) resumed)
  | @begins completionId record p rest held after idle found =>
    exact (tracked.looped after).stretch (tracked.names _ held.held) found idle p.handleRequestDone_from
  | @stores data hears unknown =>
    have same : client.storePendingRequestDone now data s = s.add (data.completionId client.print)
        { data, forwardDueAt := now + client.healthCheckIntervalMs } := if_neg unknown
    rw [same]
    exact tracked.add (not_or.mp unknown).2 rfl
  | @reannounces completionId record p started held found began due =>
    have fits : ∀ f ∈ s.completionFlushes, f.record = record → f.stage.Fits (p.forwarded _) :=
      fun f member same => (tracked.fits f member p (same ▸ found)).forwarded
        (started + client.healthCheckIntervalMs)
    refine tracked.rewrite found ?_ fits rfl rfl rfl rfl
    exact fun _ => rfl

end Invariants

end Completions

end Dianemo
