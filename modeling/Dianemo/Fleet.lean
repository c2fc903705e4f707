import Dianemo.Applied

namespace Dianemo

/-- The completion was announced again, on behalf of the record. -/
def CompletionOutput.reannounces (completionId : String) (record : ℕ) : CompletionOutput → Bool
  | .reannounced id n _ => id = completionId && n = record
  | _ => false

namespace Completions

def GaveUp (s : Completions) (completionId : String) : Prop := ∃ record, .gaveUp completionId record ∈ s.log

/-- What a replica says of a completion is true, `owner` telling whose one is and
`done` which some replica has applied. -/
def Says (client : CompletionClient) (owner : String → String) (done : String → Prop) (s : Completions) :
    CompletionOutput → Prop
  | .announced data | .reannounced _ _ data => owner (data.completionId client.print) = data.ownerId
  | .applied id _ | .acknowledged id _ => done id
  | .gaveUp id record => owner id = client.instanceId ∧ maxCompletionForwards ≤ s.times (·.reannounces id record)
  | .stored .. | .ran .. | .dropped .. | .forgot _ => True

/-- What a replica knows of completions is true. -/
structure Accounted (client : CompletionClient) (owner : String → String) (done : String → Prop)
    (now : ℚ) (s : Completions) : Prop where
  tracked : s.Tracked client
  owned : ∀ p ∈ s.records, owner (p.data.completionId client.print) = p.data.ownerId
  said : ∀ out ∈ s.log, s.Says client owner done out
  /-- What comes due for a loop that announces is the replica's own. -/
  loops : ∀ loop ∈ s.forwardLoops, loop.now ≤ now ∧ ∀ entry ∈ s.pendingRequestDone, ∀ p : PendingRequestDone,
    s.records[entry.2]? = some p → p.data.ownerId ≠ client.instanceId → loop.now < p.forwardDueAt
  remembered : ∀ id ∈ s.completedRequestIds, done id ∨ s.GaveUp id
  forwards : ∀ (n : ℕ) (p : PendingRequestDone), s.records[n]? = some p →
    p.forwards ≤ s.times (·.reannounces (p.data.completionId client.print) n)

section Accounts

variable {client : CompletionClient} {owner : String → String} {done done' : String → Prop} {now now' : ℚ}
  {heard : RequestDoneData → Prop} {told : String → Prop} {s s' : Completions}

theorem Says.more {out : CompletionOutput} (holds : s.Says client owner done out)
    (more : ∀ id, done id → done' id) : s.Says client owner done' out := by
  cases out with
  | applied id record => exact more id holds
  | acknowledged id ownerId => exact more id holds
  | _ => exact holds

theorem times_le {out : List CompletionOutput} (log : s'.log = s.log ++ out) (test : CompletionOutput → Bool) :
    s.times test ≤ s'.times test := by
  rw [times, times, log, List.countP_append]
  omega

theorem Says.grow {said : CompletionOutput} (holds : s.Says client owner done said) {out : List CompletionOutput}
    (log : s'.log = s.log ++ out) : s'.Says client owner done said := by
  cases said with
  | gaveUp id record => exact ⟨holds.1, holds.2.trans (times_le log _)⟩
  | _ => exact holds

theorem GaveUp.grow {id : String} (gaveUp : s.GaveUp id) {out : List CompletionOutput}
    (log : s'.log = s.log ++ out) : s'.GaveUp id := by
  obtain ⟨record, said⟩ := gaveUp
  exact ⟨record, log ▸ List.mem_append_left _ said⟩

theorem Accounted.later (accounted : s.Accounted client owner done now) (wait : now ≤ now')
    (more : ∀ id, done id → done' id) : s.Accounted client owner done' now' where
  tracked := accounted.tracked
  owned := accounted.owned
  said out member := Says.more (accounted.said out member) more
  loops loop member := ⟨(accounted.loops loop member).1.trans wait, (accounted.loops loop member).2⟩
  remembered id member := (accounted.remembered id member).imp_left (more id)
  forwards := accounted.forwards

/-- No record changes, and no more is pending or announced than was. -/
theorem Accounted.sub (accounted : s.Accounted client owner done now) (tracked : s'.Tracked client)
    {out : List CompletionOutput}
    (records : s'.records = s.records) (log : s'.log = s.log ++ out)
    (pending : s'.pendingRequestDone ⊆ s.pendingRequestDone)
    (loops : s'.forwardLoops ⊆ s.forwardLoops) (holds : ∀ said ∈ out, s.Says client owner done said)
    (remembered : ∀ id ∈ s'.completedRequestIds, id ∈ s.completedRequestIds ∨ done id ∨ s'.GaveUp id) :
    s'.Accounted client owner done now where
  tracked := tracked
  owned p member := accounted.owned p (records ▸ member)
  said said member := by
    rw [log] at member
    rcases List.mem_append.mp member with old | new
    · exact Says.grow (accounted.said said old) log
    · exact Says.grow (holds said new) log
  loops loop member := by
    obtain ⟨begun, due⟩ := accounted.loops loop (loops member)
    exact ⟨begun, fun entry held p found => due entry (pending held) p (records ▸ found)⟩
  remembered id member := by
    rcases remembered id member with old | either
    · exact (accounted.remembered id old).imp_right fun gaveUp => gaveUp.grow log
    · exact either
  forwards n p found := (accounted.forwards n p (records ▸ found)).trans (times_le log _)

theorem Accounted.apply (accounted : s.Accounted client owner done now)
    (tracked : s'.Tracked client) {completionId : String}
    (same : s' = s.handleRequestDoneApplied completionId) (either : done completionId ∨ s.GaveUp completionId) :
    s'.Accounted client owner done now := by
  subst same
  obtain ⟨forgotten, kept, same, -, inside⟩ := handleRequestDoneApplied_spec s completionId
  rw [same] at tracked ⊢
  refine accounted.sub tracked rfl rfl List.filter_sublist.subset (List.Subset.refl _) ?_ ?_
  · intro said member
    obtain ⟨id, -, rfl⟩ := List.mem_map.mp member
    trivial
  · intro id member
    rcases inside id member with rfl | old
    · exact Or.inr (either.imp_right fun gaveUp => gaveUp.grow rfl)
    · exact Or.inl old

theorem move_log (move : Move client now heard told s s') : ∃ out, s'.log = s.log ++ out := by
  have remembered : ∀ (s : Completions) id, ∃ out, (s.handleRequestDoneApplied id).log = s.log ++ out := by
    intro s id
    obtain ⟨forgotten, kept, same, -⟩ := handleRequestDoneApplied_spec s id
    rw [same]
    exact ⟨_, rfl⟩
  have dropped : ∀ s : Completions, ∃ out, (client.dropRetainedCopies s).log = s.log ++ out := fun s => ⟨_, rfl⟩
  cases move with
  | announces hears => exact ⟨_, rfl⟩
  | answers hears known another => exact ⟨_, rfl⟩
  | told tells => exact remembered s _
  | loops held => exact ⟨[], (List.append_nil _).symm⟩
  | settles completionId => exact ⟨[], (List.append_nil _).symm⟩
  | demoted => exact ⟨[], (List.append_nil _).symm⟩
  | forwards sub => exact ⟨[], (List.append_nil _).symm⟩
  | fails running => exact ⟨[], (List.append_nil _).symm⟩
  | drops => exact dropped s
  | promoted => exact dropped { s with role := .controller }
  | gaveUp held found began due spent =>
    obtain ⟨out, log⟩ := remembered s _
    exact ⟨out ++ _, (congrArg (· ++ _) log).trans (List.append_assoc _ _ _)⟩
  | @applies flush p running found returned =>
    obtain ⟨out, log⟩ := remembered (s.emit (.applied flush.completionId flush.record)) flush.completionId
    exact ⟨_, log.trans (List.append_assoc _ _ _)⟩
  | acknowledges flush applied found =>
    unfold CompletionClient.acknowledgeCompletion
    split
    · exact ⟨[], (List.append_nil _).symm⟩
    · exact ⟨_, rfl⟩
  | goesOn running found resumed => exact ⟨_, rfl⟩
  | begins held after idle found => exact ⟨_, rfl⟩
  | @stores data hears unknown =>
    unfold CompletionClient.storePendingRequestDone
    dsimp only
    split
    · exact ⟨[], (List.append_nil _).symm⟩
    · exact ⟨_, rfl⟩
  | reannounces held found began due => exact ⟨_, rfl⟩

theorem moves_log (moves : Relation.ReflTransGen (Move client now heard told) s s') :
    ∃ out, s'.log = s.log ++ out := by
  induction moves with
  | refl => exact ⟨[], (List.append_nil _).symm⟩
  | tail _ move ih =>
    obtain ⟨early, before⟩ := ih
    obtain ⟨out, log⟩ := move_log move
    exact ⟨early ++ out, by rw [log, before, List.append_assoc]⟩

/-- What comes due at a loop's start, or at its turn, is the replica's own. -/
theorem Accounted.own (accounted : s.Accounted client owner done now) {entry : String × ℕ}
    {p : PendingRequestDone} {started : ℚ}
    (held : entry ∈ s.pendingRequestDone) (found : s.records[entry.2]? = some p)
    (began : s.Began client now started)
    (due : p.forwardDueAt ≤ started) : p.data.ownerId = client.instanceId := by
  by_contra another
  rcases began with ⟨-, own⟩ | ⟨loop, member, same⟩
  · have foreign : client.foreign s entry.2 = true := by
      rw [CompletionClient.foreign, found]
      simpa using another
    rw [own entry held] at foreign
    cases foreign
  · have late := (accounted.loops loop member).2 entry held p found another
    rw [same] at late
    exact absurd due (not_le.mpr late)

/-- A loop that starts or goes on: nothing of another replica's comes due for it. -/
theorem Accounted.began (accounted : s.Accounted client owner done now) {started : ℚ}
    (began : s.Began client now started) :
    started ≤ now ∧ ∀ entry ∈ s.pendingRequestDone, ∀ p : PendingRequestDone, s.records[entry.2]? = some p →
      p.data.ownerId ≠ client.instanceId → started < p.forwardDueAt := by
  refine ⟨?_, ?_⟩
  · rcases began with ⟨same, -⟩ | ⟨loop, member, same⟩
    · exact same.le
    · exact same ▸ (accounted.loops loop member).1
  · intro entry held p found another
    by_contra due
    exact another (accounted.own held found began (not_lt.mp due))

theorem Accounted.named (accounted : s.Accounted client owner done now) {entry : String × ℕ} (held : s.Held entry) :
    ∃ p, s.records[entry.2]? = some p ∧ p.data.completionId client.print = entry.1 ∧
      p.data.ownerId = owner entry.1 := by
  obtain ⟨p, found, named⟩ := accounted.tracked.names entry held
  exact ⟨p, found, named, named ▸ (accounted.owned p (List.mem_of_getElem? found)).symm⟩

theorem Accounted.stretch (accounted : s.Accounted client owner done now)
    {flush : CompletionFlush} {p : PendingRequestDone}
    {stretch : Stretch} (found : s.records[flush.record]? = some p)
    (advances : p.Advances stretch.record stretch.ran)
    (tracked : (s.settleStretch flush stretch).Tracked client) :
    (s.settleStretch flush stretch).Accounted client owner done now where
  tracked := tracked
  owned q member := by
    rcases List.mem_or_eq_of_mem_set member with old | rfl
    · exact accounted.owned q old
    · rw [advances.completionId, advances.ownerId]
      exact accounted.owned p (List.mem_of_getElem? found)
  said said member := by
    rcases List.mem_append.mp member with old | new
    · exact Says.grow (accounted.said said old) rfl
    · obtain ⟨step, -, rfl⟩ := List.mem_map.mp new
      trivial
  loops loop member := by
    obtain ⟨begun, due⟩ := accounted.loops loop member
    refine ⟨begun, ?_⟩
    intro entry held q after another
    have records : (s.settleStretch flush stretch).records = s.records.set flush.record stretch.record := rfl
    rw [records] at after
    by_cases here : entry.2 = flush.record
    · rw [here, List.getElem?_set_self (List.getElem?_eq_some_iff.mp found).1] at after
      cases after
      rw [advances.due]
      exact due entry held p (here ▸ found) (advances.ownerId ▸ another)
    · rw [List.getElem?_set_ne (Ne.symm here)] at after
      exact due entry held q after another
  remembered id member := (accounted.remembered id member).imp_right fun gaveUp => gaveUp.grow rfl
  forwards n q after := by
    have records : (s.settleStretch flush stretch).records = s.records.set flush.record stretch.record := rfl
    refine le_trans ?_ (times_le (s := s) rfl _)
    rw [records] at after
    by_cases here : n = flush.record
    · subst here
      rw [List.getElem?_set_self (List.getElem?_eq_some_iff.mp found).1] at after
      cases after
      rw [advances.forwards, advances.completionId]
      exact accounted.forwards _ p found
    · rw [List.getElem?_set_ne (Ne.symm here)] at after
      exact accounted.forwards n q after

/-- A new record comes due after every loop that announces has begun. -/
theorem Accounted.add (accounted : s.Accounted client owner done now)
    {completionId : String} {p : PendingRequestDone}
    (tracked : (s.add completionId p).Tracked client)
    (owned : owner (p.data.completionId client.print) = p.data.ownerId)
    (due : now < p.forwardDueAt) (fresh : p.forwards = 0) :
    (s.add completionId p).Accounted client owner done now where
  tracked := tracked
  owned q member := by
    rcases List.mem_append.mp member with old | new
    · exact accounted.owned q old
    · cases List.mem_singleton.mp new
      exact owned
  said said member := by
    rcases List.mem_append.mp member with old | new
    · exact Says.grow (accounted.said said old) rfl
    · cases List.mem_singleton.mp new
      trivial
  loops loop member := by
    obtain ⟨begun, later⟩ := accounted.loops loop member
    refine ⟨begun, ?_⟩
    intro entry held q found another
    have records : (s.add completionId p).records = s.records ++ [p] := rfl
    rw [records] at found
    rcases List.mem_append.mp held with old | new
    · obtain ⟨r, before, -⟩ := accounted.tracked.names entry (Or.inl old)
      rw [List.getElem?_append_left (List.getElem?_eq_some_iff.mp before).1] at found
      exact later entry old q found another
    · cases List.mem_singleton.mp new
      cases Option.some.inj (found.symm.trans List.getElem?_concat_length)
      exact begun.trans_lt due
  remembered id member := (accounted.remembered id member).imp_right fun gaveUp => gaveUp.grow rfl
  forwards n q found := by
    refine le_trans ?_ (times_le (s := s) rfl _)
    have records : (s.add completionId p).records = s.records ++ [p] := rfl
    rw [records] at found
    rcases lt_or_ge n s.records.length with inside | beyond
    · rw [List.getElem?_append_left inside] at found
      exact accounted.forwards n q found
    · have last : n = s.records.length := by
        have bound := (List.getElem?_eq_some_iff.mp found).1
        rw [List.length_append, List.length_singleton] at bound
        omega
      subst last
      cases Option.some.inj (found.symm.trans List.getElem?_concat_length)
      rw [fresh]
      exact Nat.zero_le _

/-- The replica's own completion is announced again, and counted. -/
theorem Accounted.reannounce (accounted : s.Accounted client owner done now) {completionId : String} {record : ℕ}
    {p : PendingRequestDone} {started : ℚ} (held : (completionId, record) ∈ s.pendingRequestDone)
    (found : s.records[record]? = some p) (began : s.Began client now started) (due : p.forwardDueAt ≤ started)
    (records : s'.records = s.records.set record (p.forwarded (started + client.healthCheckIntervalMs)))
    (log : s'.log = s.log ++ [.reannounced completionId record p.data])
    (loops : s'.forwardLoops = s.forwardLoops ++ [⟨started, record⟩])
    (pending : s'.pendingRequestDone = s.pendingRequestDone)
    (remembered : s'.completedRequestIds = s.completedRequestIds)
    (tracked : s'.Tracked client) : s'.Accounted client owner done now := by
  obtain ⟨q, found', named, -⟩ := accounted.named (Or.inl held)
  cases Option.some.inj (found.symm.trans found')
  have own := accounted.own held found began due
  have others : ∀ entry ∈ s'.pendingRequestDone, ∀ q : PendingRequestDone, s'.records[entry.2]? = some q →
      q.data.ownerId ≠ client.instanceId → entry ∈ s.pendingRequestDone ∧ s.records[entry.2]? = some q := by
    intro entry held q after another
    rw [records] at after
    refine ⟨pending ▸ held, ?_⟩
    by_cases here : entry.2 = record
    · rw [here, List.getElem?_set_self (List.getElem?_eq_some_iff.mp found).1] at after
      cases after
      exact absurd own another
    · exact (List.getElem?_set_ne (Ne.symm here)).symm.trans after
  refine ⟨tracked, ?_, ?_, ?_, ?_, ?_⟩
  · intro q member
    rw [records] at member
    rcases List.mem_or_eq_of_mem_set member with old | rfl
    · exact accounted.owned q old
    · exact accounted.owned p (List.mem_of_getElem? found)
  · intro said member
    rw [log] at member
    rcases List.mem_append.mp member with old | new
    · exact Says.grow (accounted.said said old) log
    · cases List.mem_singleton.mp new
      exact accounted.owned p (List.mem_of_getElem? found)
  · intro loop member
    rw [loops] at member
    have begun : loop.now ≤ now ∧ ∀ entry ∈ s.pendingRequestDone, ∀ p : PendingRequestDone,
        s.records[entry.2]? = some p →
        p.data.ownerId ≠ client.instanceId → loop.now < p.forwardDueAt := by
      rcases List.mem_append.mp member with old | new
      · exact accounted.loops loop old
      · cases List.mem_singleton.mp new
        exact accounted.began began
    refine ⟨begun.1, ?_⟩
    intro entry held q after another
    obtain ⟨before, same⟩ := others entry held q after another
    exact begun.2 entry before q same another
  · intro id member
    rw [remembered] at member
    exact (accounted.remembered id member).imp_right fun gaveUp => gaveUp.grow log
  · intro n q after
    rw [records] at after
    by_cases here : n = record
    · subst here
      rw [List.getElem?_set_self (List.getElem?_eq_some_iff.mp found).1] at after
      cases after
      have before := accounted.forwards _ p found
      have counted : [CompletionOutput.reannounced completionId n p.data].countP
          (·.reannounces completionId n) = 1 := by
        simp [CompletionOutput.reannounces]
      show p.forwards + 1 ≤ s'.times (·.reannounces (p.data.completionId client.print) n)
      rw [named] at before ⊢
      rw [times, log, List.countP_append, counted]
      exact Nat.succ_le_succ before
    · rw [List.getElem?_set_ne (Ne.symm here)] at after
      exact (accounted.forwards n q after).trans (times_le log _)

theorem Accounted.move (accounted : s.Accounted client owner done now) (interval : 0 < client.healthCheckIntervalMs)
    (hears : ∀ data, heard data → owner (data.completionId client.print) = data.ownerId)
    (tells : ∀ id, told id → done id)
    (logged : ∀ id n, .applied id n ∈ s'.log → done id) (move : Move client now heard told s s') :
    s'.Accounted client owner done now := by
  have tracked := accounted.tracked.move move
  cases move with
  | @announces data heard =>
    refine accounted.sub tracked rfl rfl (List.Subset.refl _) (List.Subset.refl _) ?_ fun id => Or.inl
    intro said member
    cases List.mem_singleton.mp member
    exact hears data heard
  | @answers data heard known another =>
    refine accounted.sub tracked rfl rfl (List.Subset.refl _) (List.Subset.refl _) ?_ fun id => Or.inl
    intro said member
    cases List.mem_singleton.mp member
    rcases accounted.remembered _ known with applied | ⟨n, gaveUp⟩
    · exact applied
    · exact absurd ((hears data heard).symm.trans (accounted.said _ gaveUp).1) another
  | told heard => exact accounted.apply tracked rfl (Or.inl (tells _ heard))
  | loops held =>
    exact accounted.sub tracked rfl (List.append_nil _).symm (List.Subset.refl _) (List.Subset.refl _)
      (by simp) fun id => Or.inl
  | settles completionId =>
    exact accounted.sub tracked rfl (List.append_nil _).symm (List.Subset.refl _) (List.Subset.refl _)
      (by simp) fun id => Or.inl
  | demoted =>
    exact accounted.sub tracked rfl (List.append_nil _).symm (List.Subset.refl _) (List.Subset.refl _)
      (by simp) fun id => Or.inl
  | forwards sub =>
    exact accounted.sub tracked rfl (List.append_nil _).symm (List.Subset.refl _) sub (by simp) fun id => Or.inl
  | fails running =>
    exact accounted.sub tracked rfl (List.append_nil _).symm (List.Subset.refl _) (List.Subset.refl _)
      (by simp) fun id => Or.inl
  | drops =>
    refine accounted.sub tracked rfl rfl List.filter_sublist.subset (List.Subset.refl _) ?_ fun id => Or.inl
    intro said member
    obtain ⟨entry, -, rfl⟩ := List.mem_map.mp member
    trivial
  | promoted =>
    refine accounted.sub tracked rfl rfl List.filter_sublist.subset (List.Subset.refl _) ?_ fun id => Or.inl
    intro said member
    obtain ⟨entry, -, rfl⟩ := List.mem_map.mp member
    trivial
  | @gaveUp completionId record p started held found began due spent =>
    obtain ⟨q, found', named, owned⟩ := accounted.named (Or.inl held)
    cases Option.some.inj (found.symm.trans found')
    have own := accounted.own held found began due
    obtain ⟨forgotten, kept, same, -, inside⟩ := handleRequestDoneApplied_spec s completionId
    rw [same] at tracked ⊢
    refine accounted.sub tracked rfl (List.append_assoc _ _ _) List.filter_sublist.subset (List.Subset.refl _) ?_ ?_
    · intro said member
      rcases List.mem_append.mp member with old | new
      · obtain ⟨id, -, rfl⟩ := List.mem_map.mp old
        trivial
      · cases List.mem_singleton.mp new
        refine ⟨owned.symm.trans own, ?_⟩
        have forwards := accounted.forwards record p found
        rw [named] at forwards
        exact spent.trans forwards
    · intro id member
      rcases inside id member with rfl | old
      · exact Or.inr (Or.inr ⟨record, List.mem_append_right _ (List.mem_singleton_self _)⟩)
      · exact Or.inl old
  | @applies flush p running found returned =>
    have applied : done flush.completionId := by
      refine logged flush.completionId flush.record ?_
      obtain ⟨forgotten, kept, same, -⟩ :=
        handleRequestDoneApplied_spec (s.emit (.applied flush.completionId flush.record))
        flush.completionId
      rw [same]
      exact List.mem_append_left _ (List.mem_append_right _ (List.mem_singleton_self _))
    have noted : (s.emit (.applied flush.completionId flush.record)).Accounted client owner done now := by
      refine accounted.sub (accounted.tracked.sub rfl (.refl _) (fun _ => id) (.refl _)) rfl rfl (List.Subset.refl _)
        (List.Subset.refl _) ?_ fun id => Or.inl
      intro said member
      cases List.mem_singleton.mp member
      exact applied
    exact noted.apply tracked rfl (Or.inl applied)
  | acknowledges flush applied found =>
    have done_ := accounted.said _ applied
    unfold CompletionClient.acknowledgeCompletion at tracked ⊢
    split
    · exact accounted
    · rename_i another
      rw [if_neg another] at tracked
      refine accounted.sub tracked rfl rfl (List.Subset.refl _) (List.Subset.refl _) ?_ fun id => Or.inl
      intro said member
      cases List.mem_singleton.mp member
      exact done_
  | @goesOn flush p reply stretch running found resumed =>
    have idle : (s.without flush.completionId).Accounted client owner done now :=
      accounted.sub (accounted.tracked.without _) rfl (List.append_nil _).symm (List.Subset.refl _)
        (List.Subset.refl _) (by simp)
        fun id => Or.inl
    have advances := (CompletionStage.resume_from (accounted.tracked.fits flush running p found) resumed).advances
    exact idle.stretch found advances tracked
  | @begins completionId record p rest held after idle found =>
    have noted : ({ s with flushes := s.flushes + 1, flushLoops := s.flushLoops ++ [⟨s.flushes, rest⟩] } :
        Completions).Accounted client owner done now :=
      accounted.sub (accounted.tracked.looped after) rfl (List.append_nil _).symm
        (List.Subset.refl _) (List.Subset.refl _)
        (by simp) fun id => Or.inl
    exact noted.stretch found p.handleRequestDone_from.advances tracked
  | @stores data heard unknown =>
    have stored : client.storePendingRequestDone now data s = s.add (data.completionId client.print)
        { data, forwardDueAt := now + client.healthCheckIntervalMs } := if_neg unknown
    rw [stored] at tracked ⊢
    exact accounted.add tracked (hears data heard) (lt_add_of_pos_right now interval) rfl
  | reannounces held found began due =>
    exact accounted.reannounce held found began due rfl rfl rfl rfl rfl tracked

theorem Accounted.moves (accounted : s.Accounted client owner done now)
    (interval : 0 < client.healthCheckIntervalMs)
    (hears : ∀ data, heard data → owner (data.completionId client.print) = data.ownerId)
    (tells : ∀ id, told id → done id)
    (moves : Relation.ReflTransGen (Move client now heard told) s s')
    (logged : ∀ id n, .applied id n ∈ s'.log → done id) : s'.Accounted client owner done now := by
  induction moves with
  | refl => exact accounted
  | tail _ move ih =>
    obtain ⟨out, log⟩ := move_log move
    refine (ih fun id n applied => logged id n ?_).move interval hears tells logged move
    rw [log]
    exact List.mem_append_left _ applied

/-- The completion is still to be announced, has been applied somewhere, or has been given up on. -/
def Kept (done : String → Prop) (id : String) (s : Completions) : Prop :=
  id ∈ s.pendingRequestDone.map Prod.fst ∨ done id ∨ s.GaveUp id

theorem Kept.stays {id : String} (kept : s.Kept done id) {out : List CompletionOutput} (log : s'.log = s.log ++ out)
    (stays : ∀ entry ∈ s.pendingRequestDone, entry.1 = id → s'.Kept done id) : s'.Kept done id := by
  rcases kept with pending | applied | gaveUp
  · obtain ⟨entry, member, same⟩ := List.mem_map.mp pending
    exact stays entry member same
  · exact Or.inr (Or.inl applied)
  · exact Or.inr (Or.inr (gaveUp.grow log))

theorem Kept.of_mem {entry : String × ℕ} (member : entry ∈ s.pendingRequestDone) : s.Kept done entry.1 :=
  Or.inl (List.mem_map.mpr ⟨entry, member, rfl⟩)

theorem Kept.apply {id completionId : String} (kept : s.Kept done id)
    (either : completionId = id → s.Kept done id → done id) :
    (s.handleRequestDoneApplied completionId).Kept done id := by
  by_cases same : completionId = id
  · exact Or.inr (Or.inl (either same kept))
  · obtain ⟨forgotten, inside, spec, -⟩ := handleRequestDoneApplied_spec s completionId
    rw [spec]
    refine kept.stays rfl ?_
    rintro entry member rfl
    exact Kept.of_mem (List.mem_filter.mpr ⟨member, by simpa using Ne.symm same⟩)

/-- A replica drops other replicas' completions only. -/
theorem Accounted.keeps (accounted : s.Accounted client owner done now) {entry : String × ℕ} (held : s.Held entry)
    (own : owner entry.1 = client.instanceId) : client.foreign s entry.2 = false := by
  obtain ⟨p, found, -, owned⟩ := accounted.named held
  rw [CompletionClient.foreign, found]
  simpa using owned.trans own

theorem Kept.move {id : String} (accounted : s.Accounted client owner done now) (own : owner id = client.instanceId)
    (tells : ∀ id, told id → done id) (logged : ∀ id n, .applied id n ∈ s'.log → done id)
    (move : Move client now heard told s s') (kept : s.Kept done id) : s'.Kept done id := by
  have same : ∀ {s' : Completions} {out}, s'.log = s.log ++ out → s'.pendingRequestDone = s.pendingRequestDone →
      s'.Kept done id := by
    intro s' out log pending
    refine kept.stays log ?_
    rintro entry member rfl
    exact Kept.of_mem (pending ▸ member)
  have dropped : ∀ entry ∈ s.pendingRequestDone, entry.1 = id →
      entry ∈ s.pendingRequestDone.filter fun entry => !client.foreign s entry.2 := by
    rintro entry member rfl
    exact List.mem_filter.mpr ⟨member, by simp [accounted.keeps (Or.inl member) own]⟩
  obtain ⟨out, log⟩ := move_log move
  cases move with
  | announces hears => exact same log rfl
  | answers hears known another => exact same log rfl
  | told heard => exact kept.apply fun applies _ => applies ▸ tells _ heard
  | loops held => exact same log rfl
  | settles completionId => exact same log rfl
  | demoted => exact same log rfl
  | forwards sub => exact same log rfl
  | fails running => exact same log rfl
  | drops => exact kept.stays log fun entry member named => named ▸ Kept.of_mem (dropped entry member named)
  | promoted => exact kept.stays log fun entry member named => named ▸ Kept.of_mem (dropped entry member named)
  | @gaveUp completionId record p started held found began due spent =>
    by_cases here : completionId = id
    · subst here
      exact Or.inr (Or.inr ⟨record, List.mem_append_right _ (List.mem_singleton_self _)⟩)
    · have kept := kept.apply fun applies => absurd applies here
      exact kept.stays rfl fun entry member named => named ▸ Kept.of_mem member
  | @applies flush p running found returned =>
    have applied : done flush.completionId := by
      refine logged flush.completionId flush.record ?_
      obtain ⟨forgotten, inside, spec, -⟩ :=
        handleRequestDoneApplied_spec (s.emit (.applied flush.completionId flush.record))
        flush.completionId
      rw [spec]
      exact List.mem_append_left _ (List.mem_append_right _ (List.mem_singleton_self _))
    have noted : (s.emit (.applied flush.completionId flush.record)).Kept done id := same rfl rfl
    exact noted.apply fun applies _ => applies ▸ applied
  | acknowledges flush applied found =>
    refine same log ?_
    unfold CompletionClient.acknowledgeCompletion
    split <;> rfl
  | goesOn running found resumed => exact same log rfl
  | begins held after idle found => exact same log rfl
  | @stores data heard unknown =>
    have stored : client.storePendingRequestDone now data s = s.add (data.completionId client.print)
        { data, forwardDueAt := now + client.healthCheckIntervalMs } := if_neg unknown
    rw [stored]
    refine kept.stays rfl ?_
    rintro entry member rfl
    exact Kept.of_mem (List.mem_append_left _ member)
  | reannounces held found began due => exact same log rfl

theorem Kept.moves {id : String} (accounted : s.Accounted client owner done now)
    (interval : 0 < client.healthCheckIntervalMs)
    (own : owner id = client.instanceId)
    (hears : ∀ data, heard data → owner (data.completionId client.print) = data.ownerId)
    (tells : ∀ id, told id → done id) (moves : Relation.ReflTransGen (Move client now heard told) s s')
    (logged : ∀ id n, .applied id n ∈ s'.log → done id) (kept : s.Kept done id) : s'.Kept done id := by
  induction moves with
  | refl => exact kept
  | @tail s₁ _ before move ih =>
    obtain ⟨out, log⟩ := move_log move
    have earlier : ∀ id n, .applied id n ∈ s₁.log → done id := by
      intro id n applied
      refine logged id n ?_
      rw [log]
      exact List.mem_append_left _ applied
    exact Kept.move (accounted.moves interval hears tells before earlier) own tells logged move (ih earlier)

theorem flushEntries_pending (s : Completions) (entries : List (String × ℕ)) :
    (s.flushEntries entries).pendingRequestDone = s.pendingRequestDone := by
  induction entries with
  | nil => rfl
  | cons entry rest ih =>
    unfold flushEntries
    split
    · rfl
    · split
      · exact ih
      · rfl

/-- A completion recorded by its owner is kept from then on. -/
theorem Kept.finalized (accounted : s.Accounted client owner done now) (data : RequestDoneData) :
    (client.finalizeOwnedRequest now data s).Kept done (data.completionId client.print) := by
  have stored : data.completionId client.print ∈
      (client.storePendingRequestDone now data s).pendingRequestDone.map Prod.fst ∨
      data.completionId client.print ∈ s.completedRequestIds := by
    unfold CompletionClient.storePendingRequestDone
    dsimp only
    split
    · rename_i known
      exact known.symm
    · exact Or.inl (List.mem_map.mpr ⟨_, List.mem_append_right _ (List.mem_singleton_self _), rfl⟩)
  unfold CompletionClient.finalizeOwnedRequest
  dsimp only
  split
  · rename_i known
    have kept : s.Kept done (data.completionId client.print) := Or.inr (accounted.remembered _ known)
    split
    · unfold CompletionClient.acknowledgeCompletion
      split
      · exact kept
      · exact kept.stays rfl fun entry member named => named ▸ Kept.of_mem member
    · exact kept
  · rename_i unknown
    have pending := stored.resolve_right unknown
    split
    · refine Or.inl ?_
      rw [flushEntries_pending]
      exact pending
    · exact Or.inl pending

end Accounts

end Completions

/-- The replicas of one client. -/
structure CompletionFleet (ι : Type*) where
  instanceId : ι → String
  healthCheckIntervalMs : ι → ℚ
  print : JsNumber → String

namespace CompletionFleet

variable {ι : Type*} (fleet : CompletionFleet ι) (owner : String → String)

def client (i : ι) : CompletionClient := ⟨fleet.instanceId i, fleet.healthCheckIntervalMs i, fleet.print⟩

/-- A completion of the replica's own. -/
def Owns (i : ι) (data : RequestDoneData) : Prop :=
  data.ownerId = fleet.instanceId i ∧ owner (data.completionId fleet.print) = data.ownerId

/-- What may happen, in any order: what was published arrives any number of times, late or never. -/
def Allowed (i : ι) (replicas : ι → Completions) : CompletionEvent → Prop
  | .announce data => fleet.Owns owner i data
  | .finalizeOwnedRequest data => fleet.Owns owner i data ∨
      ∃ j, .announced data ∈ (replicas j).log ∨ ∃ id n, .reannounced id n data ∈ (replicas j).log
  | .handleRequestDoneApplied completionId => ∃ j,
    .acknowledged completionId (fleet.instanceId i) ∈ (replicas j).log
  | .updateRole _ | .tick | .flushGoesOn .. | .loopGoesOn _ | .forwardGoesOn .. => True

def handOff [DecidableEq ι] : Timed.Machine ℚ (ι → Completions) (ι × CompletionEvent) where
  step now event replicas :=
    Function.update replicas event.1 ((fleet.client event.1).step now event.2 (replicas event.1))
  allowed _ event replicas := fleet.Allowed owner event.1 replicas event.2

/-- Some replica has applied the completion. -/
def Applied (replicas : ι → Completions) (completionId : String) : Prop :=
  ∃ k record, .applied completionId record ∈ (replicas k).log

/-- Every replica is sound, and what it knows is true. -/
def Truthful (now : ℚ) (replicas : ι → Completions) : Prop :=
  ∀ i, (replicas i).Sound (fleet.client i) ∧ (replicas i).Accounted (fleet.client i) owner (Applied replicas) now

theorem constructed_truthful (start : ℚ) : fleet.Truthful owner start fun _ => .constructed := by
  intro i
  have sound := Completions.constructed_sound (fleet.client i)
  refine ⟨sound, sound.tracked, ?_, ?_, ?_, ?_, ?_⟩
  · simp [Completions.constructed]
  · simp [Completions.constructed]
  · simp [Completions.constructed]
  · simp [Completions.constructed]
  · simp [Completions.constructed]

variable {fleet owner} {now t : ℚ} {replicas : ι → Completions}

/-- What a delivery brings is of the owner it names. -/
theorem Truthful.hears (truthful : fleet.Truthful owner now replicas) {i : ι} {data : RequestDoneData}
    (allowed : fleet.Allowed owner i replicas (.finalizeOwnedRequest data)) :
    owner (data.completionId fleet.print) = data.ownerId := by
  rcases allowed with own | ⟨j, announced | ⟨id, n, again⟩⟩
  · exact own.2
  · exact (truthful j).2.said _ announced
  · exact (truthful j).2.said _ again

/-- What a replica does at an event is made of moves that go by what is true. -/
theorem Truthful.moves (truthful : fleet.Truthful owner now replicas) {i : ι} {e : CompletionEvent}
    (allowed : fleet.Allowed owner i replicas e) :
    Relation.ReflTransGen (Completions.Move (fleet.client i) t (fun data => owner (data.completionId fleet.print) = data.ownerId)
      (Applied replicas)) (replicas i) ((fleet.client i).step t e (replicas i)) := by
  refine Completions.step_moves (truthful i).1.tracked.keys e ?_ ?_
  · rintro data (rfl | rfl)
    · exact allowed.2
    · exact truthful.hears allowed
  · rintro completionId rfl
    obtain ⟨j, acknowledged⟩ := allowed
    exact (truthful j).2.said _ acknowledged

section

variable [DecidableEq ι]

theorem handOff_self (i : ι) (e : CompletionEvent) :
    (fleet.handOff owner).step t (i, e) replicas i = (fleet.client i).step t e (replicas i) :=
  Function.update_self i _ replicas

theorem handOff_other {i j : ι} (apart : j ≠ i) (e : CompletionEvent) :
    (fleet.handOff owner).step t (i, e) replicas j = replicas j :=
  Function.update_of_ne apart _ replicas

/-- What has been applied stays applied. -/
theorem Truthful.more (truthful : fleet.Truthful owner now replicas) {i : ι} {e : CompletionEvent}
    (allowed : fleet.Allowed owner i replicas e) {completionId : String} (applied : Applied replicas completionId) :
    Applied ((fleet.handOff owner).step t (i, e) replicas) completionId := by
  obtain ⟨k, record, applied⟩ := applied
  refine ⟨k, record, ?_⟩
  by_cases here : k = i
  · subst here
    obtain ⟨out, log⟩ := Completions.moves_log (truthful.moves (t := t) allowed)
    rw [handOff_self, log]
    exact List.mem_append_left _ applied
  · rw [handOff_other here]
    exact applied

theorem Truthful.step (intervals : ∀ i, 0 < fleet.healthCheckIntervalMs i)
    (truthful : fleet.Truthful owner now replicas)
    (wait : now ≤ t) {event : ι × CompletionEvent} (allowed : fleet.Allowed owner event.1 replicas event.2) :
    fleet.Truthful owner t ((fleet.handOff owner).step t event replicas) := by
  obtain ⟨i, e⟩ := event
  intro j
  have later := (truthful j).2.later wait fun _ => truthful.more (t := t) allowed
  by_cases here : j = i
  · subst here
    have moves := truthful.moves (t := t) allowed
    rw [handOff_self]
    refine ⟨(truthful j).1.moves moves, later.moves (intervals j) (fun _ => id) (fun _ => truthful.more allowed) moves ?_⟩
    intro id n applied
    refine ⟨j, n, ?_⟩
    rw [handOff_self]
    exact applied
  · rw [handOff_other here]
    exact ⟨(truthful j).1, later⟩

/-- A completion the owner keeps, it keeps. -/
theorem Truthful.keeps (intervals : ∀ i, 0 < fleet.healthCheckIntervalMs i)
    (truthful : fleet.Truthful owner now replicas)
    (wait : now ≤ t) {event : ι × CompletionEvent} (allowed : fleet.Allowed owner event.1 replicas event.2) {j : ι}
    {completionId : String} (own : owner completionId = fleet.instanceId j)
    (kept : (replicas j).Kept (Applied replicas) completionId) :
    ((fleet.handOff owner).step t event replicas j).Kept (Applied ((fleet.handOff owner).step t event replicas))
      completionId := by
  obtain ⟨i, e⟩ := event
  have more : ∀ id, Applied replicas id → Applied ((fleet.handOff owner).step t (i, e) replicas) id :=
    fun _ => truthful.more allowed
  have later := (truthful j).2.later wait more
  have kept := kept.imp_right fun either => either.imp_left (more completionId)
  by_cases here : j = i
  · subst here
    have moves := truthful.moves (t := t) allowed
    rw [handOff_self]
    refine Completions.Kept.moves later (intervals j) own (fun _ => id) more moves ?_ kept
    intro id n applied
    refine ⟨j, n, ?_⟩
    rw [handOff_self]
    exact applied
  · rw [handOff_other here]
    exact kept

/-- Two replicas, `false` the owner of the served request. -/
def servingFleet : CompletionFleet Bool :=
  ⟨fun i => if i then "controller" else "owner", fun _ => 1000, fun _ => "0"⟩

/-- The request's completion is applied by the controller and acknowledged to its owner. -/
def acknowledgedHistory : List (ℚ × Bool × CompletionEvent) :=
  [(0, true, .updateRole .controller), (0, false, .announce servedRequest),
   (0, false, .finalizeOwnedRequest servedRequest),
   (1, true, .finalizeOwnedRequest servedRequest), (1, true, .flushGoesOn "r:0:success" (.ok false)),
   (2, true, .flushGoesOn "r:0:success" (.ok false)), (3, true, .flushGoesOn "r:0:success" .failed),
   (4, false, .handleRequestDoneApplied "r:0:success")]

theorem acknowledged_valid :
    (servingFleet.handOff fun _ => "owner").Valid 0 (fun _ => .constructed) acknowledgedHistory := by
  refine ⟨le_refl 0, trivial, le_refl 0, ⟨rfl, rfl⟩, le_refl 0, Or.inl ⟨rfl, rfl⟩, by norm_num,
    Or.inr ⟨false, Or.inl ?_⟩,
    le_refl 1, trivial, by norm_num, trivial, by norm_num, trivial, by norm_num, ⟨true, ?_⟩, trivial⟩
  · exact List.mem_of_getElem? (i := 0) rfl
  · exact List.mem_of_getElem? (i := 4) rfl

variable {start : ℚ} {history : List (ℚ × ι × CompletionEvent)}

theorem Truthful.final (intervals : ∀ i, 0 < fleet.healthCheckIntervalMs i)
    (valid : (fleet.handOff owner).Valid start (fun _ => .constructed) history) :
    fleet.Truthful owner ((fleet.handOff owner).clock start history)
      ((fleet.handOff owner).final (fun _ => .constructed) history) :=
  valid.invariant (fun _ _ _ _ wait allowed truthful => truthful.step intervals wait allowed)
    (fleet.constructed_truthful owner start)

/-- An acknowledgement is sent only of what some replica has applied, every step of it seen to. -/
theorem acknowledged_applied (intervals : ∀ i, 0 < fleet.healthCheckIntervalMs i)
    (valid : (fleet.handOff owner).Valid start (fun _ => .constructed) history) {i : ι}
    {completionId ownerId : String}
    (acknowledged : .acknowledged completionId ownerId ∈
      ((fleet.handOff owner).final (fun _ => .constructed) history i).log) :
    ∃ k record, .applied completionId record ∈ ((fleet.handOff owner).final (fun _ => .constructed) history k).log ∧
      ((fleet.handOff owner).final (fun _ => .constructed) history k).SawTo
        (fleet.client k) completionId record := by
  have truthful := Truthful.final intervals valid
  obtain ⟨k, record, applied⟩ := (truthful i).2.said _ acknowledged
  exact ⟨k, record, applied, (truthful k).1.logged.sawTo applied⟩

theorem acknowledged_applied_served :
    ∃ k record, .applied "r:0:success" record ∈
        ((servingFleet.handOff fun _ => "owner").final (fun _ => .constructed) acknowledgedHistory k).log ∧
      ((servingFleet.handOff fun _ => "owner").final (fun _ => .constructed) acknowledgedHistory k).SawTo (servingFleet.client k)
        "r:0:success" record := by
  have acknowledged : .acknowledged "r:0:success" "owner" ∈
      ((servingFleet.handOff fun _ => "owner").final (fun _ => .constructed) acknowledgedHistory true).log :=
    List.mem_of_getElem? (i := 4) rfl
  exact acknowledged_applied (fun _ => by norm_num [servingFleet]) acknowledged_valid acknowledged

/-- No completion is lost: one its owner recorded is still to be announced, or some replica has seen to every step
of it, or the owner gave up on it after announcing it again as often as it may. -/
theorem completion_not_lost (intervals : ∀ i, 0 < fleet.healthCheckIntervalMs i)
    (valid : (fleet.handOff owner).Valid start (fun _ => .constructed) history) {i : ι} {data : RequestDoneData}
    (own : data.ownerId = fleet.instanceId i)
    (finalized : (fleet.handOff owner).Passes (fun _ event _ => event = (i, .finalizeOwnedRequest data)) (fun _ => .constructed)
      history) :
    data.completionId fleet.print ∈
        (((fleet.handOff owner).final (fun _ => .constructed) history i).pendingRequestDone.map Prod.fst) ∨
      (∃ k record, .applied (data.completionId fleet.print) record ∈
          ((fleet.handOff owner).final (fun _ => .constructed) history k).log ∧
        ((fleet.handOff owner).final (fun _ => .constructed) history k).SawTo (fleet.client k)
          (data.completionId fleet.print) record) ∨
      ∃ record, .gaveUp (data.completionId fleet.print) record ∈
          ((fleet.handOff owner).final (fun _ => .constructed) history i).log ∧
        maxCompletionForwards ≤ ((fleet.handOff owner).final (fun _ => .constructed) history i).times
          (·.reannounces (data.completionId fleet.print) record) := by
  have truthful := Truthful.final intervals valid
  have kept : ((fleet.handOff owner).final (fun _ => .constructed) history i).Kept
      (Applied ((fleet.handOff owner).final (fun _ => .constructed) history)) (data.completionId fleet.print) := by
    have after := valid.invariant_after (I := fun now replicas => fleet.Truthful owner now replicas)
      (J := fun now replicas => fleet.Truthful owner now replicas ∧
        owner (data.completionId fleet.print) = fleet.instanceId i ∧
        (replicas i).Kept (Applied replicas) (data.completionId fleet.print))
      (fun _ _ _ _ wait allowed truthful => truthful.step intervals wait allowed) ?_ ?_ finalized
      (fleet.constructed_truthful owner start)
    · exact after.2.2
    · rintro _ t event replicas wait allowed rfl truthful
      refine ⟨truthful.step intervals wait allowed, (truthful.hears allowed).trans own, ?_⟩
      rw [handOff_self]
      have delivered : fleet.Allowed owner i replicas (.finalizeOwnedRequest data) := allowed
      exact Completions.Kept.finalized ((truthful i).2.later wait fun _ => truthful.more delivered) data
    · rintro _ t event replicas wait allowed ⟨truthful, owned, kept⟩
      exact ⟨truthful.step intervals wait allowed, owned, truthful.keeps intervals wait allowed owned kept⟩
  rcases kept with pending | ⟨k, record, applied⟩ | ⟨record, gaveUp⟩
  · exact Or.inl pending
  · exact Or.inr (Or.inl ⟨k, record, applied, (truthful k).1.logged.sawTo applied⟩)
  · exact Or.inr (Or.inr ⟨record, gaveUp, ((truthful i).2.said _ gaveUp).2⟩)

theorem completion_not_lost_served :
    servedRequest.completionId servingFleet.print ∈
        (((servingFleet.handOff fun _ => "owner").final (fun _ => .constructed) acknowledgedHistory false).pendingRequestDone.map
          Prod.fst) ∨
      (∃ k record, .applied (servedRequest.completionId servingFleet.print) record ∈
          ((servingFleet.handOff fun _ => "owner").final (fun _ => .constructed) acknowledgedHistory k).log ∧
        ((servingFleet.handOff fun _ => "owner").final (fun _ => .constructed) acknowledgedHistory k).SawTo (servingFleet.client k)
          (servedRequest.completionId servingFleet.print) record) ∨
      ∃ record, .gaveUp (servedRequest.completionId servingFleet.print) record ∈
          ((servingFleet.handOff fun _ => "owner").final (fun _ => .constructed) acknowledgedHistory false).log ∧
        maxCompletionForwards ≤
          ((servingFleet.handOff fun _ => "owner").final (fun _ => .constructed) acknowledgedHistory
          false).times (·.reannounces (servedRequest.completionId servingFleet.print) record) :=
  completion_not_lost (fun _ => by norm_num [servingFleet]) acknowledged_valid rfl (Or.inr (Or.inr (Or.inl rfl)))

end

end CompletionFleet

end Dianemo
