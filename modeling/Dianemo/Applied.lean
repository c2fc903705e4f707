import Dianemo.HandOff
import Dianemo.Library.Timed

namespace Dianemo

namespace CompletionOutput

def runs (completionId : String) (step : CompletionStep) : CompletionOutput → Bool
  | .ran id _ other => id = completionId && other = step
  | _ => false

def drops (completionId : String) : CompletionOutput → Bool
  | .dropped id _ => id = completionId
  | _ => false

def forgets (completionId : String) : CompletionOutput → Bool
  | .forgot id => id = completionId
  | _ => false

@[simp] theorem runs_ran (id other : String) (n : ℕ) (step taken : CompletionStep) :
    (ran id n taken).runs other step = (decide (id = other) && decide (taken = step)) := rfl

@[simp] theorem runs_stored (id other : String) (n : ℕ) (role : ClientRole) (step : CompletionStep) :
    (stored id n role).runs other step = false := rfl

end CompletionOutput

namespace Completions

/-- How often a completion was recorded. -/
def made (client : CompletionClient) (completionId : String) (s : Completions) : ℕ :=
  s.records.countP fun p => p.data.completionId client.print = completionId

/-- How many records of a completion have seen to a step. -/
def seen (client : CompletionClient) (completionId : String) (step : CompletionStep) (s : Completions) : ℕ :=
  s.records.countP fun p => p.data.completionId client.print = completionId && p.handled step

/-- How often the log says so. -/
def times (s : Completions) (test : CompletionOutput → Bool) : ℕ := s.log.countP test

/-- A completion the client does not know of is one whose every record was dropped or forgotten. -/
structure Counted (client : CompletionClient) (s : Completions) : Prop where
  made : ∀ id, s.made client id ≤ s.times (·.drops id) + s.times (·.forgets id) + 1
  unknown : ∀ id, ¬ s.Known id → s.made client id ≤ s.times (·.drops id) + s.times (·.forgets id)
  ran : ∀ id step, s.times (·.runs id step) ≤ s.seen client id step

section Counts

variable {client : CompletionClient} {now : ℚ} {heard : RequestDoneData → Prop}
    {told : String → Prop} {s s' : Completions}

/-- More was logged: no step, and of a completion no longer known what became of it. -/
theorem Counted.grow (counted : s.Counted client) {out : List CompletionOutput} (log : s'.log = s.log ++ out)
    (made : ∀ id, s'.made client id = s.made client id)
    (seen : ∀ id step, s.seen client id step ≤ s'.seen client id step)
    (quiet : ∀ id step, out.countP (·.runs id step) = 0)
    (lost : ∀ id, s.Known id → ¬ s'.Known id → 1 ≤ out.countP (·.drops id) + out.countP (·.forgets id)) :
    s'.Counted client := by
  refine ⟨?_, ?_, ?_⟩
  · intro id
    have before := counted.made id
    simp only [times, log, List.countP_append, made] at before ⊢
    omega
  · intro id unknown
    have before := counted.made id
    by_cases known : s.Known id
    · have lost := lost id known unknown
      simp only [times, log, List.countP_append, made] at before ⊢
      omega
    · have before := counted.unknown id known
      simp only [times, log, List.countP_append, made] at before ⊢
      omega
  · intro id step
    have before := counted.ran id step
    have quiet := quiet id step
    have seen := seen id step
    simp only [times, log, List.countP_append] at before ⊢
    omega

theorem Counted.same (counted : s.Counted client) {out : List CompletionOutput} (log : s'.log = s.log ++ out)
    (records : s'.records = s.records) (quiet : ∀ id step, out.countP (·.runs id step) = 0)
    (lost : ∀ id, s.Known id → ¬ s'.Known id → 1 ≤ out.countP (·.drops id) + out.countP (·.forgets id)) :
    s'.Counted client :=
  counted.grow log (fun id => by rw [Completions.made, records, Completions.made])
    (fun id step => by rw [Completions.seen, Completions.seen, records]) quiet lost

/-- What is said about other matters changes no count. -/
theorem Counted.note (counted : s.Counted client) (out : CompletionOutput)
    (quiet : ∀ id step, out.runs id step = false) : (s.emit out).Counted client :=
  counted.same rfl rfl (by simp [quiet]) fun _ known unknown => absurd known unknown

theorem Counted.congr (counted : s.Counted client) (log : s'.log = s.log) (records : s'.records = s.records)
    (remembered : s'.completedRequestIds = s.completedRequestIds)
    (pending : s'.pendingRequestDone = s.pendingRequestDone) : s'.Counted client := by
  have silent : s'.log = s.log ++ [] := by rw [log, List.append_nil]
  refine counted.same silent records (by simp) ?_
  intro id known unknown
  rw [Known, remembered, pending] at unknown
  exact absurd known unknown

theorem Counted.applied (counted : s.Counted client) (completionId : String) :
    (s.handleRequestDoneApplied completionId).Counted client := by
  obtain ⟨forgotten, kept, same, keeps, -⟩ := handleRequestDoneApplied_spec s completionId
  rw [same]
  refine counted.same rfl rfl ?_ ?_
  · intro id step
    rw [List.countP_map]
    exact List.countP_eq_zero.mpr fun _ _ => by simp [CompletionOutput.runs]
  · intro id known unknown
    obtain ⟨out, gone⟩ := not_or.mp unknown
    have forgot : id ∈ forgotten := by
      refine (keeps id ?_).resolve_left out
      rcases known with remembered | pending
      · exact Or.inr remembered
      · refine Or.inl ?_
        by_contra other
        obtain ⟨entry, member, rfl⟩ := List.mem_map.mp pending
        refine gone (List.mem_map.mpr ⟨entry, List.mem_filter.mpr ⟨member, ?_⟩, rfl⟩)
        simpa using other
    refine le_add_left ?_
    rw [List.countP_map, Nat.one_le_iff_ne_zero, ← Nat.pos_iff_ne_zero, List.countP_pos_iff]
    exact ⟨id, forgot, by simp [CompletionOutput.forgets]⟩

theorem Counted.dropped (counted : s.Counted client) : (client.dropRetainedCopies s).Counted client := by
  refine counted.same rfl rfl ?_ ?_
  · intro id step
    rw [List.countP_map]
    exact List.countP_eq_zero.mpr fun _ _ => by simp [CompletionOutput.runs]
  · intro id known unknown
    obtain ⟨out, gone⟩ := not_or.mp unknown
    rcases known with remembered | pending
    · exact absurd remembered out
    · obtain ⟨entry, member, rfl⟩ := List.mem_map.mp pending
      have foreign : client.foreign s entry.2 = true := by
        by_contra own
        refine gone (List.mem_map.mpr ⟨entry, List.mem_filter.mpr ⟨member, ?_⟩, rfl⟩)
        simpa using own
      refine le_add_right ?_
      rw [List.countP_map, Nat.one_le_iff_ne_zero, ← Nat.pos_iff_ne_zero, List.countP_pos_iff]
      exact ⟨entry, List.mem_filter.mpr ⟨member, foreign⟩, by simp [CompletionOutput.drops]⟩

theorem countP_set_found {α : Type} {l : List α} {n : ℕ} {a b : α} (found : l[n]? = some a) (test : α → Bool) :
    (l.set n b).countP test + (if test a then 1 else 0) = l.countP test + if test b then 1 else 0 := by
  obtain ⟨inside, here⟩ := List.getElem?_eq_some_iff.mp found
  have positive : test a = true → 0 < l.countP test := by
    intro holds
    exact List.countP_pos_iff.mpr ⟨a, here ▸ List.getElem_mem inside, holds⟩
  rw [List.countP_set inside, here]
  split
  · rename_i holds
    have := positive holds
    omega
  · omega

theorem Counted.rewrite (counted : s.Counted client) {record : ℕ} {p q : PendingRequestDone}
    {ran : Option CompletionStep}
    {id : String} (found : s.records[record]? = some p) (named : p.data.completionId client.print = id)
    (follows : p.Follows q ran) (records : s'.records = s.records.set record q)
    (log : s'.log = s.log ++ ran.toList.map fun step => .ran id record step)
    (known : ∀ id, s.Known id → s'.Known id) : s'.Counted client := by
  have same := follows.completionId
  have made : ∀ id, s'.made client id = s.made client id := by
    intro id
    have counts := countP_set_found (b := q) found fun p => decide (p.data.completionId client.print = id)
    simp only [same] at counts
    rw [Completions.made, records, Completions.made]
    omega
  refine ⟨?_, ?_, ?_⟩
  · intro other
    have before := counted.made other
    simp only [times, log, List.countP_append, made] at before ⊢
    omega
  · intro other unknown
    have before := counted.unknown other fun there => unknown (known other there)
    simp only [times, log, List.countP_append, made] at before ⊢
    omega
  · intro other step
    have before := counted.ran other step
    have counts := countP_set_found (b := q) found fun p =>
      decide (p.data.completionId client.print = other) && p.handled step
    simp only [same, named] at counts
    simp only [times, seen, log, records, List.countP_append, List.countP_map] at before ⊢
    cases ran with
    | none =>
      have kept := follows.kept step
      simp only [Option.toList_none, List.countP_nil]
      by_cases held : p.handled step = true
      · simp only [held, kept held] at counts
        omega
      · simp only [Bool.not_eq_true] at held
        simp only [held, Bool.and_false, Bool.false_eq_true, if_false] at counts
        omega
    | some taken =>
      obtain ⟨open_, closed⟩ := follows.ran taken rfl
      simp only [Option.toList_some, List.countP_singleton, Function.comp_apply, CompletionOutput.runs_ran]
      by_cases here : id = other ∧ taken = step
      · obtain ⟨rfl, rfl⟩ := here
        simp [open_, closed] at counts ⊢
        omega
      · have kept := follows.kept step
        have off : (decide (id = other) && decide (taken = step)) = false := by simpa using here
        simp only [off, Bool.false_eq_true, if_false]
        by_cases held : p.handled step = true
        · simp only [held, kept held] at counts
          omega
        · simp only [Bool.not_eq_true] at held
          simp only [held, Bool.and_false, Bool.false_eq_true, if_false] at counts
          omega

theorem Counted.add (counted : s.Counted client) {completionId : String} {p : PendingRequestDone}
    (unknown : ¬ s.Known completionId) (named : p.data.completionId client.print = completionId) :
    (s.add completionId p).Counted client := by
  have made : ∀ id, (s.add completionId p).made client id = s.made client id +
      if completionId = id then 1 else 0 := by
    intro id
    rw [Completions.made, Completions.add, List.countP_append, List.countP_singleton, named]
    simp [Completions.made]
  have log : (s.add completionId p).log = s.log ++ [.stored completionId s.records.length s.role] := rfl
  have free := counted.unknown completionId unknown
  refine ⟨?_, ?_, ?_⟩
  · intro id
    have before := counted.made id
    simp only [times, log, List.countP_append, made] at before free ⊢
    split
    · rename_i same
      subst same
      omega
    · omega
  · intro id apart
    have other : completionId ≠ id := by
      rintro rfl
      exact apart (Or.inr (List.mem_map.mpr ⟨_, List.mem_append_right _ (List.mem_singleton_self _), rfl⟩))
    have before := counted.unknown id fun known => apart (known.imp_right fun pending => by
      obtain ⟨entry, member, same⟩ := List.mem_map.mp pending
      exact List.mem_map.mpr ⟨entry, List.mem_append_left _ member, same⟩)
    simp only [times, log, List.countP_append, made, if_neg other] at before ⊢
    omega
  · intro id step
    have before := counted.ran id step
    simp only [times, seen, Completions.add, List.countP_append] at before ⊢
    simp only [List.countP_singleton, CompletionOutput.runs_stored, Bool.false_eq_true, if_false]
    omega

theorem Counted.move (counted : s.Counted client) (tracked : s.Tracked client)
    (move : Move client now heard told s s') : s'.Counted client := by
  cases move with
  | announces hears => exact counted.note _ fun _ _ => rfl
  | answers hears known another => exact counted.note _ fun _ _ => rfl
  | told tells => exact counted.applied _
  | loops held => exact counted.congr rfl rfl rfl rfl
  | settles completionId => exact counted.congr rfl rfl rfl rfl
  | demoted => exact counted.congr rfl rfl rfl rfl
  | forwards sub => exact counted.congr rfl rfl rfl rfl
  | fails running => exact counted.congr rfl rfl rfl rfl
  | drops => exact counted.dropped
  | promoted =>
    have promoted : ({ s with role := .controller } : Completions).Counted client := counted.congr rfl rfl rfl rfl
    exact promoted.dropped
  | gaveUp held found began due spent => exact (counted.applied _).note _ fun _ _ => rfl
  | @applies flush p running found returned =>
    have noted : (s.emit (.applied flush.completionId flush.record)).Counted client := counted.note _ fun _ _ => rfl
    exact noted.applied _
  | acknowledges flush applied found =>
    unfold CompletionClient.acknowledgeCompletion
    split
    · exact counted
    · exact counted.note _ fun _ _ => rfl
  | @goesOn flush p reply stretch running found resumed =>
    obtain ⟨p', found', named⟩ := tracked.flushes flush running
    cases Option.some.inj (found.symm.trans found')
    have taken := CompletionStage.resume_from (tracked.fits flush running p found) resumed
    exact counted.rewrite found named taken.advances.toFollows rfl rfl fun _ => id
  | @begins completionId record p rest held after idle found =>
    obtain ⟨p', found', named⟩ := tracked.names _ held.held
    cases Option.some.inj (found.symm.trans found')
    have taken := p.handleRequestDone_from
    exact counted.rewrite found named taken.advances.toFollows rfl rfl fun _ => id
  | @stores data hears unknown =>
    have stored : client.storePendingRequestDone now data s = s.add (data.completionId client.print)
        { data, forwardDueAt := now + client.healthCheckIntervalMs } := if_neg unknown
    rw [stored]
    exact counted.add unknown rfl
  | @reannounces completionId record p started held found began due =>
    have rewritten : ({ s with records := s.records.set record (p.forwarded (started + client.healthCheckIntervalMs)) } :
        Completions).Counted client := counted.rewrite found rfl (.forwarded p _) rfl (by simp) fun _ => id
    exact (rewritten.note (.reannounced completionId record p.data) fun _ _ => rfl).congr rfl rfl rfl rfl

end Counts

/-- What a client did, and what came of it, is in its log. -/
structure Logged (client : CompletionClient) (s : Completions) : Prop where
  ran : ∀ n p, s.records[n]? = some p → ∀ step, p.handled step = true → p.data.Owes step →
    .ran (p.data.completionId client.print) n step ∈ s.log
  settled : ∀ id n, .applied id n ∈ s.log →
    ∃ p, s.records[n]? = some p ∧ p.data.completionId client.print = id ∧ p.Settled

/-- The record is of the completion, and every step it asks for was seen to. -/
def SawTo (client : CompletionClient) (s : Completions) (completionId : String) (record : ℕ) : Prop :=
  ∃ p, s.records[record]? = some p ∧ p.data.completionId client.print = completionId ∧
    ∀ step, p.data.Owes step → (step = .thaw → p.data.isThawRequest = true) → .ran completionId record step ∈ s.log

section Logs

variable {client : CompletionClient} {now : ℚ} {heard : RequestDoneData → Prop}
    {told : String → Prop} {s s' : Completions}

theorem Logged.sawTo (logged : s.Logged client) {completionId : String} {record : ℕ}
    (applied : .applied completionId record ∈ s.log) : s.SawTo client completionId record := by
  obtain ⟨p, found, named, settled⟩ := logged.settled completionId record applied
  refine ⟨p, found, named, ?_⟩
  intro step owed probe
  rw [← named]
  refine logged.ran record p found step ?_ owed
  cases step with
  | queue => exact settled.queue
  | freeze => exact settled.freeze
  | ownType => exact settled.ownType
  | thaw => exact settled.thaw (probe rfl)

theorem Logged.note (logged : s.Logged client) {out : List CompletionOutput} (records : s'.records = s.records)
    (log : s'.log = s.log ++ out) (quiet : ∀ id n, .applied id n ∉ out) : s'.Logged client where
  ran n p found step held owed := by
    rw [records] at found
    rw [log]
    exact List.mem_append_left _ (logged.ran n p found step held owed)
  settled id n applied := by
    rw [log] at applied
    rw [records]
    exact logged.settled id n ((List.mem_append.mp applied).resolve_right (quiet id n))

theorem Logged.same (logged : s.Logged client) (records : s'.records = s.records) (log : s'.log = s.log) :
    s'.Logged client :=
  logged.note records (log.trans (List.append_nil _).symm) (by simp)

theorem Logged.remembered (logged : s.Logged client) (completionId : String) :
    (s.handleRequestDoneApplied completionId).Logged client := by
  obtain ⟨forgotten, kept, same, -⟩ := handleRequestDoneApplied_spec s completionId
  rw [same]
  exact logged.note rfl rfl (by simp)

theorem Logged.dropped (logged : s.Logged client) : (client.dropRetainedCopies s).Logged client :=
  logged.note rfl rfl (by simp)

/-- A record makes way for one that is further on, and the log says what was seen to. -/
theorem Logged.rewrite (logged : s.Logged client) {record : ℕ} {p q : PendingRequestDone}
    {ran : Option CompletionStep}
    {out : List CompletionOutput} (found : s.records[record]? = some p) (follows : p.Follows q ran)
    (records : s'.records = s.records.set record q) (log : s'.log = s.log ++ out)
    (said : ∀ step, ran = some step → .ran (p.data.completionId client.print) record step ∈ out)
    (quiet : ∀ id n, .applied id n ∉ out) : s'.Logged client where
  ran n r after step held owed := by
    rw [log]
    rw [records] at after
    by_cases here : n = record
    · subst here
      rw [List.getElem?_set_self (List.getElem?_eq_some_iff.mp found).1] at after
      cases after
      rw [follows.completionId]
      rcases follows.new step held owed with ⟨before, owed⟩ | now
      · exact List.mem_append_left _ (logged.ran n p found step before owed)
      · exact List.mem_append_right _ (said step now)
    · rw [List.getElem?_set_ne (Ne.symm here)] at after
      exact List.mem_append_left _ (logged.ran n r after step held owed)
  settled id n applied := by
    rw [log] at applied
    obtain ⟨r, before, named, settled⟩ :=
      logged.settled id n ((List.mem_append.mp applied).resolve_right (quiet id n))
    rw [records]
    by_cases here : n = record
    · subst here
      cases Option.some.inj (found.symm.trans before)
      refine ⟨q, List.getElem?_set_self (List.getElem?_eq_some_iff.mp found).1, ?_, follows.settled settled⟩
      exact (follows.completionId _).trans named
    · exact ⟨r, (List.getElem?_set_ne (Ne.symm here)).trans before, named, settled⟩

theorem Logged.stretch (logged : s.Logged client) {flush : CompletionFlush}
    {p : PendingRequestDone} {stretch : Stretch}
    (found : s.records[flush.record]? = some p) (named : p.data.completionId client.print = flush.completionId)
    (taken : stretch.From p) : (s.settleStretch flush stretch).Logged client := by
  refine logged.rewrite found taken.advances.toFollows rfl rfl ?_ ?_
  · intro step ran
    rw [ran, named]
    exact List.mem_singleton_self _
  · simp

theorem Logged.add (logged : s.Logged client) {completionId : String} {p : PendingRequestDone}
    (fresh : ∀ step, p.handled step = false) : (s.add completionId p).Logged client where
  ran n q found step held owed := by
    refine List.mem_append_left _ (logged.ran n q ?_ step held owed)
    rcases lt_trichotomy n s.records.length with inside | last | beyond
    · exact (List.getElem?_append_left inside).symm.trans found
    · subst last
      cases Option.some.inj (List.getElem?_concat_length.symm.trans found)
      rw [fresh step] at held
      cases held
    · have short : (s.records ++ [p]).length ≤ n := by
        rw [List.length_append, List.length_singleton]
        omega
      rw [show (s.add completionId p).records = s.records ++ [p] from rfl, List.getElem?_eq_none short] at found
      cases found
  settled id n applied := by
    have before : .applied id n ∈ s.log := (List.mem_append.mp applied).resolve_right (by simp)
    obtain ⟨q, found, named, settled⟩ := logged.settled id n before
    exact ⟨q, (List.getElem?_append_left (List.getElem?_eq_some_iff.mp found).1).trans found, named, settled⟩

theorem Logged.move (logged : s.Logged client) (tracked : s.Tracked client)
    (move : Move client now heard told s s') : s'.Logged client := by
  cases move with
  | announces hears => exact logged.note rfl rfl (by simp)
  | answers hears known another => exact logged.note rfl rfl (by simp)
  | told tells => exact logged.remembered _
  | loops held => exact logged.same rfl rfl
  | settles completionId => exact logged.same rfl rfl
  | demoted => exact logged.same rfl rfl
  | forwards sub => exact logged.same rfl rfl
  | fails running => exact logged.same rfl rfl
  | drops => exact logged.dropped
  | promoted =>
    have promoted : ({ s with role := .controller } : Completions).Logged client := logged.same rfl rfl
    exact promoted.dropped
  | gaveUp held found began due spent => exact (logged.remembered _).note rfl rfl (by simp)
  | @applies flush p running found returned =>
    have fits := tracked.fits flush running p found
    rw [returned] at fits
    obtain ⟨q, found', named⟩ := tracked.flushes flush running
    cases Option.some.inj (found.symm.trans found')
    have noted : (s.emit (.applied flush.completionId flush.record)).Logged client := by
      refine ⟨fun n r found step held owed => List.mem_append_left _ (logged.ran n r found step held owed), ?_⟩
      intro id n applied
      rcases List.mem_append.mp applied with before | here
      · exact logged.settled id n before
      · cases List.mem_singleton.mp here
        exact ⟨p, found, named, fits⟩
    exact noted.remembered _
  | acknowledges flush applied found =>
    unfold CompletionClient.acknowledgeCompletion
    split
    · exact logged
    · exact logged.note rfl rfl (by simp)
  | @goesOn flush p reply stretch running found resumed =>
    obtain ⟨p', found', named⟩ := tracked.flushes flush running
    cases Option.some.inj (found.symm.trans found')
    have idle : (s.without flush.completionId).Logged client := logged.same rfl rfl
    exact idle.stretch found named (CompletionStage.resume_from (tracked.fits flush running p found) resumed)
  | @begins completionId record p rest held after idle found =>
    obtain ⟨p', found', named⟩ := tracked.names _ held.held
    cases Option.some.inj (found.symm.trans found')
    have noted : ({ s with flushes := s.flushes + 1, flushLoops := s.flushLoops ++ [⟨s.flushes, rest⟩] } :
        Completions).Logged client := logged.same rfl rfl
    exact noted.stretch found named p.handleRequestDone_from
  | @stores data hears unknown =>
    have stored : client.storePendingRequestDone now data s = s.add (data.completionId client.print)
        { data, forwardDueAt := now + client.healthCheckIntervalMs } := if_neg unknown
    rw [stored]
    refine logged.add ?_
    intro step
    cases step <;> rfl
  | @reannounces completionId record p started held found began due =>
    exact logged.rewrite found (.forwarded p _) rfl rfl (by simp) (by simp)

end Logs

/-- Of other replicas' completions, a client comes to flush and to apply those it recorded as the controller. -/
structure Taken (client : CompletionClient) (s : Completions) : Prop where
  entries : ∀ entry, s.ToFlush entry → client.foreign s entry.2 = true → .stored entry.1 entry.2 .controller ∈ s.log
  flushes : ∀ flush ∈ s.completionFlushes, client.foreign s flush.record = true →
    .stored flush.completionId flush.record .controller ∈ s.log
  ran : ∀ id n step, .ran id n step ∈ s.log → n < s.records.length ∧
    (client.foreign s n = true → .stored id n .controller ∈ s.log)

section Copies

variable {client : CompletionClient} {now : ℚ} {heard : RequestDoneData → Prop}
    {told : String → Prop} {s s' : Completions}

theorem foreign_congr (records : s'.records = s.records) (n : ℕ) : client.foreign s' n = client.foreign s n := by
  rw [CompletionClient.foreign, records, CompletionClient.foreign]

theorem foreign_set {record : ℕ} {p q : PendingRequestDone} (found : s.records[record]? = some p)
    (same : q.data.ownerId = p.data.ownerId) (records : s'.records = s.records.set record q) (n : ℕ) :
    client.foreign s' n = client.foreign s n := by
  rw [CompletionClient.foreign, records, CompletionClient.foreign]
  by_cases here : n = record
  · subst here
    rw [List.getElem?_set_self (List.getElem?_eq_some_iff.mp found).1, found]
    simp [same]
  · rw [List.getElem?_set_ne (Ne.symm here)]

/-- Nothing is run, and nothing comes to be flushed that was not. -/
theorem Taken.sub (taken : s.Taken client) {out : List CompletionOutput}
    (length : s'.records.length = s.records.length)
    (foreign : ∀ n, client.foreign s' n = client.foreign s n) (log : s'.log = s.log ++ out)
    (quiet : ∀ id n step, .ran id n step ∉ out)
    (entries : ∀ entry, s'.ToFlush entry → client.foreign s entry.2 = true → s.ToFlush entry)
    (flushes : ∀ flush ∈ s'.completionFlushes, ∃ old ∈ s.completionFlushes,
      old.completionId = flush.completionId ∧ old.record = flush.record) : s'.Taken client where
  entries entry flushed other := by
    rw [foreign] at other
    rw [log]
    exact List.mem_append_left _ (taken.entries entry (entries entry flushed other) other)
  flushes flush member other := by
    obtain ⟨old, before, id, record⟩ := flushes flush member
    rw [foreign, ← record] at other
    rw [log, ← id, ← record]
    exact List.mem_append_left _ (taken.flushes old before other)
  ran id n step ran := by
    rw [log] at ran ⊢
    obtain ⟨inside, stored⟩ := taken.ran id n step ((List.mem_append.mp ran).resolve_right (quiet id n step))
    rw [length, foreign]
    exact ⟨inside, fun other => List.mem_append_left _ (stored other)⟩

theorem Taken.same (taken : s.Taken client) {out : List CompletionOutput} (records : s'.records = s.records)
    (log : s'.log = s.log ++ out) (quiet : ∀ id n step, .ran id n step ∉ out)
    (entries : ∀ entry, s'.ToFlush entry → s.ToFlush entry) (flushes : s'.completionFlushes ⊆ s.completionFlushes) :
    s'.Taken client :=
  taken.sub (congrArg List.length records) (foreign_congr records) log quiet
    (fun entry flushed _ => entries entry flushed)
    fun flush member => ⟨flush, flushes member, rfl, rfl⟩

theorem Taken.said (taken : s.Taken client) (out : CompletionOutput) (quiet : ∀ id n step, .ran id n step ≠ out) :
    (s.emit out).Taken client :=
  taken.same rfl rfl (by simpa using quiet) (fun _ => id) (List.Subset.refl _)

theorem Taken.remembered (taken : s.Taken client) (completionId : String) :
    (s.handleRequestDoneApplied completionId).Taken client := by
  obtain ⟨forgotten, kept, same, -⟩ := handleRequestDoneApplied_spec s completionId
  rw [same]
  refine taken.same rfl rfl (by simp) ?_ (List.Subset.refl _)
  exact fun entry flushed => flushed.imp_left fun pending => ⟨pending.1, (List.mem_filter.mp pending.2).1⟩

theorem Taken.stretch (taken : s.Taken client) {flush : CompletionFlush}
    {p : PendingRequestDone} {stretch : Stretch}
    (found : s.records[flush.record]? = some p) (advances : p.Advances stretch.record stretch.ran)
    (stored : client.foreign s flush.record = true → .stored flush.completionId flush.record .controller ∈ s.log) :
    (s.settleStretch flush stretch).Taken client := by
  have foreign : ∀ n, client.foreign (s.settleStretch flush stretch) n = client.foreign s n :=
    foreign_set found advances.ownerId rfl
  refine ⟨?_, ?_, ?_⟩
  · intro entry flushed other
    rw [foreign] at other
    exact List.mem_append_left _ (taken.entries entry flushed other)
  · intro f member other
    rw [foreign] at other
    rcases List.mem_append.mp member with old | new
    · exact List.mem_append_left _ (taken.flushes f old other)
    · cases List.mem_singleton.mp new
      exact List.mem_append_left _ (stored other)
  · intro id n step ran
    rw [foreign, show (s.settleStretch flush stretch).records.length = s.records.length from List.length_set]
    rcases List.mem_append.mp ran with old | new
    · obtain ⟨inside, before⟩ := taken.ran id n step old
      exact ⟨inside, fun other => List.mem_append_left _ (before other)⟩
    · obtain ⟨_, _, same⟩ := List.mem_map.mp new
      cases same
      exact ⟨(List.getElem?_eq_some_iff.mp found).1, fun other => List.mem_append_left _ (stored other)⟩

/-- A record made by the controller says so; a worker's is not flushed. -/
theorem Taken.add (taken : s.Taken client) (tracked : s.Tracked client) (completionId : String)
    (p : PendingRequestDone) : (s.add completionId p).Taken client := by
  have kept : ∀ n, n < s.records.length → client.foreign (s.add completionId p) n = client.foreign s n := by
    intro n inside
    rw [CompletionClient.foreign, show (s.add completionId p).records = s.records ++ [p] from rfl,
      List.getElem?_append_left inside, CompletionClient.foreign]
  have inside : ∀ entry, s.Held entry → entry.2 < s.records.length := by
    intro entry held
    obtain ⟨q, found, -⟩ := tracked.names entry held
    exact (List.getElem?_eq_some_iff.mp found).1
  refine ⟨?_, ?_, ?_⟩
  · rintro entry (⟨controls, pending⟩ | looped) other
    · rcases List.mem_append.mp pending with old | new
      · have flushed : s.ToFlush entry := Or.inl ⟨controls, old⟩
        rw [kept _ (inside entry flushed.held)] at other
        exact List.mem_append_left _ (taken.entries entry flushed other)
      · cases List.mem_singleton.mp new
        have role : s.role = .controller := controls
        refine List.mem_append_right _ ?_
        rw [role]
        exact List.mem_singleton_self _
    · have flushed : s.ToFlush entry := Or.inr looped
      rw [kept _ (inside entry flushed.held)] at other
      exact List.mem_append_left _ (taken.entries entry flushed other)
  · intro flush member other
    obtain ⟨q, found, -⟩ := tracked.flushes flush member
    rw [kept _ (List.getElem?_eq_some_iff.mp found).1] at other
    exact List.mem_append_left _ (taken.flushes flush member other)
  · intro id n step ran
    obtain ⟨before, stored⟩ := taken.ran id n step ((List.mem_append.mp ran).resolve_right (by simp))
    rw [kept n before]
    refine ⟨?_, fun other => List.mem_append_left _ (stored other)⟩
    rw [show (s.add completionId p).records.length = s.records.length + 1 from List.length_append]
    omega

theorem Taken.move (taken : s.Taken client) (tracked : s.Tracked client) (move : Move client now heard told s s') :
    s'.Taken client := by
  cases move with
  | announces hears => exact taken.said _ (by simp)
  | answers hears known another => exact taken.said _ (by simp)
  | told tells => exact taken.remembered _
  | loops held =>
    refine taken.same rfl (List.append_nil _).symm (by simp) ?_ (List.Subset.refl _)
    rintro entry (pending | ⟨loop, member, inside⟩)
    · exact Or.inl pending
    · exact held loop member entry inside
  | settles completionId =>
    exact taken.same rfl (List.append_nil _).symm (by simp) (fun _ => id) List.filter_sublist.subset
  | demoted =>
    refine taken.same rfl (List.append_nil _).symm (by simp) ?_ (List.Subset.refl _)
    rintro entry (⟨controls, -⟩ | looped)
    · cases controls
    · exact Or.inr looped
  | forwards sub => exact taken.same rfl (List.append_nil _).symm (by simp) (fun _ => id) (List.Subset.refl _)
  | @fails flush running =>
    refine taken.sub rfl (fun _ => rfl) (List.append_nil _).symm (by simp) (fun _ flushed _ => flushed) ?_
    intro f member
    rcases List.mem_append.mp member with old | new
    · exact ⟨f, (List.mem_filter.mp old).1, rfl, rfl⟩
    · cases List.mem_singleton.mp new
      exact ⟨flush, running, rfl, rfl⟩
  | drops =>
    refine taken.same rfl rfl (by simp) ?_ (List.Subset.refl _)
    exact fun entry flushed => flushed.imp_left fun pending => ⟨pending.1, (List.mem_filter.mp pending.2).1⟩
  | promoted =>
    refine taken.sub rfl (fun _ => rfl) rfl (by simp) ?_ fun flush member => ⟨flush, member, rfl, rfl⟩
    rintro entry (⟨-, pending⟩ | looped) other
    · have own : (!client.foreign s entry.2) = true := (List.mem_filter.mp pending).2
      rw [other] at own
      cases own
    · exact Or.inr looped
  | gaveUp held found began due spent => exact (taken.remembered _).said _ (by simp)
  | @applies flush p running found returned =>
    exact (taken.said (.applied flush.completionId flush.record) (by simp)).remembered _
  | acknowledges flush applied found =>
    unfold CompletionClient.acknowledgeCompletion
    split
    · exact taken
    · exact taken.said _ (by simp)
  | @goesOn flush p reply stretch running found resumed =>
    have idle : (s.without flush.completionId).Taken client :=
      taken.same rfl (List.append_nil _).symm (by simp) (fun _ => id) List.filter_sublist.subset
    have advances := (CompletionStage.resume_from (tracked.fits flush running p found) resumed).advances
    exact idle.stretch found advances (taken.flushes flush running)
  | @begins completionId record p rest held after idle found =>
    have noted : ({ s with flushes := s.flushes + 1, flushLoops := s.flushLoops ++ [⟨s.flushes, rest⟩] } :
        Completions).Taken client := by
      refine taken.same rfl (List.append_nil _).symm (by simp) ?_ (List.Subset.refl _)
      rintro entry (pending | ⟨loop, member, inside⟩)
      · exact Or.inl pending
      · rcases List.mem_append.mp member with old | new
        · exact Or.inr ⟨loop, old, inside⟩
        · cases List.mem_singleton.mp new
          exact after entry inside
    exact noted.stretch found p.handleRequestDone_from.advances (taken.entries _ held)
  | @stores data hears unknown =>
    have stored : client.storePendingRequestDone now data s = s.add (data.completionId client.print)
        { data, forwardDueAt := now + client.healthCheckIntervalMs } := if_neg unknown
    rw [stored]
    exact taken.add tracked _ _
  | @reannounces completionId record p started held found began due =>
    refine taken.sub List.length_set ?_ rfl (by simp) (fun _ flushed _ => flushed) fun flush member =>
      ⟨flush, member, rfl, rfl⟩
    exact foreign_set (q := p.forwarded (started + client.healthCheckIntervalMs)) found rfl rfl

end Copies

/-- What holds of a client of completions at any time. -/
structure Sound (client : CompletionClient) (s : Completions) : Prop where
  tracked : s.Tracked client
  counted : s.Counted client
  logged : s.Logged client
  taken : s.Taken client

section Runs

variable {client : CompletionClient} {now : ℚ} {heard : RequestDoneData → Prop}
    {told : String → Prop} {s s' : Completions}

theorem Sound.move (sound : s.Sound client) (move : Move client now heard told s s') : s'.Sound client :=
  ⟨sound.tracked.move move, sound.counted.move sound.tracked move, sound.logged.move sound.tracked move,
    sound.taken.move sound.tracked move⟩

theorem Sound.moves (sound : s.Sound client) (moves : Relation.ReflTransGen (Move client now heard told) s s') :
    s'.Sound client := by
  induction moves with
  | refl => exact sound
  | tail _ move ih => exact ih.move move

theorem Sound.step (now : ℚ) (e : CompletionEvent) (sound : s.Sound client) : (client.step now e s).Sound client :=
  sound.moves (step_moves sound.tracked.keys e (fun _ _ => trivial)
    fun _ _ => trivial)

theorem constructed_sound (client : CompletionClient) : constructed.Sound client := by
  refine ⟨⟨List.nodup_nil, ?_, by simp [constructed], by simp [constructed], List.nodup_nil⟩,
    ⟨by simp [made, constructed], by simp [made, constructed], by simp [times, constructed]⟩,
    ⟨by simp [constructed], by simp [constructed]⟩, ⟨?_, by simp [constructed], by simp [constructed]⟩⟩
  · rintro entry (pending | ⟨loop, member, -⟩)
    · cases pending
    · cases member
  · rintro entry (⟨-, pending⟩ | ⟨loop, member, -⟩)
    · cases pending
    · cases member

end Runs

end Completions

/-- One client, in any order of events. -/
def CompletionClient.runs (client : CompletionClient) : Timed.Machine ℚ Completions CompletionEvent where
  step := client.step
  allowed _ _ _ := True

/-- What replica `owner` announces of a request the vendor has answered. -/
def servedRequest : RequestDoneData where
  requestId := "r"
  clientName := "c"
  requestName := "n"
  priority := .fin 0
  cost := .amount (.fin 1)
  explicitCost := none
  claimedKeys := none
  retries := .fin 0
  timestamp := .fin 0
  grantId := none
  isThawRequest := false
  ownerId := "owner"
  settles := false
  status := .inProgress
  fastPath := false
  responseStatus := .success
  waitTime := .fin 0
  freezeTime := none
  isRateLimited := false
  freezeClient := false
  httpStatus := some 200
  phase := none

def controllerReplica : CompletionClient := ⟨"controller", 1000, fun _ => "0"⟩

/-- It is delivered to a replica that has just become the controller. -/
def servedHistory : List (ℚ × CompletionEvent) :=
  [(0, .updateRole .controller), (0, .finalizeOwnedRequest servedRequest),
   (1, .flushGoesOn "r:0:success" (.ok true)), (2, .flushGoesOn "r:0:success" (.ok false)),
   (3, .flushGoesOn "r:0:success" (.ok false)), (4, .flushGoesOn "r:0:success" (.ok false)),
   (5, .flushGoesOn "r:0:success" .failed)]

section

variable (client : CompletionClient) (history : List (ℚ × CompletionEvent))

theorem CompletionClient.runs_sound : (client.runs.final .constructed history).Sound client :=
  Timed.Machine.final_invariant (m := client.runs) (I := fun s => s.Sound client)
    (fun now e _ sound => Completions.Sound.step now e sound) (Completions.constructed_sound client) history

/-- A client sees to a step of a completion once, and again only for every time
its copy was dropped or the completion forgotten. -/
theorem completion_step_once (completionId : String) (step : CompletionStep) :
    (client.runs.final .constructed history).times (·.runs completionId step) ≤
      (client.runs.final .constructed history).times (·.drops completionId) +
        (client.runs.final .constructed history).times (·.forgets completionId) + 1 := by
  have counted := (client.runs_sound history).counted
  have ran := counted.ran completionId step
  have made := counted.made completionId
  have seen : (client.runs.final .constructed history).seen client completionId step ≤
      (client.runs.final .constructed history).made client completionId := by
    refine List.countP_mono_left ?_
    intro p _ both
    exact (Bool.and_eq_true_iff.mp both).1
  omega

/-- What is logged as applied has had every step the completion asks for. -/
theorem applied_saw_to_steps {completionId : String} {record : ℕ}
    (applied : .applied completionId record ∈ (client.runs.final .constructed history).log) :
    (client.runs.final .constructed history).SawTo client completionId record :=
  (client.runs_sound history).logged.sawTo applied

theorem applied_saw_to_steps_probe :
    .applied "r:0:success" 0 ∈ (controllerReplica.runs.final .constructed servedHistory).log ∧
      .ran "r:0:success" 0 .thaw ∈ (controllerReplica.runs.final .constructed servedHistory).log := by
  have applied : .applied "r:0:success" 0 ∈ (controllerReplica.runs.final .constructed servedHistory).log :=
    List.mem_of_getElem? (i := 4) rfl
  have record : ∃ p, (controllerReplica.runs.final .constructed servedHistory).records[0]? =
      some p ∧ p.data.phase = none ∧
      p.data.isThawRequest = true := ⟨_, rfl, rfl, rfl⟩
  obtain ⟨q, stored, phase, probe⟩ := record
  obtain ⟨p, found, -, ran⟩ := applied_saw_to_steps controllerReplica servedHistory applied
  cases Option.some.inj (stored.symm.trans found)
  refine ⟨applied, ran .thaw ?_ fun _ => probe⟩
  simp [RequestDoneData.Owes, phase]

/-- What a client applies of another replica's completion, it recorded as the controller. -/
theorem copies_recorded_by_controller {completionId : String} {record : ℕ}
    {step : CompletionStep} {p : PendingRequestDone}
    (ran : .ran completionId record step ∈ (client.runs.final .constructed history).log)
    (found : (client.runs.final .constructed history).records[record]? = some p)
    (another : p.data.ownerId ≠ client.instanceId) :
    .stored completionId record .controller ∈ (client.runs.final .constructed history).log := by
  refine ((client.runs_sound history).taken.ran completionId record step ran).2 ?_
  rw [CompletionClient.foreign, found]
  simpa using another

theorem copies_recorded_by_controller_served :
    .stored "r:0:success" 0 .controller ∈ (controllerReplica.runs.final .constructed servedHistory).log := by
  have ran : .ran "r:0:success" 0 .queue ∈ (controllerReplica.runs.final .constructed servedHistory).log :=
    List.mem_of_getElem? (i := 1) rfl
  have found : ∃ p, (controllerReplica.runs.final .constructed servedHistory).records[0]? = some p ∧
      p.data.ownerId = "owner" := ⟨_, rfl, rfl⟩
  obtain ⟨p, found, owner⟩ := found
  exact copies_recorded_by_controller controllerReplica servedHistory ran found (by rw [owner]; decide)

end

end Dianemo
