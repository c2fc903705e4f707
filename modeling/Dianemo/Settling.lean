import Dianemo.Completions

namespace Dianemo

section Stretches

variable {p q : PendingRequestDone} {ran : Option CompletionStep}

/-- Applying the completion takes this step, the last if it answers a thaw probe. -/
def RequestDoneData.Owes (data : RequestDoneData) : CompletionStep → Prop
  | .queue => data.responseStatus ≠ .retry ∧ data.fastPath = false ∧ data.phase ≠ some .end
  | .freeze => data.freezesClient = true ∧ data.phase ≠ some .headers
  | .ownType => data.phase ≠ some .headers
  | .thaw => data.phase ≠ some .end

/-- Nothing is left to do of the completion. -/
structure PendingRequestDone.Settled (p : PendingRequestDone) : Prop where
  queue : p.queueHandled = true
  freeze : p.freezeHandled = true
  ownType : p.ownTypeHandled = true
  thaw : p.isThawRequest = true → p.thawHandled = true

/-- What a flush that waits there has seen to, and what it has not. -/
def CompletionStage.Fits (p : PendingRequestDone) : CompletionStage → Prop
  | .removeRequestFromQueue => p.queueHandled = false
  | .getRequestFromQueue | .removeFrozenGrantId => p.queueHandled = false ∧ p.data.isRetry = true
  | .now | .armFreeze | .handleFreezeOwnTypeRequests | .addFrozenGrantId | .publishFreezeStateChanged =>
    p.queueHandled = true ∧ p.freezeHandled = false
  | .handleOwnTypeRequestDone => p.queueHandled = true ∧ p.freezeHandled = true ∧ p.ownTypeHandled = false
  | .updateThawProgress | .clearFrozenGrantId =>
    p.queueHandled = true ∧ p.freezeHandled = true ∧ p.ownTypeHandled = true ∧ p.thawHandled = false
  | .returned => p.Settled
  | .settles => True

/-- Announcing a completion again is no part of applying it. -/
theorem CompletionStage.Fits.forwarded {stage : CompletionStage} (fits : stage.Fits p) (dueAt : ℚ) :
    stage.Fits (p.forwarded dueAt) := by
  cases stage with
  | returned => exact ⟨fits.queue, fits.freeze, fits.ownType, fits.thaw⟩
  | _ => exact fits

/-- A record of the same completion with more of it seen to: `seen`, and what it does not ask for. -/
structure PendingRequestDone.Follows (p q : PendingRequestDone) (seen : Option CompletionStep) : Prop where
  completionId : ∀ print, q.data.completionId print = p.data.completionId print
  ownerId : q.data.ownerId = p.data.ownerId
  kept : ∀ step, p.handled step = true → q.handled step = true
  ran : ∀ step, seen = some step → p.handled step = false ∧ q.handled step = true
  new : ∀ step, q.handled step = true → q.data.Owes step →
    (p.handled step = true ∧ p.data.Owes step) ∨ seen = some step
  settled : p.Settled → q.Settled

/-- The same, announced as often and due when it was. -/
structure PendingRequestDone.Advances (p q : PendingRequestDone) (seen : Option CompletionStep) : Prop
    extends p.Follows q seen where
  due : q.forwardDueAt = p.forwardDueAt
  forwards : q.forwards = p.forwards

/-- The stretch takes the record on and waits where it has come to. -/
structure Stretch.From (p : PendingRequestDone) (stretch : Stretch) : Prop where
  advances : p.Advances stretch.record stretch.ran
  fits : stretch.stage.Fits stretch.record

@[simp] theorem PendingRequestDone.handle_data (step : CompletionStep) : (p.handle step).data = p.data := by
  cases step <;> rfl

@[simp] theorem PendingRequestDone.handle_isThawRequest (step : CompletionStep) :
    (p.handle step).isThawRequest = p.isThawRequest := by
  cases step <;> rfl

@[simp] theorem PendingRequestDone.handled_handle (step other : CompletionStep) :
    (p.handle step).handled other = (decide (other = step) || p.handled other) := by
  cases step <;> cases other <;> rfl

namespace PendingRequestDone

theorem Settled.handle (settled : p.Settled) (step : CompletionStep) : (p.handle step).Settled := by
  cases step with
  | queue => exact ⟨rfl, settled.freeze, settled.ownType, settled.thaw⟩
  | freeze => exact ⟨settled.queue, rfl, settled.ownType, settled.thaw⟩
  | ownType => exact ⟨settled.queue, settled.freeze, rfl, settled.thaw⟩
  | thaw => exact ⟨settled.queue, settled.freeze, settled.ownType, fun _ => rfl⟩

theorem Follows.refl (p : PendingRequestDone) : p.Follows p none :=
  ⟨fun _ => rfl, rfl, fun _ held => held, by simp, fun _ held owed => Or.inl ⟨held, owed⟩, id⟩

theorem Advances.refl (p : PendingRequestDone) : p.Advances p none := ⟨.refl p, rfl, rfl⟩

theorem Follows.forwarded (p : PendingRequestDone) (dueAt : ℚ) : p.Follows (p.forwarded dueAt) none where
  completionId _ := rfl
  ownerId := rfl
  kept step held := by
    cases step <;> exact held
  ran := by simp
  new step held owed := by
    refine Or.inl ⟨?_, owed⟩
    cases step <;> exact held
  settled settled := ⟨settled.queue, settled.freeze, settled.ownType, settled.thaw⟩

/-- A step the completion does not ask for may be taken as handled. -/
theorem Advances.handle {step : CompletionStep} (advances : p.Advances q ran) (free : ¬ q.data.Owes step) :
    p.Advances (q.handle step) ran where
  completionId := by simpa using advances.completionId
  ownerId := by simpa using advances.ownerId
  due := by cases step <;> exact advances.due
  forwards := by cases step <;> exact advances.forwards
  kept other held := by simp [advances.kept other held]
  ran other ran_ := by simp [advances.ran other ran_]
  new other held owed := by
    rw [handle_data] at owed
    by_cases same : other = step
    · exact absurd (same ▸ owed) free
    · exact advances.new other (by simpa [same] using held) owed
  settled settled := (advances.settled settled).handle step

/-- A step seen through. -/
theorem Advances.run (step : CompletionStep) (open_ : p.handled step = false) :
    p.Advances (p.handle step) (some step) where
  completionId := by simp
  ownerId := by simp
  due := by cases step <;> rfl
  forwards := by cases step <;> rfl
  kept other held := by simp [held]
  ran other ran_ := by
    cases ran_
    exact ⟨open_, by simp⟩
  new other held owed := by
    rw [handle_data] at owed
    by_cases same : other = step
    · exact Or.inr (same ▸ rfl)
    · exact Or.inl ⟨by simpa [same] using held, owed⟩
  settled settled := settled.handle step

theorem thawPart_spec (ran : Option CompletionStep) (queue : p.queueHandled = true)
    (freeze : p.freezeHandled = true) (ownType : p.ownTypeHandled = true) :
    (p.thawPart ran).record = p ∧ (p.thawPart ran).ran = ran ∧ (p.thawPart ran).stage.Fits p := by
  unfold thawPart
  split
  · rename_i probe
    simp only [Bool.and_eq_true, Bool.not_eq_true'] at probe
    exact ⟨rfl, rfl, queue, freeze, ownType, probe.2⟩
  · rename_i none_
    refine ⟨rfl, rfl, queue, freeze, ownType, ?_⟩
    intro probe
    simpa [probe] using none_

theorem ownTypePart_spec (ran : Option CompletionStep) (queue : p.queueHandled = true)
    (freeze : p.freezeHandled = true) :
    (p.ownTypePart ran).record = p ∧ (p.ownTypePart ran).ran = ran ∧ (p.ownTypePart ran).stage.Fits p := by
  unfold ownTypePart
  split
  · rename_i ownType
    exact thawPart_spec ran queue freeze ownType
  · rename_i open_
    exact ⟨rfl, rfl, queue, freeze, Bool.eq_false_iff.mpr open_⟩

/-- The freeze is skipped only where none is asked for. -/
theorem freezePart_spec (ran : Option CompletionStep) (queue : p.queueHandled = true) :
    ((p.freezePart ran).record = p ∨ (p.freezePart ran).record = p.handle .freeze ∧ p.data.freezesClient = false) ∧
      (p.freezePart ran).ran = ran ∧ (p.freezePart ran).stage.Fits (p.freezePart ran).record := by
  unfold freezePart
  split
  · rename_i freezes
    simp only [Bool.and_eq_true, Bool.not_eq_true'] at freezes
    exact ⟨Or.inl rfl, rfl, queue, freezes.1⟩
  · rename_i calm
    split
    · rename_i mild
      obtain ⟨record, same, fits⟩ := ownTypePart_spec (p := p.handle .freeze) ran queue rfl
      rw [record]
      exact ⟨Or.inr ⟨rfl, by simpa using mild⟩, same, fits⟩
    · rename_i freezes
      have frozen : p.freezeHandled = true := by
        simpa [show p.data.freezesClient = true by simpa using freezes] using calm
      obtain ⟨record, same, fits⟩ := ownTypePart_spec ran queue frozen
      rw [record]
      exact ⟨Or.inl rfl, same, fits⟩

theorem Advances.thawPart (advances : p.Advances q ran) (queue : q.queueHandled = true)
    (freeze : q.freezeHandled = true)
    (ownType : q.ownTypeHandled = true) : (q.thawPart ran).From p := by
  obtain ⟨record, same, fits⟩ := thawPart_spec ran queue freeze ownType
  refine ⟨?_, ?_⟩
  · rw [record, same]
    exact advances
  · rw [record]
    exact fits

theorem Advances.ownTypePart (advances : p.Advances q ran) (queue : q.queueHandled = true)
    (freeze : q.freezeHandled = true) : (q.ownTypePart ran).From p := by
  obtain ⟨record, same, fits⟩ := ownTypePart_spec ran queue freeze
  refine ⟨?_, ?_⟩
  · rw [record, same]
    exact advances
  · rw [record]
    exact fits

theorem Advances.freezePart (advances : p.Advances q ran) (queue : q.queueHandled = true) :
    (q.freezePart ran).From p := by
  obtain ⟨record, same, fits⟩ := freezePart_spec ran queue
  refine ⟨?_, fits⟩
  rw [same]
  rcases record with record | ⟨record, calm⟩
  · rw [record]
    exact advances
  · rw [record]
    exact advances.handle fun owed => by simp [owed.1] at calm

/-- The queue entry of a retry, and of a fast-path request, is left alone. -/
theorem Advances.queuePart (advances : p.Advances q none) : q.queuePart.From p := by
  unfold PendingRequestDone.queuePart
  split
  · rename_i removes
    simp only [Bool.and_eq_true, Bool.not_eq_true'] at removes
    exact ⟨advances, removes.1.1⟩
  · rename_i kept
    split
    · rename_i probing
      simp only [Bool.and_eq_true, Bool.not_eq_true'] at probing
      have free : ¬ q.data.Owes .queue := fun owed => owed.1 (by simpa [RequestDoneData.isRetry] using probing.1.2)
      split
      · exact (advances.handle free).freezePart rfl
      · exact ⟨advances, probing.1.1, probing.1.2⟩
    · rename_i granted
      split
      · rename_i unqueued
        by_cases queued : q.queueHandled = true
        · have same : q.handle .queue = q := by
            cases q
            cases queued
            rfl
          rw [same]
          exact advances.freezePart queued
        · refine Advances.freezePart (advances.handle ?_) rfl
          rintro ⟨final, slow, -⟩
          simp only [Bool.not_eq_true] at queued
          simp [queued, slow, RequestDoneData.isRetry, final] at kept
      · rename_i queued
        refine advances.freezePart ?_
        simp only [Bool.or_eq_true, not_or, Bool.not_eq_true, Option.isNone_eq_false_iff] at queued
        by_contra open_
        simp only [Bool.not_eq_true] at open_
        simp [open_, queued.1] at kept
        simp [open_, queued.2, kept] at granted

theorem handleRequestDone_from (p : PendingRequestDone) : p.handleRequestDone.From p := by
  refine Advances.queuePart ?_
  unfold halved
  split
  · exact .refl p
  · rename_i headers
    refine Advances.handle (Advances.handle (.refl p) ?_) ?_
    · exact fun owed => owed headers
    · simpa using fun owed : p.data.Owes .freeze => owed.2 headers
  · rename_i ended
    refine Advances.handle (Advances.handle (.refl p) ?_) ?_
    · exact fun owed => owed.2.2 ended
    · simpa using fun owed : p.data.Owes .thaw => owed ended

theorem armed_from (queue : p.queueHandled = true) (freeze : p.freezeHandled = false) : p.armed.From p :=
  (Advances.run .freeze freeze).ownTypePart queue rfl

theorem announcePart_from (queue : p.queueHandled = true) (freeze : p.freezeHandled = false) :
    p.announcePart.From p := by
  unfold announcePart
  split
  · exact armed_from queue freeze
  · exact ⟨.refl p, queue, freeze⟩

theorem markPart_from (queue : p.queueHandled = true) (freeze : p.freezeHandled = false) : p.markPart.From p := by
  unfold markPart
  split
  · exact ⟨.refl p, queue, freeze⟩
  · exact announcePart_from queue freeze

theorem thawed_from (queue : p.queueHandled = true) (freeze : p.freezeHandled = true)
    (ownType : p.ownTypeHandled = true) (thaw : p.thawHandled = false) : p.thawed.From p :=
  ⟨Advances.run .thaw thaw, queue, freeze, ownType, fun _ => rfl⟩

/-- The entry is gone, and the backend says whether it was a thaw probe. -/
theorem removed_advances (queue : p.queueHandled = false) (wasThawRequest : Bool) :
    p.Advances { p with data.isThawRequest := p.data.isThawRequest || wasThawRequest, queueHandled := true } (some .queue) where
  completionId _ := rfl
  ownerId := rfl
  due := rfl
  forwards := rfl
  kept step held := by
    cases step with
    | queue => rfl
    | _ => exact held
  ran step seen := by
    cases seen
    exact ⟨queue, rfl⟩
  new step held owed := by
    cases step with
    | queue => exact Or.inr rfl
    | _ => exact Or.inl ⟨held, owed⟩
  settled settled := by
    rw [settled.queue] at queue
    cases queue

end PendingRequestDone

/-- Every wait is gone on from as it was reached. -/
theorem CompletionStage.resume_from {stage : CompletionStage} {reply : CompletionReply} {stretch : Stretch}
    (fits : stage.Fits p) (resumed : stage.resume p reply = some stretch) : stretch.From p := by
  cases stage with
  | publishFreezeStateChanged =>
    cases reply <;> cases resumed <;> exact PendingRequestDone.armed_from fits.1 fits.2
  | returned => cases reply <;> cases resumed
  | settles => cases reply <;> cases resumed
  | removeRequestFromQueue =>
    cases reply with
    | failed => cases resumed
    | ok wasThawRequest =>
      cases resumed
      exact (PendingRequestDone.removed_advances fits wasThawRequest).freezePart rfl
  | getRequestFromQueue =>
    cases reply with
    | failed => cases resumed
    | ok isThawRequest =>
      cases resumed
      split
      · exact ⟨.refl p, fits⟩
      · refine PendingRequestDone.Advances.freezePart (.handle (.refl p) ?_) rfl
        exact fun owed => owed.1 (by simpa [RequestDoneData.isRetry] using fits.2)
  | removeFrozenGrantId =>
    cases reply with
    | failed => cases resumed
    | ok _ =>
      cases resumed
      refine PendingRequestDone.Advances.freezePart (.handle (.refl p) ?_) rfl
      exact fun owed => owed.1 (by simpa [RequestDoneData.isRetry] using fits.2)
  | now =>
    cases reply with
    | failed => cases resumed
    | ok _ =>
      cases resumed
      exact ⟨.refl p, fits⟩
  | armFreeze =>
    cases reply with
    | failed => cases resumed
    | ok _ =>
      cases resumed
      split
      · exact ⟨.refl p, fits⟩
      · exact PendingRequestDone.markPart_from fits.1 fits.2
  | handleFreezeOwnTypeRequests =>
    cases reply with
    | failed => cases resumed
    | ok _ =>
      cases resumed
      exact PendingRequestDone.markPart_from fits.1 fits.2
  | addFrozenGrantId =>
    cases reply with
    | failed => cases resumed
    | ok _ =>
      cases resumed
      exact PendingRequestDone.announcePart_from fits.1 fits.2
  | handleOwnTypeRequestDone =>
    cases reply with
    | failed => cases resumed
    | ok _ =>
      cases resumed
      exact (PendingRequestDone.Advances.run .ownType fits.2.2).thawPart fits.1 fits.2.1 rfl
  | updateThawProgress =>
    cases reply with
    | failed => cases resumed
    | ok _ =>
      cases resumed
      split
      · exact ⟨.refl p, fits⟩
      · exact PendingRequestDone.thawed_from fits.1 fits.2.1 fits.2.2.1 fits.2.2.2
  | clearFrozenGrantId =>
    cases reply with
    | failed => cases resumed
    | ok _ =>
      cases resumed
      exact PendingRequestDone.thawed_from fits.1 fits.2.1 fits.2.2.1 fits.2.2.2

end Stretches

end Dianemo
