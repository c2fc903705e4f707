import Dianemo.Runs

namespace Dianemo

open JsNumber Meter

/-- No epoch runs ahead of the counter, and no mark ahead of the bucket it was written against. -/
structure Account.Orderly (a : Account) : Prop where
  epoch : ∀ b n, a.bucket = some b → b.epoch = some n → n ≤ a.epochs
  generation : ∀ b, a.bucket = some b → b.generation.isFinite = true
  mark : ∀ id m, a.marks id = some m → m.generation.isFinite = true ∧ m.epoch ≤ a.epochs
  order : ∀ id m b, a.marks id = some m → a.bucket = some b → b.epoch = some m.epoch →
    m.generation.toRat ≤ b.generation.toRat

/-- The bucket is another incarnation than the one the mark was written against, or was overwritten since. -/
def Account.Parted (a : Account) (id : String) : Prop :=
  ∀ m b, a.marks id = some m → a.bucket = some b → b.epoch = some m.epoch → m.generation.toRat < b.generation.toRat

/-- The bucket `c` comes after `a`: the same incarnation, one that has no epoch
yet, or one that has just been given the next. -/
def Account.Precedes (a : Account) (epochs : ℕ) (c : Bucket) : Prop :=
  (∃ b, a.bucket = some b ∧ c.epoch = b.epoch ∧ b.generation.toRat ≤ c.generation.toRat) ∨ c.epoch = none ∨
    ∃ n, c.epoch = some n ∧ a.epochs < n ∧ n ≤ epochs

/-- What any action does to epochs, generations and marks; `written` are the marks it writes. -/
structure Account.Moves (a : Account) (written : String → Prop) (a' : Account) : Prop where
  epochs : a.epochs ≤ a'.epochs
  bucket : ∀ c, a'.bucket = some c → c.generation.isFinite = true ∧ a.Precedes a'.epochs c
  mark : ∀ id m, a'.marks id = some m →
    (∃ k, a.marks id = some k ∧ m.epoch = k.epoch ∧ m.generation = k.generation) ∨
      (written id ∧ ∃ c, a'.bucket = some c ∧ c.epoch = some m.epoch ∧ c.generation = m.generation)

def Action.Marks (id : String) : Action → Prop
  | .spend _ _ _ mark _ => ∃ claim ∈ mark, claim.1 = id
  | _ => False

section Moves

variable {a a' : Account} {written : String → Prop} {now : ℚ} {id : String}

theorem Account.Moves.orderly (moves : a.Moves written a') (orderly : a.Orderly) : a'.Orderly where
  epoch c n found taken := by
    rcases (moves.bucket c found).2 with ⟨b, held, same, -⟩ | none_ | ⟨k, is, -, within⟩
    · rw [same] at taken
      exact (orderly.epoch b n held taken).trans moves.epochs
    · rw [none_] at taken
      cases taken
    · cases Option.some.inj (taken.symm.trans is)
      exact within
  generation c found := (moves.bucket c found).1
  mark id m found := by
    rcases moves.mark id m found with ⟨k, held, epoch, generation⟩ | ⟨-, c, at_, epoch, generation⟩
    · obtain ⟨finite, bound⟩ := orderly.mark id k held
      rw [epoch, generation]
      exact ⟨finite, bound.trans moves.epochs⟩
    · obtain ⟨finite, precedes⟩ := moves.bucket c at_
      refine ⟨generation ▸ finite, ?_⟩
      rcases precedes with ⟨b, held, same, -⟩ | none_ | ⟨k, is, -, within⟩
      · exact (orderly.epoch b _ held (same.symm.trans epoch)).trans moves.epochs
      · rw [none_] at epoch
        cases epoch
      · cases Option.some.inj (epoch.symm.trans is)
        exact within
  order id m c found at_ taken := by
    rcases moves.mark id m found with ⟨k, held, epoch, generation⟩ | ⟨-, c', at', -, generation⟩
    · rw [epoch] at taken
      rw [generation]
      obtain ⟨-, bound⟩ := orderly.mark id k held
      rcases (moves.bucket c at_).2 with ⟨b, stood, same, grown⟩ | none_ | ⟨n, is, fresh, -⟩
      · exact (orderly.order id k b held stood (same.symm.trans taken)).trans grown
      · rw [none_] at taken
        cases taken
      · cases Option.some.inj (taken.symm.trans is)
        exact absurd bound (not_le.mpr fresh)
    · cases Option.some.inj (at_.symm.trans at')
      rw [generation]

/-- Nothing but writing the mark anew brings it and the bucket back together. -/
theorem Account.Moves.parted (moves : a.Moves written a') (orderly : a.Orderly) (unwritten : ¬ written id)
    (parted : a.Parted id) : a'.Parted id := by
  intro m c found at_ taken
  obtain ⟨k, held, epoch, generation⟩ := (moves.mark id m found).resolve_right fun wrote => unwritten wrote.1
  rw [epoch] at taken
  rw [generation]
  obtain ⟨-, bound⟩ := orderly.mark id k held
  rcases (moves.bucket c at_).2 with ⟨b, stood, same, grown⟩ | none_ | ⟨n, is, fresh, -⟩
  · exact (parted k b held stood (same.symm.trans taken)).trans_le grown
  · rw [none_] at taken
    cases taken
  · cases Option.some.inj (taken.symm.trans is)
    exact absurd bound (not_le.mpr fresh)

theorem Account.Moves.unmarked (moves : a.Moves written a') (unwritten : ¬ written id)
    (absent : a.marks id = none) : a'.marks id = none := by
  cases found : a'.marks id with
  | none => rfl
  | some m =>
    obtain ⟨k, held, -, -⟩ := (moves.mark id m found).resolve_right fun wrote => unwritten wrote.1
    rw [absent] at held
    cases held

/-- Actions on the bucket alone. -/
theorem Account.Moves.rebucket {o : Option Bucket}
    (bucket : ∀ c, o = some c → c.generation.isFinite = true ∧ a.Precedes a.epochs c) :
    a.Moves written { a with bucket := o } where
  epochs := le_rfl
  bucket := bucket
  mark _ m found := Or.inl ⟨m, found, rfl, rfl⟩

theorem Account.generation_finite (orderly : a.Orderly) : a.generation.isFinite = true := by
  unfold Account.generation
  cases found : a.bucket with
  | none => rfl
  | some b => exact orderly.generation b found

theorem Account.write_moves (orderly : a.Orderly) (state : BucketState) (ttl : ℚ) :
    a.Moves written (a.write state ttl now) := by
  refine .rebucket ?_
  rintro c ⟨⟩
  refine ⟨a.generation_finite orderly, ?_⟩
  unfold Account.Precedes Account.epoch Account.generation
  cases a.bucket with
  | none => exact Or.inr (Or.inl rfl)
  | some b => exact Or.inl ⟨b, rfl, rfl, le_rfl⟩

theorem Account.overwrite_bucket (orderly : a.Orderly) (tokens : JsNumber) (ttl : ℚ) {c : Bucket}
    (found : (a.overwrite tokens ttl now).bucket = some c) :
    c.generation = fin (a.generation.toRat + 1) ∧ c.epoch = a.epoch := by
  have finite := fin_toRat (a.generation_finite orderly)
  cases found
  refine ⟨?_, rfl⟩
  simp only
  rw [← finite, one_eq, add_fin, orElse_fin]
  rfl

theorem Account.overwrite_moves (orderly : a.Orderly) (tokens : JsNumber) (ttl : ℚ) :
    a.Moves written (a.overwrite tokens ttl now) := by
  refine .rebucket ?_
  intro c found
  obtain ⟨generation, epoch⟩ := a.overwrite_bucket orderly tokens ttl found
  rw [generation]
  refine ⟨rfl, ?_⟩
  unfold Account.epoch at epoch
  unfold Account.Precedes
  cases held : a.bucket with
  | none =>
    rw [held] at epoch
    exact Or.inr (Or.inl epoch)
  | some b =>
    rw [held] at epoch
    refine Or.inl ⟨b, rfl, epoch, ?_⟩
    rw [generation, toRat_fin, Account.generation, held, Option.elim_some]
    exact le_add_of_nonneg_right zero_le_one

/-- An overwritten bucket is past every mark. -/
theorem Account.overwrite_parted (orderly : a.Orderly) (tokens : JsNumber) (ttl : ℚ) (id : String) :
    (a.overwrite tokens ttl now).Parted id := by
  intro m c marked found taken
  obtain ⟨generation, epoch⟩ := a.overwrite_bucket orderly tokens ttl found
  rw [epoch, Account.epoch] at taken
  obtain ⟨b, held, at_⟩ := Option.bind_eq_some_iff.mp taken
  have bound := orderly.order id m b marked held at_
  rw [generation, toRat_fin, Account.generation, held, Option.elim_some]
  exact lt_add_of_le_of_pos bound one_pos

theorem Account.mark_moves {claim : String × ℚ} {epoch : ℕ} (orderly : a.Orderly)
    (fresh : a.epochs < epoch) {b : Bucket}
    (held : a.bucket = some b) (cost : JsNumber) (state : BucketState) :
    a.Moves (fun id => claim.1 = id) (a.mark claim cost state epoch now) where
  epochs := by
    simp only [Account.mark]
    split
    · exact le_rfl
    · exact fresh.le
  bucket c found := by
    simp only [Account.mark, held, Option.map_some, Option.some.injEq] at found
    subst found
    refine ⟨orderly.generation b held, ?_⟩
    simp only [Account.Precedes, Account.mark, Account.epoch, held, Option.bind_some]
    cases taken : b.epoch with
    | none =>
      refine Or.inr (Or.inr ⟨epoch, rfl, fresh, ?_⟩)
      simp
    | some n => exact Or.inl ⟨b, rfl, taken.symm, le_rfl⟩
  mark id m found := by
    simp only [Account.mark] at found ⊢
    by_cases same : id = claim.1
    · subst same
      rw [Function.update_self] at found
      cases found
      right
      refine ⟨rfl, ?_⟩
      simp only [held, Option.map_some, Account.generation, Option.elim_some]
      exact ⟨_, rfl, rfl, rfl⟩
    · rw [Function.update_of_ne same] at found
      exact Or.inl ⟨m, found, rfl, rfl⟩

theorem Account.Moves.refl (orderly : a.Orderly) : a.Moves written a where
  epochs := le_rfl
  bucket b found := ⟨orderly.generation b found, Or.inl ⟨b, found, rfl, le_rfl⟩⟩
  mark _ m found := Or.inl ⟨m, found, rfl, rfl⟩

theorem Account.asOf_moves (orderly : a.Orderly) (t : ℚ) : a.Moves written (a.asOf t) where
  epochs := le_rfl
  bucket b found := by
    have held := (Option.filter_eq_some_iff.mp found).1
    exact ⟨orderly.generation b held, Or.inl ⟨b, held, rfl, le_rfl⟩⟩
  mark _ m found := Or.inl ⟨m, (Option.filter_eq_some_iff.mp found).1, rfl, rfl⟩

theorem Account.Orderly.asOf (orderly : a.Orderly) (t : ℚ) : (a.asOf t).Orderly := by
  have moves : a.Moves (fun _ => False) (a.asOf t) := a.asOf_moves orderly t
  exact moves.orderly orderly

theorem Account.Parted.asOf (parted : a.Parted id) (orderly : a.Orderly) (t : ℚ) : (a.asOf t).Parted id := by
  have moves : a.Moves (fun _ => False) (a.asOf t) := a.asOf_moves orderly t
  exact moves.parted orderly not_false parted

theorem Account.unmark_moves (orderly : a.Orderly) (id : String) :
    a.Moves written { a with marks := Function.update a.marks id none } where
  epochs := le_rfl
  bucket b found := ⟨orderly.generation b found, Or.inl ⟨b, found, rfl, le_rfl⟩⟩
  mark other m found := by
    simp only at found
    by_cases same : other = id
    · subst same
      rw [Function.update_self] at found
      cases found
    · rw [Function.update_of_ne same] at found
      exact Or.inl ⟨m, found, rfl, rfl⟩

theorem Account.applySettlement_moves (orderly : a.Orderly) (spec : SettleSpec) (m : Mark) :
    a.Moves written (a.applySettlement spec m now).2 := by
  unfold Account.applySettlement
  cases held : a.bucket with
  | none => exact .refl orderly
  | some b =>
    refine .rebucket ?_
    rintro c ⟨⟩
    exact ⟨orderly.generation b held, Or.inl ⟨b, held, rfl, le_rfl⟩⟩

/-- Every action moves the account on in at most two steps, the second of which writes its mark. -/
theorem Action.moves (action : Action) (fits : action.Fits now a) (orderly : a.Orderly) :
    ∃ mid, a.Moves (fun _ => False) mid ∧ mid.Moves (fun id => action.Marks id) (action.apply now a) := by
  cases action with
  | touch config ttl => exact ⟨a, .refl orderly, a.write_moves orderly _ _⟩
  | spend config cost ttl mark epoch =>
    obtain ⟨-, -, -, -, fresh⟩ := fits
    have written : a.Moves (fun _ => False)
        (a.write { a.refill config now with tokens := (a.refill config now).tokens - cost } (bucketTtl ttl config).toRat
          now) := a.write_moves orderly _ _
    refine ⟨_, written, ?_⟩
    have after := written.orderly orderly
    cases mark with
    | none => exact .refl after
    | some claim =>
      have marks : (fun id => (Action.spend config cost ttl (some claim) epoch).Marks id) =
          fun id => claim.1 = id := by
        simp [Action.Marks]
      rw [marks]
      exact Account.mark_moves after fresh rfl cost (a.refill config now)
  | credit cost maxTokens =>
    refine ⟨a, .refl orderly, .rebucket ?_⟩
    intro c found
    obtain ⟨b, held, rfl⟩ := Option.map_eq_some_iff.mp found
    exact ⟨orderly.generation b held, Or.inl ⟨b, held, rfl, le_rfl⟩⟩
  | empty config => exact ⟨a, .refl orderly, a.overwrite_moves orderly _ _⟩
  | reset maxTokens => exact ⟨a, .refl orderly, a.overwrite_moves orderly _ _⟩
  | settle spec =>
    simp only [Action.apply, Account.settle]
    cases a.marks spec.markId with
    | none => exact ⟨a, .refl orderly, .refl orderly⟩
    | some m =>
      simp only
      split
      · have consumed : a.Moves (fun _ => False) { a with marks := Function.update a.marks spec.markId none } :=
          a.unmark_moves orderly spec.markId
        exact ⟨_, consumed, Account.applySettlement_moves (consumed.orderly orderly) spec m⟩
      · exact ⟨a, .refl orderly, .refl orderly⟩
  | prolong id ttl =>
    refine ⟨a, .refl orderly, ⟨le_rfl, fun b found => ⟨orderly.generation b found, Or.inl ⟨b, found, rfl, le_rfl⟩⟩, ?_⟩⟩
    intro other m found
    by_cases same : other = id
    · subst same
      simp only [Action.apply, Function.update_self, Option.map_eq_some_iff] at found
      obtain ⟨k, held, rfl⟩ := found
      exact Or.inl ⟨k, held, rfl, rfl⟩
    · simp only [Action.apply, Function.update_of_ne same] at found
      exact Or.inl ⟨m, found, rfl, rfl⟩
  | drop bucket ids =>
    refine ⟨a, .refl orderly, ⟨le_rfl, ?_, ?_⟩⟩
    · intro b found
      cases bucket with
      | true => cases found
      | false => exact ⟨orderly.generation b found, Or.inl ⟨b, found, rfl, le_rfl⟩⟩
    · intro id m found
      simp only [Action.apply] at found
      split at found
      · cases found
      · exact Or.inl ⟨m, found, rfl, rfl⟩

theorem Action.orderly (action : Action) (fits : action.Fits now a) (orderly : a.Orderly) :
    (action.apply now a).Orderly := by
  obtain ⟨mid, first, second⟩ := action.moves fits orderly
  exact second.orderly (first.orderly orderly)

theorem Action.parted (action : Action) (fits : action.Fits now a) (orderly : a.Orderly)
    (unwritten : ¬ action.Marks id) (parted : a.Parted id) : (action.apply now a).Parted id := by
  obtain ⟨mid, first, second⟩ := action.moves fits orderly
  exact second.parted (first.orderly orderly) unwritten (first.parted orderly not_false parted)

theorem Action.unmarked (action : Action) (fits : action.Fits now a) (orderly : a.Orderly)
    (unwritten : ¬ action.Marks id) (absent : a.marks id = none) : (action.apply now a).marks id = none := by
  obtain ⟨mid, first, second⟩ := action.moves fits orderly
  exact second.unmarked unwritten (first.unmarked not_false absent)

end Moves

section Again

variable {config : TokenBucketConfig} {now : ℚ}

/-- A refilled bucket has an exact balance within the ceiling and no whole interval left to credit. -/
theorem BucketState.refill_exact (usable : unusableBudget 0 config = none) {state : BucketState}
    (tokens : state.tokens.isFinite = true) (lastUpdate : state.lastUpdate.isFinite = true) :
    ∃ balance clock : ℚ, (state.refill config now).tokens = fin balance ∧
      (state.refill config now).lastUpdate = fin clock ∧ ¬ config.maxTokens < fin balance ∧
      intervalsElapsed (fin clock) config.interval now = 0 := by
  obtain ⟨maxTokens, interval, -, atMax, positive, atInterval, -, -, rate⟩ := unusableBudget_none.mp usable
  obtain ⟨x, atTokens⟩ := isFinite_iff.mp tokens
  obtain ⟨clock, atClock⟩ := isFinite_iff.mp lastUpdate
  -- only the interval matters to the count
  have counted := fun c => intervalsElapsed_fin ⟨maxTokens, 1, interval, positive, one_pos⟩ c now
  simp only [Rate.config, Rate.rule] at counted
  generalize at_rule : (⟨maxTokens, 1, interval⟩ : Rule ℚ) = rule at counted
  have period : rule.period = interval := by rw [← at_rule]
  have again := rule.periods_add clock (le_refl now)
  have none_ : rule.periods (clock + rule.periods clock now * interval) now = 0 := by
    rw [← period]
    omega
  have credited : ∃ y : JsNumber, (if 0 < fin (rule.periods clock now : ℚ) then
      fin x + fin (rule.periods clock now : ℚ) * config.tokensToAdd else fin x) = y ∧
      ((∃ q, y = fin q) ∨ y = posInf) := by
    refine ⟨_, rfl, ?_⟩
    split
    · rename_i some_
      cases add : config.tokensToAdd with
      | fin q => exact Or.inl ⟨_, rfl⟩
      | posInf =>
        right
        rw [zero_eq, fin_lt_fin] at some_
        change JsNumber.add (fin x) (infinityOf _) = posInf
        rw [infinityOf, if_pos some_]
        rfl
      | negInf =>
        rw [add] at rate
        cases rate
      | nan =>
        rw [add] at rate
        cases rate
    · exact Or.inl ⟨x, rfl⟩
  have moved : (if 0 < fin (rule.periods clock now : ℚ) then
      fin clock + fin (rule.periods clock now : ℚ) * fin interval else fin clock) =
      fin (clock + rule.periods clock now * interval) := by
    split
    · rfl
    · rename_i still
      rw [zero_eq, fin_lt_fin, not_lt] at still
      have zero : (rule.periods clock now : ℚ) = 0 := le_antisymm still (Nat.cast_nonneg _)
      rw [zero, zero_mul, add_zero]
  have settled : fin (rule.periods (clock + rule.periods clock now * interval) now : ℚ) = 0 := by
    rw [none_, Nat.cast_zero, zero_eq]
  obtain ⟨y, is_y, kind⟩ := credited
  simp only [BucketState.refill, atTokens, atClock, atInterval, counted, is_y, moved]
  by_cases above : config.maxTokens < y
  · rw [if_pos above]
    exact ⟨maxTokens, _, atMax, rfl, by rw [atMax, fin_lt_fin]; exact lt_irrefl _, settled⟩
  · rw [if_neg above]
    rcases kind with ⟨q, rfl⟩ | rfl
    · split
      · exact ⟨q, _, rfl, rfl, above, settled⟩
      · exact ⟨q, _, rfl, rfl, above, settled⟩
    · rw [atMax] at above
      exact absurd rfl above

/-- So refilling it again at the same instant changes nothing. -/
theorem BucketState.refill_again {state : BucketState} {balance clock : ℚ} (tokens : state.tokens = fin balance)
    (lastUpdate : state.lastUpdate = fin clock) (under : ¬ config.maxTokens < fin balance)
    (settled : intervalsElapsed (fin clock) config.interval now = 0) :
    (state.refill config now).tokens = fin balance := by
  have still : ¬ (0 : JsNumber) < 0 := by
    rw [zero_eq, fin_lt_fin]
    exact lt_irrefl 0
  simp only [BucketState.refill, tokens, lastUpdate, settled, if_neg still, if_neg under]
  split <;> rfl

end Again

section Settling

variable {a : Account} {spec : SettleSpec} {now : ℚ} {id : String}

theorem Account.refill_exact (a : Account) (now : ℚ) (usable : unusableBudget 0 spec.config = none) :
    ∃ balance clock : ℚ, (a.refill spec.config now).tokens = fin balance ∧
      (a.refill spec.config now).lastUpdate = fin clock ∧ ¬ spec.config.maxTokens < fin balance ∧
      intervalsElapsed (fin clock) spec.config.interval now = 0 := by
  obtain ⟨maxTokens, -, -, atMax, -⟩ := unusableBudget_none.mp usable
  have orElse_finite : ∀ x : JsNumber, ∀ q, (x.orElse (fin q)).isFinite = true := by
    intro x q
    unfold JsNumber.orElse
    split
    · assumption
    · rfl
  unfold Account.refill
  cases a.bucket with
  | none => exact BucketState.refill_exact usable (by rw [atMax]; rfl) rfl
  | some b =>
    refine BucketState.refill_exact usable ?_ (orElse_finite _ _)
    rw [Bucket.stored, atMax]
    exact orElse_finite _ _

/-- A settlement acts on a mark that is there, and consumes it. -/
theorem Account.settle_settled (settled : (a.settle spec now).1.settled = true) :
    a.marks spec.markId ≠ none ∧ (a.settle spec now).2.marks spec.markId = none := by
  unfold Account.settle at settled ⊢
  cases marked : a.marks spec.markId with
  | none =>
    rw [marked] at settled
    cases settled
  | some m =>
    rw [marked] at settled
    simp only at settled ⊢
    split at settled
    · rename_i acts
      refine ⟨by simp, ?_⟩
      rw [if_pos acts]
      unfold Account.applySettlement
      split <;> simp
    · cases settled

theorem Account.outcome_parted (spec : SettleSpec) (now : ℚ) {m : Mark} {b : Bucket}
    (marked : m.generation.isFinite = true)
    (held : a.bucket = some b) (parted : b.epoch = some m.epoch → m.generation.toRat < b.generation.toRat) :
    (a.outcome spec m now).applied = 0 ∧ (a.outcome spec m now).unapplied = 0 := by
  have gone : (a.settleInput spec m (a.refill spec.config now)).bucketGone = true := by
    simp only [SettleInput.bucketGone, Account.settleInput, Account.generation,
      Account.epoch, held, Option.elim_some,
      Option.bind_some, Bool.or_eq_true, decide_eq_true_eq, epochs_match]
    by_cases same : b.epoch = some m.epoch
    · refine Or.inl (Or.inl (Or.inr ?_))
      intro equal
      have apart := parted same
      rw [equal, JsNumber.orElse, if_pos marked] at apart
      exact lt_irrefl _ apart
    · exact Or.inl (Or.inl (Or.inl (Or.inr same)))
  simp only [Account.outcome, settleAmount, gone, if_true, and_self]

/-- A settlement of a mark whose bucket is gone or was overwritten refills the bucket and no more. -/
theorem Account.settle_parted (orderly : a.Orderly) (parted : a.Parted spec.markId) :
    (a.settle spec now).1.applied = 0 ∧ (a.settle spec now).1.unapplied = 0 ∧
      ((a.settle spec now).2.refill spec.config now).tokens = (a.refill spec.config now).tokens := by
  unfold Account.settle
  cases marked : a.marks spec.markId with
  | none => exact ⟨rfl, rfl, rfl⟩
  | some m =>
    simp only
    split
    · rename_i acts
      obtain ⟨-, -, usable⟩ := settleable_iff.mp acts
      generalize consumes : ({ a with marks := Function.update a.marks spec.markId none } : Account) = c
      have same : c.bucket = a.bucket := by rw [← consumes]
      have refilled : a.refill spec.config now = c.refill spec.config now := by simp only [Account.refill, same]
      rw [refilled]
      unfold Account.applySettlement
      cases held : c.bucket with
      | none => exact ⟨rfl, rfl, rfl⟩
      | some b =>
        obtain ⟨applied, unapplied⟩ := c.outcome_parted spec now (orderly.mark _ m marked).1 held
          (parted m b marked (same ▸ held))
        obtain ⟨balance, clock, tokens, lastUpdate, under, settled⟩ := c.refill_exact now usable
        refine ⟨applied, unapplied, ?_⟩
        simp only [applied, tokens, zero_eq, sub_fin, sub_zero]
        refine BucketState.refill_again rfl ?_ under settled
        simp only [Bucket.stored, lastUpdate, orElse_fin]
    · exact ⟨rfl, rfl, rfl⟩

theorem Trail.orderly {a' : Account} {actions : List Action}
    (trail : Trail now a actions a') (orderly : a.Orderly) : a'.Orderly :=
  trail.invariant (P := fun _ => True) (fun _ action _ fits held => action.orderly fits held)
    (fun _ _ => trivial) orderly

theorem Trail.parted {a' : Account} {actions : List Action} (trail : Trail now a actions a') (orderly : a.Orderly)
    (unwritten : ∀ action ∈ actions, ¬ action.Marks id) (parted : a.Parted id) : a'.Parted id :=
  (trail.invariant (I := fun a => a.Orderly ∧ a.Parted id)
    (fun _ action free fits held => ⟨action.orderly fits held.1, action.parted fits held.1 free held.2⟩) unwritten
    ⟨orderly, parted⟩).2

theorem Trail.unmarked {a' : Account} {actions : List Action} (trail : Trail now a actions a') (orderly : a.Orderly)
    (unwritten : ∀ action ∈ actions, ¬ action.Marks id) (absent : a.marks id = none) : a'.marks id = none :=
  (trail.invariant (I := fun a => a.Orderly ∧ a.marks id = none)
    (fun _ action free fits held => ⟨action.orderly fits held.1, action.unmarked fits held.1 free held.2⟩) unwritten
    ⟨orderly, absent⟩).2

theorem settles_unwritten (specs : List SettleSpec) : ∀ action ∈ specs.map Action.settle, ¬ action.Marks id := by
  intro action member
  obtain ⟨spec, -, rfl⟩ := List.mem_map.mp member
  exact not_false

/-- How many of a call's settlements of the mark `id` were made. -/
def settledFor (id : String) (specs : List SettleSpec) (results : List SettleResult) : ℕ :=
  (specs.zip results).countP fun entry => decide (entry.1.markId = id) && entry.2.settled

/-- The settlements of one call make at most one of a mark, and only of a mark that was there. -/
theorem Account.settleAll_once (orderly : a.Orderly) (specs : List SettleSpec) :
    settledFor id specs (settleAll now specs a).1 = 0 ∨
      (settledFor id specs (settleAll now specs a).1 = 1 ∧ a.marks id ≠ none ∧
        (settleAll now specs a).2.marks id = none) := by
  induction specs generalizing a with
  | nil => exact Or.inl rfl
  | cons spec rest ih =>
    have after : (a.settle spec now).2.Orderly := Action.orderly (.settle spec) trivial orderly
    have split : settledFor id (spec :: rest) (settleAll now (spec :: rest) a).1 =
        settledFor id rest (settleAll now rest (a.settle spec now).2).1 +
          if spec.markId = id ∧ (a.settle spec now).1.settled = true then 1 else 0 := by
      simp [settledFor, settleAll, List.zip_cons_cons, List.countP_cons]
    rw [split]
    by_cases consumes : spec.markId = id ∧ (a.settle spec now).1.settled = true
    · obtain ⟨rfl, settled⟩ := consumes
      obtain ⟨marked, absent⟩ := Account.settle_settled settled
      rw [if_pos ⟨rfl, settled⟩]
      rcases ih after with none_ | ⟨-, again, -⟩
      · have gone := (Trail.settleAll now rest (a.settle spec now).2).unmarked after (settles_unwritten rest) absent
        exact Or.inr ⟨by rw [none_], marked, gone⟩
      · exact absurd absent again
    · rw [if_neg consumes, add_zero]
      rcases ih after with none_ | ⟨one, marked, absent⟩
      · exact Or.inl none_
      · refine Or.inr ⟨one, ?_, absent⟩
        intro missing
        exact marked (Action.unmarked (.settle spec) trivial orderly not_false missing)

end Settling

/-- Runs of every operation, under whatever configurations. -/
def markRuns (key : String) : Timed.Machine ℚ State BucketCall :=
  bucketRuns key fun now call s => call.Apart key Set.univ now s

/-- The call writes the mark `id` against the bucket. -/
def BucketCall.Marks (key id : String) (now : ℚ) (s : State) (call : BucketCall) : Prop :=
  (call.exec key now s).1.admitted = true ∧ ∃ d ∈ call.draws key, ∃ mark ∈ d.mark, mark.id = id

/-- Those that do not write the mark `id`. -/
def unmarkedRuns (key id : String) : Timed.Machine ℚ State BucketCall :=
  bucketRuns key fun now call s => call.Apart key Set.univ now s ∧ ¬ call.Marks key id now s

/-- The settlements of the mark `id` that the call reports made. -/
def BucketCall.settledFor (key id : String) (now : ℚ) (call : BucketCall) (s : State) : ℕ :=
  Dianemo.settledFor id (call.settles key)
    ((call.exec key now s).1.settled.filter fun result => decide (result.key = key))

/-- The bucket is emptied, reset or deleted, or is found to have lapsed. -/
def BucketCall.Breaks (key : String) (now : ℚ) (call : BucketCall) (s : State) : Prop :=
  s.live key now = none ∨
    match call with
    | .emptyTokenBucket _ => True
    | .resetTokenBucket _ => True
    | .del keys => key ∈ keys
    | _ => False

section MarkRuns

variable {key id : String} {t now : ℚ} {s : State} {a : Account} {call : BucketCall}

theorem drawn_unwritten {actions : List Action}
    (does : (call.draws key = [] ∧ actions = []) ∨
      ∃ d, call.draws key = [d] ∧ Draws d (call.exec key now s).1.admitted actions)
    (unmarked : ¬ call.Marks key id now s) : ∀ action ∈ actions, ¬ action.Marks id := by
  rcases does with ⟨-, rfl⟩ | ⟨d, one, draws⟩
  · simp
  · generalize told : (call.exec key now s).1.admitted = admitted at draws
    cases draws with
    | untouched => simp
    | declined normal => simp [Action.Marks]
    | admitted normal made =>
      rw [List.forall_mem_singleton]
      rintro ⟨claim, member, same⟩
      obtain ⟨given, marked, named⟩ := claimMark_id made member
      refine unmarked ⟨told, d, by simp [one], given, marked, named.trans same⟩

theorem BucketCall.Does.unwritten {actions : List Action}
    (does : call.Does key now a (call.exec key now s).1 actions)
    (unmarked : ¬ call.Marks key id now s) : ∀ action ∈ actions, ¬ action.Marks id := by
  cases call with
  | acquireTokens cost config mark => exact drawn_unwritten does unmarked
  | tryAdmitImmediately queueKey freezeKey cost config ttl mark => exact drawn_unwritten does unmarked
  | acquireMultiLimit specs => exact drawn_unwritten does unmarked
  | tryAdmitMultiLimit queueKey freezeKeys specs ttl => exact drawn_unwritten does unmarked
  | getTokenBucketState config =>
    cases does
    simp
  | refundTokens cost maxTokens freezeKey => rcases does with rfl | rfl <;> simp [Action.Marks]
  | releaseMultiLimit specs =>
    intro action member
    obtain ⟨spec, -, -, rfl⟩ := does action member
    exact not_false
  | emptyTokenBucket config =>
    cases does
    simp [Action.Marks]
  | resetTokenBucket maxTokens =>
    cases does
    simp [Action.Marks]
  | settleTokens specs =>
    obtain ⟨rfl, -⟩ := does
    exact settles_unwritten _
  | touchClaimMark id ttlSeconds => rcases does with rfl | ⟨ttl, rfl⟩ <;> simp [Action.Marks]
  | del keys =>
    cases does
    simp [Action.Marks]
  | elsewhere after =>
    cases does
    simp

/-- The account a call leaves. -/
theorem mark_step (later : t ≤ now) (apart : call.Apart key Set.univ now s) (follows : Follows key Set.univ t s a)
    (orderly : a.Orderly) : ∃ actions a', Trail now (a.asOf now) actions a' ∧
      Follows key Set.univ now (call.exec key now s).2 a' ∧ (a.asOf now).Orderly ∧ a'.Orderly ∧
      call.Does key now (a.asOf now) (call.exec key now s).1 actions := by
  obtain ⟨actions, ⟨a', trail, after⟩, does⟩ := (follows.later later).call apart
  have there := orderly.asOf now
  exact ⟨actions, a', trail, after, there, trail.orderly there, does⟩

theorem settledFor_cases (id : String) {a' : Account} {actions : List Action} (orderly : a.Orderly)
    (trail : Trail now a actions a') (does : call.Does key now a (call.exec key now s).1 actions) :
    call.settledFor key id now s = 0 ∨
      (call.settledFor key id now s = 1 ∧ a.marks id ≠ none ∧ a'.marks id = none) := by
  unfold BucketCall.settledFor
  cases call with
  | settleTokens specs =>
    obtain ⟨rfl, reported⟩ := does
    have same := trail.unique (Trail.settleAll now _ a)
    rw [reported, same]
    exact a.settleAll_once orderly (specs.filter fun spec => decide (spec.key = key))
  | _ => exact Or.inl rfl

theorem unmarked_step (later : t ≤ now) (allowed : (unmarkedRuns key id).allowed now call s)
    (follows : Follows key Set.univ t s a) (orderly : a.Orderly) {made : ℕ}
    (sofar : made = 0 ∨ (made = 1 ∧ a.marks id = none)) :
    ∃ a', Follows key Set.univ now (call.exec key now s).2 a' ∧ a'.Orderly ∧
      (made + call.settledFor key id now s = 0 ∨
        (made + call.settledFor key id now s = 1 ∧ a'.marks id = none)) := by
  obtain ⟨apart, unmarked⟩ := allowed
  obtain ⟨actions, a', trail, after, there, done, does⟩ := mark_step later apart follows orderly
  refine ⟨a', after, done, ?_⟩
  rcases sofar with rfl | ⟨rfl, absent⟩
  · rw [zero_add]
    rcases settledFor_cases id there trail does with none_ | ⟨one, -, gone⟩
    · exact Or.inl none_
    · exact Or.inr ⟨one, gone⟩
  · have missing : (a.asOf now).marks id = none := by
      simp only [Account.asOf, absent, Option.filter_none]
    have gone := trail.unmarked there (does.unwritten unmarked) missing
    rcases settledFor_cases id there trail does with none_ | ⟨-, found, -⟩
    · exact Or.inr ⟨by rw [none_], gone⟩
    · exact absurd missing found

theorem parted_of_absent (absent : a.bucket = none) : a.Parted id := by
  intro m b _ found
  rw [absent] at found
  cases found

theorem Follows.gone (follows : Follows key Set.univ now s a)
    (absent : s.live key now = none) : a.bucket = none := by
  have at_ := follows.bucket
  cases held : a.bucket with
  | none => rfl
  | some b =>
    rw [held] at at_
    obtain ⟨_, ⟨e, live, -⟩, -⟩ := at_
    rw [absent] at live
    cases live

/-- A call that breaks the bucket parts it from every mark not written by the call itself. -/
theorem broken_step (later : t ≤ now) (allowed : (unmarkedRuns key id).allowed now call s)
    (breaks : call.Breaks key now s) (follows : Follows key Set.univ t s a) (orderly : a.Orderly) :
    ∃ a', Follows key Set.univ now (call.exec key now s).2 a' ∧ a'.Orderly ∧ a'.Parted id := by
  obtain ⟨apart, unmarked⟩ := allowed
  obtain ⟨actions, a', trail, after, there, done, does⟩ := mark_step later apart follows orderly
  refine ⟨a', after, done, ?_⟩
  rcases breaks with lapsed | broken
  · have absent := (follows.later later).gone lapsed
    exact trail.parted there (does.unwritten unmarked) (parted_of_absent absent)
  · cases call with
    | emptyTokenBucket config =>
      cases does
      obtain ⟨-, rfl⟩ := trail.of_single
      exact Account.overwrite_parted there _ _ id
    | resetTokenBucket maxTokens =>
      cases does
      obtain ⟨-, rfl⟩ := trail.of_single
      exact Account.overwrite_parted there _ _ id
    | del keys =>
      cases does
      obtain ⟨-, rfl⟩ := trail.of_single
      refine parted_of_absent ?_
      simp only [Action.apply, decide_eq_true broken, if_true]
    | _ => exact broken.elim

theorem parted_step (later : t ≤ now) (allowed : (unmarkedRuns key id).allowed now call s)
    (follows : Follows key Set.univ t s a) (orderly : a.Orderly) (parted : a.Parted id) :
    ∃ a', Follows key Set.univ now (call.exec key now s).2 a' ∧ a'.Orderly ∧ a'.Parted id := by
  obtain ⟨apart, unmarked⟩ := allowed
  obtain ⟨actions, a', trail, after, there, done, does⟩ := mark_step later apart follows orderly
  exact ⟨a', after, done, trail.parted there (does.unwritten unmarked) (parted.asOf orderly now)⟩

theorem blank_orderly (epochs : ℕ) : (Book.blank epochs).account.Orderly := by
  constructor <;> simp [Book.blank, Book.account]

theorem markRuns_orderly (untouched : s.store key = none) (unmarked : ∀ id, s.store (claimMarkKey key id) = none)
    {history : List (ℚ × BucketCall)} (valid : (markRuns key).Valid t s history) :
    ∃ a, Follows key Set.univ ((markRuns key).clock t history) ((markRuns key).final s history) a ∧ a.Orderly := by
  have start : Follows key Set.univ t s (Book.blank s.epochs).account :=
    Follows.absent (by simp [State.live, untouched]) fun id _ => by simp [State.live, unmarked id]
  refine valid.invariant (I := fun t s => ∃ a, Follows key Set.univ t s a ∧ a.Orderly) ?_
    ⟨_, start, blank_orderly s.epochs⟩
  rintro t now call s later apart ⟨a, follows, orderly⟩
  obtain ⟨actions, a', -, after, -, done, -⟩ := mark_step later apart follows orderly
  exact ⟨a', after, done⟩

/-- One entry of a settlement, after the entries before it in its call. -/
theorem settle_entry (follows : Follows key Set.univ t s a) (orderly : a.Orderly) (later : t ≤ now)
    {specs : List SettleSpec} {spec : SettleSpec}
    (apart : (BucketCall.settleTokens (specs ++ [spec])).Apart key Set.univ now s) (home : spec.key = key) :
    ∃ results s₁ result s₂, (settleTokens now specs).run s = (.ok results, s₁) ∧
      (settleSpec spec now).run s₁ = (.ok result, s₂) ∧ (result.settled = false → s₂ = s₁) ∧
      ((a.asOf now).Parted spec.markId → result.applied = 0 ∧ result.unapplied = 0 ∧
        (refill s₂ key spec.config now).tokens = (refill s₁ key spec.config now).tokens) := by
  have before : ∀ other ∈ specs, (other.key = key ∧ other.markId ∈ Set.univ) ∨
      (other.key ∉ watch key Set.univ ∧ claimMarkKey other.key other.markId ∉ watch key Set.univ) :=
    fun other member => apart other (List.mem_append_left _ member)
  have there := orderly.asOf now
  obtain ⟨results, s₁, run, -, held⟩ := (follows.later later).settleTokens before
  obtain ⟨s₂, made, after⟩ := held.settle home trivial
  obtain ⟨result, s', again, -, unsettled, -⟩ :=
    settleSpec_keeps (Set.notMem_empty spec.key) (Set.notMem_empty (claimMarkKey spec.key spec.markId)) now s₁
  rw [made] at again
  cases again
  refine ⟨results, s₁, _, s₂, run, made, unsettled, ?_⟩
  intro parted
  have trail := Trail.settleAll now (specs.filter fun spec => decide (spec.key = key)) (a.asOf now)
  rw [after.refill, held.refill]
  exact Account.settle_parted (trail.orderly there) (trail.parted there (settles_unwritten _) parted)

/-- Until a claim writes it again a mark is settled at most once; a settlement
not made changes nothing, and one whose bucket was emptied, reset, deleted or
lapsed in between takes nothing. -/
theorem settles_once (untouched : s.store key = none) (unmarked : ∀ id, s.store (claimMarkKey key id) = none)
    {early late : List (ℚ × BucketCall)} (valid : (markRuns key).Valid t s early)
    (rest : (unmarkedRuns key id).Valid ((markRuns key).clock t early) ((markRuns key).final s early) late) :
    (unmarkedRuns key id).total (BucketCall.settledFor key id) ((markRuns key).final s early) late ≤ 1 ∧
      ∀ now specs spec, (unmarkedRuns key id).clock ((markRuns key).clock t early) late ≤ now →
        (BucketCall.settleTokens (specs ++ [spec])).Apart key Set.univ now
          ((unmarkedRuns key id).final ((markRuns key).final s early) late) →
        spec.key = key → spec.markId = id →
        ∃ results s₁ result s₂,
          (settleTokens now specs).run ((unmarkedRuns key id).final ((markRuns key).final s early) late) =
            (.ok results, s₁) ∧
          (settleSpec spec now).run s₁ = (.ok result, s₂) ∧ (result.settled = false → s₂ = s₁) ∧
          ((unmarkedRuns key id).Passes (BucketCall.Breaks key) ((markRuns key).final s early) late ∨
              ((unmarkedRuns key id).final ((markRuns key).final s early) late).live key now = none →
            result.applied = 0 ∧ result.unapplied = 0 ∧
              (refill s₂ key spec.config now).tokens = (refill s₁ key spec.config now).tokens) := by
  obtain ⟨a, follows, orderly⟩ := markRuns_orderly untouched unmarked valid
  constructor
  · obtain ⟨a', -, -, made⟩ := rest.invariant_total
      (I := fun t s made => ∃ a, Follows key Set.univ t s a ∧ a.Orderly ∧
        (made = 0 ∨ (made = 1 ∧ a.marks id = none)))
      (fun t now call s made later allowed ⟨a, follows, orderly, sofar⟩ =>
        unmarked_step later allowed follows orderly sofar)
      ⟨a, follows, orderly, Or.inl rfl⟩
    omega
  · rintro now specs spec later apart home rfl
    have orderly_step : ∀ t now call s, t ≤ now → (unmarkedRuns key spec.markId).allowed now call s →
        (∃ a, Follows key Set.univ t s a ∧ a.Orderly) →
        ∃ a, Follows key Set.univ now (call.exec key now s).2 a ∧ a.Orderly := by
      rintro t now call s later ⟨apart, -⟩ ⟨a, follows, orderly⟩
      obtain ⟨actions, a', -, after, -, done, -⟩ := mark_step later apart follows orderly
      exact ⟨a', after, done⟩
    by_cases broken : (unmarkedRuns key spec.markId).Passes (BucketCall.Breaks key)
      ((markRuns key).final s early) late
    · obtain ⟨c, held, kept, parted⟩ := rest.invariant_after
        (J := fun t s => ∃ a, Follows key Set.univ t s a ∧ a.Orderly ∧ a.Parted spec.markId) orderly_step
        (fun t now call s later allowed breaks ⟨a, follows, orderly⟩ =>
          broken_step later allowed breaks follows orderly)
        (fun t now call s later allowed ⟨a, follows, orderly, parted⟩ =>
          parted_step later allowed follows orderly parted) broken ⟨a, follows, orderly⟩
      obtain ⟨results, s₁, result, s₂, run, made, unsettled, nothing⟩ := settle_entry held kept later apart home
      exact ⟨results, s₁, result, s₂, run, made, unsettled, fun _ => nothing (parted.asOf kept now)⟩
    · obtain ⟨c, held, kept⟩ := rest.invariant orderly_step ⟨a, follows, orderly⟩
      obtain ⟨results, s₁, result, s₂, run, made, unsettled, nothing⟩ := settle_entry held kept later apart home
      refine ⟨results, s₁, result, s₂, run, made, unsettled, ?_⟩
      intro gone
      have lapsed := (held.later later).gone (gone.resolve_left broken)
      exact nothing (parted_of_absent lapsed)

end MarkRuns

/-- A claim whose bucket is reset before it is settled. -/
def claimRun : List (ℚ × BucketCall) := [(0, .acquireTokens 4 fivePerSecond.config (some ⟨"claim", 60⟩))]

def resetRun : List (ℚ × BucketCall) := [(100, .resetTokenBucket 10)]

theorem settles_once_reset :
    (unmarkedRuns "bucket" "claim").total (BucketCall.settledFor "bucket" "claim")
        ((markRuns "bucket").final State.fresh claimRun) resetRun ≤ 1 ∧
      ∃ results s₁ result s₂, (settleTokens 200 []).run
          ((unmarkedRuns "bucket" "claim").final ((markRuns "bucket").final State.fresh claimRun) resetRun) =
            (.ok results, s₁) ∧
        (settleSpec ⟨"bucket", "claim", 20, fivePerSecond.config, 6⟩ 200).run s₁ = (.ok result, s₂) ∧
        result.applied = 0 ∧ result.unapplied = 0 := by
  have valid : (markRuns "bucket").Valid 0 State.fresh claimRun :=
    Timed.Machine.valid_cons.mpr ⟨le_rfl, trivial, Timed.Machine.valid_nil⟩
  have resets : ∀ now s, (unmarkedRuns "bucket" "claim").allowed now (.resetTokenBucket 10) s := by
    intro now s
    refine ⟨trivial, ?_⟩
    rintro ⟨-, d, member, -⟩
    cases member
  have rest : (unmarkedRuns "bucket" "claim").Valid ((markRuns "bucket").clock 0 claimRun)
      ((markRuns "bucket").final State.fresh claimRun) resetRun :=
    Timed.Machine.valid_cons.mpr ⟨by decide +kernel, resets _ _, Timed.Machine.valid_nil⟩
  obtain ⟨once, entry⟩ := settles_once rfl (fun _ => rfl) valid rest
  obtain ⟨results, s₁, result, s₂, run, made, -, nothing⟩ :=
    entry 200 [] ⟨"bucket", "claim", 20, fivePerSecond.config, 6⟩ (by decide +kernel)
      (by simp [BucketCall.Apart]) rfl rfl
  obtain ⟨applied, unapplied, -⟩ := nothing (Or.inl (Or.inl (Or.inr trivial)))
  exact ⟨once, results, s₁, result, s₂, run, made, applied, unapplied⟩

end Dianemo
