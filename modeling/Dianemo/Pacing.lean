import Dianemo.Runs

namespace Dianemo

open JsNumber Meter

/-- Calls that only claim from the bucket, read it or empty it, all under `r`. -/
def BucketCall.Paces (r : Rate) (key : String) (call : BucketCall) : Prop :=
  call.Under r key ∧
    match call with
    | .refundTokens _ _ _ => False
    | .releaseMultiLimit _ => False
    | .resetTokenBucket _ => False
    | .settleTokens _ => False
    | .touchClaimMark _ _ => False
    | .del _ => False
    | .getTokenBucketState config => config = r.config
    | _ => True

/-- Runs in which the bucket is paced by `r` and never lapses. -/
def pacedRuns (r : Rate) (key : String) : Timed.Machine ℚ State BucketCall :=
  bucketRuns key fun now call s => s.Lasts key now ∧ call.Paces r key ∧ call.Apart key ∅ now s

/-- What a window from `lo` to `hi` may admit. -/
def windowBound (r : Rate) (lo hi : ℚ) : ℚ :=
  r.maxTokens + r.tokensToAdd * (⌊(hi - lo) / r.interval⌋ + 1) + balanceTolerance * r.maxTokens

/-- A bucket that has admitted `sum` since `lo`: beyond a full bucket, every
admitted token was fed by an interval that ended after `lo`. -/
structure Steady (r : Rate) (lo now : ℚ) (l : Level) (sum : ℚ) : Prop where
  clock : l.gauge.clock ≤ now
  floor : -(balanceTolerance * r.maxTokens) ≤ l.gauge.level
  ceiling : l.gauge.level ≤ r.maxTokens
  fed : sum = 0 ∨ ∃ k : ℕ, sum + l.gauge.level ≤ r.maxTokens + r.tokensToAdd * k ∧
    k * r.interval < l.gauge.clock - lo + r.interval

namespace Steady

variable {r : Rate} {lo now t : ℚ} {l : Level} {sum : ℚ}

theorem later (steady : Steady r lo t l sum) (order : t ≤ now) : Steady r lo now l sum :=
  ⟨steady.clock.trans order, steady.floor, steady.ceiling, steady.fed⟩

theorem full (r : Rate) (lo now : ℚ) : Steady r lo now (Level.full r now) 0 where
  clock := le_rfl
  floor := by
    have positive := mul_pos balanceTolerance_pos r.maxTokens_pos
    have tokens := r.maxTokens_pos
    simp only [Level.full]
    linarith
  ceiling := le_rfl
  fed := Or.inl rfl

theorem refill (steady : Steady r lo now l sum) : Steady r lo now (l.refill r now) sum := by
  have fed := r.rule.feed_nonneg r.tokensToAdd_pos.le l.gauge.clock now
  have level : (l.refill r now).gauge.level =
    Min.min r.maxTokens (l.gauge.level + r.rule.feed l.gauge.clock now) := rfl
  have clock : (l.refill r now).gauge.clock = l.gauge.clock + r.rule.periods l.gauge.clock now * r.interval := rfl
  refine ⟨Rule.clock_le steady.clock, ?_, ?_, ?_⟩
  · rw [level]
    refine le_min ?_ (by linarith [steady.floor])
    have positive := mul_pos balanceTolerance_pos r.maxTokens_pos
    linarith [r.maxTokens_pos]
  · rw [level]
    exact min_le_left _ _
  · rcases steady.fed with none_ | ⟨k, total, span⟩
    · exact Or.inl none_
    · refine Or.inr ⟨k + r.rule.periods l.gauge.clock now, ?_, ?_⟩
      · have kept : (l.refill r now).gauge.level ≤ l.gauge.level + r.rule.feed l.gauge.clock now := by
          rw [level]
          exact min_le_right _ _
        have feed : r.rule.feed l.gauge.clock now = r.rule.periods l.gauge.clock now * r.tokensToAdd := rfl
        rw [feed] at kept
        push_cast
        linarith
      · rw [clock]
        push_cast
        linarith

theorem spend {cost : ℚ} (steady : Steady r lo now l sum) (nonneg : 0 ≤ cost)
    (covers : cost - Min.min r.maxTokens cost * balanceTolerance ≤ l.gauge.level) :
    Steady r lo now (l.spend cost) sum := by
  have level : (l.spend cost).gauge.level = l.gauge.level - cost := rfl
  have bounds := Level.spend_bounds nonneg covers
  refine ⟨steady.clock, bounds.1, bounds.2.trans steady.ceiling, ?_⟩
  refine steady.fed.imp_right ?_
  rintro ⟨k, total, span⟩
  exact ⟨k, by rw [level]; linarith, span⟩

/-- An admitted cost inside the window. -/
theorem claim {cost : ℚ} (steady : Steady r lo now l sum) (after : lo ≤ now)
    (recent : now - r.interval < l.gauge.clock)
    (nonneg : 0 ≤ cost) (covers : cost - Min.min r.maxTokens cost * balanceTolerance ≤ l.gauge.level) :
    Steady r lo now (l.spend cost) (sum + cost) := by
  have spent := steady.spend nonneg covers
  have level : (l.spend cost).gauge.level = l.gauge.level - cost := rfl
  refine ⟨spent.clock, spent.floor, spent.ceiling, Or.inr ?_⟩
  rcases steady.fed with rfl | ⟨k, total, span⟩
  · refine ⟨0, ?_, ?_⟩
    · rw [level, Nat.cast_zero]
      linarith [steady.ceiling]
    · have clock : (l.spend cost).gauge.clock = l.gauge.clock := rfl
      rw [clock, Nat.cast_zero]
      linarith
  · exact ⟨k, by rw [level]; linarith, span⟩

theorem sum_le {hi : ℚ} (period : 0 < r.interval) (steady : Steady r lo now l sum)
    (order : lo ≤ hi) (before : now ≤ hi) : sum ≤ windowBound r lo hi := by
  have tolerance := mul_pos balanceTolerance_pos r.maxTokens_pos
  have intervals : (0 : ℚ) ≤ ⌊(hi - lo) / r.interval⌋ := by
    exact_mod_cast Int.floor_nonneg.mpr (div_nonneg (sub_nonneg.mpr order) period.le)
  unfold windowBound
  rcases steady.fed with rfl | ⟨k, total, span⟩
  · have fed := mul_nonneg r.tokensToAdd_pos.le (add_nonneg intervals zero_le_one)
    linarith [r.maxTokens_pos]
  · have quotient : (k : ℚ) < (hi - lo) / r.interval + 1 := by
      rw [← sub_lt_iff_lt_add, lt_div_iff₀ period]
      have clock := steady.clock
      linarith
    have count : (k : ℚ) ≤ ⌊(hi - lo) / r.interval⌋ + 1 := by
      have below : (k : ℤ) < ⌊(hi - lo) / r.interval⌋ + 1 + 1 := by
        have floors := Int.lt_floor_add_one ((hi - lo) / r.interval)
        have real : ((k : ℤ) : ℚ) < ((⌊(hi - lo) / r.interval⌋ + 1 + 1 : ℤ) : ℚ) := by
          push_cast
          linarith
        exact_mod_cast real
      exact_mod_cast Int.lt_add_one_iff.mp below
    have fed := mul_le_mul_of_nonneg_left count r.tokensToAdd_pos.le
    linarith [steady.floor]

end Steady

/-- The account of a run that has admitted `sum` in the window so far. -/
structure Metered (r : Rate) (lo hi now : ℚ) (b : Book) (sum : ℚ) : Prop where
  bounded : sum ≤ windowBound r lo hi
  blank : b.purse = none → sum = 0
  steady : ∀ p, b.purse = some p → Steady r lo now p.level sum

def Action.Paced : Action → Prop
  | .touch _ _ => True
  | .spend _ _ _ _ _ => True
  | .empty _ => True
  | _ => False

theorem Draws.paced {d : Draw} {admitted : Bool} {actions : List Action} (draws : Draws d admitted actions) :
    ∀ action ∈ actions, action.Paced := by
  cases draws <;> simp [Action.Paced]

theorem BucketCall.Paces.paced {r : Rate} {key : String} {call : BucketCall} (paces : call.Paces r key) {now : ℚ}
    {a : Account} {report : Report} {actions : List Action} (does : call.Does key now a report actions) :
    ∀ action ∈ actions, action.Paced := by
  have drawn : ((call.draws key = [] ∧ actions = []) ∨ ∃ d, call.draws key = [d] ∧
      Draws d report.admitted actions) →
      ∀ action ∈ actions, action.Paced := by
    rintro (⟨-, rfl⟩ | ⟨d, -, draws⟩)
    · simp
    · exact draws.paced
  cases call with
  | acquireTokens cost config mark => exact drawn does
  | tryAdmitImmediately queueKey freezeKey cost config ttl mark => exact drawn does
  | acquireMultiLimit specs => exact drawn does
  | tryAdmitMultiLimit queueKey freezeKeys specs ttl => exact drawn does
  | emptyTokenBucket config =>
    cases does
    simp [Action.Paced]
  | getTokenBucketState config =>
    cases does
    simp
  | elsewhere after =>
    cases does
    simp
  | refundTokens cost maxTokens freezeKey => exact paces.2.elim
  | releaseMultiLimit specs => exact paces.2.elim
  | resetTokenBucket maxTokens => exact paces.2.elim
  | settleTokens specs => exact paces.2.elim
  | touchClaimMark id ttlSeconds => exact paces.2.elim
  | del keys => exact paces.2.elim

namespace Metered

variable {r : Rate} {lo hi now : ℚ} {b : Book} {sum : ℚ}

theorem level (period : 0 < r.interval) (metered : Metered r lo hi now b sum) :
    Steady r lo now (b.level r now) sum ∧ now - r.interval < (b.level r now).gauge.clock := by
  unfold Book.level
  cases found : b.purse with
  | none =>
    rw [metered.blank found]
    exact ⟨Steady.full r lo now, sub_lt_self now period⟩
  | some p =>
    have recent := Rule.lt_clock (r := r.rule) period p.level.gauge.clock now
    exact ⟨(metered.steady p found).refill, recent⟩

theorem act (period : 0 < r.interval) (order : lo ≤ hi) (metered : Metered r lo hi now b sum) {action : Action}
    (uses : action.Uses r) (fits : action.Fits now b.account) (paced : action.Paced) :
    Metered r lo hi now (b.act r now action) (sum + if lo ≤ now ∧ now ≤ hi then action.spent else 0) := by
  obtain ⟨steady, recent⟩ := metered.level period
  cases action with
  | touch config ttl =>
    simp only [Action.spent, ite_self, add_zero]
    refine ⟨metered.bounded, fun none_ => ?_, ?_⟩
    · cases none_
    rintro p ⟨⟩
    exact steady
  | spend config cost ttl mark epoch =>
    cases uses
    obtain ⟨-, nonneg, covers⟩ := spend_fits fits
    have purse : ∃ p, (b.act r now (.spend r.config cost ttl mark epoch)).purse = some p ∧
        p.level = (b.level r now).spend cost.toRat := by
      cases mark with
      | none => exact ⟨_, rfl, rfl⟩
      | some claim => exact ⟨_, rfl, rfl⟩
    obtain ⟨p, found, spent⟩ := purse
    by_cases inside : lo ≤ now ∧ now ≤ hi
    · have admitted := steady.claim inside.1 recent nonneg covers
      rw [if_pos inside]
      refine ⟨admitted.sum_le period order inside.2, (by simp [found]), ?_⟩
      intro p' found'
      cases Option.some.inj (found.symm.trans found')
      rw [spent]
      exact admitted
    · rw [if_neg inside, add_zero]
      refine ⟨metered.bounded, (by simp [found]), ?_⟩
      intro p' found'
      cases Option.some.inj (found.symm.trans found')
      rw [spent]
      exact steady.spend nonneg covers
  | empty config =>
    simp only [Action.spent, ite_self, add_zero]
    refine ⟨metered.bounded, fun none_ => ?_, ?_⟩
    · cases none_
    rintro p ⟨⟩
    have tolerance := mul_pos balanceTolerance_pos r.maxTokens_pos
    cases found : b.purse with
    | none =>
      rw [metered.blank found]
      refine ⟨le_rfl, ?_, ?_, Or.inl rfl⟩
      · simp only [Option.elim_none, min_self]
        linarith
      · simp only [Option.elim_none, min_self]
        exact r.maxTokens_pos.le
    | some p =>
      have held := metered.steady p found
      refine ⟨le_rfl, ?_, ?_, ?_⟩
      · simp only [Option.elim_some]
        exact le_min held.floor (by linarith)
      · simp only [Option.elim_some]
        exact (min_le_right _ _).trans r.maxTokens_pos.le
      · refine held.fed.imp_right ?_
        rintro ⟨k, total, span⟩
        have lowered := min_le_left p.level.gauge.level 0
        have clock := held.clock
        exact ⟨k, by simp only [Option.elim_some]; linarith, by simp only; linarith⟩
  | credit cost maxTokens => exact paced.elim
  | reset maxTokens => exact paced.elim
  | settle spec => exact paced.elim
  | prolong id ttl => exact paced.elim
  | drop bucket ids => exact paced.elim

theorem trail (period : 0 < r.interval) (order : lo ≤ hi)
    (metered : Metered r lo hi now b sum) {actions : List Action}
    {a : Account} (trail : Trail now b.account actions a) (uses : ∀ action ∈ actions, action.Uses r)
    (paced : ∀ action ∈ actions, action.Paced) :
    ∃ b' : Book, a = b'.account ∧
      Metered r lo hi now b' (sum + if lo ≤ now ∧ now ≤ hi then (actions.map Action.spent).sum else 0) := by
  generalize from_ : b.account = a₀ at trail
  induction trail generalizing b sum with
  | done => exact ⟨b, from_.symm, by simpa using metered⟩
  | act fits _ ih =>
    subst from_
    rw [List.forall_mem_cons] at uses paced
    have first := metered.act period order uses.1 fits paced.1
    obtain ⟨b', same, after⟩ := ih first uses.2 paced.2 (Book.act_account uses.1 fits).symm
    refine ⟨b', same, ?_⟩
    rw [List.map_cons, List.sum_cons]
    by_cases inside : lo ≤ now ∧ now ≤ hi
    · simpa only [if_pos inside, add_assoc] using after
    · simpa only [if_neg inside, add_zero] using after

end Metered

/-- One call of a paced run. -/
theorem paced_step {r : Rate} (period : 0 < r.interval) {key : String} {lo hi : ℚ} (order : lo ≤ hi) {t now : ℚ}
    {s : State} {call : BucketCall} {sum : ℚ} (later : t ≤ now) (allowed : (pacedRuns r key).allowed now call s)
    (start : ∃ b : Book, Follows key ∅ t s b.account ∧ Metered r lo hi t b sum) :
    ∃ b : Book, Follows key ∅ now ((pacedRuns r key).step now call s) b.account ∧
      Metered r lo hi now b (sum + if lo ≤ now ∧ now ≤ hi then call.admitted key now s else 0) := by
  obtain ⟨b, follows, metered⟩ := start
  obtain ⟨lasts, paces, apart⟩ := allowed
  have kept := follows.lasting lasts
  have there := follows.later later
  rw [b.asOf_account now] at there
  have waited : Metered r lo hi now (b.asOf now) sum := by
    refine ⟨metered.bounded, fun none_ => metered.blank (kept.symm.trans none_), ?_⟩
    intro p found
    exact (metered.steady p (kept.symm.trans found)).later later
  obtain ⟨actions, ⟨a', trail, after⟩, does⟩ := there.call apart
  obtain ⟨b', rfl, done⟩ := waited.trail period order trail (does.uses paces.1) (paces.paced does)
  rw [← does.spent] at done
  exact ⟨b', after, done⟩

/-- Within any window a bucket admits at most a full bucket, what the
intervals of the window feed it and one interval more. -/
theorem admitted_window_le {r : Rate} (period : 0 < r.interval) {key : String} {t : ℚ} {s : State}
    (untouched : s.store key = none) {history : List (ℚ × BucketCall)}
    (valid : (pacedRuns r key).Valid t s history) {lo hi : ℚ} (order : lo ≤ hi) :
    (pacedRuns r key).total (fun now call s => if lo ≤ now ∧
      now ≤ hi then call.admitted key now s else 0) s history ≤
      r.maxTokens + r.tokensToAdd * (⌊(hi - lo) / r.interval⌋ + 1) + 1 / 1000000000 * r.maxTokens := by
  have missing : s.live key t = none := by simp [State.live, untouched]
  have start : ∃ b : Book, Follows key ∅ t s b.account ∧ Metered r lo hi t b 0 := by
    refine ⟨_, Follows.absent missing (by simp), ?_, fun _ => rfl, fun _ found => by cases found⟩
    exact (Steady.full r lo lo).sum_le period order order
  obtain ⟨b, -, metered⟩ := valid.invariant_total
    (I := fun t s sum => ∃ b : Book, Follows key ∅ t s b.account ∧ Metered r lo hi t b sum)
    (fun _ _ _ _ _ later allowed start => paced_step period order later allowed start) start
  have bounded := metered.bounded
  rw [zero_add] at bounded
  exact bounded

theorem admitted_window_le_full :
    (pacedRuns fivePerSecond "bucket").total
        (fun now call s => if 0 ≤ now ∧ now ≤ 1000 then call.admitted "bucket" now s else 0) State.fresh
        [(0, .acquireTokens 10 fivePerSecond.config none),
          (1000, .acquireTokens 5 fivePerSecond.config none)] = 15 ∧
      (15 : ℚ) ≤ 10 + 5 * (⌊((1000 : ℚ) - 0) / 1000⌋ + 1) + 1 / 1000000000 * 10 := by
  have valid : (pacedRuns fivePerSecond "bucket").Valid 0 State.fresh
      [(0, .acquireTokens 10 fivePerSecond.config none), (1000, .acquireTokens 5 fivePerSecond.config none)] := by
    refine ⟨le_rfl, ⟨nofun, ⟨⟨by simp [BucketCall.draws], by simp [BucketCall.credits], by simp [BucketCall.settles]⟩,
      trivial⟩, trivial⟩, by norm_num, ⟨?_, ⟨⟨by simp [BucketCall.draws], by simp [BucketCall.credits],
      by simp [BucketCall.settles]⟩, trivial⟩, trivial⟩, trivial⟩
    unfold State.Lasts
    decide +kernel
  have total : (pacedRuns fivePerSecond "bucket").total
      (fun now call s => if 0 ≤ now ∧ now ≤ 1000 then call.admitted "bucket" now s else 0) State.fresh
      [(0, .acquireTokens 10 fivePerSecond.config none),
        (1000, .acquireTokens 5 fivePerSecond.config none)] = 15 := by
    decide +kernel
  have bound := admitted_window_le (r := fivePerSecond) (by norm_num [fivePerSecond]) rfl valid
    (show (0 : ℚ) ≤ 1000 by norm_num)
  rw [total] at bound
  exact ⟨total, bound⟩

end Dianemo
