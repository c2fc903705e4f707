import Dianemo.Exact
import Dianemo.Library.Timed

namespace Dianemo

open JsNumber

/-- Runs of the backend as the bucket `key` sees them. -/
def bucketRuns (key : String) (allowed : ℚ → BucketCall → State → Prop) : Timed.Machine ℚ State BucketCall where
  step now call s := (call.exec key now s).2
  allowed := allowed

/-- The key, if it is there at all, has not lapsed. -/
def State.Lasts (s : State) (key : String) (now : ℚ) : Prop := ∀ e ∈ s.store key, e.expired now = false

/-- The part of a call that reaches the bucket `key` is made under the rate `r`. -/
def BucketCall.Under (r : Rate) (key : String) : BucketCall → Prop
  | .emptyTokenBucket config => config = r.config
  | .resetTokenBucket maxTokens => maxTokens = fin r.maxTokens
  | call => (∀ d ∈ call.draws key, d.config = r.config) ∧
      (∀ credit ∈ call.credits key, credit.2 = fin r.maxTokens) ∧
      ∀ spec ∈ call.settles key, spec.config = r.config

/-- The cost the call was admitted for on the bucket `key`. -/
def BucketCall.admitted (key : String) (now : ℚ) (s : State) (call : BucketCall) : ℚ :=
  if (call.exec key now s).1.admitted then ((call.draws key).map fun d => d.cost.toRat).sum else 0

def Action.spent : Action → ℚ
  | .spend _ cost _ _ _ => cost.toRat
  | _ => 0

section Calls

variable {r : Rate} {key : String} {ids : Set String} {now : ℚ} {s : State} {a : Account} {call : BucketCall}
  {report : Report} {actions : List Action}

theorem Draws.uses {d : Draw} {admitted : Bool} (draws : Draws d admitted actions) (under : d.config = r.config) :
    ∀ action ∈ actions, action.Uses r := by
  cases draws with
  | untouched => simp
  | declined normal => simpa [Action.Uses] using under
  | admitted normal made => simpa [Action.Uses] using under

theorem drawn_uses (under : ∀ d ∈ call.draws key, d.config = r.config)
    (does : (call.draws key = [] ∧ actions = []) ∨ ∃ d, call.draws key = [d] ∧ Draws d report.admitted actions) :
    ∀ action ∈ actions, action.Uses r := by
  rcases does with ⟨-, rfl⟩ | ⟨d, one, draws⟩
  · simp
  · exact draws.uses (under d (by simp [one]))

theorem BucketCall.Does.uses (does : call.Does key now a report actions) (under : call.Under r key) :
    ∀ action ∈ actions, action.Uses r := by
  cases call with
  | acquireTokens cost config mark => exact drawn_uses under.1 does
  | tryAdmitImmediately queueKey freezeKey cost config ttl mark => exact drawn_uses under.1 does
  | acquireMultiLimit specs => exact drawn_uses under.1 does
  | tryAdmitMultiLimit queueKey freezeKeys specs ttl => exact drawn_uses under.1 does
  | getTokenBucketState config =>
    cases does
    simp
  | refundTokens cost maxTokens freezeKey =>
    have ceiling := under.2.1 (cost, maxTokens) (by simp [credits])
    rcases does with rfl | rfl
    · simp
    · simpa [Action.Uses] using ceiling
  | releaseMultiLimit specs =>
    intro action member
    obtain ⟨spec, found, home, rfl⟩ := does action member
    refine under.2.1 (spec.cost, spec.config.maxTokens) ?_
    simp only [credits, List.mem_map, List.mem_filterMap]
    refine ⟨⟨spec.cost, spec.config, spec.mark, 86400⟩, ⟨_, found, ?_⟩, rfl⟩
    simp [MultiLimitSpec.draw, home]
  | emptyTokenBucket config =>
    cases does
    exact List.forall_mem_singleton.mpr under
  | resetTokenBucket maxTokens =>
    cases does
    exact List.forall_mem_singleton.mpr under
  | settleTokens specs =>
    obtain ⟨rfl, -⟩ := does
    intro action member
    obtain ⟨spec, found, rfl⟩ := List.mem_map.mp member
    exact under.2.2 spec found
  | touchClaimMark id ttlSeconds =>
    rcases does with rfl | ⟨ttl, rfl⟩
    · simp
    · simp [Action.Uses]
  | del keys =>
    cases does
    simp [Action.Uses]
  | elsewhere after =>
    cases does
    simp

theorem drawn_spent {admitted : Bool}
    (does : (call.draws key = [] ∧ actions = []) ∨ ∃ d, call.draws key = [d] ∧ Draws d admitted actions) :
    (if admitted then ((call.draws key).map fun d => d.cost.toRat).sum else 0) =
      (actions.map Action.spent).sum := by
  rcases does with ⟨none_, rfl⟩ | ⟨d, one, draws⟩
  · simp [none_]
  · rw [one]
    cases draws with
    | untouched => simp
    | declined normal => simp [Action.spent]
    | admitted normal made => simp [Action.spent]

/-- What a call is admitted for is what its actions spend. -/
theorem BucketCall.Does.spent (does : call.Does key now a (call.exec key now s).1 actions) :
    call.admitted key now s = (actions.map Action.spent).sum := by
  unfold BucketCall.admitted
  cases call with
  | acquireTokens cost config mark => exact drawn_spent does
  | tryAdmitImmediately queueKey freezeKey cost config ttl mark => exact drawn_spent does
  | acquireMultiLimit specs => exact drawn_spent does
  | tryAdmitMultiLimit queueKey freezeKeys specs ttl => exact drawn_spent does
  | getTokenBucketState config =>
    cases does
    rfl
  | refundTokens cost maxTokens freezeKey =>
    rcases does with rfl | rfl
    · simp [draws]
    · simp [draws, Action.spent]
  | releaseMultiLimit specs =>
    have nothing : (actions.map Action.spent).sum = 0 := by
      refine List.sum_eq_zero ?_
      intro x member
      obtain ⟨action, found, rfl⟩ := List.mem_map.mp member
      obtain ⟨spec, -, -, rfl⟩ := does action found
      rfl
    simp [draws, nothing]
  | emptyTokenBucket config =>
    cases does
    simp [draws, Action.spent]
  | resetTokenBucket maxTokens =>
    cases does
    simp [draws, Action.spent]
  | settleTokens specs =>
    obtain ⟨rfl, -⟩ := does
    have nothing : (((specs.filter fun spec => decide (spec.key = key)).map Action.settle).map Action.spent).sum = 0 := by
      refine List.sum_eq_zero ?_
      intro x member
      simp only [List.map_map, List.mem_map] at member
      obtain ⟨spec, -, rfl⟩ := member
      rfl
    simp only [draws, List.map_nil, List.sum_nil, ite_self, nothing]
  | touchClaimMark id ttlSeconds =>
    rcases does with rfl | ⟨ttl, rfl⟩
    · simp [draws]
    · simp [draws, Action.spent]
  | del keys =>
    cases does
    simp [draws, Action.spent]
  | elsewhere after =>
    cases does
    simp [draws]

/-- The account of a key that is not there, and has no marks. -/
def Book.blank (epochs : ℕ) : Book := ⟨none, fun _ => none, epochs⟩

/-- Ten tokens, five back every second. -/
def fivePerSecond : Rate := ⟨10, 5, 1000, by norm_num, by norm_num⟩

theorem Follows.absent (missing : s.live key now = none)
    (unmarked : ∀ id ∈ ids, s.live (claimMarkKey key id) now = none) :
    Follows key ids now s (Book.blank s.epochs).account :=
  ⟨missing, unmarked, le_rfl⟩

/-- A key that lasts does not lapse from the account either. -/
theorem Follows.lasting {t : ℚ} {b : Book} (follows : Follows key ids t s b.account) (lasts : s.Lasts key now) :
    (b.asOf now).purse = b.purse := by
  have at_ := follows.bucket
  have purse : b.account.bucket = b.purse.map Purse.bucket := rfl
  rw [purse] at at_
  simp only [Book.asOf]
  cases found : b.purse with
  | none => rfl
  | some p =>
    rw [found] at at_
    obtain ⟨h, ⟨e, live, -, lapses⟩, -⟩ := at_
    have alive := lasts e (State.live_eq_some.mp live).1
    simp only [Entry.expired, lapses, decide_eq_false_iff_not, not_le] at alive
    rw [Option.filter_some]
    exact if_pos (decide_eq_true alive)

end Calls

end Dianemo
