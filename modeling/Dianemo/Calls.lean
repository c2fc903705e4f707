import Dianemo.Follow

namespace Dianemo

open JsNumber

/-- A backend call as one bucket key sees it. `elsewhere` stands for whatever
other keys' traffic turns the store into. -/
inductive BucketCall where
  | acquireTokens (cost : JsNumber) (config : TokenBucketConfig) (mark : Option ClaimMark)
  | tryAdmitImmediately (queueKey freezeKey : String) (cost : JsNumber)
      (config : TokenBucketConfig) (ttl : JsNumber)
      (mark : Option ClaimMark)
  | acquireMultiLimit (specs : List MultiLimitSpec)
  | tryAdmitMultiLimit (queueKey : String) (freezeKeys : List String) (specs : List MultiLimitSpec) (ttl : JsNumber)
  | getTokenBucketState (config : TokenBucketConfig)
  | refundTokens (cost maxTokens : JsNumber) (freezeKey : Option String)
  | releaseMultiLimit (specs : List MultiLimitSpec)
  | emptyTokenBucket (config : TokenBucketConfig)
  | resetTokenBucket (maxTokens : JsNumber)
  | settleTokens (specs : List SettleSpec)
  | touchClaimMark (markId : String) (ttlSeconds : JsNumber)
  | del (keys : List String)
  | elsewhere (after : State)

/-- What the caller is told. A throw tells it nothing. -/
structure Report where
  admitted : Bool := false
  settled : List SettleResult := []

def Report.of {α : Type} (tell : α → Report) (result : Except RangeError α × State) : Report × State :=
  (match result.1 with
    | .ok a => tell a
    | .error _ => {}, result.2)

def State.del (s : State) (keys : List String) : State := keys.foldl State.delete s

namespace BucketCall

def exec (key : String) (now : ℚ) (s : State) : BucketCall → Report × State
  | .acquireTokens cost config mark =>
    Report.of (fun r => { admitted := r.acquired }) ((Dianemo.acquireTokens key cost config mark now).run s)
  | .tryAdmitImmediately queueKey freezeKey cost config ttl mark =>
    Report.of (fun r => { admitted := r })
      ((Dianemo.tryAdmitImmediately queueKey key freezeKey cost config ttl mark now).run s)
  | .acquireMultiLimit specs =>
    Report.of (fun r => { admitted := r.acquired }) ((Dianemo.acquireMultiLimit specs now).run s)
  | .tryAdmitMultiLimit queueKey freezeKeys specs ttl =>
    Report.of (fun r => { admitted := r }) ((Dianemo.tryAdmitMultiLimit queueKey freezeKeys specs ttl now).run s)
  | .getTokenBucketState _ => ({}, s)
  | .refundTokens cost maxTokens freezeKey =>
    Report.of (fun _ => {}) ((Dianemo.refundTokens key cost maxTokens freezeKey now).run s)
  | .releaseMultiLimit specs => Report.of (fun _ => {}) ((Dianemo.releaseMultiLimit specs now).run s)
  | .emptyTokenBucket config => Report.of (fun _ => {}) ((Dianemo.emptyTokenBucket key config now).run s)
  | .resetTokenBucket maxTokens => Report.of (fun _ => {}) ((Dianemo.resetTokenBucket key maxTokens now).run s)
  | .settleTokens specs => Report.of (fun r => { settled := r }) ((Dianemo.settleTokens now specs).run s)
  | .touchClaimMark markId ttlSeconds =>
    Report.of (fun _ => {}) ((Dianemo.touchClaimMark key markId ttlSeconds now).run s)
  | .del keys => ({}, s.del keys)
  | .elsewhere after => ({}, after)

end BucketCall

/-- One claim on the bucket. -/
structure Draw where
  cost : JsNumber
  config : TokenBucketConfig
  mark : Option ClaimMark
  ttl : JsNumber

def MultiLimitSpec.draw (key : String) (ttl : JsNumber) : MultiLimitSpec → Option Draw
  | .tokenBucket spec => if spec.key = key then some ⟨spec.cost, spec.config, spec.mark, ttl⟩ else none
  | .concurrency _ => none

namespace BucketCall

/-- The claims a call makes on the bucket `key`. -/
def draws (key : String) : BucketCall → List Draw
  | .acquireTokens cost config mark => [⟨cost, config, mark, 86400⟩]
  | .tryAdmitImmediately _ _ cost config ttl mark => [⟨cost, config, mark, ttl⟩]
  | .acquireMultiLimit specs => specs.filterMap (MultiLimitSpec.draw key 86400)
  | .tryAdmitMultiLimit _ _ specs ttl => specs.filterMap (MultiLimitSpec.draw key ttl)
  | _ => []

/-- The claims a call returns to the bucket `key`: each cost with the ceiling it is clamped to. -/
def credits (key : String) : BucketCall → List (JsNumber × JsNumber)
  | .refundTokens cost maxTokens _ => [(cost, maxTokens)]
  | .releaseMultiLimit specs =>
    (specs.filterMap (MultiLimitSpec.draw key 86400)).map fun d => (d.cost, d.config.maxTokens)
  | _ => []

/-- The marks a call settles on the bucket `key`. -/
def settles (key : String) : BucketCall → List SettleSpec
  | .settleTokens specs => specs.filter fun spec => decide (spec.key = key)
  | _ => []

end BucketCall

/-- The budgets of a claim have distinct keys, and none but a bucket under
`key` itself comes near the watched keys. -/
def SpecsApart (key : String) (ids : Set String) (specs : List MultiLimitSpec) : Prop :=
  (specs.map MultiLimitSpec.key).Nodup ∧
    ∀ spec ∈ specs, (∃ b, spec = .tokenBucket b ∧ b.key = key) ∨ ∀ k ∈ spec.footprint, k ∉ watch key ids

/-- The call reaches the watched keys only through the bucket `key`. -/
def BucketCall.Apart (key : String) (ids : Set String) (now : ℚ) (s : State) : BucketCall → Prop
  | .acquireMultiLimit specs => SpecsApart key ids specs
  | .tryAdmitMultiLimit _ _ specs _ => SpecsApart key ids specs
  | .releaseMultiLimit specs =>
    ∀ spec ∈ specs, (∃ b, spec = .tokenBucket b ∧ b.key = key) ∨ ∀ k ∈ spec.home, k ∉ watch key ids
  | .settleTokens specs => ∀ spec ∈ specs, (spec.key = key ∧ spec.markId ∈ ids) ∨
      (spec.key ∉ watch key ids ∧ claimMarkKey spec.key spec.markId ∉ watch key ids)
  | .elsewhere after => Keeps (watch key ids) now s after
  | _ => True

/-- What one claim can come to. -/
inductive Draws (d : Draw) : Bool → List Action → Prop
  | untouched : Draws d false []
  | declined {ttl} : normalizeStateTtlSeconds d.ttl = .ok ttl → Draws d false [.touch d.config ttl]
  | admitted {ttl claim epoch} : normalizeStateTtlSeconds d.ttl = .ok ttl → claimMark d.mark = .ok claim →
      Draws d true [.spend d.config d.cost ttl claim epoch]

theorem mem_watch_self (key : String) (ids : Set String) : key ∈ watch key ids := Or.inl rfl

theorem usable_free {cost : JsNumber} {config : TokenBucketConfig} (usable : unusableBudget cost config = none) :
    unusableBudget 0 config = none := by
  obtain ⟨maxTokens, interval, amount, atMax, positive, atInterval, -, -, rate⟩ := unusableBudget_none.mp usable
  exact unusableBudget_none.mpr ⟨maxTokens, interval, 0, atMax, positive, atInterval, zero_eq, le_rfl, rate⟩

section Claims

variable {key : String} {ids : Set String} {now : ℚ} {s : State} {a : Account}

/-- The store after an operation follows the account after some actions. -/
def Performs (key : String) (ids : Set String) (now : ℚ) (a : Account) (s' : State)
    (actions : List Action) : Prop :=
  ∃ a', Trail now a actions a' ∧ Follows key ids now s' a'

theorem Follows.performs_nothing (follows : Follows key ids now s a) : Performs key ids now a s [] :=
  ⟨a, .done, follows⟩

theorem Follows.performs_touch (follows : Follows key ids now s a) {ttl : ℚ} (whole : WholeTtl ttl)
    {config : TokenBucketConfig} (usable : unusableBudget 0 config = none) :
    Performs key ids now a
      (s.putFields key now (Dianemo.refill s key config now).fields (bucketTtl ttl config).toRat) [.touch config ttl] :=
  ⟨_, .single ⟨whole, usable⟩, follows.touch whole usable⟩

theorem Follows.performs_spend (follows : Follows key ids now s a) {ttl : ℚ}
    (whole : WholeTtl ttl) {cost : JsNumber}
    {config : TokenBucketConfig} (usable : unusableBudget cost config = none)
    (covers : coversCost (Dianemo.refill s key config now).tokens cost config.maxTokens = true)
    {mark : Option (String × ℚ)} (marked : ∀ claim ∈ mark, WholeTtl claim.2) :
    Performs key ids now a
      (s.spend key (Dianemo.refill s key config now) cost (bucketTtl ttl config).toRat mark now)
      [.spend config cost ttl mark (s.epochs + 1)] := by
  refine ⟨_, .single ⟨whole, usable, ?_, marked, Nat.lt_succ_of_le follows.epochs⟩,
    follows.spent whole usable marked⟩
  rw [← follows.refill]
  exact covers

theorem Performs.keeps {s' s'' : State} {actions : List Action} (performs : Performs key ids now a s' actions)
    (keeps : Keeps (watch key ids) now s' s'') : Performs key ids now a s'' actions := by
  obtain ⟨a', trail, follows⟩ := performs
  exact ⟨a', trail, follows.keeps keeps⟩

theorem claimMark_all_whole {mark : Option ClaimMark} {made : Option (String × ℚ)}
    (run : claimMark mark = .ok made) : ∀ claim ∈ made, WholeTtl claim.2 := by
  intro claim member
  rw [Option.mem_def.mp member] at run
  exact claimMark_whole run

theorem Follows.acquireTokens (follows : Follows key ids now s a) (cost : JsNumber) (config : TokenBucketConfig)
    (mark : Option ClaimMark) :
    ∃ actions, Performs key ids now a ((BucketCall.acquireTokens cost config mark).exec key now s).2 actions ∧
      Draws ⟨cost, config, mark, 86400⟩ ((BucketCall.acquireTokens cost config mark).exec key now s).1.admitted
        actions := by
  simp only [BucketCall.exec, Dianemo.acquireTokens]
  cases made : claimMark mark with
  | error e =>
    rw [Op.run_bind_error (Op.run_lift _ _)]
    exact ⟨[], follows.performs_nothing, .untouched⟩
  | ok claim =>
    rw [Op.run_bind_ok (Op.run_lift _ _)]
    cases usable : unusableBudget cost config with
    | some error => exact ⟨[], follows.performs_nothing, .untouched⟩
    | none =>
      simp only
      rw [Op.run_bind_ok (Op.run_read s)]
      by_cases covers : coversCost (Dianemo.refill s key config now).tokens cost config.maxTokens = true
      · obtain ⟨lives, sized⟩ := bucketTtl_sized WholeTtl.day usable
        have marked := claimMark_all_whole made
        simp only [if_pos covers, ofNat_eq]
        rw [Op.run_bind_ok (spendTokens_run lives sized marked _ _ _ _ _)]
        exact ⟨_, follows.performs_spend WholeTtl.day usable covers marked,
          .admitted normalizeStateTtlSeconds_day made⟩
      · obtain ⟨lives, sized⟩ := bucketTtl_sized WholeTtl.day usable
        simp only [if_neg covers, ofNat_eq]
        rw [Op.run_bind_ok (writeBucket_run lives (some config) sized _ _ _ _)]
        exact ⟨_, follows.performs_touch WholeTtl.day (usable_free usable), .declined normalizeStateTtlSeconds_day⟩

theorem Follows.tryAdmitImmediately (follows : Follows key ids now s a)
    (queueKey freezeKey : String) (cost : JsNumber)
    (config : TokenBucketConfig) (ttl : JsNumber) (mark : Option ClaimMark) :
    ∃ actions, Performs key ids now a
        ((BucketCall.tryAdmitImmediately queueKey freezeKey cost config ttl mark).exec key now s).2 actions ∧
      Draws ⟨cost, config, mark, ttl⟩
        ((BucketCall.tryAdmitImmediately queueKey freezeKey cost config ttl mark).exec key now s).1.admitted
        actions := by
  simp only [BucketCall.exec, Dianemo.tryAdmitImmediately]
  cases normal : normalizeStateTtlSeconds ttl with
  | error e =>
    rw [Op.run_bind_error (Op.run_lift _ _)]
    exact ⟨[], follows.performs_nothing, .untouched⟩
  | ok keyTtl =>
    have whole := normalizeStateTtlSeconds_whole normal
    rw [Op.run_bind_ok (Op.run_lift _ _)]
    cases made : claimMark mark with
    | error e =>
      rw [Op.run_bind_error (Op.run_lift _ _)]
      exact ⟨[], follows.performs_nothing, .untouched⟩
    | ok claim =>
      rw [Op.run_bind_ok (Op.run_lift _ _), Op.run_bind_ok (Op.run_read s)]
      split
      · exact ⟨[], follows.performs_nothing, .untouched⟩
      · rename_i open_
        rw [not_or, Bool.not_eq_true, Option.isSome_eq_false_iff, Option.isNone_iff_eq_none] at open_
        have usable := open_.1
        obtain ⟨lives, sized⟩ := bucketTtl_sized whole usable
        by_cases covers : coversCost (Dianemo.refill s key config now).tokens cost config.maxTokens = true
        · have marked := claimMark_all_whole made
          simp only [if_pos covers]
          rw [Op.run_bind_ok (spendTokens_run lives sized marked _ _ _ _ _)]
          exact ⟨_, follows.performs_spend whole usable covers marked, .admitted normal made⟩
        · simp only [if_neg covers]
          rw [Op.run_bind_ok (writeBucket_run lives (some config) sized _ _ _ _)]
          exact ⟨_, follows.performs_touch whole (usable_free usable), .declined normal⟩

theorem draw_of_avoid {spec : MultiLimitSpec} (avoid : ∀ k ∈ spec.footprint, k ∉ watch key ids) (ttl : JsNumber) :
    spec.draw key ttl = none := by
  cases spec with
  | tokenBucket b =>
    have ne : b.key ≠ key := by
      intro same
      refine avoid b.key ?_ (same ▸ mem_watch_self key ids)
      simp [MultiLimitSpec.footprint]
    simp [MultiLimitSpec.draw, ne]
  | concurrency c => rfl

theorem draws_of_avoid {specs : List MultiLimitSpec}
    (avoid : ∀ spec ∈ specs, ∀ k ∈ spec.footprint, k ∉ watch key ids)
    (ttl : JsNumber) : specs.filterMap (MultiLimitSpec.draw key ttl) = [] := by
  rw [List.filterMap_eq_nil_iff]
  exact fun spec member => draw_of_avoid (avoid spec member) ttl

/-- Budgets with distinct keys draw on the bucket at most once. -/
theorem SpecsApart.split {specs : List MultiLimitSpec} (apart : SpecsApart key ids specs) :
    (∀ spec ∈ specs, ∀ k ∈ spec.footprint, k ∉ watch key ids) ∨
      ∃ early b late, specs = early ++ .tokenBucket b :: late ∧ b.key = key ∧
        ∀ spec ∈ early ++ late, ∀ k ∈ spec.footprint, k ∉ watch key ids := by
  obtain ⟨distinct, each⟩ := apart
  by_cases home : ∃ b, MultiLimitSpec.tokenBucket b ∈ specs ∧ b.key = key
  · right
    obtain ⟨b, member, same⟩ := home
    obtain ⟨early, late, rfl⟩ := List.append_of_mem member
    refine ⟨early, b, late, rfl, same, ?_⟩
    intro spec found
    have inside : spec ∈ early ++ MultiLimitSpec.tokenBucket b :: late := by
      rcases List.mem_append.mp found with left | right
      · exact List.mem_append_left _ left
      · exact List.mem_append_right _ (List.mem_cons_of_mem _ right)
    refine (each spec inside).resolve_left ?_
    rintro ⟨other, rfl, again⟩
    rw [List.map_append, List.map_cons, List.nodup_middle, List.nodup_cons, ← List.map_append] at distinct
    exact distinct.1 (List.mem_map.mpr ⟨_, found, again.trans same.symm⟩)
  · left
    intro spec member
    refine (each spec member).resolve_left ?_
    rintro ⟨b, rfl, same⟩
    exact home ⟨b, member, same⟩

theorem draws_of_split {early late : List MultiLimitSpec} {b : TokenBucketSpec} (home : b.key = key)
    (away : ∀ spec ∈ early ++ late, ∀ k ∈ spec.footprint, k ∉ watch key ids) (ttl : JsNumber) :
    (early ++ .tokenBucket b :: late).filterMap (MultiLimitSpec.draw key ttl) =
      [⟨b.cost, b.config, b.mark, ttl⟩] := by
  rw [List.forall_mem_append] at away
  rw [List.filterMap_append, List.filterMap_cons, draws_of_avoid away.1, draws_of_avoid away.2]
  simp [MultiLimitSpec.draw, home]

theorem SpecsApart.untouched {specs : List MultiLimitSpec} (apart : SpecsApart key ids specs) (ttl : JsNumber) :
    (specs.filterMap (MultiLimitSpec.draw key ttl) = [] ∧ ([] : List Action) = []) ∨
      ∃ d, specs.filterMap (MultiLimitSpec.draw key ttl) = [d] ∧ Draws d false [] := by
  rcases apart.split with away | ⟨early, b, late, rfl, home, away⟩
  · exact Or.inl ⟨draws_of_avoid away ttl, rfl⟩
  · exact Or.inr ⟨_, draws_of_split home away ttl, .untouched⟩

/-- One attempt at several budgets, as the bucket sees it. -/
theorem Follows.attempt (follows : Follows key ids now s a) {specs : List MultiLimitSpec}
    (apart : SpecsApart key ids specs) {claims : List ClaimSpec} (made : claimMarks specs = .ok claims)
    {ttlSeconds : JsNumber} {ttl : ℚ} (normal : normalizeStateTtlSeconds ttlSeconds = .ok ttl) {admitted : Bool}
    {s' : State} (attempt : Attempt claims ttl now s admitted s') :
    ∃ actions, Performs key ids now a s' actions ∧
      ((specs.filterMap (MultiLimitSpec.draw key ttlSeconds) = [] ∧ actions = []) ∨
        ∃ d, specs.filterMap (MultiLimitSpec.draw key ttlSeconds) = [d] ∧ Draws d admitted actions) := by
  obtain ⟨same, normals⟩ := claimMarks_normal made
  have whole := normalizeStateTtlSeconds_whole normal
  rcases apart.split with away | ⟨early, b, late, split, home, away⟩
  · refine ⟨[], follows.performs_nothing.keeps (attempt.keeps normals ?_), Or.inl ⟨draws_of_avoid away _, rfl⟩⟩
    intro c member
    rw [← same] at away
    exact away c.spec (List.mem_map_of_mem member)
  · rw [split] at same
    obtain ⟨before, after, rfl, mapped, rest⟩ := List.map_eq_append_iff.mp same
    obtain ⟨c, others, rfl, here, mappedLate⟩ := List.map_eq_cons_iff.mp rest
    cases c with
    | concurrency c => cases here
    | tokenBucket b' mark =>
      cases here
      have avoid : ∀ other ∈ before ++ others, ∀ k ∈ other.spec.footprint, k ∉ watch key ids := by
        intro other member
        refine away other.spec ?_
        rw [← mapped, ← mappedLate, ← List.map_append]
        exact List.mem_map_of_mem member
      have focus := attempt.focus normals (home ▸ mem_watch_self key ids) avoid
      have drawn := draws_of_split home away ttlSeconds
      rw [← split] at drawn
      have marked : claimMark b.mark = .ok mark := normals _ (List.mem_append_right _ List.mem_cons_self)
      subst home
      cases focus with
      | skipped keeps => exact ⟨[], follows.performs_nothing.keeps keeps, Or.inr ⟨_, drawn, .untouched⟩⟩
      | planned usable first rest =>
        exact ⟨[], follows.performs_nothing.keeps (first.trans rest), Or.inr ⟨_, drawn, .untouched⟩⟩
      | refused usable first rest last =>
        have there := follows.keeps (first.trans rest)
        exact ⟨_, (there.performs_touch whole (usable_free usable)).keeps last,
          Or.inr ⟨_, drawn, .declined normal⟩⟩
      | @admitted s₁ s₂ _ usable first fits rest last =>
        have there := follows.keeps (first.trans rest)
        have covers : coversCost (Dianemo.refill s₂ b.key b.config now).tokens b.cost b.config.maxTokens = true := by
          rw [rest.refill (mem_watch_self b.key ids)]
          exact fits
        exact ⟨_, (there.performs_spend whole usable covers (claimMark_all_whole marked)).keeps last,
          Or.inr ⟨_, drawn, .admitted normal marked⟩⟩

theorem Follows.creditTokens (follows : Follows key ids now s a) (cost maxTokens : JsNumber)
    (freezeKey : Option String) :
    Performs key ids now a (Dianemo.creditTokens s key cost maxTokens freezeKey now) [] ∨
      Performs key ids now a (Dianemo.creditTokens s key cost maxTokens freezeKey now) [.credit cost maxTokens] := by
  unfold Dianemo.creditTokens
  split
  · exact Or.inl follows.performs_nothing
  · rename_i usable
    split
    · exact Or.inl follows.performs_nothing
    · have at_ := follows.bucket
      cases found : a.bucket with
      | none =>
        rw [found] at at_
        rw [hget_of_absent at_]
        exact Or.inl follows.performs_nothing
      | some b =>
        rw [found] at at_
        obtain ⟨h, is, reads⟩ := at_.hget
        simp only [reads, is.tokens, parseFiniteStored_num]
        exact Or.inr ⟨_, .single (not_not.mp usable), follows.credit cost maxTokens found⟩

theorem Follows.releaseSpecs (follows : Follows key ids now s a) {specs : List MultiLimitSpec}
    (apart : ∀ spec ∈ specs, (∃ b, spec = .tokenBucket b ∧ b.key = key) ∨ ∀ k ∈ spec.home, k ∉ watch key ids) :
    ∃ actions, Performs key ids now a (specs.foldl (fun s spec => releaseSpec s spec now) s) actions ∧
      ∀ action ∈ actions, ∃ spec, MultiLimitSpec.tokenBucket spec ∈ specs ∧ spec.key = key ∧
        action = .credit spec.cost spec.config.maxTokens := by
  induction specs generalizing s a with
  | nil => exact ⟨[], follows.performs_nothing, by simp⟩
  | cons spec rest ih =>
    rw [List.forall_mem_cons] at apart
    have head : ∃ actions, Performs key ids now a (releaseSpec s spec now) actions ∧ ∀ action ∈ actions,
        ∃ b, spec = .tokenBucket b ∧ b.key = key ∧ action = .credit b.cost b.config.maxTokens := by
      rcases apart.1 with ⟨b, rfl, rfl⟩ | away
      · rcases follows.creditTokens b.cost b.config.maxTokens b.freezeKey with none_ | one
        · exact ⟨[], none_, by simp⟩
        · exact ⟨_, one, by simp⟩
      · refine ⟨[], follows.performs_nothing.keeps ?_, by simp⟩
        cases spec with
        | tokenBucket b => exact Keeps.creditTokens (away _ (by simp [MultiLimitSpec.home])) s _ _ _
        | concurrency c =>
          exact Keeps.releaseSlot (away _ (by simp [MultiLimitSpec.home]))
            (away _ (by simp [MultiLimitSpec.home])) s _
    obtain ⟨first, ⟨a', trail, follows'⟩, named⟩ := head
    obtain ⟨second, ⟨a'', trail', follows''⟩, named'⟩ := ih follows' apart.2
    refine ⟨first ++ second, ⟨a'', trail.append trail', follows''⟩, ?_⟩
    intro action member
    rcases List.mem_append.mp member with here | later
    · obtain ⟨b, rfl, home, same⟩ := named action here
      exact ⟨b, List.mem_cons_self, home, same⟩
    · obtain ⟨b, found, home, same⟩ := named' action later
      exact ⟨b, List.mem_cons_of_mem _ found, home, same⟩

theorem Follows.emptyTokenBucket (follows : Follows key ids now s a) (config : TokenBucketConfig) :
    Performs key ids now a ((BucketCall.emptyTokenBucket config).exec key now s).2 [.empty config] := by
  have sized : WholeTtl (emptiedTtl config) ∧ normalizeTtlSeconds ((if (unusableBudget 0 config).isSome then none
      else some config : Option TokenBucketConfig).elim 86400 (bucketTtl 86400)) = .ok (emptiedTtl config) := by
    unfold emptiedTtl
    split
    · exact ⟨WholeTtl.day, WholeTtl.day.normalize⟩
    · rename_i usable
      rw [Bool.not_eq_true, Option.isSome_eq_false_iff, Option.isNone_iff_eq_none] at usable
      exact bucketTtl_sized WholeTtl.day usable
  obtain ⟨s', run, after⟩ := follows.overwrite sized.1 _ sized.2
    ((a.bucket.elim 0 fun b => b.state.tokens.orElse 0).min 0)
  refine ⟨_, .single trivial, ?_⟩
  simp only [BucketCall.exec, Dianemo.emptyTokenBucket]
  rw [Op.run_bind_ok (Op.run_read s)]
  simp only [follows.bucket.counters.2.2]
  rw [run]
  exact after

theorem Follows.resetTokenBucket (follows : Follows key ids now s a) (maxTokens : JsNumber) :
    Performs key ids now a ((BucketCall.resetTokenBucket maxTokens).exec key now s).2 [.reset maxTokens] := by
  obtain ⟨s', run, after⟩ := follows.overwrite WholeTtl.day none WholeTtl.day.normalize maxTokens
  refine ⟨_, .single trivial, ?_⟩
  simp only [BucketCall.exec, Dianemo.resetTokenBucket, run]
  exact after

/-- A settlement always answers, and one not made leaves the store as it was. -/
theorem settleSpec_keeps {W : Set String} {spec : SettleSpec} (avoid : spec.key ∉ W)
    (avoidMark : claimMarkKey spec.key spec.markId ∉ W) (now : ℚ) (s : State) :
    ∃ result s', (settleSpec spec now).run s = (.ok result, s') ∧ result.key = spec.key ∧
      (result.settled = false → s' = s) ∧ Keeps W now s s' := by
  rw [settleSpec, Op.run_bind_ok (Op.run_read s)]
  cases s.hash (claimMarkKey spec.key spec.markId) now with
  | none => exact ⟨_, s, rfl, rfl, fun _ => rfl, Keeps.refl W now s⟩
  | some mark =>
    simp only
    split
    · exact ⟨_, s, rfl, rfl, fun _ => rfl, Keeps.refl W now s⟩
    · rename_i acts
      obtain ⟨-, -, usable⟩ := Account.settleable_iff.mp (decide_eq_true acts)
      obtain ⟨lives, sized⟩ := bucketTtl_sized WholeTtl.day usable
      have consumed : Keeps W now s (s.delete (claimMarkKey spec.key spec.markId)) := Keeps.delete avoidMark s
      rw [Op.run_bind_ok (Op.run_modify _ _), applySettlement, Op.run_bind_ok (Op.run_read _)]
      cases (s.delete (claimMarkKey spec.key spec.markId)).hget spec.key "tokens" now with
      | none => exact ⟨_, _, rfl, rfl, by simp, consumed⟩
      | some tokens =>
        simp only [ofNat_eq]
        rw [Op.run_bind_ok (writeBucket_run lives (some spec.config) sized _ _ _ _),
          Op.run_bind_ok (Op.run_modify _ _)]
        exact ⟨_, _, rfl, rfl, by simp, (consumed.trans (Keeps.putFields avoid _ _ _)).trans (Keeps.setFields avoid _ _)⟩

theorem Follows.settleTokens (follows : Follows key ids now s a) {specs : List SettleSpec}
    (apart : ∀ spec ∈ specs, (spec.key = key ∧ spec.markId ∈ ids) ∨
      (spec.key ∉ watch key ids ∧ claimMarkKey spec.key spec.markId ∉ watch key ids)) :
    ∃ results s', (Dianemo.settleTokens now specs).run s = (.ok results, s') ∧
      (results.filter fun result => decide (result.key = key)) =
        (Account.settleAll now (specs.filter fun spec => decide (spec.key = key)) a).1 ∧
      Follows key ids now s' (Account.settleAll now (specs.filter fun spec => decide (spec.key = key)) a).2 := by
  induction specs generalizing s a with
  | nil => exact ⟨[], s, rfl, rfl, follows⟩
  | cons spec rest ih =>
    rw [List.forall_mem_cons] at apart
    rcases apart.1 with ⟨home, member⟩ | ⟨away, awayMark⟩
    · obtain ⟨s', run, after⟩ := follows.settle home member
      obtain ⟨results, s'', run', same, after'⟩ := ih after apart.2
      have named := (a.settle_key spec now).trans home
      refine ⟨(a.settle spec now).1 :: results, s'', ?_, ?_, ?_⟩
      · rw [Dianemo.settleTokens, Op.run_bind_ok run, Op.run_bind_ok run']
        rfl
      · rw [List.filter_cons_of_pos (by simpa using named), List.filter_cons_of_pos (by simpa using home), same]
        rfl
      · rw [List.filter_cons_of_pos (by simpa using home)]
        exact after'
    · obtain ⟨result, s', run, named, -, keeps⟩ := settleSpec_keeps away awayMark now s
      obtain ⟨results, s'', run', same, after⟩ := ih (follows.keeps keeps) apart.2
      have foreign : ¬ spec.key = key := fun home => away (home ▸ mem_watch_self key ids)
      refine ⟨result :: results, s'', ?_, ?_, ?_⟩
      · rw [Dianemo.settleTokens, Op.run_bind_ok run, Op.run_bind_ok run']
        rfl
      · rw [List.filter_cons_of_neg (by simpa [named] using foreign),
          List.filter_cons_of_neg (by simpa using foreign), same]
      · rw [List.filter_cons_of_neg (by simpa using foreign)]
        exact after

theorem Follows.touchClaimMark (follows : Follows key ids now s a) (id : String) (ttlSeconds : JsNumber) :
    ∃ actions, Performs key ids now a ((BucketCall.touchClaimMark id ttlSeconds).exec key now s).2 actions ∧
      (actions = [] ∨ ∃ ttl, actions = [.prolong id ttl]) := by
  simp only [BucketCall.exec, Dianemo.touchClaimMark]
  cases normal : normalizeStateTtlSeconds ttlSeconds with
  | error e =>
    rw [Op.run_bind_error (Op.run_lift _ _)]
    exact ⟨[], follows.performs_nothing, Or.inl rfl⟩
  | ok ttl =>
    have whole := normalizeStateTtlSeconds_whole normal
    rw [Op.run_bind_ok (Op.run_lift _ _), Op.run_bind_ok (Op.run_read s)]
    cases found : s.live (claimMarkKey key id) now with
    | none => exact ⟨[], follows.performs_nothing, Or.inl rfl⟩
    | some e =>
      simp only [Option.isNone_some, Bool.false_eq_true, if_false]
      rw [Op.run_bind_ok (expire_put whole found)]
      have elsewhere : ∀ k, k ≠ claimMarkKey key id →
          (s.put (claimMarkKey key id) { e with expiresAt := some (now + ttl * 1000) }).live k now = s.live k now :=
        fun k ne => State.live_congr (State.put_store_ne ne) now
      by_cases member : id ∈ ids
      · have at_ := follows.marks id member
        refine ⟨[.prolong id ttl], ⟨_, .single whole, follows.remark ?_ elsewhere le_rfl⟩, Or.inr ⟨ttl, rfl⟩⟩
        cases marked : a.marks id with
        | none =>
          rw [marked] at at_
          exact absurd (found.symm.trans at_) (by simp)
        | some m =>
          rw [marked] at at_
          obtain ⟨h, ⟨e', live, hash, lapses⟩, is⟩ := at_
          cases Option.some.inj (found.symm.trans live)
          refine ⟨h, ⟨_, State.live_put_self (expired_of_lt rfl ?_), hash, rfl⟩,
            ⟨is.claimed, is.overflow, is.fills, is.generation, is.forgiven, is.epoch⟩⟩
          have positive := whole.pos
          linarith
      · refine ⟨[], follows.performs_nothing.keeps ⟨?_, le_rfl⟩, Or.inl rfl⟩
        intro k watched
        refine elsewhere k ?_
        rintro rfl
        rcases watched with same | ⟨other, inside, same⟩
        · exact claimMarkKey_ne key id same
        · exact member (claimMarkKey_inj.mp same ▸ inside)

theorem live_del (s : State) (keys : List String) (k : String) (now : ℚ) :
    (s.del keys).live k now = if k ∈ keys then none else s.live k now := by
  induction keys generalizing s with
  | nil => rfl
  | cons head rest ih =>
    have step := ih (s.delete head)
    by_cases same : k = head
    · subst same
      rw [State.live_delete_self, ite_self] at step
      simpa [State.del] using step
    · rw [State.live_congr (State.delete_store_ne same)] at step
      simpa [State.del, same] using step

theorem del_epochs (s : State) (keys : List String) : (s.del keys).epochs = s.epochs := by
  induction keys generalizing s with
  | nil => rfl
  | cons head rest ih => exact ih (s.delete head)

theorem Follows.del (follows : Follows key ids now s a) (keys : List String) :
    Performs key ids now a (s.del keys)
      [.drop (decide (key ∈ keys)) fun id => decide (claimMarkKey key id ∈ keys)] := by
  refine ⟨_, .single trivial, ⟨?_, ?_, ?_⟩⟩
  · by_cases gone : key ∈ keys
    · simp only [Action.apply, gone, decide_true, if_true]
      exact (live_del s keys key now).trans (if_pos gone)
    · simp only [Action.apply, gone, decide_false, Bool.false_eq_true, if_false]
      exact follows.bucket.congr ((live_del s keys key now).trans (if_neg gone))
  · intro id member
    by_cases gone : claimMarkKey key id ∈ keys
    · simp only [Action.apply, gone, decide_true, if_true]
      exact (live_del s keys _ now).trans (if_pos gone)
    · simp only [Action.apply, gone, decide_false, Bool.false_eq_true, if_false]
      exact (follows.marks id member).congr ((live_del s keys _ now).trans (if_neg gone))
  · rw [del_epochs]
    exact follows.epochs

/-- The actions a call may have taken, given what it reports. -/
def BucketCall.Does (key : String) (now : ℚ) (a : Account) (report : Report) (actions : List Action) :
    BucketCall → Prop
  | .refundTokens cost maxTokens _ => actions = [] ∨ actions = [.credit cost maxTokens]
  | .releaseMultiLimit specs => ∀ action ∈ actions, ∃ spec, MultiLimitSpec.tokenBucket spec ∈ specs ∧
      spec.key = key ∧ action = .credit spec.cost spec.config.maxTokens
  | .emptyTokenBucket config => actions = [.empty config]
  | .resetTokenBucket maxTokens => actions = [.reset maxTokens]
  | .settleTokens specs => actions = (specs.filter fun spec => decide (spec.key = key)).map .settle ∧
      (report.settled.filter fun result => decide (result.key = key)) =
        (Account.settleAll now (specs.filter fun spec => decide (spec.key = key)) a).1
  | .touchClaimMark id _ => actions = [] ∨ ∃ ttl, actions = [.prolong id ttl]
  | .del keys => actions = [.drop (decide (key ∈ keys)) fun id => decide (claimMarkKey key id ∈ keys)]
  | .getTokenBucketState _ => actions = []
  | .elsewhere _ => actions = []
  | call => (call.draws key = [] ∧ actions = []) ∨ ∃ d, call.draws key = [d] ∧ Draws d report.admitted actions

/-- Every call is a chain of actions on the account. -/
theorem Follows.call (follows : Follows key ids now s a) {call : BucketCall} (apart : call.Apart key ids now s) :
    ∃ actions, Performs key ids now a (call.exec key now s).2 actions ∧
      call.Does key now a (call.exec key now s).1 actions := by
  cases call with
  | acquireTokens cost config mark =>
    obtain ⟨actions, performs, draws⟩ := follows.acquireTokens cost config mark
    exact ⟨actions, performs, Or.inr ⟨_, rfl, draws⟩⟩
  | tryAdmitImmediately queueKey freezeKey cost config ttl mark =>
    obtain ⟨actions, performs, draws⟩ := follows.tryAdmitImmediately queueKey freezeKey cost config ttl mark
    exact ⟨actions, performs, Or.inr ⟨_, rfl, draws⟩⟩
  | acquireMultiLimit specs =>
    rcases acquireMultiLimit_run specs now s with ⟨e, run⟩ | ⟨claims, result, s', made, run, attempt⟩
    · simp only [BucketCall.exec, run]
      exact ⟨[], follows.performs_nothing, apart.untouched 86400⟩
    · simp only [BucketCall.exec, run]
      exact follows.attempt apart made normalizeStateTtlSeconds_day attempt
  | tryAdmitMultiLimit queueKey freezeKeys specs ttl =>
    rcases tryAdmitMultiLimit_run queueKey freezeKeys specs ttl now s with
      ⟨e, run⟩ | run | ⟨keyTtl, claims, admitted, s', normal, made, run, attempt⟩
    · simp only [BucketCall.exec, run]
      exact ⟨[], follows.performs_nothing, apart.untouched ttl⟩
    · simp only [BucketCall.exec, run]
      exact ⟨[], follows.performs_nothing, apart.untouched ttl⟩
    · simp only [BucketCall.exec, run]
      exact follows.attempt apart made normal attempt
  | getTokenBucketState config => exact ⟨[], follows.performs_nothing, rfl⟩
  | refundTokens cost maxTokens freezeKey =>
    rcases follows.creditTokens cost maxTokens freezeKey with none_ | one
    · exact ⟨[], none_, Or.inl rfl⟩
    · exact ⟨_, one, Or.inr rfl⟩
  | releaseMultiLimit specs => exact follows.releaseSpecs apart
  | emptyTokenBucket config => exact ⟨_, follows.emptyTokenBucket config, rfl⟩
  | resetTokenBucket maxTokens => exact ⟨_, follows.resetTokenBucket maxTokens, rfl⟩
  | settleTokens specs =>
    obtain ⟨results, s', run, same, after⟩ := follows.settleTokens apart
    simp only [BucketCall.exec, run]
    exact ⟨_, ⟨_, Trail.settleAll now _ a, after⟩, rfl, same⟩
  | touchClaimMark id ttlSeconds => exact follows.touchClaimMark id ttlSeconds
  | del keys => exact ⟨_, follows.del keys, rfl⟩
  | elsewhere after => exact ⟨[], follows.performs_nothing.keeps apart, rfl⟩

end Claims

end Dianemo
