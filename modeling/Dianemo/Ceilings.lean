import Dianemo.Metered
import Dianemo.Purse
import Dianemo.Slots

namespace Dianemo

open JsNumber

section Limits

variable {limits : List NamedRateLimitData} {limit : NamedRateLimitData} {seen : List String}

theorem entriesProblem_none (accepted : entriesProblem seen limits = none) :
    (∀ limit ∈ limits, rateLimitNameTest limit.name = true ∧ limit.data.problem = none ∧ limit.name ∉ seen) ∧
      (limits.map NamedRateLimitData.name).Nodup := by
  induction limits generalizing seen with
  | nil => exact ⟨fun _ member => absurd member List.not_mem_nil, List.nodup_nil⟩
  | cons limit rest ih =>
    unfold entriesProblem at accepted
    split_ifs at accepted with named fresh
    rw [Option.or_eq_none_iff] at accepted
    obtain ⟨others, distinct⟩ := ih accepted.2
    constructor
    · rw [List.forall_mem_cons]
      refine ⟨⟨named, accepted.1, fresh⟩, ?_⟩
      intro other member
      obtain ⟨test, fine, unseen⟩ := others other member
      exact ⟨test, fine, fun found => unseen (List.mem_cons_of_mem _ found)⟩
    · rw [List.map_cons, List.nodup_cons]
      refine ⟨?_, distinct⟩
      intro again
      obtain ⟨other, member, same⟩ := List.mem_map.mp again
      exact (others other member).2.2 (by rw [same]; exact List.mem_cons_self)

/-- Accepted limits are named by words, each its own, and none is unusable. -/
theorem rateLimitsProblem_none (accepted : rateLimitsProblem limits = none) :
    (∀ limit ∈ limits, rateLimitNameTest limit.name = true ∧ limit.data.problem = none) ∧
      (limits.map NamedRateLimitData.name).Nodup := by
  unfold rateLimitsProblem at accepted
  simp only at accepted
  split_ifs at accepted
  obtain ⟨each, distinct⟩ := entriesProblem_none accepted
  exact ⟨fun limit member => ⟨(each limit member).1, (each limit member).2.1⟩, distinct⟩

theorem usable_iff {x : JsNumber} : x.usable = true ↔ ∃ q : ℚ, x = fin q ∧ 0 < q := by
  rw [JsNumber.usable, Bool.and_eq_true, isFinite_iff, decide_eq_true_iff]
  constructor
  · rintro ⟨⟨q, rfl⟩, positive⟩
    rw [zero_eq, fin_lt_fin] at positive
    exact ⟨q, rfl, positive⟩
  · rintro ⟨q, rfl, positive⟩
    exact ⟨⟨q, rfl⟩, by rw [zero_eq, fin_lt_fin]; exact positive⟩

/-- A request limit that is accepted refills. -/
theorem requestLimit_rate {maxTokens tokensToAdd interval : JsNumber} {maxDebt : Option JsNumber}
    (accepted : (RateLimitData.requestLimit maxTokens tokensToAdd interval maxDebt).problem = none) :
    ∃ r : Rate, ⟨maxTokens, tokensToAdd, interval⟩ = r.config := by
  simp only [RateLimitData.problem] at accepted
  split_ifs at accepted with fine
  simp only [Bool.and_eq_true, usable_iff] at fine
  obtain ⟨⟨⟨⟨gain, rfl, feeds⟩, period, rfl, -⟩, cap, rfl, holds⟩, -⟩ := fine
  exact ⟨⟨cap, gain, period, holds, feeds⟩, rfl⟩

theorem concurrencyLimit_ceiling {maxConcurrency : JsNumber}
    (accepted : (RateLimitData.concurrencyLimit maxConcurrency).problem = none) :
    ∃ q : ℚ, maxConcurrency = fin q ∧ 0 < q := by
  simp only [RateLimitData.problem] at accepted
  split_ifs at accepted with fine
  exact usable_iff.mp fine

theorem MeteredClient.requestTtl_usable (client : MeteredClient) :
    ∃ lease : ℚ, client.requestTtl = fin lease ∧ 0 < lease := by
  have standing : ∃ lease : ℚ, (120000 : JsNumber) = fin lease ∧ 0 < lease := ⟨120000, rfl, by norm_num⟩
  unfold MeteredClient.requestTtl
  cases client.concurrencySlotTtl with
  | none => exact standing
  | some slotTtl =>
    simp only
    split
    · rename_i usable
      exact usable_iff.mp usable
    · exact standing

theorem NamedRateLimitData.metered_cases (metered : limit.isMetered = true) :
    (∃ maxTokens tokensToAdd interval maxDebt, limit.data = .requestLimit maxTokens tokensToAdd interval maxDebt) ∨
      ∃ maxConcurrency, limit.data = .concurrencyLimit maxConcurrency := by
  cases data : limit.data with
  | requestLimit maxTokens tokensToAdd interval maxDebt => exact Or.inl ⟨_, _, _, _, rfl⟩
  | concurrencyLimit maxConcurrency => exact Or.inr ⟨_, rfl⟩
  | sharedLimit => simp [NamedRateLimitData.isMetered, data] at metered
  | noLimit => simp [NamedRateLimitData.isMetered, data] at metered
  | unrecognised => simp [NamedRateLimitData.isMetered, data] at metered

/-- Without a borrowed limit the budget is the client's own. -/
theorem budgetLimitsFor_own (own : ∀ limit ∈ limits, limit.data.isShared = false)
    (resolveShared : String → Option (List NamedRateLimitData)) :
    budgetLimitsFor limits resolveShared = some (limits.filter NamedRateLimitData.isMetered) := by
  have none_ : limits.findSome? NamedRateLimitData.lender = none := by
    rw [List.findSome?_eq_none_iff]
    intro limit member
    have borrowed := own limit member
    unfold NamedRateLimitData.lender
    cases data : limit.data with
    | sharedLimit => simp [RateLimitData.isShared, data] at borrowed
    | _ => rfl
  rw [budgetLimitsFor, none_]

end Limits

section Costs

variable {js : Conversions} {cost : JsonValue} {limits : List NamedRateLimitData} {limit : NamedRateLimitData}
  {clientName limitName : String} {amount : JsNumber}

theorem usable_amount {value : JsonValue} (usable : unusableAmount value = false) :
    ∃ q : ℚ, value = .num (fin q) ∧ 0 ≤ q := by
  cases value with
  | num x =>
    cases x with
    | fin q =>
      refine ⟨q, rfl, ?_⟩
      simp only [unusableAmount, isFinite_fin, Bool.not_true, Bool.false_or,
        Bool.and_eq_false_iff, decide_eq_false_iff_not,
        not_not, zero_eq, JsNumber.fin.injEq, fin_lt_fin, not_lt] at usable
      rcases usable with rfl | above
      · exact le_rfl
      · exact le_trans (by norm_num [epsilon]) above
    | posInf => simp [unusableAmount, isFinite] at usable
    | negInf => simp [unusableAmount, isFinite] at usable
    | nan => simp [unusableAmount, isFinite] at usable
  | _ => simp [unusableAmount] at usable

theorem spendable_entries {entries : List (String × JsonValue)}
    (spendable : unusableCostReason js (.obj entries) = none) :
    entries.find? (fun entry => unusableAmount entry.2) = none := by
  by_contra found
  obtain ⟨entry, found⟩ := Option.ne_none_iff_exists'.mp found
  simp only [unusableCostReason, found] at spendable
  split_ifs at spendable

/-- What a spendable cost charges a limit is a finite amount, never negative. -/
theorem costFor_spendable (spendable : unusableCostReason js cost = none)
    (charged : costFor js cost limitName = .ok amount) : ∃ q : ℚ, amount = fin q ∧ 0 ≤ q := by
  cases cost with
  | num x =>
    cases charged
    cases amount with
    | fin q =>
      refine ⟨q, rfl, le_trans (b := epsilon) (by norm_num [epsilon]) ?_⟩
      by_contra below
      simp [unusableCostReason, below] at spendable
    | posInf => simp [unusableCostReason, isFinite] at spendable
    | negInf => simp [unusableCostReason, isFinite] at spendable
    | nan => simp [unusableCostReason, isFinite] at spendable
  | obj entries =>
    have usable := List.find?_eq_none.mp (spendable_entries spendable)
    simp only [costFor, JsonValue.get] at charged
    split at charged
    · rename_i x held
      cases charged
      obtain ⟨before, after, shape, -⟩ := List.lookup_eq_some_iff.mp held
      have fine := usable (limitName, .num amount) (by rw [shape]; simp)
      rw [Bool.not_eq_true] at fine
      obtain ⟨q, same, nonneg⟩ := usable_amount fine
      cases same
      exact ⟨q, rfl, nonneg⟩
    · cases charged
  | null => simp [unusableCostReason] at spendable
  | bool => simp [unusableCostReason] at spendable
  | str => simp [unusableCostReason] at spendable
  | arr => simp [unusableCostReason] at spendable

theorem tightest_ok {breach after : Option Breach} (turned : tightest js cost breach limit = .ok after) :
    ∃ amount, costFor js cost limit.name = .ok amount ∧
      ((amount ≤ limit.ceilingOf ∧ after = breach) ∨
        ¬ amount ≤ limit.ceilingOf ∧ (after = some ⟨limit, amount, limit.ceilingOf⟩ ∨ breach ≠ none ∧ after = breach)) := by
  unfold tightest at turned
  cases charged : costFor js cost limit.name with
  | error error =>
    rw [charged] at turned
    cases turned
  | ok amount =>
    refine ⟨amount, rfl, ?_⟩
    rw [charged] at turned
    change (if amount ≤ limit.ceilingOf then pure breach else _) = _ at turned
    split_ifs at turned with fits lower
    · cases turned
      exact Or.inl ⟨fits, rfl⟩
    · cases turned
      exact Or.inr ⟨fits, Or.inl rfl⟩
    · cases turned
      refine Or.inr ⟨fits, Or.inr ⟨?_, rfl⟩⟩
      rintro rfl
      exact lower rfl

/-- The loop ends with no breach only if it began with none and no ceiling is exceeded. -/
theorem breach_none {breach : Option Breach} (ended : limits.foldlM (tightest js cost) breach = .ok none) :
    breach = none ∧ ∀ limit ∈ limits, ∃ amount, costFor js cost limit.name = .ok amount ∧
      amount ≤ limit.ceilingOf := by
  induction limits generalizing breach with
  | nil =>
    cases ended
    exact ⟨rfl, fun _ member => absurd member List.not_mem_nil⟩
  | cons limit rest ih =>
    rw [List.foldlM_cons] at ended
    cases turned : tightest js cost breach limit with
    | error error =>
      rw [turned] at ended
      cases ended
    | ok after =>
      rw [turned] at ended
      obtain ⟨rfl, others⟩ := ih ended
      obtain ⟨amount, charged, ⟨fits, same⟩ | ⟨-, same | ⟨some_, same⟩⟩⟩ := tightest_ok turned
      · exact ⟨same.symm, List.forall_mem_cons.mpr ⟨⟨amount, charged, fits⟩, others⟩⟩
      · cases same
      · exact absurd same.symm some_

/-- What the loop reports is one of the limits, with what it is charged and could hold. -/
theorem breach_some {breach : Option Breach} {found : Breach}
    (ended : limits.foldlM (tightest js cost) breach = .ok (some found)) :
    breach = some found ∨ (found.limit ∈ limits ∧ costFor js cost found.limit.name = .ok found.amount ∧
      found.ceiling = found.limit.ceilingOf) := by
  induction limits generalizing breach with
  | nil =>
    cases ended
    exact Or.inl rfl
  | cons limit rest ih =>
    rw [List.foldlM_cons] at ended
    cases turned : tightest js cost breach limit with
    | error error =>
      rw [turned] at ended
      cases ended
    | ok after =>
      rw [turned] at ended
      rcases ih ended with rfl | ⟨member, charged, ceiling⟩
      · obtain ⟨amount, charged, ⟨-, same⟩ | ⟨-, same | ⟨-, same⟩⟩⟩ := tightest_ok turned
        · exact Or.inl same.symm
        · cases same
          exact Or.inr ⟨List.mem_cons_self, charged, rfl⟩
        · exact Or.inl same.symm
      · exact Or.inr ⟨List.mem_cons_of_mem _ member, charged, ceiling⟩

/-- A spendable cost that misses none of the names charges each. -/
theorem named_of_misnamed {declared : List String} (spendable : unusableCostReason js cost = none)
    (missing : (misnamed cost declared).1 = []) :
    ∀ name ∈ declared, ∃ amount, costFor js cost name = .ok amount := by
  intro name member
  cases cost with
  | num x => exact ⟨x, rfl⟩
  | obj entries =>
    simp only [misnamed, List.filter_eq_nil_iff, Option.isNone_iff_eq_none] at missing
    obtain ⟨value, held⟩ := Option.ne_none_iff_exists'.mp (missing name member)
    have usable : entries.find? (fun entry => unusableAmount entry.2) = none := spendable_entries spendable
    obtain ⟨before, after, shape, -⟩ := List.lookup_eq_some_iff.mp held
    have fine := List.find?_eq_none.mp usable (name, value) (by rw [shape]; simp)
    rw [Bool.not_eq_true] at fine
    obtain ⟨q, rfl, -⟩ := usable_amount fine
    exact ⟨fin q, by simp only [costFor, held]⟩
  | null => simp [unusableCostReason] at spendable
  | bool => simp [unusableCostReason] at spendable
  | str => simp [unusableCostReason] at spendable
  | arr => simp [unusableCostReason] at spendable

/-- Where every limit is named, what is reported is the ceiling the loop settled on. -/
theorem costProblem_cases {refusal : Option CostRefusal}
    (asked : costProblem js clientName cost (some limits) = .ok refusal) :
    (∃ missing unknown declared, refusal = some (.mismatch clientName missing unknown declared)) ∨
      (misnamed cost (limits.map NamedRateLimitData.name)).1 = [] ∧
        ∃ breach, lowestBreach js cost limits = .ok breach ∧
        refusal = breach.map fun b => .exceedsBudget clientName b.amount b.ceiling
          (if 1 < limits.length then some b.limit.name else none) := by
  unfold costProblem at asked
  simp only at asked
  by_cases wrong : (misnamed cost (limits.map NamedRateLimitData.name)).1 ≠ [] ∨
      (misnamed cost (limits.map NamedRateLimitData.name)).2 ≠ []
  · rw [if_pos wrong] at asked
    cases asked
    exact Or.inl ⟨_, _, _, rfl⟩
  · rw [if_neg wrong] at asked
    rw [not_or, not_not, not_not] at wrong
    right
    refine ⟨wrong.1, ?_⟩
    cases found : lowestBreach js cost limits with
    | error error =>
      rw [found] at asked
      cases asked
    | ok breach =>
      rw [found] at asked
      cases breach with
      | none =>
        cases asked
        exact ⟨none, rfl, rfl⟩
      | some b =>
        cases asked
        exact ⟨some b, rfl, rfl⟩

end Costs

section Keys

variable {client : KeyedClient} {grantId : Option String} {a b front tail : String}

/-- Every budget key of a grant starts as the others do. -/
theorem scopedKey_base (client : KeyedClient) (grantId : Option String) :
    ∃ base, ∀ word, client.scopedKey word grantId = base ++ ":" ++ word := by
  cases grantId with
  | none => exact ⟨client.nspace, fun word => rfl⟩
  | some grant =>
    by_cases falsy : grant = ""
    · exact ⟨client.nspace, fun word => by simp only [KeyedClient.scopedKey, if_pos falsy]⟩
    · by_cases shared : client.usesGrantIsolation = true
      · exact ⟨client.nspace ++ ":grant:" ++ grant, fun word => by
          simp only [KeyedClient.scopedKey, if_neg falsy, shared, not_true_eq_false, if_false]⟩
      · exact ⟨client.nspace, fun word => by simp only [KeyedClient.scopedKey, if_neg falsy, if_pos shared]⟩

/-- No bucket, nor a key below one, is a ledger's or below one. -/
theorem bucketKey_ne_slotKey (a b front tail : String) :
    client.getBucketKey a grantId ++ front ≠ client.getSlotKey b grantId ++ tail := by
  obtain ⟨base, based⟩ := scopedKey_base client grantId
  rw [KeyedClient.getBucketKey, KeyedClient.getSlotKey, KeyedClient.getRateLimitKey,
    KeyedClient.getConcurrencyKey, based, based]
  simp only [String.append_assoc, ne_eq, String.append_right_inj]
  intro same
  have heads := congrArg (fun s => s.toList.take 1) same
  simp at heads

theorem slotKey_injective : Function.Injective fun name => client.getSlotKey name grantId := by
  intro a b same
  simpa [KeyedClient.getSlotKey, String.append_assoc] using same

/-- A name that is accepted has no colon in it. -/
theorem rateLimitName_plain (named : rateLimitNameTest a = true) : Segments.Plain ':' a := by
  intro member
  simp only [rateLimitNameTest, Bool.and_eq_true, List.all_eq_true] at named
  exact absurd (named.1.1 _ member) (by decide)

/-- No ledger is the companion of another. -/
theorem slotKey_ne_costsKey (named : rateLimitNameTest a = true) :
    client.getSlotKey a grantId ≠ costsKey (client.getSlotKey b grantId) := by
  intro same
  simp only [costsKey, KeyedClient.getSlotKey, String.append_assoc, String.append_right_inj] at same
  refine rateLimitName_plain named ?_
  rw [same, String.toList_append]
  exact List.mem_append_right _ (by decide)

theorem bucketKey_not_ledger (a b front : String) :
    client.getBucketKey a grantId ++ front ∉ ledgerKeys (client.getSlotKey b grantId) := by
  rintro (same | same)
  · exact bucketKey_ne_slotKey a b front "" (by simpa using same)
  · exact bucketKey_ne_slotKey a b front ":costs" same

theorem slotKey_not_ledger (named : rateLimitNameTest a = true) (ne : a ≠ b) :
    client.getSlotKey a grantId ∉ ledgerKeys (client.getSlotKey b grantId) := by
  rintro (same | same)
  · exact ne (slotKey_injective same)
  · exact slotKey_ne_costsKey named same

theorem costsKey_not_ledger (named : rateLimitNameTest b = true) (ne : a ≠ b) :
    costsKey (client.getSlotKey a grantId) ∉ ledgerKeys (client.getSlotKey b grantId) := by
  rintro (same | same)
  · exact slotKey_ne_costsKey named same.symm
  · have ledgers : client.getSlotKey a grantId = client.getSlotKey b grantId := by
      simpa [costsKey] using same
    exact ne (slotKey_injective ledgers)

/-- The entry of a request is no ledger. -/
theorem metadataKey_not_ledger (requestId b : String) :
    (clientQueue client.nspace).metadataKey requestId ∉ ledgerKeys (client.getSlotKey b grantId) := by
  have apart : ∀ tail, (clientQueue client.nspace).metadataKey requestId ≠ client.getSlotKey b grantId ++ tail := by
    intro tail same
    simp only [QueueKeys.metadataKey, clientQueue, KeyedClient.getSlotKey, KeyedClient.getConcurrencyKey,
      KeyedClient.scopedKey] at same
    split at same
    · simp only [String.append_assoc, String.append_right_inj] at same
      have heads := congrArg (fun s => s.toList.take 2) same
      simp at heads
    · split_ifs at same
      all_goals
        simp only [String.append_assoc, String.append_right_inj] at same
        have heads := congrArg (fun s => s.toList.take 2) same
        simp at heads
  rintro (same | same)
  · exact apart "" (by simpa using same)
  · exact apart ":costs" same

end Keys

/-- Two budgets that share no key. -/
def MultiLimitSpec.HomesApart (a b : MultiLimitSpec) : Prop := ∀ k ∈ a.home, k ∉ b.home

namespace MeteredClient

/-- The budget a metered limit puts a claim of `amount` on. -/
def chargedSpec (client : MeteredClient) (grantId : Option String) (slotId : String) (limit : NamedRateLimitData)
    (amount : JsNumber) : Option MultiLimitSpec :=
  match limit.data with
  | .requestLimit maxTokens tokensToAdd interval _ =>
    some (.tokenBucket ⟨client.keys.getBucketKey limit.name grantId, amount, ⟨maxTokens, tokensToAdd, interval⟩, none,
      some (client.keys.getFreezeStateKey grantId)⟩)
  | .concurrencyLimit maxConcurrency =>
    some (.concurrency ⟨client.keys.getSlotKey limit.name grantId, amount, ⟨maxConcurrency, client.requestTtl⟩, slotId,
      some (client.keys.getFreezeStateKey grantId)⟩)
  | _ => none

section Specs

variable {js : Conversions} {client : MeteredClient} {grantId : Option String} {slotId : String} {cost : JsonValue}
  {limits : List NamedRateLimitData} {limit other : NamedRateLimitData} {specs : List MultiLimitSpec}
  {spec spec' : MultiLimitSpec} {amount amount' : JsNumber}

theorem limitSpec_metered (metered : limit.isMetered = true) : client.limitSpec js grantId slotId cost false limit =
    (costFor js cost limit.name).map (client.chargedSpec grantId slotId limit) := by
  obtain ⟨maxTokens, tokensToAdd, interval, maxDebt, data⟩ | ⟨maxConcurrency, data⟩ :=
    NamedRateLimitData.metered_cases metered
  · unfold limitSpec chargedSpec
    rw [data]
    simp only [Bool.false_eq_true, if_false]
    cases costFor js cost limit.name <;> rfl
  · unfold limitSpec chargedSpec
    rw [data]
    simp only [Bool.false_eq_true, if_false]
    cases costFor js cost limit.name <;> rfl

theorem limitSpec_unmetered (unmetered : limit.isMetered = false) :
    client.limitSpec js grantId slotId cost false limit = .ok none := by
  unfold limitSpec
  cases data : limit.data with
  | requestLimit => simp [NamedRateLimitData.isMetered, data] at unmetered
  | concurrencyLimit => simp [NamedRateLimitData.isMetered, data] at unmetered
  | _ => rfl

/-- A cost that names every metered limit makes a claim. -/
theorem limitSpecs_ok
    (named : ∀ limit ∈ limits, limit.isMetered = true → ∃ amount, costFor js cost limit.name = .ok amount) :
    ∃ specs, client.limitSpecs js grantId slotId cost false limits = .ok specs := by
  induction limits with
  | nil => exact ⟨[], rfl⟩
  | cons limit rest ih =>
    rw [List.forall_mem_cons] at named
    obtain ⟨specs, made⟩ := ih named.2
    rw [limitSpecs, made]
    by_cases metered : limit.isMetered = true
    · obtain ⟨amount, charged⟩ := named.1 metered
      rw [limitSpec_metered metered, charged]
      exact ⟨_, rfl⟩
    · rw [limitSpec_unmetered (Bool.eq_false_of_not_eq_true metered)]
      exact ⟨_, rfl⟩

theorem limitSpecs_cons (made : client.limitSpecs js grantId slotId cost false (limit :: limits) = .ok specs) :
    ∃ first others, client.limitSpec js grantId slotId cost false limit = .ok first ∧
      client.limitSpecs js grantId slotId cost false limits = .ok others ∧ specs = first.toList ++ others := by
  rw [limitSpecs] at made
  cases first : client.limitSpec js grantId slotId cost false limit with
  | error error =>
    rw [first] at made
    cases made
  | ok spec =>
    rw [first] at made
    cases rest : client.limitSpecs js grantId slotId cost false limits with
    | error error =>
      rw [rest] at made
      cases made
    | ok others =>
      rw [rest] at made
      cases made
      exact ⟨_, _, rfl, rfl, rfl⟩

/-- A limit's own part of a claim is what it is charged. -/
theorem limitSpec_some (made : client.limitSpec js grantId slotId cost false limit = .ok (some spec)) :
    ∃ amount, costFor js cost limit.name = .ok amount ∧
      client.chargedSpec grantId slotId limit amount = some spec := by
  by_cases metered : limit.isMetered = true
  · rw [limitSpec_metered metered] at made
    cases charged : costFor js cost limit.name with
    | error error =>
      rw [charged] at made
      cases made
    | ok amount =>
      rw [charged] at made
      exact ⟨amount, rfl, Except.ok.inj made⟩
  · rw [limitSpec_unmetered (Bool.eq_false_of_not_eq_true metered)] at made
    cases made

/-- Every budget of a claim is a limit's, charged what the limit is charged. -/
theorem limitSpecs_mem (made : client.limitSpecs js grantId slotId cost false limits = .ok specs)
    (member : spec ∈ specs) : ∃ limit ∈ limits, ∃ amount, costFor js cost limit.name = .ok amount ∧
      client.chargedSpec grantId slotId limit amount = some spec := by
  induction limits generalizing specs with
  | nil =>
    cases made
    cases member
  | cons limit rest ih =>
    obtain ⟨first, others, alone, later, rfl⟩ := limitSpecs_cons made
    rcases List.mem_append.mp member with here | there
    · rw [Option.mem_toList] at here
      rw [Option.mem_def.mp here] at alone
      obtain ⟨amount, charged, same⟩ := limitSpec_some alone
      exact ⟨limit, List.mem_cons_self, amount, charged, same⟩
    · obtain ⟨other, found, rest_⟩ := ih later there
      exact ⟨other, List.mem_cons_of_mem _ found, rest_⟩

/-- Every limit that is charged has its budget in the claim. -/
theorem mem_limitSpecs (made : client.limitSpecs js grantId slotId cost false limits = .ok specs)
    (member : limit ∈ limits)
    (charged : costFor js cost limit.name = .ok amount)
    (same : client.chargedSpec grantId slotId limit amount = some spec) : spec ∈ specs := by
  induction limits generalizing specs with
  | nil => cases member
  | cons head rest ih =>
    obtain ⟨first, others, alone, later, rfl⟩ := limitSpecs_cons made
    rcases List.mem_cons.mp member with rfl | there
    · have metered : limit.isMetered = true := by
        cases data : limit.data with
        | requestLimit => simp [NamedRateLimitData.isMetered, data]
        | concurrencyLimit => simp [NamedRateLimitData.isMetered, data]
        | _ => simp [chargedSpec, data] at same
      rw [limitSpec_metered metered, charged] at alone
      change Except.ok (client.chargedSpec grantId slotId limit amount) = .ok first at alone
      rw [same] at alone
      cases alone
      exact List.mem_append_left _ (by simp)
    · exact List.mem_append_right _ (ih later there)

/-- Limits of different names are kept apart. -/
theorem chargedSpec_apart (named : rateLimitNameTest limit.name = true)
    (named' : rateLimitNameTest other.name = true)
    (ne : limit.name ≠ other.name) (first : client.chargedSpec grantId slotId limit amount = some spec)
    (second : client.chargedSpec grantId slotId other amount' = some spec') : spec.HomesApart spec' := by
  have buckets : ∀ a b, a ≠ b → client.keys.getBucketKey a grantId ≠ client.keys.getBucketKey b grantId := by
    intro a b ne same
    exact ne (by simpa [KeyedClient.getBucketKey, String.append_assoc] using same)
  have away : client.keys.getSlotKey limit.name grantId ∉ ledgerKeys (client.keys.getSlotKey other.name grantId) :=
    slotKey_not_ledger named ne
  have costs : costsKey (client.keys.getSlotKey limit.name grantId) ∉
      ledgerKeys (client.keys.getSlotKey other.name grantId) :=
    costsKey_not_ledger named' ne
  have below : ∀ a b, client.keys.getBucketKey a grantId ∉ ledgerKeys (client.keys.getSlotKey b grantId) := by
    intro a b
    have apart : client.keys.getBucketKey a grantId ++ "" ∉ ledgerKeys (client.keys.getSlotKey b grantId) :=
      bucketKey_not_ledger a b ""
    rwa [String.append_empty] at apart
  unfold chargedSpec at first second
  intro k own
  split at first
  · cases first
    rw [MultiLimitSpec.home, List.mem_singleton] at own
    subst own
    split at second
    · cases second
      simpa [MultiLimitSpec.home] using buckets limit.name other.name ne
    · cases second
      simpa [MultiLimitSpec.home, ledgerKeys] using below limit.name other.name
    · cases second
  · cases first
    rw [MultiLimitSpec.home, List.mem_cons, List.mem_singleton] at own
    split at second
    · cases second
      rw [MultiLimitSpec.home, List.mem_singleton]
      rintro rfl
      exact below other.name limit.name own
    · cases second
      rcases own with rfl | rfl
      · simpa [MultiLimitSpec.home, ledgerKeys] using away
      · simpa [MultiLimitSpec.home, ledgerKeys] using costs
    · cases second
  · cases first

/-- The budgets of a claim share no key. -/
theorem limitSpecs_apart (accepted : ∀ limit ∈ limits, rateLimitNameTest limit.name = true)
    (distinct : (limits.map NamedRateLimitData.name).Nodup)
    (made : client.limitSpecs js grantId slotId cost false limits = .ok specs) :
    specs.Pairwise MultiLimitSpec.HomesApart := by
  induction limits generalizing specs with
  | nil =>
    cases made
    exact .nil
  | cons limit rest ih =>
    obtain ⟨first, others, alone, later, rfl⟩ := limitSpecs_cons made
    rw [List.forall_mem_cons] at accepted
    rw [List.map_cons, List.nodup_cons] at distinct
    have tail := ih accepted.2 distinct.2 later
    cases first with
    | none => exact tail
    | some spec =>
      refine List.pairwise_cons.mpr ⟨?_, tail⟩
      intro spec' member
      obtain ⟨amount, -, same⟩ := limitSpec_some alone
      obtain ⟨other, found, amount', -, same'⟩ := limitSpecs_mem later member
      refine chargedSpec_apart accepted.1 (accepted.2 other found) ?_ same same'
      intro again
      exact distinct.1 (by rw [again]; exact List.mem_map_of_mem found)

end Specs

end MeteredClient

end Dianemo
