import Dianemo.Keys

namespace Dianemo

open Segments

/-- An id as `crypto.randomUUID` makes them, as far as keys care. -/
def UuidLike (id : String) : Prop := Plain ':' id ∧ '-' ∈ id.toList

/-- The limit and the request a resource is named after bear names that clients really use. -/
def Resource.Sound : Resource → Prop
  | .metadata requestId | .tombstone requestId => UuidLike requestId
  | .bucket limit _ | .slots limit _ | .slotCosts limit _ => rateLimitNameTest limit = true
  | .claimMark limit _ requestId _ => rateLimitNameTest limit = true ∧ UuidLike requestId
  | _ => True

/-- The grant does not end like a ledger where the ledger's limit is named like a ledger's costs. -/
def Resource.Tame : Resource → Prop
  | .slots limit grantId => limit = "costs" → ∀ grant ∈ grantId, ∀ front, grant ≠ front ++ ":concurrency"
  | _ => True

/-- A client with the limits its budget's owner declares: the request limits, kept in buckets, and
the concurrency limits, kept in ledgers. -/
structure DeclaringClient extends KeyedClient where
  requestLimits : List String
  concurrencyLimits : List String
  requestLimits_named : ∀ limit ∈ requestLimits, rateLimitNameTest limit = true
  concurrencyLimits_named : ∀ limit ∈ concurrencyLimits, rateLimitNameTest limit = true

/-- What the client keeps something under: a limit of its own, a request's id, any grant. -/
def DeclaringClient.Holds (client : DeclaringClient) : Resource → Prop
  | .metadata requestId | .tombstone requestId => UuidLike requestId
  | .bucket limit _ => limit ∈ client.requestLimits
  | .claimMark limit _ requestId _ => limit ∈ client.requestLimits ∧ UuidLike requestId
  | .slots limit _ | .slotCosts limit _ => limit ∈ client.concurrencyLimits
  | _ => True

/-- Keys of the two that agree are of the same resource of the same client. -/
def DeclaringClient.Apart (client other : DeclaringClient) : Prop :=
  ∀ resource resource', client.Holds resource → other.Holds resource' → client.key resource = other.key resource' →
    client.owner resource = other.owner resource' ∧ client.identify resource = other.identify resource'

/-- The limits kept under a word of the key. -/
def DeclaringClient.limitsUnder (client : DeclaringClient) (word : String) : List String :=
  if word = "rateLimit" then client.requestLimits else if word = "concurrency" then client.concurrencyLimits else []

/-- The pieces of a key that a sub-client's name can imitate. -/
def keyWords : List String := ["rateLimit", "concurrency", "grant", "oauth2"]

/-- No sub-client on the path is named like a piece of a key. -/
def ClientPath.Unreserved (path : ClientPath) : Prop := ∀ child ∈ path.subClients, child ∉ keyWords

instance (path : ClientPath) : Decidable path.Unreserved :=
  inferInstanceAs (Decidable (∀ child ∈ path.subClients, child ∉ keyWords))

/-- The names are such that a key of `upper` imitates one of `lower`: a sub-client below `upper` is
named like a piece of its keys, or a limit like a ledger's costs. -/
inductive DeclaringClient.Imitates (upper lower : DeclaringClient) : Prop
  | credential {rest} :
      (lower.budgetOwner.segments = upper.authOwner.segments ++ "oauth2" :: rest ∨
        lower.authOwner.segments = upper.authOwner.segments ++ "oauth2" :: rest) → Imitates upper lower
  | grantCredential {rest} : upper.usesGrantIsolation = true →
      lower.authOwner.segments = upper.budgetOwner.segments ++ "grant" :: rest → Imitates upper lower
  | grant {rest} : upper.usesGrantIsolation = true →
      lower.budgetOwner.segments = upper.budgetOwner.segments ++ "grant" :: rest →
      (rest ≠ [] ∨ lower.usesGrantIsolation = true ∨
        "costs" ∈ upper.concurrencyLimits ∧ "concurrency" ∈ lower.concurrencyLimits) → Imitates upper lower
  | limit {word} : lower.budgetOwner.segments = upper.budgetOwner.segments ++ [word] →
      "queue" ∈ upper.limitsUnder word → Imitates upper lower
  | limitCredential {word} : lower.authOwner.segments = upper.budgetOwner.segments ++ [word] →
      ("grants" ∈ upper.limitsUnder word ∨ "oauth2" ∈ upper.limitsUnder word) → Imitates upper lower
  | ledger : lower.budgetOwner.segments = upper.budgetOwner.segments ++ ["concurrency"] →
      "concurrency" ∈ upper.concurrencyLimits → "costs" ∈ lower.concurrencyLimits → Imitates upper lower
  | costs : lower.budgetOwner = upper.budgetOwner → upper.usesGrantIsolation = true → lower.usesGrantIsolation = true →
      "costs" ∈ upper.concurrencyLimits → "concurrency" ∈ lower.concurrencyLimits → Imitates upper lower

/-! ### Limit names and attempts -/

section Names

variable {limit id word : String}

theorem rateLimitNameTest_char (accepted : rateLimitNameTest limit = true) :
    ∀ c ∈ limit.toList, c = '_' ∨ ('a' ≤ c ∧ c ≤ 'z') ∨ ('0' ≤ c ∧ c ≤ '9') := by
  intro c member
  simp only [rateLimitNameTest, Bool.and_eq_true, List.all_eq_true, Bool.or_eq_true, decide_eq_true_eq] at accepted
  obtain (small | digit) | score := accepted.1.1 c member
  · exact Or.inr (Or.inl small)
  · exact Or.inr (Or.inr digit)
  · exact Or.inl score

theorem rateLimitNameTest_plain (accepted : rateLimitNameTest limit = true) : Plain ':' limit := by
  intro member
  have kinds := rateLimitNameTest_char accepted _ member
  revert kinds
  decide

/-- A piece with a character no limit's name has is no limit's name. -/
theorem ne_of_rateLimitNameTest (accepted : rateLimitNameTest limit = true)
    (refused : rateLimitNameTest word = false) : limit ≠ word := by
  rintro rfl
  rw [accepted] at refused
  cases refused

theorem UuidLike.ne (uuid : UuidLike id) (solid : '-' ∉ word.toList) : id ≠ word := by
  rintro rfl
  exact solid uuid.2

theorem split_getSlotId (uuid : UuidLike id) (retries : ℕ) :
    split ':' (getSlotId id retries) = if retries = 0 then [id] else [id, "retry", toString retries] := by
  by_cases first : retries = 0
  · rw [getSlotId, if_pos first, if_pos first, split_plain uuid.1]
  · rw [getSlotId, if_neg first, if_neg first,
      split_marked id ":retry:" "retry" (toString retries) (by simp) (by decide),
      split_plain uuid.1, split_plain (repr_plain retries), List.singleton_append]

end Names

/-! ### Reading a key back -/

/-- The resource under a grant whose key ends in these pieces. -/
def readTail (grantId : Option String) : List String → Option Resource
  | ["queue"] => some .queue
  | ["request", requestId] => some (.metadata requestId)
  | ["request", requestId, "removed"] => some (.tombstone requestId)
  | ["rateLimit", limit] => some (.bucket limit grantId)
  | ["rateLimit", limit, "claim", requestId] => some (.claimMark limit grantId requestId 0)
  | ["rateLimit", limit, "claim", requestId, "retry", retries] =>
    retries.toNat?.map (.claimMark limit grantId requestId)
  | ["concurrency", limit] => some (.slots limit grantId)
  | ["concurrency", limit, "costs"] => some (.slotCosts limit grantId)
  | ["freezeState"] => some (.freezeState grantId)
  | ["freezeState", "thawCompletions"] => some (.thawCompletions grantId)
  | ["frozenGrants"] => some .frozenGrants
  | ["grants"] => some .grants
  | ["oauth2"] => some (.credential none)
  | "oauth2" :: pieces => some (.credential (some (":".intercalate pieces)))
  | _ => none

/-- How many pieces of a key, read from its end, come after the grant. -/
def tailLength (pieces : List String) : ℕ :=
  if pieces[0]? = some "freezeState" then 1
  else if pieces[0]? = some "thawCompletions" then 2
  else if pieces[1]? = some "rateLimit" then 2
  else if pieces[1]? = some "concurrency" ∧ pieces.length = 4 then 2
  else if pieces[0]? = some "costs" ∧ pieces[2]? = some "concurrency" then 3
  else if pieces[1]? = some "concurrency" then 2
  else if pieces[1]? = some "claim" then 4
  else if pieces[1]? = some "retry" then 6
  else 0

namespace Resource

variable {resource other : Resource}

theorem readTail_tail (sound : resource.Sound) : readTail resource.scope resource.tail = some resource := by
  cases resource with
  | queue | freezeState grantId | thawCompletions grantId | frozenGrants | grants => rfl
  | metadata requestId => rw [tail, split_plain sound.1]; rfl
  | tombstone requestId => rw [tail, split_plain sound.1]; rfl
  | bucket limit grantId => rw [tail, split_plain (rateLimitNameTest_plain sound)]; rfl
  | claimMark limit grantId requestId retries =>
    rw [tail, split_plain (rateLimitNameTest_plain sound.1), split_getSlotId sound.2]
    by_cases first : retries = 0
    · rw [if_pos first, first]; rfl
    · rw [if_neg first]
      exact congrArg (Option.map _) (Nat.toNat?_repr retries)
  | slots limit grantId => rw [tail, split_plain (rateLimitNameTest_plain sound)]; rfl
  | slotCosts limit grantId => rw [tail, split_plain (rateLimitNameTest_plain sound)]; rfl
  | credential grantId =>
    cases grantId with
    | none => rfl
    | some grant =>
      rw [tail, credentialPieces]
      have whole := intercalate_split ':' grant
      have some := split_ne_nil ':' grant
      revert whole some
      cases split ':' grant with
      | nil => exact fun _ absent => absurd rfl absent
      | cons piece pieces => exact fun whole _ => congrArg (fun text =>
        Option.some (credential (Option.some text))) whole

/-- Under one grant, different resources end differently. -/
theorem eq_of_tail_eq (sound : resource.Sound) (sound' : other.Sound) (grant : resource.scope = other.scope)
    (same : resource.tail = other.tail) : resource = other := by
  have read := readTail_tail sound
  rw [grant, same, readTail_tail sound'] at read
  exact (Option.some.inj read).symm

/-- From its end one can tell where a key's grant ends. -/
theorem tailLength_suffix {grantId : String} (sound : resource.Sound) (tame : resource.Tame)
    (under : resource.scope = some grantId) :
    tailLength (resource.suffix.reverse) = resource.tail.length := by
  have pieces : resource.suffix.reverse = resource.tail.reverse ++ ((split ':' grantId).reverse ++ ["grant"]) := by
    rw [suffix, under, grantPieces, List.reverse_append, List.reverse_cons]
  rw [pieces]
  cases resource with
  | queue | metadata requestId | tombstone requestId | frozenGrants | grants | credential other => cases under
  | bucket limit =>
    have frozen : limit ≠ "freezeState" := ne_of_rateLimitNameTest sound (by decide)
    have thawed : limit ≠ "thawCompletions" := ne_of_rateLimitNameTest sound (by decide)
    rw [tail, split_plain (rateLimitNameTest_plain sound)]
    simp [tailLength, frozen, thawed]
  | claimMark limit _ requestId retries =>
    rw [tail, split_plain (rateLimitNameTest_plain sound.1), split_getSlotId sound.2]
    by_cases first : retries = 0
    · have frozen : requestId ≠ "freezeState" := sound.2.ne (by decide)
      have thawed : requestId ≠ "thawCompletions" := sound.2.ne (by decide)
      have costs : requestId ≠ "costs" := sound.2.ne (by decide)
      simp [tailLength, first, frozen, thawed, costs]
    · have frozen : toString retries ≠ "freezeState" := repr_ne (c := 'z') retries (by decide) (by decide)
      have thawed : toString retries ≠ "thawCompletions" := repr_ne (c := 'w') retries (by decide) (by decide)
      have costs : toString retries ≠ "costs" := repr_ne (c := 'c') retries (by decide) (by decide)
      generalize toString retries = digits at frozen thawed costs ⊢
      simp [tailLength, first, frozen, thawed, costs]
  | slots limit =>
    have frozen : limit ≠ "freezeState" := ne_of_rateLimitNameTest sound (by decide)
    have thawed : limit ≠ "thawCompletions" := ne_of_rateLimitNameTest sound (by decide)
    obtain ⟨front, last, whole⟩ :=
      (List.eq_nil_or_concat (split ':' grantId)).resolve_left (split_ne_nil ':' grantId)
    have avoided : front ≠ [] → limit = "costs" → last ≠ "concurrency" := by
      rintro some costs rfl
      refine tame costs grantId under (":".intercalate front) ?_
      have spelled := eq_of_split_eq_append some (whole.trans (List.concat_eq_append))
      rw [spelled, String.append_assoc]
      rfl
    rw [tail, split_plain (rateLimitNameTest_plain sound), whole]
    simpa [tailLength, frozen, thawed] using avoided
  | slotCosts limit =>
    have lower : limit ≠ "rateLimit" := ne_of_rateLimitNameTest sound (by decide)
    rw [tail, split_plain (rateLimitNameTest_plain sound)]
    simpa [tailLength, lower] using fun _ => split_ne_nil ':' grantId
  | freezeState => rfl
  | thawCompletions => rfl

/-- What the pieces after a client's own and a grant begin with. -/
def tailHeads : List String :=
  ["queue", "request", "rateLimit", "concurrency", "freezeState", "frozenGrants", "oauth2", "grants"]

theorem tail_head (resource : Resource) : ∃ word rest, resource.tail = word :: rest ∧ word ∈ tailHeads := by
  cases resource with
  | _ => exact ⟨_, _, rfl, by decide⟩

/-- The pieces after a client's own say which of its resources a key is of, where no grant ends like a ledger. -/
theorem suffix_injective (sound : resource.Sound) (sound' : other.Sound) (tame : resource.Tame) (tame' : other.Tame)
    (same : resource.suffix = other.suffix) : resource = other := by
  obtain ⟨word, rest, begins, known⟩ := tail_head resource
  obtain ⟨word', rest', begins', known'⟩ := tail_head other
  cases under : resource.scope with
  | none =>
    cases under' : other.scope with
    | none =>
      simp only [suffix, under, under', grantPieces, List.nil_append] at same
      exact eq_of_tail_eq sound sound' (under.trans under'.symm) same
    | some grantId =>
      simp only [suffix, under, under', grantPieces, List.nil_append, begins,
        List.cons_append, List.cons.injEq] at same
      rw [same.1] at known
      exact absurd known (by decide)
  | some grantId =>
    cases under' : other.scope with
    | none =>
      simp only [suffix, under, under', grantPieces, List.nil_append, begins',
        List.cons_append, List.cons.injEq] at same
      rw [← same.1] at known'
      exact absurd known' (by decide)
    | some grantId' =>
      have lengths : resource.tail.length = other.tail.length := by
        rw [← tailLength_suffix sound tame under, same, tailLength_suffix sound' tame' under']
      simp only [suffix, under, under', grantPieces] at same
      obtain ⟨grants, tails⟩ := List.append_inj' same lengths
      have grant : grantId = grantId' := split_injective ':' (List.cons.inj grants).2
      exact eq_of_tail_eq sound sound' (under.trans ((congrArg some grant).trans under'.symm)) tails

/-- Of one grant the slots of a limit named `costs`, of another the costs of one named `concurrency`. -/
def Costly (resource other : Resource) : Prop :=
  ∃ grantId grantId', resource = .slots "costs" (some grantId) ∧ other = .slotCosts "concurrency" (some grantId')

theorem not_tame (wild : ¬ resource.Tame) : ∃ front,
    resource = .slots "costs" (some (front ++ ":concurrency")) := by
  cases resource with
  | slots limit grantId =>
    simp only [Tame, not_forall, not_not] at wild
    obtain ⟨rfl, grant, under, front, rfl⟩ := wild
    exact ⟨front, by rw [Option.mem_def.mp under]⟩
  | _ => exact absurd trivial wild

/-- The pieces of a grant that ends like a ledger are those of the ledger's costs. -/
theorem costly_of_suffix_eq {front : String} (sound : other.Sound) (tame : other.Tame)
    (same : (slots "costs" (some (front ++ ":concurrency"))).suffix = other.suffix) :
    Costly (slots "costs" (some (front ++ ":concurrency"))) other := by
  have pieces : split ':' (front ++ ":concurrency") = split ':' front ++ ["concurrency"] :=
    split_literal front ":concurrency" "concurrency" (by simp) (by decide)
  have spelled : (slots "costs" (some (front ++ ":concurrency"))).suffix =
      "grant" :: split ':' front ++ ["concurrency", "concurrency", "costs"] := by
    rw [suffix, scope, grantPieces, pieces, tail, split_plain (show Plain ':' "costs" by decide)]
    simp
  rw [spelled] at same
  cases under : other.scope with
  | none =>
    obtain ⟨word, rest, begins, known⟩ := tail_head other
    rw [suffix, under, grantPieces, List.nil_append, begins, List.cons_append, List.cons.injEq] at same
    rw [← same.1] at known
    exact absurd known (by decide)
  | some grantId =>
    have length := tailLength_suffix sound tame under
    rw [← same] at length
    have three : other.tail.length = 3 := by
      rw [← length]
      have some := split_ne_nil ':' front
      revert some
      cases split ':' front with
      | nil => exact fun absent => absurd rfl absent
      | cons piece pieces => intro _; simp [tailLength]
    cases other with
    | slotCosts limit grant =>
      cases under
      rw [suffix, scope, grantPieces, tail, split_plain (rateLimitNameTest_plain sound)] at same
      have ends : ["concurrency", "concurrency", "costs"] = ["concurrency", limit, "costs"] :=
        (List.append_inj' same rfl).2
      simp only [List.cons.injEq, and_true, true_and] at ends
      exact ⟨_, grantId, rfl, by rw [ends]⟩
    | bucket limit => simp [tail, split_plain (rateLimitNameTest_plain sound)] at three
    | slots limit => simp [tail, split_plain (rateLimitNameTest_plain sound)] at three
    | claimMark limit grant requestId retries =>
      rw [tail, split_plain (rateLimitNameTest_plain sound.1), split_getSlotId sound.2] at three
      split at three <;> simp at three
    | freezeState | thawCompletions => cases three
    | _ => cases under

/-- The pieces after a client's own say which of its resources a key is of, a ledger's costs apart. -/
theorem suffix_cases (sound : resource.Sound) (sound' : other.Sound) (same : resource.suffix = other.suffix) :
    resource = other ∨ Costly resource other ∨ Costly other resource := by
  by_cases tame : resource.Tame
  · by_cases tame' : other.Tame
    · exact Or.inl (suffix_injective sound sound' tame tame' same)
    · obtain ⟨front, rfl⟩ := not_tame tame'
      exact Or.inr (Or.inr (costly_of_suffix_eq sound tame same.symm))
  · obtain ⟨front, rfl⟩ := not_tame tame
    by_cases tame' : other.Tame
    · exact Or.inr (Or.inl (costly_of_suffix_eq sound' tame' same))
    · obtain ⟨front', rfl⟩ := not_tame tame'
      left
      have grants := (List.append_inj' same rfl).1
      rw [split_injective ':' (List.cons.inj grants).2]

/-- The limit a resource is kept for, after the word its key has for it. -/
def limitName : Resource → Option (String × String)
  | .bucket limit _ | .claimMark limit _ _ _ => some ("rateLimit", limit)
  | .slots limit _ | .slotCosts limit _ => some ("concurrency", limit)
  | _ => none

theorem fresh {id : String} (uuid : UuidLike id) : id ∉ tailHeads := by
  intro member
  have known : ∀ word ∈ tailHeads, '-' ∉ word.toList := by decide
  exact known id member uuid.2

/-- Past its first piece a key does not begin anew, unless with a limit's name or within a credential's grant. -/
theorem tail_later (sound : resource.Sound) :
    (∃ grantId, resource = .credential (some grantId)) ∨
      ∃ word rest, resource.tail = word :: rest ∧ ((∀ piece ∈ rest, piece ∉ tailHeads) ∨
        ∃ limit more, rest = limit :: more ∧ resource.limitName = some (word, limit) ∧
          ∀ piece ∈ more, piece ∉ tailHeads) := by
  cases resource with
  | queue | freezeState | thawCompletions | frozenGrants | grants => exact Or.inr ⟨_, _, rfl, Or.inl (by decide)⟩
  | metadata requestId =>
    rw [tail, split_plain sound.1]
    refine Or.inr ⟨_, _, rfl, Or.inl ?_⟩
    simpa using fresh sound
  | tombstone requestId =>
    rw [tail, split_plain sound.1]
    refine Or.inr ⟨_, _, rfl, Or.inl ?_⟩
    simpa using ⟨fresh sound, by decide⟩
  | bucket limit grantId =>
    rw [tail, split_plain (rateLimitNameTest_plain sound)]
    exact Or.inr ⟨_, _, rfl, Or.inr ⟨limit, [], rfl, rfl, by simp⟩⟩
  | claimMark limit grantId requestId retries =>
    rw [tail, split_plain (rateLimitNameTest_plain sound.1), split_getSlotId sound.2]
    refine Or.inr ⟨_, _, rfl, Or.inr ⟨limit, _, rfl, rfl, ?_⟩⟩
    by_cases first : retries = 0
    · rw [if_pos first]
      simpa using ⟨by decide, fresh sound.2⟩
    · have numeral : toString retries ∉ tailHeads := by
        have lettered : ∀ word ∈ tailHeads, 'e' ∈ word.toList ∨ 'r' ∈ word.toList ∨ 'a' ∈ word.toList := by decide
        intro member
        rcases lettered _ member with letter | letter | letter
        · exact repr_ne (c := 'e') retries (by decide) letter rfl
        · exact repr_ne (c := 'r') retries (by decide) letter rfl
        · exact repr_ne (c := 'a') retries (by decide) letter rfl
      rw [if_neg first]
      simpa using ⟨by decide, fresh sound.2, by decide, numeral⟩
  | slots limit grantId =>
    rw [tail, split_plain (rateLimitNameTest_plain sound)]
    exact Or.inr ⟨_, _, rfl, Or.inr ⟨limit, [], rfl, rfl, by simp⟩⟩
  | slotCosts limit grantId =>
    rw [tail, split_plain (rateLimitNameTest_plain sound)]
    exact Or.inr ⟨_, _, rfl, Or.inr ⟨limit, ["costs"], rfl, rfl, by decide⟩⟩
  | credential grantId =>
    cases grantId with
    | none => exact Or.inr ⟨_, _, rfl, Or.inl (by simp [credentialPieces])⟩
    | some grant => exact Or.inl ⟨grant, rfl⟩

/-- What one key ends in, another ends in a piece later only by a limit's name. -/
theorem tail_front {front : List String} (sound : resource.Sound) (some_ : front ≠ [])
    (same : resource.tail = front ++ other.tail) :
    (∃ grantId, resource = .credential (some grantId)) ∨ ∃ word limit more, front = [word] ∧
      resource.limitName = some (word, limit) ∧ other.tail = limit :: more := by
  rcases tail_later sound with credential | ⟨word, rest, begins, later⟩
  · exact Or.inl credential
  · obtain ⟨head, more, anew, known⟩ := tail_head other
    cases front with
    | nil => exact absurd rfl some_
    | cons first pieces =>
      rw [begins, List.cons_append, List.cons.injEq] at same
      obtain ⟨rfl, same⟩ := same
      have among : head ∈ rest := by
        rw [same, anew]
        simp
      rcases later with none_ | ⟨limit, ends, rfl, named, none_⟩
      · exact absurd known (none_ head among)
      · cases pieces with
        | nil => exact Or.inr ⟨word, limit, ends, rfl, named, same.symm⟩
        | cons next pieces =>
          refine absurd known (none_ head ?_)
          rw [List.cons_append, List.cons.injEq] at same
          rw [same.2, anew]
          simp

theorem limitName_named (sound : resource.Sound) {word limit : String}
    (named : resource.limitName = some (word, limit)) : rateLimitNameTest limit = true := by
  cases resource with
  | bucket | slots | slotCosts =>
    cases named
    exact sound
  | claimMark =>
    cases named
    exact sound.1
  | _ => cases named

/-- What a key has after a limit's name. -/
theorem tail_limit {word limit : String} {more : List String} (sound : resource.Sound)
    (named : resource.limitName = some (word, limit)) (ends : resource.tail = word :: limit :: more) :
    more = [] ∨ (∃ id rest, more = "claim" :: id :: rest ∧ UuidLike id) ∨
      more = ["costs"] ∧ word = "concurrency" ∧ ∃ grantId, resource = .slotCosts limit grantId := by
  cases resource with
  | bucket other | slots other =>
    cases named
    rw [tail, split_plain (rateLimitNameTest_plain sound)] at ends
    cases ends
    exact Or.inl rfl
  | slotCosts other grantId =>
    cases named
    rw [tail, split_plain (rateLimitNameTest_plain sound)] at ends
    cases ends
    exact Or.inr (Or.inr ⟨rfl, rfl, grantId, rfl⟩)
  | claimMark other grantId requestId retries =>
    cases named
    rw [tail, split_plain (rateLimitNameTest_plain sound.1), split_getSlotId sound.2] at ends
    split at ends
    · cases ends
      exact Or.inr (Or.inl ⟨requestId, [], rfl, sound.2⟩)
    · cases ends
      exact Or.inr (Or.inl ⟨requestId, ["retry", toString retries], rfl, sound.2⟩)
  | _ => cases named

/-- A key one piece shorter than a limit's is of a resource with the limit's name, unless it is
that of a ledger's slots, the longer one being of a ledger's costs. -/
theorem tail_shift {word limit : String} (sound : resource.Sound) (sound' : other.Sound)
    (named : resource.limitName = some (word, limit)) (same : resource.tail = word :: other.tail) :
    limit = "queue" ∧ other = .queue ∨ limit = "grants" ∧ other = .grants ∨
      (limit = "oauth2" ∧ ∃ grantId, other = .credential grantId) ∨
        limit = "concurrency" ∧ word = "concurrency" ∧ (∃ grantId, resource = .slotCosts "concurrency" grantId) ∧
          ∃ grantId, other = .slots "costs" grantId := by
  have accepted := limitName_named sound named
  have begins : ∀ {first : String} {more : List String}, other.tail = first :: more → limit = first ∧
      (more = [] ∨ (∃ id rest, more = "claim" :: id :: rest ∧ UuidLike id) ∨
        more = ["costs"] ∧ word = "concurrency" ∧ ∃ grantId, resource = .slotCosts limit grantId) := by
    intro first more ends
    have front : resource.tail = [word] ++ other.tail := same
    rcases tail_front sound (List.cons_ne_nil _ _) front with ⟨grantId, rfl⟩ | ⟨again, name, rest, -, found, later⟩
    · cases named
    · rw [named] at found
      cases found
      rw [ends] at later
      cases later
      exact ⟨rfl, tail_limit sound named (same.trans (by rw [ends]))⟩
  cases other with
  | queue => exact Or.inl ⟨(begins rfl).1, rfl⟩
  | grants => exact Or.inr (Or.inl ⟨(begins rfl).1, rfl⟩)
  | credential grantId => exact Or.inr (Or.inr (Or.inl ⟨(begins rfl).1, grantId, rfl⟩))
  | freezeState | thawCompletions | frozenGrants =>
    have named := (begins rfl).1
    exact absurd named (ne_of_rateLimitNameTest accepted (by decide))
  | bucket | claimMark =>
    have named := (begins rfl).1
    exact absurd named (ne_of_rateLimitNameTest accepted (by decide))
  | metadata requestId =>
    obtain ⟨-, none_ | ⟨id, rest, claims, -⟩ | ⟨costs, -⟩⟩ := begins (by rw [tail, split_plain sound'.1])
    · cases none_
    · cases claims
    · exact absurd (List.cons.inj costs).1 (sound'.ne (by decide))
  | tombstone requestId =>
    obtain ⟨-, none_ | ⟨id, rest, claims, -⟩ | ⟨costs, -⟩⟩ := begins (by rw [tail, split_plain sound'.1]; rfl)
    · cases none_
    · exact absurd (List.cons.inj claims).1 (sound'.ne (by decide))
    · cases costs
  | slots name grantId =>
    obtain ⟨rfl, none_ | ⟨id, rest, claims, -⟩ | ⟨costs, there, owed⟩⟩ :=
      begins (by rw [tail, split_plain (rateLimitNameTest_plain sound')])
    · cases none_
    · cases claims
    · cases costs
      exact Or.inr (Or.inr (Or.inr ⟨rfl, there, owed, grantId, rfl⟩))
  | slotCosts name grantId =>
    obtain ⟨-, none_ | ⟨id, rest, claims, uuid⟩ | ⟨costs, -⟩⟩ :=
      begins (by rw [tail, split_plain (rateLimitNameTest_plain sound')]; rfl)
    · cases none_
    · cases claims
      exact absurd uuid.2 (by decide)
    · cases costs

end Resource

namespace DeclaringClient

section Clients

variable {client other upper lower : DeclaringClient} {resource resource' : Resource}

theorem Holds.sound (held : client.Holds resource) : resource.Sound := by
  cases resource with
  | metadata | tombstone => exact held
  | bucket limit => exact client.requestLimits_named limit held
  | claimMark limit => exact ⟨client.requestLimits_named limit held.1, held.2⟩
  | slots limit => exact client.concurrencyLimits_named limit held
  | slotCosts limit => exact client.concurrencyLimits_named limit held
  | _ => trivial

theorem Holds.identify (held : client.Holds resource) : client.Holds (client.identify resource) := by
  cases resource with
  | _ => exact held

theorem Holds.limit {word limit : String} (held : client.Holds resource)
    (named : resource.limitName = some (word, limit)) :
    limit ∈ client.limitsUnder word ∧ client.owner resource = client.budgetOwner := by
  cases resource with
  | bucket | slots | slotCosts =>
    cases named
    exact ⟨held, rfl⟩
  | claimMark =>
    cases named
    exact ⟨held.1, rfl⟩
  | _ => cases named

theorem owner_identify (client : DeclaringClient) (resource : Resource) :
    client.owner (client.identify resource) = client.owner resource := by
  cases resource with
  | _ => rfl

/-- A key stands under a grant only where grants are isolated, and there it is of the budget. -/
theorem scope_identify {grantId : String} (under : (client.identify resource).scope = some grantId) :
    client.usesGrantIsolation = true ∧ client.owner resource = client.budgetOwner := by
  have isolated : ∀ {grant : Option String}, client.budgetGrant grant = some grantId →
      client.usesGrantIsolation = true := by
    intro grant given
    rw [KeyedClient.budgetGrant] at given
    split at given
    · rename_i isolated
      exact isolated
    · cases given
  cases resource with
  | bucket | claimMark | slots | slotCosts | freezeState | thawCompletions => exact ⟨isolated under, rfl⟩
  | _ => cases under

theorem owner_cases (client : DeclaringClient) (resource : Resource) :
    client.owner resource = client.authOwner ∨
      client.owner resource = client.budgetOwner ∧ (∀ grantId, client.identify resource ≠ .credential grantId) ∧
        client.identify resource ≠ .grants := by
  cases resource with
  | credential | grants => exact Or.inl rfl
  | _ => exact Or.inr ⟨rfl, fun _ => by rintro ⟨⟩, by rintro ⟨⟩⟩

/-- A key of one client is a key of one below it only where the names imitate it. -/
theorem imitates_of_below {front : List String} (held : upper.Holds resource) (held' : lower.Holds resource')
    (some_ : front ≠ []) (below : (lower.owner resource').segments = (upper.owner resource).segments ++ front)
    (same : (upper.identify resource).suffix = front ++ (lower.identify resource').suffix) :
    upper.Imitates lower := by
  have sound := held.identify.sound
  have sound' := held'.identify.sound
  cases under : (upper.identify resource).scope with
  | none =>
    rw [Resource.suffix, under, grantPieces, List.nil_append, Resource.suffix, ← List.append_assoc] at same
    have longer : front ++ grantPieces (lower.identify resource').scope ≠ [] := by simp [some_]
    rcases Resource.tail_front sound longer same with ⟨grantId, credential⟩ | ⟨word, limit, more, alone, named, -⟩
    · have owned : upper.owner resource = upper.authOwner := by
        rw [← owner_identify, credential]
        rfl
      rw [credential, Resource.tail, List.append_assoc] at same
      cases front with
      | nil => exact absurd rfl some_
      | cons first rest =>
        cases (List.cons.inj same).1
        rw [owned] at below
        rcases owner_cases lower resource' with auth | ⟨budget, -⟩
        · exact .credential (Or.inr (auth ▸ below))
        · exact .credential (Or.inl (budget ▸ below))
    · obtain ⟨rfl, unscoped⟩ : front = [word] ∧ grantPieces (lower.identify resource').scope = [] := by
        rcases List.append_eq_singleton_iff.mp alone with ⟨none_, -⟩ | ⟨one, none_⟩
        · exact absurd none_ some_
        · exact ⟨one, none_⟩
      rw [unscoped, List.append_nil] at same
      obtain ⟨declared, owned⟩ := held.identify.limit named
      rw [owner_identify] at owned
      rw [owned] at below
      rcases Resource.tail_shift sound sound' named same with
        ⟨rfl, found⟩ | ⟨rfl, found⟩ | ⟨rfl, grantId, found⟩ | ⟨rfl, rfl, -, grantId, found⟩
      · rw [← owner_identify, found] at below
        exact .limit below declared
      · rw [← owner_identify, found] at below
        exact .limitCredential below (Or.inl declared)
      · rw [← owner_identify, found] at below
        exact .limitCredential below (Or.inr declared)
      · have held' := held'.identify
        rw [← owner_identify, found] at below
        rw [found] at held'
        exact .ledger below declared held'
  | some grantId =>
    obtain ⟨isolated, owned⟩ := scope_identify under
    rw [owned] at below
    rw [Resource.suffix, under, grantPieces] at same
    cases front with
    | nil => exact absurd rfl some_
    | cons first rest =>
      rw [List.cons_append, List.cons_append, List.cons.injEq] at same
      obtain ⟨rfl, same⟩ := same
      rcases owner_cases lower resource' with auth | ⟨budget, uncredited, -⟩
      · exact .grantCredential isolated (auth ▸ below)
      · rw [budget] at below
        by_cases direct : rest = []
        · by_cases isolated' : lower.usesGrantIsolation = true
          · exact .grant isolated below (Or.inr (Or.inl isolated'))
          · have unscoped : (lower.identify resource').scope = none := by
              cases under' : (lower.identify resource').scope with
              | none => rfl
              | some other => exact absurd (scope_identify under').1 isolated'
            rw [direct, List.nil_append, Resource.suffix, unscoped, grantPieces, List.nil_append] at same
            rcases Resource.tail_front sound' (split_ne_nil ':' grantId) same.symm with
              ⟨other, credential⟩ | ⟨word, limit, more, one, named, -⟩
            · exact absurd credential (uncredited _)
            · rw [one, List.singleton_append] at same
              rcases Resource.tail_shift sound' sound named same.symm with
                ⟨-, found⟩ | ⟨-, found⟩ | ⟨-, other, found⟩ | ⟨rfl, rfl, -, other, found⟩
              · rw [found] at under
                cases under
              · rw [found] at under
                cases under
              · rw [found] at under
                cases under
              · have held := held.identify
                rw [found] at held
                exact .grant isolated below (Or.inr (Or.inr ⟨held, (held'.identify.limit named).1⟩))
        · exact .grant isolated below (Or.inl direct)

theorem imitates_of_costly (held : upper.Holds resource) (held' : lower.Holds resource')
    (owners : upper.owner resource = lower.owner resource')
    (costly : Resource.Costly (upper.identify resource) (lower.identify resource')) : upper.Imitates lower := by
  obtain ⟨grantId, grantId', slots, costs⟩ := costly
  have isolated := scope_identify (show (upper.identify resource).scope = some grantId by rw [slots]; rfl)
  have isolated' := scope_identify (show (lower.identify resource').scope = some grantId' by rw [costs]; rfl)
  have declared := held.identify
  have declared' := held'.identify
  rw [slots] at declared
  rw [costs] at declared'
  rw [isolated.2, isolated'.2] at owners
  exact .costs owners.symm isolated.1 isolated'.1 declared declared'

/-- One client's key is another's only where the names of the two imitate it. -/
theorem apart_of_names (handler : client.handlerNamespace = other.handlerNamespace) (fair : ¬ client.Imitates other)
    (fair' : ¬ other.Imitates client) : client.Apart other := by
  intro resource resource' held held' same
  have pieces := congrArg (split ':') same
  rw [client.split_key, other.split_key, client.split_home, other.split_home, handler, List.append_assoc,
    List.append_assoc, List.append_cancel_left_eq] at pieces
  have alone : (client.owner resource).segments = (other.owner resource').segments →
      (client.identify resource).suffix = (other.identify resource').suffix →
      client.owner resource = other.owner resource' ∧ client.identify resource = other.identify resource' := by
    intro paths ends
    have owners := ClientPath.segments_injective paths
    refine ⟨owners, ?_⟩
    rcases Resource.suffix_cases held.identify.sound held'.identify.sound ends with equal | costly | costly
    · exact equal
    · exact absurd (imitates_of_costly held held' owners costly) fair
    · exact absurd (imitates_of_costly held' held owners.symm costly) fair'
  rcases List.append_eq_append_iff.mp pieces with ⟨front, longer, ends⟩ | ⟨front, longer, ends⟩
  · by_cases none_ : front = []
    · rw [none_, List.append_nil] at longer
      rw [none_, List.nil_append] at ends
      exact alone longer.symm ends
    · exact absurd (imitates_of_below held held' none_ longer ends) fair
  · by_cases none_ : front = []
    · rw [none_, List.append_nil] at longer
      rw [none_, List.nil_append] at ends
      exact alone longer ends.symm
    · exact absurd (imitates_of_below held' held none_ longer ends) fair'

/-! ### Names that imitate a key -/

theorem Apart.symm (apart : client.Apart other) : other.Apart client := by
  intro resource resource' held held' same
  obtain ⟨owners, resources⟩ := apart resource' resource held' held same.symm
  exact ⟨owners.symm, resources.symm⟩

/-- Keys that agree in pieces agree. -/
theorem Apart.of_pieces (apart : upper.Apart lower) (handler : upper.handlerNamespace = lower.handlerNamespace)
    (held : upper.Holds resource) (held' : lower.Holds resource')
    (pieces : (upper.owner resource).segments ++ (upper.identify resource).suffix =
      (lower.owner resource').segments ++ (lower.identify resource').suffix) :
    upper.owner resource = lower.owner resource' ∧ upper.identify resource = lower.identify resource' := by
  refine apart resource resource' held held' (split_injective ':' ?_)
  rw [upper.split_key, lower.split_key, upper.split_home, lower.split_home, handler, List.append_assoc,
    List.append_assoc, pieces]

/-- No key of a client is one of a client's below it. -/
theorem Apart.not_below (apart : upper.Apart lower) (handler : upper.handlerNamespace = lower.handlerNamespace)
    {front : List String} {resource resource' : Resource} (held : upper.Holds resource)
    (held' : lower.Holds resource')
    (below : (lower.owner resource').segments = (upper.owner resource).segments ++ front) (some_ : front ≠ [])
    (same : (upper.identify resource).suffix = front ++ (lower.identify resource').suffix) : False := by
  have owners := (apart.of_pieces handler held held' (by rw [below, List.append_assoc, same])).1
  rw [owners] at below
  exact some_ (List.append_cancel_left (below.symm.trans (List.append_nil _).symm))

/-- Some grant id is spelled out of the names below a word of a path, and of further pieces. -/
theorem spelled_grant {path : ClientPath} {front rest : List String} {word : String}
    (below : path.segments = front ++ word :: rest) (more : List String)
    (solid : ∀ piece ∈ more, Plain ':' piece ∧ piece ≠ "") (some_ : rest ++ more ≠ []) :
    ∃ grantId, split ':' grantId = rest ++ more ∧ grantId ≠ "" := by
  have each : ∀ piece ∈ rest ++ more, Plain ':' piece ∧ piece ≠ "" := by
    intro piece member
    rcases List.mem_append.mp member with named | later
    · have among : piece ∈ path.segments := by
        rw [below]
        simp [named]
      have accepted := path.segments_accepted piece among
      refine ⟨nameSegment_plain accepted, ?_⟩
      rintro rfl
      exact absurd accepted (by decide)
    · exact solid piece later
  have whole : split ':' ((String.singleton ':').intercalate (rest ++ more)) = rest ++ more :=
    split_intercalate (fun piece member => (each piece member).1) some_
  refine ⟨_, whole, ?_⟩
  intro empty
  rw [empty, split_plain (by decide)] at whole
  exact (each "" (whole ▸ List.mem_singleton_self _)).2 rfl

theorem budgetGrant_of_isolated (isolated : client.usesGrantIsolation = true)
    {grantId : String} (given : grantId ≠ "") : client.budgetGrant (some grantId) = some grantId := by
  rw [KeyedClient.budgetGrant, if_pos isolated, givenGrant, if_neg given]

/-- What is kept for one of the client's own limits. -/
theorem limit_resource {word limit : String} (declared : limit ∈ client.limitsUnder word) :
    ∃ resource, client.Holds resource ∧ client.owner resource = client.budgetOwner ∧
      (client.identify resource).suffix = [word, limit] := by
  have unscoped : client.budgetGrant none = none := by
    rw [KeyedClient.budgetGrant]
    split <;> rfl
  unfold limitsUnder at declared
  split_ifs at declared with bucket ledger
  · refine ⟨.bucket limit none, declared, rfl, ?_⟩
    have named := rateLimitNameTest_plain (client.requestLimits_named limit declared)
    rw [KeyedClient.identify, unscoped, Resource.suffix, Resource.scope, grantPieces, Resource.tail,
      split_plain named, bucket]
    rfl
  · refine ⟨.slots limit none, declared, rfl, ?_⟩
    have named := rateLimitNameTest_plain (client.concurrencyLimits_named limit declared)
    rw [KeyedClient.identify, unscoped, Resource.suffix, Resource.scope, grantPieces, Resource.tail,
      split_plain named, ledger]
    rfl
  · cases declared

/-- What is kept without a grant stands under none. -/
theorem budgetGrant_none (client : DeclaringClient) : client.budgetGrant none = none := by
  rw [KeyedClient.budgetGrant]
  split <;> rfl

theorem suffix_freezeState (isolated : client.usesGrantIsolation = true) {grantId : String} (given : grantId ≠ "") :
    (client.identify (.freezeState (some grantId))).suffix = "grant" :: split ':' grantId ++ ["freezeState"] := by
  rw [KeyedClient.identify, budgetGrant_of_isolated isolated given]
  rfl

theorem suffix_credential (client : DeclaringClient) {grantId : String} (given : grantId ≠ "") :
    (client.identify (.credential (some grantId))).suffix = "oauth2" :: split ':' grantId := by
  rw [KeyedClient.identify, givenGrant, if_neg given]
  rfl

theorem suffix_slots (isolated : client.usesGrantIsolation = true) {limit grantId : String}
    (plain : Plain ':' limit) (given : grantId ≠ "") :
    (client.identify (.slots limit (some grantId))).suffix = "grant" :: split ':' grantId ++
      ["concurrency", limit] := by
  rw [KeyedClient.identify, budgetGrant_of_isolated isolated given, Resource.suffix,
    Resource.tail, split_plain plain]
  rfl

theorem suffix_slotCosts (client : DeclaringClient) {limit : String} (plain : Plain ':' limit)
    (grantId : Option String) : (client.identify (.slotCosts limit grantId)).suffix =
      grantPieces (client.budgetGrant grantId) ++ ["concurrency", limit, "costs"] := by
  rw [KeyedClient.identify, Resource.suffix, Resource.tail, split_plain plain]
  rfl

/-- Where the names imitate a key, some key of one client is some other's. -/
theorem Imitates.not_apart (imitates : upper.Imitates lower)
    (handler : upper.handlerNamespace = lower.handlerNamespace) : ¬ upper.Apart lower := by
  intro apart
  cases imitates with
  | @credential rest below =>
    rcases below with below | below
    · obtain ⟨grantId, pieces, given⟩ := spelled_grant below ["queue"] (by decide) (by simp)
      refine apart.not_below handler (show upper.Holds (.credential (some grantId)) from trivial)
        (show lower.Holds .queue from trivial) below (List.cons_ne_nil _ _) ?_
      rw [suffix_credential upper given, pieces]
      rfl
    · obtain ⟨grantId, pieces, given⟩ := spelled_grant below ["grants"] (by decide) (by simp)
      refine apart.not_below handler (show upper.Holds (.credential (some grantId)) from trivial)
        (show lower.Holds .grants from trivial) below (List.cons_ne_nil _ _) ?_
      rw [suffix_credential upper given, pieces]
      rfl
  | @grantCredential rest isolated below =>
    obtain ⟨grantId, pieces, given⟩ := spelled_grant below ["oauth2"] (by decide) (by simp)
    refine apart.not_below handler (show upper.Holds (.freezeState (some grantId)) from trivial)
      (show lower.Holds (.credential (some "freezeState")) from trivial) below (List.cons_ne_nil _ _) ?_
    rw [suffix_freezeState isolated given, suffix_credential lower (by decide), pieces, split_plain (by decide)]
    simp
  | @grant rest isolated below worse =>
    rcases worse with deeper | isolated' | ⟨declared, declared'⟩
    · obtain ⟨grantId, pieces, given⟩ := spelled_grant below [] (by decide) (by simpa using deeper)
      refine apart.not_below handler (show upper.Holds (.freezeState (some grantId)) from trivial)
        (show lower.Holds (.freezeState none) from trivial) below (List.cons_ne_nil _ _) ?_
      rw [suffix_freezeState isolated given, pieces, KeyedClient.identify, budgetGrant_none]
      simp [Resource.suffix, Resource.scope, grantPieces, Resource.tail]
    · obtain ⟨grantId, pieces, given⟩ := spelled_grant below ["grant", "ada"] (by decide) (by simp)
      refine apart.not_below handler (show upper.Holds (.freezeState (some grantId)) from trivial)
        (show lower.Holds (.freezeState (some "ada")) from trivial) below (List.cons_ne_nil _ _) ?_
      rw [suffix_freezeState isolated given, suffix_freezeState isolated' (by decide),
        pieces, split_plain (by decide)]
      simp
    · obtain ⟨grantId, pieces, given⟩ := spelled_grant below ["concurrency"] (by decide) (by simp)
      refine apart.not_below handler (show upper.Holds (.slots "costs" (some grantId)) from declared)
        (show lower.Holds (.slotCosts "concurrency" none) from declared') below (List.cons_ne_nil _ _) ?_
      rw [suffix_slots isolated (by decide) given, suffix_slotCosts lower (by decide), budgetGrant_none, pieces]
      simp [grantPieces]
  | @limit word below declared =>
    obtain ⟨resource, held, owned, spelled⟩ := limit_resource declared
    exact apart.not_below handler held (show lower.Holds .queue from trivial) (owned ▸ below)
      (List.cons_ne_nil word []) spelled
  | @limitCredential word below declared =>
    rcases declared with declared | declared
    · obtain ⟨resource, held, owned, spelled⟩ := limit_resource declared
      exact apart.not_below handler held (show lower.Holds .grants from trivial) (owned ▸ below)
        (List.cons_ne_nil word []) spelled
    · obtain ⟨resource, held, owned, spelled⟩ := limit_resource declared
      refine apart.not_below handler held (show lower.Holds (.credential none) from trivial)
        (owned ▸ below) ?_ spelled
      exact List.cons_ne_nil word []
  | ledger below declared declared' =>
    refine apart.not_below handler (show upper.Holds (.slotCosts "concurrency" none) from declared)
      (show lower.Holds (.slots "costs" none) from declared') below (List.cons_ne_nil _ _) ?_
    rw [suffix_slotCosts upper (by decide), KeyedClient.identify, budgetGrant_none,
      budgetGrant_none, Resource.suffix, Resource.tail, split_plain (by decide)]
    rfl
  | costs owners isolated isolated' declared declared' =>
    have clash := apart.of_pieces handler (show upper.Holds (.slots "costs" (some "ada:concurrency")) from declared)
      (show lower.Holds (.slotCosts "concurrency" (some "ada")) from declared') (by
        rw [suffix_slots isolated (by decide) (by decide), suffix_slotCosts lower (by decide),
          budgetGrant_of_isolated isolated' (by decide)]
        exact congrArg₂ (fun path pieces => path ++ pieces) (congrArg ClientPath.segments owners.symm) (by decide +kernel))
    cases clash.2

/-- Names with no sub-client named like a word of a key, and no ledgers named `costs` and `concurrency`
under isolated grants, imitate nothing. -/
theorem not_imitates (budget : lower.budgetOwner.Unreserved) (auth : lower.authOwner.Unreserved)
    (apart : lower.budgetOwner = upper.budgetOwner → upper.usesGrantIsolation = true →
      "costs" ∈ upper.concurrencyLimits → "concurrency" ∉ lower.concurrencyLimits) :
    ¬ upper.Imitates lower := by
  have below : ∀ {path owner : ClientPath} {word : String} {rest : List String}, path.Unreserved →
      path.segments = owner.segments ++ word :: rest → word ∉ keyWords := by
    intro path owner word rest unreserved longer
    simp only [ClientPath.segments, List.cons_append, List.cons.injEq] at longer
    exact unreserved word (by rw [longer.2.2.2]; simp)
  have worded : ∀ {word limit : String}, limit ∈ upper.limitsUnder word → word ∈ keyWords := by
    intro word limit declared
    unfold limitsUnder at declared
    split_ifs at declared with bucket ledger
    · exact bucket ▸ by decide
    · exact ledger ▸ by decide
    · cases declared
  intro imitates
  cases imitates with
  | credential longer =>
    rcases longer with longer | longer
    · exact below budget longer (by decide)
    · exact below auth longer (by decide)
  | grantCredential _ longer => exact below auth longer (by decide)
  | grant _ longer => exact below budget longer (by decide)
  | limit longer declared => exact below budget longer (worded declared)
  | limitCredential longer declared =>
    rcases declared with declared | declared
    · exact below auth longer (worded declared)
    · exact below auth longer (worded declared)
  | ledger longer => exact below budget longer (by decide)
  | costs owners isolated _ declared declared' => exact apart owners isolated declared declared'

end Clients

end DeclaringClient

/-- Of the keys of two clients of one handler, any two that agree are of the same resource of the same
client exactly where the names of neither imitate a key of the other's; and the name a client registers
under parses back into what it was built of. -/
theorem keys_apart (client other : DeclaringClient) (handler : client.handlerNamespace = other.handlerNamespace) :
    (client.Apart other ↔ ¬ client.Imitates other ∧ ¬ other.Imitates client) ∧
      ∀ (templateName name : String) (creds : BaseCredentialsData) (subClients : List String),
        registeredName templateName creds subClients = .ok name →
          parseClientName name =
            some ⟨templateName, creds.organizationId, creds.instanceId, ":".intercalate subClients⟩ := by
  constructor
  · constructor
    · intro apart
      exact ⟨fun imitates => imitates.not_apart handler apart,
        fun imitates => imitates.not_apart handler.symm apart.symm⟩
    · rintro ⟨fair, fair'⟩
      exact DeclaringClient.apart_of_names handler fair fair'
  · intro templateName name creds subClients registered
    obtain ⟨path, rfl, organization, instances, rfl, rfl⟩ := ClientPath.registeredName_ok.mp registered
    rw [path.parseClientName_name, organization, instances]

/-- Two keys agree though they are of different resources or different clients'. -/
def DeclaringClient.Collide (client : DeclaringClient) (resource : Resource) (other : DeclaringClient)
    (resource' : Resource) : Prop :=
  client.Holds resource ∧ other.Holds resource' ∧ client.key resource = other.key resource' ∧
    ¬ (client.owner resource = other.owner resource' ∧ client.identify resource = other.identify resource')

/-- A tenant's client `subClients` below the root, with grants isolated and limits named like pieces of keys. -/
def tenant (subClients : List String) (accepted : ∀ child ∈ subClients, nameSegment child = true) :
    DeclaringClient :=
  let path : ClientPath := ⟨"crm", some "acme", "main", subClients, by decide, by decide, by decide, accepted⟩
  ⟨⟨"dianemo", path, path, true⟩, ["queue", "per_day"], ["concurrency", "costs"], by decide, by decide⟩

theorem tenants_collide {subClients subClients' : List String}
    {accepted : ∀ child ∈ subClients, nameSegment child = true}
    {accepted' : ∀ child ∈ subClients', nameSegment child = true} {resource resource' : Resource}
    (held : (tenant subClients accepted).Holds resource) (held' : (tenant subClients' accepted').Holds resource')
    (pieces : ((tenant subClients accepted).owner resource).segments ++
      ((tenant subClients accepted).identify resource).suffix =
      ((tenant subClients' accepted').owner resource').segments ++
        ((tenant subClients' accepted').identify resource').suffix)
    (different : ¬ ((tenant subClients accepted).owner resource = (tenant subClients' accepted').owner resource' ∧
      (tenant subClients accepted).identify resource = (tenant subClients' accepted').identify resource')) :
    (tenant subClients accepted).Collide resource (tenant subClients' accepted') resource' := by
  refine ⟨held, held', split_injective ':' ?_, different⟩
  rw [KeyedClient.split_key, KeyedClient.split_key, KeyedClient.split_home,
    KeyedClient.split_home, List.append_assoc, List.append_assoc, pieces]
  rfl

/-- Keys that agree where a sub-client is named like a piece of a key, or a grant ends like a ledger. -/
theorem keys_collide :
    (tenant ["rateLimit"] (by decide)).Collide .queue (tenant [] (by decide)) (.bucket "queue" none) ∧
      (tenant ["concurrency"] (by decide)).Collide (.slots "costs" none) (tenant [] (by decide))
        (.slotCosts "concurrency" none) ∧
      (tenant ["grant", "ada"] (by decide)).Collide (.bucket "per_day" none) (tenant [] (by decide))
        (.bucket "per_day" (some "ada")) ∧
      (tenant ["oauth2"] (by decide)).Collide (.credential none) (tenant [] (by decide))
        (.credential (some "oauth2")) ∧
      (tenant [] (by decide)).Collide (.slots "costs" (some "ada:concurrency")) (tenant [] (by decide))
        (.slotCosts "concurrency" (some "ada")) :=
  ⟨tenants_collide trivial (by simp [DeclaringClient.Holds, tenant]) (by decide +kernel) (by decide +kernel),
    tenants_collide (by simp [DeclaringClient.Holds, tenant])
      (by simp [DeclaringClient.Holds, tenant]) (by decide +kernel)
      (by decide +kernel),
    tenants_collide (by simp [DeclaringClient.Holds, tenant])
      (by simp [DeclaringClient.Holds, tenant]) (by decide +kernel)
      (by decide +kernel),
    tenants_collide trivial trivial (by decide +kernel) (by decide +kernel),
    tenants_collide (by simp [DeclaringClient.Holds, tenant])
      (by simp [DeclaringClient.Holds, tenant]) (by decide +kernel)
      (by decide +kernel)⟩

/-- A client's bucket and its sub-client's; and the name of a sub-client's sub-client. -/
theorem keys_apart_tenants :
    (tenant [] (by decide)).key (.bucket "per_day" (some "ada")) ≠
        (tenant ["reports"] (by decide)).key (.bucket "per_day" (some "ada")) ∧
      parseClientName "crm:_:main:reports:daily" = some ⟨"crm", none, "main", "reports:daily"⟩ := by
  constructor
  · have root : (tenant [] (by decide)).budgetOwner ≠ (tenant ["reports"] (by decide)).budgetOwner := by decide
    have fair : ¬ (tenant [] (by decide)).Imitates (tenant ["reports"] (by decide)) :=
      DeclaringClient.not_imitates (by decide) (by decide) (fun owners => absurd owners.symm root)
    have fair' : ¬ (tenant ["reports"] (by decide)).Imitates (tenant [] (by decide)) :=
      DeclaringClient.not_imitates (by decide) (by decide) (fun owners => absurd owners root)
    intro same
    have named : "per_day" ∈ ["queue", "per_day"] := by decide
    have apart := (keys_apart (tenant [] (by decide)) (tenant ["reports"] (by decide)) rfl).1.mpr ⟨fair, fair'⟩
    exact root (apart (.bucket "per_day" (some "ada")) (.bucket "per_day" (some "ada")) named named same).1
  · exact (keys_apart (tenant [] (by decide)) (tenant [] (by decide)) rfl).2 "crm" _ ⟨"main",
      none⟩ ["reports", "daily"] (by decide +kernel)

end Dianemo
