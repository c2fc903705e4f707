import Dianemo.Items
import Dianemo.Concurrency
import Dianemo.Thaw
import Dianemo.Registry
import Dianemo.Library.Segments

namespace Dianemo

open Segments

structure BaseCredentialsData where
  instanceId : String
  organizationId : Option String

/-- A name taken apart; `instanceAlias` is the source's `alias`. -/
structure ParsedClientName where
  templateName : String
  organizationId : Option String
  instanceAlias : String
  subClientPath : String
  deriving DecidableEq

/-- The segment of a client of no organization. -/
def globalOrganizationSegment : String := "_"

def assertNameSegment (value field : String) : Except ConfigurationError Unit :=
  if ¬ nameSegment value then .error ⟨"invalid_client_name_segment", value⟩
  else if field = "organizationId" ∧ value = globalOrganizationSegment then
    .error ⟨"invalid_client_name_segment", value⟩
  else .ok ()

def buildClientName (templateName : String) (creds : BaseCredentialsData) : Except ConfigurationError String := do
  assertNameSegment creds.instanceId "instanceId"
  match creds.organizationId with
  | some organizationId => assertNameSegment organizationId "organizationId"
  | none => pure ()
  return templateName ++ ":" ++ creds.organizationId.getD globalOrganizationSegment ++ ":" ++ creds.instanceId

/-- The name of the sub-client that `path` leads to below the client `name`, each
child checked as `prepareClients` walks down to it. -/
def subClientName (name : String) : List String → Except ConfigurationError String
  | [] => .ok name
  | child :: path => do
    assertNameSegment child "A sub-client's name"
    subClientName (name ++ ":" ++ child) path

/-- The name a client registers under, of a template whose own name passed `registerClientTemplate`. -/
def registeredName (templateName : String) (creds : BaseCredentialsData) (path : List String) :
    Except ConfigurationError String :=
  if ¬ nameSegment templateName then .error ⟨"invalid_template_name", templateName⟩
  else do
    let root ← buildClientName templateName creds
    subClientName root path

def parseClientName (clientName : String) : Option ParsedClientName :=
  match split ':' clientName with
  | templateName :: orgSegment :: instanceAlias :: rest =>
    some ⟨templateName, if orgSegment = globalOrganizationSegment then none else some orgSegment, instanceAlias,
      ":".intercalate rest⟩
  | _ => none

/-- A client's place: its template, instance and organization, and the path of
sub-clients below them, of segments the checks accept. -/
@[ext]
structure ClientPath where
  templateName : String
  organizationId : Option String
  instanceId : String
  subClients : List String
  template_accepted : nameSegment templateName = true
  organization_accepted : ∀ id ∈ organizationId, nameSegment id = true ∧ id ≠ globalOrganizationSegment
  instance_accepted : nameSegment instanceId = true
  subClients_accepted : ∀ child ∈ subClients, nameSegment child = true
  deriving DecidableEq

namespace ClientPath

def segments (path : ClientPath) : List String :=
  path.templateName :: path.organizationId.getD globalOrganizationSegment :: path.instanceId :: path.subClients

def name (path : ClientPath) : String := ":".intercalate path.segments

end ClientPath

/-- What names a registered client's keys: the client whose budget it spends,
itself unless it borrows a `sharedLimit` owner's, the client that holds its
credentials, and whether the budget's owner isolates its grants. -/
structure KeyedClient where
  handlerNamespace : String
  budgetOwner : ClientPath
  authOwner : ClientPath
  usesGrantIsolation : Bool

/-- `name.replaceAll(/ /g, "_")`. -/
def replaceSpaces (name : String) : String := name.map fun c => if c = ' ' then '_' else c

namespace KeyedClient

variable (client : KeyedClient)

/-- `namespace`. -/
def nspace : String := client.handlerNamespace ++ ":" ++ replaceSpaces client.budgetOwner.name

def authNamespace : String := client.handlerNamespace ++ ":" ++ replaceSpaces client.authOwner.name

/-- A key of the budget, under the grant where there is one and grants are isolated. -/
def scopedKey (word : String) (grantId : Option String) : String :=
  match grantId with
  | none => client.nspace ++ ":" ++ word
  | some grant =>
    if grant = "" then client.nspace ++ ":" ++ word
    else if ¬ client.usesGrantIsolation then client.nspace ++ ":" ++ word
    else client.nspace ++ ":grant:" ++ grant ++ ":" ++ word

def getRateLimitKey (grantId : Option String) : String := client.scopedKey "rateLimit" grantId

def getConcurrencyKey (grantId : Option String) : String := client.scopedKey "concurrency" grantId

def getFreezeStateKey (grantId : Option String) : String := client.scopedKey "freezeState" grantId

def getBucketKey (name : String) (grantId : Option String) : String := client.getRateLimitKey grantId ++ ":" ++ name

def getSlotKey (name : String) (grantId : Option String) : String := client.getConcurrencyKey grantId ++ ":" ++ name

def getFrozenGrantsKey : String := client.nspace ++ ":frozenGrants"

/-- `saveOAuthData`'s `key`; a falsy grant has the client's own. -/
def credentialKey (grantId : Option String) : String :=
  match grantId with
  | none => client.authNamespace ++ ":oauth2"
  | some grant =>
    if grant = "" then client.authNamespace ++ ":oauth2"
    else client.authNamespace ++ ":oauth2:" ++ grant

def grantsKey : String := client.authNamespace ++ ":grants"

end KeyedClient

/-- The id an attempt's capacity is recorded under. -/
def getSlotId (requestId : String) (retries : ℕ) : String :=
  if retries = 0 then requestId else requestId ++ ":retry:" ++ toString retries

/-- What a client keeps in the backend. -/
inductive Resource where
  | queue
  | metadata (requestId : String)
  | tombstone (requestId : String)
  | bucket (limit : String) (grantId : Option String)
  | claimMark (limit : String) (grantId : Option String) (requestId : String) (retries : ℕ)
  | slots (limit : String) (grantId : Option String)
  | slotCosts (limit : String) (grantId : Option String)
  | freezeState (grantId : Option String)
  | thawCompletions (grantId : Option String)
  | frozenGrants
  | credential (grantId : Option String)
  | grants
  deriving DecidableEq

/-- Where a client keeps it. -/
def KeyedClient.key (client : KeyedClient) : Resource → String
  | .queue => (clientQueue client.nspace).queueKey
  | .metadata requestId => (clientQueue client.nspace).metadataKey requestId
  | .tombstone requestId => (clientQueue client.nspace).tombstoneKey requestId
  | .bucket limit grantId => client.getBucketKey limit grantId
  | .claimMark limit grantId requestId retries =>
    claimMarkKey (client.getBucketKey limit grantId) (getSlotId requestId retries)
  | .slots limit grantId => client.getSlotKey limit grantId
  | .slotCosts limit grantId => costsKey (client.getSlotKey limit grantId)
  | .freezeState grantId => client.getFreezeStateKey grantId
  | .thawCompletions grantId => thawCompletionsKey (client.getFreezeStateKey grantId)
  | .frozenGrants => client.getFrozenGrantsKey
  | .credential grantId => client.credentialKey grantId
  | .grants => client.grantsKey

/-- A grant id that is not falsy. -/
def givenGrant : Option String → Option String
  | none => none
  | some grantId => if grantId = "" then none else some grantId

namespace KeyedClient

variable (client : KeyedClient)

/-- The grant whose budget a request under `grantId` spends, or `none` for the client's own. -/
def budgetGrant (grantId : Option String) : Option String :=
  if client.usesGrantIsolation then givenGrant grantId else none

/-- Of all the names for one resource, the one that says which it is. -/
def identify : Resource → Resource
  | .bucket limit grantId => .bucket limit (client.budgetGrant grantId)
  | .claimMark limit grantId requestId retries => .claimMark limit (client.budgetGrant grantId) requestId retries
  | .slots limit grantId => .slots limit (client.budgetGrant grantId)
  | .slotCosts limit grantId => .slotCosts limit (client.budgetGrant grantId)
  | .freezeState grantId => .freezeState (client.budgetGrant grantId)
  | .thawCompletions grantId => .thawCompletions (client.budgetGrant grantId)
  | .credential grantId => .credential (givenGrant grantId)
  | resource => resource

/-- The client a resource belongs to. -/
def owner : Resource → ClientPath
  | .credential _ | .grants => client.authOwner
  | _ => client.budgetOwner

end KeyedClient

/-! ### Names -/

theorem nameSegment_plain {value : String} (accepted : nameSegment value = true) : Plain ':' value := by
  intro member
  simp only [nameSegment, Bool.and_eq_true, List.all_eq_true, decide_eq_true_eq, ne_eq] at accepted
  exact (accepted.2 _ member).1 rfl

theorem nameSegment_solid {value : String} (accepted : nameSegment value = true) : ' ' ∉ value.toList := by
  intro member
  simp only [nameSegment, Bool.and_eq_true, List.all_eq_true, decide_eq_true_eq, ne_eq] at accepted
  exact absurd (accepted.2 _ member).2 (by decide)

theorem replaceSpaces_solid {text : String} (solid : ' ' ∉ text.toList) : replaceSpaces text = text := by
  have unmoved : ∀ c ∈ text.toList, (if c = ' ' then '_' else c) = c := by
    intro c member
    rw [if_neg]
    rintro rfl
    exact solid member
  rw [← String.toList_inj, replaceSpaces, String.toList_map]
  exact (List.map_congr_left unmoved).trans (List.map_id _)

theorem intercalate_solid {pieces : List String} (accepted : ∀ piece ∈ pieces, nameSegment piece = true) :
    ' ' ∉ (":".intercalate pieces).toList := by
  induction pieces with
  | nil => simp
  | cons piece rest ih =>
    have first := nameSegment_solid (accepted piece List.mem_cons_self)
    have others := ih fun other member => accepted other (List.mem_cons_of_mem _ member)
    cases rest with
    | nil => simpa using first
    | cons next rest =>
      rw [String.intercalate_cons_cons, String.toList_append, String.toList_append,
        List.mem_append, List.mem_append, not_or, not_or]
      exact ⟨⟨first, by decide⟩, others⟩

theorem check_bind {β : Type} {check : Except ConfigurationError Unit}
    {f : Unit → Except ConfigurationError β} {b : β} :
    (check >>= f) = .ok b ↔ check = .ok () ∧ f () = .ok b := by
  cases check with
  | error error => simp [bind, Except.bind]
  | ok => simp [bind, Except.bind]

theorem assertNameSegment_ok {value field : String} :
    assertNameSegment value field = .ok () ↔
      nameSegment value = true ∧ ¬ (field = "organizationId" ∧ value = globalOrganizationSegment) := by
  unfold assertNameSegment
  by_cases accepted : nameSegment value = true
  · rw [if_neg (not_not.mpr accepted)]
    by_cases reserved : field = "organizationId" ∧ value = globalOrganizationSegment
    · simp [reserved]
    · rw [if_neg reserved]
      exact ⟨fun _ => ⟨accepted, reserved⟩, fun _ => rfl⟩
  · simp [accepted]

theorem assertNameSegment_ok_of_ne {value field : String} (other : field ≠ "organizationId") :
    assertNameSegment value field = .ok () ↔ nameSegment value = true :=
  assertNameSegment_ok.trans ⟨fun checked => checked.1,
    fun accepted => ⟨accepted, fun reserved => other reserved.1⟩⟩

theorem buildClientName_ok {templateName name : String} {creds : BaseCredentialsData} :
    buildClientName templateName creds = .ok name ↔
      nameSegment creds.instanceId = true ∧
        (∀ id ∈ creds.organizationId, nameSegment id = true ∧ id ≠ globalOrganizationSegment) ∧
        templateName ++ ":" ++ creds.organizationId.getD globalOrganizationSegment ++ ":" ++
          creds.instanceId = name := by
  rw [buildClientName, check_bind, assertNameSegment_ok_of_ne (by decide)]
  cases creds.organizationId with
  | none => simp [pure, Except.pure]
  | some id => simp [check_bind, assertNameSegment_ok, pure, Except.pure]

theorem subClientName_ok {root name : String} {path : List String} :
    subClientName root path = .ok name ↔
      (∀ child ∈ path, nameSegment child = true) ∧ ":".intercalate (root :: path) = name := by
  induction path generalizing root with
  | nil => simp [subClientName]
  | cons child path ih =>
    have joined : ":".intercalate ((root ++ ":" ++ child) :: path) = ":".intercalate (root :: child :: path) := by
      rw [String.intercalate_cons_append, String.intercalate_cons_cons]
    rw [subClientName, check_bind, assertNameSegment_ok_of_ne (by decide), ih, joined,
      List.forall_mem_cons, and_assoc]

namespace ClientPath

variable (path : ClientPath)

theorem segments_accepted : ∀ piece ∈ path.segments, nameSegment piece = true := by
  have organization : nameSegment (path.organizationId.getD globalOrganizationSegment) = true := by
    cases h : path.organizationId with
    | none => decide
    | some id => exact (path.organization_accepted id h).1
  simp only [segments, List.mem_cons]
  rintro piece (rfl | rfl | rfl | below)
  · exact path.template_accepted
  · exact organization
  · exact path.instance_accepted
  · exact path.subClients_accepted piece below

theorem replaceSpaces_name : replaceSpaces path.name = path.name :=
  replaceSpaces_solid (intercalate_solid path.segments_accepted)

theorem split_name : split ':' path.name = path.segments :=
  split_intercalate (fun piece member => nameSegment_plain (path.segments_accepted piece member)) (List.cons_ne_nil _ _)

/-- A client's name says which client it is. -/
theorem segments_injective : Function.Injective segments := by
  intro a b same
  simp only [segments, List.cons.injEq] at same
  obtain ⟨template, organization, instances, below⟩ := same
  have organizations : a.organizationId = b.organizationId := by
    cases ha : a.organizationId with
    | none =>
      cases hb : b.organizationId with
      | none => rfl
      | some id =>
        rw [ha, hb] at organization
        exact absurd organization.symm (b.organization_accepted id hb).2
    | some id =>
      cases hb : b.organizationId with
      | none =>
        rw [ha, hb] at organization
        exact absurd organization (a.organization_accepted id ha).2
      | some other =>
        rw [ha, hb] at organization
        exact congrArg some organization
  exact ClientPath.ext template organizations instances below

theorem name_eq :
    path.name = ":".intercalate
      ((path.templateName ++ ":" ++ path.organizationId.getD globalOrganizationSegment ++ ":" ++ path.instanceId) ::
        path.subClients) := by
  rw [name, segments, String.intercalate_cons_append, String.intercalate_cons_cons, String.intercalate_cons_cons]
  simp only [String.append_assoc]

/-- The names clients register under are those of their places. -/
theorem registeredName_ok {templateName name : String} {creds : BaseCredentialsData} {subClients : List String} :
    registeredName templateName creds subClients = .ok name ↔
      ∃ path : ClientPath, path.templateName = templateName ∧ path.organizationId = creds.organizationId ∧
        path.instanceId = creds.instanceId ∧ path.subClients = subClients ∧ path.name = name := by
  constructor
  · intro built
    by_cases template : nameSegment templateName = true
    · rw [registeredName, if_neg (not_not.mpr template)] at built
      cases rooted : buildClientName templateName creds with
      | error error =>
        rw [rooted] at built
        cases built
      | ok root =>
        rw [rooted] at built
        obtain ⟨instances, organization, rfl⟩ := buildClientName_ok.mp rooted
        obtain ⟨below, rfl⟩ := subClientName_ok.mp built
        exact ⟨⟨templateName, creds.organizationId, creds.instanceId, subClients, template, organization, instances, below⟩,
          rfl, rfl, rfl, rfl, name_eq _⟩
    · rw [registeredName, if_pos template] at built
      cases built
  · rintro ⟨path, rfl, organization, instances, rfl, rfl⟩
    have rooted : buildClientName path.templateName creds =
        .ok (path.templateName ++ ":" ++ path.organizationId.getD globalOrganizationSegment ++
          ":" ++ path.instanceId) := by
      rw [buildClientName_ok, ← organization, ← instances]
      exact ⟨path.instance_accepted, path.organization_accepted, rfl⟩
    rw [registeredName, if_neg (not_not.mpr path.template_accepted), rooted]
    exact subClientName_ok.mpr ⟨path.subClients_accepted, path.name_eq.symm⟩

theorem parseClientName_name :
    parseClientName path.name =
      some ⟨path.templateName, path.organizationId, path.instanceId, ":".intercalate path.subClients⟩ := by
  rw [parseClientName, split_name, segments]
  cases h : path.organizationId with
  | none => simp
  | some id => simp [(path.organization_accepted id h).2]

end ClientPath

/-! ### Keys in pieces -/

theorem split_colon (a b : String) : split ':' (a ++ ":" ++ b) = split ':' a ++ split ':' b := split_append ':' a b

/-- A key with a last piece written out. -/
theorem split_literal (front literal word : String) (spelled : literal = ":" ++ word) (plain : Plain ':' word) :
    split ':' (front ++ literal) = split ':' front ++ [word] := by
  rw [spelled, ← String.append_assoc, split_colon, split_plain plain]

/-- A key with a piece written out before a last part. -/
theorem split_marked (front literal word last : String) (spelled : literal = ":" ++ word ++ ":")
    (plain : Plain ':' word) : split ':' (front ++ literal ++ last) = split ':' front ++
    word :: split ':' last := by
  rw [spelled, ← String.append_assoc, ← String.append_assoc, split_colon, split_colon, split_plain plain,
    List.append_assoc, List.singleton_append]

namespace KeyedClient

variable (client : KeyedClient)

/-- The pieces every key of a client's budget begins with. -/
theorem split_nspace : split ':' client.nspace = split ':' client.handlerNamespace ++
    client.budgetOwner.segments := by
  rw [nspace, split_colon, ClientPath.replaceSpaces_name, ClientPath.split_name]

theorem split_authNamespace :
    split ':' client.authNamespace = split ':' client.handlerNamespace ++ client.authOwner.segments := by
  rw [authNamespace, split_colon, ClientPath.replaceSpaces_name, ClientPath.split_name]

end KeyedClient

/-- The pieces that put a key under a grant. -/
def grantPieces : Option String → List String
  | none => []
  | some grantId => "grant" :: split ':' grantId

def credentialPieces : Option String → List String
  | none => []
  | some grantId => split ':' grantId

namespace Resource

/-- The grant a key stands under. -/
def scope : Resource → Option String
  | .bucket _ grantId | .claimMark _ grantId _ _ | .slots _ grantId | .slotCosts _ grantId | .freezeState grantId
  | .thawCompletions grantId => grantId
  | _ => none

/-- The pieces of a key after its client and its grant. -/
def tail : Resource → List String
  | .queue => ["queue"]
  | .metadata requestId => "request" :: split ':' requestId
  | .tombstone requestId => "request" :: split ':' requestId ++ ["removed"]
  | .bucket limit _ => "rateLimit" :: split ':' limit
  | .claimMark limit _ requestId retries =>
    "rateLimit" :: split ':' limit ++ "claim" :: split ':' (getSlotId requestId retries)
  | .slots limit _ => "concurrency" :: split ':' limit
  | .slotCosts limit _ => "concurrency" :: split ':' limit ++ ["costs"]
  | .freezeState _ => ["freezeState"]
  | .thawCompletions _ => ["freezeState", "thawCompletions"]
  | .frozenGrants => ["frozenGrants"]
  | .credential grantId => "oauth2" :: credentialPieces grantId
  | .grants => ["grants"]

def suffix (resource : Resource) : List String := grantPieces resource.scope ++ resource.tail

end Resource

namespace KeyedClient

variable (client : KeyedClient)

theorem split_scopedKey {word : String} (plain : Plain ':' word) (grantId : Option String) :
    split ':' (client.scopedKey word grantId) =
      split ':' client.nspace ++ (grantPieces (client.budgetGrant grantId) ++ [word]) := by
  have own : split ':' (client.nspace ++ ":" ++ word) = split ':' client.nspace ++ [word] := by
    rw [split_colon, split_plain plain]
  cases grantId with
  | none => simpa [scopedKey, budgetGrant, givenGrant, grantPieces] using own
  | some grant =>
    by_cases empty : grant = ""
    · simpa [scopedKey, budgetGrant, givenGrant, grantPieces, empty] using own
    · cases isolated : client.usesGrantIsolation with
      | false => simpa [scopedKey, budgetGrant, grantPieces, empty, isolated] using own
      | true =>
        have marked := split_marked client.nspace ":grant:" "grant" grant (by simp) (by decide)
        simp [scopedKey, budgetGrant, givenGrant, grantPieces, empty, isolated, split_colon,
          marked, split_plain plain]

theorem split_credentialKey (grantId : Option String) :
    split ':' (client.credentialKey grantId) =
      split ':' client.authNamespace ++ "oauth2" :: credentialPieces (givenGrant grantId) := by
  have own := split_literal client.authNamespace ":oauth2" "oauth2" (by simp) (by decide)
  cases grantId with
  | none => simpa [credentialKey, givenGrant, credentialPieces] using own
  | some grant =>
    by_cases empty : grant = ""
    · simpa [credentialKey, givenGrant, credentialPieces, empty] using own
    · have marked := split_marked client.authNamespace ":oauth2:" "oauth2" grant (by simp) (by decide)
      simp [credentialKey, givenGrant, credentialPieces, empty, marked]

/-- The namespace a resource's key begins with. -/
def home : Resource → String
  | .credential _ | .grants => client.authNamespace
  | _ => client.nspace

theorem split_home (resource : Resource) :
    split ':' (client.home resource) = split ':' client.handlerNamespace ++ (client.owner resource).segments := by
  cases resource with
  | credential | grants => exact client.split_authNamespace
  | _ => exact client.split_nspace

theorem split_bucketKey (limit : String) (grantId : Option String) :
    split ':' (client.getBucketKey limit grantId) =
      split ':' client.nspace ++ (grantPieces (client.budgetGrant grantId) ++ "rateLimit" :: split ':' limit) := by
  rw [getBucketKey, split_colon, getRateLimitKey, client.split_scopedKey (by decide),
    List.append_assoc, List.append_assoc, List.singleton_append]

theorem split_slotKey (limit : String) (grantId : Option String) :
    split ':' (client.getSlotKey limit grantId) =
      split ':' client.nspace ++ (grantPieces (client.budgetGrant grantId) ++
        "concurrency" :: split ':' limit) := by
  rw [getSlotKey, split_colon, getConcurrencyKey, client.split_scopedKey (by decide),
    List.append_assoc, List.append_assoc, List.singleton_append]

theorem split_metadataKey (requestId : String) :
    split ':' ((clientQueue client.nspace).metadataKey requestId) =
      split ':' client.nspace ++ "request" :: split ':' requestId := by
  rw [QueueKeys.metadataKey, split_colon, clientQueue, split_literal _ ":request" "request" (by simp) (by decide),
    List.append_assoc, List.singleton_append]

theorem split_freezeStateKey (grantId : Option String) :
    split ':' (client.getFreezeStateKey grantId) =
      split ':' client.nspace ++ (grantPieces (client.budgetGrant grantId) ++ ["freezeState"]) :=
  client.split_scopedKey (by decide) grantId

/-- A key in pieces: where its owner's begin, and what it is of the owner's. -/
theorem split_key (resource : Resource) :
    split ':' (client.key resource) = split ':' (client.home resource) ++ (client.identify resource).suffix := by
  cases resource with
  | queue => exact split_literal client.nspace ":queue" "queue" (by simp) (by decide)
  | metadata requestId => exact client.split_metadataKey requestId
  | tombstone requestId =>
    have removed :=
      split_literal ((clientQueue client.nspace).metadataKey requestId) ":removed" "removed" (by simp) (by decide)
    rw [split_metadataKey, List.append_assoc] at removed
    exact removed
  | bucket limit grantId => exact client.split_bucketKey limit grantId
  | claimMark limit grantId requestId retries =>
    have mark :=
      split_marked (client.getBucketKey limit grantId) ":claim:" "claim" (getSlotId requestId retries) (by simp)
      (by decide)
    rw [split_bucketKey, List.append_assoc, List.append_assoc] at mark
    exact mark
  | slots limit grantId => exact client.split_slotKey limit grantId
  | slotCosts limit grantId =>
    have costs := split_literal (client.getSlotKey limit grantId) ":costs" "costs" (by simp) (by decide)
    rw [split_slotKey, List.append_assoc, List.append_assoc] at costs
    exact costs
  | freezeState grantId => exact client.split_freezeStateKey grantId
  | thawCompletions grantId =>
    have completions :=
      split_literal (client.getFreezeStateKey grantId) ":thawCompletions" "thawCompletions" (by simp)
      (by decide)
    rw [split_freezeStateKey, List.append_assoc, List.append_assoc] at completions
    exact completions
  | frozenGrants => exact split_literal client.nspace ":frozenGrants" "frozenGrants" (by simp) (by decide)
  | credential grantId => exact client.split_credentialKey grantId
  | grants => exact split_literal client.authNamespace ":grants" "grants" (by simp) (by decide)

end KeyedClient

end Dianemo
