import Dianemo.Library.Tasks

namespace Dianemo

/-- A key that holds OAuth tokens: an auth namespace, and the grant they are for. -/
abbrev TokenKey := String × Option String

/-- A client object: its name, and a number no other object of the name has. -/
abbrev ClientObject := String × ℕ

/-- The clients of one template instance, and the credentials the backend holds for them. -/
structure Credentials where
  tokens : Finset TokenKey
  /-- The keys a deletion of which failed. -/
  undeleted : Finset TokenKey
  grants : String → List String
  /-- The flag a client holds in `credentialLines`. -/
  line : ClientObject → ClientObject
  retired : ClientObject → Bool
  clients : List ClientObject
  /-- Every client that has been registered, whether or not it still is. -/
  made : List ClientObject
  serial : ℕ
  locked : Bool
  /-- How often the instance has been removed. -/
  generation : ℕ

namespace Credentials

variable (s : Credentials)

def isCredentialWriteRetired (client : ClientObject) : Bool := s.retired (s.line client)

def retireCredentialWrites (client : ClientObject) : Credentials :=
  { s with retired := Function.update s.retired (s.line client) true }

def inheritCredentialLine (previous next : ClientObject) : Credentials :=
  { s with line := Function.update s.line next (s.line previous) }

def hset (key : TokenKey) : Credentials := { s with tokens := insert key s.tokens }

/-- A deletion, which may fail. -/
def del (key : TokenKey) (deletes : Bool) : Credentials :=
  { s with
    tokens := if deletes then s.tokens.erase key else s.tokens
    undeleted := if deletes then s.undeleted else insert key s.undeleted }

def sadd (authNamespace grantId : String) : Credentials :=
  { s with grants := Function.update s.grants authNamespace ((s.grants authNamespace).insert grantId) }

def delGrants (authNamespace : String) (deletes : Bool) : Credentials :=
  { s with grants := if deletes then Function.update s.grants authNamespace [] else s.grants }

def registered (name : String) : Option ClientObject := s.clients.find? fun client => client.1 = name

/-- A client of the name is made and registered. -/
def register (name : String) : Credentials :=
  { s with clients := (name, s.serial) :: s.clients, made := (name, s.serial) :: s.made, serial := s.serial + 1 }

def unregister (client : ClientObject) : Credentials :=
  { s with clients := s.clients.filter fun other => other ≠ client }

def lock : Credentials := { s with locked := true }

def unlock : Credentials := { s with locked := false }

end Credentials

/-- Where a refresh waits, by the call it waits for. -/
inductive SaveStage where
  /-- `fetchGrantRefreshToken`, and whether the hash was there. -/
  | hgetallRefreshToken (found : Bool)
  | http
  | hgetall
  | hset
  | sadd
  | expire
  deriving DecidableEq

inductive SetGrantStage where
  | hset
  | sadd
  | expire
  | tracked
  | del
  deriving DecidableEq

inductive RebuildStage where
  | entryLock
  | retire (stale : ClientObject) (retiring : List String)
  | names
  /-- `resetClient` of the client the first replacement replaces. -/
  | reset (previous : ClientObject) (name : String) (rest : List String)
  | init (rest : List String)
  deriving DecidableEq

inductive DestroyStage where
  | entryLock
  | destroy (client : ClientObject) (rest : List ClientObject)
  /-- `smembers` of the templates. -/
  | templates
  /-- `smembers` of a client's grants, with its reply. -/
  | smembers (client : ClientObject) (grants : List String) (rest : List ClientObject)
  | del (client : ClientObject) (keys : List TokenKey) (rest : List ClientObject)
  | delGrants (rest : List ClientObject)
  deriving DecidableEq

inductive CredentialTask where
  | refresh (client : ClientObject) (grantId : Option String) (stage : SaveStage)
  | setGrantTokens (client : ClientObject) (grantId : String) (stage : SetGrantStage)
  /-- A build, with the names to drop, those to make clients of, and the `generation` it was called at. -/
  | build (retiring replacements : List String) (generation : ℕ) (stage : RebuildStage)
  /-- A removal, with the clients it found registered. -/
  | destroyTemplateClients (purgeCredentials : Bool) (clients : List ClientObject) (stage : DestroyStage)
  deriving DecidableEq

/-- What reaches the handler from outside, the end of a key's lifetime included. -/
inductive CredentialCall where
  /-- A refresh, and whether the request it makes carries the `refreshToken` placeholder. -/
  | refresh (client : ClientObject) (grantId : Option String) (carries : Bool)
  | setGrantTokens (client : ClientObject) (grantId : String)
  | build (retiring replacements : List String)
  | destroyTemplateClients (purgeCredentials : Bool)
  | tokensLapse (key : TokenKey)
  | grantsLapse (authNamespace : String)
  deriving DecidableEq

/-- How the call that a turn waited for ended, and whether a deletion it then asks for goes through. -/
structure CredentialReply where
  ok : Bool := true
  deletes : Bool := true

inductive CredentialReturn where
  | refreshed
  | stored
  | clientRemoved
  | built
  /-- The clients whose credentials were purged. -/
  | destroyed (purged : List ClientObject)
  deriving DecidableEq

/-- Where the clients of a handler file their credentials. -/
structure CredentialClients where
  authNamespace : ClientObject → String

namespace CredentialClients

abbrev Pool := Tasks.Pool Credentials CredentialTask CredentialReturn

def waits (s : Credentials) (task : CredentialTask) : Pool := ⟨s, [task], []⟩

def returns (s : Credentials) (result : CredentialReturn) : Pool := ⟨s, [], [result]⟩

/-- The next client to drop, or the names once there is none. -/
def retireNext (replacements : List String) (generation : ℕ) (s : Credentials) : List String → Pool
  | [] => waits s (.build [] replacements generation .names)
  | name :: retiring =>
    match s.registered name with
    | some stale => waits s (.build [] replacements generation (.retire stale retiring))
    | none => retireNext replacements generation s retiring

/-- The next replacement is built in, or the lock let go. -/
def commit (generation : ℕ) (s : Credentials) : List String → Pool
  | [] => returns s.unlock .built
  | name :: rest =>
    match s.registered name with
    | some previous => waits s (.build [] [] generation (.reset previous name rest))
    | none => waits (s.register name) (.build [] [] generation (.init rest))

/-- A build on its turn; `none` while it waits for the lock. -/
def resumeBuild (retiring replacements : List String) (generation : ℕ) (s : Credentials) :
    RebuildStage → Option Pool
  | .entryLock =>
    if s.locked then none
    else if generation ≠ s.generation then some (returns s .built)
    else some (retireNext replacements generation s.lock retiring)
  | .retire stale retiring => some (retireNext replacements generation (s.unregister stale) retiring)
  | .names =>
    if generation ≠ s.generation then some (returns s.unlock .built) else some (commit generation s replacements)
  | .reset previous name rest =>
    some (waits (((s.unregister previous).inheritCredentialLine previous (name, s.serial)).register name)
      (.build [] [] generation (.init rest)))
  | .init rest => some (commit generation s rest)

variable (h : CredentialClients)

/-- A refresh, whose last part is `saveOAuthData`. -/
def resumeRefresh (client : ClientObject) (grantId : Option String) (ok : Bool) (s : Credentials) : SaveStage → Pool
  | .hgetallRefreshToken found => if found && ok then waits s (.refresh client grantId .http)
    else returns s .refreshed
  | .http => if ok then waits s (.refresh client grantId .hgetall) else returns s .refreshed
  | .hgetall =>
    if s.isCredentialWriteRetired client then returns s .refreshed
    else waits (s.hset (h.authNamespace client, grantId)) (.refresh client grantId .hset)
  | .hset =>
    match grantId with
    | none => returns s .refreshed
    | some id =>
      if s.isCredentialWriteRetired client then returns s .refreshed
      else waits (s.sadd (h.authNamespace client) id) (.refresh client grantId .sadd)
  | .sadd => waits s (.refresh client grantId .expire)
  | .expire => returns s .refreshed

def resumeSetGrant (client : ClientObject) (grantId : String) (deletes : Bool)
    (s : Credentials) : SetGrantStage → Pool
  | .hset =>
    if grantId = "" ∨ s.isCredentialWriteRetired client then waits s (.setGrantTokens client grantId .tracked)
    else waits (s.sadd (h.authNamespace client) grantId) (.setGrantTokens client grantId .sadd)
  | .sadd => waits s (.setGrantTokens client grantId .expire)
  | .expire => waits s (.setGrantTokens client grantId .tracked)
  | .tracked =>
    if s.isCredentialWriteRetired client then
      waits (s.del (h.authNamespace client, some grantId) deletes) (.setGrantTokens client grantId .del)
    else returns s .stored
  | .del => returns s .clientRemoved

/-- `purgeCredentials` of the next client, or the lock let go. -/
def purge (flag : Bool) (clients : List ClientObject) (s : Credentials) : List ClientObject → Pool
  | [] => returns s.unlock (.destroyed clients)
  | client :: rest =>
    waits s (.destroyTemplateClients flag clients (.smembers client (s.grants (h.authNamespace client)) rest))

/-- `doDestroy` on its turn; `none` while it waits for the lock. A reply that is
no list reads as one with the entry in it, and so `listed`. -/
def resumeRemoval (flag listed deletes : Bool) (clients : List ClientObject) (s : Credentials) :
    DestroyStage → Option Pool
  | .entryLock =>
    if s.locked then none
    else
      let retired := s.clients.foldl Credentials.retireCredentialWrites s
      match s.clients with
      | [] => some (returns retired (.destroyed []))
      | client :: rest => some (waits retired.lock (.destroyTemplateClients flag s.clients (.destroy client rest)))
  | .destroy client rest =>
    let s := s.unregister client
    match rest with
    | next :: rest => some (waits s (.destroyTemplateClients flag clients (.destroy next rest)))
    | [] => if flag then some (h.purge flag clients s clients) else
      some (waits s (.destroyTemplateClients flag clients .templates))
  | .templates => if listed then some (returns s.unlock (.destroyed [])) else some (h.purge flag clients s clients)
  | .smembers client grants rest =>
    some (waits (s.del (h.authNamespace client, none) deletes)
      (.destroyTemplateClients flag clients (.del client (grants.map fun id => (h.authNamespace client, some id)) rest)))
  | .del client keys rest =>
    match keys with
    | key :: keys => some (waits (s.del key deletes) (.destroyTemplateClients flag clients (.del client keys rest)))
    | [] => some (waits (s.delGrants (h.authNamespace client) deletes) (.destroyTemplateClients flag clients (.delGrants rest)))
  | .delGrants rest => some (h.purge flag clients s rest)

/-- What the stored refresh token is read from is there; a client without grants does without. -/
def refreshable (s : Credentials) (client : ClientObject) (grantId : Option String) : Bool :=
  grantId.isNone || decide ((h.authNamespace client, grantId) ∈ s.tokens)

/-- The handler: calls from outside, and tasks that take turns. A client that is
not registered any more may still be called. Other writes than deletions go through. -/
def handler : Tasks.Machine Credentials CredentialTask CredentialReturn CredentialCall CredentialReply where
  call c s :=
    match c with
    | .refresh client given carries =>
      let grantId := given.filter fun id => id ≠ ""
      if client ∈ s.made then
        -- only the placeholder has the stored token read
        if carries then waits s (.refresh client grantId (.hgetallRefreshToken (h.refreshable s client grantId)))
        else waits s (.refresh client grantId .http)
      else ⟨s, [], []⟩
    | .setGrantTokens client grantId =>
      if client ∈ s.made then
        if s.isCredentialWriteRetired client then returns s .clientRemoved
        else waits (s.hset (h.authNamespace client, some grantId)) (.setGrantTokens client grantId .hset)
      else ⟨s, [], []⟩
    | .build retiring replacements => waits s (.build retiring replacements s.generation .entryLock)
    | .destroyTemplateClients flag =>
      waits { s with generation := s.generation + 1 } (.destroyTemplateClients flag [] .entryLock)
    | .tokensLapse key => ⟨{ s with tokens := s.tokens.erase key }, [], []⟩
    | .grantsLapse authNamespace => ⟨{ s with grants := Function.update s.grants authNamespace [] }, [], []⟩
  resume task reply s :=
    match task with
    | .refresh client grantId stage => some (h.resumeRefresh client grantId reply.ok s stage)
    | .setGrantTokens client grantId stage => some (h.resumeSetGrant client grantId reply.deletes s stage)
    | .build retiring replacements generation stage => resumeBuild retiring replacements generation s stage
    | .destroyTemplateClients flag clients stage => h.resumeRemoval flag reply.ok reply.deletes clients s stage

end CredentialClients

end Dianemo
