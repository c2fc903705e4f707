import Dianemo.Credentials

namespace Dianemo

open Tasks

/-- The tokens that are there, but for those a deletion of which failed. -/
def Credentials.left (s : Credentials) : Finset TokenKey := s.tokens \ s.undeleted

/-- Deleted or not, a key that a deletion was asked of is not left. -/
theorem Credentials.left_del (s : Credentials) (key : TokenKey) (deletes : Bool) :
    (s.del key deletes).left = s.left.erase key := by
  cases deletes with
  | true => exact Finset.erase_sdiff_comm _ _ _
  | false =>
    have failed : (s.del key false).left = s.tokens \ insert key s.undeleted := rfl
    rw [failed, Finset.sdiff_insert]
    rfl

namespace CredentialClients

variable (h : CredentialClients)

/-- A write that takes itself back should its client be retired. -/
def Undoes (key : TokenKey) : CredentialTask → Prop
  | .setGrantTokens client grantId stage => stage ≠ .del ∧ key = (h.authNamespace client, some grantId)
  | _ => False

def Undone (tasks : List CredentialTask) (key : TokenKey) : Prop := ∃ task ∈ tasks, h.Undoes key task

/-- A purge would find the key, or what wrote it will undo it. -/
def Covered (s : Credentials) (tasks : List CredentialTask) (key : TokenKey) : Prop :=
  (∀ grantId, key.2 = some grantId → grantId ∈ s.grants key.1) ∨ h.Undone tasks key

/-- Whether a task is past the entry lock. -/
def holdsLock : CredentialTask → Bool
  | .build _ _ _ stage => stage ≠ .entryLock
  | .destroyTemplateClients _ _ stage => stage ≠ .entryLock
  | _ => false

/-- A task while no client has been retired; `since` removals were called after the last build. -/
def Sound (since : ℕ) (s : Credentials) (tasks : List CredentialTask) : CredentialTask → Prop
  | .refresh client grantId stage => client ∈ s.made ∧
      (stage = .hgetallRefreshToken true ∨ stage = .http ∨ stage = .hgetall →
        h.Covered s tasks (h.authNamespace client, grantId))
  | .setGrantTokens client grantId stage => client ∈ s.made ∧ grantId ≠ "" ∧ stage ≠ .del ∧
      (stage ≠ .hset → grantId ∈ s.grants (h.authNamespace client))
  | .build retiring _ generation stage => retiring = [] ∧ generation + since ≤ s.generation ∧
    ∀ stale names, stage ≠ .retire stale names
  | .destroyTemplateClients _ _ stage => stage = .entryLock ∧ 0 < since

/-- Before the removal has the entry lock. -/
structure Standing (since : ℕ) (s : Credentials) (tasks : List CredentialTask) : Prop where
  unretired : ∀ client, s.retired client = false
  covered : ∀ key ∈ s.tokens, h.Covered s tasks key
  sound : ∀ task ∈ tasks, h.Sound since s tasks task
  /-- A client that was replaced shares its line with one that is registered. -/
  mates : ∀ client ∈ s.made, ∃ mate ∈ s.clients, s.line mate = s.line client
  known : s.clients ⊆ s.made
  fresh : ∀ client ∈ s.made, client.2 < s.serial
  lock : tasks.countP holdsLock = if s.locked then 1 else 0

/-- A key that is gone, or that what wrote it will undo. -/
def Cleared (s : Credentials) (tasks : List CredentialTask) (key : TokenKey) : Prop :=
  key ∉ s.left ∨ h.Undone tasks key

/-- What is left of the clients' keys is under one of these namespaces. -/
def Remain (s : Credentials) (tasks : List CredentialTask) (clients : List ClientObject)
    (namespaces : List String) : Prop :=
  ∀ client ∈ clients, h.authNamespace client ∈ namespaces ∨
    ∀ grantId, h.Cleared s tasks (h.authNamespace client, grantId)

/-- What a removal has yet to do. -/
def Owes (s : Credentials) (tasks : List CredentialTask) (clients : List ClientObject) : DestroyStage → Prop
  | .entryLock | .destroy _ _ | .templates => True
  | .smembers client grants rest =>
      h.Remain s tasks clients (h.authNamespace client :: rest.map h.authNamespace) ∧
      ∀ grantId, h.Cleared s tasks (h.authNamespace client, grantId) ∨ ∀ id, grantId = some id → id ∈ grants
  | .del client keys rest =>
      h.Remain s tasks clients (h.authNamespace client :: rest.map h.authNamespace) ∧
      ∀ grantId, h.Cleared s tasks (h.authNamespace client, grantId) ∨ (h.authNamespace client, grantId) ∈ keys
  | .delGrants rest => h.Remain s tasks clients (rest.map h.authNamespace)

/-- A task once every client has been retired. -/
def Due (s : Credentials) (tasks : List CredentialTask) : CredentialTask → Prop
  | .refresh client _ _ => client ∈ s.made
  | .setGrantTokens client _ _ => client ∈ s.made
  | .build _ _ generation stage => stage = .entryLock ∧ generation < s.generation
  | .destroyTemplateClients _ clients stage => h.Owes s tasks clients stage

/-- Once the removal has had the entry lock. -/
structure Departed (s : Credentials) (tasks : List CredentialTask) (returned : List CredentialReturn) : Prop where
  retired : ∀ client ∈ s.made, s.isCredentialWriteRetired client = true
  covered : ∀ key ∈ s.left, h.Covered s tasks key
  due : ∀ task ∈ tasks, h.Due s tasks task
  purged : ∀ clients, .destroyed clients ∈ returned → h.Remain s tasks clients []

theorem mem_sadd (s : Credentials) (name id : String) : id ∈ (s.sadd name id).grants name := by
  simp [Credentials.sadd]

theorem grants_sadd (s : Credentials) (name id other : String) :
    s.grants other ⊆ (s.sadd name id).grants other := by
  intro id' mem
  by_cases same : other = name
  · subst same
    simp [Credentials.sadd, mem]
  · simpa [Credentials.sadd, same] using mem

section Standing

variable {h : CredentialClients} {since : ℕ} {s s' : Credentials}
    {gone others new : List CredentialTask} {key : TokenKey}

theorem Covered.move (covered : h.Covered s (gone ++ others) key) (grants : ∀ name, s.grants name ⊆ s'.grants name)
    (kept : ∀ task ∈ gone, h.Undoes key task → h.Covered s' (others ++ new) key) :
    h.Covered s' (others ++ new) key := by
  rcases covered with found | ⟨task, mem, undoes⟩
  · exact .inl fun grantId is => grants _ (found grantId is)
  · rcases List.mem_append.mp mem with mem | mem
    · exact kept task mem undoes
    · exact .inr ⟨task, List.mem_append_left _ mem, undoes⟩

theorem Sound.move {task : CredentialTask} (sound : h.Sound since s (gone ++ others) task)
    (grants : ∀ name, s.grants name ⊆ s'.grants name) (made : s.made ⊆ s'.made)
    (generation : s.generation ≤ s'.generation)
    (kept : ∀ key, ∀ task ∈ gone, h.Undoes key task → h.Covered s' (others ++ new) key) :
    h.Sound since s' (others ++ new) task := by
  cases task with
  | refresh client grantId stage => exact ⟨made sound.1, fun early => (sound.2 early).move grants (kept _)⟩
  | setGrantTokens client grantId stage =>
    exact ⟨made sound.1, sound.2.1, sound.2.2.1, fun late => grants _ (sound.2.2.2 late)⟩
  | build retiring replacements generation' stage => exact ⟨sound.1, sound.2.1.trans generation, sound.2.2⟩
  | destroyTemplateClients flag clients stage => exact sound

/-- A turn that loses no grant and retires nobody. -/
theorem Standing.move (gone : List CredentialTask) (standing : h.Standing since s (gone ++ others))
    (retired : s'.retired = s.retired)
    (grants : ∀ name, s.grants name ⊆ s'.grants name) (made : s.made ⊆ s'.made)
    (generation : s.generation ≤ s'.generation)
    (kept : ∀ key, ∀ task ∈ gone, h.Undoes key task → h.Covered s' (others ++ new) key)
    (tokens : ∀ key ∈ s'.tokens, key ∈ s.tokens ∨ h.Covered s' (others ++ new) key)
    (sound : ∀ task ∈ new, h.Sound since s' (others ++ new) task)
    (mates : ∀ client ∈ s'.made, ∃ mate ∈ s'.clients, s'.line mate = s'.line client)
    (known : s'.clients ⊆ s'.made) (fresh : ∀ client ∈ s'.made, client.2 < s'.serial)
    (lock : (others ++ new).countP holdsLock = if s'.locked then 1 else 0) :
    h.Standing since s' (others ++ new) where
  unretired client := by rw [retired]; exact standing.unretired client
  covered key mem := by
    rcases tokens key mem with mem | covered
    · exact (standing.covered key mem).move grants (kept key)
    · exact covered
  sound task mem := by
    rcases List.mem_append.mp mem with mem | mem
    · exact (standing.sound task (List.mem_append_right _ mem)).move grants made generation kept
    · exact sound task mem
  mates := mates
  known := known
  fresh := fresh
  lock := lock

/-- A turn of a task that does without the entry lock. -/
theorem Standing.write (gone : List CredentialTask) (tokens : Finset TokenKey)
    (grants : String → List String) (standing : h.Standing since s (gone ++ others))
    (lockless : ∀ task ∈ gone ++ new, holdsLock task = false) (grow : ∀ name, s.grants name ⊆ grants name)
    (kept : ∀ key, ∀ task ∈ gone, h.Undoes key task → h.Covered { s with tokens, grants } (others ++ new) key)
    (written : ∀ key ∈ tokens, key ∈ s.tokens ∨ h.Covered { s with tokens, grants } (others ++ new) key)
    (sound : ∀ task ∈ new, h.Sound since { s with tokens, grants } (others ++ new) task) :
    h.Standing since { s with tokens, grants } (others ++ new) := by
  have lock := standing.lock
  have none_gone : gone.countP holdsLock = 0 := List.countP_eq_zero.mpr fun task mem => by
    simp [lockless task (List.mem_append_left _ mem)]
  have none_new : new.countP holdsLock = 0 := List.countP_eq_zero.mpr fun task mem => by
    simp [lockless task (List.mem_append_right _ mem)]
  refine Standing.move gone standing rfl grow
    (fun _ mem => mem) le_rfl kept written sound standing.mates standing.known standing.fresh ?_
  show _ = if s.locked then 1 else 0
  rw [List.countP_append] at lock ⊢
  omega

theorem Standing.active (standing : h.Standing since s others) (client : ClientObject) :
    s.isCredentialWriteRetired client = false := standing.unretired _

theorem Undone.last {task : CredentialTask} (undoes : h.Undoes key task) : h.Undone (others ++ [task]) key :=
  ⟨task, List.mem_append_right _ List.mem_cons_self, undoes⟩

theorem Standing.refresh {client : ClientObject} {grantId : Option String} {stage : SaveStage} (ok : Bool)
    (standing : h.Standing since s (.refresh client grantId stage :: others)) :
    h.Standing since (h.resumeRefresh client grantId ok s stage).state
      (others ++ (h.resumeRefresh client grantId ok s stage).tasks) := by
  obtain ⟨made, early⟩ := standing.sound _ List.mem_cons_self
  have active := standing.active client
  have ended : h.Standing since s (others ++ []) :=
    Standing.write [.refresh client grantId stage] _ _ standing (by simp [holdsLock]) (fun _ _ mem => mem)
      (by simp [Undoes]) (fun _ mem => .inl mem) (by simp)
  have on : ∀ next : SaveStage, (next = .hgetallRefreshToken true ∨ next = .http ∨ next = .hgetall →
      stage = .hgetallRefreshToken true ∨ stage = .http) →
        h.Standing since s (others ++ [.refresh client grantId next]) := by
    intro next before
    refine Standing.write [.refresh client grantId stage] _ _ standing (by simp [holdsLock]) (fun _ _ mem => mem)
      (by simp [Undoes]) (fun _ mem => .inl mem) ?_
    intro task mem
    cases List.mem_singleton.mp mem
    refine ⟨made, fun soon => ?_⟩
    have covered : h.Covered s ([.refresh client grantId stage] ++ others) (h.authNamespace client, grantId) :=
      early ((before soon).elim .inl fun http => .inr (.inl http))
    exact covered.move (fun _ _ mem => mem) (by simp [Undoes])
  cases stage with
  | hgetallRefreshToken found =>
    cases found with
    | true =>
      cases ok with
      | true => exact on .http (by simp)
      | false => exact ended
    | false => exact ended
  | http =>
    cases ok with
    | true => exact on .hgetall (by simp)
    | false => exact ended
  | hgetall =>
    simp only [resumeRefresh, active, Bool.false_eq_true, if_false]
    have covered : h.Covered s ([.refresh client grantId .hgetall] ++ others) (h.authNamespace client, grantId) :=
      early (.inr (.inr rfl))
    refine Standing.write [.refresh client grantId .hgetall] _ _ standing (by simp [waits, holdsLock])
      (fun _ _ mem => mem) (by simp [Undoes]) ?_ ?_
    · intro key mem
      rcases Finset.mem_insert.mp mem with rfl | mem
      · exact .inr (covered.move (fun _ _ mem => mem) (by simp [Undoes]))
      · exact .inl mem
    · intro task mem
      cases List.mem_singleton.mp mem
      exact ⟨made, by simp⟩
  | hset =>
    cases grantId with
    | none => exact ended
    | some id =>
      simp only [resumeRefresh, active, Bool.false_eq_true, if_false]
      refine Standing.write [.refresh client (some id) .hset] _ _ standing (by simp [waits, holdsLock])
        (grants_sadd s _ id) (by simp [Undoes]) (fun _ mem => .inl mem) ?_
      intro task mem
      cases List.mem_singleton.mp mem
      exact ⟨made, by simp⟩
  | sadd => exact on .expire (by simp)
  | expire => exact ended

theorem Standing.setGrantTokens {client : ClientObject} {grantId : String} {stage : SetGrantStage} (deletes : Bool)
    (standing : h.Standing since s (.setGrantTokens client grantId stage :: others)) :
    h.Standing since (h.resumeSetGrant client grantId deletes s stage).state
      (others ++ (h.resumeSetGrant client grantId deletes s stage).tasks) := by
  obtain ⟨made, named, held, late⟩ := standing.sound _ List.mem_cons_self
  have active := standing.active client
  have on : ∀ {grants : String → List String} (next : SetGrantStage), next ≠ .del →
      grantId ∈ grants (h.authNamespace client) →
      (∀ name, s.grants name ⊆ grants name) →
      h.Standing since { s with grants } (others ++ [.setGrantTokens client grantId next]) := by
    intro grants next before tracked grow
    refine Standing.write [.setGrantTokens client grantId stage] _ _ standing (by simp [holdsLock]) grow ?_
      (fun _ mem => .inl mem) ?_
    · intro key task mem undoes
      cases List.mem_singleton.mp mem
      exact .inr (Undone.last ⟨before, undoes.2⟩)
    · intro task mem
      cases List.mem_singleton.mp mem
      exact ⟨made, named, before, fun _ => tracked⟩
  cases stage with
  | hset =>
    simp only [resumeSetGrant, named, active, Bool.false_eq_true, or_self, if_false]
    exact on .sadd (by simp) (mem_sadd s _ grantId) (grants_sadd s _ grantId)
  | sadd => exact on .expire (by simp) (late (by simp)) fun _ _ mem => mem
  | expire => exact on .tracked (by simp) (late (by simp)) fun _ _ mem => mem
  | tracked =>
    simp only [resumeSetGrant, active, Bool.false_eq_true, if_false]
    refine Standing.write [.setGrantTokens client grantId .tracked] _ _ standing (by simp [returns, holdsLock])
      (fun _ _ mem => mem) ?_ (fun _ mem => .inl mem) (by simp [returns])
    intro key task mem undoes
    cases List.mem_singleton.mp mem
    refine .inl fun id is => ?_
    rw [undoes.2] at is ⊢
    cases is
    exact late (by simp)
  | del => exact absurd rfl held

/-- A turn of a build: no credential is touched. -/
theorem Standing.rebuild (after : Pool) {task : CredentialTask} (standing : h.Standing since s (task :: others))
    (writes : ∀ key, ¬h.Undoes key task)
    (book : after.state.tokens = s.tokens ∧ after.state.grants = s.grants ∧ after.state.retired = s.retired ∧
      after.state.generation = s.generation ∧ s.made ⊆ after.state.made)
    (sound : ∀ next ∈ after.tasks, h.Sound since after.state (others ++ after.tasks) next)
    (mates : ∀ client ∈ after.state.made, ∃ mate ∈ after.state.clients,
      after.state.line mate = after.state.line client)
    (known : after.state.clients ⊆ after.state.made)
    (fresh : ∀ client ∈ after.state.made, client.2 < after.state.serial)
    (lock : (others ++ after.tasks).countP holdsLock = if after.state.locked then 1 else 0) :
    h.Standing since after.state (others ++ after.tasks) := by
  obtain ⟨tokens, grants, retired, generation, made⟩ := book
  refine Standing.move [task] standing retired ?_ made generation.ge ?_ ?_ sound mates known fresh lock
  · intro name id mem
    rw [grants]
    exact mem
  · intro key task' mem undoes
    cases List.mem_singleton.mp mem
    exact absurd undoes (writes key)
  · intro key mem
    rw [tokens] at mem
    exact .inl mem

/-- The task that is past the entry lock is the only one. -/
theorem Standing.holder {task : CredentialTask} (standing : h.Standing since s (task :: others))
    (holds : holdsLock task = true) : s.locked = true ∧ others.countP holdsLock = 0 := by
  have lock := standing.lock
  rw [List.countP_cons_of_pos holds] at lock
  cases locked : s.locked with
  | true =>
    simp only [locked, if_true] at lock
    exact ⟨rfl, by omega⟩
  | false => simp [locked] at lock

theorem Standing.commit {replacements names : List String} {generation : ℕ} {stage : RebuildStage}
    (standing : h.Standing since s (.build [] replacements generation stage :: others))
    (holds : stage ≠ .entryLock) :
    h.Standing since (commit generation s names).state (others ++ (commit generation s names).tasks) := by
  obtain ⟨locked, alone⟩ := standing.holder (by simp [holdsLock, holds])
  obtain ⟨-, bound, -⟩ := standing.sound _ List.mem_cons_self
  cases names with
  | nil =>
    refine Standing.rebuild (CredentialClients.commit generation s []) standing (by simp [Undoes])
      ⟨rfl, rfl, rfl, rfl, fun _ mem => mem⟩ (by simp [CredentialClients.commit, returns]) standing.mates standing.known
      standing.fresh ?_
    simp [CredentialClients.commit, returns, Credentials.unlock, alone]
  | cons name rest =>
    cases found : s.registered name with
    | some previous =>
      have eq : CredentialClients.commit generation s (name :: rest) =
          waits s (.build [] [] generation (.reset previous name rest)) := by simp [CredentialClients.commit, found]
      rw [eq]
      refine Standing.rebuild (waits s _) standing (by simp [Undoes]) ⟨rfl, rfl, rfl, rfl, fun _ mem => mem⟩ ?_
        standing.mates standing.known standing.fresh ?_
      · intro next mem
        cases List.mem_singleton.mp mem
        exact ⟨rfl, bound, by simp⟩
      · simp [waits, holdsLock, alone, locked]
    | none =>
      have eq : CredentialClients.commit generation s (name :: rest) =
          waits (s.register name) (.build [] [] generation (.init rest)) := by
            simp [CredentialClients.commit, found]
      rw [eq]
      refine Standing.rebuild (waits _ _) standing (by simp [Undoes])
        ⟨rfl, rfl, rfl, rfl, fun _ mem => List.mem_cons_of_mem _ mem⟩ ?_ ?_ ?_ ?_ ?_
      · intro next mem
        cases List.mem_singleton.mp mem
        exact ⟨rfl, bound, by simp⟩
      · intro client mem
        rcases List.mem_cons.mp mem with rfl | mem
        · exact ⟨_, List.mem_cons_self, rfl⟩
        · obtain ⟨mate, registered, same⟩ := standing.mates client mem
          exact ⟨mate, List.mem_cons_of_mem _ registered, same⟩
      · intro client mem
        rcases List.mem_cons.mp mem with rfl | mem
        · exact List.mem_cons_self
        · exact List.mem_cons_of_mem _ (standing.known mem)
      · intro client mem
        rcases List.mem_cons.mp mem with rfl | mem
        · exact Nat.lt_succ_self _
        · exact (standing.fresh client mem).trans (Nat.lt_succ_self _)
      · simp [waits, holdsLock, alone, Credentials.register, locked]

/-- The replacement takes its predecessor's place on the line. -/
theorem Standing.reset {replacements names : List String} {generation : ℕ} {previous : ClientObject} {name : String}
    (standing : h.Standing since s (.build [] replacements generation (.reset previous name names) :: others)) :
    h.Standing since (((s.unregister previous).inheritCredentialLine previous (name, s.serial)).register name)
      (others ++ [.build [] [] generation (.init names)]) := by
  obtain ⟨locked, alone⟩ := standing.holder (by simp [holdsLock])
  obtain ⟨-, bound, -⟩ := standing.sound _ List.mem_cons_self
  have older : ∀ client ∈ s.made, client ≠ (name, s.serial) := by
    intro client mem is
    have before := standing.fresh client mem
    rw [is] at before
    exact lt_irrefl _ before
  refine Standing.rebuild (waits _ _) standing (by simp [Undoes])
    ⟨rfl, rfl, rfl, rfl, fun _ mem => List.mem_cons_of_mem _ mem⟩ ?_ ?_ ?_ ?_ ?_
  · intro next mem
    cases List.mem_singleton.mp mem
    exact ⟨rfl, bound, by simp⟩
  · intro client mem
    rcases List.mem_cons.mp mem with rfl | mem
    · exact ⟨_, List.mem_cons_self, rfl⟩
    · obtain ⟨mate, registered, same⟩ := standing.mates client mem
      have kept := Function.update_of_ne (older client mem) (s.line previous) s.line
      by_cases replaced : mate = previous
      · refine ⟨(name, s.serial), List.mem_cons_self, ?_⟩
        calc Function.update s.line (name, s.serial) (s.line previous) (name, s.serial) = s.line previous :=
              Function.update_self _ _ _
          _ = s.line client := by rw [← replaced, same]
          _ = Function.update s.line (name, s.serial) (s.line previous) client := kept.symm
      · refine ⟨mate, List.mem_cons_of_mem _ (List.mem_filter.mpr ⟨registered, by simpa using replaced⟩), ?_⟩
        calc Function.update s.line (name, s.serial) (s.line previous) mate = s.line mate :=
              Function.update_of_ne (older mate (standing.known registered)) _ _
          _ = s.line client := same
          _ = Function.update s.line (name, s.serial) (s.line previous) client := kept.symm
  · intro client mem
    rcases List.mem_cons.mp mem with rfl | mem
    · exact List.mem_cons_self
    · exact List.mem_cons_of_mem _ (standing.known (List.mem_of_mem_filter mem))
  · intro client mem
    rcases List.mem_cons.mp mem with rfl | mem
    · exact Nat.lt_succ_self _
    · exact (standing.fresh client mem).trans (Nat.lt_succ_self _)
  · simp [waits, holdsLock, alone, Credentials.inheritCredentialLine, Credentials.unregister, locked]

theorem Standing.build {retiring replacements : List String} {generation : ℕ} {stage : RebuildStage} {after : Pool}
    (standing : h.Standing since s (.build retiring replacements generation stage :: others))
    (went : resumeBuild retiring replacements generation s stage = some after) :
    h.Standing since after.state (others ++ after.tasks) := by
  obtain ⟨rfl, bound, kept⟩ := standing.sound _ List.mem_cons_self
  cases stage with
  | entryLock =>
    cases locked : s.locked with
    | true => simp [resumeBuild, locked] at went
    | false =>
      have lock := standing.lock
      simp only [List.countP_cons, holdsLock, locked, ne_eq, not_true_eq_false, decide_false,
        Bool.false_eq_true, if_false, add_zero] at lock
      simp only [resumeBuild, locked, Bool.false_eq_true, if_false, retireNext] at went
      split_ifs at went
      · cases went
        exact Standing.rebuild (returns s .built) standing (by simp [Undoes])
          ⟨rfl, rfl, rfl, rfl, fun _ mem => mem⟩ (by simp [returns]) standing.mates standing.known standing.fresh
          (by simp [returns, lock, locked])
      · cases went
        refine Standing.rebuild (waits s.lock _) standing (by simp [Undoes])
          ⟨rfl, rfl, rfl, rfl, fun _ mem => mem⟩ ?_ standing.mates standing.known standing.fresh ?_
        · intro next mem
          cases List.mem_singleton.mp mem
          exact ⟨rfl, bound, by simp⟩
        · simp [waits, holdsLock, lock, Credentials.lock]
  | retire stale names => exact absurd rfl (kept stale names)
  | names =>
    simp only [resumeBuild] at went
    split_ifs at went
    · cases went
      obtain ⟨-, alone⟩ := standing.holder (by simp [holdsLock])
      exact Standing.rebuild (returns s.unlock .built) standing (by simp [Undoes])
        ⟨rfl, rfl, rfl, rfl, fun _ mem => mem⟩ (by simp [returns]) standing.mates standing.known standing.fresh
        (by simp [returns, alone, Credentials.unlock])
    · cases went
      exact standing.commit (by simp)
  | reset previous name rest =>
    cases went
    exact standing.reset
  | init rest =>
    cases went
    exact standing.commit (by simp)

/-- What may be asked `since` removals after the last build: a grant's refresh carries its stored refresh token,
a seeded grant has an id, a build makes every name it made before, and no record of grants lapses. -/
def Plain (since : ℕ) : CredentialCall → Prop
  | .refresh _ given carries => (given.filter fun id => id ≠ "").isSome = true → carries = true
  | .setGrantTokens _ grantId => grantId ≠ ""
  | .build retiring _ => retiring = [] ∧ since = 0
  | .destroyTemplateClients _ => 0 < since
  | .tokensLapse _ => True
  | .grantsLapse _ => False

theorem Standing.refreshable {client : ClientObject} {grantId : Option String}
    (standing : h.Standing since s others)
    (found : h.refreshable s client grantId = true) : h.Covered s others (h.authNamespace client, grantId) := by
  simp only [CredentialClients.refreshable, Bool.or_eq_true, Option.isNone_iff_eq_none, decide_eq_true_eq] at found
  rcases found with rfl | stored
  · exact .inl fun id is => absurd is (by simp)
  · exact standing.covered _ stored

theorem Standing.call {c : CredentialCall} (standing : h.Standing since s others) (plain : Plain since c) :
    h.Standing since (h.handler.call c s).state (others ++ (h.handler.call c s).tasks) := by
  have ignored : h.Standing since s (others ++ []) := by simpa using standing
  cases c with
  | refresh client given carries =>
    simp only [handler]
    have on : ∀ stage, client ∈ s.made → (stage = .hgetallRefreshToken true ∨ stage = .http ∨ stage = .hgetall →
        h.Covered s ([] ++ others) (h.authNamespace client, given.filter fun id => id ≠ "")) →
        h.Standing since s (others ++ [.refresh client (given.filter fun id => id ≠ "") stage]) := by
      intro stage made covered
      refine Standing.write [] s.tokens s.grants standing (by simp [holdsLock])
        (fun _ _ mem => mem) (by simp) (fun _ mem => .inl mem) ?_
      intro task mem
      cases List.mem_singleton.mp mem
      exact ⟨made, fun early => (covered early).move (fun _ _ mem => mem) (by simp)⟩
    split_ifs with made reads
    · exact on _ made fun early => standing.refreshable (by simpa using early)
    · -- without the placeholder the refresh is of the client's own token
      refine on _ made fun _ => .inl fun id is => absurd (plain ?_) reads
      exact Option.isSome_iff_exists.mpr ⟨id, is⟩
    · exact ignored
  | setGrantTokens client grantId =>
    simp only [handler, standing.active, Bool.false_eq_true, if_false]
    split_ifs with made
    · refine Standing.write [] _ s.grants standing (by simp [waits, holdsLock]) (fun _ _ mem => mem) (by simp) ?_ ?_
      · intro key mem
        rcases Finset.mem_insert.mp mem with rfl | mem
        · exact .inr (.inr (Undone.last ⟨by simp, rfl⟩))
        · exact .inl mem
      · intro task mem
        cases List.mem_singleton.mp mem
        exact ⟨made, plain, by simp, by simp⟩
    · exact ignored
  | build retiring replacements =>
    refine Standing.write [] s.tokens s.grants standing (by simp [handler, waits, holdsLock])
      (fun _ _ mem => mem) (by simp) (fun _ mem => .inl mem) ?_
    intro task mem
    cases List.mem_singleton.mp mem
    exact ⟨plain.1, plain.2.symm ▸ le_rfl, by simp⟩
  | destroyTemplateClients flag =>
    have lock := standing.lock
    refine Standing.move [] standing rfl (fun _ _ mem => mem) (fun _ mem => mem) (Nat.le_succ _)
      (by simp) (fun _ mem => .inl mem)
      ?_ standing.mates standing.known standing.fresh (by simpa [handler, waits, holdsLock] using lock)
    intro task mem
    cases List.mem_singleton.mp mem
    exact ⟨rfl, plain⟩
  | tokensLapse key =>
    exact Standing.write [] (s.tokens.erase key) s.grants standing (by simp [handler])
      (fun _ _ mem => mem) (by simp)
      (fun _ mem => .inl (Finset.mem_of_mem_erase mem)) (by simp [handler])
  | grantsLapse authNamespace => exact plain.elim

end Standing

section Departed

variable {h : CredentialClients} {s s' : Credentials} {others new : List CredentialTask}
    {returned : List CredentialReturn}
  {key : TokenKey} {clients : List ClientObject} {names : List String}

theorem Cleared.move (gone : List CredentialTask) (cleared : h.Cleared s (gone ++ others) key)
    (fewer : s'.left ⊆ s.left)
    (kept : ∀ task ∈ gone, h.Undoes key task → h.Cleared s' (others ++ new) key) :
    h.Cleared s' (others ++ new) key := by
  rcases cleared with erased | ⟨task, mem, undoes⟩
  · exact .inl fun mem => erased (fewer mem)
  · rcases List.mem_append.mp mem with mem | mem
    · exact kept task mem undoes
    · exact .inr ⟨task, List.mem_append_left _ mem, undoes⟩

theorem Remain.move {tasks tasks' : List CredentialTask} (remain : h.Remain s tasks clients names)
    (cleared : ∀ key, h.Cleared s tasks key → h.Cleared s' tasks' key) : h.Remain s' tasks' clients names :=
  fun client mem => (remain client mem).imp_right fun all grantId => cleared _ (all grantId)

theorem Owes.move {tasks tasks' : List CredentialTask} {stage : DestroyStage} (owes : h.Owes s tasks clients stage)
    (cleared : ∀ key, h.Cleared s tasks key → h.Cleared s' tasks' key) : h.Owes s' tasks' clients stage := by
  cases stage with
  | entryLock | destroy | templates => trivial
  | smembers client grants rest => exact ⟨owes.1.move cleared, fun grantId => (owes.2 grantId).imp_left (cleared _)⟩
  | del client keys rest => exact ⟨owes.1.move cleared, fun grantId => (owes.2 grantId).imp_left (cleared _)⟩
  | delGrants rest => exact Remain.move owes cleared

theorem Due.move {tasks tasks' : List CredentialTask} {task : CredentialTask} (due : h.Due s tasks task)
    (made : s'.made = s.made)
    (generation : s.generation ≤ s'.generation) (cleared : ∀ key, h.Cleared s tasks key → h.Cleared s' tasks' key) :
    h.Due s' tasks' task := by
  cases task with
  | refresh client grantId stage => exact (congrArg (client ∈ ·) made).mpr due
  | setGrantTokens client grantId stage => exact (congrArg (client ∈ ·) made).mpr due
  | build retiring replacements generation' stage => exact ⟨due.1, due.2.trans_le generation⟩
  | destroyTemplateClients flag clients stage => exact Owes.move due cleared

/-- A turn once every client is retired: no token is written. -/
theorem Departed.move (gone : List CredentialTask) (departed : h.Departed s (gone ++ others) returned)
    {results : List CredentialReturn} (made : s'.made = s.made)
    (retired : ∀ client, s.isCredentialWriteRetired client = true → s'.isCredentialWriteRetired client = true)
    (generation : s.generation ≤ s'.generation) (fewer : s'.left ⊆ s.left)
    (kept : ∀ key, ∀ task ∈ gone, h.Undoes key task → h.Cleared s' (others ++ new) key)
    (grants : ∀ key ∈ s'.left, s'.grants key.1 = s.grants key.1 ∨ h.Undone (others ++ new) key)
    (due : ∀ task ∈ new, h.Due s' (others ++ new) task)
    (purged : ∀ clients, .destroyed clients ∈ results → h.Remain s' (others ++ new) clients []) :
    h.Departed s' (others ++ new) (returned ++ results) := by
  have cleared : ∀ key, h.Cleared s (gone ++ others) key → h.Cleared s' (others ++ new) key :=
    fun key cleared => Cleared.move gone cleared fewer (kept key)
  refine ⟨?_, ?_, ?_, ?_⟩
  · intro client mem
    rw [made] at mem
    exact retired client (departed.retired client mem)
  · intro key mem
    rcases departed.covered key (fewer mem) with found | undone
    · rcases grants key mem with same | undone
      · refine .inl fun id is => ?_
        rw [same]
        exact found id is
      · exact .inr undone
    · exact .inr ((cleared key (.inr undone)).resolve_left (not_not.mpr mem))
  · intro task mem
    rcases List.mem_append.mp mem with mem | mem
    · exact (departed.due task (List.mem_append_right _ mem)).move made generation cleared
    · exact due task mem
  · intro clients mem
    rcases List.mem_append.mp mem with mem | mem
    · exact (departed.purged clients mem).move cleared
    · exact purged clients mem

/-- A turn that asks for a deletion. -/
theorem Departed.deletion (gone : List CredentialTask) (key : TokenKey) (deletes : Bool)
    (departed : h.Departed s (gone ++ others) returned)
    (owns : ∀ other, ∀ task ∈ gone, h.Undoes other task → other = key)
    (due : ∀ task ∈ new, h.Due (s.del key deletes) (others ++ new) task) :
    h.Departed (s.del key deletes) (others ++ new) (returned ++ []) := by
  refine Departed.move gone departed rfl (fun _ mem => mem) le_rfl ?_ ?_ (fun _ _ => .inl rfl) due (by simp)
  · rw [Credentials.left_del]
    exact Finset.erase_subset _ _
  · intro other task mem undoes
    refine .inl ?_
    rw [owns other task mem undoes, Credentials.left_del]
    exact Finset.notMem_erase _ _

/-- A turn that leaves every credential as it is. -/
theorem Departed.goes (task : CredentialTask) (departed : h.Departed s (task :: others) returned)
    {results : List CredentialReturn} (credentials : s'.left = s.left ∧ s'.grants = s.grants)
    (made : s'.made = s.made)
    (retired : ∀ client, s.isCredentialWriteRetired client = true → s'.isCredentialWriteRetired client = true)
    (generation : s.generation ≤ s'.generation) (kept : ∀ key, h.Undoes key task → h.Undone (others ++ new) key)
    (due : ∀ next ∈ new, h.Due s' (others ++ new) next)
    (purged : ∀ clients, .destroyed clients ∈ results → h.Remain s' (others ++ new) clients []) :
    h.Departed s' (others ++ new) (returned ++ results) := by
  refine Departed.move [task] departed made retired generation credentials.1.subset ?_ ?_ due purged
  · intro key task' mem undoes
    cases List.mem_singleton.mp mem
    exact .inr (kept key undoes)
  · intro key _
    exact .inl (congrFun credentials.2 key.1)

theorem Departed.refresh {client : ClientObject} {grantId : Option String} {stage : SaveStage} (ok : Bool)
    (departed : h.Departed s (.refresh client grantId stage :: others) returned) :
    h.Departed (h.resumeRefresh client grantId ok s stage).state
      (others ++ (h.resumeRefresh client grantId ok s stage).tasks)
      (returned ++ (h.resumeRefresh client grantId ok s stage).returned) := by
  have made : client ∈ s.made := departed.due _ List.mem_cons_self
  have retired := departed.retired client made
  have on : ∀ next, h.Departed s (others ++ [.refresh client grantId next]) (returned ++ []) := by
    intro next
    refine Departed.goes _ departed ⟨rfl, rfl⟩ rfl (fun _ mem => mem) le_rfl (by simp [Undoes]) ?_ (by simp)
    intro task mem
    cases List.mem_singleton.mp mem
    exact made
  have ended : h.Departed s (others ++ []) (returned ++ [.refreshed]) :=
    Departed.goes _ departed ⟨rfl, rfl⟩ rfl (fun _ mem => mem) le_rfl (by simp [Undoes]) (by simp) (by simp)
  cases stage with
  | hgetallRefreshToken found =>
    cases found with
    | true =>
      cases ok with
      | true => exact on .http
      | false => exact ended
    | false => exact ended
  | http =>
    cases ok with
    | true => exact on .hgetall
    | false => exact ended
  | hgetall =>
    simp only [resumeRefresh, retired, if_true]
    exact ended
  | hset =>
    cases grantId with
    | none => exact ended
    | some id =>
      simp only [resumeRefresh, retired, if_true]
      exact ended
  | sadd => exact on .expire
  | expire => exact ended

theorem Departed.setGrantTokens {client : ClientObject} {grantId : String} {stage : SetGrantStage} (deletes : Bool)
    (departed : h.Departed s (.setGrantTokens client grantId stage :: others) returned) :
    h.Departed (h.resumeSetGrant client grantId deletes s stage).state
      (others ++ (h.resumeSetGrant client grantId deletes s stage).tasks)
      (returned ++ (h.resumeSetGrant client grantId deletes s stage).returned) := by
  have made : client ∈ s.made := departed.due _ List.mem_cons_self
  have retired := departed.retired client made
  have on : ∀ next, next ≠ .del → h.Departed s
      (others ++ [.setGrantTokens client grantId next]) (returned ++ []) := by
    intro next before
    refine Departed.goes _ departed ⟨rfl, rfl⟩ rfl (fun _ mem => mem) le_rfl ?_ ?_ (by simp)
    · exact fun key undoes => Undone.last ⟨before, undoes.2⟩
    · intro task mem
      cases List.mem_singleton.mp mem
      exact made
  cases stage with
  | hset =>
    simp only [resumeSetGrant, retired, or_true, if_true]
    exact on .tracked (by simp)
  | sadd => exact on .expire (by simp)
  | expire => exact on .tracked (by simp)
  | tracked =>
    -- The write that outran the retirement is taken back.
    simp only [resumeSetGrant, retired, if_true]
    refine Departed.deletion [.setGrantTokens client grantId .tracked] (h.authNamespace client,
      some grantId) deletes departed ?_ ?_
    · intro key task mem undoes
      cases List.mem_singleton.mp mem
      exact undoes.2
    · intro task mem
      cases List.mem_singleton.mp mem
      exact made
  | del =>
    have ended : h.Departed s (others ++ []) (returned ++ [.clientRemoved]) :=
      Departed.goes _ departed ⟨rfl, rfl⟩ rfl (fun _ mem => mem) le_rfl (by simp [Undoes]) (by simp) (by simp)
    exact ended

theorem Departed.build {retiring replacements : List String} {generation : ℕ} {stage : RebuildStage} {after : Pool}
    (departed : h.Departed s (.build retiring replacements generation stage :: others) returned)
    (went : resumeBuild retiring replacements generation s stage = some after) :
    h.Departed after.state (others ++ after.tasks) (returned ++ after.returned) := by
  obtain ⟨rfl, superseded⟩ := departed.due _ List.mem_cons_self
  cases locked : s.locked with
  | true => simp [resumeBuild, locked] at went
  | false =>
    simp only [resumeBuild, locked, Bool.false_eq_true, if_false, superseded.ne, ne_eq, not_false_eq_true, if_true,
      Option.some.injEq] at went
    cases went
    exact Departed.goes _ departed ⟨rfl, rfl⟩ rfl (fun _ mem => mem) le_rfl (by simp [Undoes]) (by simp [returns])
      (by simp [returns])

theorem Departed.purge {flag : Bool} {stage : DestroyStage} (s' : Credentials) (rest : List ClientObject)
    (departed : h.Departed s (.destroyTemplateClients flag clients stage :: others) returned)
    (same : s'.left = s.left ∧ s'.grants = s.grants ∧ s'.made = s.made ∧ s'.generation = s.generation ∧
      s'.line = s.line ∧ s'.retired = s.retired)
    (remain : h.Remain s (.destroyTemplateClients flag clients stage :: others) clients (rest.map h.authNamespace)) :
    h.Departed (h.purge flag clients s' rest).state (others ++ (h.purge flag clients s' rest).tasks)
      (returned ++ (h.purge flag clients s' rest).returned) := by
  obtain ⟨left, grants, made, generation, line, retired⟩ := same
  have still : ∀ client, s.isCredentialWriteRetired client = true → s'.isCredentialWriteRetired client = true := by
    intro client is
    rw [Credentials.isCredentialWriteRetired, line, retired]
    exact is
  have cleared : ∀ (state : Credentials) (new : List CredentialTask), state.left = s.left → ∀ key,
      h.Cleared s (.destroyTemplateClients flag clients stage :: others) key →
        h.Cleared state (others ++ new) key := by
    intro state new same key cleared
    exact Cleared.move [_] cleared same.subset (by simp [Undoes])
  cases rest with
  | nil =>
    refine Departed.goes _ departed ⟨left, grants⟩ made still generation.ge (by simp [Undoes])
      (by simp [CredentialClients.purge, returns]) ?_
    intro purged mem
    cases List.mem_singleton.mp mem
    exact remain.move (cleared _ _ left)
  | cons client rest =>
    refine Departed.goes _ departed ⟨left, grants⟩ made still generation.ge (by simp [Undoes]) ?_
      (by simp [CredentialClients.purge, waits])
    intro task mem
    cases List.mem_singleton.mp mem
    refine ⟨remain.move (cleared _ _ left), fun grantId => ?_⟩
    by_cases stored : (h.authNamespace client, grantId) ∈ s.left
    · rcases departed.covered _ stored with found | undone
      · refine .inr fun id is => ?_
        rw [grants]
        exact found id is
      · exact .inl (cleared _ _ left _ (.inr undone))
    · exact .inl (cleared _ _ left _ (.inl stored))

/-- A deletion of a purge. -/
theorem Departed.erase {flag : Bool} {stage next : DestroyStage} (key : TokenKey) (deletes : Bool)
    (departed : h.Departed s (.destroyTemplateClients flag clients stage :: others) returned)
    (owes : h.Owes (s.del key deletes) (others ++ [.destroyTemplateClients flag clients next]) clients next) :
    h.Departed (s.del key deletes) (others ++ [.destroyTemplateClients flag clients next]) (returned ++ []) := by
  refine Departed.deletion [.destroyTemplateClients flag clients stage] key deletes departed (by simp [Undoes]) ?_
  intro task mem
  cases List.mem_singleton.mp mem
  exact owes

theorem retired_foldl (found : List ClientObject) (s : Credentials) :
    ∃ retired, found.foldl Credentials.retireCredentialWrites s = { s with retired } ∧
      ∀ line, retired line = true ↔ s.retired line = true ∨ ∃ client ∈ found, s.line client = line := by
  induction found generalizing s with
  | nil => exact ⟨s.retired, rfl, by simp⟩
  | cons client rest ih =>
    obtain ⟨retired, is, all⟩ := ih (s.retireCredentialWrites client)
    refine ⟨retired, by rw [List.foldl_cons, is]; rfl, fun line => ?_⟩
    rw [all]
    by_cases own : s.line client = line
    · simp [Credentials.retireCredentialWrites, own]
    · simp [Credentials.retireCredentialWrites, own, Function.update_of_ne (Ne.symm own)]

/-- A client registered when the removal has the lock is retired, and with it every client of its line. -/
theorem Departed.retire {tasks : List CredentialTask} (departed : h.Departed s tasks returned)
    (found : List ClientObject) :
    h.Departed (found.foldl Credentials.retireCredentialWrites s) tasks returned := by
  obtain ⟨retired, is, all⟩ := retired_foldl found s
  rw [is]
  have moved : h.Departed { s with retired } (tasks ++ []) (returned ++ []) := Departed.move [] departed rfl
    (fun client mem => (all _).mpr (.inl mem)) le_rfl (Finset.Subset.refl _) (by simp)
      (fun _ _ => .inl rfl) (by simp) (by simp)
  simpa using moved

theorem Standing.retire {since : ℕ} {tasks : List CredentialTask} (standing : h.Standing (since + 1) s tasks)
    (free : s.locked = false) (early : ∀ clients, .destroyed clients ∉ returned) :
    h.Departed (s.clients.foldl Credentials.retireCredentialWrites s) tasks returned := by
  obtain ⟨retired, is, all⟩ := retired_foldl s.clients s
  rw [is]
  have waiting : ∀ task ∈ tasks, ¬holdsLock task = true := by
    have lock := standing.lock
    rw [free] at lock
    exact List.countP_eq_zero.mp lock
  refine ⟨fun client mem => (all _).mpr (.inr (standing.mates client mem)),
    fun key left => standing.covered key (Finset.sdiff_subset left), ?_,
    fun clients mem => absurd mem (early clients)⟩
  intro task mem
  have sound := standing.sound task mem
  have idle := waiting task mem
  cases task with
  | refresh client grantId stage => exact sound.1
  | setGrantTokens client grantId stage => exact sound.1
  | build retiring replacements generation stage =>
    obtain ⟨-, older, -⟩ := sound
    refine ⟨by simpa [holdsLock] using idle, ?_⟩
    show generation < s.generation
    omega
  | destroyTemplateClients flag clients stage =>
    obtain ⟨rfl, -⟩ := sound
    trivial

/-- The removal's first turn, once every client it found is retired. -/
theorem Departed.entered (listed deletes : Bool) {flag : Bool} {after : Pool}
    (departed : h.Departed (s.clients.foldl Credentials.retireCredentialWrites s)
      (.destroyTemplateClients flag clients .entryLock :: others) returned)
    (went : h.resumeRemoval flag listed deletes clients s .entryLock = some after) :
    h.Departed after.state (others ++ after.tasks) (returned ++ after.returned) := by
  cases locked : s.locked with
  | true => simp [resumeRemoval, locked] at went
  | false =>
    cases found : s.clients with
    | nil =>
      simp only [resumeRemoval, locked, found, Bool.false_eq_true, if_false, Option.some.injEq] at went departed
      cases went
      refine Departed.goes _ departed ⟨rfl, rfl⟩ rfl (fun _ mem => mem) le_rfl
        (by simp [Undoes]) (by simp [returns]) ?_
      intro purged mem
      cases List.mem_singleton.mp mem
      simp [Remain]
    | cons client rest =>
      simp only [resumeRemoval, locked, found, Bool.false_eq_true, if_false, Option.some.injEq] at went departed
      cases went
      refine Departed.goes _ departed ⟨rfl, rfl⟩ rfl (fun _ mem => mem) le_rfl
        (by simp [Undoes]) ?_ (by simp [waits])
      intro task mem
      cases List.mem_singleton.mp mem
      trivial

/-- A removal on its turn, past the entry lock. -/
theorem Departed.removal {flag listed deletes : Bool} {stage : DestroyStage} {after : Pool}
    (past : stage ≠ .entryLock)
    (departed : h.Departed s (.destroyTemplateClients flag clients stage :: others) returned)
    (went : h.resumeRemoval flag listed deletes clients s stage = some after) :
    h.Departed after.state (others ++ after.tasks) (returned ++ after.returned) := by
  have owes : h.Owes s (.destroyTemplateClients flag clients stage :: others) clients stage :=
    departed.due _ List.mem_cons_self
  have all : h.Remain s (.destroyTemplateClients flag clients stage :: others) clients
      (clients.map h.authNamespace) :=
    fun client mem => .inl (List.mem_map_of_mem mem)
  have cleared : ∀ {s' : Credentials} (next : DestroyStage), s'.left ⊆ s.left → ∀ key,
      h.Cleared s (.destroyTemplateClients flag clients stage :: others) key →
      h.Cleared s' (others ++ [.destroyTemplateClients flag clients next]) key := by
    intro s' next fewer key cleared
    exact Cleared.move [_] cleared fewer (by simp [Undoes])
  have deleted : ∀ key, (s.del key deletes).left ⊆ s.left := by
    intro key
    rw [Credentials.left_del]
    exact Finset.erase_subset _ _
  have gone : ∀ key, key ∉ (s.del key deletes).left := by
    intro key
    rw [Credentials.left_del]
    exact Finset.notMem_erase _ _
  have on : ∀ {s' : Credentials} (next : DestroyStage), s'.left = s.left ∧ s'.grants = s.grants →
      s'.made = s.made ∧ s'.generation = s.generation ∧ s'.line = s.line ∧ s'.retired = s.retired →
      (∀ tasks, h.Owes s' tasks clients next) →
      h.Departed s' (others ++ [.destroyTemplateClients flag clients next]) (returned ++ []) := by
    intro s' next credentials book owes
    refine Departed.goes _ departed credentials book.1 ?_ book.2.1.ge (by simp [Undoes]) ?_ (by simp)
    · intro client is
      rw [Credentials.isCredentialWriteRetired, book.2.2.1, book.2.2.2]
      exact is
    · intro task mem
      cases List.mem_singleton.mp mem
      exact owes _
  cases stage with
  | entryLock => exact absurd rfl past
  | destroy client rest =>
    cases rest with
    | cons next rest =>
      cases went
      exact on (.destroy next rest) ⟨rfl, rfl⟩ ⟨rfl, rfl, rfl, rfl⟩ fun _ => trivial
    | nil =>
      simp only [resumeRemoval] at went
      split_ifs at went
      · cases went
        exact departed.purge _ clients ⟨rfl, rfl, rfl, rfl, rfl, rfl⟩ all
      · cases went
        exact on .templates ⟨rfl, rfl⟩ ⟨rfl, rfl, rfl, rfl⟩ fun _ => trivial
  | templates =>
    simp only [resumeRemoval] at went
    split_ifs at went
    · cases went
      refine Departed.goes _ departed ⟨rfl, rfl⟩ rfl (fun _ mem => mem) le_rfl
        (by simp [Undoes]) (by simp [returns]) ?_
      intro purged mem
      cases List.mem_singleton.mp mem
      simp [Remain]
    · cases went
      exact departed.purge _ clients ⟨rfl, rfl, rfl, rfl, rfl, rfl⟩ all
  | smembers client grants rest =>
    cases went
    refine departed.erase _ deletes ⟨owes.1.move (cleared _ (deleted _)), fun grantId => ?_⟩
    rcases owes.2 grantId with done | listed
    · exact .inl (cleared _ (deleted _) _ done)
    · cases grantId with
      | none => exact .inl (.inl (gone _))
      | some id => exact .inr (List.mem_map.mpr ⟨id, listed id rfl, rfl⟩)
  | del client keys rest =>
    cases keys with
    | cons key keys =>
      cases went
      refine departed.erase _ deletes ⟨owes.1.move (cleared _ (deleted _)), fun grantId => ?_⟩
      rcases owes.2 grantId with done | mem
      · exact .inl (cleared _ (deleted _) _ done)
      · rcases List.mem_cons.mp mem with is | mem
        · rw [← is]
          exact .inl (.inl (gone _))
        · exact .inr mem
    | nil =>
      cases went
      have done : ∀ grantId, h.Cleared s (.destroyTemplateClients flag clients (.del client [] rest) :: others)
          (h.authNamespace client, grantId) := fun grantId => (owes.2 grantId).resolve_right List.not_mem_nil
      refine Departed.move [_] departed rfl (fun _ mem => mem) le_rfl
        (Finset.Subset.refl _) (by simp [Undoes]) ?_ ?_
        (by simp [waits])
      · intro key mem
        by_cases own : key.1 = h.authNamespace client
        · obtain ⟨name, grantId⟩ := key
          cases own
          exact .inr ((cleared (.delGrants rest) (Finset.Subset.refl _) _ (done grantId)).resolve_left (not_not.mpr mem))
        · refine .inl ?_
          cases deletes with
          | true => exact Function.update_of_ne own _ _
          | false => rfl
      · intro task mem
        cases List.mem_singleton.mp mem
        intro other mem
        rcases owes.1 other mem with left | gone
        · rcases List.mem_cons.mp left with own | left
          · refine .inr fun grantId => ?_
            rw [own]
            exact cleared _ (Finset.Subset.refl _) _ (done grantId)
          · exact .inl left
        · exact .inr fun grantId => cleared _ (Finset.Subset.refl _) _ (gone grantId)
  | delGrants rest =>
    cases went
    exact departed.purge _ rest ⟨rfl, rfl, rfl, rfl, rfl, rfl⟩ owes

end Departed

section Runs

variable {h : CredentialClients} {since : ℕ} {s : Credentials} {others : List CredentialTask}
    {returned : List CredentialReturn}

theorem refresh_returned (client : ClientObject) (grantId : Option String) (ok : Bool)
    (s : Credentials) (stage : SaveStage)
    (clients : List ClientObject) : .destroyed clients ∉ (h.resumeRefresh client grantId ok s stage).returned := by
  cases stage with
  | hset =>
    cases grantId with
    | none => simp [resumeRefresh, returns]
    | some id => simp only [resumeRefresh]; split_ifs <;> simp [waits, returns]
  | hgetallRefreshToken | http | hgetall => simp only [resumeRefresh]; split_ifs <;> simp [waits, returns]
  | sadd | expire => simp [resumeRefresh, waits, returns]

theorem setGrant_returned (client : ClientObject) (grantId : String) (deletes : Bool)
    (s : Credentials) (stage : SetGrantStage)
    (clients : List ClientObject) :
    .destroyed clients ∉ (h.resumeSetGrant client grantId deletes s stage).returned := by
  cases stage with
  | hset | tracked => simp only [resumeSetGrant]; split_ifs <;> simp [waits, returns]
  | sadd | expire | del => simp [resumeSetGrant, waits, returns]

theorem commit_returned (generation : ℕ) (s : Credentials) (names : List String) (clients : List ClientObject) :
    .destroyed clients ∉ (commit generation s names).returned := by
  cases names with
  | nil => simp [CredentialClients.commit, returns]
  | cons name rest => cases found : s.registered name <;> simp [CredentialClients.commit, found, waits]

theorem build_returned {replacements : List String} {generation : ℕ} {stage : RebuildStage} {after : Pool}
    (kept : ∀ stale names, stage ≠ .retire stale names)
    (went : resumeBuild [] replacements generation s stage = some after) (clients : List ClientObject) :
    .destroyed clients ∉ after.returned := by
  cases stage with
  | entryLock =>
    simp only [resumeBuild, retireNext] at went
    split_ifs at went <;> cases went <;> simp [waits, returns]
  | retire stale names => exact absurd rfl (kept stale names)
  | names =>
    simp only [resumeBuild] at went
    split_ifs at went <;> cases went
    · simp [returns]
    · exact commit_returned _ _ _ clients
  | reset previous name rest =>
    cases went
    simp [waits]
  | init rest =>
    cases went
    exact commit_returned _ _ _ clients

/-- No removal has had its turn. -/
def Before (h : CredentialClients) (since : ℕ) (p : Pool) : Prop :=
  h.Standing since p.state p.tasks ∧ ∀ clients, .destroyed clients ∉ p.returned

theorem Before.resume {task : CredentialTask} {reply : CredentialReply} {after : Pool}
    (before : Before h since ⟨s, task :: others, returned⟩) (went : h.handler.resume task reply s = some after) :
    Before h since (after.beside others returned) ∨
      0 < since ∧ ∃ flag clients, task = .destroyTemplateClients flag clients .entryLock := by
  obtain ⟨standing, quiet⟩ := before
  have sound := standing.sound task List.mem_cons_self
  cases task with
  | refresh client grantId stage =>
    cases went
    refine .inl ⟨standing.refresh reply.ok, fun clients mem => ?_⟩
    rcases List.mem_append.mp mem with mem | mem
    · exact quiet clients mem
    · exact refresh_returned _ _ _ _ _ clients mem
  | setGrantTokens client grantId stage =>
    cases went
    refine .inl ⟨standing.setGrantTokens reply.deletes, fun clients mem => ?_⟩
    rcases List.mem_append.mp mem with mem | mem
    · exact quiet clients mem
    · exact setGrant_returned _ _ _ _ _ clients mem
  | build retiring replacements generation stage =>
    refine .inl ⟨standing.build went, fun clients mem => ?_⟩
    obtain ⟨rfl, -, kept⟩ := sound
    rcases List.mem_append.mp mem with mem | mem
    · exact quiet clients mem
    · exact build_returned kept went clients mem
  | destroyTemplateClients flag clients stage =>
    obtain ⟨rfl, later⟩ := sound
    exact .inr ⟨later, flag, clients, rfl⟩

theorem Before.call {p : Pool} {c : CredentialCall} (before : Before h since p) (plain : Plain since c) :
    Before h since ((h.handler.call c p.state).beside p.tasks p.returned) := by
  refine ⟨before.1.call plain, fun clients mem => ?_⟩
  rcases List.mem_append.mp mem with mem | mem
  · exact before.2 clients mem
  · cases c with
    | refresh | setGrantTokens => simp only [handler] at mem; split_ifs at mem <;> simp [waits, returns] at mem
    | build | destroyTemplateClients | tokensLapse | grantsLapse => simp [handler, waits] at mem

/-- From the call of a removal on, no build there is will make a client. -/
theorem Before.removal {p : Pool} (flag : Bool) (before : Before h since p) :
    Before h (since + 1) ((h.handler.call (.destroyTemplateClients flag) p.state).beside p.tasks p.returned) := by
  obtain ⟨standing, quiet⟩ := before
  have older : h.Standing (since + 1) { p.state with generation := p.state.generation + 1 } ([] ++ p.tasks) := by
    refine ⟨standing.unretired, standing.covered, fun task mem => ?_, standing.mates,
      standing.known, standing.fresh, standing.lock⟩
    have sound := standing.sound task mem
    cases task with
    | refresh | setGrantTokens => exact sound
    | build retiring replacements generation stage => exact ⟨sound.1, Nat.succ_le_succ sound.2.1, sound.2.2⟩
    | destroyTemplateClients flag clients stage => exact ⟨sound.1, Nat.succ_pos since⟩
  refine ⟨?_, by simpa [Pool.beside, handler, waits] using quiet⟩
  refine Standing.write [] p.state.tokens p.state.grants older (by simp [handler, waits, holdsLock])
    (fun _ _ mem => mem) (by simp) (fun _ mem => .inl mem) ?_
  intro task mem
  cases List.mem_singleton.mp mem
  exact ⟨rfl, Nat.succ_pos since⟩

theorem Departed.call {tasks : List CredentialTask} {c : CredentialCall}
    (departed : h.Departed s tasks returned) (plain : Plain 1 c) :
    h.Departed (h.handler.call c s).state (tasks ++ (h.handler.call c s).tasks)
      (returned ++ (h.handler.call c s).returned) := by
  have ignored : h.Departed s (tasks ++ []) (returned ++ []) := by simpa using departed
  have begun : ∀ {s' : Credentials} (task : CredentialTask), s'.left = s.left ∧
      s'.grants = s.grants → s'.made = s.made →
      s'.line = s.line ∧ s'.retired = s.retired → s.generation ≤ s'.generation → (∀ tasks, h.Due s' tasks task) →
      h.Departed s' (tasks ++ [task]) (returned ++ []) := by
    intro s' task credentials made line generation due
    refine Departed.move [] departed made ?_ generation credentials.1.subset (by simp)
      (fun key _ => .inl (congrFun credentials.2 key.1))
      ?_ (by simp)
    · intro client is
      rw [Credentials.isCredentialWriteRetired, line.1, line.2]
      exact is
    · intro next mem
      cases List.mem_singleton.mp mem
      exact due _
  cases c with
  | refresh client given carries =>
    simp only [handler]
    split_ifs with known
    · exact begun _ ⟨rfl, rfl⟩ rfl ⟨rfl, rfl⟩ le_rfl fun _ => known
    · exact begun _ ⟨rfl, rfl⟩ rfl ⟨rfl, rfl⟩ le_rfl fun _ => known
    · exact ignored
  | setGrantTokens client grantId =>
    simp only [handler]
    split_ifs with known retired
    · exact Departed.move [] departed rfl (fun _ mem => mem) le_rfl (Finset.Subset.refl _)
        (by simp) (fun _ _ => .inl rfl)
        (by simp [returns]) (by simp [returns])
    · exact absurd (departed.retired client known) retired
    · exact ignored
  | build retiring replacements => exact absurd plain.2 (by decide)
  | destroyTemplateClients flag => exact begun _ ⟨rfl, rfl⟩ rfl ⟨rfl, rfl⟩ (Nat.le_succ _) fun _ => trivial
  | tokensLapse key =>
    refine Departed.move [] departed rfl (fun _ mem => mem) le_rfl ?_ (by simp) (fun _ _ => .inl rfl)
      (by simp [handler]) (by simp [handler])
    exact Finset.sdiff_subset_sdiff (Finset.erase_subset _ _) (Finset.Subset.refl _)
  | grantsLapse authNamespace => exact plain.elim

theorem Departed.resume {task : CredentialTask} {reply : CredentialReply} {after : Pool}
    (departed : h.Departed s (task :: others) returned)
    (went : h.handler.resume task reply s = some after) :
    h.Departed after.state (others ++ after.tasks) (returned ++ after.returned) := by
  cases task with
  | refresh client grantId stage =>
    cases went
    exact departed.refresh reply.ok
  | setGrantTokens client grantId stage =>
    cases went
    exact departed.setGrantTokens reply.deletes
  | build retiring replacements generation stage => exact departed.build went
  | destroyTemplateClients flag clients stage =>
    by_cases waiting : stage = .entryLock
    · subst waiting
      exact Departed.entered reply.ok reply.deletes (departed.retire _) went
    · exact departed.removal waiting went

theorem Undone.perm {tasks tasks' : List CredentialTask} {key : TokenKey} (undone : h.Undone tasks key)
    (perm : tasks.Perm tasks') : h.Undone tasks' key := by
  obtain ⟨task, mem, undoes⟩ := undone
  exact ⟨task, perm.mem_iff.mp mem, undoes⟩

theorem Standing.perm {tasks tasks' : List CredentialTask} (standing : h.Standing since s tasks)
    (perm : tasks.Perm tasks') : h.Standing since s tasks' where
  unretired := standing.unretired
  covered key mem := (standing.covered key mem).imp_right fun undone => undone.perm perm
  sound task mem := by
    have sound := standing.sound task (perm.mem_iff.mpr mem)
    cases task with
    | refresh client grantId stage =>
      exact ⟨sound.1, fun early => (sound.2 early).imp_right fun undone => undone.perm perm⟩
    | setGrantTokens | build | destroyTemplateClients => exact sound
  mates := standing.mates
  known := standing.known
  fresh := standing.fresh
  lock := (perm.countP_eq _).symm.trans standing.lock

theorem Departed.perm {tasks tasks' : List CredentialTask} (departed : h.Departed s tasks returned)
    (perm : tasks.Perm tasks') : h.Departed s tasks' returned where
  retired := departed.retired
  covered key mem := (departed.covered key mem).imp_right fun undone => undone.perm perm
  due task mem := (departed.due task (perm.mem_iff.mpr mem)).move rfl le_rfl fun _ cleared =>
    cleared.imp_right fun undone => undone.perm perm
  purged clients mem := (departed.purged clients mem).move fun _ cleared =>
    cleared.imp_right fun undone => undone.perm perm

/-- A handler that starts over a backend with every grant it holds tokens for on record. -/
structure Starts (s : Credentials) : Prop where
  clients : s.clients = []
  made : s.made = []
  unretired : ∀ line, s.retired line = false
  unlocked : s.locked = false
  deleted : s.undeleted = ∅
  recorded : ∀ key ∈ s.tokens, ∀ grantId, key.2 = some grantId → grantId ∈ s.grants key.1

theorem Starts.before (starts : Starts s) : Before h 0 ⟨s, [], []⟩ := by
  refine ⟨⟨starts.unretired, fun key mem => .inl (starts.recorded key mem), by simp, ?_, ?_, ?_, by simp [starts.unlocked]⟩,
    by simp⟩
  · simp [starts.made]
  · simp [starts.clients]
  · simp [starts.made]

/-- Calls as they may come `since` removals after the last build, and any turn. -/
def Allows (since : ℕ) : Event CredentialCall CredentialReply → Prop
  | .call c => Plain since c
  | .resume _ _ => True

theorem serves_before {p q : Pool} {events : List (Event CredentialCall CredentialReply)}
    (ran : h.handler.run p events = some q)
    (serves : ∀ e ∈ events, Allows 0 e) (before : Before h 0 p) : Before h 0 q := by
  refine Machine.run_invariant (fun p c before serves => before.call serves) ?_ ran serves before
  intro p task others reply after before perm went
  have here : Before h 0 ⟨p.state, task :: others, p.returned⟩ := ⟨before.1.perm perm, before.2⟩
  rcases here.resume went with before | ⟨later, -⟩
  · exact before
  · exact absurd later (lt_irrefl 0)

/-- Before the removal's turn or after it. -/
def Leaving (h : CredentialClients) (p : Pool) : Prop := Before h 1 p ∨ h.Departed p.state p.tasks p.returned

theorem departs_leaving {p q : Pool} {events : List (Event CredentialCall CredentialReply)}
    (ran : h.handler.run p events = some q)
    (departs : ∀ e ∈ events, Allows 1 e) (leaving : Leaving h p) : Leaving h q := by
  refine Machine.run_invariant ?_ ?_ ran departs leaving
  · intro p c leaving plain
    rcases leaving with before | departed
    · exact .inl (before.call plain)
    · exact .inr (departed.call plain)
  · intro p task others reply after leaving perm went
    rcases leaving with before | departed
    · have here : Before h 1 ⟨p.state, task :: others, p.returned⟩ := ⟨before.1.perm perm, before.2⟩
      rcases here.resume went with before | ⟨-, flag, clients, rfl⟩
      · exact .inl before
      · have free : p.state.locked = false := by
          cases locked : p.state.locked with
          | false => rfl
          | true => simp [handler, resumeRemoval, locked] at went
        exact .inr (Departed.entered reply.ok reply.deletes (here.1.retire free here.2) went)
    · exact .inr ((departed.perm perm).resume went)

/-- No token outlives a removal under an auth namespace whose credentials it purged, but for those it could not
delete, however the refreshes and the seeded grants of its clients, and of those they replaced, ran alongside. -/
theorem no_credential_outlives_removal {early late : List (Event CredentialCall CredentialReply)}
    {flag : Bool} {q : Pool}
    (starts : Starts s) (serves : ∀ e ∈ early, Allows 0 e) (departs : ∀ e ∈ late, Allows 1 e)
    (ran : h.handler.run ⟨s, [], []⟩ (early ++ .call (.destroyTemplateClients flag) :: late) = some q)
    (finished : q.tasks = []) {clients : List ClientObject} (purged : .destroyed clients ∈ q.returned) :
    ∀ client ∈ clients, ∀ grantId, (h.authNamespace client, grantId) ∈ q.state.tokens →
      (h.authNamespace client, grantId) ∈ q.state.undeleted := by
  rw [Machine.run_append] at ran
  obtain ⟨p, began, ran⟩ := Option.bind_eq_some_iff.mp ran
  obtain ⟨next, called, ran⟩ := Option.bind_eq_some_iff.mp ran
  cases called
  have before : Before h 0 p := serves_before began serves starts.before
  have leaving : Leaving h q := departs_leaving ran departs (.inl (before.removal flag))
  rcases leaving with waiting | departed
  · exact absurd purged (waiting.2 clients)
  · intro client mem grantId stored
    rcases departed.purged clients purged client mem with left | cleared
    · exact absurd left List.not_mem_nil
    · rcases cleared grantId with erased | ⟨task, alive, -⟩
      · by_contra deleted
        exact erased (Finset.mem_sdiff.mpr ⟨stored, deleted⟩)
      · rw [finished] at alive
        exact absurd alive List.not_mem_nil

end Runs

/-- Clients that file under their own names. -/
def plainClients : CredentialClients := ⟨fun client => client.1⟩

/-- A backend with one grant on record. -/
def grantedStart : Credentials where
  tokens := {("acme", some "user")}
  undeleted := ∅
  grants name := if name = "acme" then ["user"] else []
  line := id
  retired _ := false
  clients := []
  made := []
  serial := 0
  locked := false
  generation := 0

/-- The client is made, a refresh of the grant waits for its reply, and the client is made again. -/
def servingEvents : List (Event CredentialCall CredentialReply) :=
  [.call (.build [] ["acme"]), .resume 0 {}, .resume 0 {}, .resume 0 {},
    .call (.refresh ("acme", 0) (some "user") true), .resume 0 {}, .resume 0 {},
    .call (.build [] ["acme"]), .resume 1 {}, .resume 1 {}, .resume 1 {}, .resume 1 {}]

/-- Tokens of another grant are stored as the removal begins; the purge, which fails to delete the first
grant's, is over before that call goes on. -/
def departingEvents : List (Event CredentialCall CredentialReply) :=
  [.call (.setGrantTokens ("acme", 1) "guest"), .resume 1 {}, .resume 0 {}, .resume 1 {}, .resume 1 {},
    .resume 1 { deletes := false },
    .resume 1 {}, .resume 1 {}, .resume 0 {}, .resume 0 {}, .resume 0 {}]

theorem no_credential_outlives_removal_rebuilt : ∃ q,
    plainClients.handler.run ⟨grantedStart, [], []⟩
      (servingEvents ++ .call (.destroyTemplateClients true) :: departingEvents) = some q ∧
    .destroyed [("acme", 1)] ∈ q.returned ∧ .clientRemoved ∈ q.returned ∧
      q.state.undeleted = {("acme", some "user")} ∧
    ∀ client ∈ [("acme", 1)], ∀ grantId, (plainClients.authNamespace client, grantId) ∈ q.state.tokens →
      (plainClients.authNamespace client, grantId) ∈ q.state.undeleted := by
  have ended : (plainClients.handler.run ⟨grantedStart, [], []⟩
      (servingEvents ++ .call (.destroyTemplateClients true) :: departingEvents)).any (fun q =>
        q.tasks = [] ∧ .destroyed [("acme", 1)] ∈ q.returned ∧ .clientRemoved ∈ q.returned ∧
          q.state.undeleted = {("acme", some "user")}) = true := by decide +kernel
  obtain ⟨q, ran, all⟩ := Option.any_eq_true _ _ |>.mp ended
  obtain ⟨finished, purged, refused, failed⟩ := of_decide_eq_true all
  refine ⟨q, ran, purged, refused, failed, ?_⟩
  refine no_credential_outlives_removal ⟨rfl, rfl, fun _ => rfl, rfl, rfl, ?_⟩ ?_ ?_ ran finished purged
  · intro key mem grantId is
    cases Finset.mem_singleton.mp mem
    cases is
    decide
  · simp [servingEvents, Allows, Plain]
  · simp [departingEvents, Allows, Plain]

/-- Sub-clients that file under the client they belong to. -/
def sharedClients : CredentialClients := ⟨fun _ => "acme"⟩

/-- A build drops a sub-client whose refresh waits for its reply. That client is on no line the removal retires, and
its token is written once the purge is over. -/
example : (sharedClients.handler.run ⟨grantedStart, [], []⟩
    [.call (.build [] ["acme", "acme:sub"]), .resume 0 {}, .resume 0 {}, .resume 0 {}, .resume 0 {},
      .call (.refresh ("acme:sub", 1) none true), .resume 0 {},
      .call (.build ["acme:sub"] []), .resume 1 {}, .resume 1 {}, .resume 1 {},
      .call (.destroyTemplateClients true), .resume 1 {}, .resume 1 {}, .resume 1 {}, .resume 1 {}, .resume 1 {},
      .resume 1 {}, .resume 0 {}, .resume 0 {}, .resume 0 {}]).any (fun q =>
    q.tasks = [] ∧ .destroyed [("acme", 0)] ∈ q.returned ∧
      ("acme", none) ∈ q.state.tokens \ q.state.undeleted) = true := by
  decide +kernel

end CredentialClients

end Dianemo
