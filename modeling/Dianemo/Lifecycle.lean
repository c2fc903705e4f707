import Dianemo.Election
import Dianemo.Library.Tasks

namespace Dianemo

open Tasks

/-- How a promise settles. -/
inductive PromiseResult where
  | fulfilled
  | rejected
  deriving DecidableEq

/-- What `start`, `stop` and the refusals of a handler read and write. Promises
are numbered as they are made: `next` is the number of the next one. -/
structure Lifecycle where
  status : RequestHandlerStatus
  stoppedByCaller : Bool
  startPromise : Option ℕ
  stopPromise : Option ℕ
  settled : List (ℕ × PromiseResult)
  next : ℕ
  deriving DecidableEq

/-- Where a call waits, or a body it started is. -/
inductive Waiting where
  /-- `start`, at `await this.stopPromise`. -/
  | startAwaitsStop (stop : ℕ)
  /-- `start`, having returned `startPromise`. -/
  | startJoins (start : ℕ)
  | doStart (start : ℕ)
  /-- The `catch` of a `doStart` that has failed, before it runs. -/
  | startFailed (start : ℕ)
  /-- The same, at `await this.backend.close()`. -/
  | closing (start : ℕ)
  /-- `finishStartupThenStop`, at `await this.startPromise`. -/
  | stopAwaitsStart (stop start : ℕ)
  | doStop (stop : ℕ)
  /-- The `finally` of a `finishStartupThenStop` that is over, before it runs. -/
  | stopDone (stop : ℕ) (outcome : PromiseResult)
  /-- `stop`, having returned `stopPromise`. -/
  | stopJoins (stop : ℕ)
  deriving DecidableEq

/-- A call that is over: a `stop` with the shutdown it waited for, if any. -/
inductive Returned where
  | start (outcome : PromiseResult)
  | stop (shutdown : Option ℕ) (outcome : PromiseResult)
  deriving DecidableEq

structure ClientUnavailableError where
  code : String
  message : String
  deriving DecidableEq

inductive LifecycleCall where
  | start
  | stop
  | handleRequest
  /-- `addTemplateClient`, `addLocalTemplateClient` or `removeTemplateClient`. -/
  | mutateTemplateClients
  deriving DecidableEq

namespace Lifecycle

/-- As the constructor leaves it. -/
def constructed : Lifecycle := ⟨.stopped, false, none, none, [], 0⟩

def outcome (s : Lifecycle) (promise : ℕ) : Option PromiseResult := s.settled.lookup promise

def settle (s : Lifecycle) (promise : ℕ) (outcome : PromiseResult) : Lifecycle :=
  { s with settled := (promise, outcome) :: s.settled }

/-- `start`, from `this.stoppedByCaller = false` on. -/
def startNow (s : Lifecycle) : Pool Lifecycle Waiting Returned :=
  let s := { s with stoppedByCaller := false }
  if s.status = .started then ⟨s, [], [.start .fulfilled]⟩
  else match s.startPromise with
    | some start => ⟨s, [.startJoins start], []⟩
    | none => ⟨{ s with status := .starting, startPromise := some s.next, next := s.next + 1 },
        [.doStart s.next, .startJoins s.next], []⟩

def start (s : Lifecycle) : Pool Lifecycle Waiting Returned :=
  match s.stopPromise with
  | some stop => ⟨s, [.startAwaitsStop stop], []⟩
  | none => s.startNow

/-- `doStop` up to its first wait, for the shutdown `stop`. -/
def beginStop (s : Lifecycle) (stop : ℕ) : Pool Lifecycle Waiting Returned :=
  if s.status = .started ∨ s.status = .starting then ⟨{ s with status := .stopping }, [.doStop stop], []⟩
  else ⟨s, [.stopDone stop .fulfilled], []⟩

/-- `finishStartupThenStop` up to its first wait. -/
def finishStartupThenStop (s : Lifecycle) (stop : ℕ) : Pool Lifecycle Waiting Returned :=
  match s.status, s.startPromise with
  | .starting, some start => ⟨s, [.stopAwaitsStart stop start], []⟩
  | _, _ => s.beginStop stop

/-- The shutdown a `stop` called now waits for. -/
def shutdown (s : Lifecycle) : Option ℕ :=
  match s.stopPromise with
  | some stop => some stop
  | none => if s.status = .started ∨ s.status = .starting then some s.next else none

def stop (s : Lifecycle) : Pool Lifecycle Waiting Returned :=
  match s.stopPromise with
  | some stop => ⟨s, [.stopJoins stop], []⟩
  | none =>
    if s.status ≠ .started ∧ s.status ≠ .starting then
      ⟨{ s with stoppedByCaller := true }, [], [.stop none .fulfilled]⟩
    else
      let after := { s with next := s.next + 1 }.finishStartupThenStop s.next
      ⟨{ after.state with stopPromise := some s.next }, after.tasks ++ [.stopJoins s.next], after.returned⟩

def assertNotStopped (s : Lifecycle) (action : String) : Except ClientUnavailableError Unit :=
  if s.stoppedByCaller then
    .error ⟨"handler_stopped", s!"Request handler was stopped and cannot {action} until start() is called again."⟩
  else .ok ()

/-- The check `handleRequest` and every template mutation makes first. -/
def assertAccepts (s : Lifecycle) (action : String) : Except ClientUnavailableError Unit :=
  if s.status = .stopping ∨ s.stopPromise.isSome then
    .error ⟨"handler_stopping", s!"Request handler is stopping and cannot {action}."⟩
  else s.assertNotStopped action

/-- `handleRequest` up to the wait for its client. -/
def handleRequest (s : Lifecycle) : Except ClientUnavailableError (Pool Lifecycle Waiting Returned) := do
  s.assertAccepts "accept new requests"
  return if s.status ≠ .started then s.start else ⟨s, [], []⟩

def assertTemplateMutationAllowed (s : Lifecycle) : Except ClientUnavailableError Unit :=
  s.assertAccepts "mutate template clients"

/-- A template mutation up to its first call of the backend. -/
def mutateTemplateClients (s : Lifecycle) : Except ClientUnavailableError (Pool Lifecycle Waiting Returned) := do
  s.assertTemplateMutationAllowed
  return if s.status = .stopped then s.start else ⟨s, [], []⟩

/-- A refused call changes nothing. -/
def orRefused (s : Lifecycle) (result : Except ClientUnavailableError (Pool Lifecycle Waiting Returned)) :
    Pool Lifecycle Waiting Returned :=
  match result with
  | .ok after => after
  | .error _ => ⟨s, [], []⟩

def call (s : Lifecycle) : LifecycleCall → Pool Lifecycle Waiting Returned
  | .start => s.start
  | .stop => s.stop
  | .handleRequest => s.orRefused s.handleRequest
  | .mutateTemplateClients => s.orRefused s.mutateTemplateClients

/-- A wait that is over, or the end of a body; only a body has a choice of outcome. -/
def resume (task : Waiting) (outcome : PromiseResult) (s : Lifecycle) : Option (Pool Lifecycle Waiting Returned) :=
  match task with
  | .startAwaitsStop stop => match s.outcome stop with
    | some .fulfilled => some s.startNow
    | some .rejected => some ⟨s, [], [.start .rejected]⟩
    | none => none
  | .startJoins start => (s.outcome start).map fun outcome => ⟨s, [], [.start outcome]⟩
  | .doStart start => match outcome with
    | .fulfilled => some ⟨{ s with status := .started }.settle start .fulfilled, [], []⟩
    | .rejected => some ⟨s, [.startFailed start], []⟩
  | .startFailed start => some ⟨{ s with startPromise := none, status := .stopped }, [.closing start], []⟩
  | .closing start => some ⟨s.settle start .rejected, [], []⟩
  | .stopAwaitsStart stop start => match s.outcome start with
    | some .fulfilled => some (s.beginStop stop)
    | some .rejected => some ⟨s, [.stopDone stop .fulfilled], []⟩
    | none => none
  | .doStop stop => some ⟨{ s with startPromise := none, status := .stopped }, [.stopDone stop outcome], []⟩
  | .stopDone stop outcome =>
    some ⟨{ s with stoppedByCaller := true, stopPromise := none }.settle stop outcome, [], []⟩
  | .stopJoins stop => (s.outcome stop).map fun outcome => ⟨s, [], [.stop (some stop) outcome]⟩

end Lifecycle

/-- One handler's calls and bodies, interleaved where they wait. -/
def lifecycle : Machine Lifecycle Waiting Returned LifecycleCall PromiseResult where
  call c s := s.call c
  resume := Lifecycle.resume

namespace Waiting

/-- The start a task is the body of, until its `catch` has run. -/
def starting : Waiting → Option ℕ
  | .doStart start | .startFailed start => some start
  | _ => none

/-- The shutdown a task is a part of. -/
def stopping : Waiting → Option ℕ
  | .stopAwaitsStart stop _ | .doStop stop | .stopDone stop _ => some stop
  | _ => none

/-- The promise a task will settle. -/
def settles : Waiting → Option ℕ
  | .doStart promise | .startFailed promise | .closing promise => some promise
  | .stopAwaitsStart promise _ | .doStop promise | .stopDone promise _ => some promise
  | _ => none

/-- A `doStart` or `doStop` in progress. -/
def body : Waiting → Bool
  | .doStart _ | .doStop _ => true
  | _ => false

/-- A start or a stop in progress. -/
def busy : Waiting → Bool := fun task => task.settles.isSome

end Waiting

/-- How the four fields go with what is in progress. -/
structure Coherent (s : Lifecycle) (tasks : List Waiting) : Prop where
  starting : (tasks.filterMap Waiting.starting).Perm (if s.status = .starting then s.startPromise.toList else [])
  stopping : (tasks.filterMap Waiting.stopping).Perm s.stopPromise.toList
  doStop : (∃ stop, .doStop stop ∈ tasks) ↔ s.status = .stopping
  stopped : s.status = .stopped ↔ s.startPromise = none
  up : s.status = .started ∨ s.status = .stopping → ∀ start, s.startPromise = some start →
    s.outcome start = some .fulfilled
  waits : ∀ stop start, .stopAwaitsStart stop start ∈ tasks →
    (s.outcome start = some .fulfilled → s.status = .started) ∧
    (s.outcome start = none → s.startPromise = some start ∧ s.status = .starting ∨ .closing start ∈ tasks)
  unsettled : ∀ task ∈ tasks, ∀ promise, task.settles = some promise → promise < s.next ∧ s.outcome promise = none
  distinct : (tasks.filterMap Waiting.settles).Nodup
  made : ∀ promise, s.outcome promise ≠ none → promise < s.next

section Coherence

variable {s : Lifecycle} {tasks tasks' : List Waiting} {task : Waiting}

/-- What a call does: a request or a mutation starts the handler only if no stop is known of. -/
theorem Lifecycle.call_cases (s : Lifecycle) (call : LifecycleCall) :
    call = .stop ∧ s.call call = s.stop ∨ s.call call = ⟨s, [], []⟩ ∨
      s.call call = s.start ∧ (call = .start ∨ s.stopPromise = none ∧ s.stoppedByCaller = false) := by
  have asked : ∀ (action : String) (needed : Bool),
      s.orRefused (do s.assertAccepts action; return if needed then s.start else ⟨s, [], []⟩) = ⟨s, [], []⟩ ∨
      s.orRefused (do s.assertAccepts action; return if needed then s.start else ⟨s, [], []⟩) = s.start ∧
        s.stopPromise = none ∧ s.stoppedByCaller = false := by
    intro action needed
    by_cases stopping : s.status = .stopping ∨ s.stopPromise.isSome
    · exact .inl (by simp [assertAccepts, if_pos stopping, orRefused, bind, Except.bind])
    · cases byCaller : s.stoppedByCaller with
      | true =>
        exact .inl (by simp [assertAccepts, if_neg stopping, assertNotStopped, byCaller, orRefused, bind, Except.bind])
      | false =>
        have accepted : s.assertAccepts action = .ok () := by
          simp [assertAccepts, if_neg stopping, assertNotStopped, byCaller]
        rw [accepted]
        cases needed with
        | true => exact .inr ⟨rfl, by simpa using (not_or.mp stopping).2, rfl⟩
        | false => exact .inl rfl
  cases call with
  | start => exact .inr (.inr ⟨rfl, .inl rfl⟩)
  | stop => exact .inl ⟨rfl, rfl⟩
  | handleRequest =>
    have := asked "accept new requests" (s.status ≠ .started)
    simp only [decide_eq_true_eq] at this
    exact this.elim (fun same => .inr (.inl same)) fun same => .inr (.inr ⟨same.1, .inr same.2⟩)
  | mutateTemplateClients =>
    have := asked "mutate template clients" (s.status = .stopped)
    simp only [decide_eq_true_eq] at this
    exact this.elim (fun same => .inr (.inl same)) fun same => .inr (.inr ⟨same.1, .inr same.2⟩)

theorem Coherent.perm (coherent : Coherent s tasks) (perm : tasks.Perm tasks') : Coherent s tasks' where
  starting := (perm.filterMap _).symm.trans coherent.starting
  stopping := (perm.filterMap _).symm.trans coherent.stopping
  doStop := by simpa only [perm.mem_iff] using coherent.doStop
  stopped := coherent.stopped
  up := coherent.up
  waits := by simpa only [perm.mem_iff] using coherent.waits
  unsettled := by simpa only [perm.mem_iff] using coherent.unsettled
  distinct := (perm.filterMap _).nodup_iff.mp coherent.distinct
  made := coherent.made

/-- A task that settles no promise only waits for one. -/
theorem Waiting.quiet (idle : task.settles = none) : task.starting = none ∧ task.stopping = none ∧
    (∀ stop, task ≠ .doStop stop) ∧ (∀ stop start, task ≠ .stopAwaitsStart stop start) ∧
      ∀ start, task ≠ .closing start := by
  cases task <;> simp [settles, starting, stopping] at idle ⊢

theorem coherent_cons (task : Waiting) (none : task.settles = none) :
    Coherent s (task :: tasks) ↔ Coherent s tasks := by
  obtain ⟨starting, stopping, doStop, awaits, closing⟩ := Waiting.quiet none
  constructor
  · intro coherent
    refine ⟨?_, ?_, ?_, coherent.stopped, coherent.up, ?_, ?_, ?_, coherent.made⟩
    · simpa [List.filterMap_cons, starting] using coherent.starting
    · simpa [List.filterMap_cons, stopping] using coherent.stopping
    · simpa [(doStop _).symm] using coherent.doStop
    · simpa [(awaits _ _).symm, (closing _).symm] using coherent.waits
    · exact fun other mem => coherent.unsettled other (List.mem_cons_of_mem _ mem)
    · simpa [List.filterMap_cons, none] using coherent.distinct
  · intro coherent
    refine ⟨?_, ?_, ?_, coherent.stopped, coherent.up, ?_, ?_, ?_, coherent.made⟩
    · simpa [List.filterMap_cons, starting] using coherent.starting
    · simpa [List.filterMap_cons, stopping] using coherent.stopping
    · simpa [(doStop _).symm] using coherent.doStop
    · simpa [(awaits _ _).symm, (closing _).symm] using coherent.waits
    · intro other mem promise settles
      rcases List.mem_cons.mp mem with rfl | mem
      · rw [none] at settles
        cases settles
      · exact coherent.unsettled other mem promise settles
    · simpa [List.filterMap_cons, none] using coherent.distinct

theorem Coherent.caller (coherent : Coherent s tasks) (byCaller : Bool) :
    Coherent { s with stoppedByCaller := byCaller } tasks :=
  ⟨coherent.starting, coherent.stopping, coherent.doStop, coherent.stopped, coherent.up, coherent.waits,
    coherent.unsettled, coherent.distinct, coherent.made⟩

theorem constructed_coherent : Coherent Lifecycle.constructed [] := by
  refine ⟨?_, ?_, ?_, ?_, ?_, ?_, ?_, ?_, ?_⟩ <;> simp [Lifecycle.constructed, Lifecycle.outcome]

/-- The next promise is none that a task waits for, settles or has settled. -/
theorem Coherent.next_new (coherent : Coherent s tasks) : s.outcome s.next = none := by
  by_contra settled
  exact lt_irrefl _ (coherent.made _ settled)

theorem Coherent.startNow (coherent : Coherent s tasks) :
    Coherent s.startNow.state (s.startNow.tasks ++ tasks) := by
  unfold Lifecycle.startNow
  simp only
  split
  · exact coherent.caller false
  · rename_i down
    split
    · exact (coherent_cons (.startJoins _) rfl).mpr (coherent.caller false)
    · rename_i promise
      have stopped : s.status = .stopped := coherent.stopped.mpr promise
      have none : ∀ stop, .doStop stop ∉ tasks := by
        intro stop mem
        have := coherent.doStop.mp ⟨stop, mem⟩
        rw [stopped] at this
        cases this
      have starting := coherent.starting
      rw [stopped, if_neg (by decide)] at starting
      refine ⟨?_, ?_, ?_, ?_, ?_, ?_, ?_, ?_, ?_⟩
      · simpa [List.filterMap_cons, Waiting.starting] using starting
      · simpa [List.filterMap_cons, Waiting.stopping] using coherent.stopping
      · simpa using none
      · simp
      · simp
      · intro stop start mem
        have old : .stopAwaitsStart stop start ∈ tasks := by simpa using mem
        obtain ⟨fulfilled, unsettled⟩ := coherent.waits stop start old
        refine ⟨fun settled => ?_, fun open_ => .inr ?_⟩
        · have := fulfilled settled
          rw [stopped] at this
          cases this
        · rcases unsettled open_ with ⟨_, starting⟩ | closing
          · rw [stopped] at starting
            cases starting
          · simpa using closing
      · intro task mem promise' settles
        rcases List.mem_cons.mp mem with rfl | mem
        · cases settles
          exact ⟨Nat.lt_succ_self _, coherent.next_new⟩
        · rcases List.mem_cons.mp mem with rfl | mem
          · cases settles
          · obtain ⟨below, unsettled⟩ := coherent.unsettled task mem promise' settles
            exact ⟨below.trans (Nat.lt_succ_self _), unsettled⟩
      · have fresh : s.next ∉ tasks.filterMap Waiting.settles := by
          intro mem
          obtain ⟨task, mem, settles⟩ := List.mem_filterMap.mp mem
          exact lt_irrefl _ (coherent.unsettled task mem _ settles).1
        exact List.nodup_cons.mpr ⟨fresh, coherent.distinct⟩
      · exact fun promise' settled => (coherent.made promise' settled).trans (Nat.lt_succ_self _)

theorem Coherent.start (coherent : Coherent s tasks) : Coherent s.start.state (s.start.tasks ++ tasks) := by
  unfold Lifecycle.start
  split
  · exact (coherent_cons (.startAwaitsStop _) rfl).mpr coherent
  · exact coherent.startNow

/-- At most one start is under way: the one `startPromise` is for. -/
theorem Coherent.starting_eq (coherent : Coherent s (task :: tasks)) {start : ℕ} (is : task.starting = some start) :
    s.status = .starting ∧ s.startPromise = some start ∧ tasks.filterMap Waiting.starting = [] := by
  have perm := coherent.starting
  rw [List.filterMap_cons_some is] at perm
  split at perm
  · rename_i status
    cases promise : s.startPromise with
    | none => simp [promise] at perm
    | some other =>
      rw [promise] at perm
      have same := List.perm_singleton.mp perm
      simp only [List.cons.injEq] at same
      exact ⟨status, by rw [same.1], same.2⟩
  · simp at perm

theorem Coherent.under_way (coherent : Coherent s tasks) (status : s.status = .starting) {start : ℕ}
    (held : s.startPromise = some start) : ∃ task ∈ tasks, task.settles = some start := by
  have mine : start ∈ tasks.filterMap Waiting.starting := by
    rw [coherent.starting.mem_iff, if_pos status, held]
    exact List.mem_singleton_self _
  obtain ⟨task, mem, is⟩ := List.mem_filterMap.mp mine
  refine ⟨task, mem, ?_⟩
  cases task <;> first | exact is | cases is

/-- At most one shutdown is under way: the one `stopPromise` is for. -/
theorem Coherent.stopping_eq (coherent : Coherent s (task :: tasks)) {stop : ℕ} (is : task.stopping = some stop) :
    s.stopPromise = some stop ∧ tasks.filterMap Waiting.stopping = [] := by
  have perm := coherent.stopping
  rw [List.filterMap_cons_some is] at perm
  cases promise : s.stopPromise with
  | none => simp [promise] at perm
  | some other =>
    rw [promise] at perm
    have same := List.perm_singleton.mp perm
    simp only [List.cons.injEq] at same
    exact ⟨by rw [same.1], same.2⟩

theorem Coherent.lone (coherent : Coherent s (task :: tasks)) {stop : ℕ} (is : task.stopping = some stop) :
    (∀ stop', .doStop stop' ∉ tasks) ∧ ∀ stop' start, .stopAwaitsStart stop' start ∉ tasks := by
  have none := List.filterMap_eq_nil_iff.mp (coherent.stopping_eq is).2
  constructor
  · intro stop' mem
    cases none _ mem
  · intro stop' start mem
    cases none _ mem

/-- A promise once settled stays as it settled while others settle. -/
theorem Lifecycle.outcome_settle {promise other : ℕ} {outcome : PromiseResult} :
    (s.settle promise outcome).outcome other = if other = promise then some outcome else s.outcome other := by
  unfold Lifecycle.settle Lifecycle.outcome
  rw [List.lookup_cons]
  by_cases same : other = promise
  · simp [same]
  · simp [same, beq_false_of_ne same]

/-- A body that ends settles its promise, and no other waits to settle it. -/
theorem Coherent.settle_others (coherent : Coherent s (task :: tasks)) {promise : ℕ} (outcome : PromiseResult)
    (is : task.settles = some promise) :
    (∀ other ∈ tasks, ∀ promise', other.settles = some promise' → promise' < s.next ∧
      (s.settle promise outcome).outcome promise' = none) ∧ (tasks.filterMap Waiting.settles).Nodup ∧
    ∀ promise', (s.settle promise outcome).outcome promise' ≠ none → promise' < s.next := by
  have distinct := coherent.distinct
  rw [List.filterMap_cons_some is, List.nodup_cons] at distinct
  refine ⟨?_, distinct.2, ?_⟩
  · intro other mem promise' settles
    have apart : promise' ≠ promise := by
      rintro rfl
      exact distinct.1 (List.mem_filterMap.mpr ⟨other, mem, settles⟩)
    rw [Lifecycle.outcome_settle, if_neg apart]
    exact coherent.unsettled other (List.mem_cons_of_mem _ mem) promise' settles
  · intro promise' settled
    rw [Lifecycle.outcome_settle] at settled
    split at settled
    · rename_i same
      rw [same]
      exact (coherent.unsettled task List.mem_cons_self promise is).1
    · exact coherent.made promise' settled

/-- A shutdown begun while none is in progress. -/
theorem Coherent.shut (coherent : Coherent s tasks) (quiet : s.stopPromise = none) {status : RequestHandlerStatus}
    (begun : status = .stopping ∧ s.status = .started ∧ task = .doStop s.next ∨
      status = .starting ∧ s.status = .starting ∧ ∃ start, s.startPromise = some start ∧
        task = .stopAwaitsStart s.next start) :
    Coherent { s with status := status, stopPromise := some s.next, next := s.next + 1 }
      (task :: .stopJoins s.next :: tasks) := by
  have stopping : tasks.filterMap Waiting.stopping = [] :=
    List.perm_nil.mp (by simpa [quiet] using coherent.stopping)
  have apart : ∀ other ∈ tasks, other.stopping = none := List.filterMap_eq_nil_iff.mp stopping
  have noStop : ∀ stop, .doStop stop ∉ tasks := by
    intro stop mem
    cases apart _ mem
  have noWait : ∀ stop start, .stopAwaitsStart stop start ∉ tasks := by
    intro stop start mem
    cases apart _ mem
  have fresh : s.next ∉ tasks.filterMap Waiting.settles := by
    intro mem
    obtain ⟨other, mem, settles⟩ := List.mem_filterMap.mp mem
    exact lt_irrefl _ (coherent.unsettled other mem _ settles).1
  have unsettled : ∀ other ∈ tasks, ∀ promise, other.settles = some promise →
      promise < s.next + 1 ∧ s.outcome promise = none := by
    intro other mem promise settles
    obtain ⟨below, unsettled⟩ := coherent.unsettled other mem promise settles
    exact ⟨below.trans (Nat.lt_succ_self _), unsettled⟩
  have made : ∀ promise, s.outcome promise ≠ none → promise < s.next + 1 :=
    fun promise settled => (coherent.made promise settled).trans (Nat.lt_succ_self _)
  have parts : task.starting = none ∧ task.stopping = some s.next ∧ task.settles = some s.next := by
    rcases begun with ⟨_, _, rfl⟩ | ⟨_, _, start, _, rfl⟩ <;> exact ⟨rfl, rfl, rfl⟩
  refine ⟨?_, ?_, ?_, ?_, ?_, ?_, ?_, ?_, made⟩
  · have starting := coherent.starting
    rw [List.filterMap_cons_none parts.1]
    rcases begun with ⟨rfl, was, _⟩ | ⟨rfl, was, _⟩
    · simpa [was, List.filterMap_cons, Waiting.starting] using starting
    · simpa [was, List.filterMap_cons, Waiting.starting] using starting
  · rw [List.filterMap_cons_some parts.2.1]
    exact List.Perm.of_eq (congrArg _ stopping)
  · rcases begun with ⟨rfl, _, rfl⟩ | ⟨rfl, _, start, _, rfl⟩
    · simp
    · simpa using noStop
  · rcases begun with ⟨rfl, was, _⟩ | ⟨rfl, was, _⟩
    · simpa [was] using coherent.stopped
    · simpa [was] using coherent.stopped
  · intro on start held
    refine coherent.up (.inl ?_) start held
    rcases begun with ⟨_, was, _⟩ | ⟨rfl, _, _⟩
    · exact was
    · rcases on with on | on <;> cases on
  · intro stop start mem
    rcases begun with ⟨rfl, _, rfl⟩ | ⟨rfl, was, start', held, rfl⟩
    · simp [noWait] at mem
    · have same : stop = s.next ∧ start = start' := by simpa [noWait] using mem
      obtain ⟨rfl, rfl⟩ := same
      have open_ : s.outcome start = none := by
        obtain ⟨other, mem, settles⟩ := coherent.under_way was held
        exact (coherent.unsettled other mem start settles).2
      refine ⟨fun settled => ?_, fun _ => .inl ⟨held, rfl⟩⟩
      have settled : s.outcome start = some .fulfilled := settled
      rw [open_] at settled
      cases settled
  · intro other mem promise settles
    rcases List.mem_cons.mp mem with rfl | mem
    · rw [parts.2.2] at settles
      cases settles
      exact ⟨Nat.lt_succ_self _, coherent.next_new⟩
    · rcases List.mem_cons.mp mem with rfl | mem
      · cases settles
      · exact unsettled other mem promise settles
  · rw [List.filterMap_cons_some parts.2.2]
    exact List.nodup_cons.mpr ⟨fresh, coherent.distinct⟩

/-- What `stop` does when no shutdown is in progress. -/
theorem Coherent.stop_cases (coherent : Coherent s tasks) (quiet : s.stopPromise = none) :
    s.status = .stopped ∧ s.shutdown = none ∧
      s.stop = ⟨{ s with stoppedByCaller := true }, [], [.stop none .fulfilled]⟩ ∨
    s.shutdown = some s.next ∧ ∃ status task,
      (status = .stopping ∧ s.status = .started ∧ task = .doStop s.next ∨
        status = .starting ∧ s.status = .starting ∧ ∃ start, s.startPromise = some start ∧
          task = .stopAwaitsStart s.next start) ∧
      s.stop = ⟨{ s with status := status, stopPromise := some s.next, next := s.next + 1 },
        [task, .stopJoins s.next], []⟩ := by
  have apart : ∀ task ∈ tasks, task.stopping = none :=
    List.filterMap_eq_nil_iff.mp (List.perm_nil.mp (by simpa [quiet] using coherent.stopping))
  cases status : s.status with
  | stopped =>
    exact .inl ⟨rfl, by simp [Lifecycle.shutdown, quiet, status], by simp [Lifecycle.stop, quiet, status]⟩
  | stopping =>
    obtain ⟨stop, mem⟩ := coherent.doStop.mpr status
    cases apart _ mem
  | started =>
    refine .inr ⟨by simp [Lifecycle.shutdown, quiet, status], .stopping, _, .inl ⟨rfl, rfl, rfl⟩, ?_⟩
    simp [Lifecycle.stop, quiet, Lifecycle.finishStartupThenStop, Lifecycle.beginStop, status]
  | starting =>
    have up : s.startPromise ≠ none := by
      intro none
      have := coherent.stopped.mpr none
      rw [status] at this
      cases this
    obtain ⟨start, held⟩ := Option.ne_none_iff_exists'.mp up
    refine .inr ⟨by simp [Lifecycle.shutdown, quiet, status], .starting, _, .inr ⟨rfl, rfl, start, held, rfl⟩, ?_⟩
    simp [Lifecycle.stop, quiet, Lifecycle.finishStartupThenStop, status, held]

theorem Coherent.stop (coherent : Coherent s tasks) : Coherent s.stop.state (s.stop.tasks ++ tasks) := by
  cases quiet : s.stopPromise with
  | some stop =>
    have joined : s.stop = ⟨s, [.stopJoins stop], []⟩ := by simp [Lifecycle.stop, quiet]
    rw [joined]
    exact (coherent_cons (.stopJoins _) rfl).mpr coherent
  | none =>
    rcases coherent.stop_cases quiet with ⟨_, _, same⟩ | ⟨_, status, task, begun, same⟩
    · rw [same]
      exact coherent.caller true
    · rw [same]
      exact coherent.shut quiet begun

/-- A task that goes on as one that settles the same promise. -/
theorem Coherent.goes_on (coherent : Coherent s (task :: tasks)) {task' : Waiting}
    (same : task'.settles = task.settles) :
    ∀ other ∈ task' :: tasks, ∀ promise, other.settles = some promise → promise < s.next ∧
      s.outcome promise = none := by
  intro other mem promise settles
  rcases List.mem_cons.mp mem with rfl | mem
  · exact coherent.unsettled task List.mem_cons_self promise (same.symm.trans settles)
  · exact coherent.unsettled other (List.mem_cons_of_mem _ mem) promise settles

theorem Coherent.started {start : ℕ} (coherent : Coherent s (.doStart start :: tasks)) :
    Coherent ({ s with status := .started }.settle start .fulfilled) tasks := by
  obtain ⟨status, held, alone⟩ := coherent.starting_eq rfl
  obtain ⟨unsettled, distinct, made⟩ := coherent.settle_others .fulfilled rfl
  refine ⟨?_, ?_, ?_, ?_, ?_, ?_, unsettled, distinct, made⟩
  · simp [alone, Lifecycle.settle]
  · exact coherent.stopping
  · simpa [status, Lifecycle.settle] using coherent.doStop
  · simp [Lifecycle.settle, held]
  · intro _ start' held'
    have same : start' = start := Option.some.inj (held'.symm.trans held)
    rw [same, Lifecycle.outcome_settle, if_pos rfl]
  · intro stop start' mem
    refine ⟨fun _ => rfl, ?_⟩
    rw [Lifecycle.outcome_settle]
    split
    · intro none
      cases none
    · rename_i apart
      intro none
      rcases (coherent.waits stop start' (List.mem_cons_of_mem _ mem)).2 none with ⟨held', _⟩ | closing
      · exact absurd (Option.some.inj (held'.symm.trans held)) apart
      · exact .inr (by simpa using closing)

theorem Coherent.failed {start : ℕ} {task' : Waiting} (is : task = .doStart start ∧ task' = .startFailed start)
    (coherent : Coherent s (task :: tasks)) : Coherent s (task' :: tasks) := by
  obtain ⟨rfl, rfl⟩ := is
  refine ⟨coherent.starting, coherent.stopping, ?_, coherent.stopped, coherent.up, ?_, ?_,
    coherent.distinct, coherent.made⟩
  · simpa using coherent.doStop
  · simpa using coherent.waits
  · exact coherent.goes_on rfl

theorem Coherent.caught {start : ℕ} (coherent : Coherent s (.startFailed start :: tasks)) :
    Coherent { s with startPromise := none, status := .stopped } (.closing start :: tasks) := by
  obtain ⟨status, held, alone⟩ := coherent.starting_eq rfl
  refine ⟨?_, ?_, ?_, ?_, ?_, ?_, ?_, coherent.distinct, coherent.made⟩
  · simp [List.filterMap_cons, alone, Waiting.starting]
  · exact coherent.stopping
  · simpa [status] using coherent.doStop
  · simp
  · simp
  · intro stop start' mem
    have old : .stopAwaitsStart stop start' ∈ tasks := by simpa using mem
    obtain ⟨fulfilled, open_⟩ := coherent.waits stop start' (List.mem_cons_of_mem _ old)
    refine ⟨fun settled => ?_, fun none => .inr ?_⟩
    · have := fulfilled settled
      rw [status] at this
      cases this
    · rcases open_ none with ⟨held', _⟩ | closing
      · rw [Option.some.inj (held'.symm.trans held)]
        exact List.mem_cons_self
      · exact List.mem_cons_of_mem _ (by simpa using closing)
  · exact coherent.goes_on rfl

theorem Coherent.closed {start : ℕ} (coherent : Coherent s (.closing start :: tasks)) :
    Coherent (s.settle start .rejected) tasks := by
  obtain ⟨unsettled, distinct, made⟩ := coherent.settle_others .rejected rfl
  refine ⟨coherent.starting, coherent.stopping, ?_, coherent.stopped, ?_, ?_, unsettled, distinct, made⟩
  · simpa [Lifecycle.settle] using coherent.doStop
  · intro on start' held
    have before := coherent.up on start' held
    rw [Lifecycle.outcome_settle, if_neg, before]
    rintro rfl
    have := (coherent.unsettled _ List.mem_cons_self start' rfl).2
    rw [before] at this
    cases this
  · intro stop start' mem
    obtain ⟨fulfilled, open_⟩ := coherent.waits stop start' (List.mem_cons_of_mem _ mem)
    rw [Lifecycle.outcome_settle]
    split
    · constructor <;> intro settled <;> cases settled
    · rename_i apart
      refine ⟨fulfilled, fun none => (open_ none).imp id ?_⟩
      intro closing
      simpa [apart] using closing

theorem Coherent.beginStop {stop start : ℕ} (coherent : Coherent s (.stopAwaitsStart stop start :: tasks))
    (fulfilled : s.outcome start = some .fulfilled) :
    s.beginStop stop = ⟨{ s with status := .stopping }, [.doStop stop], []⟩ ∧
      Coherent { s with status := .stopping } (.doStop stop :: tasks) := by
  have started := (coherent.waits stop start List.mem_cons_self).1 fulfilled
  obtain ⟨noStop, noWait⟩ := coherent.lone rfl
  refine ⟨by simp [Lifecycle.beginStop, started], ?_, coherent.stopping, ?_, ?_, ?_, ?_, ?_,
    coherent.distinct, coherent.made⟩
  · simpa [started, List.filterMap_cons, Waiting.starting] using coherent.starting
  · simp
  · simpa [started] using coherent.stopped
  · exact fun _ => coherent.up (.inl started)
  · intro stop' start' mem
    simp [noWait] at mem
  · exact coherent.goes_on rfl

theorem Coherent.gaveUp {stop start : ℕ} (coherent : Coherent s (.stopAwaitsStart stop start :: tasks)) :
    Coherent s (.stopDone stop .fulfilled :: tasks) := by
  obtain ⟨noStop, noWait⟩ := coherent.lone rfl
  refine ⟨coherent.starting, coherent.stopping, ?_, coherent.stopped, coherent.up, ?_, ?_,
    coherent.distinct, coherent.made⟩
  · simpa using coherent.doStop
  · intro stop' start' mem
    simp [noWait] at mem
  · exact coherent.goes_on rfl

theorem Coherent.torn {stop : ℕ} {outcome : PromiseResult} (coherent : Coherent s (.doStop stop :: tasks)) :
    Coherent { s with startPromise := none, status := .stopped } (.stopDone stop outcome :: tasks) := by
  have status := coherent.doStop.mp ⟨stop, List.mem_cons_self⟩
  obtain ⟨noStop, noWait⟩ := coherent.lone rfl
  refine ⟨?_, coherent.stopping, ?_, ?_, ?_, ?_, ?_, coherent.distinct, coherent.made⟩
  · simpa [status, List.filterMap_cons, Waiting.starting] using coherent.starting
  · simpa using noStop
  · simp
  · simp
  · intro stop' start' mem
    simp [noWait] at mem
  · exact coherent.goes_on rfl

theorem Coherent.over {stop : ℕ} {outcome : PromiseResult}
    (coherent : Coherent s (.stopDone stop outcome :: tasks)) :
    Coherent ({ s with stoppedByCaller := true, stopPromise := none }.settle stop outcome) tasks := by
  obtain ⟨noStop, noWait⟩ := coherent.lone rfl
  obtain ⟨_, alone⟩ := coherent.stopping_eq rfl
  obtain ⟨unsettled, distinct, made⟩ := coherent.settle_others outcome rfl
  refine ⟨coherent.starting, ?_, ?_, coherent.stopped, ?_, ?_, unsettled, distinct, made⟩
  · exact List.Perm.of_eq alone
  · simpa [Lifecycle.settle] using coherent.doStop
  · intro on start held
    have before := coherent.up on start held
    rw [Lifecycle.outcome_settle, if_neg]
    · exact before
    · rintro rfl
      have := (coherent.unsettled _ List.mem_cons_self start rfl).2
      rw [before] at this
      cases this
  · intro stop' start mem
    exact absurd mem (noWait stop' start)

/-- What a handler does on any call, and when any wait is over. -/
theorem Coherent.call (coherent : Coherent s tasks) (call : LifecycleCall) :
    Coherent (s.call call).state ((s.call call).tasks ++ tasks) := by
  rcases s.call_cases call with ⟨_, same⟩ | same | ⟨same, _⟩
  · rw [same]
    exact coherent.stop
  · rw [same]
    exact coherent
  · rw [same]
    exact coherent.start

theorem Coherent.resume {outcome : PromiseResult} {after : Pool Lifecycle Waiting Returned}
    (coherent : Coherent s (task :: tasks)) (resumed : Lifecycle.resume task outcome s = some after) :
    Coherent after.state (after.tasks ++ tasks) := by
  cases task with
  | startAwaitsStop stop =>
    have rest := (coherent_cons _ rfl).mp coherent
    simp only [Lifecycle.resume] at resumed
    split at resumed
    · cases resumed
      exact rest.startNow
    · cases resumed
      exact rest
    · cases resumed
  | startJoins start =>
    obtain ⟨_, _, rfl⟩ := Option.map_eq_some_iff.mp resumed
    exact (coherent_cons _ rfl).mp coherent
  | doStart start =>
    cases outcome with
    | fulfilled =>
      cases resumed
      exact coherent.started
    | rejected =>
      cases resumed
      exact coherent.failed ⟨rfl, rfl⟩
  | startFailed start =>
    cases resumed
    exact coherent.caught
  | closing start =>
    cases resumed
    exact coherent.closed
  | stopAwaitsStart stop start =>
    simp only [Lifecycle.resume] at resumed
    split at resumed
    · rename_i fulfilled
      obtain ⟨begun, after⟩ := coherent.beginStop fulfilled
      cases resumed
      rwa [begun]
    · cases resumed
      exact coherent.gaveUp
    · cases resumed
  | doStop stop =>
    cases resumed
    exact coherent.torn
  | stopDone stop outcome =>
    cases resumed
    exact coherent.over
  | stopJoins stop =>
    obtain ⟨_, _, rfl⟩ := Option.map_eq_some_iff.mp resumed
    exact (coherent_cons _ rfl).mp coherent

end Coherence

section Runs

variable {p p' : Pool Lifecycle Waiting Returned} {events late : List (Event LifecycleCall PromiseResult)}

/-- A handler as it is made, with nothing in progress. -/
def Lifecycle.fresh : Pool Lifecycle Waiting Returned := ⟨.constructed, [], []⟩

/-- What a stretch of code leaves settled and returned: promises stay settled,
and a `stop` is over only after the shutdown it waited for. -/
structure Returns (s : Lifecycle) (after : Pool Lifecycle Waiting Returned) : Prop where
  settled : ∀ promise, s.outcome promise ≠ none → after.state.outcome promise ≠ none
  stops : ∀ stop outcome, .stop (some stop) outcome ∈ after.returned → after.state.outcome stop ≠ none

section Calls

variable {s : Lifecycle}

theorem returns_startNow : Returns s s.startNow := by
  unfold Lifecycle.startNow
  simp only
  split
  · exact ⟨fun _ => id, by simp⟩
  · split <;> exact ⟨fun _ => id, by simp⟩

theorem returns_start : Returns s s.start := by
  unfold Lifecycle.start
  split
  · exact ⟨fun _ => id, by simp⟩
  · exact returns_startNow

theorem returns_beginStop {stop : ℕ} : Returns s (s.beginStop stop) := by
  unfold Lifecycle.beginStop
  split <;> exact ⟨fun _ => id, by simp⟩

theorem returns_stop : Returns s s.stop := by
  unfold Lifecycle.stop Lifecycle.finishStartupThenStop
  split
  · exact ⟨fun _ => id, by simp⟩
  · split
    · exact ⟨fun _ => id, by simp⟩
    · simp only
      split
      · exact ⟨fun _ => id, by simp⟩
      · have begun : Returns { s with next := s.next + 1 }
          ({ s with next := s.next + 1 }.beginStop s.next) := returns_beginStop
        exact ⟨begun.settled, begun.stops⟩

theorem returns_call {call : LifecycleCall} : Returns s (s.call call) := by
  rcases s.call_cases call with ⟨_, same⟩ | same | ⟨same, _⟩
  · rw [same]
    exact returns_stop
  · rw [same]
    exact ⟨fun _ => id, by simp⟩
  · rw [same]
    exact returns_start

theorem settle_keeps {promise other : ℕ} {outcome : PromiseResult} (settled : s.outcome other ≠ none) :
    (s.settle promise outcome).outcome other ≠ none := by
  rw [Lifecycle.outcome_settle]
  split
  · exact Option.some_ne_none _
  · exact settled

theorem returns_resume {task : Waiting} {outcome : PromiseResult} {after : Pool Lifecycle Waiting Returned}
    (resumed : Lifecycle.resume task outcome s = some after) : Returns s after := by
  cases task with
  | startAwaitsStop stop =>
    simp only [Lifecycle.resume] at resumed
    split at resumed
    · cases resumed
      exact returns_startNow
    · cases resumed
      exact ⟨fun _ => id, by simp⟩
    · cases resumed
  | startJoins start =>
    obtain ⟨_, _, rfl⟩ := Option.map_eq_some_iff.mp resumed
    exact ⟨fun _ => id, by simp⟩
  | doStart start =>
    cases outcome with
    | fulfilled =>
      cases resumed
      exact ⟨fun _ => settle_keeps, by simp⟩
    | rejected =>
      cases resumed
      exact ⟨fun _ => id, by simp⟩
  | startFailed start =>
    cases resumed
    exact ⟨fun _ => id, by simp⟩
  | closing start =>
    cases resumed
    exact ⟨fun _ => settle_keeps, by simp⟩
  | stopAwaitsStart stop start =>
    simp only [Lifecycle.resume] at resumed
    split at resumed
    · cases resumed
      exact returns_beginStop
    · cases resumed
      exact ⟨fun _ => id, by simp⟩
    · cases resumed
  | doStop stop =>
    cases resumed
    exact ⟨fun _ => id, by simp⟩
  | stopDone stop outcome =>
    cases resumed
    exact ⟨fun _ => settle_keeps, by simp⟩
  | stopJoins stop =>
    obtain ⟨outcome, settled, rfl⟩ := Option.map_eq_some_iff.mp resumed
    refine ⟨fun _ => id, ?_⟩
    intro stop' outcome' mem
    have same : stop' = stop ∧ outcome' = outcome := by simpa using mem
    rw [same.1]
    exact ne_of_eq_of_ne settled (Option.some_ne_none _)

end Calls

/-- What every run keeps. -/
structure Consistent (p : Pool Lifecycle Waiting Returned) : Prop where
  coherent : Coherent p.state p.tasks
  returned : ∀ stop outcome, .stop (some stop) outcome ∈ p.returned → p.state.outcome stop ≠ none

theorem fresh_consistent : Consistent Lifecycle.fresh := ⟨constructed_coherent, by simp [Lifecycle.fresh]⟩

theorem Consistent.beside {after : Pool Lifecycle Waiting Returned} {others : List Waiting} {s : Lifecycle}
    {before : List Returned} (returned : ∀ stop outcome, .stop (some stop) outcome ∈ before → s.outcome stop ≠ none)
    (coherent : Coherent after.state (after.tasks ++ others)) (returns : Returns s after) :
    Consistent (after.beside others before) := by
  refine ⟨coherent.perm List.perm_append_comm, ?_⟩
  intro stop outcome mem
  rcases List.mem_append.mp mem with mem | mem
  · exact returns.settled stop (returned stop outcome mem)
  · exact returns.stops stop outcome mem

theorem Consistent.call (kept : Consistent p) (call : LifecycleCall) :
    Consistent ((lifecycle.call call p.state).beside p.tasks p.returned) :=
  .beside kept.returned (kept.coherent.call call) returns_call

theorem Consistent.resume {task : Waiting} {others : List Waiting} {outcome : PromiseResult}
    {after : Pool Lifecycle Waiting Returned} (kept : Consistent p) (perm : p.tasks.Perm (task :: others))
    (resumed : lifecycle.resume task outcome p.state = some after) : Consistent (after.beside others p.returned) :=
  .beside kept.returned ((kept.coherent.perm perm).resume resumed) (returns_resume resumed)

theorem run_consistent (ran : lifecycle.run Lifecycle.fresh events = some p) : Consistent p :=
  Machine.run_invariant (fun _ c kept _ => kept.call c)
    (fun _ _ _ _ _ kept perm resumed => kept.resume perm resumed) ran
    (fun _ _ => trivial) fresh_consistent

/-- A shutdown that nothing undoes is in progress, or is over. -/
inductive Ending (shutdown : Option ℕ) (s : Lifecycle) (tasks : List Waiting) : Prop
  | inProgress (stop : ℕ) (is : shutdown = some stop) (held : s.stopPromise = some stop)
    (done : ∀ stop outcome, .stopDone stop outcome ∈ tasks → s.status = .stopped)
    (waits : ∀ stop start, .stopAwaitsStart stop start ∈ tasks → s.status = .stopped ∨ s.startPromise = some start)
  | ended (held : s.stopPromise = none) (byCaller : s.stoppedByCaller = true) (status : s.status = .stopped)

/-- A handler on its way down: no `start` waits for a shutdown to be over. -/
structure Down (shutdown : Option ℕ) (p : Pool Lifecycle Waiting Returned) : Prop where
  kept : Consistent p
  noStart : ∀ stop, .startAwaitsStop stop ∉ p.tasks
  ending : Ending shutdown p.state p.tasks

theorem Ending.perm {shutdown : Option ℕ} {s : Lifecycle} {tasks tasks' : List Waiting}
    (ending : Ending shutdown s tasks) (perm : tasks.Perm tasks') : Ending shutdown s tasks' := by
  cases ending with
  | inProgress stop is held done waits =>
    simp only [perm.mem_iff] at done waits
    exact .inProgress stop is held done waits
  | ended held byCaller status => exact .ended held byCaller status

/-- A promise whose start has not settled as rejected is not the one a shutdown gave up on. -/
theorem Coherent.gone {s : Lifecycle} {tasks : List Waiting} {start : ℕ} (coherent : Coherent s tasks)
    (rejected : s.outcome start = some .rejected) : s.startPromise ≠ some start := by
  intro held
  cases status : s.status with
  | stopped =>
    rw [coherent.stopped.mp status] at held
    cases held
  | starting =>
    obtain ⟨task, mem, settles⟩ := coherent.under_way status held
    rw [(coherent.unsettled task mem start settles).2] at rejected
    cases rejected
  | started =>
    rw [coherent.up (.inl status) start held] at rejected
    cases rejected
  | stopping =>
    rw [coherent.up (.inr status) start held] at rejected
    cases rejected

/-- Once nothing is in progress, a wait that is over changes neither status nor refusals. -/
theorem Ending.resume_ended {s : Lifecycle} {task : Waiting} {tasks : List Waiting} {outcome : PromiseResult}
    {after : Pool Lifecycle Waiting Returned} (coherent : Coherent s (task :: tasks)) (held : s.stopPromise = none)
    (byCaller : s.stoppedByCaller = true) (status : s.status = .stopped)
    (noStart : ∀ stop, task ≠ .startAwaitsStop stop)
    (resumed : Lifecycle.resume task outcome s = some after) :
    after.state.stopPromise = none ∧ after.state.stoppedByCaller = true ∧
      after.state.status = .stopped ∧ after.tasks = [] := by
  have noShutdown : ∀ stop, task.stopping ≠ some stop := by
    intro stop is
    have := (coherent.stopping_eq is).1
    rw [held] at this
    cases this
  have noStarting : ∀ start, task.starting ≠ some start := by
    intro start is
    have := (coherent.starting_eq is).1
    rw [status] at this
    cases this
  cases task with
  | startAwaitsStop stop => exact absurd rfl (noStart stop)
  | startJoins start =>
    obtain ⟨_, _, rfl⟩ := Option.map_eq_some_iff.mp resumed
    exact ⟨held, byCaller, status, rfl⟩
  | doStart start => exact absurd rfl (noStarting start)
  | startFailed start => exact absurd rfl (noStarting start)
  | closing start =>
    cases resumed
    exact ⟨held, byCaller, status, rfl⟩
  | stopAwaitsStart stop start => exact absurd rfl (noShutdown stop)
  | doStop stop => exact absurd rfl (noShutdown stop)
  | stopDone stop outcome => exact absurd rfl (noShutdown stop)
  | stopJoins stop =>
    obtain ⟨_, _, rfl⟩ := Option.map_eq_some_iff.mp resumed
    exact ⟨held, byCaller, status, rfl⟩

theorem Ending.resume {shutdown : Option ℕ} {s : Lifecycle} {task : Waiting} {tasks : List Waiting}
    {outcome : PromiseResult} {after : Pool Lifecycle Waiting Returned} (coherent : Coherent s (task :: tasks))
    (ending : Ending shutdown s (task :: tasks)) (noStart : ∀ stop, task ≠ .startAwaitsStop stop)
    (resumed : Lifecycle.resume task outcome s = some after) :
    Ending shutdown after.state (after.tasks ++ tasks) ∧ ∀ stop, .startAwaitsStop stop ∉ after.tasks := by
  cases ending with
  | ended held byCaller status =>
    obtain ⟨held', byCaller', status', none⟩ := Ending.resume_ended coherent held byCaller status noStart resumed
    exact ⟨.ended held' byCaller' status', by simp [none]⟩
  | inProgress shut is held done waits =>
    have done' : ∀ stop outcome, .stopDone stop outcome ∈ tasks → s.status = .stopped :=
      fun stop outcome mem => done stop outcome (List.mem_cons_of_mem _ mem)
    have waits' : ∀ stop start, .stopAwaitsStart stop start ∈ tasks → s.status = .stopped ∨
        s.startPromise = some start :=
      fun stop start mem => waits stop start (List.mem_cons_of_mem _ mem)
    have alone : ∀ {stop}, task.stopping = some stop → ∀ other ∈ tasks, other.stopping = none :=
      fun part => List.filterMap_eq_nil_iff.mp (coherent.stopping_eq part).2
    cases task with
    | startAwaitsStop stop => exact absurd rfl (noStart stop)
    | startJoins start =>
      obtain ⟨_, _, rfl⟩ := Option.map_eq_some_iff.mp resumed
      exact ⟨.inProgress shut is held done' waits', by simp⟩
    | doStart start =>
      obtain ⟨starting, _, _⟩ := coherent.starting_eq rfl
      cases outcome with
      | fulfilled =>
        cases resumed
        refine ⟨.inProgress shut is held ?_ ?_, by simp⟩
        · intro stop outcome mem
          have := done' stop outcome mem
          rw [starting] at this
          cases this
        · intro stop start' mem
          refine .inr ((waits' stop start' mem).resolve_left ?_)
          rw [starting]
          decide
      | rejected =>
        cases resumed
        exact ⟨.inProgress shut is held (by simpa using done') (by simpa using waits'), by simp⟩
    | startFailed start =>
      cases resumed
      exact ⟨.inProgress shut is held (fun _ _ _ => rfl) (fun _ _ _ => .inl rfl), by simp⟩
    | closing start =>
      cases resumed
      exact ⟨.inProgress shut is held done' waits', by simp⟩
    | stopAwaitsStart stop start =>
      simp only [Lifecycle.resume] at resumed
      split at resumed
      · rename_i fulfilled
        cases resumed
        rw [(coherent.beginStop fulfilled).1]
        refine ⟨.inProgress shut is held ?_ ?_, by simp⟩
        · intro stop' outcome mem
          cases alone rfl _ (by simpa using mem)
        · intro stop' start' mem
          cases alone rfl _ (by simpa using mem)
      · rename_i rejected
        cases resumed
        have status := (waits stop start List.mem_cons_self).resolve_right (coherent.gone rejected)
        exact ⟨.inProgress shut is held (fun _ _ _ => status) (fun _ _ _ => .inl status), by simp⟩
      · cases resumed
    | doStop stop =>
      cases resumed
      exact ⟨.inProgress shut is held (fun _ _ _ => rfl) (fun _ _ _ => .inl rfl), by simp⟩
    | stopDone stop outcome =>
      cases resumed
      exact ⟨.ended rfl rfl (done stop outcome List.mem_cons_self), by simp⟩
    | stopJoins stop =>
      obtain ⟨_, _, rfl⟩ := Option.map_eq_some_iff.mp resumed
      exact ⟨.inProgress shut is held done' waits', by simp⟩

theorem Ending.call {shutdown : Option ℕ} {s : Lifecycle} {tasks : List Waiting} (ending : Ending shutdown s tasks)
    {call : LifecycleCall} (other : call ≠ .start) :
    Ending shutdown (s.call call).state ((s.call call).tasks ++ tasks) ∧
      ∀ stop, .startAwaitsStop stop ∉ (s.call call).tasks := by
  have stays : s.stop.state = s ∧ (∃ stop, s.stop.tasks = [.stopJoins stop]) ∨
      s.stop.tasks = [] ∧ s.stop.state = { s with stoppedByCaller := true } := by
    cases ending with
    | inProgress shut is held done waits => exact .inl (by simp [Lifecycle.stop, held])
    | ended held byCaller status => exact .inr (by simp [Lifecycle.stop, held, status])
  have noStart : ¬ (s.stopPromise = none ∧ s.stoppedByCaller = false) := by
    cases ending with
    | inProgress shut is held done waits => simp [held]
    | ended held byCaller status => simp [byCaller]
  rcases s.call_cases call with ⟨_, same⟩ | same | ⟨_, started | undisturbed⟩
  · rw [same]
    rcases stays with ⟨state, stop, joins⟩ | ⟨none, state⟩
    · rw [state, joins]
      refine ⟨?_, by simp⟩
      cases ending with
      | inProgress shut is held done waits =>
        exact .inProgress shut is held (by simpa using done) (by simpa using waits)
      | ended held byCaller status => exact .ended held byCaller status
    · rw [none, state]
      refine ⟨?_, by simp⟩
      cases ending with
      | inProgress shut is held done waits => exact .inProgress shut is held done waits
      | ended held byCaller status => exact .ended held rfl status
  · rw [same]
    exact ⟨ending, by simp⟩
  · exact absurd started other
  · exact absurd undisturbed noStart

theorem Down.call {shutdown : Option ℕ} (down : Down shutdown p) {call : LifecycleCall} (other : call ≠ .start) :
    Down shutdown ((lifecycle.call call p.state).beside p.tasks p.returned) := by
  obtain ⟨ending, noStart⟩ := down.ending.call other
  refine ⟨down.kept.call call, ?_, ending.perm List.perm_append_comm⟩
  intro stop mem
  exact (List.mem_append.mp mem).elim (down.noStart stop) (noStart stop)

theorem Down.resume {shutdown : Option ℕ} {task : Waiting} {others : List Waiting} {outcome : PromiseResult}
    {after : Pool Lifecycle Waiting Returned} (down : Down shutdown p) (perm : p.tasks.Perm (task :: others))
    (resumed : lifecycle.resume task outcome p.state = some after) :
    Down shutdown (after.beside others p.returned) := by
  have noStart : ∀ stop, .startAwaitsStop stop ∉ task :: others := by simpa only [perm.mem_iff] using down.noStart
  obtain ⟨ending, none⟩ := Ending.resume (down.kept.coherent.perm perm) (down.ending.perm perm)
    (fun stop same => noStart stop (same ▸ List.mem_cons_self)) resumed
  refine ⟨down.kept.resume perm resumed, ?_, ending.perm List.perm_append_comm⟩
  intro stop mem
  exact (List.mem_append.mp mem).elim (fun mem => noStart stop (List.mem_cons_of_mem _ mem)) (none stop)

/-- A shutdown begun while no other is in progress, and no `start` waits for an earlier one. -/
theorem Down.begin (kept : Consistent p) (quiet : p.state.stopPromise = none)
    (noStart : ∀ stop, .startAwaitsStop stop ∉ p.tasks) :
    Down p.state.shutdown ((lifecycle.call .stop p.state).beside p.tasks p.returned) := by
  have apart : ∀ task ∈ p.tasks, task.stopping = none :=
    List.filterMap_eq_nil_iff.mp (List.perm_nil.mp (by simpa [quiet] using kept.coherent.stopping))
  have stopDone : ∀ stop outcome, .stopDone stop outcome ∉ p.tasks := by
    intro stop outcome mem
    cases apart _ mem
  have awaits : ∀ stop start, .stopAwaitsStart stop start ∉ p.tasks := by
    intro stop start mem
    cases apart _ mem
  have called : lifecycle.call .stop p.state = p.state.stop := rfl
  refine ⟨kept.call .stop, ?_, ?_⟩
  · rw [called]
    rcases kept.coherent.stop_cases quiet with ⟨_, _, same⟩ | ⟨_, status, task, begun, same⟩
    · simpa [same, Pool.beside] using noStart
    · rcases begun with ⟨_, _, rfl⟩ | ⟨_, _, start, _, rfl⟩ <;> simpa [same, Pool.beside] using noStart
  · rw [called]
    refine Ending.perm ?_ List.perm_append_comm
    rcases kept.coherent.stop_cases quiet with ⟨down, none, same⟩ | ⟨some, status, task, begun, same⟩
    · rw [none, same]
      exact .ended quiet rfl down
    · rw [some, same]
      refine .inProgress _ rfl rfl ?_ ?_
      · intro stop outcome mem
        rcases begun with ⟨_, _, rfl⟩ | ⟨_, _, start, _, rfl⟩ <;> simp [stopDone] at mem
      · intro stop start mem
        rcases begun with ⟨_, _, rfl⟩ | ⟨_, _, start', held, rfl⟩
        · simp [awaits] at mem
        · have same : stop = p.state.next ∧ start = start' := by simpa [awaits] using mem
          exact .inr (same.2 ▸ held)

theorem Down.run {shutdown : Option ℕ} (down : Down shutdown p) (ran : lifecycle.run p late = some p')
    (calm : .call .start ∉ late) : Down shutdown p' := by
  have may : ∀ e ∈ late, e ≠ .call .start := by
    rintro e mem rfl
    exact calm mem
  exact Machine.run_invariant (fun _ c down other => down.call fun same => other (same ▸ rfl))
    (fun _ _ _ _ _ down perm resumed => down.resume perm resumed) ran may down

/-- The refusal of a handler that was stopped. -/
def Lifecycle.Refuses (s : Lifecycle) : Prop :=
  s.handleRequest = .error ⟨"handler_stopped",
    "Request handler was stopped and cannot accept new requests until start() is called again."⟩ ∧
  s.mutateTemplateClients = .error ⟨"handler_stopped",
    "Request handler was stopped and cannot mutate template clients until start() is called again."⟩

/-- A shutdown a `stop` has waited for is over. -/
theorem Down.settled {shutdown : Option ℕ} (down : Down shutdown p) {outcome : PromiseResult}
    (stopped : .stop shutdown outcome ∈ p.returned) : p.state.status = .stopped ∧ p.state.Refuses := by
  cases down.ending with
  | inProgress stop is held done waits =>
    have settled : p.state.outcome stop ≠ none := down.kept.returned stop outcome (is ▸ stopped)
    have mine : stop ∈ p.tasks.filterMap Waiting.stopping := by
      rw [down.kept.coherent.stopping.mem_iff, held]
      exact List.mem_singleton_self _
    obtain ⟨task, mem, part⟩ := List.mem_filterMap.mp mine
    have settles : task.settles = some stop := by cases task <;> first | exact part | cases part
    exact absurd (down.kept.coherent.unsettled task mem stop settles).2 settled
  | ended held byCaller status =>
    refine ⟨status, ?_, ?_⟩
    · simp [Lifecycle.handleRequest, Lifecycle.assertAccepts, Lifecycle.assertNotStopped,
        status, held, byCaller, bind, Except.bind]
      rfl
    · simp [Lifecycle.mutateTemplateClients, Lifecycle.assertTemplateMutationAllowed, Lifecycle.assertAccepts,
        Lifecycle.assertNotStopped, status, held, byCaller, bind, Except.bind]
      rfl

/-- One body at most is in progress, and a transient status belongs to one. -/
theorem Coherent.one_body {s : Lifecycle} {tasks : List Waiting} (coherent : Coherent s tasks) :
    tasks.countP Waiting.body ≤ 1 := by
  by_cases status : s.status = .stopping
  · have starting : tasks.filterMap Waiting.starting = [] :=
      List.perm_nil.mp (by simpa [status] using coherent.starting)
    have part : ∀ task ∈ tasks, task.body = true → task.stopping.isSome = true := by
      intro task mem body
      have none := List.filterMap_eq_nil_iff.mp starting task mem
      cases task with
      | doStart start => cases none
      | doStop stop => rfl
      | _ => cases body
    calc tasks.countP Waiting.body ≤ tasks.countP fun task => task.stopping.isSome := List.countP_mono_left part
      _ = (tasks.filterMap Waiting.stopping).length := List.length_filterMap_eq_countP.symm
      _ = s.stopPromise.toList.length := coherent.stopping.length_eq
      _ ≤ 1 := Option.length_toList_le
  · have part : ∀ task ∈ tasks, task.body = true → task.starting.isSome = true := by
      intro task mem body
      cases task with
      | doStart start => rfl
      | doStop stop => exact absurd (coherent.doStop.mp ⟨stop, mem⟩) status
      | _ => cases body
    calc tasks.countP Waiting.body ≤ tasks.countP fun task => task.starting.isSome := List.countP_mono_left part
      _ = (tasks.filterMap Waiting.starting).length := List.length_filterMap_eq_countP.symm
      _ = (if s.status = .starting then s.startPromise.toList else []).length := coherent.starting.length_eq
      _ ≤ 1 := by
        split
        · exact Option.length_toList_le
        · exact Nat.zero_le 1

theorem Coherent.settled_status {s : Lifecycle} {tasks : List Waiting} (coherent : Coherent s tasks)
    (idle : ∀ task ∈ tasks, task.busy = false) : s.status = .stopped ∨ s.status = .started := by
  cases status : s.status with
  | stopped => exact .inl rfl
  | started => exact .inr rfl
  | starting =>
    have up : s.startPromise ≠ none := by
      intro none
      have := coherent.stopped.mpr none
      rw [status] at this
      cases this
    obtain ⟨start, held⟩ := Option.ne_none_iff_exists'.mp up
    obtain ⟨task, mem, settles⟩ := coherent.under_way status held
    have calm := idle task mem
    rw [Waiting.busy, settles] at calm
    cases calm
  | stopping =>
    obtain ⟨stop, mem⟩ := coherent.doStop.mpr status
    cases idle _ mem

/-- In every run of one handler at most one `doStart` or `doStop` is in progress; a status of `starting` or `stopping`
is one of a start or a stop in progress; and once a `stop` is over, with no `start` called since the shutdown it waited
for began and none waiting for an earlier one then, the handler is stopped and refuses. -/
theorem lifecycle_exclusion (ran : lifecycle.run Lifecycle.fresh events = some p) :
    p.tasks.countP Waiting.body ≤ 1 ∧
    ((∀ task ∈ p.tasks, task.busy = false) → p.state.status = .stopped ∨ p.state.status = .started) ∧
    ∀ late p' outcome, p.state.stopPromise = none → (∀ stop, .startAwaitsStop stop ∉ p.tasks) →
      lifecycle.run p (.call .stop :: late) = some p' → .call .start ∉ late →
      .stop p.state.shutdown outcome ∈ p'.returned → p'.state.status = .stopped ∧ p'.state.Refuses := by
  have kept := run_consistent ran
  refine ⟨kept.coherent.one_body, kept.coherent.settled_status, ?_⟩
  intro late p' outcome quiet noStart went calm returned
  exact ((Down.begin kept quiet noStart).run went calm).settled returned

/-- A handler stopped while it starts, and asked again while it stops. -/
theorem lifecycle_exclusion_stopped : ∃ p',
    lifecycle.run ⟨⟨.starting, false, some 0, none, [], 1⟩, [.doStart 0, .startJoins 0], []⟩ [.call .stop,
      .resume 0 .fulfilled, .resume 1 .fulfilled, .call .handleRequest, .resume 2 .rejected, .resume 2 .fulfilled,
      .resume 1 .fulfilled] = some p' ∧ p'.state.status = .stopped ∧ p'.state.Refuses := by
  have started : lifecycle.run Lifecycle.fresh [.call .handleRequest] =
      some ⟨⟨.starting, false, some 0, none, [], 1⟩, [.doStart 0, .startJoins 0], []⟩ := rfl
  have facts : (lifecycle.run ⟨⟨.starting, false, some 0, none, [], 1⟩, [.doStart 0, .startJoins 0], []⟩ [.call .stop,
      .resume 0 .fulfilled, .resume 1 .fulfilled, .call .handleRequest, .resume 2 .rejected, .resume 2 .fulfilled,
      .resume 1 .fulfilled]).map (fun p => p.returned) = some [.stop (some 1) .rejected] := by decide +kernel
  obtain ⟨p', ran, returned⟩ := Option.map_eq_some_iff.mp facts
  refine ⟨p', ran, (lifecycle_exclusion started).2.2 _ p' .rejected rfl (by simp) ran (by simp) ?_⟩
  rw [returned]
  exact List.mem_singleton_self _

/-- A `start` called while a `stop` is in progress starts the handler again after it. -/
theorem start_outlives_stop : ¬ ∀ early p late p' shutdown,
    lifecycle.run Lifecycle.fresh early = some p → p.returned.getLast? = some (.stop shutdown .fulfilled) →
    lifecycle.run p late = some p' → .call .start ∉ late → p'.state.status = .stopped ∧ p'.state.Refuses := by
  intro claimed
  -- start, and its doStart; stop, and start during its doStop; the stop is over
  have facts : (lifecycle.run Lifecycle.fresh
      [.call .start, .resume 0 .fulfilled, .resume 0 .fulfilled, .call .stop, .call .start, .resume 0 .fulfilled,
        .resume 2 .fulfilled, .resume 1 .fulfilled, .resume 0 .fulfilled]).map
        (fun p => (p.returned.getLast?, p.state.status)) = some (some (.stop (some 1) .fulfilled), .starting) := by
    decide +kernel
  obtain ⟨p, ran, same⟩ := Option.map_eq_some_iff.mp facts
  obtain ⟨returned, status⟩ := Prod.mk.inj same
  have := (claimed _ p [] p _ ran returned rfl List.not_mem_nil).1
  rw [status] at this
  cases this

end Runs

end Dianemo
