import Dianemo.Turns

namespace Dianemo

open JsNumber Resumption

/-- The entries that wait when a pass begins, and would until `last`. -/
def lineAt (q : QueueKeys) (client : Client) (limits : Limits) (store : State) (clock last : ℚ) : List String :=
  (waiting q client limits store clock).filter fun id => mayHandOut q store [] [] last id

/-- The pass claims an entry while one is waiting ahead of it. -/
def OutOfTurn (q : QueueKeys) (client : Client) (limits : Limits) (now : ℚ) (e : Event Unit)
    (sys : System Unit) : Prop :=
  ∃ fate outlook skipGrantIds skipRequestIds next, e = .pass () fate outlook ∧
    sys.program (fun _ => client) () = .call (.getNextRequest skipGrantIds skipRequestIds) next ∧
    Overtakes q client limits sys.store now skipGrantIds skipRequestIds

/-- No fast path admits anything. -/
structure FastPathsShut (queueKey : String) (s : State) (now : ℚ) : Prop where
  immediately : ∀ bucketKey freezeKey cost config ttl mark,
    ((tryAdmitImmediately queueKey bucketKey freezeKey cost config ttl mark now).run s).1 ≠ .ok true
  noLimit : ∀ freezeKey, tryAdmitNoLimit s queueKey freezeKey now = false
  concurrency : ∀ concurrencyKey freezeKey cost requestId config ttl,
    ((tryAdmitConcurrency queueKey concurrencyKey freezeKey cost requestId config ttl now).run s).1 ≠ .ok true
  multiLimit : ∀ freezeKeys specs ttl, ((tryAdmitMultiLimit queueKey freezeKeys specs ttl now).run s).1 ≠ .ok true

section FastPaths

variable {s : State} {queueKey : String} {now : ℚ}

/-- What throws first or else answers no admits nothing. -/
theorem not_admitted {α : Type} {x : Except RangeError α} {f : α → Op Bool}
    (refused : ∀ a, ((f a).run s).1 ≠ .ok true) : ((Op.lift x >>= f).run s).1 ≠ .ok true := by
  cases x with
  | ok a =>
    rw [Op.run_bind_ok (Op.run_lift _ s)]
    exact refused a
  | error e =>
    rw [Op.run_bind_error (Op.run_lift _ s)]
    nofun

/-- A queue with a member in it shuts every fast path. -/
theorem fastPathsShut (queued : s.sorted queueKey now ≠ []) : FastPathsShut queueKey s now where
  immediately bucketKey freezeKey cost config ttl mark := by
    refine not_admitted fun keyTtl => not_admitted fun claim => ?_
    rw [Op.run_bind_ok (Op.run_read s), if_pos (.inr (.inl queued))]
    nofun
  noLimit freezeKey := by simp [tryAdmitNoLimit, queued]
  concurrency concurrencyKey freezeKey cost requestId config ttl := by
    refine not_admitted fun keyTtl => ?_
    rw [Op.run_bind_ok (Op.run_read s), if_pos (.inl queued)]
    nofun
  multiLimit freezeKeys specs ttl := by
    refine not_admitted fun keyTtl => not_admitted fun claims => ?_
    rw [Op.run_bind_ok (Op.run_read s), if_pos (.inl queued)]
    nofun

end FastPaths

section Runs

variable {q : QueueKeys} {client : Client} {limits : Limits} {last t now : ℚ} {L : List String}
    {sys : System Unit} {w w' : Scene}

/-- What holds of a lone pass between its calls. -/
structure Lone (q : QueueKeys) (client : Client) (limits : Limits) (last : ℚ) (L : List String)
    (t : ℚ) (sys : System Unit) : Prop where
  clock : sys.clock = t
  abides : (sys.program (fun _ => client) ()).Abides (loneWorld q client limits last L)
    (fun o w => ∀ l, o = some l → Resumes q client limits last L l w) sys.scene
  line : sys.scene.handed.reverse.filter (· ∈ L) <+: L

theorem Aside.handed (aside : Aside q last w w') : w'.handed = w.handed := by
  cases aside <;> rfl

theorem abides_aside {p : Program Call Reply DrainError (Option PassLocals)} (aside : Aside q last w w')
    (abides : p.Abides (loneWorld q client limits last L) (fun o w => ∀ l, o = some l → Resumes q client limits last L l w) w) :
    p.Abides (loneWorld q client limits last L) (fun o w => ∀ l, o = some l →
      Resumes q client limits last L l w) w' := by
  cases p with
  | done o => exact fun l there => resumes_still w w' aside (abides l there)
  | call c next =>
    refine ⟨?_, ?_⟩
    · cases c with
      | getNextRequest skipGrantIds skipRequestIds =>
        intro w₁ now around order before
        exact abides.1 w₁ now (.head aside around) order before
      | requestReady request =>
        have allowed := abides.1
        change (request.requestId :: w.handed).reverse.filter (· ∈ L) <+: L at allowed
        change (request.requestId :: w'.handed).reverse.filter (· ∈ L) <+: L
        rw [aside.handed]
        exact allowed
      | _ => trivial
    · rintro reply w'' ⟨w₁, now, fate, outlook, around, rest⟩
      exact abides.2 reply w'' ⟨w₁, now, fate, outlook, .head aside around, rest⟩

theorem scene_call (sys : System Unit) (fate : Fate) (outlook : Outlook) (now : ℚ) (c : Call)
    (next : Except DrainError (Reply c) → Program Call Reply DrainError (Option PassLocals)) :
    (sys.call q (fun _ => client) () fate outlook now c next).scene =
      (sys.scene.call q client fate outlook now c).2 := by
  have recorded : ∀ s, (sys.record.after q () (sys.views ()) outlook now s c).used = sys.record.used ∧
      ((sys.record.after q () (sys.views ()) outlook now s c).slots.map fun a => a.request.requestId) =
        sys.scene.handedAfter c := by
    intro s
    cases c with
    | getNextRequest skipGrantIds skipRequestIds =>
      simp only [Record.after, Record.claim]
      split <;> exact ⟨rfl, rfl⟩
    | confirmRequest id since =>
      simp only [Record.after]
      split <;> exact ⟨rfl, rfl⟩
    | updateRequest id updates =>
      simp only [Record.after]
      split <;> exact ⟨rfl, rfl⟩
    | failWaitingRequest id =>
      simp only [Record.after]
      split <;> exact ⟨rfl, rfl⟩
    | _ => exact ⟨rfl, rfl⟩
  simp only [System.call, System.scene, Scene.call]
  split
  · exact congrArg₂ (fun known handed => (⟨_, now, known, handed⟩ : Scene)) (recorded _).1 (recorded _).2
  · rfl

/-- A pass's next call. -/
theorem Lone.pass (shared : client.usesGrantIsolation = false)
    (lone : Lone q client limits last L t sys) (order : t ≤ now)
    (before : now ≤ last) {fate : Fate} {outlook : Outlook}
    (fair : ∀ c next, sys.program (fun _ => client) () = .call c next →
      c.Apart q client now sys.store ∧ ∀ cost, c = .costProblem cost → outlook.costProblem = limits cost) :
    Lone q client limits last L now (sys.step q (fun _ => client) now (.pass () fate outlook)) := by
  have abides := lone.abides
  have later : sys.scene.clock ≤ now := lone.clock.trans_le order
  simp only [System.step]
  cases at_ : sys.program (fun _ => client) () with
  | done o =>
    refine ⟨rfl, ?_, lone.line⟩
    change (sys.program (fun _ => client) ()).Abides _ _ _
    exact abides_aside (.elsewhere later before (Keeps.refl _ _ _)) abides
  | call c next =>
    obtain ⟨apart, told⟩ := fair c next at_
    rw [at_] at abides
    refine ⟨rfl, ?_, ?_⟩
    · rw [scene_call]
      have after := abides.2 _ _ ⟨sys.scene, now, fate, outlook, .refl, later, before, apart, told, rfl⟩
      have unrolled := Program.Abides.unroll
        (fun l w resumes => lone_round shared (resumes l rfl)) after
      simpa only [System.program, System.call, Function.update_self, Scene.call, System.scene] using unrolled
    · rw [scene_call]
      simp only [Scene.call]
      split
      · cases c with
        | requestReady request => exact abides.1
        | _ => exact lone.line
      · exact lone.line

/-- What goes on around the pass leaves it as it is. -/
theorem Lone.aside (lone : Lone q client limits last L t sys) {sys' : System Unit} (clock : sys'.clock = now)
    (program : sys'.program (fun _ => client) () = sys.program (fun _ => client) ())
    (aside : Aside q last sys.scene sys'.scene) : Lone q client limits last L now sys' := by
  refine ⟨clock, ?_, ?_⟩
  · rw [program]
    exact abides_aside aside lone.abides
  · rw [aside.handed]
    exact lone.line

theorem Lone.step (shared : client.usesGrantIsolation = false)
    (lone : Lone q client limits last L t sys) (order : t ≤ now)
    {e : Event Unit} (allowed : (loneRuns q client limits last).allowed now e sys) :
    Lone q client limits last L now (sys.step q (fun _ => client) now e) := by
  obtain ⟨before, allowed⟩ := allowed
  have later : sys.scene.clock ≤ now := lone.clock.trans_le order
  cases e with
  | pass i fate outlook => exact lone.pass shared order before allowed
  | add request ttl =>
    refine lone.aside rfl rfl ?_
    have aside : Aside q last sys.scene (sys.scene.add q request ttl now) := .add later before allowed.1 allowed.2
    have same : (sys.step q (fun _ => client) now (.add request ttl)).scene = sys.scene.add q request ttl now := by
      by_cases added : ((addRequest q request ttl now).run sys.store).1 = .ok true
      · simp [System.step, System.add, System.scene, Scene.add, added, Record.release]
      · simp [System.step, System.add, System.scene, Scene.add, added]
    rw [same]
    exact aside
  | elsewhere after => exact lone.aside rfl rfl (.elsewhere later before allowed)
  | recount id retries => exact allowed.elim
  | retry id => exact allowed.elim
  | complete id => exact allowed.elim
  | free id retries => exact allowed.elim
  | remove id ttl => exact allowed.elim
  | cleanup alive current => exact allowed.elim

/-- An entry of the line is there and open. -/
theorem mem_lineAt {store : State} {clock : ℚ} (before : clock ≤ last) {id : String}
    (member : id ∈ lineAt q client limits store clock last) :
    id ∈ store.sorted q.queueKey clock ∧ Stays q last store clock id (Open client limits clock) := by
  obtain ⟨waits, lasts⟩ := List.mem_filter.mp member
  obtain ⟨listed, free⟩ := List.mem_filter.mp waits
  simp only [Bool.and_eq_true] at free
  obtain ⟨may, payable⟩ := free
  refine ⟨listed, ?_⟩
  cases there : store.hash (q.metadataKey id) last with
  | none => simp [mayHandOut, there] at lasts
  | some h' =>
    obtain ⟨e, live, hash⟩ := Option.bind_eq_some_iff.mp there
    have now_ : store.live (q.metadataKey id) clock = some e := by
      have later := State.live_later before store (q.metadataKey id)
      rw [live] at later
      exact (Option.filter_eq_some_iff.mp later.symm).1
    have item : store.hash (q.metadataKey id) clock = some h' := by rw [State.hash, now_, Option.bind_some, hash]
    simp only [mayHandOut, item, Bool.and_eq_true] at may
    rw [QueueKeys.item, item] at payable
    exact ⟨e, h', now_, (State.live_eq_some.mp live).2, hash, may.2.1.1, may.2.2, payable⟩

theorem sorted_nodup (s : State) (key : String) (now : ℚ) : (s.sorted key now).Nodup := by
  unfold State.sorted
  cases s.zset key now with
  | none => exact List.nodup_nil
  | some z =>
    have perm := ((List.perm_insertionSort State.scoreLe (z.entries.map fun e => (e.1, e.2))).map Prod.fst)
    refine perm.nodup_iff.mpr ?_
    have keys : (z.entries.map fun e => (e.1, e.2)).map Prod.fst = z.keys := by
      simp [AList.keys, List.keys, Function.comp_def]
    rw [keys]
    exact z.keys_nodup

/-- A lone pass begins in order. -/
theorem resumes_start {store : State} {clock : ℚ} (tidy : Tidy q clock store) (before : clock ≤ last) :
    Resumes q client limits last (lineAt q client limits store clock last) {}
      (System.lone q client store clock).scene := by
  have line : (store.sorted q.queueKey clock).filter (· ∈ lineAt q client limits store clock last) =
      lineAt q client limits store clock last := by
    have shape : lineAt q client limits store clock last = (store.sorted q.queueKey clock).filter fun id =>
        (mayHandOut q store [] [] last id && (mayHandOut q store [] [] clock id &&
          (q.item store clock id).elim false fun h => client.payable limits (parseStoredCost (h.lookup "cost")))) := by
      rw [lineAt, waiting, List.filter_filter]
    refine (List.filter_congr ?_).trans shape.symm
    intro id listed
    rw [shape]
    simp [listed]
  refine ⟨lineAt q client limits store clock last,
    ⟨tidy, before, ?_, fun _ listed => listed, ?_, .inl line, ?_, ?_, ?_⟩, rfl, ?_⟩
  · rw [← line]
    exact (sorted_nodup store _ _).filter _
  · intro id member
    have listed := (mem_lineAt before member).1
    obtain ⟨z, found, there⟩ := State.mem_sorted.mp listed
    exact ⟨tidy.members z found id there, listed⟩
  · simp [System.lone, System.start, System.scene, Record.start]
  · intro id member gone
    exact absurd member gone
  · intro id member _
    exact (mem_lineAt before member).2
  · intro id skipped
    cases skipped

/-- Without isolation a pass hands over, of the entries that wait, the first
ones in order; it claims none while one is waiting ahead of it; and while any is
queued no fast path admits anything. -/
theorem no_overtaking (shared : client.usesGrantIsolation = false) {store : State} {clock : ℚ}
    (tidy : Tidy q clock store) (before : clock ≤ last) {history : List (ℚ × Event Unit)}
    (valid : (loneRuns q client limits last).Valid clock (System.lone q client store clock) history) :
    ((loneRuns q client limits last).final (System.lone q client store clock) history).handedOver.filter
        (· ∈ lineAt q client limits store clock last) <+: lineAt q client limits store clock last ∧
      ¬ (loneRuns q client limits last).Passes (OutOfTurn q client limits)
        (System.lone q client store clock) history ∧
      ∀ (s : State) (now : ℚ), s.sorted q.queueKey now ≠ [] → FastPathsShut q.queueKey s now := by
  have start : Lone q client limits last (lineAt q client limits store clock last) clock
      (System.lone q client store clock) := by
    refine ⟨rfl, ?_, by simp [System.lone, System.start, System.scene, Record.start]⟩
    exact Program.Abides.unroll (fun l w resumes => lone_round shared (resumes l rfl))
      (lone_round shared (resumes_start tidy before))
  refine ⟨?_, ?_, fun s now queued => fastPathsShut queued⟩
  · exact (valid.invariant (fun t now e sys order allowed lone => lone.step shared order allowed) start).line
  · refine valid.never (fun t now e sys order allowed lone => lone.step shared order allowed) ?_ start
    rintro t now e sys order allowed lone ⟨fate, outlook, skipGrantIds, skipRequestIds, next, rfl, at_, overtakes⟩
    have abides := lone.abides
    rw [at_] at abides
    exact abides.1 sys.scene now .refl (lone.clock.trans_le order) allowed.1 overtakes

end Runs

section Tests

/-- A test of what may happen around a lone pass that claims nothing but a slot. -/
def Event.lone (slotKey : String) (client : Client) (limits : Limits) (last now : ℚ) (sys : System Unit)
    (e : Event Unit) : Bool :=
  decide (now ≤ last) && match e with
    | .pass _ _ outlook =>
      match sys.program (fun _ => client) () with
      | .call (.costProblem cost) _ => decide (outlook.costProblem = limits cost)
      | .call c _ => c.contained slotKey
      | .done _ => true
    | .add request _ => decide (PlainId request.requestId) && !decide (request.requestId ∈ sys.record.used)
    | _ => false

theorem loneRuns_of_test {q : QueueKeys} {slotKey : String} {client : Client} {limits : Limits} {last : ℚ}
    (confined : Confined q slotKey fun _ : Unit => client) (now : ℚ) (e : Event Unit) (sys : System Unit)
    (test : e.lone slotKey client limits last now sys = true) :
    (loneRuns q client limits last).allowed now e sys := by
  simp only [Event.lone, Bool.and_eq_true, decide_eq_true_eq] at test
  refine ⟨test.1, ?_⟩
  have test := test.2
  cases e with
  | pass i fate outlook =>
    intro c next at_
    simp only [at_] at test
    cases c with
    | costProblem cost =>
      refine ⟨trivial, ?_⟩
      rintro cost' ⟨⟩
      exact of_decide_eq_true test
    | _ => exact ⟨Call.apart_of_contained (i := ()) confined test, nofun⟩
  | add request ttl => simpa using test
  | elsewhere after => cases test
  | recount id retries => cases test
  | retry id => cases test
  | complete id => cases test
  | free id retries => cases test
  | remove id ttl => cases test
  | cleanup alive current => cases test

/-- Two requests wait, -/
def pairRun : List (ℚ × QueueCall) :=
  [(0, .addRequest (plainRequest "first" "one") 86400), (1, .addRequest (plainRequest "second" "two") 86400)]

/-- and a pass hands over the first and claims the second, while a third joins. -/
def twoTurns : List (ℚ × Event Unit) :=
  [(2, .pass () .answered {}), (3, .pass () .answered {}), (4, .add (plainRequest "third" "two") 86400),
    (5, .pass () .answered {}), (6, .pass () .answered {}), (7, .pass () .answered {})]

theorem no_overtaking_twoTurns :
    ((loneRuns (clientQueue "ns") (plainClient "one") (fun _ => none) 9).final (System.lone (clientQueue "ns") (plainClient "one")
      ((queueRuns (clientQueue "ns")).final State.fresh pairRun) 1) twoTurns).handedOver = ["first"] ∧
    lineAt (clientQueue "ns") (plainClient "one") (fun _ => none)
      ((queueRuns (clientQueue "ns")).final State.fresh pairRun) 1 9 =
      ["first", "second"] ∧
    ¬ (loneRuns (clientQueue "ns") (plainClient "one") (fun _ => none) 9).Passes
      (OutOfTurn (clientQueue "ns") (plainClient "one") fun _ => none)
        (System.lone (clientQueue "ns") (plainClient "one")
        ((queueRuns (clientQueue "ns")).final State.fresh pairRun) 1) twoTurns := by
  have added : (queueRuns (clientQueue "ns")).Valid 0 State.fresh pairRun :=
    Timed.Machine.valid_cons.mpr ⟨le_rfl, (by decide : PlainId "first"), Timed.Machine.valid_cons.mpr
      ⟨by norm_num, (by decide : PlainId "second"), Timed.Machine.valid_nil⟩⟩
  have confined : Confined (clientQueue "ns") "ns:slots" fun _ : Unit => plainClient "one" :=
    plain_confined fun _ => rfl
  exact ⟨by decide +kernel, by decide +kernel, (no_overtaking rfl (queueRuns_tidy added) (by decide : (1 : ℚ) ≤ 9)
    (Timed.Machine.valid_of_checks (loneRuns_of_test confined) (by decide +kernel))).2.1⟩

end Tests

end Dianemo
