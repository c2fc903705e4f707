import Mathlib

namespace Tasks

variable {S T R C O : Type}

/-- One shared state, the tasks waiting on it, and what the calls that are over
returned. Also what one task does between two waits: what it leaves, and what
it adds to the tasks and to the returns. -/
structure Pool (S T R : Type) where
  state : S
  tasks : List T
  returned : List R

/-- Tasks that take turns over one state. `call` is a call from outside up to
its first wait; `resume` is a waiting task up to its next one, or `none` while
what it waits for has not happened. -/
structure Machine (S T R C O : Type) where
  call : C → S → Pool S T R
  resume : T → O → S → Option (Pool S T R)

/-- A call from outside, or the turn of a waiting task, which may end either way. -/
inductive Event (C O : Type)
  | call (c : C)
  | resume (place : ℕ) (outcome : O)

/-- What a stretch of code leaves beside the tasks that went on waiting. -/
def Pool.beside (after : Pool S T R) (waiting : List T) (before : List R) : Pool S T R :=
  ⟨after.state, waiting ++ after.tasks, before ++ after.returned⟩

namespace Machine

variable (m : Machine S T R C O)

def step (p : Pool S T R) : Event C O → Option (Pool S T R)
  | .call c => some ((m.call c p.state).beside p.tasks p.returned)
  | .resume place outcome => p.tasks[place]?.bind fun task =>
    (m.resume task outcome p.state).map fun after => after.beside (p.tasks.eraseIdx place) p.returned

def run : Pool S T R → List (Event C O) → Option (Pool S T R)
  | p, [] => some p
  | p, e :: rest => (m.step p e).bind fun p' => run p' rest

variable {m}

/-- The turn of a task, as one that leaves the others where they were. -/
theorem step_resume {p p' : Pool S T R} {place : ℕ} {outcome : O}
    (went : m.step p (.resume place outcome) = some p') :
    ∃ task others after, p.tasks.Perm (task :: others) ∧ m.resume task outcome p.state = some after ∧
      p' = after.beside others p.returned := by
  obtain ⟨task, found, went⟩ := Option.bind_eq_some_iff.mp went
  obtain ⟨after, resumed, rfl⟩ := Option.map_eq_some_iff.mp went
  obtain ⟨inside, rfl⟩ := List.getElem?_eq_some_iff.mp found
  exact ⟨_, _, after, (List.getElem_cons_eraseIdx_perm inside).symm, resumed, rfl⟩

theorem run_append {p : Pool S T R} {early late : List (Event C O)} :
    m.run p (early ++ late) = (m.run p early).bind fun p' => m.run p' late := by
  induction early generalizing p with
  | nil => rfl
  | cons e rest ih =>
    simp only [List.cons_append, run, Option.bind_assoc]
    exact congrArg _ (funext fun p' => ih)

/-- A property kept by every event of a run that may be in it holds at its end. -/
theorem run_invariant {I : Pool S T R → Prop} {may : Event C O → Prop}
    (call : ∀ p c, I p → may (.call c) → I ((m.call c p.state).beside p.tasks p.returned))
    (resume : ∀ p task others outcome after, I p → p.tasks.Perm (task :: others) →
      m.resume task outcome p.state = some after → I (after.beside others p.returned))
    {p p' : Pool S T R} {events : List (Event C O)} (ran : m.run p events = some p') (all : ∀ e ∈ events, may e)
    (start : I p) : I p' := by
  induction events generalizing p with
  | nil =>
    cases ran
    exact start
  | cons e rest ih =>
    obtain ⟨next, went, ran⟩ := Option.bind_eq_some_iff.mp ran
    refine ih ran (fun e' mem => all e' (List.mem_cons_of_mem _ mem)) ?_
    cases e with
    | call c =>
      cases went
      exact call p c start (all _ List.mem_cons_self)
    | resume place outcome =>
      obtain ⟨task, others, after, perm, resumed, rfl⟩ := step_resume went
      exact resume p task others outcome after start perm resumed

end Machine

end Tasks
