import Dianemo.Library.Resumption

namespace Resumption

section Programs

variable {C : Type} {R : C → Type} {E G α : Type} {P : Protocol C R E G}

/-- A call with what came back. -/
abbrev Answered (C : Type) (R : C → Type) (E : Type) := (c : C) × Except E (R c)

/-- An execution so far: the calls it made with their replies, and the program it goes on with. -/
inductive Program.Runs : Program C R E α → List (Answered C R E) → Program C R E α → Prop
  | here (p : Program C R E α) : Runs p [] p
  | call {c : C} {next : Except E (R c) → Program C R E α} {reply : Except E (R c)} {log : List (Answered C R E)}
    {rest : Program C R E α} : Runs (next reply) log rest → Runs (.call c next) (⟨c, reply⟩ :: log) rest

/-- The first `n` calls of the execution that a script answers; it is told how many are to follow. -/
def Program.log (script : ℕ → (c : C) → Except E (R c)) : ℕ → Program C R E α → List (Answered C R E)
  | 0, _ => []
  | _, .done _ => []
  | n + 1, .call c next => ⟨c, script n c⟩ :: (next (script n c)).log script n

theorem Program.runs_log (script : ℕ → (c : C) → Except E (R c)) (n : ℕ) (p : Program C R E α) :
    ∃ rest, p.Runs (p.log script n) rest := by
  induction n generalizing p with
  | zero => exact ⟨p, .here p⟩
  | succ n ih =>
    cases p with
    | done a => exact ⟨_, .here _⟩
    | call c next =>
      obtain ⟨rest, runs⟩ := ih (next (script n c))
      exact ⟨rest, .call runs⟩

/-- What is known after a log. -/
def Protocol.after (P : Protocol C R E G) (g : G) (log : List (Answered C R E)) : G :=
  log.foldl (fun g answered => P.next g answered.1 answered.2) g

/-- What no allowed call breaks holds wherever an execution has come to. -/
theorem Program.Conforms.runs {Q : α → G → Prop} {J : G → Prop}
    (step : ∀ g c reply, P.allows g c → J g → J (P.next g c reply)) {p rest : Program C R E α}
    {log : List (Answered C R E)} (runs : p.Runs log rest) (answers : ∀ g c reply, P.answers g c reply) {g : G}
    (conforms : p.Conforms P Q g) (start : J g) : J (P.after g log) := by
  induction runs generalizing g with
  | here p => exact start
  | @call c next reply log rest runs ih =>
    exact ih (conforms.2 reply (answers g c reply)) (step g c reply conforms.1 start)

end Programs

end Resumption
