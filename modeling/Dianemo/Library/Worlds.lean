import Dianemo.Library.Resumption

namespace Resumption

/-- A world that answers calls: which may be made in it, and which worlds a
call and its reply may leave. -/
structure World (C : Type) (R : C → Type) (E W : Type) where
  allows : W → C → Prop
  answers : W → (c : C) → Except E (R c) → W → Prop

section Programs

variable {C : Type} {R : C → Type} {E W α β : Type} {M : World C R E W}

/-- Every call is allowed where it is made, and `Q` holds of the result and the world it leaves. -/
def Program.Abides (M : World C R E W) (Q : α → W → Prop) : W → Program C R E α → Prop
  | w, .done a => Q a w
  | w, .call c next => M.allows w c ∧ ∀ reply w', M.answers w c reply w' → (next reply).Abides M Q w'

theorem Program.Abides.mono {Q Q' : α → W → Prop} (weaker : ∀ a w, Q a w → Q' a w) {w : W} {p : Program C R E α}
    (abides : p.Abides M Q w) : p.Abides M Q' w := by
  induction p generalizing w with
  | done a => exact weaker a w abides
  | call c next ih =>
    refine ⟨abides.1, ?_⟩
    intro reply w' answers
    exact ih reply (abides.2 reply w' answers)

theorem Program.abides_bind {Q : β → W → Prop} {f : α → Program C R E β} {w : W} {p : Program C R E α} :
    (p.bind f).Abides M Q w ↔ p.Abides M (fun a w => (f a).Abides M Q w) w := by
  induction p generalizing w with
  | done a => exact Iff.rfl
  | call c next ih =>
    refine and_congr_right fun _ => ?_
    exact forall_congr' fun reply => forall_congr' fun w' => imp_congr_right fun _ => ih reply

/-- A loop abides round after round if every round does and starts the next as it was started. -/
theorem Program.Abides.unroll {L : Type} {body : L → Program C R E (Option L)} {Q : Option L → W → Prop}
    (round : ∀ l w, Q (some l) w → (body l).Abides M Q w) {w : W} {p : Program C R E (Option L)}
    (abides : p.Abides M Q w) : (Program.unroll body p).Abides M Q w := by
  cases p with
  | done o =>
    cases o with
    | none => exact abides
    | some l => exact round l w abides
  | call c next => exact abides

end Programs

namespace Act

variable {σ C : Type} {R : C → Type} {E W α β : Type} {M : World C R E W} {w : W} {l : σ}

/-- Every call is allowed where it is made, and `Q` holds of the outcome, the
local variables and the world. -/
def Abides (M : World C R E W) (Q : Except E α → σ → W → Prop) (w : W) (l : σ) (x : Act σ C R E α) : Prop :=
  (x.run l).Abides M (fun out w => Q out.1 out.2 w) w

@[simp] theorem abides_pure {Q : Except E α → σ → W → Prop} {a : α} :
    (pure a : Act σ C R E α).Abides M Q w l ↔ Q (.ok a) l w := Iff.rfl

@[simp] theorem abides_throw {Q : Except E α → σ → W → Prop} {e : E} :
    (throw e : Act σ C R E α).Abides M Q w l ↔ Q (.error e) l w := Iff.rfl

@[simp] theorem abides_locals {Q : Except E σ → σ → W → Prop} :
    (locals : Act σ C R E σ).Abides M Q w l ↔ Q (.ok l) l w := Iff.rfl

@[simp] theorem abides_update {Q : Except E Unit → σ → W → Prop} {f : σ → σ} :
    (update f : Act σ C R E Unit).Abides M Q w l ↔ Q (.ok ()) (f l) w := Iff.rfl

@[simp] theorem abides_call {c : C} {Q : Except E (R c) → σ → W → Prop} :
    (call c : Act σ C R E (R c)).Abides M Q w l ↔
      M.allows w c ∧ ∀ reply w', M.answers w c reply w' → Q reply l w' := Iff.rfl

@[simp] theorem abides_attempt {c : C} {Q : Except E (Option (R c)) → σ → W → Prop} :
    (attempt c : Act σ C R E (Option (R c))).Abides M Q w l ↔
      M.allows w c ∧ ∀ reply w', M.answers w c reply w' → Q (.ok reply.toOption) l w' := by
  refine and_congr_right fun _ => forall_congr' fun reply => forall_congr' fun w' => imp_congr_right fun _ => ?_
  cases reply <;> exact Iff.rfl

@[simp] theorem abides_bind {Q : Except E β → σ → W → Prop} {x : Act σ C R E α} {f : α → Act σ C R E β} :
    (x >>= f).Abides M Q w l ↔ x.Abides M (fun out l w => match out with
      | .ok a => (f a).Abides M Q w l
      | .error e => Q (.error e) l w) w l := by
  refine Program.abides_bind.trans ?_
  refine iff_of_eq (congrArg (fun Q => (x.run l).Abides M Q w) ?_)
  funext out w
  obtain ⟨out, l⟩ := out
  cases out <;> rfl

@[simp] theorem abides_tryCatch {Q : Except E α → σ → W → Prop} {x : Act σ C R E α} {handle : E → Act σ C R E α} :
    (tryCatch x handle).Abides M Q w l ↔ x.Abides M (fun out l w => match out with
      | .ok a => Q (.ok a) l w
      | .error e => (handle e).Abides M Q w l) w l := by
  refine Program.abides_bind.trans ?_
  refine iff_of_eq (congrArg (fun Q => (x.run l).Abides M Q w) ?_)
  funext out w
  obtain ⟨out, l⟩ := out
  cases out <;> rfl

theorem Abides.mono {Q Q' : Except E α → σ → W → Prop}
    (weaker : ∀ out l w, Q out l w → Q' out l w) {x : Act σ C R E α}
    (abides : x.Abides M Q w l) : x.Abides M Q' w l :=
  Program.Abides.mono (fun out w holds => weaker out.1 out.2 w holds) abides

end Act

end Resumption
