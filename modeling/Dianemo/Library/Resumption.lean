import Mathlib

namespace Resumption

/-- A program that reaches the world by calls alone. A call may fail, and the
program goes on from its reply either way. -/
inductive Program (C : Type) (R : C → Type) (E α : Type) : Type
  | done (a : α)
  | call (c : C) (next : Except E (R c) → Program C R E α)

namespace Program

variable {C : Type} {R : C → Type} {E α β : Type}

def bind (p : Program C R E α) (f : α → Program C R E β) : Program C R E β :=
  match p with
  | .done a => f a
  | .call c next => .call c fun reply => (next reply).bind f

/-- The call a program waits on. -/
def pending : Program C R E α → Option C
  | .done _ => none
  | .call c _ => some c

/-- A finished round of a loop goes on with the next one. -/
def unroll {L : Type} (body : L → Program C R E (Option L)) : Program C R E (Option L) → Program C R E (Option L)
  | .done (some l) => body l
  | p => p

end Program

/-- What a caller may call, which replies may come, and what is known of it after one. -/
structure Protocol (C : Type) (R : C → Type) (E G : Type) where
  allows : G → C → Prop
  answers : G → (c : C) → Except E (R c) → Prop
  next : G → (c : C) → Except E (R c) → G

section Programs

variable {C : Type} {R : C → Type} {E G α β : Type} {P : Protocol C R E G}

/-- Every call is allowed where it is made, and `Q` holds of the result. -/
def Program.Conforms (P : Protocol C R E G) (Q : α → G → Prop) : G → Program C R E α → Prop
  | g, .done a => Q a g
  | g, .call c next => P.allows g c ∧ ∀ reply, P.answers g c reply → (next reply).Conforms P Q (P.next g c reply)

theorem Program.Conforms.mono {Q Q' : α → G → Prop} (weaker : ∀ a g, Q a g → Q' a g) {g : G} {p : Program C R E α}
    (conforms : p.Conforms P Q g) : p.Conforms P Q' g := by
  induction p generalizing g with
  | done a => exact weaker a g conforms
  | call c next ih =>
    refine ⟨conforms.1, ?_⟩
    intro reply answers
    exact ih reply (conforms.2 reply answers)

theorem Program.conforms_bind {Q : β → G → Prop} {f : α → Program C R E β} {g : G} {p : Program C R E α} :
    (p.bind f).Conforms P Q g ↔ p.Conforms P (fun a g => (f a).Conforms P Q g) g := by
  induction p generalizing g with
  | done a => exact Iff.rfl
  | call c next ih =>
    refine and_congr_right fun _ => ?_
    exact forall_congr' fun reply => imp_congr_right fun _ => ih reply

/-- A loop conforms round after round if every round does and starts the next as it was started. -/
theorem Program.Conforms.unroll {L : Type} {body : L → Program C R E (Option L)} {I : L → G → Prop}
    (round : ∀ l g, I l g → (body l).Conforms P (fun o g => ∀ l, o = some l → I l g) g) {g : G}
    {p : Program C R E (Option L)} (conforms : p.Conforms P (fun o g => ∀ l, o = some l → I l g) g) :
    (Program.unroll body p).Conforms P (fun o g => ∀ l, o = some l → I l g) g := by
  cases p with
  | done o =>
    cases o with
    | none => exact conforms
    | some l => exact round l g (conforms l rfl)
  | call c next => exact conforms

end Programs

/-- A computation on local variables that can throw; what it did to them stays done. -/
structure Act (σ : Type) (C : Type) (R : C → Type) (E α : Type) where
  run : σ → Program C R E (Except E α × σ)

namespace Act

variable {σ C : Type} {R : C → Type} {E α β : Type}

instance : Monad (Act σ C R E) where
  pure a := ⟨fun l => .done (.ok a, l)⟩
  bind x f := ⟨fun l => (x.run l).bind fun
    | (.ok a, l) => (f a).run l
    | (.error e, l) => .done (.error e, l)⟩

instance : MonadExceptOf E (Act σ C R E) where
  throw e := ⟨fun l => .done (.error e, l)⟩
  tryCatch x handle := ⟨fun l => (x.run l).bind fun
    | (.ok a, l) => .done (.ok a, l)
    | (.error e, l) => (handle e).run l⟩

/-- The local variables. -/
def locals : Act σ C R E σ := ⟨fun l => .done (.ok l, l)⟩

def update (f : σ → σ) : Act σ C R E Unit := ⟨fun l => .done (.ok (), f l)⟩

/-- A call whose failure is thrown. -/
def call (c : C) : Act σ C R E (R c) := ⟨fun l => .call c fun reply => .done (reply, l)⟩

/-- A call whose failure is swallowed. -/
def attempt (c : C) : Act σ C R E (Option (R c)) := ⟨fun l => .call c fun
  | .ok r => .done (.ok (some r), l)
  | .error _ => .done (.ok none, l)⟩

/-- Every call is allowed where it is made, and `Q` holds of the outcome and the local variables. -/
def Conforms {G : Type} (P : Protocol C R E G) (Q : Except E α → σ → G → Prop) (g : G) (l : σ)
    (x : Act σ C R E α) : Prop :=
  (x.run l).Conforms P (fun out g => Q out.1 out.2 g) g

section Rules

variable {G : Type} {P : Protocol C R E G} {g : G} {l : σ}

@[simp] theorem conforms_pure {Q : Except E α → σ → G → Prop} {a : α} :
    (pure a : Act σ C R E α).Conforms P Q g l ↔ Q (.ok a) l g := Iff.rfl

@[simp] theorem conforms_throw {Q : Except E α → σ → G → Prop} {e : E} :
    (throw e : Act σ C R E α).Conforms P Q g l ↔ Q (.error e) l g := Iff.rfl

@[simp] theorem conforms_locals {Q : Except E σ → σ → G → Prop} :
    (locals : Act σ C R E σ).Conforms P Q g l ↔ Q (.ok l) l g := Iff.rfl

@[simp] theorem conforms_update {Q : Except E Unit → σ → G → Prop} {f : σ → σ} :
    (update f : Act σ C R E Unit).Conforms P Q g l ↔ Q (.ok ()) (f l) g := Iff.rfl

@[simp] theorem conforms_call {c : C} {Q : Except E (R c) → σ → G → Prop} :
    (call c : Act σ C R E (R c)).Conforms P Q g l ↔
      P.allows g c ∧ ∀ reply, P.answers g c reply → Q reply l (P.next g c reply) := Iff.rfl

@[simp] theorem conforms_attempt {c : C} {Q : Except E (Option (R c)) → σ → G → Prop} :
    (attempt c : Act σ C R E (Option (R c))).Conforms P Q g l ↔
      P.allows g c ∧ ∀ reply, P.answers g c reply → Q (.ok reply.toOption) l (P.next g c reply) := by
  refine and_congr_right fun _ => forall_congr' fun reply => imp_congr_right fun _ => ?_
  cases reply <;> exact Iff.rfl

@[simp] theorem conforms_bind {Q : Except E β → σ → G → Prop} {x : Act σ C R E α} {f : α → Act σ C R E β} :
    (x >>= f).Conforms P Q g l ↔ x.Conforms P (fun out l g => match out with
      | .ok a => (f a).Conforms P Q g l
      | .error e => Q (.error e) l g) g l := by
  refine Program.conforms_bind.trans ?_
  refine iff_of_eq (congrArg (fun Q => (x.run l).Conforms P Q g) ?_)
  funext out g
  obtain ⟨out, l⟩ := out
  cases out <;> rfl

@[simp] theorem conforms_tryCatch {Q : Except E α → σ → G → Prop} {x : Act σ C R E α} {handle : E → Act σ C R E α} :
    (tryCatch x handle).Conforms P Q g l ↔ x.Conforms P (fun out l g => match out with
      | .ok a => Q (.ok a) l g
      | .error e => (handle e).Conforms P Q g l) g l := by
  refine Program.conforms_bind.trans ?_
  refine iff_of_eq (congrArg (fun Q => (x.run l).Conforms P Q g) ?_)
  funext out g
  obtain ⟨out, l⟩ := out
  cases out <;> rfl

theorem Conforms.mono {Q Q' : Except E α → σ → G → Prop}
    (weaker : ∀ out l g, Q out l g → Q' out l g) {x : Act σ C R E α}
    (conforms : x.Conforms P Q g l) : x.Conforms P Q' g l :=
  Program.Conforms.mono (fun out g holds => weaker out.1 out.2 g holds) conforms

end Rules

end Act

end Resumption
