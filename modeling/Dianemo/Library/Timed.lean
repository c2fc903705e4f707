import Mathlib

namespace Timed

variable {T σ ε : Type*}

/-- What an event does to a state at an instant, and when it may happen. -/
structure Machine (T σ ε : Type*) where
  step : T → ε → σ → σ
  allowed : T → ε → σ → Prop

namespace Machine

/-- The state a history leads to. -/
def final (m : Machine T σ ε) : σ → List (T × ε) → σ
  | s, [] => s
  | s, (now, e) :: rest => m.final (m.step now e s) rest

/-- The instant of the last event, or the starting one. -/
def clock (m : Machine T σ ε) : T → List (T × ε) → T
  | t, [] => t
  | _, (now, _) :: rest => m.clock now rest

/-- What the events of a history add up to. -/
def total {M : Type*} [AddMonoid M] (m : Machine T σ ε) (f : T → ε → σ → M) : σ → List (T × ε) → M
  | _, [] => 0
  | s, (now, e) :: rest => f now e s + m.total f (m.step now e s) rest

/-- Some event of a history happens as `P` says. -/
def Passes (m : Machine T σ ε) (P : T → ε → σ → Prop) : σ → List (T × ε) → Prop
  | _, [] => False
  | s, (now, e) :: rest => P now e s ∨ m.Passes P (m.step now e s) rest

instance decidablePasses (m : Machine T σ ε) (P : T → ε → σ → Prop) [∀ now e s, Decidable (P now e s)] :
    ∀ s history, Decidable (m.Passes P s history)
  | _, [] => inferInstanceAs (Decidable False)
  | s, (now, e) :: rest =>
    have := m.decidablePasses P (m.step now e s) rest
    inferInstanceAs (Decidable (P now e s ∨ m.Passes P (m.step now e s) rest))

variable {m : Machine T σ ε}

theorem final_append {s : σ} {early late : List (T × ε)} :
    m.final s (early ++ late) = m.final (m.final s early) late := by
  induction early generalizing s with
  | nil => rfl
  | cons head rest ih => exact ih

/-- What may happen when has no part in where a history leads. -/
theorem final_congr {m' : Machine T σ ε} (same : m.step = m'.step) {s : σ} (history : List (T × ε)) :
    m.final s history = m'.final s history := by
  induction history generalizing s with
  | nil => rfl
  | cons head rest ih =>
    rw [final, final, same]
    exact ih

theorem clock_congr (m m' : Machine T σ ε) {t : T} (history : List (T × ε)) :
    m.clock t history = m'.clock t history := by
  induction history generalizing t with
  | nil => rfl
  | cons head rest ih => exact ih

/-- A property that every event keeps holds at the end of every history. -/
theorem final_invariant {I : σ → Prop} (step : ∀ now e s, I s → I (m.step now e s)) {s : σ} (start : I s)
    (history : List (T × ε)) : I (m.final s history) := by
  induction history generalizing s with
  | nil => exact start
  | cons head rest ih => exact ih (step _ _ _ start)

variable [Preorder T]

/-- Instants never go back and every event is allowed where it happens. -/
def Valid (m : Machine T σ ε) : T → σ → List (T × ε) → Prop
  | _, _, [] => True
  | t, s, (now, e) :: rest => t ≤ now ∧ m.allowed now e s ∧ m.Valid now (m.step now e s) rest

theorem valid_nil {t : T} {s : σ} : m.Valid t s [] := trivial

theorem valid_cons {t now : T} {s : σ} {e : ε} {rest : List (T × ε)} :
    m.Valid t s ((now, e) :: rest) ↔ t ≤ now ∧ m.allowed now e s ∧ m.Valid now (m.step now e s) rest := Iff.rfl

/-- A history run through a test of its events. -/
def checks [DecidableLE T] (m : Machine T σ ε) (test : T → ε → σ → Bool) : T → σ → List (T × ε) → Bool
  | _, _, [] => true
  | t, s, (now, e) :: rest => decide (t ≤ now) && test now e s && m.checks test now (m.step now e s) rest

theorem valid_of_checks [DecidableLE T] {test : T → ε → σ → Bool}
    (sound : ∀ now e s, test now e s = true → m.allowed now e s) {t : T} {s : σ} {history : List (T × ε)}
    (checked : m.checks test t s history = true) : m.Valid t s history := by
  induction history generalizing t s with
  | nil => trivial
  | cons head rest ih =>
    simp only [checks, Bool.and_eq_true, decide_eq_true_eq] at checked
    exact ⟨checked.1.1, sound _ _ _ checked.1.2, ih checked.2⟩

/-- A property of instant and state that every allowed event keeps, however
long it is waited for, holds at the end of every valid history. -/
theorem Valid.invariant {I : T → σ → Prop}
    (step : ∀ t now e s, t ≤ now → m.allowed now e s → I t s → I now (m.step now e s)) {t : T} {s : σ}
    {history : List (T × ε)} (valid : m.Valid t s history) (start : I t s) :
    I (m.clock t history) (m.final s history) := by
  induction history generalizing t s with
  | nil => exact start
  | cons head rest ih =>
    obtain ⟨later, allowed, valid⟩ := valid
    exact ih valid (step _ _ _ _ later allowed start)

/-- The same for a property that also counts what the events add up to. -/
theorem Valid.invariant_total {M : Type*} [AddMonoid M] {f : T → ε → σ → M} {I : T → σ → M → Prop}
    (step : ∀ t now e s sum, t ≤ now → m.allowed now e s → I t s sum →
      I now (m.step now e s) (sum + f now e s)) {t : T}
    {s : σ} {history : List (T × ε)} (valid : m.Valid t s history) {sum : M} (start : I t s sum) :
    I (m.clock t history) (m.final s history) (sum + m.total f s history) := by
  induction history generalizing t s sum with
  | nil => simpa [total, clock, final] using start
  | cons head rest ih =>
    obtain ⟨later, allowed, valid⟩ := valid
    have after := ih valid (step _ _ _ _ _ later allowed start)
    simpa only [total, clock, final, add_assoc] using after

/-- A property that one kind of event brings about and every event keeps holds
at the end of every valid history with such an event in it. -/
theorem Valid.invariant_after {I J : T → σ → Prop} {P : T → ε → σ → Prop}
    (step : ∀ t now e s, t ≤ now → m.allowed now e s → I t s → I now (m.step now e s))
    (enter : ∀ t now e s, t ≤ now → m.allowed now e s → P now e s → I t s → J now (m.step now e s))
    (stay : ∀ t now e s, t ≤ now → m.allowed now e s → J t s → J now (m.step now e s)) {t : T} {s : σ}
    {history : List (T × ε)} (valid : m.Valid t s history) (passes : m.Passes P s history) (start : I t s) :
    J (m.clock t history) (m.final s history) := by
  induction history generalizing t s with
  | nil => exact passes.elim
  | cons head rest ih =>
    obtain ⟨later, allowed, valid⟩ := valid
    rcases passes with here | there
    · exact valid.invariant stay (enter _ _ _ _ later allowed here start)
    · exact ih valid there (step _ _ _ _ later allowed start)

/-- What a kept property rules out never happens. -/
theorem Valid.never {I : T → σ → Prop} {P : T → ε → σ → Prop}
    (step : ∀ t now e s, t ≤ now → m.allowed now e s → I t s → I now (m.step now e s))
    (never : ∀ t now e s, t ≤ now → m.allowed now e s → I t s → ¬ P now e s) {t : T}
    {s : σ} {history : List (T × ε)}
    (valid : m.Valid t s history) (start : I t s) : ¬ m.Passes P s history := by
  induction history generalizing t s with
  | nil => exact not_false
  | cons head rest ih =>
    obtain ⟨later, allowed, valid⟩ := valid
    rintro (here | there)
    · exact never _ _ _ _ later allowed start here
    · exact ih valid (step _ _ _ _ later allowed start) there

theorem valid_append {t : T} {s : σ} {early late : List (T × ε)} :
    m.Valid t s (early ++ late) ↔ m.Valid t s early ∧ m.Valid (m.clock t early) (m.final s early) late := by
  induction early generalizing t s with
  | nil => simp [Valid, clock, final]
  | cons head rest ih => simp only [List.cons_append, Valid, clock, final, ih, and_assoc]

theorem Valid.le_clock {t : T} {s : σ} {history : List (T × ε)} (valid : m.Valid t s history) :
    t ≤ m.clock t history := by
  induction history generalizing t s with
  | nil => exact le_refl t
  | cons head rest ih => exact valid.1.trans (ih valid.2.2)

end Machine

end Timed
