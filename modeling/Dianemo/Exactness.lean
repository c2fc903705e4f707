import Dianemo.Billing
import Dianemo.Waiting

namespace Dianemo

open JsNumber Meter

/-- What reaches a bucket between a claim and its return: claims without a mark, each under its
own configuration, and traffic that leaves the bucket alone. -/
inductive Spend where
  | acquireTokens (cost : ℚ) (r : Rate)
  | elsewhere (after : State)

def Spend.call : Spend → BucketCall
  | acquireTokens cost r => .acquireTokens (fin cost) r.config none
  | elsewhere after => .elsewhere after

/-- A bucket, and a gauge the same amounts are taken from at the same instants. -/
structure Alongside where
  store : State
  gauge : Gauge ℚ

/-- A claim on the bucket, beside a gauge that takes `amount` at once instead. -/
def Alongside.claim (key : String) (now : ℚ) (s : State) (g : Gauge ℚ) (r : Rate) (cost : ℚ)
    (mark : Option ClaimMark) (amount : ℚ) : Alongside :=
  ⟨((BucketCall.acquireTokens (fin cost) r.config mark).exec key now s).2, (g.advance r.rule now).take amount⟩

def Spend.take (key : String) (now : ℚ) (s : State) (g : Gauge ℚ) : Spend → Gauge ℚ
  | acquireTokens cost r => (g.advance r.rule now).take ((Spend.acquireTokens cost r).call.admitted key now s)
  | elsewhere _ => g

/-- Runs through which the bucket lives on, and nothing else touches the marks of `ids`. -/
def spendRuns (key : String) (ids : Set String) : Timed.Machine ℚ Alongside Spend where
  step now spend a := ⟨(spend.call.exec key now a.store).2, spend.take key now a.store a.gauge⟩
  allowed now spend a := a.store.Lasts key now ∧ spend.call.Apart key ids now a.store ∧
    match spend with
    | .acquireTokens cost _ => 0 ≤ cost
    | .elsewhere _ => True

/-- What a spend does to the bucket and to the gauge beside it. -/
structure Abreast (now : ℚ) (p q : Purse) (g h : Gauge ℚ) : Prop where
  moved : (q.level.gauge = p.level.gauge ∧ h = g) ∨ ∃ r : Rate, ∃ amount, 0 ≤ amount ∧
    q.level.gauge = (p.level.gauge.advance r.rule now).take amount ∧ h = (g.advance r.rule now).take amount
  fills : p.level.fills ≤ q.level.fills
  generation : q.generation = p.generation
  forgiven : q.forgiven = p.forgiven
  epoch : q.epoch = p.epoch

section Spends

variable {key : String} {ids : Set String} {t now : ℚ} {a : Alongside} {b : Book} {p : Purse}

/-- A claim without a mark takes its cost of the refilled bucket, or nothing, and says which. -/
theorem Follows.acquired (follows : Follows key ids now a.store b.account)
    (held : b.purse = some p) (r : Rate) {cost : ℚ} (free : 0 ≤ cost) : ∃ q, Follows key ids now
        ((Spend.acquireTokens cost r).call.exec key now a.store).2 ({ b with purse := some q } : Book).account ∧
      q.level = (p.level.refill r now).spend ((Spend.acquireTokens cost r).call.admitted key now a.store) ∧
      0 ≤ (Spend.acquireTokens cost r).call.admitted key now a.store ∧
      q.generation = p.generation ∧ q.forgiven = p.forgiven ∧ q.epoch = p.epoch := by
  have level := Book.level_of_purse held r now
  have generation : b.generation = p.generation := by simp [Book.generation, held]
  have forgiven : b.forgiven = p.forgiven := by simp [Book.forgiven, held]
  have epoch : b.epoch = p.epoch := by simp [Book.epoch, held]
  have unmarked : claimMark none = .ok none := rfl
  have run := acquireTokens_run (r := r) key unmarked free now a.store
  simp only [Spend.call, BucketCall.admitted, BucketCall.exec, BucketCall.draws, run]
  by_cases covers : coversCost (Dianemo.refill a.store key r.config now).tokens (fin cost) r.config.maxTokens = true
  · have nothing : ∀ claim ∈ (none : Option (String × ℚ)), WholeTtl claim.2 := by simp
    obtain ⟨a', trail, after⟩ := follows.performs_spend WholeTtl.day (r.usable free) covers nothing
    obtain ⟨fits, rfl⟩ := trail.of_single
    have acted := Book.act_account (r := r) (by exact rfl) fits
    rw [acted] at after
    rw [if_pos covers]
    refine ⟨_, after, ?_, ?_, generation, forgiven, epoch⟩
    · simp [Report.of, level]
    · simpa [Report.of] using free
  · obtain ⟨a', trail, after⟩ := follows.performs_touch WholeTtl.day (r.usable (le_refl 0))
    obtain ⟨fits, rfl⟩ := trail.of_single
    have acted := Book.act_account (r := r) (by exact rfl) fits
    rw [acted] at after
    rw [if_neg covers]
    refine ⟨_, after, ?_, ?_, generation, forgiven, epoch⟩
    · simp [Report.of, level, Level.spend]
    · simp [Report.of]

theorem spend_step {spend : Spend} (later : t ≤ now) (allowed : (spendRuns key ids).allowed now spend a)
    (follows : Follows key ids t a.store b.account) (held : b.purse = some p) :
    ∃ b' : Book, ∃ q, Follows key ids now ((spendRuns key ids).step now spend a).store b'.account ∧
      b'.purse = some q ∧
      (∀ id n, b'.notes id = some n → b.notes id = some n) ∧
        Abreast now p q a.gauge ((spendRuns key ids).step now spend a).gauge := by
  obtain ⟨lasts, apart, free⟩ := allowed
  have purse := (follows.lasting lasts).trans held
  have there := follows.later later
  rw [b.asOf_account now] at there
  have fewer : ∀ id n, (b.asOf now).notes id = some n → b.notes id = some n :=
    fun id n found => (Option.filter_eq_some_iff.mp found).1
  cases spend with
  | elsewhere state =>
    exact ⟨_, p, there.keeps apart, purse, fewer, Or.inl ⟨rfl, rfl⟩, le_rfl, rfl, rfl, rfl⟩
  | acquireTokens cost r =>
    obtain ⟨q, after, level, nonneg, generation, forgiven, epoch⟩ := there.acquired purse r free
    refine ⟨_, q, after, rfl, fewer, Or.inr ⟨r, _, nonneg, congrArg Level.gauge level, rfl⟩, ?_,
      generation, forgiven, epoch⟩
    rw [level]
    exact p.level.fills_le_refill r now

/-- The bucket holds more than the gauge by what the claim has yet to be settled for, less the refill it
has since discarded. -/
structure Debited (owed : ℚ) (n : Note) (id : String) (p : Purse) (b : Book) (g : Gauge ℚ) : Prop where
  purse : b.purse = some p
  ahead : Ahead owed p.level.gauge g
  epoch : p.epoch = some n.epoch
  generation : p.generation = n.generation
  forgiven : p.forgiven = n.forgiven
  overflow : n.overflow ≤ p.level.gauge.spill
  fills : n.fills ≤ p.level.fills
  note : ∀ m, b.notes id = some m → m = n

theorem Debited.step {owed : ℚ} {n : Note} {id : String} {g h : Gauge ℚ} {q : Purse} {b' : Book}
    (debited : Debited owed n id p b g)
    (held : b'.purse = some q) (fewer : ∀ id n, b'.notes id = some n → b.notes id = some n)
    (abreast : Abreast now p q g h) : Debited owed n id q b' h where
  purse := held
  ahead := by
    rcases abreast.moved with ⟨gauge, same⟩ | ⟨r, amount, -, gauge, taken⟩
    · rw [gauge, same]
      exact debited.ahead
    · rw [gauge, taken]
      exact (debited.ahead.advance r.rule now).take amount
  epoch := abreast.epoch.trans debited.epoch
  generation := abreast.generation.trans debited.generation
  forgiven := abreast.forgiven.trans debited.forgiven
  overflow := by
    refine debited.overflow.trans ?_
    rcases abreast.moved with ⟨gauge, -⟩ | ⟨r, amount, -, gauge, -⟩
    · rw [gauge]
    · rw [gauge]
      exact Gauge.spill_le_advance
  fills := debited.fills.trans abreast.fills
  note m found := debited.note m (fewer id m found)

/-- A claim settled in full comes to what it leaves the bucket above the gauge. -/
theorem Debited.correction {owed actual debt : ℚ} {n : Note} {id : String} {g : Gauge ℚ} {r : Rate}
    (debited : Debited owed n id p b g)
    (owes : owed = n.overflow + (actual - n.claimed)) (more : n.claimed ≤ actual)
    (paid : (Dianemo.correction r p (p.level.refill r now) n actual debt).unapplied = 0) :
    (p.level.refill r now).gauge.level - (Dianemo.correction r p (p.level.refill r now) n actual debt).applied =
      (g.advance r.rule now).level := by
  have gap := (debited.ahead.advance r.rule now).gap
  have spilt : p.level.gauge.spill ≤ (p.level.gauge.advance r.rule now).spill := Gauge.spill_le_advance
  have gauge : (p.level.refill r now).gauge = p.level.gauge.advance r.rule now := rfl
  have here : ¬ n.Gone p (p.level.refill r now) := by
    rintro (epoch | generation | overflow | fills)
    · exact epoch debited.epoch
    · exact generation debited.generation
    · exact absurd overflow (not_lt.mpr (debited.overflow.trans spilt))
    · exact absurd fills (not_lt.mpr (debited.fills.trans (p.level.fills_le_refill r now)))
  have slack : 0 ≤ (p.level.gauge.advance r.rule now).spill - n.overflow :=
    sub_nonneg.mpr (debited.overflow.trans spilt)
  rcases correction_cases r p (p.level.refill r now) n actual debt with
    ⟨gone, -⟩ | ⟨-, positive, used, is_used, same⟩ | ⟨-, refunds, -⟩ | ⟨-, least, same⟩
  · exact absurd gone here
  · rw [gauge, debited.forgiven, sub_self, sub_zero, max_eq_right slack] at is_used
    rw [same] at paid ⊢
    simp only at paid ⊢
    have applied : Min.min (actual - n.claimed - used) (Max.max 0 ((p.level.refill r now).gauge.level + debt)) =
        actual - n.claimed - used := by linarith
    rw [applied, gauge]
    rcases le_total (actual - n.claimed) ((p.level.gauge.advance r.rule now).spill - n.overflow) with all | part
    · rw [min_eq_left all] at is_used
      rw [owes, max_eq_left (by linarith)] at gap
      linarith
    · rw [min_eq_right part] at is_used
      rw [owes, max_eq_right (by linarith)] at gap
      linarith
  · exact absurd refunds (not_lt.mpr (sub_nonneg.mpr more))
  · have nothing : actual - n.claimed = 0 := le_antisymm least (sub_nonneg.mpr more)
    rw [same, gauge, sub_zero]
    rw [owes, nothing, add_zero, max_eq_left (by linarith)] at gap
    linarith

/-- A claim that is admitted, beside a gauge that takes what it will come to. -/
theorem Debited.claimed {r : Rate} {s : State} {cost actual : ℚ} {mark : ClaimMark}
    (follows : Follows key ids now s b.account)
    (held : b.purse = some p)
    (admitted : ((BucketCall.acquireTokens (fin cost) r.config (some mark)).exec key now s).1.admitted = true)
    (more : cost ≤ actual) : ∃ (b' : Book) (q : Purse) (n : Note),
      Follows key ids now ((BucketCall.acquireTokens (fin cost) r.config (some mark)).exec key now s).2 b'.account ∧
      n.claimed = cost ∧ 0 ≤ cost ∧
      Debited (n.overflow + (actual - cost)) n mark.id q b' ((p.level.gauge.advance r.rule now).take actual) := by
  obtain ⟨actions, ⟨a', trail, after⟩, draws⟩ := follows.acquireTokens (fin cost) r.config (some mark)
  rw [admitted] at draws
  have level := Book.level_of_purse held r now
  cases draws with
  | @admitted ttl claim epoch normal made =>
    obtain ⟨fits, rfl⟩ := trail.of_single
    have acted := Book.act_account (r := r) (by exact rfl) fits
    rw [acted] at after
    obtain ⟨-, free, -⟩ := spend_fits fits
    cases claim with
    | none => cases claimMark_none made
    | some claim =>
      obtain ⟨given, same, named⟩ := claimMark_id made (Option.mem_some_self claim)
      cases same
      refine ⟨_, _, ⟨cost, (b.level r now).gauge.spill, (b.level r now).fills, b.generation, b.forgiven, b.epoch.getD epoch,
        now + claim.2 * 1000⟩, after, rfl, free, rfl, ?_, rfl, rfl, rfl, le_rfl, le_rfl, ?_⟩
      · rw [level]
        exact Ahead.of_take (p.level.gauge.advance r.rule now) more
      · intro m found
        rw [named] at found
        simp only [Book.act, Book.spend, Book.mark, Function.update_self, Option.some.injEq] at found
        exact found.symm

/-- One claim settled late, and in full, leaves the bucket with what it would hold had the claim
taken at once what it came to, whatever was claimed in between. -/
theorem late_debit_exact {r r' : Rate} {s : State} {cost actual : ℚ} {mark : ClaimMark} {maxDebt applied : JsNumber}
    (live : BucketAt s key t (some p.bucket)) (unmarked : s.live (claimMarkKey key mark.id) t = none)
    (admitted : ((BucketCall.acquireTokens (fin cost) r.config (some mark)).exec key t s).1.admitted = true)
    (more : cost ≤ actual) {history : List (ℚ × Spend)}
    (valid : (spendRuns key {mark.id}).Valid t (.claim key t s p.level.gauge r cost (some mark) actual) history)
    (later : (spendRuns key {mark.id}).clock t history ≤ now)
    (lasts : ((spendRuns key {mark.id}).final (.claim key t s p.level.gauge r cost (some mark) actual) history).store.Lasts key now)
    (settled : ((BucketCall.settleTokens [⟨key, mark.id, fin actual, r'.config, maxDebt⟩]).exec key now
      ((spendRuns key {mark.id}).final (.claim key t s p.level.gauge r cost (some mark) actual) history).store).1.settled =
        [⟨key, true, applied, 0⟩]) :
    ((BucketCall.settleTokens [⟨key, mark.id, fin actual, r'.config, maxDebt⟩]).exec key now
        ((spendRuns key {mark.id}).final (.claim key t s p.level.gauge r cost (some mark) actual) history).store).2.hget key "tokens" now =
      some (.num (fin (((spendRuns key {mark.id}).final (.claim key t s p.level.gauge r cost (some mark) actual) history).gauge.advance
        r'.rule now).level)) := by
  have start : Follows key {mark.id} t s (⟨some p, fun _ => none, s.epochs⟩ : Book).account := by
    refine ⟨live, ?_, le_rfl⟩
    rintro id rfl
    exact unmarked
  obtain ⟨b₀, q₀, n, claimed, cost_, free, debited⟩ := Debited.claimed start rfl admitted more
  obtain ⟨b, q, follows, debited⟩ := valid.invariant
    (I := fun t a => ∃ b q, Follows key {mark.id} t a.store (Book.account b) ∧
      Debited (n.overflow + (actual - cost)) n mark.id q b a.gauge)
    (by
      rintro t now spend a later allowed ⟨b, q, follows, debited⟩
      obtain ⟨b', q', follows', held, fewer, abreast⟩ := spend_step later allowed follows debited.purse
      exact ⟨b', q', follows', debited.step held fewer abreast⟩)
    ⟨b₀, q₀, claimed, debited⟩
  generalize (spendRuns key {mark.id}).final (.claim key t s p.level.gauge r cost (some mark) actual) history = a at *
  have there := follows.later later
  rw [b.asOf_account now] at there
  have purse := (follows.lasting lasts).trans debited.purse
  have apart : (BucketCall.settleTokens [⟨key, mark.id, fin actual, r'.config, maxDebt⟩]).Apart key {mark.id} now a.store := by
    simp [BucketCall.Apart]
  obtain ⟨actions, ⟨a', trail, after⟩, rfl, same⟩ := there.call apart
  rw [settled] at same
  have last := trail.unique (Trail.settleAll now _ _)
  have mine : ([⟨key, mark.id, fin actual, r'.config, maxDebt⟩] : List SettleSpec).filter
      (fun spec => decide (spec.key = key)) =
      [⟨key, mark.id, fin actual, r'.config, maxDebt⟩] := by simp
  have config : (⟨key, mark.id, fin actual, r'.config, maxDebt⟩ : SettleSpec).config = r'.config := rfl
  have account := (b.asOf now).settle_account config rfl (free.trans more) now
  rw [mine] at same last
  simp only [Account.settleAll, account] at same last
  cases found : (b.asOf now).notes mark.id with
  | none =>
    simp [Book.correctionOf, found] at same
  | some m =>
    cases debited.note m (Option.filter_eq_some_iff.mp found).1
    have reported : (b.asOf now).correctionOf r' mark.id actual (debtOf maxDebt) now =
        some (correction r' q (q.level.refill r' now) n actual (debtOf maxDebt)) := by
      simp only [Book.correctionOf, found, purse, Option.map_some, Option.elim_some]
    rw [reported] at same
    obtain ⟨-, paid⟩ : applied = fin (correction r' q (q.level.refill r' now) n actual (debtOf maxDebt)).applied ∧
        0 = (correction r' q (q.level.refill r' now) n actual (debtOf maxDebt)).unapplied := by
      simpa using same
    rcases (b.asOf now).settle_cases r' mark.id actual (debtOf maxDebt) now with
      ⟨absent, -⟩ | ⟨-, -, gone, -⟩ | ⟨m, o, noted, held, corrected⟩
    · rw [found] at absent
      cases absent
    · rw [purse] at gone
      cases gone
    · cases Option.some.inj (found.symm.trans noted)
      cases Option.some.inj (purse.symm.trans held)
      rw [last, corrected] at after
      obtain ⟨h, is, reads⟩ := after.bucket.hget
      have exact_ := debited.correction (by rw [cost_]) (cost_ ▸ more) paid.symm
      rw [reads, is.tokens, ← exact_]
      rfl

/-- A refund past any freeze adds to what is stored, up to the ceiling it is given. -/
theorem Follows.refunded {maxTokens cost : ℚ} {freezeKey : Option String} {s : State}
    (follows : Follows key ids now s b.account)
    (held : b.purse = some p) (free : 0 ≤ cost) (thawed : ∀ k ∈ freezeKey, s.freezeEmptiedBucket k now = false) :
    ((BucketCall.refundTokens (fin cost) (fin maxTokens) freezeKey).exec key now s).2.hget key "tokens" now =
      some (.num (fin (Min.min maxTokens (p.level.gauge.level + cost)))) := by
  have usable : usableCost (fin cost) = true := usableCost_iff.mpr ⟨cost, rfl, free⟩
  have open_ : (freezeKey.elim false fun k => decide (k ≠ "") && s.freezeEmptiedBucket k now) = false := by
    cases freezeKey with
    | none => rfl
    | some k => simp [thawed k rfl]
  have bucket : b.account.bucket = some p.bucket := by simp [Book.account, held]
  have at_ := follows.bucket
  rw [bucket] at at_
  obtain ⟨h, is, reads⟩ := at_.hget
  have credited := (follows.credit (fin cost) (fin maxTokens) bucket).bucket
  simp only [Action.apply, bucket, Option.map_some] at credited
  obtain ⟨h', is', reads'⟩ := credited.hget
  have run : ((BucketCall.refundTokens (fin cost) (fin maxTokens) freezeKey).exec key now s).2 =
      Dianemo.creditTokens s key (fin cost) (fin maxTokens) freezeKey now := rfl
  rw [run, Dianemo.creditTokens, if_neg (not_not.mpr usable), open_, if_neg Bool.false_ne_true, reads, is.tokens]
  simp only [parseFiniteStored_num]
  rw [reads', is'.tokens]
  simp only [Purse.bucket, Level.state, orElse_fin, add_fin, min_fin]

/-- The bucket is below the gauge by what the claim took of it, less the refill the gauge has since discarded. -/
structure Lent (owed : ℚ) (p : Purse) (b : Book) (g : Gauge ℚ) : Prop where
  purse : b.purse = some p
  ahead : Ahead owed g p.level.gauge

theorem Lent.step {owed : ℚ} {g h : Gauge ℚ} {q : Purse} {b' : Book} (lent : Lent owed p b g)
    (held : b'.purse = some q) (abreast : Abreast now p q g h) : Lent owed q b' h where
  purse := held
  ahead := by
    rcases abreast.moved with ⟨gauge, same⟩ | ⟨r, amount, -, gauge, taken⟩
    · rw [gauge, same]
      exact lent.ahead
    · rw [gauge, taken]
      exact (lent.ahead.advance r.rule now).take amount

/-- A refund gives back what the claim took, short of what refill has made good of it since: it leaves
the bucket above one the claim was never made on by the refill that one has discarded since, as far as the
claim and the ceiling go. -/
theorem refund_exact {r : Rate} {s : State} {cost maxTokens : ℚ} {mark : Option ClaimMark}
    {freezeKey : Option String} (live : BucketAt s key t (some p.bucket))
    (admitted : ((BucketCall.acquireTokens (fin cost) r.config mark).exec key t s).1.admitted = true)
    {history : List (ℚ × Spend)}
    (valid : (spendRuns key ∅).Valid t (.claim key t s p.level.gauge r cost mark 0) history)
    (later : (spendRuns key ∅).clock t history ≤ now)
    (lasts : ((spendRuns key ∅).final (.claim key t s p.level.gauge r cost mark 0) history).store.Lasts key now)
    (thawed : ∀ k ∈ freezeKey,
      ((spendRuns key ∅).final (.claim key t s p.level.gauge r cost mark 0) history).store.freezeEmptiedBucket k now = false) :
    ((BucketCall.refundTokens (fin cost) (fin maxTokens) freezeKey).exec key now
        ((spendRuns key ∅).final (.claim key t s p.level.gauge r cost mark 0) history).store).2.hget key "tokens" now =
      some (.num (fin (Min.min maxTokens
        (((spendRuns key ∅).final (.claim key t s p.level.gauge r cost mark 0) history).gauge.level +
          Min.min cost (((spendRuns key ∅).final (.claim key t s p.level.gauge r cost mark 0) history).gauge.spill -
            (p.level.gauge.advance r.rule t).spill))))) := by
  have start : Follows key ∅ t s (⟨some p, fun _ => none, s.epochs⟩ : Book).account := ⟨live, by simp, le_rfl⟩
  have claimed : 0 ≤ cost ∧ ∃ (b : Book) (q : Purse),
      Follows key ∅ t (Alongside.claim key t s p.level.gauge r cost mark 0).store b.account ∧
      Lent ((p.level.gauge.advance r.rule t).spill + (cost - 0)) q b
        (Alongside.claim key t s p.level.gauge r cost mark 0).gauge := by
    obtain ⟨actions, ⟨a', trail, after⟩, draws⟩ := start.acquireTokens (fin cost) r.config mark
    rw [admitted] at draws
    cases draws with
    | @admitted ttl claim epoch normal made =>
      obtain ⟨fits, rfl⟩ := trail.of_single
      have acted := Book.act_account (r := r) (by exact rfl) fits
      rw [acted] at after
      obtain ⟨-, free, -⟩ := spend_fits fits
      refine ⟨free, ?_⟩
      cases claim with
      | none => exact ⟨_, _, after, rfl, Ahead.of_take (p.level.gauge.advance r.rule t) free⟩
      | some claim => exact ⟨_, _, after, rfl, Ahead.of_take (p.level.gauge.advance r.rule t) free⟩
  obtain ⟨free, b₀, q₀, made, lent⟩ := claimed
  generalize is_owed : (p.level.gauge.advance r.rule t).spill + (cost - 0) = owed at lent
  obtain ⟨b, q, follows, lent⟩ := valid.invariant
    (I := fun t a => ∃ b q, Follows key ∅ t a.store (Book.account b) ∧ Lent owed q b a.gauge)
    (by
      rintro t now spend a later allowed ⟨b, q, follows, lent⟩
      obtain ⟨b', q', follows', held, -, abreast⟩ := spend_step later allowed follows lent.purse
      exact ⟨b', q', follows', lent.step held abreast⟩)
    ⟨b₀, q₀, made, lent⟩
  generalize (spendRuns key ∅).final (.claim key t s p.level.gauge r cost mark 0) history = a at *
  have there := follows.later later
  rw [b.asOf_account now] at there
  rw [there.refunded ((follows.lasting lasts).trans lent.purse) free thawed]
  have gap := lent.ahead.gap
  have given : q.level.gauge.level + cost =
      a.gauge.level + Min.min cost (a.gauge.spill - (p.level.gauge.advance r.rule t).spill) := by
    rcases le_total cost (a.gauge.spill - (p.level.gauge.advance r.rule t).spill) with all | part
    · rw [max_eq_left (by linarith)] at gap
      rw [min_eq_left all]
      linarith
    · rw [max_eq_right (by linarith)] at gap
      rw [min_eq_right part]
      linarith
  rw [given]

end Spends

deriving instance DecidableEq for SettleResult

/-- A claim of four that comes to seven, with two others in between under two configurations. -/
def exactSpends : List (ℚ × Spend) := [(500, .acquireTokens 2 fivePerSecond), (1500, .acquireTokens 1 tenPerDay)]

abbrev exactClaim (amount : ℚ) : Alongside :=
  .claim "bucket" 0 tappedBilling.store tapped.level.gauge fivePerSecond 4 (some ⟨"claim", 60⟩) amount

theorem late_debit_exact_forgiven :
    ((BucketCall.settleTokens [⟨"bucket", "claim", fin 7, fivePerSecond.config, 6⟩]).exec "bucket" 2100
        ((spendRuns "bucket" {"claim"}).final (exactClaim 7) exactSpends).store).2.hget "bucket" "tokens" 2100 =
      some (.num (fin (((spendRuns "bucket" {"claim"}).final (exactClaim 7) exactSpends).gauge.advance fivePerSecond.rule
        2100).level)) := by
  have valid : (spendRuns "bucket" {"claim"}).Valid 0 (exactClaim 7) exactSpends :=
    Timed.Machine.valid_cons.mpr ⟨by norm_num, ⟨by decide +kernel, trivial, by norm_num⟩,
      Timed.Machine.valid_cons.mpr ⟨by norm_num, ⟨by decide +kernel, trivial, by norm_num⟩, Timed.Machine.valid_nil⟩⟩
  have admitted : ((BucketCall.acquireTokens (fin 4) fivePerSecond.config (some ⟨"claim", 60⟩)).exec "bucket" 0
      tappedBilling.store).1.admitted = true := by
    decide +kernel
  have settled : ((BucketCall.settleTokens [⟨"bucket", "claim", fin 7, fivePerSecond.config, 6⟩]).exec "bucket" 2100
      ((spendRuns "bucket" {"claim"}).final (exactClaim 7) exactSpends).store).1.settled =
        [⟨"bucket", true, 1, 0⟩] := by
    decide +kernel
  have lasts : ((spendRuns "bucket" {"claim"}).final (exactClaim 7) exactSpends).store.Lasts "bucket" 2100 := by
    decide +kernel
  have later : (spendRuns "bucket" {"claim"}).clock 0 exactSpends ≤ 2100 := by decide +kernel
  have more : (4 : ℚ) ≤ 7 := by norm_num
  exact late_debit_exact tapped_at.1 (tapped_at.2 "claim") admitted more valid later lasts settled

/-- The same claim given back once the bucket has been full. -/
def refundSpends : List (ℚ × Spend) :=
  [(500, .acquireTokens 2 fivePerSecond), (2100, .acquireTokens 3 fivePerSecond)]

/-- The bucket then holds ten, three more than it would had nothing been claimed. -/
theorem refund_exact_minted :
    ((BucketCall.refundTokens (fin 4) (fin 10) none).exec "bucket" 2100
        ((spendRuns "bucket" ∅).final (exactClaim 0) refundSpends).store).2.hget "bucket" "tokens" 2100 =
          some (.num (fin 10)) ∧
      ((spendRuns "bucket" ∅).final (exactClaim 0) refundSpends).gauge.level = 7 := by
  have valid : (spendRuns "bucket" ∅).Valid 0 (exactClaim 0) refundSpends :=
    Timed.Machine.valid_cons.mpr ⟨by norm_num, ⟨by decide +kernel, trivial, by norm_num⟩,
      Timed.Machine.valid_cons.mpr ⟨by norm_num, ⟨by decide +kernel, trivial, by norm_num⟩, Timed.Machine.valid_nil⟩⟩
  have admitted : ((BucketCall.acquireTokens (fin 4) fivePerSecond.config (some ⟨"claim", 60⟩)).exec "bucket" 0
      tappedBilling.store).1.admitted = true := by
    decide +kernel
  have lasts : ((spendRuns "bucket" ∅).final (exactClaim 0) refundSpends).store.Lasts "bucket" 2100 := by
    decide +kernel
  have later : (spendRuns "bucket" ∅).clock 0 refundSpends ≤ 2100 := by decide +kernel
  have thawed : ∀ k ∈ (none : Option String),
      ((spendRuns "bucket" ∅).final (exactClaim 0) refundSpends).store.freezeEmptiedBucket k 2100 = false := by simp
  refine ⟨(refund_exact tapped_at.1 admitted valid later lasts thawed).trans ?_, ?_⟩
  · decide +kernel
  · decide +kernel

end Dianemo
