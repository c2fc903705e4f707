import Dianemo.Expiry
import Dianemo.Library.Arrears

namespace Dianemo

open JsNumber Meter

instance (s : State) (key : String) (now : ℚ) : Decidable (s.Lasts key now) :=
  inferInstanceAs (Decidable (∀ e ∈ s.store key, e.expired now = false))

/-- A run of the backend, beside the bucket as it would be had every claim been taken at what
it came to. -/
structure Billing where
  store : State
  ideal : Gauge ℚ
  /-- What settlements have reported as unapplied. -/
  unapplied : ℚ
  /-- The claims made and not settled. -/
  outstanding : List String

/-- What a draw takes once it is known what its claim came to. -/
def Draw.billed (actual : String → ℚ) (d : Draw) : ℚ := d.mark.elim d.cost.toRat fun mark => actual mark.id

/-- What the call takes of the bucket once it is known what its claims came to. -/
def BucketCall.billed (actual : String → ℚ) (key : String) (now : ℚ) (s : State) (call : BucketCall) : ℚ :=
  if (call.exec key now s).1.admitted then ((call.draws key).map (Draw.billed actual)).sum else 0

/-- What the call's settlements report as unapplied. -/
def BucketCall.unapplied (key : String) (now : ℚ) (s : State) (call : BucketCall) : ℚ :=
  (((call.exec key now s).1.settled.filter fun result => decide (result.key = key)).map fun result =>
    result.unapplied.toRat).sum

/-- The claims the call makes. -/
def BucketCall.claims (key : String) (now : ℚ) (s : State) (call : BucketCall) : List String :=
  if (call.exec key now s).1.admitted then (call.draws key).filterMap fun d => d.mark.map ClaimMark.id else []

/-- Claims that come to no less than they take, settled at what they come to, and calls that read. -/
def BucketCall.Bills (r : Rate) (actual : String → ℚ) (key : String) (call : BucketCall) : Prop :=
  call.Under r key ∧ (∀ d ∈ call.draws key, ∀ mark ∈ d.mark, d.cost.toRat ≤ actual mark.id) ∧
    (∀ spec ∈ call.settles key, spec.actual = fin (actual spec.markId)) ∧
    match call with
    | .refundTokens _ _ _ => False
    | .releaseMultiLimit _ => False
    | .emptyTokenBucket _ => False
    | .resetTokenBucket _ => False
    | .del _ => False
    | _ => True

/-- Runs in which neither the bucket nor the mark of an outstanding claim lapses, and no claim is made under such a mark. -/
def billedRuns (r : Rate) (actual : String → ℚ) (key : String) : Timed.Machine ℚ Billing BucketCall where
  step now call b :=
    { store := (call.exec key now b.store).2
      ideal := (b.ideal.advance r.rule now).take (call.billed actual key now b.store)
      unapplied := b.unapplied + call.unapplied key now b.store
      outstanding := (b.outstanding ++ call.claims key now b.store).filter
        fun id => decide (id ∉ (call.settles key).map SettleSpec.markId) }
  allowed now call b := b.store.Lasts key now ∧ (∀ id ∈ b.outstanding, b.store.Lasts (claimMarkKey key id) now) ∧
    call.Bills r actual key ∧ call.Apart key Set.univ now b.store ∧
    ∀ d ∈ call.draws key, ∀ mark ∈ d.mark, mark.id ∉ b.outstanding

/-- The debt stands for the claim the note was made for. -/
structure Note.Backs (n : Note) (p : Purse) (spill actual : ℚ) (d : Debt ℚ) : Prop where
  free : 0 ≤ n.claimed
  owed : d.owed = actual - n.claimed
  nonneg : 0 ≤ d.owed
  credit : spill - p.forgiven - (n.overflow - n.forgiven) ≤ d.credit
  epoch : p.epoch = some n.epoch
  generation : p.generation = n.generation
  overflow : n.overflow ≤ p.level.gauge.spill
  fills : n.fills ≤ p.level.fills

/-- The bucket is behind the ideal one by what its outstanding claims have yet to be settled for. -/
structure Billed (r : Rate) (actual : String → ℚ) (now : ℚ) (b : Book) (ideal : Gauge ℚ) (unapplied : ℚ) (p : Purse)
    (debts : List (String × Debt ℚ)) : Prop where
  purse : b.purse = some p
  behind : Behind (debts.map Prod.snd) unapplied (p.level.gauge.advance r.rule now) (ideal.advance r.rule now)
  single : (debts.map Prod.fst).Nodup
  noted : ∀ id n, b.notes id = some n →
    ∃ d, (id, d) ∈ debts ∧ n.Backs p (p.level.gauge.advance r.rule now).spill (actual id) d
  owing : ∀ id ∈ debts.map Prod.fst, (b.notes id).isSome = true

section Bills

variable {r : Rate} {actual : String → ℚ} {now t : ℚ} {b b' : Book} {ideal : Gauge ℚ} {unapplied : ℚ} {p : Purse}
  {debts : List (String × Debt ℚ)}

theorem Book.level_of_purse (held : b.purse = some p) (r : Rate) (now : ℚ) :
    b.level r now = p.level.refill r now := by
  rw [Book.level, held, Option.elim_some]

theorem Billed.level (billed : Billed r actual now b ideal unapplied p debts) :
    b.level r now = p.level.refill r now :=
  Book.level_of_purse billed.purse r now

/-- Time passes, and what the ceiling cuts off is to the credit of every debt. -/
theorem Billed.later (billed : Billed r actual t b ideal unapplied p debts) (order : t ≤ now)
    (purse : b'.purse = b.purse)
    (notes : b'.notes = b.notes) : ∃ debts', Billed r actual now b' ideal unapplied p debts' := by
  have gain := r.tokensToAdd_pos.le
  have twice : ∀ g : Gauge ℚ, (g.advance r.rule t).advance r.rule now = g.advance r.rule now :=
    fun g => Gauge.advance_advance gain order g
  have behind := billed.behind.advance r.rule now
  rw [twice, twice] at behind
  generalize more : (p.level.gauge.advance r.rule now).spill -
    (p.level.gauge.advance r.rule t).spill = spilt at behind
  refine ⟨debts.map (Prod.map id (Debt.after spilt)), purse.trans billed.purse, ?_, ?_, ?_, ?_⟩
  · simpa only [List.map_map, Function.comp_def, Prod.map_snd] using behind
  · simpa [Function.comp_def] using billed.single
  · intro id n found
    rw [notes] at found
    obtain ⟨d, member, backs⟩ := billed.noted id n found
    refine ⟨d.after spilt, List.mem_map.mpr ⟨(id, d), member, rfl⟩, ?_⟩
    refine ⟨backs.free, backs.owed, backs.nonneg, ?_, backs.epoch, backs.generation, backs.overflow, backs.fills⟩
    have credit := backs.credit
    simp only [Debt.after]
    linarith
  · intro id member
    rw [notes]
    exact billed.owing id (by simpa [Function.comp_def] using member)

/-- What a note backs, it backs in a bucket that has gone on. -/
theorem Note.Backs.go {n : Note} {q : Purse} {spill actual : ℚ} {d : Debt ℚ} (backs : n.Backs p spill actual d)
    (spilt : p.level.gauge.spill ≤ q.level.gauge.spill) (fills : p.level.fills ≤ q.level.fills)
    (epoch : p.epoch.isSome = true → q.epoch = p.epoch) (generation : q.generation = p.generation)
    {e : Debt ℚ} {spill' : ℚ}
    (owed : e.owed = d.owed) (credit : spill' - q.forgiven - (spill - p.forgiven) ≤ e.credit - d.credit) :
    n.Backs q spill' actual e where
  free := backs.free
  owed := owed.trans backs.owed
  nonneg := owed ▸ backs.nonneg
  credit := by
    have before := backs.credit
    linarith
  epoch := (epoch (by rw [backs.epoch]; rfl)).trans backs.epoch
  generation := generation.trans backs.generation
  overflow := backs.overflow.trans spilt
  fills := backs.fills.trans fills

/-- The bucket and the ideal one take the same. -/
theorem Billed.take (billed : Billed r actual now b ideal unapplied p debts) {amount : ℚ}
    (nonneg : 0 ≤ amount) {q : Purse}
    (purse : b'.purse = some q) (gauge : q.level.gauge = (p.level.gauge.advance r.rule now).take amount)
    (fills : p.level.fills ≤ q.level.fills) (epoch : p.epoch.isSome = true → q.epoch = p.epoch)
    (generation : q.generation = p.generation) (forgiven : q.forgiven = p.forgiven) (notes : b'.notes = b.notes) :
    Billed r actual now b' ((ideal.advance r.rule now).take amount) unapplied q debts := by
  have gain := r.tokensToAdd_pos.le
  have real : q.level.gauge.advance r.rule now = q.level.gauge := by
    rw [gauge]
    exact Gauge.advance_taken gain nonneg _
  have spill : q.level.gauge.spill = (p.level.gauge.advance r.rule now).spill := by
    rw [gauge]
    rfl
  refine ⟨purse, ?_, billed.single, ?_, ?_⟩
  · rw [real, gauge, Gauge.advance_taken gain nonneg]
    exact billed.behind.take amount
  · intro id n found
    rw [notes] at found
    obtain ⟨d, member, backs⟩ := billed.noted id n found
    refine ⟨d, member, ?_⟩
    rw [real, spill]
    refine backs.go ?_ fills epoch generation rfl ?_
    · rw [spill]
      exact Gauge.spill_le_advance
    · rw [forgiven]
      linarith
  · intro id member
    rw [notes]
    exact billed.owing id member

/-- A claim: the ideal bucket takes what it will come to. -/
theorem Billed.claim (billed : Billed r actual now b ideal unapplied p debts) {id : String}
    (fresh : b.notes id = none) {n : Note}
    (nonneg : 0 ≤ n.claimed) (more : n.claimed ≤ actual id) {q : Purse} (purse : b'.purse = some q)
    (gauge : q.level.gauge = (p.level.gauge.advance r.rule now).take n.claimed)
    (fills : p.level.fills ≤ q.level.fills)
    (epoch : p.epoch.isSome = true → q.epoch = p.epoch) (generation : q.generation = p.generation)
    (forgiven : q.forgiven = p.forgiven)
    (notes : b'.notes = Function.update b.notes id (some n))
    (overflow : n.overflow = (p.level.gauge.advance r.rule now).spill)
    (noted : n.forgiven = p.forgiven ∧ n.generation = p.generation ∧ q.epoch = some n.epoch ∧
      n.fills ≤ q.level.fills) :
    Billed r actual now b' ((ideal.advance r.rule now).take (actual id)) unapplied q
      (debts ++ [(id, ⟨actual id - n.claimed, 0⟩)]) := by
  have gain := r.tokensToAdd_pos.le
  have real : q.level.gauge.advance r.rule now = q.level.gauge := by
    rw [gauge]
    exact Gauge.advance_taken gain nonneg _
  have spill : q.level.gauge.spill = (p.level.gauge.advance r.rule now).spill := by
    rw [gauge]
    rfl
  have unknown : id ∉ debts.map Prod.fst := by
    intro member
    have there := billed.owing id member
    rw [fresh] at there
    cases there
  refine ⟨purse, ?_, ?_, ?_, ?_⟩
  · rw [real, gauge, Gauge.advance_taken gain (nonneg.trans more), List.map_append]
    have incurred := billed.behind.incur n.claimed (actual id - n.claimed)
    rw [add_sub_cancel] at incurred
    exact incurred
  · rw [List.map_append, List.nodup_append]
    refine ⟨billed.single, List.nodup_singleton _, ?_⟩
    intro other member last there same
    cases List.mem_singleton.mp there
    have again : other = id := same
    exact unknown (again ▸ member)
  · intro other m found
    rw [real, spill]
    rw [notes] at found
    by_cases same : other = id
    · subst same
      rw [Function.update_self] at found
      cases found
      refine ⟨_, List.mem_append_right _ (List.mem_singleton_self _), nonneg, rfl, sub_nonneg.mpr more, ?_,
        noted.2.2.1, ?_, ?_, noted.2.2.2⟩
      · rw [forgiven, overflow, noted.1]
        simp
      · rw [generation, noted.2.1]
      · rw [overflow, spill]
    · rw [Function.update_of_ne same] at found
      obtain ⟨d, member, backs⟩ := billed.noted other m found
      refine ⟨d, List.mem_append_left _ member, ?_⟩
      refine backs.go ?_ fills epoch generation rfl ?_
      · rw [spill]
        exact Gauge.spill_le_advance
      · rw [forgiven]
        linarith
  · intro other member
    rw [notes]
    by_cases same : other = id
    · subst same
      rw [Function.update_self]
      rfl
    · rw [Function.update_of_ne same]
      rw [List.map_append] at member
      refine billed.owing other ((List.mem_append.mp member).resolve_right ?_)
      simpa using same

/-- What the settlement of a claim that came to no less than it took comes to. -/
theorem Note.Backs.correction {n : Note} {d : Debt ℚ} {actual : ℚ}
    (backs : n.Backs p (p.level.gauge.advance r.rule now).spill actual d)
    (credit : 0 ≤ d.credit) (debt : ℚ) : ∃ used, used ≤ d.owed ∧ used ≤ d.credit ∧ 0 ≤ used ∧
      0 ≤ (Dianemo.correction r p (p.level.refill r now) n actual debt).applied ∧
      0 ≤ (Dianemo.correction r p (p.level.refill r now) n actual debt).unapplied ∧
      (Dianemo.correction r p (p.level.refill r now) n actual debt).applied +
        (Dianemo.correction r p (p.level.refill r now) n actual debt).unapplied = d.owed - used ∧
      (Dianemo.correction r p (p.level.refill r now) n actual debt).forgiven = p.forgiven + used := by
  have owes := backs.nonneg
  have slack := backs.credit
  rw [backs.owed] at owes ⊢
  have here : ¬ n.Gone p (p.level.refill r now) := by
    rintro (epoch | generation | overflow | fills)
    · exact epoch backs.epoch
    · exact generation backs.generation
    · have spilt : p.level.gauge.spill ≤ (p.level.refill r now).gauge.spill := Gauge.spill_le_advance
      exact absurd overflow (not_lt.mpr (backs.overflow.trans spilt))
    · exact absurd fills (not_lt.mpr (backs.fills.trans (p.level.fills_le_refill r now)))
  rcases correction_cases r p (p.level.refill r now) n actual debt with
    ⟨gone, -⟩ | ⟨-, -, used, is_used, same⟩ | ⟨-, refunds, -, -⟩ | ⟨-, free, same⟩
  · exact absurd gone here
  · rw [same]
    have most : used ≤ actual - n.claimed := by
      rw [is_used]
      exact min_le_left _ _
    have excused : used ≤ d.credit := by
      rw [is_used]
      refine (min_le_right _ _).trans (max_le credit ?_)
      have spill : (p.level.refill r now).gauge.spill = (p.level.gauge.advance r.rule now).spill := rfl
      rw [spill]
      linarith
    have nonneg : 0 ≤ used := by
      rw [is_used]
      exact le_min owes (le_max_left _ _)
    have left := min_le_left (actual - n.claimed - used) (Max.max 0 ((p.level.refill r now).gauge.level + debt))
    refine ⟨used, most, excused, nonneg, le_min (by linarith) (le_max_left _ _), ?_, ?_, rfl⟩
    · simp only
      linarith
    · simp only
      ring
  · exact absurd refunds (not_lt.mpr owes)
  · rw [same]
    exact ⟨0, owes, credit, le_rfl, le_rfl, le_rfl, by simp only; linarith, (add_zero _).symm⟩

/-- A settlement of an outstanding claim. -/
theorem Billed.settle (billed : Billed r actual now b ideal unapplied p debts) {id : String} {n : Note}
    (found : b.notes id = some n) (debt : ℚ) {q : Purse} (purse : b'.purse = some q)
    (level : q.level = (p.level.refill r now).spend (correction r p (p.level.refill r now) n (actual id) debt).applied)
    (epoch : q.epoch = p.epoch) (generation : q.generation = p.generation)
    (forgiven : q.forgiven = (correction r p (p.level.refill r now) n (actual id) debt).forgiven)
    (notes : b'.notes = Function.update b.notes id none) :
    ∃ debts', Billed r actual now b' ideal
      (unapplied + (correction r p (p.level.refill r now) n (actual id) debt).unapplied) q debts' := by
  have gain := r.tokensToAdd_pos.le
  obtain ⟨d, member, backs⟩ := billed.noted id n found
  have credit : 0 ≤ d.credit := billed.behind.aged.credit d (List.mem_map.mpr ⟨(id, d), member, rfl⟩)
  obtain ⟨used, owed, excused, nonneg, applied, unpaid, whole, forgave⟩ := backs.correction credit debt
  rw [forgave] at forgiven
  generalize (correction r p (p.level.refill r now) n (actual id) debt) = c at level applied unpaid whole ⊢
  have gauge : q.level.gauge = (p.level.gauge.advance r.rule now).take c.applied := by
    rw [level]
    rfl
  have real : q.level.gauge.advance r.rule now = q.level.gauge := by
    rw [gauge]
    exact Gauge.advance_taken gain applied _
  have spill : q.level.gauge.spill = (p.level.gauge.advance r.rule now).spill := by
    rw [gauge]
    rfl
  have fills : p.level.fills ≤ q.level.fills := by
    rw [level]
    exact p.level.fills_le_refill r now
  obtain ⟨early, late, rfl⟩ := List.append_of_mem member
  have behind := billed.behind
  have single := billed.single
  simp only [List.map_append, List.map_cons] at behind single
  have order := (List.pairwise_append.mp behind.aged.order).2.1
  refine ⟨early.map (Prod.map (fun id => id) (Debt.after (-used))) ++
    late.map (Prod.map (fun id => id) (Debt.capped (d.credit - used))), purse, ?_, ?_, ?_, ?_⟩
  · rw [real, gauge]
    have settled := behind.settle owed excused whole unpaid
    simpa [Function.comp_def] using settled
  · have fewer : (early.map Prod.fst ++ late.map Prod.fst).Nodup :=
      single.sublist ((List.Sublist.refl _).append (List.sublist_cons_self _ _))
    simpa [Function.comp_def] using fewer
  · intro other m held
    rw [notes] at held
    obtain ⟨apart, held⟩ := noted_of_consumed held
    obtain ⟨e, inside, others⟩ := billed.noted other m held
    have ahead : (p.level.gauge.spill : ℚ) ≤ q.level.gauge.spill := by
      rw [spill]
      exact Gauge.spill_le_advance
    have stays : p.epoch.isSome = true → q.epoch = p.epoch := fun _ => epoch
    rw [real, spill]
    rcases List.mem_append.mp inside with before | behind
    · refine ⟨e.after (-used), List.mem_append_left _ (List.mem_map.mpr ⟨(other, e), before, rfl⟩), ?_⟩
      refine others.go ahead fills stays generation rfl ?_
      simp only [Debt.after, forgiven]
      linarith
    · have later : (other, e) ∈ late := by
        refine (List.mem_cons.mp behind).resolve_left ?_
        intro same
        exact apart (congrArg Prod.fst same)
      refine ⟨e.capped (d.credit - used), List.mem_append_right _ (List.mem_map.mpr ⟨(other, e), later, rfl⟩), ?_⟩
      refine ⟨others.free, others.owed, others.nonneg, le_min ?_ ?_,
        (stays (by rw [others.epoch]; rfl)).trans others.epoch,
        generation.trans others.generation, others.overflow.trans ahead, others.fills.trans fills⟩
      · have held := others.credit
        rw [forgiven]
        linarith
      · have held := others.credit
        have older : e.credit ≤ d.credit :=
          (List.pairwise_cons.mp order).1 e (List.mem_map.mpr ⟨(other, e), later, rfl⟩)
        rw [forgiven]
        linarith
  · intro other inside
    have there : other ∈ early.map Prod.fst ∨ other ∈ late.map Prod.fst := by simpa [Function.comp_def] using inside
    have apart : other ≠ id := by
      obtain ⟨-, rest, across⟩ := List.nodup_append.mp single
      rcases there with before | behind
      · exact across other before id List.mem_cons_self
      · rintro rfl
        exact (List.nodup_cons.mp rest).1 behind
    rw [notes, Function.update_of_ne apart]
    refine billed.owing other ?_
    simp only [List.map_append, List.map_cons]
    rcases there with before | behind
    · exact List.mem_append_left _ before
    · exact List.mem_append_right _ (List.mem_cons_of_mem _ behind)

/-- A call that leaves the bucket alone finds the ideal one where it was. -/
theorem Billed.rest (billed : Billed r actual now b ideal unapplied p debts) :
    Billed r actual now b ((ideal.advance r.rule now).take 0) unapplied p debts := by
  refine ⟨billed.purse, ?_, billed.single, billed.noted, billed.owing⟩
  rw [Gauge.advance_taken r.tokensToAdd_pos.le le_rfl]
  simpa [Gauge.take] using billed.behind

theorem Book.prolong_isSome {id other : String} {ttl : ℚ} :
    ((b.act r now (.prolong id ttl)).notes other).isSome = (b.notes other).isSome := by
  by_cases same : other = id
  · subst same
    simp only [Book.act, Function.update_self, Option.isSome_map]
  · simp only [Book.act, Function.update_of_ne same]

/-- A mark that is touched keeps what it says. -/
theorem Billed.prolong (billed : Billed r actual now b ideal unapplied p debts) {id : String} {ttl : ℚ} :
    Billed r actual now (b.act r now (.prolong id ttl)) ideal unapplied p debts := by
  refine ⟨billed.purse, billed.behind, billed.single, ?_,
    fun other member => Book.prolong_isSome.trans (billed.owing other member)⟩
  intro other n found
  by_cases same : other = id
  · subst same
    simp only [Book.act, Function.update_self, Option.map_eq_some_iff] at found
    obtain ⟨m, noted, rfl⟩ := found
    obtain ⟨d, member, backs⟩ := billed.noted other m noted
    exact ⟨d, member, backs.free, backs.owed, backs.nonneg, backs.credit, backs.epoch, backs.generation,
      backs.overflow, backs.fills⟩
  · simp only [Book.act, Function.update_of_ne same] at found
    exact billed.noted other n found

theorem claimMark_none {mark : Option ClaimMark} (made : claimMark mark = .ok none) : mark = none := by
  cases mark with
  | none => rfl
  | some mark =>
    simp only [claimMark] at made
    cases ttl : normalizeStateTtlSeconds mark.ttlSeconds with
    | error e => simp [ttl, Except.map] at made
    | ok t => simp [ttl, Except.map] at made

/-- A claim, whatever it comes to. -/
theorem Billed.draw (billed : Billed r actual now b ideal unapplied p debts) {d : Draw}
    {admitted : Bool} {actions : List Action}
    {a' : Account} (draws : Draws d admitted actions) (config : d.config = r.config)
    (more : ∀ mark ∈ d.mark, d.cost.toRat ≤ actual mark.id ∧ b.notes mark.id = none)
    (trail : Trail now b.account actions a') : ∃ b' q debts', a' = b'.account ∧
      (∀ id, (b'.notes id).isSome = true → (b.notes id).isSome = true ∨ admitted = true ∧
        ∃ mark ∈ d.mark, mark.id = id) ∧
      Billed r actual now b' ((ideal.advance r.rule now).take (if admitted then d.billed actual else 0)) unapplied q debts' := by
  cases draws with
  | untouched => exact ⟨b, p, debts, trail.of_nil, fun id noted => Or.inl noted, billed.rest⟩
  | declined normal =>
    rw [config] at trail
    obtain ⟨fits, rfl⟩ := trail.of_single
    refine ⟨_, _, debts, Book.act_account (r := r) rfl fits, fun id noted => Or.inl noted,
      billed.take le_rfl rfl ?_ ?_ (fun epoch => ?_) ?_ ?_ rfl⟩
    · simp only [billed.level, Gauge.take, sub_zero]
      rfl
    · simp only [billed.level]
      exact p.level.fills_le_refill r now
    · simp [Book.epoch, billed.purse]
    · simp [Book.generation, billed.purse]
    · simp [Book.forgiven, billed.purse]
  | @admitted ttl claim epoch normal made =>
    rw [config] at trail
    obtain ⟨fits, rfl⟩ := trail.of_single
    obtain ⟨-, nonneg, -⟩ := spend_fits fits
    have generation : b.generation = p.generation := by simp [Book.generation, billed.purse]
    have forgiven : b.forgiven = p.forgiven := by simp [Book.forgiven, billed.purse]
    have same : b.epoch = p.epoch := by simp [Book.epoch, billed.purse]
    have fills : p.level.fills ≤ (b.level r now).fills := by
      rw [billed.level]
      exact p.level.fills_le_refill r now
    cases claim with
    | none =>
      have unmarked : d.mark = none := claimMark_none made
      have cost : (if true then d.billed actual else 0) = d.cost.toRat := by simp [Draw.billed, unmarked]
      rw [cost]
      refine ⟨_, _, debts, Book.act_account (r := r) rfl fits, fun id noted => Or.inl noted,
        billed.take nonneg rfl ?_ fills (fun _ => same) generation forgiven rfl⟩
      rw [billed.level]
      rfl
    | some claim =>
      obtain ⟨mark, marked, named⟩ := claimMark_id made (Option.mem_some_self claim)
      obtain ⟨least, fresh⟩ := more mark marked
      have cost : (if true then d.billed actual else 0) = actual claim.1 := by simp [Draw.billed, marked, named]
      rw [named] at least fresh
      rw [cost]
      refine ⟨_, _, _, Book.act_account (r := r) rfl fits, ?_,
        billed.claim fresh nonneg least rfl ?_ fills ?_ generation forgiven
        rfl ?_ ⟨forgiven, generation, rfl, le_rfl⟩⟩
      · intro id noted
        by_cases new : id = claim.1
        · exact Or.inr ⟨rfl, mark, marked, named.trans new.symm⟩
        · refine Or.inl ?_
          have kept : ((b.act r now (.spend r.config d.cost ttl (some claim) epoch)).notes id) = b.notes id :=
            Function.update_of_ne new _ _
          rwa [kept] at noted
      · rw [billed.level]
        rfl
      · intro epoch
        rw [← same, Option.isSome_iff_exists] at epoch
        obtain ⟨k, taken⟩ := epoch
        rw [← same]
        show some ((b.write _ _ _).epoch.getD _) = b.epoch
        have kept : (b.write ((b.level r now).spend d.cost.toRat) (bucketTtl (fin ttl) r.config).toRat now).epoch = b.epoch := rfl
        rw [kept, taken]
        rfl
      · rw [billed.level]
        rfl

/-- The settlements of one call, outstanding or not. -/
theorem Billed.settles {specs : List SettleSpec} (config : ∀ spec ∈ specs, spec.config = r.config)
    (at_ : ∀ spec ∈ specs, spec.actual = fin (actual spec.markId))
    (billed : Billed r actual now b ideal unapplied p debts) :
    ∃ b' q debts', (Account.settleAll now specs b.account).2 = b'.account ∧
      (∀ id, (b'.notes id).isSome = true → (b.notes id).isSome = true ∧ id ∉ specs.map SettleSpec.markId) ∧
      Billed r actual now b' ideal
        (unapplied + ((Account.settleAll now specs b.account).1.map fun result => result.unapplied.toRat).sum) q debts' := by
  induction specs generalizing b unapplied p debts with
  | nil =>
    refine ⟨b, p, debts, rfl, fun id noted => ⟨noted, List.not_mem_nil⟩, ?_⟩
    simpa [Account.settleAll] using billed
  | cons spec rest ih =>
    rw [List.forall_mem_cons] at config at_
    have one : ∃ b' q debts', (b.account.settle spec now).2 = b'.account ∧
        (∀ id, (b'.notes id).isSome = true → (b.notes id).isSome = true ∧ id ≠ spec.markId) ∧
        Billed r actual now b' ideal (unapplied + (b.account.settle spec now).1.unapplied.toRat) q debts' := by
      cases found : b.notes spec.markId with
      | none =>
        have absent : b.account.marks spec.markId = none := by
          rw [show b.account.marks spec.markId = (b.notes spec.markId).map Note.mark from rfl, found]
          rfl
        have same : b.account.settle spec now = (⟨spec.key, false, 0, 0⟩, b.account) := by
          rw [Account.settle, absent]
        rw [same]
        refine ⟨b, p, debts, rfl, fun id noted => ⟨noted, ?_⟩, ?_⟩
        · rintro rfl
          rw [found] at noted
          cases noted
        have zero : (0 : JsNumber).toRat = 0 := rfl
        simp only [zero, add_zero]
        exact billed
      | some n =>
        obtain ⟨d, -, backs⟩ := billed.noted spec.markId n found
        have nonneg : 0 ≤ actual spec.markId := by
          have free := backs.free
          have owes := backs.nonneg
          rw [backs.owed] at owes
          linarith
        have settled := b.settle_account config.1 at_.1 nonneg now
        have reported : b.correctionOf r spec.markId (actual spec.markId) (debtOf spec.maxDebt) now =
            some (correction r p (p.level.refill r now) n (actual spec.markId) (debtOf spec.maxDebt)) := by
          simp only [Book.correctionOf, found, billed.purse, Option.map_some, Option.elim_some]
        rw [reported] at settled
        rw [settled]
        rcases b.settle_cases r spec.markId (actual spec.markId) (debtOf spec.maxDebt) now with
          ⟨absent, -⟩ | ⟨-, -, gone, -⟩ | ⟨m, q, noted, held, same⟩
        · rw [found] at absent
          cases absent
        · rw [billed.purse] at gone
          cases gone
        · cases Option.some.inj (found.symm.trans noted)
          cases Option.some.inj (billed.purse.symm.trans held)
          have after := billed.settle found (debtOf spec.maxDebt) (congrArg Book.purse same) rfl rfl rfl rfl
            (congrArg Book.notes same)
          obtain ⟨debts', after⟩ := after
          refine ⟨_, _, debts', rfl, fun id noted => ?_, after⟩
          rw [congrArg Book.notes same, Option.isSome_iff_exists] at noted
          obtain ⟨other, noted⟩ := noted
          obtain ⟨apart, kept⟩ := noted_of_consumed noted
          exact ⟨Option.isSome_of_mem kept, apart⟩
    obtain ⟨c, q, debts', account, fewer, after⟩ := one
    obtain ⟨b', o, last, accounts, least, done⟩ := ih config.2 at_.2 after
    refine ⟨b', o, last, ?_, ?_, ?_⟩
    · rw [Account.settleAll, account]
      exact accounts
    · intro id noted
      obtain ⟨kept, others⟩ := least id noted
      obtain ⟨first, apart⟩ := fewer id kept
      exact ⟨first, List.not_mem_cons_of_ne_of_not_mem apart others⟩
    · rw [Account.settleAll, List.map_cons, List.sum_cons, ← add_assoc, account]
      exact done

end Bills

section Runs

variable {r : Rate} {actual : String → ℚ} {key : String} {t now : ℚ} {s : Billing}

/-- What the store holds of a bucket that is behind the ideal one. -/
def Billing.Holds (r : Rate) (actual : String → ℚ) (key : String) (now : ℚ) (s : Billing) : Prop :=
  ∃ b p debts, Follows key Set.univ now s.store b.account ∧
    (∀ id, (b.notes id).isSome = true → id ∈ s.outstanding) ∧
    Billed r actual now b s.ideal s.unapplied p debts

theorem Follows.notes_lasting {b : Book} {s : State} (follows : Follows key Set.univ t s b.account)
    (lasts : ∀ id, (b.notes id).isSome = true → s.Lasts (claimMarkKey key id) now) :
    (b.asOf now).notes = b.notes := by
  funext id
  have at_ := follows.marks id trivial
  have marks : b.account.marks id = (b.notes id).map Note.mark := rfl
  rw [marks] at at_
  simp only [Book.asOf]
  cases found : b.notes id with
  | none => rfl
  | some n =>
    rw [found] at at_
    obtain ⟨h, ⟨e, live, -, lapses⟩, -⟩ := at_
    have alive := lasts id (Option.isSome_of_mem found) e (State.live_eq_some.mp live).1
    simp only [Entry.expired, lapses, decide_eq_false_iff_not, not_le] at alive
    rw [Option.filter_some]
    exact if_pos (decide_eq_true alive)

/-- A call that settles nothing reports nothing settled. -/
theorem unapplied_draw {call : BucketCall} (settles : ∀ specs, call ≠ .settleTokens specs) (s : State) :
    call.unapplied key now s = 0 := by
  have silent : (call.exec key now s).1.settled = [] := by
    cases call with
    | settleTokens specs => exact absurd rfl (settles specs)
    | getTokenBucketState config => rfl
    | del keys => rfl
    | elsewhere after => rfl
    | _ =>
      simp only [BucketCall.exec, Report.of]
      split <;> rfl
  rw [BucketCall.unapplied, silent]
  rfl

theorem billed_step {call : BucketCall} (later : t ≤ now) (allowed : (billedRuns r actual key).allowed now call s)
    (holds : s.Holds r actual key t) : ((billedRuns r actual key).step now call s).Holds r actual key now := by
  obtain ⟨b, p, debts, follows, known, billed⟩ := holds
  obtain ⟨lasts, marks, ⟨under, least, settled, kind⟩, apart, fresh⟩ := allowed
  have purse := follows.lasting lasts
  have notes := follows.notes_lasting fun id noted => marks id (known id noted)
  have there := follows.later later
  rw [b.asOf_account now] at there
  obtain ⟨debts, billed⟩ := billed.later later purse notes
  rw [← notes] at known
  have free : ∀ d ∈ call.draws key, ∀ mark ∈ d.mark, d.cost.toRat ≤ actual mark.id ∧
      (b.asOf now).notes mark.id = none := by
    intro d drawn mark marked
    refine ⟨least d drawn mark marked, Option.not_isSome_iff_eq_none.mp ?_⟩
    exact fun noted => fresh d drawn mark marked (known _ noted)
  obtain ⟨actions, ⟨a', trail, after⟩, does⟩ := there.call apart
  have closes : (∃ c q left, a' = c.account ∧
      (∀ id, (c.notes id).isSome = true → id ∈ s.outstanding ++ call.claims key now s.store ∧
        id ∉ (call.settles key).map SettleSpec.markId) ∧
      Billed r actual now c ((s.ideal.advance r.rule now).take (call.billed actual key now s.store))
        (s.unapplied + call.unapplied key now s.store) q left) →
          ((billedRuns r actual key).step now call s).Holds r actual key now := by
    rintro ⟨c, q, left, rfl, stay, done⟩
    exact ⟨c, q, left, after, fun id noted =>
      List.mem_filter.mpr ⟨(stay id noted).1, decide_eq_true (stay id noted).2⟩, done⟩
  have still : ∀ id, ((b.asOf now).notes id).isSome = true → id ∈ s.outstanding ++ call.claims key now s.store :=
    fun id noted => List.mem_append_left _ (known id noted)
  have drawn : ((call.draws key = [] ∧ actions = []) ∨ ∃ d, call.draws key = [d] ∧
      Draws d (call.exec key now s.store).1.admitted actions) →
      (∀ specs, call ≠ .settleTokens specs) → (call.settles key).map SettleSpec.markId = [] →
        (∀ d ∈ call.draws key, d.config = r.config) →
      ((billedRuns r actual key).step now call s).Holds r actual key now := by
    intro claims plain settles configs
    apply closes
    rw [unapplied_draw plain, add_zero, settles]
    rcases claims with ⟨none_, rfl⟩ | ⟨d, one, draws⟩
    · have nothing : call.billed actual key now s.store = 0 := by simp [BucketCall.billed, none_]
      rw [nothing]
      exact ⟨_, p, debts, trail.of_nil, fun id noted => ⟨still id noted, List.not_mem_nil⟩, billed.rest⟩
    · have member : d ∈ call.draws key := by simp [one]
      have taken : call.billed actual key now s.store = if (call.exec key now s.store).1.admitted then
          d.billed actual else 0 := by
        simp [BucketCall.billed, one]
      rw [taken]
      obtain ⟨c, q, left, same, more, done⟩ := billed.draw draws (configs d member) (free d member) trail
      refine ⟨c, q, left, same, ?_, done⟩
      intro id noted
      refine ⟨?_, List.not_mem_nil⟩
      rcases more id noted with before | ⟨admitted, mark, marked, rfl⟩
      · exact still id before
      · refine List.mem_append_right _ ?_
        simp only [BucketCall.claims, admitted, if_true, one, List.mem_filterMap, List.mem_singleton]
        exact ⟨d, rfl, Option.mem_map_of_mem _ marked⟩
  cases call with
  | acquireTokens cost config mark => exact drawn does (by simp) rfl under.1
  | tryAdmitImmediately queueKey freezeKey cost config ttl mark => exact drawn does (by simp) rfl under.1
  | acquireMultiLimit specs => exact drawn does (by simp) rfl under.1
  | tryAdmitMultiLimit queueKey freezeKeys specs ttl => exact drawn does (by simp) rfl under.1
  | getTokenBucketState config => exact drawn (Or.inl ⟨rfl, does⟩) (by simp) rfl under.1
  | elsewhere after => exact drawn (Or.inl ⟨rfl, does⟩) (by simp) rfl under.1
  | settleTokens specs =>
    obtain ⟨rfl, same⟩ := does
    have last := trail.unique (Trail.settleAll now _ _)
    obtain ⟨c, q, left, account, fewer, done⟩ := billed.settles under.2.2 settled
    have nothing : (BucketCall.settleTokens specs).billed actual key now s.store = 0 := by
      simp [BucketCall.billed, BucketCall.draws]
    refine closes ⟨c, q, left, last.trans account,
      fun id noted => ⟨still id (fewer id noted).1, (fewer id noted).2⟩, ?_⟩
    rw [nothing, BucketCall.unapplied, same]
    exact done.rest
  | touchClaimMark id ttlSeconds =>
    apply closes
    have nothing : (BucketCall.touchClaimMark id ttlSeconds).billed actual key now s.store = 0 := by
      simp [BucketCall.billed, BucketCall.draws]
    rw [nothing, unapplied_draw (by simp), add_zero]
    rcases does with rfl | ⟨ttl, rfl⟩
    · exact ⟨_, p, debts, trail.of_nil, fun other noted => ⟨still other noted, List.not_mem_nil⟩, billed.rest⟩
    · obtain ⟨fits, rfl⟩ := trail.of_single
      refine ⟨_, p, debts, Book.act_account (r := r) trivial fits,
        fun other noted => ⟨still other ?_, List.not_mem_nil⟩, billed.prolong.rest⟩
      rwa [Book.prolong_isSome] at noted
  | _ => exact kind.elim

/-- However claims and settlements interleave, once the last is settled the bucket holds no more
than it would have had every claim been taken at once at what it came to, what was reported unapplied apart. -/
theorem settled_never_undercharges {p : Purse} (live : BucketAt s.store key t (some p.bucket))
    (unmarked : ∀ id, s.store.live (claimMarkKey key id) t = none) (ideal : s.ideal = p.level.gauge)
    (none_ : s.unapplied = 0)
    {history : List (ℚ × BucketCall)} (valid : (billedRuns r actual key).Valid t s history)
    (later : (billedRuns r actual key).clock t history ≤ now)
    (lasts : ((billedRuns r actual key).final s history).store.Lasts key now)
    (settled : ((billedRuns r actual key).final s history).outstanding = []) :
    (getTokenBucketState ((billedRuns r actual key).final s history).store key r.config now).1 ≤
      fin ((((billedRuns r actual key).final s history).ideal.advance r.rule now).level +
        ((billedRuns r actual key).final s history).unapplied) := by
  have start : s.Holds r actual key t := by
    refine ⟨⟨some p, fun _ => none, s.store.epochs⟩, p, [], ⟨live, fun id _ => unmarked id, le_rfl⟩, ?_,
      rfl, ?_, List.nodup_nil, ?_, ?_⟩
    · intro id noted
      cases noted
    · rw [ideal, none_]
      exact ⟨rfl, Aged.nil, le_rfl, by simp [arrears]⟩
    · intro id n found
      cases found
    · intro id member
      cases member
  obtain ⟨b, q, debts, follows, known, billed⟩ := valid.invariant (I := fun t s => s.Holds r actual key t)
    (fun t now call s later allowed holds => billed_step later allowed holds) start
  have done : ∀ id, (b.notes id).isSome = false := by
    intro id
    refine Bool.not_eq_true _ ▸ fun noted => ?_
    have outstanding := known id noted
    rw [settled] at outstanding
    cases outstanding
  have there := follows.later later
  rw [b.asOf_account now] at there
  have notes : (b.asOf now).notes = b.notes :=
    follows.notes_lasting fun id noted => absurd noted (Bool.eq_false_iff.mp (done id))
  obtain ⟨debts, billed⟩ := billed.later later (follows.lasting lasts) notes
  have cleared : debts = [] := by
    refine List.eq_nil_iff_forall_not_mem.mpr ?_
    intro debt member
    have outstanding := billed.owing debt.1 (List.mem_map_of_mem member)
    rw [notes, done] at outstanding
    cases outstanding
  have behind := billed.behind
  rw [cleared] at behind
  have level : (b.asOf now).level r now = q.level.refill r now := billed.level
  have balance : (getTokenBucketState ((billedRuns r actual key).final s history).store key r.config now).1 =
      fin (q.level.gauge.advance r.rule now).level := by
    rw [getTokenBucketState, there.level, level]
    rfl
  rw [balance, fin_le_fin]
  exact behind.clear

end Runs

/-- What the two claims come to. -/
def comesTo (id : String) : ℚ := if id = "early" then 6 else 3

/-- A bucket of ten tokens that one has been taken from. -/
def tapped : Purse := ⟨⟨⟨9, 0, 0⟩, 0⟩, 0, 0, none, 86400000⟩

def tappedBilling : Billing :=
  ⟨((BucketCall.acquireTokens 1 fivePerSecond.config none).exec "bucket" 0 State.fresh).2,
    tapped.level.gauge, 0, []⟩

theorem tapped_at : BucketAt tappedBilling.store "bucket" 0 (some tapped.bucket) ∧
    ∀ id, tappedBilling.store.live (claimMarkKey "bucket" id) 0 = none := by
  have blank : Follows "bucket" Set.univ 0 State.fresh (Book.blank 0).account := Follows.absent rfl fun _ _ => rfl
  obtain ⟨actions, ⟨a', trail, after⟩, draws⟩ := blank.acquireTokens 1 fivePerSecond.config none
  have admitted : ((BucketCall.acquireTokens 1 fivePerSecond.config none).exec "bucket" 0 State.fresh).1.admitted = true := by
    decide +kernel
  rw [admitted] at draws
  cases draws with
  | @admitted ttl claim epoch normal made =>
    cases (normalizeStateTtlSeconds_day.symm.trans normal)
    cases made
    obtain ⟨fits, rfl⟩ := trail.of_single
    have uses : Action.Uses fivePerSecond (.spend fivePerSecond.config 1 86400 none epoch) := rfl
    rw [Book.act_account uses fits] at after
    have purse : ((Book.blank 0).act fivePerSecond 0 (.spend fivePerSecond.config 1 86400 none epoch)).purse = some tapped := by
      have level : (Book.blank 0).level fivePerSecond 0 = Level.full fivePerSecond 0 := rfl
      have spent : (Level.full fivePerSecond 0).spend (1 : JsNumber).toRat = tapped.level := by
        simp only [Level.full, Level.spend, tapped, Level.mk.injEq, Gauge.mk.injEq]
        decide +kernel
      have lapses : (0 : ℚ) + (bucketTtl (fin 86400) fivePerSecond.config).toRat * 1000 = tapped.expiresAt := by
        decide +kernel
      simp only [Book.act, Book.spend, Book.write, level, spent, lapses]
      rfl
    refine ⟨?_, fun id => after.marks id trivial⟩
    have at_ := after.bucket
    rwa [Book.account, purse] at at_

/-- Two claims, the later one settled first. -/
def lateSettlements : List (ℚ × BucketCall) :=
  [(0, .acquireTokens 4 fivePerSecond.config (some ⟨"early", 60⟩)),
    (500, .acquireTokens 2 fivePerSecond.config (some ⟨"late", 60⟩)),
    (1200, .settleTokens [⟨"bucket", "late", 3, fivePerSecond.config, 6⟩]),
    (2500, .settleTokens [⟨"bucket", "early", 6, fivePerSecond.config, 6⟩])]

theorem lateSettlements_valid :
    (billedRuns fivePerSecond comesTo "bucket").Valid 0 tappedBilling lateSettlements := by
  have claims : ∀ id cost now (s : Billing), s.store.Lasts "bucket" now →
      (∀ other ∈ s.outstanding, s.store.Lasts (claimMarkKey "bucket" other) now) →
        cost ≤ comesTo id → id ∉ s.outstanding → (billedRuns fivePerSecond comesTo "bucket").allowed now
        (.acquireTokens (fin cost) fivePerSecond.config (some ⟨id, 60⟩)) s := by
    intro id cost now s lasts marks least fresh
    refine ⟨lasts, marks, ⟨⟨?_, ?_, ?_⟩, ?_, ?_, trivial⟩, trivial, ?_⟩ <;>
      simp [BucketCall.draws, BucketCall.credits, BucketCall.settles, least, fresh]
  have settles : ∀ id now (s : Billing), s.store.Lasts "bucket" now →
      (∀ other ∈ s.outstanding, s.store.Lasts (claimMarkKey "bucket" other) now) →
      (billedRuns fivePerSecond comesTo "bucket").allowed now
        (.settleTokens [⟨"bucket", id, fin (comesTo id), fivePerSecond.config, 6⟩]) s := by
    intro id now s lasts marks
    refine ⟨lasts, marks, ⟨⟨?_, ?_, ?_⟩, ?_, ?_, trivial⟩, ?_, ?_⟩ <;>
      simp [BucketCall.draws, BucketCall.credits, BucketCall.settles, BucketCall.Apart]
  refine Timed.Machine.valid_cons.mpr ⟨by norm_num, claims "early" 4 _ _ ?_ ?_ ?_ ?_,
    Timed.Machine.valid_cons.mpr ⟨by norm_num, claims "late" 2 _ _ ?_ ?_ ?_ ?_,
    Timed.Machine.valid_cons.mpr ⟨by norm_num, settles "late" _ _ ?_ ?_,
    Timed.Machine.valid_cons.mpr ⟨by norm_num, settles "early" _ _ ?_ ?_, Timed.Machine.valid_nil⟩⟩⟩⟩
  all_goals decide +kernel

theorem settled_never_undercharges_late :
    (getTokenBucketState ((billedRuns fivePerSecond comesTo "bucket").final tappedBilling lateSettlements).store "bucket" fivePerSecond.config
      2500).1 ≤ fin ((((billedRuns fivePerSecond comesTo "bucket").final tappedBilling lateSettlements).ideal.advance fivePerSecond.rule
        2500).level + ((billedRuns fivePerSecond comesTo "bucket").final tappedBilling lateSettlements).unapplied) :=
  settled_never_undercharges tapped_at.1 tapped_at.2 rfl rfl lateSettlements_valid le_rfl
    (by decide +kernel) (by decide +kernel)

end Dianemo
