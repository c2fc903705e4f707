import Dianemo.System

namespace Dianemo

open JsNumber Resumption

variable {ι : Type}

/-- How an entry's metadata reads in each phase. -/
def Phase.Reads : Phase ι → Fields → Prop
  | .idle, h => h.lookup "status" = some (.text "pending")
  | .claimed _ since, h => h.lookup "status" = some (.text "inProgress") ∧
    h.lookup "claimedAt" = some (.num (fin since))
  | .confirmed _ _, h => h.lookup "status" = some (.text "inProgress") ∧ h.lookup "claimedAt" = none
  | .handed _, h => h.lookup "status" = some (.text "inProgress") ∧ h.lookup "claimedAt" = none

/-- How often an entry in the phase was handed over. -/
def Phase.count : Phase ι → ℕ
  | .handed _ => 1
  | _ => 0

/-- What holds of a pass's claim: until it is spent the entry is in its hands,
for the lease while it is unconfirmed and for good from then on. -/
structure Keeping (r : Record ι) (t : ℚ) (i : ι) (v : ClaimView) : Prop where
  used : v.request.requestId ∈ r.used
  since : ∃ x, v.request.claimedAt = some x ∧
    (r.spent i = false → r.landed i = true → r.phase v.request.requestId = .confirmed i x) ∧
    (r.spent i = false → r.landed i = false → t - x < queueClaimLeaseMs →
      r.phase v.request.requestId = .claimed i x)
  unsent : v.standing = .unsent → r.landed i = false ∧ r.spent i = false
  confirmed : v.standing = .confirmed → r.landed i = true
  refused : v.standing = .refused → r.landed i = false
  unspent : v.closed = false → v.tried = false → v.published = false → r.spent i = false

/-- The store, the passes and what took effect agree with each other. -/
structure Orderly (q : QueueKeys) (t : ℚ) (sys : System ι) : Prop where
  named : ∀ id h, q.item sys.store t id = some h → h.lookup "requestId" = some (.text id)
  used : ∀ id, (q.item sys.store t id).isSome → id ∈ sys.record.used
  reads : ∀ id h, q.item sys.store t id = some h → (sys.record.phase id).Reads h
  unused : ∀ id, id ∉ sys.record.used → sys.record.phase id = .idle
  keeping : ∀ i v, sys.views i = some v → Keeping sys.record t i v
  handed : ∀ id, sys.record.handed id = (sys.record.phase id).count
  claimant : ∀ id i x, sys.record.phase id = .claimed i x ∨ sys.record.phase id = .confirmed i x →
    sys.record.claimant id = some i

/-- Every entry of `s'` is one of `s` with the same name, status and stamp. -/
def Undisturbed (q : QueueKeys) (now : ℚ) (s s' : State) : Prop :=
  ∀ id h', q.item s' now id = some h' → ∃ h, q.item s now id = some h ∧
    h'.lookup "requestId" = h.lookup "requestId" ∧
    h'.lookup "status" = h.lookup "status" ∧ h'.lookup "claimedAt" = h.lookup "claimedAt"

section Orderly

variable {q : QueueKeys} {t now : ℚ} {sys : System ι} {s s' : State} {i : ι} {v v' : ClaimView} {id : String}
  {h h' : Fields} {r : Record ι}

theorem Phase.Reads.congr {p : Phase ι} (status : h'.lookup "status" = h.lookup "status")
    (stamp : h'.lookup "claimedAt" = h.lookup "claimedAt") (reads : p.Reads h) : p.Reads h' := by
  cases p with
  | idle => exact status.trans reads
  | claimed pass since => exact ⟨status.trans reads.1, stamp.trans reads.2⟩
  | confirmed pass since => exact ⟨status.trans reads.1, stamp.trans reads.2⟩
  | handed pass => exact ⟨status.trans reads.1, stamp.trans reads.2⟩

theorem claimLapsed_num (x now : ℚ) : claimLapsed (some (.num (fin x))) now =
    decide (queueClaimLeaseMs ≤ now - x) := by
  simp [claimLapsed, parseStoredNumber]

theorem claimLapsed_none (now : ℚ) : claimLapsed none now = false := by
  have never : ¬ (fin queueClaimLeaseMs ≤ fin now - nan) := nofun
  simp [claimLapsed, parseStoredNumber, never]

/-- Only an entry nobody holds any more can be handed out. -/
theorem Phase.Reads.of_claimable {p : Phase ι} (reads : p.Reads h)
    (claimable_ : claimable (h.lookup "status") (h.lookup "claimedAt") now = true) :
    p = .idle ∨ ∃ j x, p = .claimed j x ∧ queueClaimLeaseMs ≤ now - x := by
  cases p with
  | idle => exact .inl rfl
  | claimed j x =>
    refine .inr ⟨j, x, rfl, ?_⟩
    simpa [claimable, reads.1, reads.2, claimLapsed_num] using claimable_
  | confirmed j x => simp [claimable, reads.1, reads.2, claimLapsed_none] at claimable_
  | handed j => simp [claimable, reads.1, reads.2, claimLapsed_none] at claimable_

theorem Undisturbed.of_fewer (fewer : Fewer q now s s') : Undisturbed q now s s' := by
  intro id h' found
  rcases fewer id with gone | same
  · rw [gone] at found
    cases found
  · exact ⟨h', same.symm.trans found, rfl, rfl, rfl⟩

/-- A write of other fields to one entry. -/
theorem undisturbed_update (held : q.item s now id = some h) (name : h'.lookup "requestId" = h.lookup "requestId")
    (status : h'.lookup "status" = h.lookup "status") (stamp : h'.lookup "claimedAt" = h.lookup "claimedAt")
    (items : q.item s' now = Function.update (q.item s now) id (some h')) : Undisturbed q now s s' := by
  intro other h'' found
  rw [items] at found
  by_cases same : other = id
  · subst same
    rw [Function.update_self] at found
    cases found
    exact ⟨h, held, name, status, stamp⟩
  · rw [Function.update_of_ne same] at found
    exact ⟨h'', found, rfl, rfl, rfl⟩

theorem Keeping.later (keeping : Keeping r t i v) (order : t ≤ now) : Keeping r now i v := by
  obtain ⟨x, stamp, landed, fresh⟩ := keeping.since
  refine { keeping with since := ⟨x, stamp, landed, ?_⟩ }
  intro unspent unlanded unlapsed
  exact fresh unspent unlanded (lt_of_le_of_lt (by linarith) unlapsed)

theorem Orderly.later (orderly : Orderly q t sys) (order : t ≤ now) : Orderly q now sys := by
  have same : ∀ id h, q.item sys.store now id = some h → q.item sys.store t id = some h := by
    intro id h found
    rcases item_later order sys.store id with gone | same
    · rw [gone] at found
      cases found
    · exact same.symm.trans found
  exact {
    named := fun id h found => orderly.named id h (same id h found)
    used := fun id there => by
      obtain ⟨h, found⟩ := Option.isSome_iff_exists.mp there
      exact orderly.used id (by simp [same id h found])
    reads := fun id h found => orderly.reads id h (same id h found)
    unused := orderly.unused
    keeping := fun i v view => (orderly.keeping i v view).later order
    handed := orderly.handed
    claimant := orderly.claimant }

/-- A store that only lost entries, or only changed other fields. -/
theorem Orderly.undisturbed (orderly : Orderly q now sys)
    (undisturbed : Undisturbed q now sys.store s) (clock : ℚ) :
    Orderly q now { sys with store := s, clock := clock } :=
  { orderly with
    named := fun id h' found => by
      obtain ⟨h, had, name, -⟩ := undisturbed id h' found
      exact name.trans (orderly.named id h had)
    used := fun id there => by
      obtain ⟨h', found⟩ := Option.isSome_iff_exists.mp there
      obtain ⟨h, had, -⟩ := undisturbed id h' found
      exact orderly.used id (by simp [had])
    reads := fun id h' found => by
      obtain ⟨h, had, -, status, stamp⟩ := undisturbed id h' found
      exact (orderly.reads id h had).congr status stamp }

/-- While an entry is in its phase the phase says who may be holding it. -/
theorem Keeping.frame {r' : Record ι} (keeping : Keeping r now i v) (used : r'.used = r.used)
    (landed : r'.landed i = r.landed i) (spent : r'.spent i = r.spent i)
    (phase : ∀ x, v.request.claimedAt = some x → r.spent i = false →
      r.phase v.request.requestId = .confirmed i x ∨ r.phase v.request.requestId = .claimed i x ∧
        now - x < queueClaimLeaseMs →
      r'.phase v.request.requestId = r.phase v.request.requestId) : Keeping r' now i v := by
  obtain ⟨x, stamp, confirmed, fresh⟩ := keeping.since
  refine ⟨used ▸ keeping.used, ⟨x, stamp, ?_, ?_⟩, ?_, ?_, ?_, ?_⟩
  · intro unspent sent
    rw [spent] at unspent
    rw [landed] at sent
    have here := confirmed unspent sent
    rw [phase x stamp unspent (.inl here)]
    exact here
  · intro unspent unsent unlapsed
    rw [spent] at unspent
    rw [landed] at unsent
    have here := fresh unspent unsent unlapsed
    rw [phase x stamp unspent (.inr ⟨here, unlapsed⟩)]
    exact here
  · rw [landed, spent]
    exact keeping.unsent
  · rw [landed]
    exact keeping.confirmed
  · rw [landed]
    exact keeping.refused
  · rw [spent]
    exact keeping.unspent

/-- A pass's own view and standing may change where its claim does not. -/
theorem Keeping.view (keeping : Keeping r now i v) (same : v'.request = v.request)
    (standing : v'.standing = v.standing) (closed : v'.closed = v.closed) (tried : v'.tried = v.tried)
    (published : v'.published = v.published) : Keeping r now i v' := by
  refine ⟨?_, ?_, ?_, ?_, ?_, ?_⟩
  · rw [same]
    exact keeping.used
  · rw [same]
    exact keeping.since
  · rw [standing]
    exact keeping.unsent
  · rw [standing]
    exact keeping.confirmed
  · rw [standing]
    exact keeping.refused
  · rw [closed, tried, published]
    exact keeping.unspent

theorem Orderly.handed_update (orderly : Orderly q now sys) {p : Phase ι}
    (same : p.count = (sys.record.phase id).count) :
    sys.record.handed = Function.update sys.record.handed id p.count := by
  rw [same, ← orderly.handed, Function.update_eq_self]

/-- One entry moves on to the phase `p`. -/
theorem Orderly.move {sys' : System ι} (orderly : Orderly q now sys) (id : String) (p : Phase ι)
    (others : ∀ other, other ≠ id → q.item sys'.store now other = q.item sys.store now other)
    (own : ∀ h, q.item sys'.store now id = some h → h.lookup "requestId" = some (.text id) ∧ p.Reads h)
    (used : ∀ other ∈ sys.record.used, other ∈ sys'.record.used) (known : id ∈ sys'.record.used)
    (phase : sys'.record.phase = Function.update sys.record.phase id p)
    (handed : sys'.record.handed = Function.update sys.record.handed id p.count)
    (claimants : ∀ other, other ≠ id → sys'.record.claimant other = sys.record.claimant other)
    (claimant : ∀ j x, p = .claimed j x ∨ p = .confirmed j x → sys'.record.claimant id = some j)
    (keeping : ∀ j v, sys'.views j = some v → Keeping sys'.record now j v) : Orderly q now sys' := by
  have elsewhere : ∀ other, other ≠ id → sys'.record.phase other = sys.record.phase other := by
    intro other ne
    rw [phase, Function.update_of_ne ne]
  have here : sys'.record.phase id = p := by rw [phase, Function.update_self]
  refine ⟨?_, ?_, ?_, ?_, keeping, ?_, ?_⟩
  · intro other h found
    by_cases same : other = id
    · subst same
      exact (own h found).1
    · rw [others other same] at found
      exact orderly.named other h found
  · intro other there
    by_cases same : other = id
    · subst same
      exact known
    · rw [others other same] at there
      exact used other (orderly.used other there)
  · intro other h found
    by_cases same : other = id
    · subst same
      rw [here]
      exact (own h found).2
    · rw [others other same] at found
      rw [elsewhere other same]
      exact orderly.reads other h found
  · intro other fresh
    have ne : other ≠ id := by
      rintro rfl
      exact fresh known
    rw [elsewhere other ne]
    exact orderly.unused other fun old => fresh (used other old)
  · intro other
    by_cases same : other = id
    · subst same
      rw [here, handed, Function.update_self]
    · rw [elsewhere other same, handed, Function.update_of_ne same]
      exact orderly.handed other
  · intro other j x at_
    by_cases same : other = id
    · subst same
      rw [here] at at_
      exact claimant j x at_
    · rw [elsewhere other same] at at_
      rw [claimants other same]
      exact orderly.claimant other j x at_

/-- A pass other than the one an entry is with has no hold on it, so it does
not matter to the pass where the entry goes. -/
theorem Keeping.move {r' : Record ι} {j : ι} (keeping : Keeping r now j v) {p : Phase ι}
    (free : ∀ x, r.phase id = .claimed j x → queueClaimLeaseMs ≤ now - x)
    (unheld : ∀ x, r.phase id ≠ .confirmed j x)
    (used : ∀ other ∈ r.used, other ∈ r'.used) (landed : r'.landed j = r.landed j) (spent : r'.spent j = r.spent j)
    (phase : r'.phase = Function.update r.phase id p) : Keeping r' now j v := by
  have kept : Keeping { r' with used := r.used } now j v := by
    refine keeping.frame rfl landed spent ?_
    intro x stamp unspent held
    change r'.phase v.request.requestId = _
    rw [phase, Function.update_of_ne]
    rintro rfl
    rcases held with confirmed | ⟨claimed, unlapsed⟩
    · exact unheld x confirmed
    · exact absurd (free x claimed) (not_le.mpr unlapsed)
  exact { kept with used := used _ keeping.used }

/-- What a failed call tells a pass costs it no hold on its claim. -/
theorem Keeping.failed (keeping : Keeping r now i v) (c : Call) (e : DrainError) :
    Keeping r now i (v.after c (.error e)) := by
  have standing : (v.after c (.error e)).standing = v.standing ∨ (v.after c (.error e)).standing = .lost := by
    cases c <;> first | exact .inl rfl | exact .inr rfl
  have same : (v.after c (.error e)).request = v.request := by cases c <;> rfl
  have unspent : (v.after c (.error e)).closed = false → (v.after c (.error e)).tried = false →
      (v.after c (.error e)).published = false → r.spent i = false := by
    cases c <;> first | exact keeping.unspent | nofun
  refine ⟨same ▸ keeping.used, same ▸ keeping.since, ?_, ?_, ?_, unspent⟩
  · intro unsent
    rcases standing with as_ | lost
    · exact keeping.unsent (as_.symm.trans unsent)
    · rw [lost] at unsent
      cases unsent
  · intro confirmed
    rcases standing with as_ | lost
    · exact keeping.confirmed (as_.symm.trans confirmed)
    · rw [lost] at confirmed
      cases confirmed
  · intro refused
    rcases standing with as_ | lost
    · exact keeping.refused (as_.symm.trans refused)
    · rw [lost] at refused
      cases refused

/-- The pass's claim is still its own: neither spent nor let lapse unconfirmed. -/
def Record.Holding (r : Record ι) (now : ℚ) (i : ι) (v : ClaimView) : Prop :=
  r.spent i = false ∧ (r.landed i = true ∨ ∃ x, v.request.claimedAt = some x ∧ now - x < queueClaimLeaseMs)

theorem Keeping.holding (keeping : Keeping r now i v) (holding : r.Holding now i v) :
    ∃ x, v.request.claimedAt = some x ∧
    (r.phase v.request.requestId = .claimed i x ∨ r.phase v.request.requestId = .confirmed i x) := by
  obtain ⟨unspent, held⟩ := holding
  obtain ⟨x, stamp, confirmed, fresh⟩ := keeping.since
  by_cases landed : r.landed i = true
  · exact ⟨x, stamp, .inr (confirmed unspent landed)⟩
  · rcases held with landed' | ⟨y, stamp', within⟩
    · exact absurd landed' landed
    · cases stamp.symm.trans stamp'
      exact ⟨x, stamp, .inl (fresh unspent (by simpa using landed) within)⟩

/-- The pass is done with its claim. -/
theorem Keeping.spent (keeping : Keeping r now i v) {r' : Record ι} (used : r'.used = r.used)
    (landed : r'.landed i = r.landed i) (spent : r'.spent i = true) (same : v'.request = v.request)
    (standing : v'.standing = v.standing) (sent : v.standing ≠ .unsent)
    (over_ : v'.closed = true ∨ v'.tried = true ∨ v'.published = true) : Keeping r' now i v' := by
  obtain ⟨x, stamp, -⟩ := keeping.since
  refine ⟨by rw [same, used]; exact keeping.used, ⟨x, by rw [same, stamp], ?_, ?_⟩, ?_, ?_, ?_, ?_⟩
  · intro unspent
    rw [spent] at unspent
    cases unspent
  · intro unspent
    rw [spent] at unspent
    cases unspent
  · intro unsent
    exact absurd (standing.symm.trans unsent) sent
  · rw [landed, standing]
    exact keeping.confirmed
  · rw [landed, standing]
    exact keeping.refused
  · intro closed tried published
    rcases over_ with over_ | over_ | over_ <;> simp_all

/-- The passes that do not hold an entry its holder gives up. -/
theorem Orderly.bystander (orderly : Orderly q now sys) {x : ℚ}
    (mine : sys.record.phase id = .claimed i x ∨ sys.record.phase id = .confirmed i x) {j : ι} (other : j ≠ i)
    (view : sys.views j = some v) {r' : Record ι} {p : Phase ι} (used : ∀ other ∈ sys.record.used, other ∈ r'.used)
    (landed : r'.landed j = sys.record.landed j) (spent : r'.spent j = sys.record.spent j)
    (phase : r'.phase = Function.update sys.record.phase id p) : Keeping r' now j v := by
  refine (orderly.keeping j v view).move ?_ ?_ used landed spent phase
  · intro y claimed
    rcases mine with mine | mine
    · rw [mine] at claimed
      cases claimed
      exact absurd rfl other
    · rw [mine] at claimed
      cases claimed
  · intro y confirmed
    rcases mine with mine | mine
    · rw [mine] at confirmed
      cases confirmed
    · rw [mine] at confirmed
      cases confirmed
      exact absurd rfl other

/-- The confirmation that finds its stamp is the holder's. -/
theorem Orderly.confirmer (orderly : Orderly q now sys) {x : ℚ} (view : sys.views i = some v)
    (fits : (Call.confirmRequest id x).Fits v) (stamp : parseStoredNumber (h.lookup "claimedAt") nan = fin x)
    (unlapsed : claimLapsed (h.lookup "claimedAt") now = false) : sys.record.phase id = .claimed i x := by
  obtain ⟨rfl, claimedAt, unsent, -⟩ := fits
  have keeping := orderly.keeping i v view
  obtain ⟨unlanded, unspent⟩ := keeping.unsent unsent
  obtain ⟨y, claimedAt', -, fresh⟩ := keeping.since
  cases claimedAt.symm.trans claimedAt'
  exact fresh unspent unlanded (by simpa [claimLapsed, stamp] using unlapsed)

/-- A pass that was told its claim is confirmed, and has not ended it, holds it. -/
theorem Orderly.holder (orderly : Orderly q now sys) (view : sys.views i = some v)
    (confirmed : v.standing = .confirmed) (closed : v.closed = false) (tried : v.tried = false)
    (published : v.published = false) :
    ∃ x, v.request.claimedAt = some x ∧ sys.record.phase v.request.requestId = .confirmed i x := by
  have keeping := orderly.keeping i v view
  obtain ⟨x, stamp, hold, -⟩ := keeping.since
  exact ⟨x, stamp, hold (keeping.unspent closed tried published) (keeping.confirmed confirmed)⟩

end Orderly

section Steps

variable [DecidableEq ι] {q : QueueKeys} {now : ℚ} {sys : System ι} {i : ι} {id : String}
    {h : Fields} {v v' : ClaimView}
  {p : Program Call Reply DrainError (Option PassLocals)}

/-- Pass `i` goes on; its new view keeps, and the rest is as it was. -/
theorem Orderly.pass (orderly : Orderly q now sys) {g : Option ClaimView}
    (keeping : ∀ v, g = some v → Keeping sys.record now i v) :
    Orderly q now { sys with passes := Function.update sys.passes i p, views := Function.update sys.views i g } :=
  { orderly with
    keeping := fun j v view => by
      by_cases same : j = i
      · subst same
        exact keeping v (by simpa using view)
      · exact orderly.keeping j v (by simpa [same] using view) }

/-- A pass that is handed nothing gives up what it had. -/
theorem Orderly.unclaimed (orderly : Orderly q now sys) :
    Orderly q now
      { store := sys.store
        clock := now
        passes := Function.update sys.passes i p
        views := Function.update sys.views i none
        record := sys.record.claim i now none } :=
  { orderly with
    keeping := fun j v view => by
      by_cases same : j = i
      · subst same
        simp at view
      · exact (orderly.keeping j v (by simpa [same] using view)).frame rfl (Function.update_of_ne same _ _)
          (Function.update_of_ne same _ _) fun _ _ _ _ => rfl }

theorem claimFields_safe (h : Fields) (now : ℚ) : ∀ f ∈ claimFields h now, f.1 ≠ "requestId" := by
  intro f member
  simp only [claimFields, List.mem_append, List.mem_cons, List.not_mem_nil, or_false] at member
  rcases member with cleared | rfl | rfl
  · split at cleared
    · cases cleared
    · cases List.mem_singleton.mp cleared
      simp
  · simp
  · simp

/-- A claim takes an entry that is in nobody's hands. -/
theorem Orderly.claim (orderly : Orderly q now sys) (held : q.item sys.store now id = some h)
    (free : claimable (h.lookup "status") (h.lookup "claimedAt") now = true) {found : Option QueuedRequest}
    (read : ∀ request, found = some request → toQueued (withFields h (claimFields h now)) = some request) :
    Orderly q now
      { store := sys.store.setFields (q.metadataKey id) now (claimFields h now)
        clock := now
        passes := Function.update sys.passes i p
        views := Function.update sys.views i (found.map fun request => { request := request })
        record := sys.record.claim i now (some id) } := by
  have unheld := (orderly.reads id h held).of_claimable free
  have items := item_setFields held (claimFields h now)
  have named := orderly.named id h held
  refine orderly.move id (.claimed i now) ?_ ?_ (fun _ member => member)
    (orderly.used id (by simp [held])) rfl ?_ ?_ ?_ ?_
  · intro other ne
    rw [items, Function.update_of_ne ne]
  · intro h' now_
    rw [items, Function.update_self] at now_
    cases now_
    refine ⟨(withFields_lookup_ne (claimFields_safe h now) h).trans named, ?_, ?_⟩
    · simp [claimFields, withFields, AList.lookup_insert_ne]
    · simp [claimFields, withFields]
  · refine orderly.handed_update ?_
    rcases unheld with idle | ⟨j, x, claimed, -⟩
    · rw [idle]
      rfl
    · rw [claimed]
      rfl
  · intro other ne
    exact Function.update_of_ne ne _ _
  · rintro j x (claimed | confirmed)
    · cases claimed
      exact Function.update_self _ _ _
    · cases confirmed
  · intro j v view
    by_cases same : j = i
    · subst same
      obtain ⟨request, rfl, rfl⟩ := Option.map_eq_some_iff.mp ((Function.update_self j _ sys.views).symm.trans view)
      obtain ⟨name, stamp, -⟩ := toQueued_claimFields (read request rfl) named
      subst name
      refine ⟨orderly.used _ (by simp [held]), ⟨now, stamp, ?_, ?_⟩, ?_, (by simp), (by simp), ?_⟩
      · intro _ landed
        simp [Record.claim] at landed
      · intro _ _ _
        exact Function.update_self _ _ _
      · intro _
        exact ⟨Function.update_self _ _ _, Function.update_self _ _ _⟩
      · intro _ _ _
        exact Function.update_self _ _ _
    · have old : sys.views j = some v := by simpa [same] using view
      refine (orderly.keeping j v old).move ?_ ?_ (fun _ member => member) (Function.update_of_ne same _ _)
        (Function.update_of_ne same _ _) rfl
      · intro x claimed
        rcases unheld with idle | ⟨k, y, claimed', lapsed⟩
        · rw [idle] at claimed
          cases claimed
        · rw [claimed'] at claimed
          cases claimed
          exact lapsed
      · intro x confirmed
        rcases unheld with idle | ⟨k, y, claimed, -⟩
        · rw [idle] at confirmed
          cases confirmed
        · rw [claimed] at confirmed
          cases confirmed

/-- A confirmation that finds its stamp is the holder's own. -/
theorem Orderly.confirm (orderly : Orderly q now sys) (view : sys.views i = some v) {x : ℚ}
    (fits : (Call.confirmRequest id x).Fits v) (held : q.item sys.store now id = some h)
    (stamp : parseStoredNumber (h.lookup "claimedAt") nan = fin x)
    (unlapsed : claimLapsed (h.lookup "claimedAt") now = false)
    (status : h.lookup "status" = some (.text "inProgress")) (same : v'.request = v.request)
    (sent : v'.standing = .confirmed ∨ v'.standing = .lost) :
    Orderly q now
      { store := sys.store.eraseField (q.metadataKey id) now "claimedAt"
        clock := now
        passes := Function.update sys.passes i p
        views := Function.update sys.views i (some v')
        record := sys.record.confirm i id x } := by
  have mine := orderly.confirmer view fits stamp unlapsed
  obtain ⟨rfl, claimedAt, unsent, -⟩ := fits
  have keeping := orderly.keeping i v view
  obtain ⟨unlanded, unspent⟩ := keeping.unsent unsent
  have items := item_eraseField held "claimedAt"
  refine orderly.move v.request.requestId (.confirmed i x) ?_ ?_
    (fun _ member => member) keeping.used rfl ?_ (fun _ _ => rfl) ?_
    ?_
  · intro other ne
    rw [items, Function.update_of_ne ne]
  · intro h' found
    rw [items, Function.update_self] at found
    cases found
    refine ⟨?_, ?_, ?_⟩
    · rw [AList.lookup_erase_ne (by decide)]
      exact orderly.named _ h held
    · rw [AList.lookup_erase_ne (by decide)]
      exact status
    · exact AList.lookup_erase "claimedAt" h
  · refine orderly.handed_update ?_
    rw [mine]
    rfl
  · rintro j y (claimed | confirmed)
    · cases claimed
    · cases confirmed
      exact orderly.claimant _ i x (.inl mine)
  · intro j w now_
    by_cases own : j = i
    · subst own
      cases (Function.update_self j _ sys.views).symm.trans now_
      refine ⟨same ▸ keeping.used, ⟨x, by rw [same, claimedAt], ?_, ?_⟩, ?_, ?_, ?_, ?_⟩
      · intro _ _
        rw [same]
        exact Function.update_self _ _ _
      · intro _ unlanded
        simp [Record.confirm] at unlanded
      · intro unsent
        rcases sent with sent | sent <;> simp [sent] at unsent
      · intro _
        exact Function.update_self _ _ _
      · intro refused
        rcases sent with sent | sent <;> simp [sent] at refused
      · intro _ _ _
        exact unspent
    · have old : sys.views j = some w := by simpa [own] using now_
      refine (orderly.keeping j w old).move ?_ ?_ (fun _ member => member) (Function.update_of_ne own _ _) rfl rfl
      · intro y claimed
        rw [mine] at claimed
        cases claimed
        exact absurd rfl own
      · intro y confirmed
        rw [mine] at confirmed
        cases confirmed

/-- A write-back by the holder makes its entry pending. -/
theorem Orderly.writeBack (orderly : Orderly q now sys) (view : sys.views i = some v) {updates : RequestUpdates}
    (fits : (Call.updateRequest id updates).Fits v) (holding : sys.record.Holding now i v)
    (held : q.item sys.store now id = some h) (same : v'.request = v.request) (standing : v'.standing = v.standing)
    (over_ : v'.closed = true ∨ v'.tried = true) :
    Orderly q now
      { store := updateRequest q sys.store id updates now
        clock := now
        passes := Function.update sys.passes i p
        views := Function.update sys.views i (some v')
        record := (sys.record.release id).spend i } := by
  obtain ⟨rfl, sent, -, shape⟩ := fits
  have keeping := orderly.keeping i v view
  obtain ⟨x, -, mine⟩ := keeping.holding holding
  have named := orderly.named _ h held
  have items := item_updateRequest held named updates
  have pending : (updates.apply h).lookup "status" = some (.text "pending") := by
    rcases shape with rfl | ⟨rfl, -⟩
    · simp [RequestUpdates.apply, RequestUpdates.fields, finiteUpdate, withFields, AList.lookup_insert_ne,
        AList.lookup_erase_ne]
    · simp [RequestUpdates.apply, RequestUpdates.fields, finiteUpdate, withFields, AList.lookup_erase_ne]
  have name : (updates.apply h).lookup "requestId" = some (.text v.request.requestId) := by
    rw [← named]
    rcases shape with rfl | ⟨rfl, -⟩
    · simp [RequestUpdates.apply, RequestUpdates.fields, finiteUpdate, withFields, AList.lookup_insert_ne,
        AList.lookup_erase_ne]
    · simp [RequestUpdates.apply, RequestUpdates.fields, finiteUpdate, withFields, AList.lookup_insert_ne,
        AList.lookup_erase_ne]
  refine orderly.move v.request.requestId .idle ?_ ?_ (fun _ member => member) keeping.used rfl rfl
    (fun _ _ => rfl) (by simp) ?_
  · intro other ne
    rw [items, Function.update_of_ne ne]
  · intro h' found
    rw [items, Function.update_self] at found
    cases found
    exact ⟨name, pending⟩
  · intro j w now_
    by_cases own : j = i
    · subst own
      cases (Function.update_self j _ sys.views).symm.trans now_
      refine keeping.spent rfl rfl (Function.update_self _ _ _) same standing ?_ ?_
      · rcases sent with sent | sent <;> simp [sent]
      · rcases over_ with closed | tried
        · exact .inl closed
        · exact .inr (.inl tried)
    · have old : sys.views j = some w := by simpa [own] using now_
      exact orderly.bystander mine own old (fun _ member => member) rfl (Function.update_of_ne own _ _) rfl

/-- A hand-over of a confirmed entry. -/
theorem Orderly.handOver (orderly : Orderly q now sys) (view : sys.views i = some v) {request : RequestMetadata}
    (fits : (Call.requestReady request).Fits v) (started : Bool) (same : v'.request = v.request)
    (standing : v'.standing = v.standing) (over_ : v'.closed = true ∨ v'.published = true) :
    Orderly q now
      { store := sys.store
        clock := now
        passes := Function.update sys.passes i p
        views := Function.update sys.views i (some v')
        record := (sys.record.handOver i request started).spend i } := by
  obtain ⟨confirmed, closed, tried, published, rfl⟩ := fits
  have keeping := orderly.keeping i v view
  obtain ⟨x, -, mine⟩ := orderly.holder view confirmed closed tried published
  refine orderly.move v.request.requestId (.handed i) (fun _ _ => rfl) ?_
    (fun _ member => member) keeping.used rfl ?_
    (fun _ _ => rfl) (by simp) ?_
  · intro h found
    have reads := orderly.reads _ h found
    rw [mine] at reads
    exact ⟨orderly.named _ h found, reads⟩
  · change Function.update sys.record.handed v.request.requestId (sys.record.handed v.request.requestId + 1) = _
    rw [orderly.handed, mine]
    rfl
  · intro j w now_
    by_cases own : j = i
    · subst own
      cases (Function.update_self j _ sys.views).symm.trans now_
      refine keeping.spent rfl rfl (Function.update_self _ _ _) same standing (by simp [confirmed]) ?_
      rcases over_ with closed | published
      · exact .inl closed
      · exact .inr (.inr published)
    · have old : sys.views j = some w := by simpa [own] using now_
      exact orderly.bystander (.inr mine) own old (fun _ member => member) rfl (Function.update_of_ne own _ _) rfl

end Steps

end Dianemo
