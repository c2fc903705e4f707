import Dianemo.Ledger
import Dianemo.MemberOrder
import Dianemo.Recovery
import Dianemo.Score

namespace Dianemo

open JsNumber

/-- The integers an entry's stored priority, retries and timestamp are, among
the fields its order and its owner are read from. -/
structure Rated (id : String) (h : Fields) (priority retries timestamp : ℤ) : Prop where
  within : InScoreEpoch timestamp
  named : h.lookup "requestId" = some (.text id)
  owned : (h.lookup "ownerId").isSome = true
  priority : h.lookup "priority" = some (.num (fin priority))
  retries : h.lookup "retries" = some (.num (fin retries))
  timestamp : h.lookup "timestamp" = some (.num (fin timestamp))

def rankFields : List String := ["requestId", "ownerId", "priority", "retries", "timestamp"]

/-- The queue has `id` at `score`, and its key lasts as long as the entry does. -/
def Queued (q : QueueKeys) (now : ℚ) (s : State) (id : String) (e : Entry) (score : ℚ) : Prop :=
  ∃ f z, s.live q.queueKey now = some f ∧ f.zset = some z ∧ z.lookup id = some score ∧
    ∀ last, f.expiresAt = some last → ∃ deadline, e.expiresAt = some deadline ∧ deadline ≤ last

/-- Where the queue has `id`, it is at `score`. -/
def Placed (q : QueueKeys) (now : ℚ) (s : State) (id : String) (score : ℚ) : Prop :=
  ∀ f z other, s.live q.queueKey now = some f → f.zset = some z → z.lookup id = some other → other = score

/-- What is stored for `id` has the score of its own fields where it is queued, and if the queue is
`lasting` it is queued. -/
def Filed (q : QueueKeys) (lasting : Prop) (now : ℚ) (s : State) (id : String) : Prop :=
  ∀ e h, s.live (q.metadataKey id) now = some e → e.hash = some h →
    ∃ priority retries timestamp, Rated id h priority retries timestamp ∧
      Placed q now s id (packedScore priority retries timestamp) ∧
      (lasting → Queued q now s id e (packedScore priority retries timestamp))

/-- Every entry but those of `excused` is filed. -/
structure Ranked (q : QueueKeys) (lasting : Prop) (now : ℚ) (excused : Set String) (s : State) : Prop where
  bare : ∀ f, s.live q.queueKey now = some f → f.set = none
  filed : ∀ id, id ∉ excused → Filed q lasting now s id

section Steps

variable {q : QueueKeys} {lasting : Prop} {now t : ℚ} {excused : Set String} {s s' : State}
    {id : String} {h h' : Fields}
  {priority retries timestamp : ℤ}

theorem Rated.congr (rated : Rated id h priority retries timestamp)
    (same : ∀ field ∈ rankFields, h'.lookup field = h.lookup field) : Rated id h' priority retries timestamp where
  within := rated.within
  named := (same _ (by decide)).trans rated.named
  owned := by rw [same _ (by decide : "ownerId" ∈ rankFields), rated.owned]
  priority := (same _ (by decide)).trans rated.priority
  retries := (same _ (by decide)).trans rated.retries
  timestamp := (same _ (by decide)).trans rated.timestamp

theorem Queued.congr {e : Entry} {score : ℚ} (queued : Queued q now s id e score)
    (queue : s'.live q.queueKey now = s.live q.queueKey now) : Queued q now s' id e score := by
  obtain ⟨f, z, live, rest⟩ := queued
  exact ⟨f, z, queue.trans live, rest⟩

theorem Placed.congr {score : ℚ} (placed : Placed q now s id score)
    (queue : s'.live q.queueKey now = s.live q.queueKey now) : Placed q now s' id score :=
  fun f z other live => placed f z other (queue.symm.trans live)

theorem Filed.congr (filed : Filed q lasting now s id)
    (entry : s'.live (q.metadataKey id) now = s.live (q.metadataKey id) now)
    (queue : s'.live q.queueKey now = s.live q.queueKey now) : Filed q lasting now s' id := by
  intro e h live hash
  obtain ⟨p, r, t, rated, placed, queued⟩ := filed e h (entry.symm.trans live) hash
  exact ⟨p, r, t, rated, placed.congr queue, fun lasts => (queued lasts).congr queue⟩

/-- An entry rewritten outside its rank and for as long as before stays filed. -/
theorem Filed.rewrite (filed : Filed q lasting now s id) {e : Entry} (was : s.live (q.metadataKey id) now = some e)
    (held : e.hash = some h) (becomes : s'.live (q.metadataKey id) now = some { e with hash := some h' })
    (same : ∀ field ∈ rankFields, h'.lookup field = h.lookup field)
    (queue : s'.live q.queueKey now = s.live q.queueKey now) : Filed q lasting now s' id := by
  intro e' h'' live hash
  rw [becomes] at live
  cases live
  cases hash
  obtain ⟨p, r, t, rated, placed, queued⟩ := filed e h was held
  refine ⟨p, r, t, rated.congr same, placed.congr queue, fun lasts => ?_⟩
  obtain ⟨f, z, found, rest⟩ := queued lasts
  exact ⟨f, z, queue.trans found, rest⟩

namespace Ranked

/-- An entry that is filed, found through its hash. -/
theorem found (ranked : Ranked q lasting now ∅ s) (held : q.item s now id = some h) :
    ∃ e priority retries timestamp, s.live (q.metadataKey id) now = some e ∧ e.hash = some h ∧
      Rated id h priority retries timestamp ∧ Placed q now s id (packedScore priority retries timestamp) ∧
      (lasting → Queued q now s id e (packedScore priority retries timestamp)) := by
  obtain ⟨e, live, hash⟩ := Option.bind_eq_some_iff.mp held
  obtain ⟨p, r, t, filed⟩ := ranked.filed id (Set.notMem_empty id) e h live hash
  exact ⟨e, p, r, t, live, hash, filed⟩

/-- Another entry's key rewritten. -/
theorem rewrite (ranked : Ranked q lasting now excused s)
    (others : ∀ other ≠ id, s'.live (q.metadataKey other) now = s.live (q.metadataKey other) now)
    (queue : s'.live q.queueKey now = s.live q.queueKey now) : Ranked q lasting now (insert id excused) s' where
  bare f live := ranked.bare f (queue.symm.trans live)
  filed other out := by
    have ne : other ≠ id := fun same => out (.inl same)
    exact (ranked.filed other fun member => out (.inr member)).congr (others other ne) queue

/-- An excused entry found in order, or gone. -/
theorem settle (ranked : Ranked q lasting now (insert id excused) s) (filed : Filed q lasting now s id) :
    Ranked q lasting now excused s where
  bare := ranked.bare
  filed other out := by
    by_cases same : other = id
    · subst same
      exact filed
    · exact ranked.filed other fun member => member.elim same out

theorem mono {more : Set String} (ranked : Ranked q lasting now excused s) (sub : excused ⊆ more) :
    Ranked q lasting now more s :=
  ⟨ranked.bare, fun id out => ranked.filed id fun member => out (sub member)⟩

/-- A write to an entry leaves the others filed. -/
theorem overwrite (ranked : Ranked q lasting now excused s) (id : String) (fields : List (String × Field)) :
    Ranked q lasting now (insert id excused) (s.setFields (q.metadataKey id) now fields) :=
  ranked.rewrite
    (fun _ ne => State.setFields_live_ne (mt QueueKeys.metadataKey_inj.mp ne) s now fields)
    (State.setFields_live_ne (QueueKeys.metadataKey_ne id).symm s now fields)

theorem setFields (ranked : Ranked q lasting now excused s) (held : q.item s now id = some h)
    {fields : List (String × Field)}
    (safe : ∀ f ∈ fields, f.1 ∉ rankFields) :
    Ranked q lasting now excused (s.setFields (q.metadataKey id) now fields) := by
  obtain ⟨e, live, hash⟩ := Option.bind_eq_some_iff.mp held
  have queue : (s.setFields (q.metadataKey id) now fields).live q.queueKey now = s.live q.queueKey now :=
    State.setFields_live_ne (QueueKeys.metadataKey_ne id).symm s now fields
  have wrote := ranked.overwrite id fields
  by_cases out : id ∈ excused
  · rwa [Set.insert_eq_of_mem out] at wrote
  refine wrote.settle ((ranked.filed id out).rewrite live hash (State.live_setFields live fields) ?_ queue)
  intro field ranks
  rw [hash]
  refine withFields_lookup_ne ?_ h
  rintro f member rfl
  exact safe f member ranks

theorem eraseField (ranked : Ranked q lasting now excused s) (id : String) {field : String}
    (safe : field ∉ rankFields) :
    Ranked q lasting now excused (s.eraseField (q.metadataKey id) now field) := by
  cases live : s.live (q.metadataKey id) now with
  | none =>
    rw [State.eraseField, live]
    exact ranked
  | some e =>
    have queue : (s.eraseField (q.metadataKey id) now field).live q.queueKey now = s.live q.queueKey now :=
      State.live_congr (State.eraseField_store_ne (QueueKeys.metadataKey_ne id).symm s field) now
    have others : ∀ other ≠ id, (s.eraseField (q.metadataKey id) now field).live (q.metadataKey other) now =
        s.live (q.metadataKey other) now :=
      fun other ne => State.live_congr (State.eraseField_store_ne (mt QueueKeys.metadataKey_inj.mp ne) s field) now
    have wrote := ranked.rewrite others queue
    by_cases out : id ∈ excused
    · rwa [Set.insert_eq_of_mem out] at wrote
    have fresh : e.expired now = false := (State.live_eq_some.mp live).2
    have becomes : (s.eraseField (q.metadataKey id) now field).live (q.metadataKey id) now =
        some { e with hash := e.hash.map fun h : Fields => h.erase field } := by
      rw [State.eraseField, live]
      exact State.live_put_self fresh
    cases hash : e.hash with
    | none =>
      refine wrote.settle fun e' h' live' hash' => ?_
      rw [becomes] at live'
      cases live'
      simp [hash] at hash'
    | some h =>
      rw [hash] at becomes
      refine wrote.settle ((ranked.filed id out).rewrite live hash becomes ?_ queue)
      intro other ranks
      refine AList.lookup_erase_ne ?_
      rintro rfl
      exact safe ranks

/-- The queue's key rewritten, with the members that are not excused where they were. -/
theorem requeue {more : Set String} (ranked : Ranked q lasting now more s)
    (entries : ∀ other, s'.live (q.metadataKey other) now = s.live (q.metadataKey other) now)
    (bare : ∀ f, s'.live q.queueKey now = some f → f.set = none)
    (kept : ∀ other, other ∉ more → ∀ f z score, s.live q.queueKey now = some f → f.zset = some z →
      z.lookup other = some score → ∃ f' z', s'.live q.queueKey now = some f' ∧ f'.zset = some z' ∧
        z'.lookup other = some score ∧ f'.expiresAt = f.expiresAt)
    (came : ∀ other, other ∉ more → ∀ f' z' score, s'.live q.queueKey now = some f' → f'.zset = some z' →
      z'.lookup other = some score → ∃ f z, s.live q.queueKey now = some f ∧ f.zset = some z ∧
        z.lookup other = some score) :
    Ranked q lasting now more s' where
  bare := bare
  filed other out e h live hash := by
    obtain ⟨p, r, t, rated, placed, queued⟩ := ranked.filed other out e h ((entries other).symm.trans live) hash
    refine ⟨p, r, t, rated, ?_, fun lasting => ?_⟩
    · intro f' z' score found' slots' score'
      obtain ⟨f, z, found, slots, score⟩ := came other out f' z' score found' slots' score'
      exact placed f z _ found slots score
    · obtain ⟨f, z, found, slots, score, lasts⟩ := queued lasting
      obtain ⟨f', z', found', slots', score', same⟩ := kept other out f z _ found slots score
      exact ⟨f', z', found', slots', score', fun last => same ▸ lasts last⟩

theorem eraseScore (ranked : Ranked q lasting now excused s) (id : String) :
    Ranked q lasting now (insert id excused) (s.eraseScore q.queueKey now id) := by
  have becomes : (s.eraseScore q.queueKey now id).live q.queueKey now =
      (s.live q.queueKey now).map fun f => { f with zset := f.zset.map fun z : Scores => z.erase id } := by
    cases live : s.live q.queueKey now with
    | none =>
      rw [State.eraseScore, live]
      exact live
    | some f =>
      have fresh : f.expired now = false := (State.live_eq_some.mp live).2
      simp only [State.eraseScore, live, Option.map_some]
      exact State.live_put_self fresh
  refine (ranked.mono (Set.subset_insert id excused)).requeue
    (fun other => State.live_congr (State.eraseScore_store_ne (QueueKeys.metadataKey_ne other) s id) now) ?_ ?_ ?_
  · intro f' live
    rw [becomes] at live
    obtain ⟨f, had, rfl⟩ := Option.map_eq_some_iff.mp live
    exact ranked.bare f had
  · intro other out f z score live slots at_
    have ne : other ≠ id := fun same => out (.inl same)
    refine ⟨{ f with zset := some (z.erase id) }, z.erase id, ?_, rfl, ?_, rfl⟩
    · rw [becomes, live, Option.map_some, slots, Option.map_some]
    · rw [AList.lookup_erase_ne ne, at_]
  · intro other out f' z' score live slots at_
    have ne : other ≠ id := fun same => out (.inl same)
    rw [becomes] at live
    obtain ⟨f, had, rfl⟩ := Option.map_eq_some_iff.mp live
    obtain ⟨z, held, rfl⟩ := Option.map_eq_some_iff.mp slots
    rw [AList.lookup_erase_ne ne] at at_
    exact ⟨f, z, had, held, at_⟩

theorem setScore (ranked : Ranked q lasting now (insert id excused) s) (score : ℚ) :
    Ranked q lasting now (insert id excused) (s.setScore q.queueKey now id score) := by
  have becomes : (s.setScore q.queueKey now id score).live q.queueKey now = some { s.entry q.queueKey now with
      zset := some (((s.entry q.queueKey now).zset.getD ∅).insert id score) } :=
    State.live_put_self (s.entry_expired q.queueKey now)
  refine ranked.requeue (fun other => State.setScore_live_ne (QueueKeys.metadataKey_ne other) s now _ _) ?_ ?_ ?_
  · intro f' live
    rw [becomes] at live
    cases live
    cases had : s.live q.queueKey now with
    | none => simp [State.entry, had]
    | some f => simpa [State.entry, had] using ranked.bare f had
  · intro other out f z score' live slots at_
    have ne : other ≠ id := fun same => out (.inl same)
    refine ⟨{ f with zset := some (z.insert id score) }, z.insert id score, ?_, rfl, ?_, rfl⟩
    · rw [becomes, State.entry, live, Option.getD_some, slots, Option.getD_some]
    · rw [AList.lookup_insert_ne ne, at_]
  · intro other out f' z' score' live slots at_
    have ne : other ≠ id := fun same => out (.inl same)
    rw [becomes] at live
    cases live
    cases slots
    rw [AList.lookup_insert_ne ne] at at_
    cases had : s.live q.queueKey now with
    | none => simp [State.entry, had] at at_
    | some f =>
      simp only [State.entry, had, Option.getD_some] at at_
      cases held : f.zset with
      | none => simp [held] at at_
      | some z => exact ⟨f, z, rfl, held, by simpa [held] using at_⟩

theorem dropIfEmpty (ranked : Ranked q lasting now excused s) :
    Ranked q lasting now excused (s.dropIfEmpty q.queueKey) := by
  refine ranked.requeue
    (fun other => State.live_congr (State.dropIfEmpty_store_ne (QueueKeys.metadataKey_ne other) s) now) ?_ ?_ ?_
  · intro f' live
    cases had : s.live q.queueKey now with
    | none => simp [live_dropIfEmpty_none had] at live
    | some f =>
      rw [live_dropIfEmpty_self had] at live
      split at live
      · cases live
      · obtain rfl := Option.some.inj live
        exact ranked.bare _ had
  · intro other out f z score live slots at_
    have full : f.size ≠ some 0 := by
      have member : other ∈ z := AList.lookup_isSome.mp (by simp [at_])
      simp only [Entry.size, ranked.bare f live, slots, Ne, Option.some.injEq, entries_length_eq_zero]
      exact fun empty => empty other member
    refine ⟨f, z, ?_, slots, at_, rfl⟩
    rw [live_dropIfEmpty_self live, if_neg full]
  · intro other out f' z' score live slots at_
    cases had : s.live q.queueKey now with
    | none => simp [live_dropIfEmpty_none had] at live
    | some f =>
      rw [live_dropIfEmpty_self had] at live
      split at live
      · cases live
      · obtain rfl := Option.some.inj live
        exact ⟨_, z', rfl, slots, at_⟩

/-- Metadata deleted leaves nothing to be filed. -/
theorem delete (ranked : Ranked q lasting now (insert id excused) s) :
    Ranked q lasting now excused (s.delete (q.metadataKey id)) := by
  have gone : ∀ e, (s.delete (q.metadataKey id)).live (q.metadataKey id) now ≠ some e := by
    simp [State.live_delete_self]
  have queue : (s.delete (q.metadataKey id)).live q.queueKey now = s.live q.queueKey now :=
    State.live_congr (State.delete_store_ne (QueueKeys.metadataKey_ne id).symm) now
  have others : ∀ other ≠ id, (s.delete (q.metadataKey id)).live (q.metadataKey other) now =
      s.live (q.metadataKey other) now :=
    fun other ne => State.live_congr (State.delete_store_ne (mt QueueKeys.metadataKey_inj.mp ne)) now
  refine ⟨fun f live => ranked.bare f (queue.symm.trans live), fun other out => ?_⟩
  by_cases same : other = id
  · subst same
    exact fun e h live => absurd live (gone e)
  · exact (ranked.filed other fun member => member.elim same out).congr (others other same) queue

/-- A removal's mark hides an entry at most. -/
theorem entomb (ranked : Ranked q lasting now excused s) (id : String) {e : Entry} (bare : e.hash = none) :
    Ranked q lasting now excused (s.put (q.tombstoneKey id) e) := by
  have queue : (s.put (q.tombstoneKey id) e).live q.queueKey now = s.live q.queueKey now :=
    State.live_congr (State.put_store_ne (QueueKeys.tombstoneKey_ne id).symm) now
  have hidden : ∀ other e' h, (s.put (q.tombstoneKey id) e).live (q.metadataKey other) now =
      some e' → e'.hash = some h →
      q.metadataKey other ≠ q.tombstoneKey id := by
    intro other e' h live hash same
    have put := (State.live_eq_some.mp live).1
    rw [same, State.put_store_self] at put
    cases put
    rw [bare] at hash
    cases hash
  refine ⟨fun f live => ranked.bare f (queue.symm.trans live), fun other out e' h live hash => ?_⟩
  have ne := hidden other e' h live hash
  exact (ranked.filed other out).congr (State.live_congr (State.put_store_ne ne) now) queue e' h live hash

theorem elsewhere (ranked : Ranked q lasting now excused s) (keeps : Keeps q.keys now s s') :
    Ranked q lasting now excused s' where
  bare f live := ranked.bare f ((keeps.live _ QueueKeys.queueKey_mem).symm.trans live)
  filed other out := (ranked.filed other out).congr (keeps.live _ (QueueKeys.metadataKey_mem other))
    (keeps.live _ QueueKeys.queueKey_mem)

theorem later (ranked : Ranked q lasting t ∅ s) (order : t ≤ now) : Ranked q lasting now ∅ s where
  bare f live := by
    rw [State.live_later order, Option.filter_eq_some_iff] at live
    exact ranked.bare f live.1
  filed other out e h live hash := by
    rw [State.live_later order, Option.filter_eq_some_iff] at live
    obtain ⟨p, r, t, rated, placed, queued⟩ := ranked.filed other out e h live.1 hash
    refine ⟨p, r, t, rated, ?_, fun lasting => ?_⟩
    · intro f z score found
      rw [State.live_later order, Option.filter_eq_some_iff] at found
      exact placed f z score found.1
    obtain ⟨f, z, found, slots, score, lasts⟩ := queued lasting
    refine ⟨f, z, ?_, slots, score, lasts⟩
    have lives : f.expired now = false := by
      cases until_ : f.expiresAt with
      | none => simp [Entry.expired, until_]
      | some last =>
        obtain ⟨deadline, at_, sooner⟩ := lasts last until_
        have fresh := live.2
        simp only [Entry.expired, at_, Bool.not_eq_true', decide_eq_false_iff_not, not_le] at fresh
        simp [Entry.expired, until_, fresh.trans_le sooner]
    rw [State.live_later order, found, Option.filter_some_pos]
    simp [lives]

end Ranked

/-- The fields an integer request is queued with. -/
def IntegerRequest (request : QueuedRequest) (priority retries timestamp : ℤ) : Prop :=
  InScoreEpoch timestamp ∧ 0 ≤ retries ∧ request.priority = fin priority ∧ request.retries = fin retries ∧
    request.timestamp = fin timestamp

/-- No entry still stored outlasts the lifetime an add gives the queue. -/
def Outlasted (q : QueueKeys) (now : ℚ) (s : State) (seconds : ℚ) : Prop :=
  ∀ id e h, s.live (q.metadataKey id) now = some e → e.hash = some h →
    ∃ deadline, e.expiresAt = some deadline ∧ deadline ≤ now + seconds * 1000

theorem Rated.enqueued {request : QueuedRequest}
    (whole : IntegerRequest request priority retries timestamp) (h : Fields) :
    Rated request.requestId (withFields h request.fields) priority retries timestamp := by
  obtain ⟨within, -, atPriority, atRetries, atTimestamp⟩ := whole
  refine ⟨within, request.fields_requestId h, ?_, ?_, ?_, ?_⟩ <;> cases settled : request.settles <;>
    simp [QueuedRequest.fields, settled, withFields, AList.lookup_insert_ne, atPriority, atRetries, atTimestamp]

namespace Ranked

theorem enqueue {request : QueuedRequest} {seconds : ℚ} (ranked : Ranked q lasting now ∅ s)
    (lives : WholeTtl seconds) (whole : IntegerRequest request priority retries timestamp)
    (outlasted : lasting → Outlasted q now s seconds) :
    Ranked q lasting now ∅ (s.enqueue q request (packedScore priority retries timestamp) seconds now) := by
  have later : now < now + seconds * 1000 := by linarith [lives.pos]
  have apart : q.queueKey ≠ q.metadataKey request.requestId := (QueueKeys.metadataKey_ne _).symm
  generalize scored : (packedScore priority retries timestamp : ℚ) = score
  have queue : (s.enqueue q request score seconds now).live q.queueKey now = some { s.entry q.queueKey now with
      zset := some (((s.entry q.queueKey now).zset.getD ∅).insert request.requestId score)
      expiresAt := some (now + seconds * 1000) } := by
    rw [State.enqueue, State.putFields_live_ne apart]
    exact State.live_put_self (expired_of_lt rfl later)
  obtain ⟨e, h, entry, hash, lasts⟩ : ∃ e h, (s.enqueue q request score seconds now).live
      (q.metadataKey request.requestId) now =
      some e ∧ e.hash = some (withFields h request.fields) ∧ e.expiresAt = some (now + seconds * 1000) :=
    ⟨_, _, State.live_put_self (expired_of_lt rfl later), rfl, rfl⟩
  have others : ∀ other ≠ request.requestId, (s.enqueue q request score seconds now).live
      (q.metadataKey other) now =
      s.live (q.metadataKey other) now := fun other ne =>
    State.live_enqueue_ne (QueueKeys.metadataKey_ne other) (mt QueueKeys.metadataKey_inj.mp ne) now
  refine ⟨fun f live => ?_, fun other _ => ?_⟩
  · rw [queue] at live
    cases live
    cases had : s.live q.queueKey now with
    | none => simp [State.entry, had]
    | some f => simpa [State.entry, had] using ranked.bare f had
  · by_cases same : other = request.requestId
    · subst same
      intro e' h' live hash'
      rw [entry] at live
      cases live
      rw [hash] at hash'
      cases hash'
      refine ⟨_, _, _, .enqueued whole h, ?_, fun _ => ⟨_, _, queue, rfl, ?_, ?_⟩⟩
      · intro f z other found slots at_
        rw [queue] at found
        cases found
        cases slots
        rw [AList.lookup_insert, Option.some.injEq] at at_
        rw [← at_, scored]
      · rw [AList.lookup_insert, scored]
      · rintro last ⟨⟩
        exact ⟨_, lasts, le_rfl⟩
    · intro e' h' live hash'
      rw [others other same] at live
      obtain ⟨p, r, t, rated, placed, queued⟩ := ranked.filed other (Set.notMem_empty other) e' h' live hash'
      refine ⟨p, r, t, rated, ?_, fun lasting => ?_⟩
      · intro f' z' score' found' slots' at_
        rw [queue] at found'
        cases found'
        cases slots'
        rw [AList.lookup_insert_ne same] at at_
        cases had : s.live q.queueKey now with
        | none => simp [State.entry, had] at at_
        | some f =>
          simp only [State.entry, had, Option.getD_some] at at_
          cases slots : f.zset with
          | none => simp [slots] at at_
          | some z => exact placed f z score' had slots (by simpa [slots] using at_)
      · obtain ⟨f, z, found, slots, at_, -⟩ := queued lasting
        refine ⟨_, _, queue, rfl, ?_, ?_⟩
        · simp only [State.entry, found, Option.getD_some, slots]
          rw [AList.lookup_insert_ne same, at_]
        · rintro last ⟨⟩
          exact outlasted lasting other e' h' live hash'

end Ranked

end Steps

section Updates

variable {q : QueueKeys} {lasting : Prop} {now : ℚ} {s : State} {id : String} {h : Fields}
    {priority retries timestamp : ℤ}

/-- The numbers an update writes are integers. -/
def RequestUpdates.Integer (updates : RequestUpdates) : Prop :=
  (∀ x, updates.retries = some x → ∃ n : ℤ, x = fin n) ∧ ∀ x, updates.priority = some x → ∃ n : ℤ, x = fin n

namespace RequestUpdates

theorem Integer.finiteUpdate {x : Option JsNumber} (integer : ∀ y, x = some y → ∃ n : ℤ, y = fin n) :
    Dianemo.finiteUpdate x = none ∨ ∃ n : ℤ, Dianemo.finiteUpdate x = some (fin n) := by
  cases x with
  | none => exact .inl rfl
  | some y =>
    obtain ⟨n, rfl⟩ := integer y rfl
    exact .inr ⟨n, rfl⟩

theorem lookup_fields (updates : RequestUpdates) (h : Fields) :
    (withFields h updates.fields).lookup "priority" =
        ((finiteUpdate updates.priority).map Field.num).or (h.lookup "priority") ∧
      (withFields h updates.fields).lookup "retries" =
        ((finiteUpdate updates.retries).map Field.num).or (h.lookup "retries") := by
  cases retried : finiteUpdate updates.retries <;> cases raised : finiteUpdate updates.priority <;>
    cases nominated : updates.isThawRequest <;>
    simp [RequestUpdates.fields, retried, raised, nominated, withFields, AList.lookup_insert_ne]

theorem lookup_fields_ne (updates : RequestUpdates) (h : Fields) {field : String}
    (other : field ≠ "priority" ∧ field ≠ "retries" ∧ field ≠ "isThawRequest") :
    (withFields h updates.fields).lookup field = h.lookup field := by
  refine withFields_lookup_ne ?_ h
  intro f among
  simp only [RequestUpdates.fields, List.mem_append, List.mem_map] at among
  rcases among with (⟨x, -, rfl⟩ | ⟨x, -, rfl⟩) | ⟨b, -, rfl⟩
  · exact other.2.1.symm
  · exact other.1.symm
  · exact other.2.2.symm

end RequestUpdates

theorem Rated.updated {updates : RequestUpdates} (rated : Rated id h priority retries timestamp)
    (integer : updates.Integer) :
    ∃ priority' retries', Rated id (withFields h updates.fields) priority' retries' timestamp := by
  obtain ⟨atPriority, atRetries⟩ := updates.lookup_fields h
  have raised : ∃ n : ℤ, (withFields h updates.fields).lookup "priority" = some (.num (fin n)) := by
    rcases RequestUpdates.Integer.finiteUpdate integer.2 with none_ | ⟨n, some_⟩
    · exact ⟨priority, by rw [atPriority, none_, rated.priority]; rfl⟩
    · exact ⟨n, by rw [atPriority, some_]; rfl⟩
  have retried : ∃ n : ℤ, (withFields h updates.fields).lookup "retries" = some (.num (fin n)) := by
    rcases RequestUpdates.Integer.finiteUpdate integer.1 with none_ | ⟨n, some_⟩
    · exact ⟨retries, by rw [atRetries, none_, rated.retries]; rfl⟩
    · exact ⟨n, by rw [atRetries, some_]; rfl⟩
  obtain ⟨p, raised⟩ := raised
  obtain ⟨r, retried⟩ := retried
  refine ⟨p, r, rated.within, ?_, ?_, raised, retried, ?_⟩
  · rw [updates.lookup_fields_ne h (by decide), rated.named]
  · rw [updates.lookup_fields_ne h (by decide), rated.owned]
  · rw [updates.lookup_fields_ne h (by decide), rated.timestamp]

/-- A status written leaves the order alone. -/
theorem Ranked.writeStatus (ranked : Ranked q lasting now ∅ s) (held : q.item s now id = some h)
    (status : Option String) :
    Ranked q lasting now ∅ (Dianemo.writeStatus s (q.metadataKey id) status now) := by
  cases status with
  | none => exact ranked
  | some status => exact (ranked.setFields held (by simp [rankFields])).eraseField id (by decide)

/-- What an update writes: safe fields only, or a whole new rank. -/
theorem Ranked.updateRequest (ranked : Ranked q lasting now ∅ s) {updates : RequestUpdates}
    (integer : updates.Integer) : Ranked q lasting now ∅ (updateRequest q s id updates now) := by
  unfold Dianemo.updateRequest
  cases held : s.hash (q.metadataKey id) now with
  | none => exact ranked
  | some h =>
    have own : h.lookup "requestId" = some (.text id) := by
      obtain ⟨e, p, r, t, -, -, rated, -⟩ := ranked.found held
      exact rated.named
    have first := ranked.writeStatus held updates.status
    obtain ⟨h', held'⟩ : ∃ h',
        q.item (Dianemo.writeStatus s (q.metadataKey id) updates.status now) now id = some h' :=
      ⟨_, by rw [item_writeStatus held, Function.update_self]⟩
    dsimp only
    rw [own, Option.isNone_some, Bool.and_false, if_neg Bool.false_ne_true]
    generalize Dianemo.writeStatus s (q.metadataKey id) updates.status now = u at first held' ⊢
    by_cases ranks : updates.needsScoreUpdate = true
    · rw [if_pos ranks]
      obtain ⟨e, p, r, t, live, hash, rated, -, queued⟩ := first.found held'
      obtain ⟨p', r', rated'⟩ := rated.updated integer
      have queue : (u.setFields (q.metadataKey id) now updates.fields).live q.queueKey now =
          u.live q.queueKey now :=
        State.setFields_live_ne (QueueKeys.metadataKey_ne id).symm u now _
      have entry := State.live_setFields live updates.fields
      have reads : ∀ field, (u.setFields (q.metadataKey id) now updates.fields).hget (q.metadataKey id) field now =
          (withFields h' updates.fields).lookup field := by
        intro field
        rw [State.hget, State.hash_setFields held', Option.bind_some]
      rw [reads, reads, reads, rated'.priority, rated'.retries, rated'.timestamp]
      have score : rescore (parseStoredNumber (some (.num (fin p'))) 1) (parseStoredNumber (some (.num (fin r'))) 0)
          (parseStoredNumber (some (.num (fin t))) 0) = packedScore p' r' t := rescore_packed rated.within
      rw [score]
      refine ((first.overwrite id updates.fields).setScore _).settle ?_
      intro e' h'' live' hash'
      have placed := (State.setScore_live_ne (QueueKeys.metadataKey_ne id) _ now _ _).symm.trans live'
      rw [entry] at placed
      cases placed
      cases hash'
      rw [hash, Option.getD_some]
      generalize u.setFields (q.metadataKey id) now updates.fields = v at queue
      have scored : (v.setScore q.queueKey now id (packedScore p' r' t : ℚ)).live q.queueKey now =
          some { v.entry q.queueKey now with
          zset := some (((v.entry q.queueKey now).zset.getD ∅).insert id (packedScore p' r' t : ℚ)) } :=
        State.live_put_self (v.entry_expired q.queueKey now)
      refine ⟨p', r', t, rated', ?_, fun lasting => ?_⟩
      · intro f' z' score' found slots at_
        rw [scored] at found
        cases found
        cases slots
        rw [AList.lookup_insert, Option.some.injEq] at at_
        exact at_.symm
      · obtain ⟨f, z, found, slots, -, lasts⟩ := queued lasting
        refine ⟨_, _, scored, rfl, AList.lookup_insert _, ?_⟩
        rw [State.entry, queue, found]
        exact lasts
    · rw [if_neg ranks]
      refine first.setFields held' ?_
      have still : finiteUpdate updates.retries = none ∧ finiteUpdate updates.priority = none := by
        simpa [RequestUpdates.needsScoreUpdate] using ranks
      intro f among
      simp only [RequestUpdates.fields, still.1, still.2, Option.toList_none, List.map_nil,
        List.nil_append, List.mem_map] at among
      obtain ⟨b, -, rfl⟩ := among
      simp [rankFields]

end Updates

section Calls

variable {q : QueueKeys} {lasting : Prop} {now t t₀ : ℚ} {s : State} {id : String} {h : Fields}

theorem claimFields_unranked (h : Fields) (now : ℚ) : ∀ f ∈ claimFields h now, f.1 ∉ rankFields := by
  intro f among
  simp only [claimFields, List.mem_append, List.mem_cons, List.not_mem_nil, or_false] at among
  rcases among with cleared | rfl | rfl
  · split at cleared
    · cases cleared
    · cases List.mem_singleton.mp cleared
      simp [rankFields]
  · simp [rankFields]
  · simp [rankFields]

namespace Ranked

theorem getNextRequest (ranked : Ranked q lasting now ∅ s) (skipGrantIds skipRequestIds : List String) :
    Ranked q lasting now ∅ (Dianemo.getNextRequest q s skipGrantIds skipRequestIds now).2 := by
  cases next : nextId q s skipGrantIds skipRequestIds now with
  | none =>
    rw [getNextRequest_of_none next]
    exact ranked
  | some id =>
    obtain ⟨h, held, -, -, run⟩ := getNextRequest_of_some next
    rw [run]
    exact ranked.setFields held (claimFields_unranked h now)

theorem confirmRequest (ranked : Ranked q lasting now ∅ s) (id : String) (claimedAt : JsNumber) :
    Ranked q lasting now ∅ (Dianemo.confirmRequest q s id claimedAt now).2 := by
  unfold Dianemo.confirmRequest
  split
  · exact ranked
  · split
    · exact ranked
    · split
      · exact ranked
      · split
        · exact ranked
        · exact ranked.eraseField id (by decide)

theorem removeRequest (ranked : Ranked q lasting now ∅ s) (id : String) (ttl : JsNumber) :
    Ranked q lasting now ∅ (Dianemo.removeRequest q s id ttl now).2 :=
  ((ranked.eraseScore id).dropIfEmpty.delete).entomb id rfl

/-- An entry swept keeps its owner, so one that keeps none has no metadata. -/
theorem sweepRequest (ranked : Ranked q lasting now ∅ s) (alive : List String) (id : String) :
    Ranked q lasting now ∅ (Dianemo.sweepRequest q alive now s id) := by
  unfold Dianemo.sweepRequest
  split
  · rename_i ownerless
    refine (ranked.eraseScore id).settle fun e h live hash => ?_
    have kept : q.item (s.eraseScore q.queueKey now id) now id = some h :=
      Option.bind_eq_some_iff.mpr ⟨e, live, hash⟩
    have held : q.item s now id = some h := by rwa [item_eraseScore] at kept
    obtain ⟨e', p, r, t, -, -, rated, -⟩ := ranked.found held
    have owned := rated.owned
    simp only [QueueKeys.item] at held
    simp [State.hget, held] at ownerless
    simp [ownerless] at owned
  · split
    · exact (ranked.eraseScore id).delete
    · exact ranked

theorem cleanupOrphanedRequests (ranked : Ranked q lasting now ∅ s) (alive : List String) (current : String) :
    Ranked q lasting now ∅ (Dianemo.cleanupOrphanedRequests q s alive current now) := by
  unfold Dianemo.cleanupOrphanedRequests
  split
  · exact ranked
  · refine Ranked.dropIfEmpty ?_
    generalize s.sorted q.queueKey now = ids
    induction ids generalizing s with
    | nil => exact ranked
    | cons id rest ih => exact ih (ranked.sweepRequest alive id)

theorem tryStartThawRequest (ranked : Ranked q lasting now ∅ s) {frozenGrantsKey : String}
    (avoid : frozenGrantsKey ∉ q.keys) (id grantId : String) (anyGrant : Bool) :
    Ranked q lasting now ∅ (Dianemo.tryStartThawRequest q s frozenGrantsKey id grantId anyGrant now).2 := by
  obtain ⟨u, joined, run⟩ := tryStartThawRequest_run avoid s id grantId anyGrant now
  have first := ranked.elsewhere joined
  rw [run]
  split
  · exact first
  · split
    · exact first
    · rename_i there
      obtain ⟨h, held⟩ := Option.ne_none_iff_exists'.mp (by simpa using there)
      exact first.setFields held (by simp [rankFields])

end Ranked

/-- Requests are added with integer numbers and rescored with integers, and
nothing else reaches the queue's keys. -/
def QueueCall.Integer (q : QueueKeys) (now : ℚ) (s : State) : QueueCall → Prop
  | .addRequest request _ => ∃ priority retries timestamp, IntegerRequest request priority retries timestamp
  | .updateRequest _ updates => updates.Integer
  | .tryStartThawRequest frozenGrantsKey _ _ _ => frozenGrantsKey ∉ q.keys
  | .elsewhere after => Keeps q.keys now s after
  | _ => True

/-- An add that is accepted does not cut the queue's lifetime below an entry's. -/
def QueueCall.Lasting (q : QueueKeys) (now : ℚ) (s : State) : QueueCall → Prop
  | .addRequest request ttl => ((Dianemo.addRequest q request ttl now).run s).1 = .ok true →
      ∀ seconds, normalizeStateTtlSeconds ttl = .ok seconds → Outlasted q now s seconds
  | _ => True

/-- Runs whose calls are such. -/
def integerRuns (q : QueueKeys) : Timed.Machine ℚ State QueueCall where
  step now call s := call.exec q now s
  allowed now call s := call.Integer q now s

def rankedRuns (q : QueueKeys) : Timed.Machine ℚ State QueueCall where
  step now call s := call.exec q now s
  allowed now call s := call.Integer q now s ∧ call.Lasting q now s

theorem Ranked.addRequest (ranked : Ranked q lasting now ∅ s) {request : QueuedRequest} {ttl : JsNumber}
    (integer : (QueueCall.addRequest request ttl).Integer q now s)
    (lasts : lasting → (QueueCall.addRequest request ttl).Lasting q now s) :
    Ranked q lasting now ∅ ((Dianemo.addRequest q request ttl now).run s).2 := by
  obtain ⟨p, r, t, whole⟩ := integer
  rcases addRequest_scored q request ttl now s
    with ⟨e, run⟩ | ⟨run, -⟩ | ⟨score, seconds, scored, normal, -, -, run⟩
  · rw [run]
    exact ranked
  · rw [run]
    exact ranked
  · have outlasted : lasting → Outlasted q now s seconds :=
      fun lasting => lasts lasting (by rw [run]) seconds normal
    rw [whole.2.2.1, whole.2.2.2.1, whole.2.2.2.2, calculateQueueScore_packed whole.1, Except.ok.injEq] at scored
    rw [run, ← scored]
    exact ranked.enqueue (normalizeStateTtlSeconds_whole normal) whole outlasted

theorem Ranked.exec {call : QueueCall} (ranked : Ranked q lasting now ∅ s) (integer : call.Integer q now s)
    (lasts : lasting → call.Lasting q now s) : Ranked q lasting now ∅ (call.exec q now s) := by
  cases call with
  | addRequest request ttl => exact ranked.addRequest integer lasts
  | getNextRequest skipGrantIds skipRequestIds => exact ranked.getNextRequest skipGrantIds skipRequestIds
  | confirmRequest id claimedAt => exact ranked.confirmRequest id claimedAt
  | updateRequest id updates => exact ranked.updateRequest integer
  | removeRequest id ttl => exact ranked.removeRequest id ttl
  | cleanupOrphanedRequests alive current => exact ranked.cleanupOrphanedRequests alive current
  | tryStartThawRequest frozenGrantsKey id grantId anyGrant =>
    exact ranked.tryStartThawRequest integer id grantId anyGrant
  | elsewhere after => exact ranked.elsewhere integer

theorem Ranked.fresh (q : QueueKeys) (lasting : Prop) (t : ℚ) : Ranked q lasting t ∅ State.fresh where
  bare _ live := nomatch live
  filed _ _ _ _ live := nomatch live

theorem integerRuns_ranked {history : List (ℚ × QueueCall)} (valid : (integerRuns q).Valid t₀ State.fresh history) :
    Ranked q False ((integerRuns q).clock t₀ history) ∅ ((integerRuns q).final State.fresh history) :=
  valid.invariant (I := fun now s => Ranked q False now ∅ s)
    (fun _ _ _ _ order integer ranked => (ranked.later order).exec integer False.elim)
    (Ranked.fresh q False t₀)

theorem rankedRuns_ranked {history : List (ℚ × QueueCall)} (valid : (rankedRuns q).Valid t₀ State.fresh history) :
    Ranked q True ((integerRuns q).clock t₀ history) ∅ ((integerRuns q).final State.fresh history) := by
  rw [Timed.Machine.clock_congr (integerRuns q) (rankedRuns q),
    Timed.Machine.final_congr (show (integerRuns q).step = (rankedRuns q).step from rfl)]
  refine valid.invariant (I := fun now s => Ranked q True now ∅ s) ?_ (Ranked.fresh q True t₀)
  rintro t now call s order ⟨integer, lasts⟩ ranked
  exact (ranked.later order).exec integer fun _ => lasts

/-- What `getNextRequest` does when it hands the entry `id` out. -/
structure Handout (q : QueueKeys) (now : ℚ) (s : State) (skipGrantIds skipRequestIds : List String)
    (id : String) : Prop where
  candidate : mayHandOut q s skipGrantIds skipRequestIds now id = true
  least : ∃ z score, s.zset q.queueKey now = some z ∧ z.lookup id = some score ∧
    ∀ other score', z.lookup other = some score' → mayHandOut q s skipGrantIds skipRequestIds now other = true →
      score < score' ∨ score = score' ∧ memberBytes id ≤ memberBytes other
  answer : ∃ request, (getNextRequest q s skipGrantIds skipRequestIds now).1 = some request ∧ request.requestId = id
  elsewhere : ∀ key ≠ q.metadataKey id,
    (getNextRequest q s skipGrantIds skipRequestIds now).2.store key = s.store key
  entry : ∃ e h h', s.live (q.metadataKey id) now = some e ∧ e.hash = some h ∧
    (getNextRequest q s skipGrantIds skipRequestIds now).2.store (q.metadataKey id) =
      some { e with hash := some h' } ∧
    (∀ field, field ≠ "status" ∧ field ≠ "claimedAt" ∧ field ≠ "isThawRequest" → h'.lookup field = h.lookup field) ∧
    (h.lookup "status" = some (.text "pending") → h'.lookup "isThawRequest" = h.lookup "isThawRequest")

theorem nextId_least {skipGrantIds skipRequestIds : List String}
    (next : nextId q s skipGrantIds skipRequestIds now = some id) :
    ∃ z score, s.zset q.queueKey now = some z ∧ z.lookup id = some score ∧
      ∀ other score', z.lookup other = some score' → mayHandOut q s skipGrantIds skipRequestIds now other = true →
        score < score' ∨ score = score' ∧ memberBytes id ≤ memberBytes other := by
  unfold nextId State.sorted at next
  cases found : s.zset q.queueKey now with
  | none => simp [found] at next
  | some z =>
    simp only [found, List.find?_map, Option.map_eq_some_iff] at next
    obtain ⟨⟨id', score⟩, first, rfl⟩ := next
    have entry : ∀ {other : String} {score' : ℚ}, z.lookup other = some score' ↔
        (other, score') ∈ z.entries.map fun e => (e.1, e.2) := by
      intro other score'
      constructor
      · intro at_
        exact List.mem_map.mpr ⟨⟨other, score'⟩, AList.mem_lookup_iff.mp at_, rfl⟩
      · intro member
        obtain ⟨⟨k, v⟩, inside, same⟩ := List.mem_map.mp member
        cases same
        exact AList.mem_lookup_iff.mpr inside
    refine ⟨z, score, rfl, entry.mpr ?_, fun other score' at_ may => ?_⟩
    · exact (List.mem_insertionSort _).mp (List.mem_of_find?_eq_some first)
    · rcases Precedence.find?_insertionSort first _ (entry.mp at_) may with lt | ⟨same, le⟩
      · exact .inl lt
      · exact .inr ⟨same, (compareEncoded_le _ _).mp ((compareMembers_bytes _ _).mp le)⟩

theorem handout {skipGrantIds skipRequestIds : List String}
    (next : nextId q s skipGrantIds skipRequestIds now = some id)
    (named : ∀ h, q.item s now id = some h → h.lookup "requestId" = some (.text id)) :
    Handout q now s skipGrantIds skipRequestIds id := by
  obtain ⟨h, held, -, readable, run⟩ := getNextRequest_of_some next
  obtain ⟨e, live, hash⟩ := Option.bind_eq_some_iff.mp held
  have same : s.entry (q.metadataKey id) now = e := by simp [State.entry, live]
  refine ⟨List.find?_some next, nextId_least next, ?_, fun key ne => ?_, e, h,
    withFields h (claimFields h now), live, hash, ?_,
    fun field other => lookup_claimFields h now other, fun waiting => ?_⟩
  · rw [run]
    have whole : Whole (withFields h (claimFields h now)) := (Whole.of_toQueued readable).faithful (.claimed h now)
    have status : (withFields h (claimFields h now)).lookup "status" = some (.text "inProgress") := by
      simp [claimFields, withFields, AList.lookup_insert_ne]
    obtain ⟨request, read⟩ := Option.isSome_iff_exists.mp (whole.toQueued status (by decide))
    exact ⟨request, read, (toQueued_claimFields read (named h held)).1⟩
  · rw [run]
    exact State.put_store_ne ne
  · rw [run, State.setFields, same, hash]
    exact State.put_store_self _ _ _
  · simp [claimFields, waiting, withFields, AList.lookup_insert_ne]

/-- Whatever an integer run makes of the queue: every member has the score of its own entry's fields, no
entry lacks its place if the adds last, and the next one out is the least that may go. -/
theorem queue_order_matches_metadata {history : List (ℚ × QueueCall)}
    (valid : (integerRuns q).Valid t₀ State.fresh history) (since : (integerRuns q).clock t₀ history ≤ now)
    (skipGrantIds skipRequestIds : List String) :
    (∀ id h z score, q.item ((integerRuns q).final State.fresh history) now id = some h →
      ((integerRuns q).final State.fresh history).zset q.queueKey now = some z → z.lookup id = some score →
      ∃ priority retries timestamp, h.lookup "priority" = some (.num priority) ∧
        h.lookup "retries" = some (.num retries) ∧
        h.lookup "timestamp" = some (.num timestamp) ∧ calculateQueueScore priority retries timestamp = .ok score) ∧
    ((rankedRuns q).Valid t₀ State.fresh history → ∀ id h,
      q.item ((integerRuns q).final State.fresh history) now id = some h →
        ∃ z, ((integerRuns q).final State.fresh history).zset q.queueKey now = some z ∧ id ∈ z) ∧
    ((getNextRequest q ((integerRuns q).final State.fresh history) skipGrantIds skipRequestIds now =
          (none, (integerRuns q).final State.fresh history) ∧
        ∀ z, ((integerRuns q).final State.fresh history).zset q.queueKey now = some z → ∀ id ∈ z,
          mayHandOut q ((integerRuns q).final State.fresh history) skipGrantIds skipRequestIds now id = false) ∨
      ∃ id, Handout q now ((integerRuns q).final State.fresh history) skipGrantIds skipRequestIds id) := by
  have ranked := (integerRuns_ranked valid).later since
  refine ⟨?_, ?_, ?_⟩
  · generalize (integerRuns q).final State.fresh history = s at ranked ⊢
    intro id h z score held scores at_
    obtain ⟨e, p, r, t, -, -, rated, placed, -⟩ := ranked.found held
    obtain ⟨f, live, slots⟩ := Option.bind_eq_some_iff.mp scores
    refine ⟨_, _, _, rated.priority, rated.retries, rated.timestamp, ?_⟩
    rw [placed f z score live slots at_]
    exact calculateQueueScore_packed rated.within
  · intro lasting id h held
    have lasts := (rankedRuns_ranked lasting).later since
    obtain ⟨e, p, r, t, -, -, -, -, queued⟩ := lasts.found held
    obtain ⟨f, z, live, slots, score, -⟩ := queued trivial
    exact ⟨z, Option.bind_eq_some_iff.mpr ⟨f, live, slots⟩,
      AList.lookup_isSome.mp (by rw [score, Option.isSome_some])⟩
  · generalize (integerRuns q).final State.fresh history = s at ranked ⊢
    cases next : nextId q s skipGrantIds skipRequestIds now with
    | none =>
      refine .inl ⟨getNextRequest_of_none next, fun z found id member => ?_⟩
      have refused := List.find?_eq_none.mp next id (State.mem_sorted.mpr ⟨z, found, member⟩)
      simpa using refused
    | some id =>
      refine .inr ⟨id, handout next fun h held => ?_⟩
      obtain ⟨e, p, r, t, -, -, rated, -⟩ := ranked.found held
      exact rated.named

theorem integerRequest_plain (id owner : String) : IntegerRequest (plainRequest id owner) 1 0 1767225600000 :=
  ⟨by norm_num [InScoreEpoch, queueScoreEpochMs, queueRetryBand], le_rfl, rfl, rfl, rfl⟩

/-- A request is queued, counts two retries and is claimed. -/
def rescoredRun : List (ℚ × QueueCall) :=
  [(0, .addRequest (plainRequest "first" "owner") 86400),
    (1, .updateRequest "first" { retries := some (fin (2 : ℤ)) }), (2, .getNextRequest [] [])]

theorem queue_order_matches_metadata_retried :
    (∀ id h z score, (clientQueue "ns").item ((integerRuns (clientQueue "ns")).final State.fresh rescoredRun) 10003 id = some h →
      ((integerRuns (clientQueue "ns")).final State.fresh rescoredRun).zset
        (clientQueue "ns").queueKey 10003 = some z → z.lookup id = some score →
      ∃ priority retries timestamp, h.lookup "priority" = some (.num priority) ∧
        h.lookup "retries" = some (.num retries) ∧
        h.lookup "timestamp" = some (.num timestamp) ∧ calculateQueueScore priority retries timestamp = .ok score) ∧
      ∃ z, ((integerRuns (clientQueue "ns")).final State.fresh rescoredRun).zset
        (clientQueue "ns").queueKey 10003 = some z ∧
        "first" ∈ z := by
  have first := integerRequest_plain "first" "owner"
  have updates : RequestUpdates.Integer { retries := some (fin (2 : ℤ)) } := by
    refine ⟨?_, fun x none_ => absurd none_ (by simp)⟩
    rintro x ⟨⟩
    exact ⟨2, rfl⟩
  have valid : (integerRuns (clientQueue "ns")).Valid 0 State.fresh rescoredRun :=
    Timed.Machine.valid_cons.mpr ⟨le_rfl, ⟨_, _, _, first⟩, Timed.Machine.valid_cons.mpr ⟨by norm_num, updates,
      Timed.Machine.valid_cons.mpr ⟨by norm_num, trivial, Timed.Machine.valid_nil⟩⟩⟩
  have lasting : (rankedRuns (clientQueue "ns")).Valid 0 State.fresh rescoredRun := by
    refine Timed.Machine.valid_cons.mpr ⟨le_rfl, ⟨⟨_, _, _, first⟩, ?_⟩,
      Timed.Machine.valid_cons.mpr ⟨by norm_num, ⟨updates, trivial⟩,
        Timed.Machine.valid_cons.mpr ⟨by norm_num, ⟨trivial, trivial⟩, Timed.Machine.valid_nil⟩⟩⟩
    intro _ seconds _ id e h live
    cases live
  have stored : ((clientQueue "ns").item ((integerRuns (clientQueue "ns")).final State.fresh rescoredRun) 10003 "first").isSome =
      true := by decide +kernel
  have ending : (integerRuns (clientQueue "ns")).clock 0 rescoredRun ≤ 10003 := by decide +kernel
  obtain ⟨h, held⟩ := Option.isSome_iff_exists.mp stored
  obtain ⟨scores, placed, -⟩ := queue_order_matches_metadata valid ending [] []
  exact ⟨scores, placed lasting "first" h held⟩

/-- A short-lived request is queued beside a lasting one. -/
def shortRun : List (ℚ × QueueCall) :=
  [(0, .addRequest (plainRequest "lasting" "owner") 86400), (0, .addRequest (plainRequest "brief" "owner") 1)]

/-- Each add sets how long the queue's key lives, so the lasting entry loses its place. -/
theorem queue_order_misses_short :
    (integerRuns (clientQueue "ns")).Valid 0 State.fresh shortRun ∧
      ((clientQueue "ns").item ((integerRuns (clientQueue "ns")).final State.fresh shortRun) 1000 "lasting").isSome = true ∧
      ((integerRuns (clientQueue "ns")).final State.fresh shortRun).zset (clientQueue "ns").queueKey 1000 = none :=
  ⟨Timed.Machine.valid_cons.mpr ⟨le_rfl, ⟨_, _, _, integerRequest_plain "lasting" "owner"⟩,
      Timed.Machine.valid_cons.mpr ⟨le_rfl, ⟨_, _, _, integerRequest_plain "brief" "owner"⟩, Timed.Machine.valid_nil⟩⟩,
    by decide +kernel, by decide +kernel⟩

end Calls

end Dianemo
