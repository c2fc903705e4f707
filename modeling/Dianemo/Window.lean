import Dianemo.Thaw

namespace Dianemo

open JsNumber

/-- A backend call as one freeze key sees it. `elsewhere` stands for whatever
reads, admissions, refunds, nominations, sweeps and lapses turn the store into. -/
inductive FreezeCall where
  | armFreeze (frozenUntil thawRequestCount : JsNumber) (emptiesBucket : Bool)
  | updateThawProgress (success : Bool) (completionId : Option String)
  | elsewhere (after : State)

def FreezeCall.exec (key : String) (now : ℚ) (s : State) : FreezeCall → State
  | .armFreeze frozenUntil thawRequestCount emptiesBucket =>
    ((Dianemo.armFreeze key frozenUntil thawRequestCount emptiesBucket now).run s).2
  | .updateThawProgress success completionId => ((Dianemo.updateThawProgress key success completionId now).run s).2
  | .elsewhere after => after

/-- Runs of the backend in which only `armFreeze` and `updateThawProgress` write to `key`. -/
def freezeRuns (key : String) : Timed.Machine ℚ State FreezeCall where
  step now call s := call.exec key now s
  allowed now call s := ∀ after, call = .elsewhere after → Keeps {key} now s after

/-- Whatever names the freeze `key` is held back, and its deadline is `F` or later. -/
structure Frozen (key : String) (F now : ℚ) (s : State) : Prop where
  canProcess : (canProcessRequest s key now).canProcess = false
  deadline : ∃ G, usableDeadline (s.hget key "frozenUntil" now) = some G ∧ F ≤ G
  immediately : ∀ queueKey bucketKey cost config ttl mark admitted,
    ((tryAdmitImmediately queueKey bucketKey key cost config ttl mark now).run s).1 =
      .ok admitted → admitted = false
  noLimit : ∀ queueKey, tryAdmitNoLimit s queueKey key now = false
  concurrency : ∀ queueKey concurrencyKey cost requestId config ttl admitted,
    ((tryAdmitConcurrency queueKey concurrencyKey key cost requestId config ttl now).run s).1 = .ok admitted →
      admitted = false
  multiLimit : ∀ queueKey freezeKeys specs ttl admitted, key ∈ freezeKeys →
    ((tryAdmitMultiLimit queueKey freezeKeys specs ttl now).run s).1 = .ok admitted → admitted = false

section Stored

/-- A deadline `storable` leaves as it is. -/
structure SafeDeadline (F : ℚ) : Prop where
  whole : (⌊F⌋ : ℚ) = F
  above : -maxSafeInteger ≤ F
  below : F ≤ maxSafeInteger

theorem trunc_whole (q : ℚ) : ∃ n : ℤ, (fin q).trunc = fin n := by
  by_cases sign : 0 ≤ q
  · exact ⟨⌊q⌋, if_pos sign⟩
  · exact ⟨⌈q⌉, if_neg sign⟩

theorem le_trunc {F q : ℚ} (whole : (⌊F⌋ : ℚ) = F) (le : F ≤ q) {n : ℤ} (cut : (fin q).trunc = fin n) : F ≤ n := by
  by_cases sign : 0 ≤ q
  · have same : fin ⌊q⌋ = fin n := (if_pos sign).symm.trans cut
    rw [← fin.inj same, ← whole]
    exact_mod_cast Int.floor_mono le
  · have same : fin ⌈q⌉ = fin n := (if_neg sign).symm.trans cut
    rw [← fin.inj same]
    exact le.trans (Int.le_ceil q)

/-- Storing a deadline never takes it below a stored one it is at or past. -/
theorem storable_deadline (q : ℚ) :
    ∃ F, storable (fin q) (-maxSafeInteger) = fin F ∧ SafeDeadline F ∧ ∀ G, SafeDeadline G → G ≤ q → G ≤ F := by
  obtain ⟨n, cut⟩ := trunc_whole q
  have limit : maxSafeInteger = ((9007199254740991 : ℤ) : ℚ) := by norm_num [maxSafeInteger]
  refine ⟨Min.min (Max.max (n : ℚ) (-maxSafeInteger)) maxSafeInteger, ?_, ?_, ?_⟩
  · simp only [storable, cut, max_fin, min_fin]
  · constructor
    · rw [limit]
      have cast : Min.min (Max.max (n : ℚ) (-((9007199254740991 : ℤ) : ℚ))) ((9007199254740991 : ℤ) : ℚ) =
          ((Min.min (Max.max n (-9007199254740991)) 9007199254740991 : ℤ) : ℚ) := by push_cast; rfl
      rw [cast, Int.floor_intCast]
    · refine le_min (le_max_right _ _) ?_
      norm_num [maxSafeInteger]
    · exact min_le_right _ _
  · intro G safe le
    exact le_min ((le_trunc safe.whole le cut).trans (le_max_left _ _)) safe.below

theorem freezeTtlSeconds_fin (F : ℚ) (count : JsNumber) (now : ℚ) :
    ∃ ttl, freezeTtlSeconds (fin F) count now = fin ttl ∧ 0 < ttl ∧ F < now + ttl * 1000 := by
  have rest : ∃ more : ℚ, 0 < more ∧ (if 0 < count then fin freezeProbeTtlSeconds else 60) = fin more := by
    by_cases owed : 0 < count
    · exact ⟨freezeProbeTtlSeconds, by norm_num [freezeProbeTtlSeconds], if_pos owed⟩
    · exact ⟨60, by norm_num, (if_neg owed).trans (ofNat_eq 60)⟩
  obtain ⟨more, positive, added⟩ := rest
  have thousand : (1000 : ℚ) ≠ 0 := by norm_num
  have window : ((fin F - fin now) / 1000).ceil.max 0 = fin (Max.max (⌈(F - now) / 1000⌉ : ℚ) 0) := by
    rw [ofNat_eq, sub_fin, div_fin thousand, ceil_fin, zero_eq, max_fin]
  refine ⟨Max.max (⌈(F - now) / 1000⌉ : ℚ) 0 + more, ?_, ?_, ?_⟩
  · rw [freezeTtlSeconds, window, added, add_fin]
  · exact add_pos_of_nonneg_of_pos (le_max_right _ _) positive
  · have up : (F - now) / 1000 ≤ Max.max (⌈(F - now) / 1000⌉ : ℚ) 0 := (Int.le_ceil _).trans (le_max_left _ _)
    have scaled : F - now ≤ Max.max (⌈(F - now) / 1000⌉ : ℚ) 0 * 1000 := (div_le_iff₀ (by norm_num)).mp up
    linarith

theorem normalizeTtlSeconds_le {q w : ℚ} (normal : normalizeTtlSeconds (fin q) = .ok w) : q ≤ w := by
  simp only [normalizeTtlSeconds] at normal
  split at normal
  · cases normal
  · split at normal
    · rename_i nothing
      cases normal
      exact nothing
    · cases normal
      exact Int.le_ceil q

end Stored

/-- The freeze deadline `key` holds, if it holds any; the key outlives it. -/
def FreezeAt (s : State) (key : String) (now : ℚ) : Option ℚ → Prop
  | none => s.live key now = none
  | some F => ∃ h t, s.Held key now h t ∧ h.lookup "frozenUntil" = some (.num (fin F)) ∧ SafeDeadline F ∧ F < t

section Freezes

variable {s s' : State} {key : String} {t now F : ℚ} {o : Option ℚ}

theorem FreezeAt.congr (same : s'.live key now = s.live key now) (at_ : FreezeAt s key now o) :
    FreezeAt s' key now o := by
  cases o with
  | none => exact same.trans at_
  | some F =>
    obtain ⟨h, t, ⟨e, live, held⟩, rest⟩ := at_
    exact ⟨h, t, ⟨e, same.trans live, held⟩, rest⟩

/-- Time passing takes the key away only after its deadline. -/
theorem FreezeAt.later (at_ : FreezeAt s key t o) (order : t ≤ now) :
    FreezeAt s key now none ∧ (∀ F, o = some F → F < now) ∨ FreezeAt s key now o := by
  cases o with
  | none => exact .inr (live_none_later order at_)
  | some F =>
    obtain ⟨h, lapses, held, rest, safe, outlives⟩ := at_
    by_cases past : lapses ≤ now
    · refine .inl ⟨held_past held order past, ?_⟩
      rintro _ ⟨⟩
      exact outlives.trans_le past
    · exact .inr ⟨h, lapses, held_before held order (not_le.mp past), rest, safe, outlives⟩

theorem FreezeAt.deadline (at_ : FreezeAt s key now (some F)) :
    usableDeadline (s.hget key "frozenUntil" now) = some F := by
  obtain ⟨h, t, held, stored, -⟩ := at_
  simp [hget_of_held held, stored, usableDeadline, parseStoredNumber]

theorem FreezeAt.deadline_none (at_ : FreezeAt s key now none) :
    usableDeadline (s.hget key "frozenUntil" now) = none := by
  rw [hget_of_absent at_]
  rfl

theorem FreezeAt.of_deadline (at_ : FreezeAt s key now o)
    (stored : usableDeadline (s.hget key "frozenUntil" now) = some F) :
    FreezeAt s key now (some F) := by
  cases o with
  | none =>
    rw [at_.deadline_none] at stored
    cases stored
  | some G =>
    rw [at_.deadline] at stored
    cases stored
    exact at_

/-- The deadline a merge settles on: finite, and no earlier than the standing one. -/
theorem FreezeAt.merge (at_ : FreezeAt s key now o) (q : ℚ) (count : JsNumber) (empties : Bool) :
    ∃ r, (mergeFreeze s key ⟨fin q, count, empties⟩ now).frozenUntil = fin r ∧ ∀ G, o = some G → G ≤ r := by
  cases o with
  | none =>
    refine ⟨q, ?_, nofun⟩
    simp only [mergeFreeze, at_.deadline_none]
  | some G =>
    by_cases longer : q < G
    · refine ⟨G, ?_, ?_⟩
      · simp only [mergeFreeze, at_.deadline, fin_lt_fin, if_pos longer]
      · rintro _ ⟨⟩
        exact le_rfl
    · refine ⟨q, ?_, ?_⟩
      · simp only [mergeFreeze, at_.deadline, fin_lt_fin, if_neg longer]
      · rintro _ ⟨⟩
        exact not_lt.mp longer

theorem sanitised (x : JsNumber) : ∃ q, (if x.isFinite then x else 0) = fin q := by
  by_cases finite : x.isFinite
  · obtain ⟨q, rfl⟩ := isFinite_iff.mp finite
    exact ⟨q, if_pos finite⟩
  · exact ⟨0, (if_neg finite).trans zero_eq⟩

/-- Arming never moves the deadline back. -/
theorem FreezeAt.arm (at_ : FreezeAt s key now o) (frozenUntil thawRequestCount : JsNumber) (emptiesBucket : Bool) :
    ∃ o', FreezeAt ((armFreeze key frozenUntil thawRequestCount emptiesBucket now).run s).2 key now o' ∧
      ∀ G, o = some G → ∃ G', o' = some G' ∧ G ≤ G' := by
  obtain ⟨q, asked⟩ := sanitised frozenUntil
  obtain ⟨r, merged, kept⟩ := at_.merge q (if thawRequestCount.isFinite then thawRequestCount else 0) emptiesBucket
  obtain ⟨F, stored, safe, atLeast⟩ := storable_deadline r
  rw [armFreeze, writeFreezeState, Op.run_bind_ok (Op.run_read s)]
  simp only [asked, merged, stored]
  generalize storable _ 0 = count
  generalize (mergeFreeze _ _ _ _).emptiesBucket = empties
  obtain ⟨ttl, sized, positive, outlives⟩ := freezeTtlSeconds_fin F count now
  rw [sized]
  cases normal : normalizeTtlSeconds (fin ttl) with
  | error e =>
    rw [Op.run_bind_error (Op.run_lift _ s)]
    exact ⟨o, at_, fun G found => ⟨G, found, le_rfl⟩⟩
  | ok w =>
    have longer : ttl ≤ w := normalizeTtlSeconds_le normal
    have whole := normalizeTtlSeconds_whole normal (positive.trans_le longer)
    rw [Op.run_bind_ok (Op.run_lift _ s), Op.run_bind_ok (Op.run_modify _ s),
      Op.run_bind_ok (expire_setFields whole s key now _)]
    refine ⟨some F, ⟨_, _, held_putFields whole.pos _, ?_, safe, ?_⟩, ?_⟩
    · simp [withFields, AList.lookup_insert_ne]
    · linarith
    · intro G found
      refine ⟨F, rfl, atLeast G ?_ (kept G found)⟩
      subst found
      obtain ⟨-, -, -, -, safe, -⟩ := at_
      exact safe

theorem thawCompletionsKey_ne (key : String) : key ≠ thawCompletionsKey key := by
  intro same
  have lengths := congrArg String.length same
  simp [thawCompletionsKey] at lengths

/-- Recording a completion leaves every other key as it is. -/
theorem recordCompletion_keeps (key : String) (completionId : Option String) (now : ℚ) (s : State) :
    ∃ s', (recordCompletion key completionId now).run s = (.ok (), s') ∧ s'.live key now = s.live key now := by
  have ne := thawCompletionsKey_ne key
  have week : WholeTtl freezeProbeTtlSeconds :=
    ⟨by norm_num [freezeProbeTtlSeconds], by norm_num [freezeProbeTtlSeconds, redisMaxTtlSeconds],
      by norm_num [freezeProbeTtlSeconds]⟩
  cases completionId with
  | none => exact ⟨s, rfl, rfl⟩
  | some id =>
    rw [recordCompletion, Op.run_bind_ok (Op.run_read s)]
    by_cases skip : id = "" ∨ completionSeen s key (some id) now
    · rw [if_pos skip]
      exact ⟨s, rfl, rfl⟩
    · rw [if_neg skip, Op.run_bind_ok (Op.run_modify _ s)]
      have made : (s.addMember (thawCompletionsKey key) now id).live (thawCompletionsKey key) now =
          some { s.entry (thawCompletionsKey key) now with
            set := some (insert id ((s.entry (thawCompletionsKey key) now).set.getD ∅)) } :=
        State.live_put_self (s.entry_expired _ now)
      refine ⟨_, expire_put week made, ?_⟩
      rw [State.live_congr (State.put_store_ne ne), State.addMember, State.live_congr (State.put_store_ne ne)]

theorem FreezeAt.delete (o : Option ℚ) (past : ∀ G, o = some G → G ≤ now) (s : State) (key : String) :
    ∃ o', FreezeAt (s.delete key) key now o' ∧ ∀ G, o = some G → now < G → o' = some G :=
  ⟨none, State.live_delete_self s key now, fun G found stands => absurd (past G found) (not_le.mpr stands)⟩

/-- A probe counted: the deadline stays, and the key still outlives it. -/
theorem FreezeAt.count (at_ : FreezeAt s key now (some F)) (newCount : JsNumber) :
    FreezeAt ((do
        Op.modify fun s => s.setFields key now [("thawRequestCount", .num newCount)]
        expire key (freezeTtlSeconds (fin F) newCount now) now : Op Unit).run s).2 key now (some F) := by
  obtain ⟨h, t, held, stored, safe, outlives⟩ := at_
  obtain ⟨ttl, sized, positive, longer⟩ := freezeTtlSeconds_fin F newCount now
  have marked := held_setFields held [("thawRequestCount", .num newCount)]
  have kept : (withFields h [("thawRequestCount", .num newCount)]).lookup "frozenUntil" = some (.num (fin F)) := by
    simpa [withFields, AList.lookup_insert_ne] using stored
  rw [Op.run_bind_ok (Op.run_modify _ s), sized]
  cases normal : normalizeTtlSeconds (fin ttl) with
  | error e =>
    rw [expire, Op.run_bind_error (by rw [normal]; rfl)]
    exact ⟨_, t, marked, kept, safe, outlives⟩
  | ok w =>
    have up := normalizeTtlSeconds_le normal
    have whole := normalizeTtlSeconds_whole normal (positive.trans_le up)
    have resized : (expire key (fin ttl) now).run (s.setFields key now [("thawRequestCount", .num newCount)]) =
        (expire key w now).run (s.setFields key now [("thawRequestCount", .num newCount)]) := by
      simp only [expire, normal, whole.normalize]
    rw [resized, expire_setFields whole]
    refine ⟨_, _, held_putFields whole.pos _, ?_, safe, by linarith⟩
    obtain ⟨e, live, hash, -⟩ := held
    have same : (s.entry key now).hash = some h := by simp [State.entry, live, hash]
    rw [same]
    exact kept

/-- A completed probe takes the freeze away only once its deadline is past. -/
theorem FreezeAt.progress (at_ : FreezeAt s key now o) (success : Bool) (completionId : Option String) :
    ∃ o', FreezeAt ((updateThawProgress key success completionId now).run s).2 key now o' ∧
      ∀ G, o = some G → now < G → o' = some G := by
  obtain ⟨u, recorded, same⟩ := recordCompletion_keeps key completionId now s
  have unchanged : ∃ o', FreezeAt u key now o' ∧ ∀ G, o = some G → now < G → o' = some G :=
    ⟨o, at_.congr same, fun G found _ => found⟩
  rw [updateThawProgress, Op.run_bind_ok (Op.run_read s), Op.run_bind_ok recorded, Op.run_bind_ok (Op.run_read u)]
  cases o with
  | none =>
    rw [(at_.congr same).deadline_none]
    exact unchanged
  | some F =>
    rw [(at_.congr same).deadline]
    dsimp only
    generalize parseFiniteStored (u.hget key "thawRequestCount" now) 0 = thawRequestCount
    by_cases seen : completionSeen s key completionId now
    · rw [if_pos seen]
      exact unchanged
    rw [if_neg seen]
    by_cases spent : F ≤ now ∧ thawRequestCount ≤ 0
    · rw [if_pos spent, Op.run_bind_ok (Op.run_modify _ u)]
      exact FreezeAt.delete _ (fun G found => Option.some.inj found ▸ spent.1) u key
    rw [if_neg spent]
    by_cases failed : ¬ success
    · rw [if_pos failed]
      exact unchanged
    rw [if_neg failed]
    by_cases last : JsNumber.max 0 (thawRequestCount - 1) = 0 ∧ F ≤ now
    · rw [if_pos last, Op.run_bind_ok (Op.run_modify _ u)]
      exact FreezeAt.delete _ (fun G found => Option.some.inj found ▸ last.2) u key
    rw [if_neg last]
    refine ⟨some F, ?_, fun G found _ => found⟩
    have counted := (at_.congr same).count (JsNumber.max 0 (thawRequestCount - 1))
    rw [Op.run_bind_ok (Op.run_modify _ u)] at counted ⊢
    generalize (u.setFields key now [("thawRequestCount", Field.num (JsNumber.max 0 (thawRequestCount - 1)))]) = v at counted ⊢
    cases run : (expire key (freezeTtlSeconds (fin F) (JsNumber.max 0 (thawRequestCount - 1)) now) now).run v with
    | mk outcome after =>
      rw [run] at counted
      cases outcome with
      | error e =>
        rw [Op.run_bind_error run]
        exact counted
      | ok done =>
        rw [Op.run_bind_ok run]
        exact counted

/-- One call, however long it is waited for. -/
theorem FreezeAt.call (at_ : FreezeAt s key t o) (order : t ≤ now) {call : FreezeCall}
    (allowed : (freezeRuns key).allowed now call s) :
    ∃ o', FreezeAt (call.exec key now s) key now o' ∧ ∀ G, o = some G → now < G → ∃ G', o' = some G' ∧ G ≤ G' := by
  -- the freeze as it stands when the call is made
  obtain ⟨u, now_, upon⟩ : ∃ u, FreezeAt s key now u ∧ ∀ G, o = some G → now < G → u = some G := by
    rcases at_.later order with ⟨gone, past⟩ | stays
    · exact ⟨none, gone, fun G found stands => absurd (past G found) (not_lt.mpr stands.le)⟩
    · exact ⟨o, stays, fun G found _ => found⟩
  cases call with
  | armFreeze frozenUntil thawRequestCount emptiesBucket =>
    obtain ⟨o', after, longer⟩ := now_.arm frozenUntil thawRequestCount emptiesBucket
    exact ⟨o', after, fun G found stands => longer G (upon G found stands)⟩
  | updateThawProgress success completionId =>
    obtain ⟨o', after, kept⟩ := now_.progress success completionId
    exact ⟨o', after, fun G found stands => ⟨G, kept G (upon G found stands) stands, le_rfl⟩⟩
  | elsewhere after =>
    refine ⟨u, now_.congr ((allowed after rfl).live key rfl), ?_⟩
    exact fun G found stands => ⟨G, upon G found stands, le_rfl⟩

theorem FreezeAt.blocks (at_ : FreezeAt s key now (some F)) (stands : now < F) :
    s.freezeBlocksAdmission key now = true := by
  simp [State.freezeBlocksAdmission, at_.deadline, stands]

end Freezes

section Refusals

variable {s : State} {key : String} {now : ℚ}

theorem tryAdmitImmediately_blocked (blocked : s.freezeBlocksAdmission key now = true) {queueKey bucketKey : String}
    {cost : JsNumber} {config : TokenBucketConfig} {ttl : JsNumber} {mark : Option ClaimMark} {admitted : Bool}
    (run : ((tryAdmitImmediately queueKey bucketKey key cost config ttl mark now).run s).1 = .ok admitted) :
    admitted = false := by
  unfold tryAdmitImmediately at run
  cases normal : normalizeStateTtlSeconds ttl with
  | error e =>
    rw [normal, Op.run_bind_error (Op.run_lift _ s)] at run
    cases run
  | ok keyTtl =>
    rw [normal, Op.run_bind_ok (Op.run_lift _ s)] at run
    cases claim : claimMark mark with
    | error e =>
      rw [claim, Op.run_bind_error (Op.run_lift _ s)] at run
      cases run
    | ok made =>
      rw [claim, Op.run_bind_ok (Op.run_lift _ s), Op.run_bind_ok (Op.run_read s),
        if_pos (Or.inr (Or.inr blocked))] at run
      cases run
      rfl

theorem tryAdmitConcurrency_blocked (blocked : s.freezeBlocksAdmission key now = true)
    {queueKey concurrencyKey requestId : String} {cost : JsNumber} {config : ConcurrencyConfig} {ttl : JsNumber}
    {admitted : Bool}
    (run : ((tryAdmitConcurrency queueKey concurrencyKey key cost requestId config ttl now).run s).1 = .ok admitted) :
    admitted = false := by
  unfold tryAdmitConcurrency at run
  cases normal : normalizeStateTtlSeconds ttl with
  | error e =>
    rw [normal, Op.run_bind_error (Op.run_lift _ s)] at run
    cases run
  | ok keyTtl =>
    rw [normal, Op.run_bind_ok (Op.run_lift _ s), Op.run_bind_ok (Op.run_read s),
      if_pos (Or.inr (Or.inr blocked))] at run
    cases run
    rfl

theorem tryAdmitMultiLimit_blocked (blocked : s.freezeBlocksAdmission key now = true) {queueKey : String}
    {freezeKeys : List String} (named : key ∈ freezeKeys) {specs : List MultiLimitSpec}
    {ttl : JsNumber} {admitted : Bool}
    (run : ((tryAdmitMultiLimit queueKey freezeKeys specs ttl now).run s).1 = .ok admitted) : admitted = false := by
  unfold tryAdmitMultiLimit at run
  cases normal : normalizeStateTtlSeconds ttl with
  | error e =>
    rw [normal, Op.run_bind_error (Op.run_lift _ s)] at run
    cases run
  | ok keyTtl =>
    rw [normal, Op.run_bind_ok (Op.run_lift _ s)] at run
    cases claim : claimMarks specs with
    | error e =>
      rw [claim, Op.run_bind_error (Op.run_lift _ s)] at run
      cases run
    | ok made =>
      have any : freezeKeys.any (fun freezeKey => s.freezeBlocksAdmission freezeKey now) = true :=
        List.any_eq_true.mpr ⟨key, named, blocked⟩
      rw [claim, Op.run_bind_ok (Op.run_lift _ s), Op.run_bind_ok (Op.run_read s), if_pos (Or.inr any)] at run
      cases run
      rfl

/-- Inside the window of a standing freeze nothing that names it gets through. -/
theorem FreezeAt.frozen {F G : ℚ} (at_ : FreezeAt s key now (some G)) (later : F ≤ G) (stands : now < F) :
    Frozen key F now s := by
  have window : now < G := stands.trans_le later
  have blocked := at_.blocks window
  refine ⟨?_, ⟨G, at_.deadline, later⟩, ?_, ?_, ?_, ?_⟩
  · have read : readFreezeState s key now = some ⟨G, parseFiniteStored (s.hget key "thawRequestCount" now) 0⟩ := by
      simp only [readFreezeState, at_.deadline, not_le.mpr window, false_and, if_false]
    simp only [canProcessRequest, read, if_pos window]
  · intro queueKey bucketKey cost config ttl mark admitted run
    exact tryAdmitImmediately_blocked blocked run
  · intro queueKey
    simp [tryAdmitNoLimit, blocked]
  · intro queueKey concurrencyKey cost requestId config ttl admitted run
    exact tryAdmitConcurrency_blocked blocked run
  · intro queueKey freezeKeys specs ttl admitted named run
    exact tryAdmitMultiLimit_blocked blocked named run

end Refusals

section FreezeRuns

variable {s : State} {key : String} {t₀ t now F : ℚ}

/-- Every freeze the run stores stands until its deadline, whatever follows. -/
theorem freeze_stands (untouched : s.store key = none) {early late : List (ℚ × FreezeCall)}
    (before : (freezeRuns key).Valid t₀ s early) (since : (freezeRuns key).clock t₀ early ≤ t)
    (stored : usableDeadline (((freezeRuns key).final s early).hget key "frozenUntil" t) = some F)
    (after : (freezeRuns key).Valid t ((freezeRuns key).final s early) late)
    (later : (freezeRuns key).clock t late ≤ now) (within : now < F) :
    Frozen key F now ((freezeRuns key).final ((freezeRuns key).final s early) late) := by
  obtain ⟨o, at_⟩ := before.invariant (I := fun t s => ∃ o, FreezeAt s key t o)
    (by
      rintro t now call s order allowed ⟨o, at_⟩
      obtain ⟨o', after, -⟩ := at_.call order allowed
      exact ⟨o', after⟩)
    ⟨none, by simp [FreezeAt, State.live, untouched]⟩
  have start : FreezeAt ((freezeRuns key).final s early) key t (some F) := by
    rcases at_.later since with ⟨gone, -⟩ | stays
    · exact gone.of_deadline stored
    · exact stays.of_deadline stored
  -- until `F` is past the deadline only moves on
  have kept := after.invariant (I := fun t s => t < F → ∃ G, FreezeAt s key t (some G) ∧ F ≤ G)
    (by
      intro t now call s order allowed held within
      obtain ⟨G, at_, longer⟩ := held (order.trans_lt within)
      obtain ⟨o', after, kept⟩ := at_.call order allowed
      obtain ⟨G', rfl, further⟩ := kept G rfl (within.trans_le longer)
      exact ⟨G', after, longer.trans further⟩)
    (fun _ => ⟨F, start, le_rfl⟩)
  obtain ⟨G, at_, longer⟩ := kept (later.trans_lt within)
  rcases at_.later later with ⟨-, past⟩ | stays
  · exact absurd (past G rfl) (not_lt.mpr (within.le.trans longer))
  · exact stays.frozen longer within

end FreezeRuns

/-- A probe of the freeze armed first succeeds twice over, and a shorter freeze is asked for. -/
def rearmedRun : List (ℚ × FreezeCall) :=
  [(1000, .updateThawProgress true (some "probe")), (1500, .armFreeze 2000 nan false),
    (1600, .updateThawProgress true (some "probe")), (1700, .updateThawProgress true (some "other"))]

theorem freeze_stands_rearmed :
    Frozen "freeze" 5000 4999 ((freezeRuns "freeze").final
      ((freezeRuns "freeze").final State.fresh [(0, .armFreeze 5000 1 true)]) rearmedRun) := by
  have arms : ∀ now s deadline count empties,
      (freezeRuns "freeze").allowed now (.armFreeze deadline count empties) s :=
    fun now s deadline count empties after named => nomatch named
  have probes : ∀ now s success id, (freezeRuns "freeze").allowed now (.updateThawProgress success id) s :=
    fun now s success id after named => nomatch named
  have early : (freezeRuns "freeze").Valid 0 State.fresh [(0, .armFreeze 5000 1 true)] :=
    Timed.Machine.valid_cons.mpr ⟨le_rfl, arms _ _ _ _ _, Timed.Machine.valid_nil⟩
  have late : (freezeRuns "freeze").Valid 0
      ((freezeRuns "freeze").final State.fresh [(0, .armFreeze 5000 1 true)]) rearmedRun :=
    Timed.Machine.valid_cons.mpr ⟨by norm_num, probes _ _ _ _,
      Timed.Machine.valid_cons.mpr ⟨by norm_num, arms _ _ _ _ _,
      Timed.Machine.valid_cons.mpr ⟨by norm_num, probes _ _ _ _, Timed.Machine.valid_cons.mpr
        ⟨by norm_num, probes _ _ _ _, Timed.Machine.valid_nil⟩⟩⟩⟩
  exact freeze_stands rfl early (by decide +kernel) (by decide +kernel) late (by decide +kernel) (by norm_num)

end Dianemo
