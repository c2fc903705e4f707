import Dianemo.Registry

namespace Dianemo

/-- A limit's `type`, as the source spells it. -/
def RateLimitData.type : RateLimitData → String
  | .requestLimit .. => "requestLimit"
  | .concurrencyLimit _ => "concurrencyLimit"
  | .sharedLimit _ => "sharedLimit"
  | .noLimit => "noLimit"
  | .unrecognised type => type

/-- `inheritedName`: the name of the one limit of the type before, unless the update claims it. -/
def inheritedName (type : String) (previous : Option (List NamedRateLimitData)) (taken : List String) : String :=
  let sameType := (previous.getD []).filter fun limit => limit.data.type = type
  match sameType with
  | [limit] => if limit.name ∈ taken then defaultRateLimitName else limit.name
  | _ => defaultRateLimitName

/-- The names an update claims. -/
def takenNames (config : List DeclaredRateLimit) : List String := config.flatMap fun limit => limit.name.toList

/-- The list a limit without a name may take one from. -/
def inheritFrom (config : List DeclaredRateLimit) (previous : Option (List NamedRateLimitData)) :
    Option (List NamedRateLimitData) :=
  let unnamed := (config.filter fun limit => limit.name = none).length
  if unnamed = 1 then previous else none

/-- The name a limit of the update goes by. -/
def resolvedName (config : List DeclaredRateLimit) (previous : Option (List NamedRateLimitData))
    (limit : DeclaredRateLimit) : String :=
  limit.name.getD (inheritedName limit.data.type (inheritFrom config previous) (takenNames config))

/-- `normalizeRateLimit`, with the list that `config` replaces. -/
def normalizeRateLimitFrom (config : List DeclaredRateLimit) (previous : Option (List NamedRateLimitData)) :
    List NamedRateLimitData :=
  config.map fun limit => ⟨resolvedName config previous limit, limit.data⟩

/-- A named limit, declared again. -/
def NamedRateLimitData.declared (limit : NamedRateLimitData) : DeclaredRateLimit := ⟨some limit.name, limit.data⟩

section Inherited

variable {type : String} {previous : Option (List NamedRateLimitData)} {taken : List String}
  {config : List DeclaredRateLimit} {limit : DeclaredRateLimit}

theorem inheritedName_none : inheritedName type none taken = defaultRateLimitName := rfl

theorem inheritedName_single {one : NamedRateLimitData} {list : List NamedRateLimitData}
    (single : list.filter (fun limit => limit.data.type = type) = [one]) :
    inheritedName type (some list) taken = if one.name ∈ taken then defaultRateLimitName else one.name := by
  simp only [inheritedName, Option.getD_some, single]

theorem inheritedName_several {list : List NamedRateLimitData}
    (several : (list.filter fun limit => limit.data.type = type).length ≠ 1) :
    inheritedName type (some list) taken = defaultRateLimitName := by
  simp only [inheritedName, Option.getD_some]
  split
  · rename_i one single
    rw [single] at several
    exact absurd rfl several
  · rfl

/-- A name that is inherited is one the update does not claim. -/
theorem inheritedName_free : inheritedName type previous taken = defaultRateLimitName ∨
    inheritedName type previous taken ∉ taken := by
  simp only [inheritedName]
  split
  · split
    · exact .inl rfl
    · rename_i free
      exact .inr free
  · exact .inl rfl

/-- Normalising keeps each limit's type, so as many limits have it as before. -/
theorem normalizeRateLimitFrom_filter (p : String → Bool) :
    (normalizeRateLimitFrom config previous).filter (fun limit => p limit.data.type) =
      (config.filter fun limit => p limit.data.type).map fun limit =>
        ⟨resolvedName config previous limit, limit.data⟩ := by
  rw [normalizeRateLimitFrom, List.filter_map]
  rfl

end Inherited

/-- Every limit the update leaves unnamed is the only one of its type there, or
takes the default name. -/
def Unambiguous (config : List DeclaredRateLimit) (previous : List NamedRateLimitData) : Prop :=
  ∀ limit ∈ config, limit.name = none →
    (config.filter fun other => other.data.type = limit.data.type).length = 1 ∨
      inheritedName limit.data.type (inheritFrom config (some previous)) (takenNames config) = defaultRateLimitName

section Again

variable {config : List DeclaredRateLimit} {previous : List NamedRateLimitData} {limit : DeclaredRateLimit}

theorem resolvedName_unnamed (unnamed : limit.name = none) (list : Option (List NamedRateLimitData)) :
    resolvedName config list limit = inheritedName limit.data.type (inheritFrom config list)
      (takenNames config) := by
  rw [resolvedName, unnamed, Option.getD_none]

/-- The name a limit goes by when the update is sent again. -/
theorem resolvedName_again (member : limit ∈ config) (unnamed : limit.name = none) :
    resolvedName config (some (normalizeRateLimitFrom config (some previous))) limit =
      if (config.filter fun other => other.data.type = limit.data.type).length = 1 then
        resolvedName config (some previous) limit
      else defaultRateLimitName := by
  have kept : (normalizeRateLimitFrom config (some previous)).filter
      (fun other => other.data.type = limit.data.type) =
      (config.filter fun other => other.data.type = limit.data.type).map
        fun other => ⟨resolvedName config (some previous) other, other.data⟩ :=
    normalizeRateLimitFrom_filter fun type => decide (type = limit.data.type)
  rw [resolvedName_unnamed unnamed]
  by_cases only : (config.filter fun limit => limit.name = none).length = 1
  · rw [inheritFrom, if_pos only]
    by_cases alone : (config.filter fun other => other.data.type = limit.data.type).length = 1
    · obtain ⟨other, single⟩ := List.length_eq_one_iff.mp alone
      have same : limit = other := by
        have among : limit ∈ config.filter fun other => other.data.type = limit.data.type :=
          List.mem_filter.mpr ⟨member, decide_eq_true rfl⟩
        rw [single] at among
        exact List.mem_singleton.mp among
      rw [single, ← same, List.map_singleton] at kept
      rw [if_pos alone, inheritedName_single kept]
      have either : inheritedName limit.data.type (inheritFrom config (some previous)) (takenNames config) =
            defaultRateLimitName ∨
          inheritedName limit.data.type (inheritFrom config (some previous))
            (takenNames config) ∉ takenNames config :=
        inheritedName_free
      rcases either with default | free
      · rw [resolvedName_unnamed unnamed, default, ite_self]
      · rw [resolvedName_unnamed unnamed, if_neg free]
    · rw [if_neg alone, inheritedName_several]
      rwa [kept, List.length_map]
  · have default : resolvedName config (some previous) limit = defaultRateLimitName := by
      rw [resolvedName_unnamed unnamed, inheritFrom, if_neg only, inheritedName_none]
    rw [inheritFrom, if_neg only, inheritedName_none, default, ite_self]

theorem normalizeRateLimitFrom_declared (list : List NamedRateLimitData)
    (other : Option (List NamedRateLimitData)) :
    normalizeRateLimitFrom (list.map NamedRateLimitData.declared) other = list := by
  rw [normalizeRateLimitFrom, List.map_map]
  exact List.map_id _

/-- An update renames no limit when it is sent again, against the list it
produced, if and only if it is unambiguous; and a list whose limits are all
named stays as it is. -/
theorem update_stable (config : List DeclaredRateLimit) (previous : List NamedRateLimitData) :
    (normalizeRateLimitFrom config (some (normalizeRateLimitFrom config (some previous))) =
        normalizeRateLimitFrom config (some previous) ∧
      ∀ (list : List NamedRateLimitData) (other : Option (List NamedRateLimitData)),
        normalizeRateLimitFrom (list.map NamedRateLimitData.declared) other = list) ↔
      Unambiguous config previous := by
  constructor
  · rintro ⟨again, -⟩ limit member unnamed
    have same := List.map_inj_left.mp again limit member
    rw [NamedRateLimitData.mk.injEq, resolvedName_again member unnamed] at same
    by_cases alone : (config.filter fun other => other.data.type = limit.data.type).length = 1
    · exact .inl alone
    · rw [if_neg alone, resolvedName_unnamed unnamed] at same
      exact .inr same.1.symm
  · intro unambiguous
    refine ⟨List.map_congr_left fun limit member => ?_, normalizeRateLimitFrom_declared⟩
    rw [NamedRateLimitData.mk.injEq]
    refine ⟨?_, rfl⟩
    cases unnamed : limit.name with
    | some name => rw [resolvedName, resolvedName, unnamed, Option.getD_some, Option.getD_some]
    | none =>
      rw [resolvedName_again member unnamed]
      rcases unambiguous limit member unnamed with alone | default
      · rw [if_pos alone]
      · rw [resolvedName_unnamed unnamed, default, ite_self]

/-- One bucket, and an update that leaves it unnamed and adds another: sent
again, it gives the first bucket a new name. -/
theorem update_renames :
    let previous : List NamedRateLimitData := [⟨"per_day", .requestLimit 1000 1000 86400000 none⟩]
    let config : List DeclaredRateLimit :=
      [⟨none, .requestLimit 2000 2000 86400000 none⟩, ⟨some "per_second", .requestLimit 10 10 1000 none⟩]
    let first := normalizeRateLimitFrom config (some previous)
    rateLimitsProblem previous = none ∧ rateLimitsProblem first = none ∧
      first.map NamedRateLimitData.name = ["per_day", "per_second"] ∧
      (normalizeRateLimitFrom config (some first)).map NamedRateLimitData.name = ["default", "per_second"] := by
  decide +kernel

end Again

end Dianemo
