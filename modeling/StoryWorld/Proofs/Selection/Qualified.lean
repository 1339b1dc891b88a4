import StoryWorld.Proofs.Filter.Chain
import StoryWorld.Proofs.World.Links
import StoryWorld.Selection.Select

/-!
# Who is selected

Every stage of a selection keeps those who pass a test of its own, in their order, and but for the
preference order, which looks at everyone of the right kinds, the test is about the entity alone.
So the stages together ask of each entity of the world whether it qualifies
(`SelectionRule.Qualifies`), and the pick gets those who do (`SelectionRule.select_fst`). A pick of
the first or of all then takes them from the front (`SelectionRule.select_eq_take`).
-/

namespace StoryWorld

/-! ## What the stages ask -/

/-- Whether `r` is an active relationship that `id` is the right end of, of one kind when `kind` is
given. -/
def Relationship.IsOf (r : Relationship) (id : EntityId) (kind : Option String) (d : Direction) :
    Prop :=
  r.status = .active ∧ (∀ k ∈ kind, r.kind = k) ∧ r.touches id d = true

instance (r : Relationship) (id : EntityId) (kind : Option String) (d : Direction) :
    Decidable (r.IsOf id kind d) :=
  inferInstanceAs (Decidable (_ ∧ _ ∧ _))

/-- Whether an entity is of a kind that is asked for, if any is. -/
def Criteria.OfKind (c : Criteria) (e : Entity) : Prop :=
  (c.kind = none ∧ c.kinds = []) ∨ c.kind = some e.kind ∨ e.kind ∈ c.kinds

instance (c : Criteria) (e : Entity) : Decidable (c.OfKind e) :=
  inferInstanceAs (Decidable ((_ ∧ _) ∨ _ ∨ _))

/-- The first of the listed subtypes that someone in the pool has. -/
def firstCarried (pool : List Entity) (subtypes : List String) : Option String :=
  subtypes.find? fun subtype => ∃ e ∈ pool, e.subtype = subtype

/-- Whether a strategy admits an entity out of a pool. -/
def Strategy.Admits (ctx : Context) (pool : List Entity) (e : Entity) : Strategy → Prop
  | byKind => True
  | byPreferenceOrder subtypes => ∀ subtype ∈ firstCarried pool subtypes, e.subtype = subtype
  | byRelationship kind direction mustHave =>
    (∃ r ∈ ctx.world.relationships, r.IsOf e.id kind direction) ↔ mustHave = true
  | byProximity reference maxDistance =>
    ∃ other ∈ ctx.resolve reference, ∃ origin ∈ other.coordinates, ∃ point ∈ e.coordinates,
      point.distance origin ≤ maxDistance.getD ctx.tuning.proximityMaxDistance
  | byProminence least => least ≤ e.prominence

instance (ctx : Context) (pool : List Entity) (e : Entity) :
    ∀ s : Strategy, Decidable (s.Admits ctx pool e)
  | .byKind => inferInstanceAs (Decidable True)
  | .byPreferenceOrder subtypes =>
    inferInstanceAs (Decidable (∀ subtype ∈ firstCarried pool subtypes, e.subtype = subtype))
  | .byRelationship _ _ _ => inferInstanceAs (Decidable (_ ↔ _))
  | .byProximity reference _ =>
    inferInstanceAs (Decidable (∃ other ∈ ctx.resolve reference, ∃ origin ∈ other.coordinates,
      ∃ point ∈ e.coordinates, _ ≤ _))
  | .byProminence least => inferInstanceAs (Decidable (least ≤ e.prominence))

/-- Whether a relationship of an entity counts towards a limit. -/
def SaturationLimit.Counts (l : SaturationLimit) (w : World) (e : Entity) (r : Relationship) :
    Prop :=
  r.IsOf e.id (some l.relationshipKind) l.direction
    ∧ ∀ kind ∈ l.fromKind, ∃ other ∈ w.entities, other.id = r.otherEnd e.id ∧ other.kind = kind

instance (l : SaturationLimit) (w : World) (e : Entity) (r : Relationship) :
    Decidable (l.Counts w e r) :=
  inferInstanceAs (Decidable (_ ∧ _))

namespace SelectionRule

/-- The entities of the world that are of the right kinds. -/
def pool (r : SelectionRule) (w : World) : List Entity :=
  w.entities.filter (r.criteria.OfKind ·)

/-- Everything a rule asks of an entity. -/
@[mk_iff]
structure Qualifies (r : SelectionRule) (ctx : Context) (e : Entity) : Prop where
  kind : r.criteria.OfKind e
  strategy : r.strategy.Admits ctx (r.pool ctx.world) e
  subtype : r.criteria.subtypes ≠ [] → e.subtype ∈ r.criteria.subtypes
  notExcluded : e.subtype ∉ r.excludeSubtypes
  status : ∀ status ∈ r.criteria.status, e.status = status
  statuses : r.criteria.statuses ≠ [] → e.status ∈ r.criteria.statuses
  notStatus : r.criteria.notStatus ≠ some e.status
  filters : ∀ f ∈ r.filters, f.admits ctx.toScope e = true
  limits : ∀ l ∈ r.saturationLimits,
    ctx.world.relationships.countP (l.Counts ctx.world e ·) < l.maxCount.toNat

instance (r : SelectionRule) (ctx : Context) (e : Entity) : Decidable (r.Qualifies ctx e) :=
  decidable_of_iff' _ (qualifies_iff r ctx e)

/-- The entities of the world that qualify, in the order of the world. -/
def qualified (r : SelectionRule) (ctx : Context) : List Entity :=
  ctx.world.entities.filter (r.Qualifies ctx ·)

/-- How many of the available entities a rule takes that takes them from the front. -/
def wanted (r : SelectionRule) (available : Nat) : Nat :=
  match r.maxResults with
  | some n => n.toNat
  | none => if r.pickStrategy = .all then available else 1

end SelectionRule

/-! ## What the stages keep -/

theorem World.relationshipsOf_eq (w : World) (id : EntityId) (kind : Option String)
    (d : Direction) : w.relationshipsOf id kind d = w.relationships.filter (·.IsOf id kind d) := by
  unfold relationshipsOf activeRelationships
  rw [List.filter_filter]
  refine List.filter_congr fun r _ => ?_
  rw [Bool.eq_iff_iff, decide_eq_true_eq]
  simp only [Bool.and_eq_true, agrees_iff, Relationship.isActive, decide_eq_true_eq]
  exact and_comm

theorem World.hasRelationship_none {w : World} {id : EntityId} {kind : Option String}
    {d : Direction} :
    w.hasRelationship id kind none d = true ↔ ∃ r ∈ w.relationships, r.IsOf id kind d := by
  simp [hasRelationship, relationshipsOf_eq]

namespace Criteria

theorem mem_kindSet {c : Criteria} {kind : String} :
    kind ∈ c.kindSet ↔ c.kind = some kind ∨ kind ∈ c.kinds := by
  have hfold : ∀ kinds set : List String,
      kind ∈ kinds.foldl (fun set k => if set.contains k then set else set ++ [k]) set
        ↔ kind ∈ set ∨ kind ∈ kinds := by
    intro kinds
    induction kinds with
    | nil => simp
    | cons k kinds ih =>
      intro set
      rw [List.foldl_cons, ih]
      split
      · rename_i hk
        rw [List.contains_iff_mem] at hk
        grind
      · simp [or_assoc]
  rw [kindSet, hfold, Option.mem_toList]

theorem ofKinds_eq (c : Criteria) (pool : List Entity) :
    c.ofKinds pool = pool.filter (c.OfKind ·) := by
  have hempty : c.kindSet = [] ↔ c.kind = none ∧ c.kinds = [] := by
    simp only [List.eq_nil_iff_forall_not_mem, mem_kindSet, not_or, forall_and,
      Option.eq_none_iff_forall_ne_some, ne_eq]
  unfold ofKinds OfKind
  by_cases h : c.kindSet = []
  · simp [h, hempty.1 h]
  · simp only [List.isEmpty_iff, h, if_false, ← hempty, false_or, ← mem_kindSet,
      List.contains_eq_mem]

theorem acceptsSubtype_iff {c : Criteria} {exclude : List String} {e : Entity} :
    c.acceptsSubtype exclude e = true ↔
      (c.subtypes ≠ [] → e.subtype ∈ c.subtypes) ∧ e.subtype ∉ exclude := by
  simp [acceptsSubtype, Classical.or_iff_not_imp_left]

theorem acceptsStatus_iff {c : Criteria} {e : Entity} :
    c.acceptsStatus e = true ↔ (∀ status ∈ c.status, e.status = status)
      ∧ (c.statuses ≠ [] → e.status ∈ c.statuses) ∧ c.notStatus ≠ some e.status := by
  have hnot : c.notStatus.all (· ≠ e.status) = true ↔ c.notStatus ≠ some e.status := by
    cases c.notStatus <;> simp
  rw [acceptsStatus, Bool.and_eq_true, Bool.and_eq_true, hnot, agrees_iff]
  simp [Classical.or_iff_not_imp_left, and_assoc]

end Criteria

/-- A preference order keeps those of the first subtype that anyone has. -/
theorem preferred_eq (pool : List Entity) : ∀ subtypes : List String,
    preferred pool subtypes =
      pool.filter fun e => ∀ subtype ∈ firstCarried pool subtypes, e.subtype = subtype
  | [] => by simp [preferred, firstCarried]
  | subtype :: rest => by
    simp only [preferred, firstCarried, List.find?_cons]
    by_cases h : ∃ e ∈ pool, e.subtype = subtype
    · have hfound : (pool.filter (·.subtype = subtype)).isEmpty = false := by
        simpa [List.isEmpty_eq_false_iff] using h
      simp [hfound, h]
    · -- Nobody has it: the search and the list of subtypes both go on.
      have hfound : (pool.filter (·.subtype = subtype)).isEmpty = true := by
        simpa using h
      simp only [hfound, if_true, h, decide_false]
      exact preferred_eq pool rest

theorem Strategy.narrow_eq (s : Strategy) (ctx : Context) (pool : List Entity) :
    s.narrow ctx pool = pool.filter (s.Admits ctx pool ·) := by
  cases s with
  | byKind => exact (List.filter_eq_self.2 fun _ _ => decide_eq_true trivial).symm
  | byPreferenceOrder subtypes => exact preferred_eq pool subtypes
  | byRelationship kind direction mustHave =>
    refine List.filter_congr fun e _ => ?_
    rw [decide_eq_decide, Admits, ← World.hasRelationship_none, Bool.eq_iff_iff]
  | byProximity reference maxDistance =>
    simp only [narrow]
    cases hat : (ctx.resolve reference).bind (·.coordinates) with
    | none =>
      refine (List.filter_eq_nil_iff.2 fun e _ => ?_).symm
      rw [decide_eq_true_eq]
      rintro ⟨other, hother, origin, horigin, -⟩
      have hsome := Option.bind_eq_some_iff.2 ⟨other, hother, horigin⟩
      exact Option.some_ne_none origin (hsome.symm.trans hat)
    | some origin =>
      obtain ⟨other, hother, horigin⟩ := Option.bind_eq_some_iff.1 hat
      refine List.filter_congr fun e _ => ?_
      rw [Bool.eq_iff_iff, decide_eq_true_eq]
      simp [Admits, hother, horigin, Option.any_eq_true]
  | byProminence least => rfl

theorem filterStages_fst (scope : Scope) :
    ∀ (l : List Filter) (candidates : List Entity) (captures : Captures) (trace : Option Trace),
      (filterStages scope l candidates captures trace).1 =
        candidates.filter fun e => ∀ f ∈ l, f.admits scope e = true
  | [], candidates, _, _ => by simp [filterStages]
  | f :: rest, candidates, captures, trace => by
    simp only [filterStages]
    rw [filterStages_fst scope rest, Filter.apply_fst, List.filter_filter]
    simp [Bool.and_comm]

theorem saturationStages_fst (w : World) :
    ∀ (l : List SaturationLimit) (candidates : List Entity) (trace : Option Trace),
      (saturationStages w l candidates trace).1 =
        candidates.filter fun e => ∀ limit ∈ l, limit.allows w e = true
  | [], candidates, _ => by simp [saturationStages]
  | limit :: rest, candidates, trace => by
    simp only [saturationStages]
    rw [saturationStages_fst w rest, List.filter_filter]
    simp [Bool.and_comm]

/-- A limit counts what it is said to count, as an id is that of one entity at most. -/
theorem SaturationLimit.allows_iff {w : World} (h : w.WellFormed) {l : SaturationLimit}
    {e : Entity} :
    l.allows w e = true ↔ w.relationships.countP (l.Counts w e ·) < l.maxCount.toNat := by
  have hcount : l.count w e = w.relationships.countP (l.Counts w e ·) := by
    unfold count
    rw [World.relationshipsOf_eq, List.countP_filter]
    refine List.countP_congr fun r _ => ?_
    simp only [Bool.and_eq_true, decide_eq_true_eq, Option.all_eq_true, Option.any_eq_true,
      h.entity?_eq_some_iff, and_assoc]
    exact and_comm
  rw [allows, hcount, decide_eq_true_eq]

namespace SelectionRule

variable {σ : Type} [DrawSource σ] (r : SelectionRule)

/-- The pick gets those who qualify. -/
theorem select_fst {ctx : Context} (h : ctx.world.WellFormed) (trace : Option Trace)
    (s : Scratch σ) :
    (r.select ctx trace s).1.1 =
      (r.pickStrategy.pick r.maxResults (r.qualified ctx) s.draws).1 := by
  -- Each stage is a filter; the trace and the captured sets are handed on and never read.
  simp only [select, saturationStages_fst, filterStages_fst, Strategy.narrow_eq,
    Criteria.ofKinds_eq, List.filter_filter]
  refine congrArg (fun kept => (r.pickStrategy.pick r.maxResults kept s.draws).1)
    (List.filter_congr fun e _ => ?_)
  rw [Bool.eq_iff_iff, decide_eq_true_eq, qualifies_iff]
  simp only [Bool.and_eq_true, decide_eq_true_eq, Criteria.acceptsSubtype_iff,
    Criteria.acceptsStatus_iff, SaturationLimit.allows_iff h, pool]
  tauto

theorem pick_eq_take (hpick : r.pickStrategy = .first ∨ r.pickStrategy = .all)
    (candidates : List Entity) (s : σ) :
    (r.pickStrategy.pick r.maxResults candidates s).1 =
      candidates.take (r.wanted candidates.length) := by
  unfold PickStrategy.pick wanted
  split
  · simp_all
  · rcases hpick with hpick | hpick <;> rw [hpick] <;> cases r.maxResults <;> simp

/-- A rule that picks the first or all selects as many as it wants of those who qualify, from the
front, whatever was drawn, captured or noted before. -/
theorem select_eq_take {ctx : Context} (built : ctx.world.Built)
    (hpick : r.pickStrategy = .first ∨ r.pickStrategy = .all) (trace : Option Trace)
    (s : Scratch σ) :
    (r.select ctx trace s).1.1 = (r.qualified ctx).take (r.wanted (r.qualified ctx).length) := by
  rw [r.select_fst built.wellFormed, r.pick_eq_take hpick]

end SelectionRule

namespace Sample

/-- The first human besides Ann whom fewer than two npcs know. -/
def stranger : SelectionRule where
  strategy := .byPreferenceOrder ["elf", "human"]
  criteria := { kinds := ["npc", "hero"], notStatus := some "gone" }
  filters := [.exclude ["$self"]]
  saturationLimits :=
    [{ relationshipKind := "knows", direction := .dst, fromKind := some "npc", maxCount := 2 }]
  pickStrategy := .first

def undrawn : Scratch FixedDraws := { draws := { draws := [] } }

theorem stranger_selected :
    annsView.world.Built ∧ stranger.pickStrategy = .first
      ∧ (stranger.select annsView none undrawn).1.1 =
        (stranger.qualified annsView).take
          (stranger.wanted (stranger.qualified annsView).length) :=
  ⟨built_village, rfl, stranger.select_eq_take built_village (.inl rfl) none undrawn⟩

/-- Ann knows Bob twice over. -/
example : (stranger.qualified annsView).map (·.name) = ["Cat"] := by decide +kernel

/-- Ann's view with her at the origin, Bob thirteen steps away and Cat nowhere. -/
def surroundings : Context where
  __ := annsView
  world := (village.modifyEntity ann.id ({ · with coordinates := some ⟨0, 0, 0⟩ })).modifyEntity
    bob.id ({ · with coordinates := some ⟨-3, 4, 12⟩ })

def within (steps : Float) : SelectionRule where
  strategy := .byProximity ann.id.toString (some steps)

example : ((within 13).qualified surroundings).map (·.name) = ["Ann", "Bob"] := by decide +kernel
example : ((within 12.5).qualified surroundings).map (·.name) = ["Ann"] := by decide +kernel

end Sample

end StoryWorld
