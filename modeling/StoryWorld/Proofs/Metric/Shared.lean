import StoryWorld.Proofs.Filter.Chain
import StoryWorld.Proofs.Metric.Degrees

/-!
# Shared targets

Two entities share whoever relationships of a kind lead to from both. How many that are can be asked
of the two, and an entity can be asked how many others it shares somebody with. The second question
is the first one asked of everybody else (`World.sharers`), and without a bound on strength a filter
asks it too: what it calls neighbours are the same entities that are targets here
(`World.WellFormed.mem_neighborIds`).
-/

namespace StoryWorld

namespace World

variable {w : World} {edges : EdgeFilter} {d : Direction} {a b : Entity}

/-- How many targets two entities share. -/
def shared (w : World) (edges : EdgeFilter) (d : Direction) (a b : Entity) : ℕ :=
  (w.targets a.id edges d).countP (· ∈ w.targets b.id edges d)

/-- The others that share a target with an entity. -/
def sharers (w : World) (edges : EdgeFilter) (d : Direction) (a : Entity) : List Entity :=
  w.entities.filter fun e => e.id ≠ a.id ∧ 1 ≤ w.shared edges d a e

theorem mem_targets {id t : EntityId} :
    t ∈ w.targets id edges d ↔ ∃ r ∈ w.counted edges, r.Leads id t d := by
  unfold targets
  simp only [mem_distinct, List.mem_map, incident_eq_filter, List.mem_filter,
    ← Relationship.touches_and_farEnd_iff]
  constructor
  · rintro ⟨r, ⟨hr, ht⟩, rfl⟩
    exact ⟨r, hr, ht, Relationship.farEnd_eq_otherEnd ht⟩
  · rintro ⟨r, hr, ht, rfl⟩
    exact ⟨r, ⟨hr, ht⟩, (Relationship.farEnd_eq_otherEnd ht).symm⟩

theorem shared_comm : w.shared edges d a b = w.shared edges d b a := by
  unfold shared
  rw [List.countP_eq_length_filter, List.countP_eq_length_filter]
  refine List.Perm.length_eq ((List.perm_ext_iff_of_nodup ((nodup_distinct _).filter _)
    ((nodup_distinct _).filter _)).2 fun t => ?_)
  rw [List.mem_filter, List.mem_filter, decide_eq_true_eq, decide_eq_true_eq]
  exact and_comm

theorem one_le_shared_iff : 1 ≤ w.shared edges d a b ↔
    ∃ t ∈ w.targets a.id edges d, t ∈ w.targets b.id edges d := by
  unfold shared
  rw [Nat.one_le_iff_ne_zero, ← Nat.pos_iff_ne_zero, List.countP_pos_iff]
  simp only [decide_eq_true_eq]

theorem mem_targets_both {id t : EntityId} {kind : String} :
    t ∈ w.targets id { kinds := [kind] } .both ↔ w.Joined (some kind) .both id t := by
  have haccepts : ∀ r, EdgeFilter.accepts { kinds := [kind] } r = agrees (some kind) r.kind := by
    intro r
    rw [Bool.eq_iff_iff, agrees_some]
    simp [EdgeFilter.accepts]
  rw [mem_targets]
  unfold counted Joined
  simp only [List.mem_filter, haccepts, and_assoc]

/-- Neighbours are told by their entities, targets by the ends of relationships. As every end is an
entity, they are the same. -/
theorem WellFormed.mem_neighborIds (good : w.WellFormed) {id t : EntityId} {kind : String} :
    t ∈ w.neighborIds id kind ↔ t ∈ w.targets id { kinds := [kind] } .both := by
  rw [mem_targets_both]
  unfold neighborIds
  rw [List.mem_map]
  constructor
  · rintro ⟨x, hx, rfl⟩
    exact (good.mem_neighbors.1 hx).2
  · intro hjoined
    obtain ⟨r, hr, hfar⟩ := joined_iff_farEnd.1 hjoined
    obtain ⟨x, hx, hid⟩ := good.exists_neighbor hr
    exact ⟨x, hx, hid.trans hfar⟩

/-- Who is admitted for sharing a neighbour with an entity is one of its sharers. -/
theorem WellFormed.sharesRelated_fst {scope : Scope} (good : scope.world.WellFormed)
    {kind reference : String} {a : Entity} (ha : scope.resolve reference = some a)
    (captures : Captures) :
    ((Filter.sharesRelated kind reference).apply scope
        (scope.world.entities.filter (·.id ≠ a.id)) captures).1 =
      scope.world.sharers { kinds := [kind] } .both a := by
  rw [Filter.apply_fst, List.filter_filter]
  unfold sharers
  refine List.filter_congr fun e _ => ?_
  simp only [Filter.admits, ha, Option.any_some]
  rw [Bool.eq_iff_iff, Bool.and_eq_true, decide_eq_true_eq, decide_eq_true_eq, and_comm,
    shared_comm, one_le_shared_iff]
  simp only [List.any_eq_true, List.contains_iff_mem, good.mem_neighborIds]

end World

namespace Measure

variable {ctx : Context} {kind : String} {d : Direction} {floor : Option Float}

theorem comesTo_sharedRelationship_some {reference : Option String} {partner : String}
    {a b : Entity} (ha : ctx.subject reference = some a) (hb : ctx.resolve partner = some b) :
    (sharedRelationship kind d floor reference (some partner)).ComesTo ctx
      (ctx.world.shared { kinds := [kind], minStrength := floor } d a b) := by
  have hcount : ctx.world.shared { kinds := [kind], minStrength := floor } d a b =
      (ctx.world.targets a.id { kinds := [kind], minStrength := floor } d).countP
        (ctx.world.targets b.id { kinds := [kind], minStrength := floor } d).contains :=
    List.countP_congr fun t _ => by rw [decide_eq_true_eq, List.contains_iff_mem]
  rw [comesTo_iff, hcount]
  simp only [evaluate, ha, hb]
  rfl

theorem comesTo_sharedRelationship_none {reference : Option String} {a : Entity}
    (ha : ctx.subject reference = some a) :
    (sharedRelationship kind d floor reference none).ComesTo ctx
      (ctx.world.sharers { kinds := [kind], minStrength := floor } d a).length := by
  have hcount : (ctx.world.sharers { kinds := [kind], minStrength := floor } d a).length =
      ctx.world.entities.countP fun e => e.id ≠ a.id &&
        (ctx.world.targets e.id { kinds := [kind], minStrength := floor } d).any
          (ctx.world.targets a.id { kinds := [kind], minStrength := floor } d).contains := by
    unfold World.sharers
    rw [← List.countP_eq_length_filter]
    refine List.countP_congr fun e _ => ?_
    rw [decide_eq_true_eq, Bool.and_eq_true, decide_eq_true_eq, World.shared_comm,
      World.one_le_shared_iff]
    simp only [List.any_eq_true, List.contains_iff_mem]
  rw [comesTo_iff, hcount]
  simp only [evaluate, ha]
  rfl

end Measure

/-- What is shared is shared by both, and how many share with an entity is known from asking two at
a time, from asking once, and without a bound on strength from filtering. -/
theorem World.Built.sharing_agrees (ctx : Context) (built : ctx.world.Built) (kind : String)
    (d : Direction) (floor : Option Float) :
    let edges : EdgeFilter := { kinds := [kind], minStrength := floor }
    (∀ reference partner a b, ctx.subject reference = some a → ctx.resolve partner = some b →
        (Measure.sharedRelationship kind d floor reference (some partner)).ComesTo ctx
          (ctx.world.shared edges d a b))
      ∧ (∀ e ∈ ctx.world.entities, ctx.resolve e.id.toString = some e)
      ∧ (∀ a b, ctx.world.shared edges d a b = ctx.world.shared edges d b a)
      ∧ (∀ reference a, ctx.subject reference = some a →
        (Measure.sharedRelationship kind d floor reference none).ComesTo ctx
          (ctx.world.sharers edges d a).length)
      ∧ (d = .both → floor = none → ∀ reference a captures, ctx.resolve reference = some a →
        ((Filter.sharesRelated kind reference).apply ctx.toScope
            (ctx.world.entities.filter (·.id ≠ a.id)) captures).1 =
          ctx.world.sharers edges d a) := by
  have good := built.wellFormed
  refine ⟨fun _ _ _ _ => Measure.comesTo_sharedRelationship_some,
    fun _ => ctx.toScope.resolve_id good, fun _ _ => World.shared_comm,
    fun _ _ => Measure.comesTo_sharedRelationship_none, ?_⟩
  rintro rfl rfl reference a captures ha
  exact good.sharesRelated_fst ha captures

namespace Sample

/-- Ann and Bob share Cat and, as Ann knows herself, Ann. -/
theorem village_shares :
    village.Built ∧ annsView.subject none = some ann
      ∧ annsView.resolve bob.id.toString = some bob
      ∧ (Measure.sharedRelationship "knows" .both none none (some bob.id.toString)).ComesTo
          annsView 2
      ∧ (Measure.sharedRelationship "knows" .both none none none).ComesTo annsView 2
      ∧ ((Filter.sharesRelated "knows" ann.id.toString).apply annsView.toScope
          (village.entities.filter (·.id ≠ ann.id)) {}).1.length = 2 := by
  obtain ⟨hpair, hresolve, -, hall, hfilter⟩ :=
    World.Built.sharing_agrees annsView built_village "knows" .both none
  have hself : annsView.subject none = some ann := rfl
  have hann := hresolve ann List.mem_cons_self
  have hbob := hresolve bob (List.mem_cons_of_mem _ List.mem_cons_self)
  have hshared : village.shared { kinds := ["knows"] } .both ann bob = 2 := by decide +kernel
  have hsharers : (village.sharers { kinds := ["knows"] } .both ann).length = 2 := by
    decide +kernel
  exact ⟨built_village, hself, hbob, hshared ▸ hpair none _ ann bob hself hbob,
    hsharers ▸ hall none ann hself,
    (congrArg List.length (hfilter rfl rfl _ ann {} hann)).trans hsharers⟩

end Sample

end StoryWorld
