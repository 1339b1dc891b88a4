import Mathlib.Algebra.BigOperators.Group.Finset.Basic
import Mathlib.Algebra.GroupWithZero.Nat
import StoryWorld.Metric.Evaluate
import StoryWorld.Proofs.Reference
import StoryWorld.Proofs.World.Directions

/-!
# Relationships counted at their ends

Relationships can be counted in the whole world or entity by entity. Both ends of a relationship are
entities of the world and each is one entity, so the counts of what leads away from the entities add
up to the count of the world, and so do the counts of what comes in. In both directions every
relationship is counted at its two ends, and a loop at its only one
(`World.WellFormed.sum_degree_both`).
-/

namespace StoryWorld

/-- Whether a metric that is not scaled comes to a number. -/
def Measure.ComesTo (m : Measure) (ctx : Context) (n : ℕ) : Prop :=
  ((Metric.scaled m {}).evaluate ctx).value = .ofNat n

theorem Measure.comesTo_iff {m : Measure} {ctx : Context} {n : ℕ} :
    m.ComesTo ctx n ↔ (m.evaluate ctx).value = .ofNat n := Iff.rfl

/-- Whatever falls under exactly one of some keys is counted once when it is counted key by key. -/
theorem sum_countP_eq_length {α β : Type} [DecidableEq β] {keys : List β} (hkeys : keys.Nodup)
    (key : α → β) {l : List α} (hmem : ∀ a ∈ l, key a ∈ keys) :
    (keys.map fun k => l.countP (key · = k)).sum = l.length := by
  have hcount : ∀ k, l.countP (key · = k) = ((l.map key : List β) : Multiset β).count k := by
    intro k
    rw [Multiset.coe_count, List.count, List.countP_map]
    rfl
  have hsum := Multiset.sum_count_eq_card (s := keys.toFinset) (m := (l.map key : List β))
    fun k hk => by
      obtain ⟨a, ha, rfl⟩ := List.mem_map.1 (Multiset.mem_coe.1 hk)
      exact List.mem_toFinset.2 (hmem a ha)
  simp only [hcount]
  rw [← List.sum_toFinset _ hkeys, hsum, Multiset.coe_card, List.length_map]

namespace World

variable {w : World} {edges : EdgeFilter} {d : Direction}

/-- The active relationships of the kinds and strength asked for. -/
def counted (w : World) (edges : EdgeFilter) : List Relationship :=
  w.activeRelationships.filter edges.accepts

/-- How many of them are an entity's. -/
def degree (w : World) (edges : EdgeFilter) (d : Direction) (e : Entity) : ℕ :=
  (w.incident e.id edges d).length

/-- How many of them are loops. -/
def countLoops (w : World) (edges : EdgeFilter) : ℕ :=
  (w.counted edges).countP fun r => r.src = r.dst

theorem countRelationships_eq_length : w.countRelationships edges = (w.counted edges).length :=
  List.countP_eq_length_filter

theorem incident_eq_filter (id : EntityId) :
    w.incident id edges d = (w.counted edges).filter (·.touches id d) := by
  unfold incident counted relationshipsOf
  rw [List.filter_filter, List.filter_filter]
  exact List.filter_congr fun r _ => by simp [agrees, Bool.and_comm]

theorem degree_eq_countP (e : Entity) :
    w.degree edges d e = (w.counted edges).countP (·.touches e.id d) := by
  unfold degree
  rw [incident_eq_filter, List.countP_eq_length_filter]

/-- Every relationship has its end at one entity. -/
theorem WellFormed.sum_ends (good : w.WellFormed) {l : List Relationship}
    (hl : ∀ r ∈ l, r ∈ w.relationships) (side : Relationship → EntityId)
    (hside : ∀ r ∈ w.relationships, w.contains (side r) = true) :
    (w.entities.map fun e => l.countP (side · = e.id)).sum = l.length := by
  have hmem : ∀ r ∈ l, side r ∈ w.ids := by
    intro r hr
    obtain ⟨e, he, hid⟩ := good.contains_iff.1 (hside r (hl r hr))
    exact List.mem_map.2 ⟨e, he, hid⟩
  have hsum := sum_countP_eq_length good.ids_nodup side hmem
  rwa [ids, List.map_map] at hsum

theorem mem_relationships_of_counted {r : Relationship} (hr : r ∈ w.counted edges) :
    r ∈ w.relationships := (mem_activeRelationships.1 (List.mem_filter.1 hr).1).1

theorem WellFormed.sum_degree_src (good : w.WellFormed) :
    (w.entities.map (w.degree edges .src)).sum = w.countRelationships edges := by
  rw [countRelationships_eq_length, ← good.sum_ends (fun _ => mem_relationships_of_counted)
    (·.src) fun r hr => (good.ends r hr).1]
  exact congrArg List.sum (List.map_congr_left fun e _ => degree_eq_countP e)

theorem WellFormed.sum_degree_dst (good : w.WellFormed) :
    (w.entities.map (w.degree edges .dst)).sum = w.countRelationships edges := by
  rw [countRelationships_eq_length, ← good.sum_ends (fun _ => mem_relationships_of_counted)
    (·.dst) fun r hr => (good.ends r hr).2]
  exact congrArg List.sum (List.map_congr_left fun e _ => degree_eq_countP e)

/-- A loop is counted at its one end, and once. -/
theorem WellFormed.sum_degree_both (good : w.WellFormed) :
    (w.entities.map (w.degree edges .both)).sum + w.countLoops edges =
      2 * w.countRelationships edges := by
  have hloops : (w.entities.map fun e => (w.counted edges).countP
      fun r => r.src = e.id ∧ r.dst = e.id).sum = w.countLoops edges := by
    -- Both ends of a loop are the same entity, so the sources alone tell whose it is.
    have hsum := good.sum_ends (l := (w.counted edges).filter fun r => r.src = r.dst)
      (fun r hr => mem_relationships_of_counted (List.mem_filter.1 hr).1) (·.src)
      fun r hr => (good.ends r hr).1
    rw [← List.countP_eq_length_filter] at hsum
    rw [countLoops, ← hsum]
    refine congrArg List.sum (List.map_congr_left fun e _ => ?_)
    rw [List.countP_filter]
    refine List.countP_congr fun r _ => ?_
    simp only [Bool.decide_and, Bool.and_eq_true, decide_eq_true_eq]
    exact and_congr_right fun hs => by rw [hs, eq_comm]
  calc (w.entities.map (w.degree edges .both)).sum + w.countLoops edges
      = (w.entities.map fun e => w.degree edges .both e
          + (w.counted edges).countP fun r => r.src = e.id ∧ r.dst = e.id).sum := by
        rw [List.sum_map_add, hloops]
    _ = (w.entities.map fun e => w.degree edges .src e + w.degree edges .dst e).sum := by
        refine congrArg List.sum (List.map_congr_left fun e _ => ?_)
        simp only [degree_eq_countP]
        exact Relationship.countP_touches e.id _
    _ = 2 * w.countRelationships edges := by
        rw [List.sum_map_add, good.sum_degree_src, good.sum_degree_dst, Nat.two_mul]

end World

namespace Measure

variable {ctx : Context} {edges : EdgeFilter} {d : Direction}

theorem comesTo_relationshipCount_none :
    (relationshipCount none edges d).ComesTo ctx (ctx.world.countRelationships edges) :=
  comesTo_iff.2 rfl

theorem comesTo_relationshipCount {reference : String} {e : Entity}
    (he : ctx.resolve reference = some e) :
    (relationshipCount (some reference) edges d).ComesTo ctx (ctx.world.degree edges d e) := by
  rw [comesTo_iff]
  simp only [evaluate, he]
  rfl

theorem comesTo_connectionCount {reference : Option String} {e : Entity}
    (he : ctx.subject reference = some e) :
    (connectionCount reference edges d).ComesTo ctx (ctx.world.degree edges d e) := by
  rw [comesTo_iff]
  simp only [evaluate, he]
  rfl

end Measure

/-- The metrics that count relationships of an entity come to its degree, which every entity of the
world can be asked for, and the degrees of all entities add up to what the world is found to have. -/
theorem World.Built.degrees_add_up (ctx : Context) (built : ctx.world.Built) (edges : EdgeFilter) :
    (∀ d, (Measure.relationshipCount none edges d).ComesTo ctx
        (ctx.world.countRelationships edges))
      ∧ (∀ reference e d, ctx.resolve reference = some e →
          (Measure.relationshipCount (some reference) edges d).ComesTo ctx
            (ctx.world.degree edges d e))
      ∧ (∀ reference e d, ctx.subject reference = some e →
          (Measure.connectionCount reference edges d).ComesTo ctx (ctx.world.degree edges d e))
      ∧ (∀ e ∈ ctx.world.entities, ctx.resolve e.id.toString = some e)
      ∧ (ctx.world.entities.map (ctx.world.degree edges .src)).sum =
          ctx.world.countRelationships edges
      ∧ (ctx.world.entities.map (ctx.world.degree edges .dst)).sum =
          ctx.world.countRelationships edges
      ∧ (ctx.world.entities.map (ctx.world.degree edges .both)).sum
          + ctx.world.countLoops edges = 2 * ctx.world.countRelationships edges := by
  have good := built.wellFormed
  exact ⟨fun _ => Measure.comesTo_relationshipCount_none,
    fun _ _ _ => Measure.comesTo_relationshipCount, fun _ _ _ => Measure.comesTo_connectionCount,
    fun _ => ctx.toScope.resolve_id good, good.sum_degree_src, good.sum_degree_dst,
    good.sum_degree_both⟩

namespace Sample

/-- Relationships that are at least as strong as they are when nothing is said about it. -/
def firm : EdgeFilter := { kinds := ["knows"], minStrength := some 0.5 }

/-- Five relationships have nine ends that are told apart, as one of them is a loop. -/
theorem village_ends :
    village.Built ∧ annsView.resolve ann.id.toString = some ann
      ∧ (Measure.relationshipCount none firm .both).ComesTo annsView 5
      ∧ (Measure.relationshipCount (some ann.id.toString) firm .both).ComesTo annsView 4
      ∧ (village.entities.map (village.degree firm .both)).sum + 1 = 2 * 5 := by
  obtain ⟨hworld, hcount, -, hresolve, -, -, hboth⟩ :=
    World.Built.degrees_add_up annsView built_village firm
  have hann := hresolve ann List.mem_cons_self
  have htotal : village.countRelationships firm = 5 := by decide +kernel
  have hdegree : village.degree firm .both ann = 4 := by decide +kernel
  have hloops : village.countLoops firm = 1 := by decide +kernel
  exact ⟨built_village, hann, htotal ▸ hworld .both, hdegree ▸ hcount _ ann .both hann,
    by rw [← hloops, ← htotal]; exact hboth⟩

end Sample

end StoryWorld
