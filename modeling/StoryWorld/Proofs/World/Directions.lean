import StoryWorld.Proofs.World.Links

/-!
# Directions

A relationship is seen from both of its ends. What leads away from the one comes in at the other, so
`src` and `dst` are opposite, and in `both` directions an entity sees what it sees in the one or in
the other. A loop is the only relationship that an entity sees in the one and in the other. It still
is one relationship, so counts in `both` directions fall short of the sum of the two by the loops
(`Relationship.countP_touches`).
-/

namespace StoryWorld

/-- How an entity at the far end sees what is seen in a direction. -/
def Direction.opposite : Direction → Direction
  | src => dst
  | dst => src
  | both => both

namespace Relationship

variable {r : Relationship} {a b : EntityId} {d : Direction}

theorem leads_comm : r.Leads a b d ↔ r.Leads b a d.opposite := by
  cases d with
  | src => exact and_comm
  | dst => exact and_comm
  | both =>
    change _ ∨ _ ↔ _ ∨ _
    rw [or_comm, and_comm (a := r.src = a), and_comm (a := r.dst = a)]

theorem leads_both : r.Leads a b .both ↔ r.Leads a b .src ∨ r.Leads a b .dst := Iff.rfl

/-- Seen from the right end, the far end is the other one. -/
theorem farEnd_eq_otherEnd (h : r.touches a d = true) : r.farEnd a d = r.otherEnd a := by
  unfold otherEnd
  cases d with
  | src =>
    have hs : r.src = a := of_decide_eq_true h
    rw [if_pos hs]
    rfl
  | dst =>
    have hd : r.dst = a := of_decide_eq_true h
    split
    · rename_i hs
      exact hs.trans hd.symm
    · rfl
  | both => rfl

/-- Counted in both directions, a loop is there once. -/
theorem countP_touches (a : EntityId) : ∀ l : List Relationship,
    l.countP (·.touches a .both) + l.countP (fun r => r.src = a ∧ r.dst = a) =
      l.countP (·.touches a .src) + l.countP (·.touches a .dst)
  | [] => rfl
  | r :: l => by
    have ih := countP_touches a l
    simp only [touches, Bool.decide_and] at ih ⊢
    simp only [List.countP_cons]
    by_cases hs : r.src = a <;> by_cases hd : r.dst = a <;> simp [hs, hd] <;> omega

end Relationship

namespace World

variable {w : World} {a b : EntityId} {kind : Option String} {d : Direction}

/-- The active loops at an entity, of one kind when `kind` is given. -/
def loopsAt (w : World) (id : EntityId) (kind : Option String) : List Relationship :=
  w.activeRelationships.filter fun r => agrees kind r.kind ∧ r.src = id ∧ r.dst = id

theorem joined_comm : w.Joined kind d a b ↔ w.Joined kind d.opposite b a := by
  unfold Joined
  simp only [Relationship.leads_comm (a := a)]

theorem joined_both :
    w.Joined kind .both a b ↔ w.Joined kind .src a b ∨ w.Joined kind .dst a b := by
  unfold Joined
  simp only [Relationship.leads_both, and_or_left, exists_or]

theorem hasRelationship_both (other : Option EntityId) :
    w.hasRelationship a kind other .both =
      (w.hasRelationship a kind other .src || w.hasRelationship a kind other .dst) := by
  rw [Bool.eq_iff_iff, Bool.or_eq_true]
  cases other with
  | some other =>
    simp only [hasRelationship_some]
    exact joined_both
  | none =>
    unfold hasRelationship
    simp only [Option.all_none, List.any_eq_true, and_true, mem_relationshipsOf,
      Relationship.touches, Bool.or_eq_true, and_or_left, exists_or]

theorem length_relationshipsOf (id : EntityId) (kind : Option String) (d : Direction) :
    (w.relationshipsOf id kind d).length =
      (w.activeRelationships.filter (agrees kind ·.kind)).countP (·.touches id d) := by
  unfold relationshipsOf
  rw [← List.countP_eq_length_filter, List.countP_filter]
  exact List.countP_congr fun r _ => by rw [Bool.and_comm]

theorem length_loopsAt (id : EntityId) (kind : Option String) :
    (w.loopsAt id kind).length = (w.activeRelationships.filter (agrees kind ·.kind)).countP
      fun r => r.src = id ∧ r.dst = id := by
  unfold loopsAt
  rw [← List.countP_eq_length_filter, List.countP_filter]
  exact List.countP_congr fun r _ => by simp [and_comm]

theorem WellFormed.mem_neighbors_comm (h : w.WellFormed) {a b : Entity} (ha : a ∈ w.entities)
    (hb : b ∈ w.entities) :
    b ∈ w.neighbors a.id kind d ↔ a ∈ w.neighbors b.id kind d.opposite := by
  rw [h.mem_neighbors, h.mem_neighbors, joined_comm]
  exact and_congr_left fun _ => iff_of_true hb ha

theorem WellFormed.mem_neighbors_both (h : w.WellFormed) {e : Entity} :
    e ∈ w.neighbors a kind .both ↔ e ∈ w.neighbors a kind .src ∨ e ∈ w.neighbors a kind .dst := by
  simp only [h.mem_neighbors, joined_both, and_or_left]

theorem WellFormed.exists_neighbor (h : w.WellFormed) {r : Relationship}
    (hr : r ∈ w.relationshipsOf a kind d) : ∃ e ∈ w.neighbors a kind d, e.id = r.farEnd a d := by
  obtain ⟨e, he, hid⟩ := h.exists_farEnd (mem_activeRelationships.1 (mem_relationshipsOf.1 hr).1).1
    a d
  exact ⟨e, h.mem_neighbors.2 ⟨he, joined_iff_farEnd.2 ⟨r, hr, hid.symm⟩⟩, hid⟩

/-- What the queries say of two entities agrees from both of their sides, and what they say of
`both` directions is what they say of the one and the other. -/
theorem Built.directions_dual (built : w.Built) {a b : Entity} (ha : a ∈ w.entities)
    (hb : b ∈ w.entities) (kind : Option String) :
    (b ∈ w.neighbors a.id kind .src ↔ a ∈ w.neighbors b.id kind .dst)
      ∧ (b ∈ w.neighbors a.id kind .both ↔ a ∈ w.neighbors b.id kind .both)
      ∧ (b ∈ w.neighbors a.id kind .both ↔
          b ∈ w.neighbors a.id kind .src ∨ b ∈ w.neighbors a.id kind .dst)
      ∧ (∀ d, ((w.neighbors a.id kind d).map (·.id)).Nodup
          ∧ ∀ r ∈ w.relationshipsOf a.id kind d,
              ∃ e ∈ w.neighbors a.id kind d, e.id = r.farEnd a.id d)
      ∧ (∀ other, w.hasRelationship a.id kind other .both =
          (w.hasRelationship a.id kind other .src || w.hasRelationship a.id kind other .dst))
      ∧ (w.relationshipsOf a.id kind .both).length + (w.loopsAt a.id kind).length =
          (w.relationshipsOf a.id kind .src).length
            + (w.relationshipsOf a.id kind .dst).length := by
  have good := built.wellFormed
  refine ⟨good.mem_neighbors_comm ha hb, good.mem_neighbors_comm ha hb, good.mem_neighbors_both,
    fun d => ⟨?_, fun r => good.exists_neighbor⟩, hasRelationship_both, ?_⟩
  · exact good.nodup_map_id (good.nodup_neighbors ..) fun e he => (good.mem_neighbors.1 he).1
  · simp only [length_relationshipsOf, length_loopsAt]
    exact Relationship.countP_touches a.id _

end World

namespace Sample

/-- Ann knows herself, which is one of four relationships and not two of five. -/
theorem village_seen_both_ways :
    village.Built ∧ ann ∈ village.entities ∧ bob ∈ village.entities
      ∧ (bob ∈ village.neighbors ann.id (some "knows") .src ↔
          ann ∈ village.neighbors bob.id (some "knows") .dst)
      ∧ (village.loopsAt ann.id (some "knows")).length = 1
      ∧ (village.relationshipsOf ann.id (some "knows") .both).length
          + (village.loopsAt ann.id (some "knows")).length = 3 + 2 := by
  have ha : ann ∈ village.entities := List.mem_cons_self
  have hb : bob ∈ village.entities := List.mem_cons_of_mem _ List.mem_cons_self
  obtain ⟨hdual, -, -, -, -, hcount⟩ := built_village.directions_dual ha hb (some "knows")
  exact ⟨built_village, ha, hb, hdual, by decide +kernel, hcount.trans (by decide +kernel)⟩

end Sample

end StoryWorld
