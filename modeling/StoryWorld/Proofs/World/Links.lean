import StoryWorld.Proofs.World.Built

/-!
# Links

What the queries of a world answer, said of its relationships one by one. Two entities are linked
when an active relationship of the kind leads from the one to the other, and the queries about an
entity's relationships ask for nothing else: which copy of an edge it is, and where it stands among
the others, does not count.
-/

namespace StoryWorld

namespace Relationship

/-- Whether `r` leads from `a` to `b`, with `a` at the end that the direction names. -/
def Leads (r : Relationship) (a b : EntityId) : Direction → Prop
  | .src => r.src = a ∧ r.dst = b
  | .dst => r.dst = a ∧ r.src = b
  | .both => (r.src = a ∧ r.dst = b) ∨ (r.dst = a ∧ r.src = b)

instance (r : Relationship) (a b : EntityId) : ∀ d : Direction, Decidable (r.Leads a b d)
  | .src | .dst => inferInstanceAs (Decidable (_ ∧ _))
  | .both => inferInstanceAs (Decidable ((_ ∧ _) ∨ (_ ∧ _)))

variable {r : Relationship} {a b : EntityId} {d : Direction}

theorem connects_iff : r.connects a b d = true ↔ r.Leads a b d := by
  cases d <;> simp [connects, Leads]

theorem touches_and_farEnd_iff : r.touches a d = true ∧ r.farEnd a d = b ↔ r.Leads a b d := by
  cases d with
  | src => simp [touches, farEnd, Leads]
  | dst => simp [touches, farEnd, Leads]
  | both =>
    simp only [touches, farEnd, otherEnd, Leads, Bool.or_eq_true, decide_eq_true_eq]
    by_cases hs : r.src = a
    · rw [if_pos hs]
      constructor
      · exact fun h => .inl ⟨hs, h.2⟩
      · rintro (⟨-, h⟩ | ⟨hd, h⟩)
        · exact ⟨.inl hs, h⟩
        · exact ⟨.inl hs, hd.trans (hs.symm.trans h)⟩
    · rw [if_neg hs]
      simp only [hs, false_or, false_and]

theorem Leads.touches (h : r.Leads a b d) : r.touches a d = true :=
  (touches_and_farEnd_iff.2 h).1

end Relationship

theorem agrees_some {wanted actual : String} :
    agrees (some wanted) actual = true ↔ actual = wanted := by
  simp only [agrees, Option.all_some, decide_eq_true_eq]
  exact eq_comm

theorem agrees_iff {wanted : Option String} {actual : String} :
    agrees wanted actual = true ↔ ∀ w ∈ wanted, actual = w := by
  cases wanted with
  | none => simp [agrees]
  | some w => simp [agrees_some]

namespace World

variable {w : World}

/-- Whether an active relationship of a kind leads from `a` to `b`. -/
def Linked (w : World) (kind : String) (d : Direction) (a b : EntityId) : Prop :=
  ∃ r ∈ w.relationships, r.status = .active ∧ r.kind = kind ∧ r.Leads a b d

instance (w : World) (kind : String) (d : Direction) (a b : EntityId) :
    Decidable (w.Linked kind d a b) :=
  inferInstanceAs (Decidable (∃ r ∈ w.relationships, _))

/-- The same, of one kind only when `kind` is given. -/
def Joined (w : World) (kind : Option String) (d : Direction) (a b : EntityId) : Prop :=
  ∃ r ∈ w.activeRelationships, agrees kind r.kind = true ∧ r.Leads a b d

theorem mem_activeRelationships {r : Relationship} :
    r ∈ w.activeRelationships ↔ r ∈ w.relationships ∧ r.status = .active := by
  simp [activeRelationships, Relationship.isActive]

theorem mem_relationshipsOf {r : Relationship} {id : EntityId} {kind : Option String}
    {d : Direction} :
    r ∈ w.relationshipsOf id kind d ↔
      r ∈ w.activeRelationships ∧ agrees kind r.kind = true ∧ r.touches id d = true := by
  unfold relationshipsOf
  rw [List.mem_filter, Bool.and_eq_true]

theorem joined_some {kind : String} {a b : EntityId} {d : Direction} :
    w.Joined (some kind) d a b ↔ w.Linked kind d a b := by
  unfold Joined Linked
  simp only [mem_activeRelationships, agrees_some, and_assoc]

theorem joined_iff_farEnd {kind : Option String} {a b : EntityId} {d : Direction} :
    w.Joined kind d a b ↔ ∃ r ∈ w.relationshipsOf a kind d, r.farEnd a d = b := by
  unfold Joined
  simp only [mem_relationshipsOf, ← Relationship.touches_and_farEnd_iff, and_assoc]

theorem hasRelationship_some {kind : Option String} {a b : EntityId} {d : Direction} :
    w.hasRelationship a kind (some b) d = true ↔ w.Joined kind d a b := by
  unfold hasRelationship Joined
  rw [List.any_eq_true]
  constructor
  · rintro ⟨r, hr, hc⟩
    obtain ⟨hr, hk, -⟩ := mem_relationshipsOf.1 hr
    exact ⟨r, hr, hk, Relationship.connects_iff.1 (by simpa using hc)⟩
  · rintro ⟨r, hr, hk, hl⟩
    refine ⟨r, mem_relationshipsOf.2 ⟨hr, hk, hl.touches⟩, ?_⟩
    simpa using Relationship.connects_iff.2 hl

theorem hasRelationship_iff {kind : String} {a b : EntityId} {d : Direction} :
    w.hasRelationship a (some kind) (some b) d = true ↔ w.Linked kind d a b := by
  rw [hasRelationship_some, joined_some]

/-- The neighbours of an entity are the entities it is joined to. -/
theorem WellFormed.mem_neighbors (h : w.WellFormed) {id : EntityId} {kind : Option String}
    {d : Direction} {x : Entity} :
    x ∈ w.neighbors id kind d ↔ x ∈ w.entities ∧ w.Joined kind d id x.id := by
  unfold neighbors
  simp only [List.mem_filterMap, mem_distinct, List.mem_map, h.entity?_eq_some_iff,
    joined_iff_farEnd]
  constructor
  · rintro ⟨_, hr, hx, rfl⟩
    exact ⟨hx, hr⟩
  · rintro ⟨hx, hr⟩
    exact ⟨x.id, hr, hx, rfl⟩

theorem WellFormed.mem_neighbors_iff (h : w.WellFormed) {id : EntityId} {kind : String}
    {d : Direction} {x : Entity} :
    x ∈ w.neighbors id (some kind) d ↔ x ∈ w.entities ∧ w.Linked kind d id x.id := by
  rw [h.mem_neighbors, joined_some]

/-- However many relationships lead to an entity, it is a neighbour once. -/
theorem WellFormed.nodup_neighbors (h : w.WellFormed) (id : EntityId) (kind : Option String)
    (d : Direction) : (w.neighbors id kind d).Nodup := by
  refine List.Nodup.filterMap (fun a b x ha hb => ?_) (nodup_distinct _)
  exact (h.entity?_eq_some_iff.1 ha).2.symm.trans (h.entity?_eq_some_iff.1 hb).2

theorem WellFormed.nodup_map_id (h : w.WellFormed) {l : List Entity} (hl : l.Nodup)
    (hmem : ∀ e ∈ l, e ∈ w.entities) : (l.map (·.id)).Nodup :=
  hl.map_on fun a ha b hb => h.eq_of_id_eq (hmem a ha) (hmem b hb)

/-- Both ends of a relationship are entities of the world, so also the far one. -/
theorem WellFormed.exists_farEnd (h : w.WellFormed) {r : Relationship}
    (hr : r ∈ w.relationships) (id : EntityId) (d : Direction) :
    ∃ e ∈ w.entities, e.id = r.farEnd id d := by
  obtain ⟨hsrc, hdst⟩ := h.ends r hr
  rw [h.contains_iff] at hsrc hdst
  cases d with
  | src => exact hdst
  | dst => exact hsrc
  | both =>
    change ∃ e ∈ w.entities, e.id = if r.src = id then r.dst else r.src
    split
    · exact hdst
    · exact hsrc

end World

end StoryWorld
