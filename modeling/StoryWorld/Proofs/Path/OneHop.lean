import StoryWorld.Proofs.Filter.AsCondition
import StoryWorld.Proofs.World.Directions

/-!
# Paths of one step

What a path of one step asks of an entity can also be asked of its relationships, by a condition.
The path counts the entities at the far ends and the condition the relationships that lead there, so
the two agree whether there are any (`PathStep.reaches_nobody_iff`), and where several relationships
lead to one entity the condition counts more (`PathStep.length_reached_le`).
-/

namespace StoryWorld

/-- Whether a target asks for what it says: none of its parts is the word that lets a path step pass
anything. -/
structure Target.Literal (t : Target) : Prop where
  kind : t.kind ≠ some "any"
  subtype : t.subtype ≠ some "any"
  status : t.status ≠ some "any"

/-- Whether an entity is what a target asks for. -/
@[mk_iff]
structure Target.Fits (t : Target) (e : Entity) : Prop where
  kind : ∀ kind ∈ t.kind, e.kind = kind
  subtype : ∀ subtype ∈ t.subtype, e.subtype = subtype
  status : ∀ status ∈ t.status, e.status = status

namespace PathStep

/-- The path of one step, checked. -/
def alone (s : PathStep) (check : PathCheck) (count : Option UInt64) : PathAssertion :=
  { check, path := [s], count }

/-- The relationships a step follows, as conditions ask for them. -/
def edges (s : PathStep) : Incidence :=
  { kind := some s.via, direction := s.direction, target := s.target }

/-- The relationships of an entity that lead where a step goes. -/
def followed (s : PathStep) (w : World) (e : Entity) : List Relationship :=
  (w.relationshipsOf e.id (some s.via) s.direction).filter (w.counterpartMatches e.id s.target)

variable {s : PathStep} {scope : Scope} {e x : Entity}

theorem count_edges : s.edges.count scope e = (s.followed scope.world e).length :=
  List.countP_eq_length_filter

theorem admits_iff_fits (literal : s.target.Literal) : s.Admits x ↔ s.target.Fits x := by
  have h : ∀ {wanted : Option String} {actual : String}, wanted ≠ some "any" →
      ((∀ k, wanted = some k → k = "any" ∨ k = actual) ↔ ∀ k ∈ wanted, actual = k) := by
    intro wanted actual hne
    refine forall_congr' fun k => imp_congr_right fun hk => ?_
    have hk' : k ≠ "any" := fun hany => hne (by rw [hk, hany])
    rw [or_iff_right hk']
    exact eq_comm
  unfold Admits
  rw [Target.fits_iff, h literal.kind, h literal.subtype, h literal.status]

end PathStep

theorem World.WellFormed.counterpartMatches_iff {w : World} (h : w.WellFormed)
    {r : Relationship} (hr : r ∈ w.relationships) (id : EntityId) (target : Target) :
    w.counterpartMatches id target r = true ↔
      ∃ x ∈ w.entities, x.id = r.otherEnd id ∧ target.Fits x := by
  obtain ⟨x, hx, hid⟩ := h.exists_farEnd hr id .both
  change x.id = r.otherEnd id at hid
  have hother : w.entity? (r.otherEnd id) = some x := h.entity?_eq_some_iff.2 ⟨hx, hid⟩
  have honly : (∃ y ∈ w.entities, y.id = r.otherEnd id ∧ target.Fits y) ↔ target.Fits x := by
    refine ⟨?_, fun hfits => ⟨x, hx, hid, hfits⟩⟩
    rintro ⟨y, hy, hyid, hfits⟩
    rw [h.eq_of_id_eq hx hy (hid.trans hyid.symm)]
    exact hfits
  rw [honly, Target.fits_iff]
  unfold counterpartMatches
  rw [hother]
  split
  · rename_i hnone
    simp only [Bool.and_eq_true, Option.isNone_iff_eq_none] at hnone
    simp [hnone]
  · simp only [Bool.and_eq_true, agrees_iff, and_assoc]

namespace PathStep

variable {s : PathStep} {scope : Scope} {e x : Entity}

/-- One step leads to the entities at the far ends of the relationships it follows. -/
theorem hop_iff {w : World} (h : w.WellFormed) (literal : s.target.Literal) :
    s.Hop w e x ↔
      x ∈ w.entities ∧ ∃ r ∈ s.followed w e, r.farEnd e.id s.direction = x.id := by
  unfold Hop followed
  refine and_congr_right fun hx => ?_
  rw [← World.joined_some, World.joined_iff_farEnd, admits_iff_fits literal]
  -- A condition looks at whoever has the id at the far end, which is `x` and nobody else.
  have hends : ∀ r ∈ w.relationshipsOf e.id (some s.via) s.direction,
      r.farEnd e.id s.direction = x.id →
        (w.counterpartMatches e.id s.target r = true ↔ s.target.Fits x) := by
    intro r hr hfar
    obtain ⟨hactive, -, htouches⟩ := World.mem_relationshipsOf.1 hr
    rw [h.counterpartMatches_iff (World.mem_activeRelationships.1 hactive).1,
      ← Relationship.farEnd_eq_otherEnd htouches, hfar]
    constructor
    · rintro ⟨y, hy, hid, hfits⟩
      rw [h.eq_of_id_eq hx hy hid.symm]
      exact hfits
    · exact fun hfits => ⟨x, hx, rfl, hfits⟩
  constructor
  · rintro ⟨⟨r, hr, hfar⟩, hfits⟩
    exact ⟨r, List.mem_filter.2 ⟨hr, (hends r hr hfar).2 hfits⟩, hfar⟩
  · rintro ⟨r, hr, hfar⟩
    obtain ⟨hr, hmatches⟩ := List.mem_filter.1 hr
    exact ⟨⟨r, hr, hfar⟩, (hends r hr hfar).1 hmatches⟩

/-- The entities at the end of a path of one step. -/
def reached (s : PathStep) (scope : Scope) (e : Entity) : List Entity :=
  ((s.alone .nonempty none).reach scope e {}).1

theorem holds_alone (s : PathStep) (check : PathCheck) (count : Option UInt64) (scope : Scope)
    (e : Entity) : ((s.alone check count).holds scope e).1 = true ↔
      (s.alone check count).Demands (s.reached scope e).length :=
  PathAssertion.accepts_iff _ _

theorem mem_reached (h : scope.world.WellFormed) :
    x ∈ s.reached scope e ↔ s.Hop scope.world e x := by
  unfold reached
  rw [PathAssertion.mem_reach h]
  unfold PathAssertion.Answers alone
  simp only [List.not_mem_nil, false_imp_iff, implies_true, and_true, Set.mem_ofPred_eq]
  constructor
  · intro hw
    cases hw with
    | hop hop hw =>
      cases hw
      exact hop
  · exact fun hop => .hop hop (.here x)

section Counting

variable (h : scope.world.WellFormed) (literal : s.target.Literal)

include h literal

/-- Nobody is reached that no relationship leads to, and nobody twice. -/
theorem length_reached_le : (s.reached scope e).length ≤ s.edges.count scope e := by
  have hnodup : ((s.reached scope e).map (·.id)).Nodup :=
    h.nodup_map_id PathAssertion.reach_nodup fun x hx => ((mem_reached h).1 hx).1
  have hsubset : (s.reached scope e).map (·.id) ⊆
      (s.followed scope.world e).map (·.farEnd e.id s.direction) := by
    intro id hid
    obtain ⟨x, hx, rfl⟩ := List.mem_map.1 hid
    exact List.mem_map.2 ((hop_iff h literal).1 ((mem_reached h).1 hx)).2
  have hle := hnodup.length_le_of_subset hsubset
  rw [List.length_map, List.length_map] at hle
  rw [count_edges]
  exact hle

/-- Every relationship that is followed leads to somebody. -/
theorem reaches_nobody_iff : (s.reached scope e).length = 0 ↔ s.edges.count scope e = 0 := by
  refine ⟨fun hnone => ?_, fun hnone => ?_⟩
  · rw [count_edges, List.length_eq_zero_iff]
    refine List.eq_nil_iff_forall_not_mem.2 fun r hr => ?_
    obtain ⟨x, hx, hid⟩ := h.exists_neighbor (List.mem_filter.1 hr).1
    have hreached : x ∈ s.reached scope e :=
      (mem_reached h).2 ((hop_iff h literal).2 ⟨(h.mem_neighbors.1 hx).1, r, hr, hid.symm⟩)
    rw [List.length_eq_zero_iff.1 hnone] at hreached
    exact List.not_mem_nil hreached
  · have hle := length_reached_le h literal (e := e)
    omega

end Counting

/-- A path of one step that asks whether it leads anywhere agrees with the conditions that ask
whether there are such relationships. What it counts is bounded by what they count. -/
theorem alone_agrees {σ : Type} [DrawSource σ] (ctx : Context) (built : ctx.world.Built)
    (s : PathStep) (literal : s.target.Literal) (e : Entity) (scratch : Scratch σ) :
    let holds (check : PathCheck) (count : Option UInt64) : Prop :=
      ((s.alone check count).holds ctx.toScope e).1 = true
    let passes (t : Test) : Prop :=
      ((Condition.test t).evaluate ctx (some e) scratch).1.passed = true
    (∀ count, holds .nonempty count ↔ passes (.relationshipExists s.edges))
      ∧ (∀ count, holds .empty count ↔ passes (.relationshipCount s.edges { max := some 0 }))
      ∧ ∀ n, (holds .atLeast (some n) → passes (.relationshipCount s.edges { min := some n }))
        ∧ (passes (.relationshipCount s.edges { max := some n }) → holds .atMost (some n)) := by
  intro holds passes
  have hle := length_reached_le (e := e) built.wellFormed literal
  have hzero := reaches_nobody_iff (e := e) built.wellFormed literal
  have hnonempty : ∀ count, holds .nonempty count ↔ (s.reached ctx.toScope e).length ≠ 0 :=
    fun count => s.holds_alone .nonempty count ctx.toScope e
  have hempty : ∀ count, holds .empty count ↔ (s.reached ctx.toScope e).length = 0 :=
    fun count => s.holds_alone .empty count ctx.toScope e
  have hatLeast : ∀ n, holds .atLeast (some n) ↔ n.toNat ≤ (s.reached ctx.toScope e).length :=
    fun n => s.holds_alone .atLeast (some n) ctx.toScope e
  have hatMost : ∀ n, holds .atMost (some n) ↔ (s.reached ctx.toScope e).length ≤ n.toNat :=
    fun n => s.holds_alone .atMost (some n) ctx.toScope e
  have hexists : passes (.relationshipExists s.edges) ↔ 0 < s.edges.count ctx.toScope e :=
    decide_eq_true_iff
  have hmin : ∀ n, passes (.relationshipCount s.edges { min := some n }) ↔
      n.toNat ≤ s.edges.count ctx.toScope e :=
    fun n => (Test.relationshipCount_passed_iff ctx e _ _).trans (by simp)
  have hmax : ∀ n, passes (.relationshipCount s.edges { max := some n }) ↔
      s.edges.count ctx.toScope e ≤ n.toNat :=
    fun n => (Test.relationshipCount_passed_iff ctx e _ _).trans (by simp)
  refine ⟨fun count => ?_, fun count => ?_, fun n => ⟨fun hn => ?_, fun hn => ?_⟩⟩
  · rw [hnonempty, hexists]
    omega
  · rw [hempty, hmax, hzero]
    exact Nat.le_zero.symm
  · rw [hatLeast] at hn
    exact (hmin n).2 (hn.trans hle)
  · rw [hmax] at hn
    exact (hatMost n).2 (hle.trans hn)

end PathStep

namespace Sample

/-- Whoever knows somebody or is known, and is no hero. -/
def acquaintance : PathStep :=
  { via := "knows", direction := .both, target := { kind := some "npc" } }

/-- Ann knows Bob twice over and herself, and Cat is a hero: two are reached on three ways. -/
theorem acquaintances_met :
    village.Built ∧ acquaintance.target.Literal
      ∧ ((acquaintance.alone .atLeast (some 2)).holds annsView.toScope ann).1 = true
      ∧ ((Condition.test (.relationshipCount acquaintance.edges { min := some 2 })).evaluate
          annsView (some ann) blank).1.passed = true
      ∧ ((acquaintance.alone .atLeast (some 3)).holds annsView.toScope ann).1 = false
      ∧ ((Condition.test (.relationshipCount acquaintance.edges { min := some 3 })).evaluate
          annsView (some ann) blank).1.passed = true := by
  have hliteral : acquaintance.target.Literal := ⟨by decide, by decide, by decide⟩
  have hreached : ((acquaintance.alone .atLeast (some 2)).holds annsView.toScope ann).1 = true := by
    decide +kernel
  obtain ⟨-, -, hcounts⟩ :=
    acquaintance.alone_agrees annsView built_village hliteral ann blank
  exact ⟨built_village, hliteral, hreached, (hcounts 2).1 hreached, by decide +kernel,
    by decide +kernel⟩

end Sample

end StoryWorld
