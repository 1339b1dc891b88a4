import Mathlib.Data.Set.Card
import StoryWorld.Condition.Evaluate
import StoryWorld.Proofs.World.Links

/-!
# What a path assertion asserts

A walk along some steps goes from entity to entity, and each hop follows an active relationship of
the step's kind to an entity the step admits. The answers of an assertion are the entities at the
end of a walk along its whole path that satisfy its constraints. A name in a constraint stands for
the ends of the walks along the path up to the last step that captures under it, and for nobody
when no step does.

The evaluator keeps one frontier and one set for each name. After every step its frontier holds
exactly the ends of the walks so far, each once (`mem_walk`, `walk_pairwise`), and a name holds the
frontier of the last step that captured under it (`find?_walk`), so what it reaches are the answers
(`mem_reach`), and it counts each of them once (`ncard_answers`).
-/

namespace StoryWorld

/-! ## Walks and answers -/

namespace PathStep

/-- Whether a step admits an entity: each of its filters is unset, `any`, or what the entity is. -/
def Admits (s : PathStep) (e : Entity) : Prop :=
  (∀ k, s.target.kind = some k → k = "any" ∨ k = e.kind)
    ∧ (∀ k, s.target.subtype = some k → k = "any" ∨ k = e.subtype)
    ∧ ∀ k, s.target.status = some k → k = "any" ∨ k = e.status

/-- One hop of a walk. -/
def Hop (w : World) (s : PathStep) (a b : Entity) : Prop :=
  b ∈ w.entities ∧ w.Linked s.via s.direction a.id b.id ∧ s.Admits b

end PathStep

/-- A walk along some steps from one entity to another. -/
inductive Walks (w : World) : List PathStep → Entity → Entity → Prop
  | here (e : Entity) : Walks w [] e e
  | hop {s : PathStep} {rest : List PathStep} {a b c : Entity} :
      s.Hop w a b → Walks w rest b c → Walks w (s :: rest) a c

/-- The place of the last step that captures under a name. -/
def LastCapture (path : List PathStep) (name : String) (i : ℕ) : Prop :=
  (∃ s, path[i]? = some s ∧ s.captureAs = some name)
    ∧ ∀ j s, i < j → path[j]? = some s → s.captureAs ≠ some name

namespace PathAssertion

/-- Whether a name stands for `x`: a walk along the path, up to and with the last step that
captures under the name, ends at `x`. -/
def Captured (a : PathAssertion) (w : World) (start : Entity) (name : String) (x : Entity) : Prop :=
  ∃ i, LastCapture a.path name i ∧ Walks w (a.path.take (i + 1)) start x

end PathAssertion

namespace PathConstraint

/-- Whether a reference in a constraint means `other`; `$self` is where the path starts. -/
def Means (scope : Scope) (start : Entity) (reference : String) (other : Entity) : Prop :=
  if Text.trim reference = "$self" then start = other
  else scope.resolve reference = some other

/-- What a constraint asks of an entity at the end of a path. -/
def Holds (scope : Scope) (a : PathAssertion) (start x : Entity) : PathConstraint → Prop
  | notIn set => ¬ a.Captured scope.world start set x
  | isIn set => a.Captured scope.world start set x
  | notSelf => x.id ≠ start.id
  | hasRelationship kind reference d =>
    ∃ other, Means scope start reference other ∧ scope.world.Linked kind d x.id other.id
  | lacksRelationship kind reference d =>
    ∀ other, Means scope start reference other → ¬ scope.world.Linked kind d x.id other.id
  | kindEquals kind => x.kind = kind
  | subtypeEquals subtype => x.subtype = subtype
  | unrecognized _ => False

end PathConstraint

namespace PathAssertion

/-- The entities a path leads to that satisfy the constraints. -/
def Answers (a : PathAssertion) (scope : Scope) (start : Entity) : Set Entity :=
  {x | Walks scope.world a.path start x ∧ ∀ c ∈ a.constraints, c.Holds scope a start x}

/-- What an assertion demands of the number of answers. -/
def Demands (a : PathAssertion) (n : ℕ) : Prop :=
  match a.check, a.count with
  | .nonempty, _ => n ≠ 0
  | .empty, _ => n = 0
  | .atLeast, none => 1 ≤ n
  | .atLeast, some k => k.toNat ≤ n
  | .atMost, none => n ≤ 0
  | .atMost, some k => n ≤ k.toNat

theorem accepts_iff (a : PathAssertion) (n : ℕ) : a.accepts n = true ↔ a.Demands n := by
  unfold accepts Demands
  rcases a with ⟨check, path, count, constraints⟩
  cases check <;> cases count <;> simp [Nat.pos_iff_ne_zero]

end PathAssertion

/-! ## Frontiers -/

section Frontiers

variable {w : World}

namespace PathStep

theorem accepts_iff {s : PathStep} {e : Entity} : s.accepts e = true ↔ s.Admits e := by
  have h : ∀ wanted actual, allows wanted actual = true ↔
      ∀ k, wanted = some k → k = "any" ∨ k = actual := by
    intro wanted actual
    cases wanted <;> simp [allows]
  simp only [accepts, Admits, Bool.and_eq_true, h, and_assoc]

theorem mem_expand (h : w.WellFormed) {s : PathStep} {frontier : List Entity} {x : Entity} :
    x ∈ s.expand w frontier ↔ ∃ e ∈ frontier, s.Hop w e x := by
  have hmem : ∀ y, (y ∈ frontier.flatMap fun e =>
      (w.neighbors e.id (some s.via) s.direction).filter s.accepts) ↔
        ∃ e ∈ frontier, s.Hop w e y := by
    intro y
    simp only [List.mem_flatMap, List.mem_filter, h.mem_neighbors_iff, accepts_iff, Hop, and_assoc]
  constructor
  · exact fun hx => (hmem x).1 (mem_of_mem_distinctBy hx)
  · intro hx
    obtain ⟨y, hy, hid⟩ : ∃ y ∈ s.expand w frontier, y.id = x.id :=
      exists_mem_distinctBy ((hmem x).2 hx)
    obtain ⟨e, -, hxe, -⟩ := hx
    obtain ⟨e', -, hye, -⟩ := (hmem y).1 (mem_of_mem_distinctBy hy)
    rw [← h.eq_of_id_eq hye hxe hid]
    exact hy

end PathStep

theorem mem_walk (h : w.WellFormed) {x : Entity} :
    ∀ (path : List PathStep) (frontier : List Entity) (captures : Captures),
      x ∈ (walk w path frontier captures).1 ↔ ∃ e ∈ frontier, Walks w path e x
  | [], frontier, captures => by
    simp only [walk]
    constructor
    · exact fun hx => ⟨x, hx, .here x⟩
    · rintro ⟨e, he, hw⟩
      cases hw
      exact he
  | s :: rest, frontier, captures => by
    simp only [walk]
    rw [mem_walk h rest]
    constructor
    · rintro ⟨b, hb, hw⟩
      obtain ⟨e, he, hop⟩ := (PathStep.mem_expand h).1 hb
      exact ⟨e, he, .hop hop hw⟩
    · rintro ⟨e, he, hw⟩
      cases hw with
      | hop hop hw => exact ⟨_, (PathStep.mem_expand h).2 ⟨e, he, hop⟩, hw⟩

theorem walk_pairwise : ∀ (path : List PathStep) (frontier : List Entity) (captures : Captures),
    frontier.Pairwise (·.id ≠ ·.id) →
      (walk w path frontier captures).1.Pairwise (·.id ≠ ·.id)
  | [], _, _, h => h
  | _ :: rest, _, _, _ => walk_pairwise rest _ _ (distinctBy_pairwise _)

theorem Walks.mem_entities {path : List PathStep} {a x : Entity} (hpath : path ≠ [])
    (h : Walks w path a x) : x ∈ w.entities := by
  induction h with
  | here => exact absurd rfl hpath
  | @hop s rest a b c hop hw ih =>
    cases rest with
    | nil =>
      cases hw
      exact hop.1
    | cons s' rest => exact ih (List.cons_ne_nil _ _)

/-! ## Captured sets -/

theorem PathStep.find?_capture (s : PathStep) (frontier : List Entity) (captures : Captures)
    (name : String) : (s.capture frontier captures).find? name =
      if s.captureAs = some name then some (frontier.map (·.id)) else captures.find? name := by
  unfold capture
  cases s.captureAs with
  | none => rfl
  | some n =>
    simp only [Option.some.injEq]
    exact Table.find?_insert ..

/-- Two steps cannot both be the last to capture under a name. -/
theorem LastCapture.unique {path : List PathStep} {name : String} {i j : ℕ}
    (hi : LastCapture path name i) (hj : LastCapture path name j) : i = j := by
  obtain ⟨⟨s, hs, hsn⟩, hi⟩ := hi
  obtain ⟨⟨t, ht, htn⟩, hj⟩ := hj
  rcases lt_trichotomy i j with hlt | heq | hlt
  · exact absurd htn (hi j t hlt ht)
  · exact heq
  · exact absurd hsn (hj i s hlt hs)

theorem LastCapture.cons {path : List PathStep} {name : String} {i : ℕ} (s : PathStep)
    (h : LastCapture path name i) : LastCapture (s :: path) name (i + 1) := by
  obtain ⟨⟨t, ht, htn⟩, hlast⟩ := h
  refine ⟨⟨t, ht, htn⟩, fun j t' hj ht' => ?_⟩
  obtain ⟨k, rfl⟩ : ∃ k, j = k + 1 := ⟨j - 1, by omega⟩
  exact hlast k t' (by omega) ht'

theorem LastCapture.head {path : List PathStep} {name : String} {s : PathStep}
    (hs : s.captureAs = some name) (hrest : ∀ t ∈ path, t.captureAs ≠ some name) :
    LastCapture (s :: path) name 0 := by
  refine ⟨⟨s, rfl, hs⟩, fun j t hj ht => ?_⟩
  obtain ⟨k, rfl⟩ : ∃ k, j = k + 1 := ⟨j - 1, by omega⟩
  exact hrest t (List.mem_of_getElem? ht)

/-- After a walk a name holds what it held before when no step captures under it, and otherwise
the ends of the walk up to the last step that does. -/
theorem find?_walk (name : String) :
    ∀ (path : List PathStep) (frontier : List Entity) (captures : Captures),
      ((∀ s ∈ path, s.captureAs ≠ some name)
          ∧ (walk w path frontier captures).2.find? name = captures.find? name)
        ∨ ∃ i, LastCapture path name i ∧ (walk w path frontier captures).2.find? name
            = some ((walk w (path.take (i + 1)) frontier captures).1.map (·.id))
  | [], _, _ => .inl ⟨by simp, rfl⟩
  | s :: rest, frontier, captures => by
    simp only [walk, List.take_succ_cons]
    rcases find?_walk name rest (s.expand w frontier)
      (s.capture (s.expand w frontier) captures) with ⟨hrest, hfind⟩ | ⟨i, hlast, hfind⟩
    · rw [hfind, PathStep.find?_capture]
      by_cases hs : s.captureAs = some name
      · rw [if_pos hs]
        exact .inr ⟨0, .head hs hrest, rfl⟩
      · rw [if_neg hs]
        refine .inl ⟨fun t ht => ?_, rfl⟩
        rcases List.mem_cons.1 ht with rfl | ht
        · exact hs
        · exact hrest t ht
    · exact .inr ⟨i + 1, hlast.cons s, hfind⟩

end Frontiers

/-! ## What is reached -/

section Reach

variable {scope : Scope} {a : PathAssertion} {start x : Entity}

theorem PathAssertion.captured_iff (h : scope.world.WellFormed)
    (hx : Walks scope.world a.path start x) {name : String} :
    a.Captured scope.world start name x ↔
      ∃ ids, (walk scope.world a.path [start] {}).2.find? name = some ids ∧ x.id ∈ ids := by
  have hmem : ∀ path (y : Entity),
      y ∈ (walk scope.world path [start] {}).1 ↔ Walks scope.world path start y := by
    intro path y
    rw [mem_walk h]
    simp
  rcases find?_walk (w := scope.world) name a.path [start] {} with
    ⟨hnone, hfind⟩ | ⟨i, hlast, hfind⟩
  · have hempty : (walk scope.world a.path [start] {}).2.find? name = none := hfind
    rw [hempty]
    constructor
    · rintro ⟨i, ⟨⟨s, hs, hsn⟩, -⟩, -⟩
      exact absurd hsn (hnone s (List.mem_of_getElem? hs))
    · rintro ⟨ids, hids, -⟩
      cases hids
  · rw [hfind]
    -- Both ends lie in the world, where an id tells them apart.
    have hpath : a.path ≠ [] := by
      rintro hp
      obtain ⟨⟨s, hs, -⟩, -⟩ := hlast
      simp [hp] at hs
    have htake : a.path.take (i + 1) ≠ [] := by
      simp [hpath]
    constructor
    · rintro ⟨j, hj, hw⟩
      rw [hj.unique hlast] at hw
      exact ⟨_, rfl, List.mem_map.2 ⟨x, (hmem _ x).2 hw, rfl⟩⟩
    · rintro ⟨ids, hids, hxs⟩
      cases hids
      obtain ⟨y, hy, hid⟩ := List.mem_map.1 hxs
      rw [hmem] at hy
      rw [h.eq_of_id_eq (hy.mem_entities htake) (hx.mem_entities hpath) hid] at hy
      exact ⟨i, hlast, hy⟩

theorem PathConstraint.means_iff {reference : String} {other : Entity} :
    Means scope start reference other ↔ partner? scope start reference = some other := by
  unfold Means partner? selfReference
  split
  · exact (Option.some_inj).symm
  · rfl

theorem PathConstraint.allows_iff (h : scope.world.WellFormed)
    (hx : Walks scope.world a.path start x) (c : PathConstraint) :
    c.allows scope (walk scope.world a.path [start] {}).2 start x = true ↔
      c.Holds scope a start x := by
  cases c with
  | notIn set =>
    simp only [allows, Holds, PathAssertion.captured_iff h hx]
    cases (walk scope.world a.path [start] {}).2.find? set <;> simp
  | isIn set =>
    simp only [allows, Holds, PathAssertion.captured_iff h hx]
    cases (walk scope.world a.path [start] {}).2.find? set <;> simp
  | notSelf => simp [allows, Holds]
  | hasRelationship kind reference d =>
    simp only [allows, Holds, means_iff, ← World.hasRelationship_iff]
    cases partner? scope start reference <;> simp
  | lacksRelationship kind reference d =>
    simp only [allows, Holds, means_iff, ← World.hasRelationship_iff]
    cases partner? scope start reference <;> simp
  | kindEquals kind => simp [allows, Holds]
  | subtypeEquals subtype => simp [allows, Holds]
  | unrecognized typeName => simp [allows, Holds]

namespace PathAssertion

theorem mem_reach (h : scope.world.WellFormed) :
    x ∈ (a.reach scope start {}).1 ↔ x ∈ a.Answers scope start := by
  have hwalk : x ∈ (walk scope.world a.path [start] {}).1 ↔ Walks scope.world a.path start x := by
    rw [mem_walk h]
    simp
  simp only [reach, Answers, List.mem_filter, List.all_eq_true, Set.mem_ofPred_eq, hwalk]
  constructor
  · exact fun ⟨hx, hc⟩ => ⟨hx, fun c hmem => (PathConstraint.allows_iff h hx c).1 (hc c hmem)⟩
  · exact fun ⟨hx, hc⟩ => ⟨hx, fun c hmem => (PathConstraint.allows_iff h hx c).2 (hc c hmem)⟩

theorem reach_nodup : (a.reach scope start {}).1.Nodup := by
  have h := walk_pairwise (w := scope.world) a.path [start] {} (List.pairwise_singleton _ _)
  refine List.Nodup.filter _ (h.imp fun hid heq => hid ?_)
  rw [heq]

theorem answers_finite (h : scope.world.WellFormed) : (a.Answers scope start).Finite :=
  (List.finite_toSet (a.reach scope start {}).1).subset fun _ hx => (mem_reach h).2 hx

theorem ncard_answers (h : scope.world.WellFormed) :
    (a.Answers scope start).ncard = (a.reach scope start {}).1.length := by
  classical
  have hset : a.Answers scope start = ((a.reach scope start {}).1.toFinset : Set Entity) := by
    ext y
    rw [Finset.mem_coe, List.mem_toFinset, mem_reach h]
  rw [hset, Set.ncard_coe_finset, List.toFinset_card_of_nodup reach_nodup]

theorem holds_iff (h : scope.world.WellFormed) :
    (a.holds scope start).1 = true ↔ a.Demands (a.Answers scope start).ncard := by
  rw [ncard_answers h, ← accepts_iff]
  rfl

end PathAssertion

end Reach

/-- An assertion holds at an entity exactly when it demands as many answers as there are, and a
condition that asks for it is met exactly then, whatever was captured before. -/
theorem PathAssertion.holds_iff_demands {σ : Type} [DrawSource σ] (ctx : Context)
    (built : ctx.world.Built) (a : PathAssertion) (start : Entity) :
    (a.Answers ctx.toScope start).Finite
      ∧ ((a.holds ctx.toScope start).1 = true ↔
          a.Demands (a.Answers ctx.toScope start).ncard)
      ∧ ∀ s : Scratch σ,
          ((Condition.path a).evaluateAt ctx (some start) s).1.passed = true ↔
            a.Demands (a.Answers ctx.toScope start).ncard :=
  ⟨answers_finite built.wellFormed, holds_iff built.wellFormed,
    fun _ => holds_iff built.wellFormed⟩

namespace Sample

/-- At least two others within two steps of Ann that are linked to her. -/
def friends : PathAssertion where
  check := .atLeast
  count := some 2
  path := [{ via := "knows", direction := .src, captureAs := some "seen" },
    { via := "knows", direction := .src, captureAs := some "seen" }]
  constraints := [.isIn "seen", .notSelf, .hasRelationship "knows" "$self" .both]

theorem demands_friends :
    village.Built ∧ friends.Demands (friends.Answers annsView.toScope ann).ncard :=
  ⟨built_village,
    (PathAssertion.holds_iff_demands (σ := FixedDraws) annsView built_village friends ann).2.1.1
      (by decide +kernel)⟩

/-- No draws and no captured sets. -/
def blank : Scratch FixedDraws := { draws := { draws := [] } }

end Sample

end StoryWorld
