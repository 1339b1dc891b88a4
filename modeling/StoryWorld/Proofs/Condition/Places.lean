import StoryWorld.Proofs.Isolation

/-!
# Condition trees place by place

A place leads from the root of a tree to one of its nodes, by the positions of the parts it goes
through. Evaluating a tree gives a tree of outcomes with the same places. The outcome at a place is
the one its condition has by itself, with a source that is as many draws further on as there are
random conditions to the left of the place (`Condition.at?_evaluateAt`). So nothing is left out
because of what something else came to, and the draws are given out from left to right.
-/

namespace StoryWorld

/-- The way from the root of a tree to a node, as positions among the parts on the way. -/
abbrev Place := List Nat

/-- Whether a place comes first when a tree is read from left to right, a node before its parts. -/
def Place.before : Place → Place → Bool
  | _, [] => false
  | [], _ :: _ => true
  | i :: p, j :: q => i < j || i = j && before p q

namespace Place

theorem before_asymm : ∀ {p q : Place}, p.before q = true → q.before p = false
  | [], _ :: _, _ => rfl
  | i :: p, j :: q, h => by
    simp only [before, Bool.or_eq_true, Bool.and_eq_true, decide_eq_true_eq] at h
    rcases h with hlt | ⟨rfl, h⟩
    · have hle : ¬ j < i := by omega
      have hne : ¬ j = i := by omega
      simp [before, hle, hne]
    · simp [before, before_asymm h]

theorem before_self (p : Place) : p.before p = false := by
  cases h : p.before p with
  | false => rfl
  | true => exact h.symm.trans (before_asymm h)

/-- When places are listed from left to right, as many are before each as the list has before it. -/
theorem countP_before {place : Place} : ∀ {l : List Place} {k : Nat},
    l.Pairwise (before · ·) → l[k]? = some place → l.countP (before · place) = k
  | p :: l, 0, hl, hk => by
    cases hk
    have hright : l.countP (before · place) = 0 := by
      rw [List.countP_eq_zero]
      intro q hq
      rw [before_asymm (List.rel_of_pairwise_cons hl hq)]
      exact Bool.false_ne_true
    rw [List.countP_cons, hright, before_self]
    rfl
  | p :: l, k + 1, hl, hk => by
    have hplace : place ∈ l := List.mem_of_getElem? hk
    rw [List.countP_cons, List.rel_of_pairwise_cons hl hplace, if_pos rfl,
      countP_before hl.of_cons hk]

end Place

/-- The outcome at a place. -/
def Outcome.at? (o : Outcome) : Place → Option Outcome
  | [] => some o
  | i :: place => o.children[i]?.bind fun child => child.at? place

theorem Test.children_run (ctx : Context) (entity : Option Entity) (t : Test) :
    (t.run ctx entity).children = [] := by
  unfold run
  repeat' split
  all_goals rfl

namespace Condition

/-- The conditions a combination is made of. -/
def parts : Condition → List Condition
  | all conditions => conditions
  | any conditions => conditions
  | _ => []

/-- The condition at a place. -/
def at? (c : Condition) : Place → Option Condition
  | [] => some c
  | i :: place => c.parts[i]?.bind fun part => part.at? place

mutual

/-- The places of the random conditions of a tree, from left to right. -/
def chances : Condition → List Place
  | randomChance _ => [[]]
  | all conditions => chancesFrom 0 conditions
  | any conditions => chancesFrom 0 conditions
  | _ => []

/-- The same for parts whose positions begin with `i`. -/
def chancesFrom : Nat → List Condition → List Place
  | _, [] => []
  | i, c :: rest => (chances c).map (i :: ·) ++ chancesFrom (i + 1) rest

end

/-- What the outcome of a condition has to do with those of its parts. -/
def Combines : Condition → Outcome → Prop
  | all conditions, o => o.children.length = conditions.length
      ∧ (o.passed = true ↔ ∀ child ∈ o.children, child.passed = true)
  | any conditions, o => o.children.length = conditions.length
      ∧ (o.passed = true ↔ ∃ child ∈ o.children, child.passed = true)
  | _, o => o.children = []

/-! ## Where the random conditions are -/

theorem mem_chancesFrom {place : Place} : ∀ {l : List Condition} {i : Nat},
    place ∈ chancesFrom i l ↔
      ∃ j part rest, l[j]? = some part ∧ place = (i + j) :: rest ∧ rest ∈ part.chances
  | [], i => by simp [chancesFrom]
  | c :: l, i => by
    rw [chancesFrom, List.mem_append, List.mem_map, mem_chancesFrom]
    constructor
    · rintro (⟨rest, hrest, rfl⟩ | ⟨j, part, rest, hj, rfl, hrest⟩)
      · exact ⟨0, c, rest, rfl, rfl, hrest⟩
      · refine ⟨j + 1, part, rest, hj, ?_, hrest⟩
        rw [Nat.add_right_comm, Nat.add_assoc]
    · rintro ⟨j, part, rest, hj, rfl, hrest⟩
      cases j with
      | zero =>
        cases hj
        exact .inl ⟨rest, hrest, rfl⟩
      | succ j =>
        refine .inr ⟨j, part, rest, hj, ?_, hrest⟩
        rw [Nat.add_right_comm, Nat.add_assoc]

/-- A random condition that is not the whole tree is in one of the parts. -/
theorem cons_mem_chances {c : Condition} {i : Nat} {place : Place} :
    i :: place ∈ c.chances ↔ ∃ part, c.parts[i]? = some part ∧ place ∈ part.chances := by
  cases c <;> simp [chances, parts, mem_chancesFrom]

theorem mem_chances {place : Place} : ∀ {c : Condition},
    place ∈ c.chances ↔ ∃ chance, c.at? place = some (.randomChance chance) := by
  induction place with
  | nil =>
    intro c
    cases c <;> simp [chances, at?, mem_chancesFrom]
  | cons i place ih =>
    intro c
    rw [cons_mem_chances]
    simp only [at?, Option.bind_eq_some_iff, ih]
    constructor
    · rintro ⟨part, hpart, chance, hplace⟩
      exact ⟨chance, part, hpart, hplace⟩
    · rintro ⟨chance, part, hpart, hplace⟩
      exact ⟨part, hpart, chance, hplace⟩

mutual

theorem chances_pairwise : ∀ c : Condition, c.chances.Pairwise (Place.before · ·)
  | .all conditions => chancesFrom_pairwise 0 conditions
  | .any conditions => chancesFrom_pairwise 0 conditions
  | .randomChance _ => List.pairwise_singleton _ _
  | .test _ => .nil
  | .path _ => .nil
  | .unrecognized _ => .nil

theorem chancesFrom_pairwise : ∀ (i : Nat) (l : List Condition),
    (chancesFrom i l).Pairwise (Place.before · ·)
  | i, [] => .nil
  | i, c :: l => by
    rw [chancesFrom, List.pairwise_append, List.pairwise_map]
    refine ⟨(chances_pairwise c).imp fun h => ?_, chancesFrom_pairwise (i + 1) l, ?_⟩
    · simp [Place.before, h]
    · intro p hp q hq
      obtain ⟨p, -, rfl⟩ := List.mem_map.1 hp
      obtain ⟨j, part, q, -, rfl, -⟩ := mem_chancesFrom.1 hq
      have hij : i < i + 1 + j := by omega
      simp [Place.before, hij]

end

/-- To the left of a part are the random conditions of the parts before it, and no others of the
other parts. -/
theorem countP_before_chancesFrom {i : Nat} {part : Condition} {place : Place} :
    ∀ {l : List Condition} (k : Nat), l[i]? = some part →
      (chancesFrom k l).countP (Place.before · ((k + i) :: place)) =
        (chancesFrom k (l.take i)).length + part.chances.countP (Place.before · place) := by
  induction i with
  | zero =>
    intro l k hpart
    cases l with
    | nil => cases hpart
    | cons c l =>
      cases hpart
      have hright : (chancesFrom (k + 1) l).countP (Place.before · (k :: place)) = 0 := by
        rw [List.countP_eq_zero]
        intro q hq
        obtain ⟨j, part, q, -, rfl, -⟩ := mem_chancesFrom.1 hq
        have hle : ¬ k + 1 + j < k := by omega
        have hne : ¬ k + 1 + j = k := by omega
        simp [Place.before, hle, hne]
      rw [chancesFrom, List.countP_append, List.countP_map, Nat.add_zero, hright]
      simp [Place.before, chancesFrom, Function.comp_def]
  | succ i ih =>
    intro l k hpart
    cases l with
    | nil => cases hpart
    | cons c l =>
      have hleft : (c.chances.map (k :: ·)).countP (Place.before · ((k + (i + 1)) :: place))
          = c.chances.length := by
        rw [List.countP_map, List.countP_eq_length]
        intro p _
        simp [Place.before]
      have ih := ih (l := l) (k + 1) hpart
      rw [Nat.add_right_comm, Nat.add_assoc] at ih
      rw [chancesFrom, List.countP_append, hleft, ih, List.take_succ_cons, chancesFrom,
        List.length_append, List.length_map, Nat.add_assoc]

theorem countP_before_cons {c part : Condition} {i : Nat} {place : Place}
    (h : c.parts[i]? = some part) :
    c.chances.countP (Place.before · (i :: place)) =
      (chancesFrom 0 (c.parts.take i)).length + part.chances.countP (Place.before · place) := by
  rw [← countP_before_chancesFrom 0 h, Nat.zero_add]
  cases c with
  | all conditions => rfl
  | any conditions => rfl
  | _ => cases h

/-! ## Draws -/

section Draws

variable {σ : Type} [DrawSource σ]

mutual

/-- A tree takes one draw for each of its random conditions. -/
theorem draws_evaluateAt (ctx : Context) (entity : Option Entity) :
    ∀ (c : Condition) (s : Scratch σ),
      (c.evaluateAt ctx entity s).2.draws = DrawSource.skip c.chances.length s.draws
  | .test _, _ => rfl
  | .randomChance _, _ => rfl
  | .path _, _ => by cases entity <;> rfl
  | .all conditions, s => draws_evaluateEach ctx entity conditions 0 s
  | .any conditions, s => draws_evaluateEach ctx entity conditions 0 s
  | .unrecognized _, _ => rfl

theorem draws_evaluateEach (ctx : Context) (entity : Option Entity) :
    ∀ (l : List Condition) (i : Nat) (s : Scratch σ),
      (evaluateEach ctx entity l s).2.draws = DrawSource.skip (chancesFrom i l).length s.draws
  | [], _, _ => rfl
  | c :: l, i, s => by
    rw [chancesFrom, List.length_append, List.length_map, DrawSource.skip_add,
      ← draws_evaluateAt ctx entity c s]
    exact draws_evaluateEach ctx entity l (i + 1) _

end

/-- Captured sets do not show in an outcome. -/
theorem outcome_congr (ctx : Context) (entity : Option Entity) (c : Condition) {s t : Scratch σ}
    (h : s.draws = t.draws) : (c.evaluateAt ctx entity s).1 = (c.evaluateAt ctx entity t).1 :=
  ((Coupling.refl σ).evaluateAt ctx entity c h).1

end Draws

/-! ## Outcomes -/

section Outcomes

variable {σ : Type} [DrawSource σ] (ctx : Context) (entity : Option Entity)

/-- Each part has its outcome in its position, with the draws the parts before it left. -/
theorem getElem?_evaluateEach : ∀ (l : List Condition) (i k : Nat) (s : Scratch σ),
    (evaluateEach ctx entity l s).1[i]? = l[i]?.map fun c =>
      (c.evaluateAt ctx entity
        { draws := DrawSource.skip (chancesFrom k (l.take i)).length s.draws }).1
  | [], _, _, _ => rfl
  | c :: l, 0, _, s => congrArg some (outcome_congr ctx entity c rfl)
  | c :: l, i + 1, k, s => by
    simp only [evaluateEach, List.getElem?_cons_succ]
    rw [getElem?_evaluateEach l i (k + 1), draws_evaluateAt, List.take_succ_cons, chancesFrom,
      List.length_append, List.length_map, DrawSource.skip_add]

/-- The outcomes below the outcome of a condition are those of its parts, in order. -/
theorem children_evaluateAt (c : Condition) (s : Scratch σ) :
    (c.evaluateAt ctx entity s).1.children = (evaluateEach ctx entity c.parts s).1 := by
  cases c with
  | test t => exact t.children_run ctx entity
  | randomChance chance => rfl
  | path assertion => cases entity <;> rfl
  | all conditions => rfl
  | any conditions => rfl
  | unrecognized typeName => rfl

theorem length_evaluateEach : ∀ (l : List Condition) (s : Scratch σ),
    (evaluateEach ctx entity l s).1.length = l.length
  | [], _ => rfl
  | c :: l, s => congrArg (· + 1) (length_evaluateEach l (c.evaluateAt ctx entity s).2)

theorem combines_evaluateAt (c : Condition) (s : Scratch σ) :
    c.Combines (c.evaluateAt ctx entity s).1 := by
  have hchildren := children_evaluateAt ctx entity c s
  cases c with
  | all conditions =>
    refine ⟨?_, ?_⟩
    · rw [hchildren]
      exact length_evaluateEach ctx entity conditions s
    · exact (Bool.eq_iff_iff.1 (Outcome.ofAll_passed _)).trans List.all_eq_true
  | any conditions =>
    refine ⟨?_, ?_⟩
    · rw [hchildren]
      exact length_evaluateEach ctx entity conditions s
    · exact (Bool.eq_iff_iff.1 (Outcome.ofAny_passed _)).trans List.any_eq_true
  | _ => exact hchildren

theorem at?_evaluateAt : ∀ (place : Place) (c : Condition) (s : Scratch σ),
    (c.evaluateAt ctx entity s).1.at? place = (c.at? place).map fun node =>
      (node.evaluateAt ctx entity
        { draws := DrawSource.skip (c.chances.countP (Place.before · place)) s.draws }).1
  | [], c, s => by
    have hnone : c.chances.countP (Place.before · []) = 0 := by simp [Place.before]
    rw [hnone]
    exact congrArg some (outcome_congr ctx entity c rfl)
  | i :: place, c, s => by
    simp only [Outcome.at?, at?, children_evaluateAt, getElem?_evaluateEach ctx entity _ _ 0]
    cases hpart : c.parts[i]? with
    | none => rfl
    | some part =>
      simp only [Option.map_some, Option.bind_some]
      rw [at?_evaluateAt place part, countP_before_cons hpart, DrawSource.skip_add]

theorem drawsTaken_condition (c : Condition) (s : Scratch σ) :
    Evaluation.drawsTaken ctx [.condition c entity] s = c.chances.length := by
  have hdraws := draws_evaluateAt ctx (entity.or ctx.self?) c
    ({ draws := { source := s.draws }, captures := s.captures } : Scratch (Metered σ))
  have hdrawn := congrArg Metered.drawn hdraws
  rw [Metered.drawn_skip, Nat.zero_add] at hdrawn
  exact hdrawn

end Outcomes

/-- A condition tree is evaluated eagerly and from left to right. -/
theorem evaluate_place_by_place {σ : Type} [DrawSource σ] (ctx : Context) (entity : Option Entity)
    (c : Condition) (s : Scratch σ) :
    (∀ place, (c.evaluate ctx entity s).1.at? place = (c.at? place).map fun node =>
        (node.evaluate ctx entity
          { draws := DrawSource.skip (c.chances.countP (Place.before · place)) s.draws }).1)
      ∧ (∀ place node o, c.at? place = some node →
          (c.evaluate ctx entity s).1.at? place = some o → node.Combines o)
      ∧ (∀ place, place ∈ c.chances ↔ ∃ chance, c.at? place = some (.randomChance chance))
      ∧ c.chances.Pairwise (Place.before · ·)
      ∧ Evaluation.drawsTaken ctx [.condition c entity] s = c.chances.length
      ∧ ∀ k place chance, c.chances[k]? = some place →
          c.at? place = some (.randomChance chance) →
            (c.evaluate ctx entity s).1.at? place =
              some (chanceOutcome chance (DrawSource.next (DrawSource.skip k s.draws)).1) := by
  have hat := fun place => at?_evaluateAt ctx (entity.or ctx.self?) place c s
  refine ⟨hat, fun place node o hnode ho => ?_, fun _ => mem_chances, chances_pairwise c,
    drawsTaken_condition ctx entity c s, fun k place chance hk hplace => ?_⟩
  · have heq := (hat place).symm.trans ho
    rw [hnode, Option.map_some, Option.some.injEq] at heq
    rw [← heq]
    exact combines_evaluateAt ctx _ node _
  · refine (hat place).trans ?_
    rw [hplace, Place.countP_before (chances_pairwise c) hk]
    rfl

end Condition

namespace Sample

/-- An unheard-of question and a gamble, friends, and another gamble. -/
def omens : Condition :=
  .any [.all [.unrecognized "omen", .randomChance 0.5], .path friends, .randomChance 0.5]

/-- The first part fails and the second is met; the last gamble has the second draw all the same. -/
theorem omens_second_draw :
    omens.chances = [[0, 1], [2]]
      ∧ (omens.evaluate annsView none dice).1.at? [2] =
        some (Condition.chanceOutcome 0.5 0.75) := by
  obtain ⟨-, -, -, -, -, hdraw⟩ := Condition.evaluate_place_by_place annsView none omens dice
  exact ⟨rfl, hdraw 1 [2] 0.5 rfl rfl⟩

end Sample

end StoryWorld
