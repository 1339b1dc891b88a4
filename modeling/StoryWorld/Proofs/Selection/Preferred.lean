import StoryWorld.Proofs.Selection.Picked
import StoryWorld.Proofs.Selection.Qualified

/-!
# Preferences

A variable rule asks of an entity that its source reaches it, that it fits the criteria and that
every filter admits it. Preferences come after that. They narrow the choice to those that they all
admit, and count for nothing if there is nobody, so they steer the selection and never empty it.
What is selected are distinct members of the choice, as many as are asked for or there are
(`VariableRule.select_preferred`).
-/

namespace StoryWorld

/-! ## What a rule asks -/

/-- What criteria ask of an entity. -/
@[mk_iff]
structure Criteria.Fits (c : Criteria) (e : Entity) : Prop where
  kind : c.OfKind e
  subtype : c.subtypes ≠ [] → e.subtype ∈ c.subtypes
  status : ∀ status ∈ c.status, e.status = status
  statuses : c.statuses ≠ [] → e.status ∈ c.statuses
  notStatus : c.notStatus ≠ some e.status

instance (c : Criteria) (e : Entity) : Decidable (c.Fits e) :=
  decidable_of_iff' _ (c.fits_iff e)

namespace VariableSource

/-- Whether a source reaches an entity: the graph reaches everyone, and another source those that
its anchor is linked to. -/
def Reaches (ctx : Context) (e : Entity) : VariableSource → Prop
  | graph => True
  | related anchor kind d => ∃ other ∈ ctx.resolve anchor, ctx.world.Linked kind d other.id e.id

instance (ctx : Context) (e : Entity) : ∀ source : VariableSource, Decidable (source.Reaches ctx e)
  | graph => inferInstanceAs (Decidable True)
  | related anchor kind d =>
    inferInstanceAs (Decidable (∃ other ∈ ctx.resolve anchor,
      ctx.world.Linked kind d other.id e.id))

end VariableSource

namespace VariableRule

/-- Everything a rule asks of an entity, but for its preferences. -/
@[mk_iff]
structure Eligible (r : VariableRule) (ctx : Context) (e : Entity) : Prop where
  reached : r.source.Reaches ctx e
  fits : r.criteria.Fits e
  filters : ∀ f ∈ r.filters, f.admits ctx.toScope e = true

instance (r : VariableRule) (ctx : Context) (e : Entity) : Decidable (r.Eligible ctx e) :=
  decidable_of_iff' _ (eligible_iff r ctx e)

/-- The entities of the world that are eligible. -/
def eligible (r : VariableRule) (ctx : Context) : List Entity :=
  ctx.world.entities.filter (r.Eligible ctx ·)

/-- Whether an entity is as preferred. -/
def Favours (r : VariableRule) (ctx : Context) (e : Entity) : Prop :=
  ∀ f ∈ r.preferFilters, f.admits ctx.toScope e = true

instance (r : VariableRule) (ctx : Context) (e : Entity) : Decidable (r.Favours ctx e) :=
  inferInstanceAs (Decidable (∀ f ∈ r.preferFilters, _))

/-- Those among candidates that are as preferred, or all of them if nobody is. -/
def favoured (r : VariableRule) (ctx : Context) (candidates : List Entity) : List Entity :=
  if ∃ e ∈ candidates, r.Favours ctx e then candidates.filter (r.Favours ctx ·) else candidates

/-- The entities that may be picked. -/
def choice (r : VariableRule) (ctx : Context) : List Entity := r.favoured ctx (r.eligible ctx)

/-- The eligible entities in the order in which the source comes to them. -/
def candidates (r : VariableRule) (ctx : Context) : List Entity :=
  ((r.pool? ctx.toScope).getD []).filter fun e =>
    r.criteria.Fits e ∧ ∀ f ∈ r.filters, f.admits ctx.toScope e = true

/-! ## Candidates -/

variable {r : VariableRule} {ctx : Context}

/-- The source comes to everyone whom it reaches, and to nobody twice. -/
theorem pool_perm (good : ctx.world.WellFormed) :
    ((r.pool? ctx.toScope).getD []).Perm (ctx.world.entities.filter (r.source.Reaches ctx ·)) := by
  unfold pool?
  cases hsource : r.source with
  | graph =>
    have hall : ctx.world.entities.filter (VariableSource.graph.Reaches ctx ·) =
        ctx.world.entities := List.filter_eq_self.2 fun _ _ => decide_eq_true trivial
    rw [hall]
    exact .rfl
  | related anchor kind d =>
    simp only
    cases hanchor : ctx.resolve anchor with
    | none =>
      have hnone : ctx.world.entities.filter
          ((VariableSource.related anchor kind d).Reaches ctx ·) = [] :=
        List.filter_eq_nil_iff.2 fun e _ h => by simp [VariableSource.Reaches, hanchor] at h
      rw [hnone]
      exact .rfl
    | some other =>
      have hnodup : ctx.world.entities.Nodup := List.Nodup.of_map _ good.ids_nodup
      refine (List.perm_ext_iff_of_nodup (good.nodup_neighbors ..) (hnodup.filter _)).2 fun e => ?_
      rw [good.mem_neighbors_iff, List.mem_filter, decide_eq_true_eq]
      simp [VariableSource.Reaches, hanchor]

theorem candidates_perm (good : ctx.world.WellFormed) :
    (r.candidates ctx).Perm (r.eligible ctx) := by
  refine ((pool_perm good).filter _).trans (.of_eq ?_)
  rw [List.filter_filter]
  refine List.filter_congr fun e _ => ?_
  rw [Bool.eq_iff_iff, Bool.and_eq_true, decide_eq_true_eq, decide_eq_true_eq, decide_eq_true_eq,
    eligible_iff]
  exact and_comm

/-! ## Preferences -/

variable {candidates candidates' : List Entity}

theorem favoured_eq_nil : r.favoured ctx candidates = [] ↔ candidates = [] := by
  unfold favoured
  split
  · rename_i hsome
    obtain ⟨e, he, hfavours⟩ := hsome
    refine iff_of_false (fun h => ?_) (List.ne_nil_of_mem he)
    exact List.filter_eq_nil_iff.1 h e he (decide_eq_true hfavours)
  · exact Iff.rfl

theorem favoured_perm (h : candidates.Perm candidates') :
    (r.favoured ctx candidates).Perm (r.favoured ctx candidates') := by
  unfold favoured
  simp only [h.mem_iff]
  split
  · exact h.filter _
  · exact h

theorem favoured_sublist : (r.favoured ctx candidates).Sublist candidates := by
  unfold favoured
  split
  · exact List.filter_sublist
  · exact .refl candidates

theorem favoured_eq_ite : r.favoured ctx candidates =
    if (candidates.filter (r.Favours ctx ·)).isEmpty then candidates
    else candidates.filter (r.Favours ctx ·) := by
  have hnobody : (candidates.filter (r.Favours ctx ·)).isEmpty = true ↔
      ¬ ∃ e ∈ candidates, r.Favours ctx e := by
    simp
  unfold favoured
  simp only [hnobody, ite_not]

/-- Where nothing is preferred everyone is as preferred, so there is no need to ask. -/
theorem applyAll_preferFilters (candidates : List Entity) (captures : Captures) :
    (if r.preferFilters.isEmpty then (candidates, captures)
      else Filter.applyAll ctx.toScope r.preferFilters candidates captures).1 =
        candidates.filter (r.Favours ctx ·) := by
  split
  · rename_i hnone
    refine (List.filter_eq_self.2 fun e _ => ?_).symm
    rw [decide_eq_true_eq, Favours, List.isEmpty_iff.1 hnone]
    exact List.forall_mem_nil _
  · rw [Filter.applyAll_fst]
    refine List.filter_congr fun e _ => ?_
    rw [Bool.eq_iff_iff, decide_eq_true_eq, List.all_eq_true, Favours]

/-! ## What is selected -/

section Select

variable {σ : Type} [DrawSource σ]

theorem applyAll_filters (captures : Captures) (pool : List Entity) :
    (Filter.applyAll ctx.toScope r.filters (((r.criteria.ofKinds pool).filter
      (r.criteria.acceptsSubtype [])).filter r.criteria.acceptsStatus) captures).1 =
      pool.filter fun e =>
        r.criteria.Fits e ∧ ∀ f ∈ r.filters, f.admits ctx.toScope e = true := by
  rw [Filter.applyAll_fst, Criteria.ofKinds_eq, List.filter_filter, List.filter_filter,
    List.filter_filter]
  refine List.filter_congr fun e _ => ?_
  rw [Bool.eq_iff_iff, decide_eq_true_eq, Criteria.fits_iff]
  simp only [Bool.and_eq_true, decide_eq_true_eq, Criteria.acceptsSubtype_iff,
    Criteria.acceptsStatus_iff, List.all_eq_true, List.not_mem_nil, not_false_eq_true]
  tauto

/-- The pick gets the preferred candidates. -/
theorem select_fst (r : VariableRule) (ctx : Context) (s : Scratch σ) :
    (r.select ctx s).1 = (r.pickStrategy.pick r.maxResults
      (r.favoured ctx (r.candidates ctx)) s.draws).1 := by
  unfold select VariableRule.candidates
  cases r.pool? ctx.toScope with
  | none => rfl
  | some pool =>
    simp only [applyAll_filters, applyAll_preferFilters, Option.getD_some]
    rw [favoured_eq_ite]

/-- A variable rule selects, whatever is drawn, distinct members of the choice, as many as are asked
for or there are; it selects nobody only where nobody is eligible or nobody is asked for. -/
theorem select_preferred (built : ctx.world.Built) (r : VariableRule) (s : Scratch σ) :
    (∀ anchor kind d, r.source = .related anchor kind d → ctx.resolve anchor = none →
        (r.select ctx s).1 = [])
      ∧ ((r.select ctx s).1.map (·.id)).Nodup
      ∧ (∀ e ∈ (r.select ctx s).1, e ∈ r.choice ctx)
      ∧ (r.select ctx s).1.length =
        min (r.pickStrategy.limit r.maxResults (r.choice ctx).length) (r.choice ctx).length
      ∧ ((r.select ctx s).1 = [] ↔ r.eligible ctx = [] ∨ r.maxResults = some 0) := by
  have good := built.wellFormed
  have hperm : (r.favoured ctx (r.candidates ctx)).Perm (r.choice ctx) :=
    favoured_perm (candidates_perm good)
  obtain ⟨hmembers, hlength, -⟩ := r.pickStrategy.reduces_pick r.maxResults
    (r.favoured ctx (r.candidates ctx)) s.draws
  rw [← select_fst, hperm.length_eq] at hlength
  have hsub := hmembers.trans hperm.subperm
  rw [← select_fst] at hsub
  have hids : ((r.choice ctx).map (·.id)).Nodup :=
    good.ids_nodup.sublist ((favoured_sublist.trans List.filter_sublist).map _)
  refine ⟨fun anchor kind d hsource hanchor => ?_, ?_, fun e he => hsub.subset he, hlength, ?_⟩
  · simp [select, pool?, hsource, hanchor]
  · obtain ⟨l, hl, hsublist⟩ := hsub
    exact ((hl.map _).nodup_iff).1 (hids.sublist (hsublist.map _))
  · rw [← List.length_eq_zero_iff, hlength, PickStrategy.min_limit_eq_zero_iff,
      List.length_eq_zero_iff, choice, favoured_eq_nil]

end Select

end VariableRule

namespace Sample

/-- Two of those whom Ann knows or who know her, if possible such as pass a filter that nobody
passes. -/
def acquaintances : VariableRule where
  source := .related "$self" "knows" .both
  criteria := { notStatus := some "gone" }
  filters := [.exclude ["$self"]]
  preferFilters := [.hasStatus "active", .unrecognized "sings"]
  maxResults := some 2

def astray : Scratch FixedDraws := { draws := strayDraws }

/-- Bob, whom Ann knows twice over, can be picked once, and preferences that nobody meets leave
both. -/
theorem acquaintances_selected :
    annsView.world.Built
      ∧ (acquaintances.choice annsView).map (·.name) = ["Bob", "Cat"]
      ∧ ((acquaintances.select annsView astray).1.map (·.id)).Nodup
      ∧ (∀ e ∈ (acquaintances.select annsView astray).1, e ∈ acquaintances.choice annsView)
      ∧ (acquaintances.select annsView astray).1.length = 2 := by
  have built : annsView.world.Built := built_village
  have hchoice : (acquaintances.choice annsView).map (·.name) = ["Bob", "Cat"] := by
    decide +kernel
  have hcount : (acquaintances.choice annsView).length = 2 := by
    rw [← List.length_map (·.name), hchoice]
    rfl
  obtain ⟨-, hids, hmembers, hlength, -⟩ :=
    VariableRule.select_preferred built acquaintances astray
  rw [hcount] at hlength
  exact ⟨built, hchoice, hids, hmembers, hlength⟩

end Sample

end StoryWorld
