import StoryWorld.Proofs.Selection.Picked
import StoryWorld.Proofs.Selection.Qualified

/-!
# What a trace says

All that a selection does before the pick is to keep, stage by stage, those who pass a test, and a
trace has a step for each stage with the number of those who are left. The steps are known from the
stages (`Stage.notes`): each counts the entities of the world that pass its own test and all the
earlier ones (`Stage.getElem?_notes`), so they never count more than the step before. The selection
does not read the trace. It selects, draws and captures the same whether there is one or not, and
the steps of one are faithful (`SelectionRule.select_traced`).
-/

namespace StoryWorld

/-! ## Steps -/

namespace Trace

/-- A trace continued by further steps. -/
def extend (t : Trace) (steps : List TraceStep) : Trace where
  steps := t.steps ++ steps

theorem extend_nil (t : Trace) : t.extend [] = t := by
  rw [extend, List.append_nil]

theorem extend_extend (t : Trace) (steps more : List TraceStep) :
    (t.extend steps).extend more = t.extend (steps ++ more) := by
  rw [extend, extend, extend, List.append_assoc]

end Trace

theorem record_eq (trace : Option Trace) (description : String) (candidates : List Entity) :
    record trace description candidates =
      trace.map (·.extend [⟨description, candidates.length⟩]) := rfl

/-! ## Stages -/

/-- A stage of a selection: what a trace calls it and whom it keeps. -/
structure Stage where
  description : String
  keeps : Entity → Bool

namespace Stage

def ofFilter (scope : Scope) (f : Filter) : Stage where
  description := s!"filter {f.describe}"
  keeps := f.admits scope

def ofLimit (w : World) (l : SaturationLimit) : Stage where
  description := l.describe
  keeps := l.allows w

theorem all_ofFilter (scope : Scope) (l : List Filter) (e : Entity) :
    (l.map (ofFilter scope)).all (·.keeps e) = decide (∀ f ∈ l, f.admits scope e = true) := by
  rw [List.all_map, Bool.eq_iff_iff, List.all_eq_true, decide_eq_true_eq]
  rfl

theorem all_ofLimit (w : World) (l : List SaturationLimit) (e : Entity) :
    (l.map (ofLimit w)).all (·.keeps e) = decide (∀ limit ∈ l, limit.allows w e = true) := by
  rw [List.all_map, Bool.eq_iff_iff, List.all_eq_true, decide_eq_true_eq]
  rfl

/-- The steps that stages add to a trace. -/
def notes : List Stage → List Entity → List TraceStep
  | [], _ => []
  | stage :: rest, candidates =>
    ⟨stage.description, (candidates.filter stage.keeps).length⟩
      :: notes rest (candidates.filter stage.keeps)

theorem filter_all_cons (stage : Stage) (rest : List Stage) (candidates : List Entity) :
    (candidates.filter fun e => (stage :: rest).all (·.keeps e)) =
      (candidates.filter stage.keeps).filter fun e => rest.all (·.keeps e) := by
  rw [List.filter_filter]
  simp only [List.all_cons, Bool.and_comm]

theorem length_notes : ∀ (stages : List Stage) (candidates : List Entity),
    (notes stages candidates).length = stages.length
  | [], _ => rfl
  | _ :: rest, _ => congrArg (· + 1) (length_notes rest _)

theorem notes_append (more : List Stage) : ∀ (stages : List Stage) (candidates : List Entity),
    notes (stages ++ more) candidates = notes stages candidates
      ++ notes more (candidates.filter fun e => stages.all (·.keeps e))
  | [], candidates => by simp [notes]
  | stage :: rest, candidates => by
    rw [List.cons_append, notes, notes_append more rest, notes, List.cons_append,
      filter_all_cons]

/-- The step of a stage counts those who pass everything up to it. -/
theorem getElem?_notes : ∀ (stages : List Stage) (candidates : List Entity) (k : ℕ),
    (notes stages candidates)[k]? = stages[k]?.map fun stage =>
      ⟨stage.description, candidates.countP fun e => (stages.take (k + 1)).all (·.keeps e)⟩
  | [], _, _ => rfl
  | stage :: rest, candidates, 0 => by
    simp [notes, List.countP_eq_length_filter]
  | stage :: rest, candidates, k + 1 => by
    rw [notes, List.getElem?_cons_succ, getElem?_notes rest, List.getElem?_cons_succ,
      List.take_succ_cons]
    simp only [List.countP_filter, List.all_cons, Bool.and_comm]

/-- No stage adds anyone. -/
theorem remaining_le_of_mem_notes : ∀ {stages : List Stage} {candidates : List Entity}
    {step : TraceStep}, step ∈ notes stages candidates → step.remaining ≤ candidates.length
  | stage :: rest, candidates, step, h => by
    have hkept := candidates.length_filter_le stage.keeps
    rcases List.mem_cons.1 h with rfl | h
    · exact hkept
    · exact (remaining_le_of_mem_notes h).trans hkept

theorem pairwise_notes : ∀ (stages : List Stage) (candidates : List Entity),
    (notes stages candidates).Pairwise (·.remaining ≥ ·.remaining)
  | [], _ => .nil
  | _ :: rest, _ => .cons (fun _ h => remaining_le_of_mem_notes h) (pairwise_notes rest _)

/-- Whoever passes all stages has been counted by each. -/
theorem le_remaining_of_mem_notes : ∀ {stages : List Stage} {candidates : List Entity}
    {step : TraceStep}, step ∈ notes stages candidates →
      (candidates.filter fun e => stages.all (·.keeps e)).length ≤ step.remaining
  | stage :: rest, candidates, step, h => by
    rw [filter_all_cons]
    rcases List.mem_cons.1 h with rfl | h
    · exact List.length_filter_le _ _
    · exact le_remaining_of_mem_notes h

end Stage

theorem trace_filterStages (scope : Scope) :
    ∀ (l : List Filter) (candidates : List Entity) (captures : Captures) (trace : Option Trace),
      (filterStages scope l candidates captures trace).2.2 =
        trace.map (·.extend (Stage.notes (l.map (Stage.ofFilter scope)) candidates))
  | [], candidates, captures, trace => by
    simp [filterStages, Stage.notes, Trace.extend_nil]
  | f :: rest, candidates, captures, trace => by
    simp only [filterStages]
    rw [trace_filterStages scope rest, record_eq, Option.map_map, Filter.apply_fst]
    simp only [Function.comp_def, Trace.extend_extend]
    rfl

theorem captures_filterStages (scope : Scope) :
    ∀ (l : List Filter) (candidates : List Entity) (captures : Captures) (trace : Option Trace),
      (filterStages scope l candidates captures trace).2.1 =
        (filterStages scope l candidates captures none).2.1
  | [], _, _, _ => rfl
  | f :: rest, candidates, captures, trace => by
    simp only [filterStages]
    rw [captures_filterStages scope rest]
    rfl

theorem trace_saturationStages (w : World) :
    ∀ (l : List SaturationLimit) (candidates : List Entity) (trace : Option Trace),
      (saturationStages w l candidates trace).2 =
        trace.map (·.extend (Stage.notes (l.map (Stage.ofLimit w)) candidates))
  | [], candidates, trace => by
    simp [saturationStages, Stage.notes, Trace.extend_nil]
  | limit :: rest, candidates, trace => by
    simp only [saturationStages]
    rw [trace_saturationStages w rest, record_eq, Option.map_map]
    simp only [Function.comp_def, Trace.extend_extend]
    rfl

/-! ## Rules -/

namespace SelectionRule

/-- What a rule asks of an entity before its filters and limits. -/
@[mk_iff]
structure Narrows (r : SelectionRule) (ctx : Context) (e : Entity) : Prop where
  kind : r.criteria.OfKind e
  strategy : r.strategy.Admits ctx (r.pool ctx.world) e
  subtype : r.criteria.acceptsSubtype r.excludeSubtypes e = true
  status : r.criteria.acceptsStatus e = true

instance (r : SelectionRule) (ctx : Context) (e : Entity) : Decidable (r.Narrows ctx e) :=
  decidable_of_iff' _ (narrows_iff r ctx e)

variable (r : SelectionRule) (ctx : Context)

/-- The stages before the filters and limits. -/
def opening : List Stage :=
  let kinds := ", ".intercalate r.criteria.kindSet
  [⟨s!"pool of kind(s) [{kinds}]", fun e => r.criteria.OfKind e⟩,
    ⟨s!"strategy {r.strategy.typeName}", fun e => r.strategy.Admits ctx (r.pool ctx.world) e⟩,
    ⟨"subtype lists", r.criteria.acceptsSubtype r.excludeSubtypes⟩,
    ⟨"status filters", r.criteria.acceptsStatus⟩]

def stages : List Stage :=
  r.opening ctx ++ r.filters.map (Stage.ofFilter ctx.toScope)
    ++ r.saturationLimits.map (Stage.ofLimit ctx.world)

/-- How many entities pass the stages before the filters and limits and some of these. -/
def passing (filters : List Filter) (limits : List SaturationLimit) : ℕ :=
  ctx.world.entities.countP fun e => r.Narrows ctx e
    ∧ (∀ f ∈ filters, f.admits ctx.toScope e = true) ∧ ∀ l ∈ limits, l.allows ctx.world e = true

/-- The steps that a selection adds to a trace. -/
def steps (picked : List Entity) : List TraceStep :=
  Stage.notes (r.stages ctx) ctx.world.entities
    ++ [⟨s!"pick {r.pickStrategy.label}", picked.length⟩]

theorem all_opening (e : Entity) :
    (r.opening ctx).all (·.keeps e) = decide (r.Narrows ctx e) := by
  rw [Bool.eq_iff_iff, decide_eq_true_eq, narrows_iff]
  simp [opening]

theorem filter_opening (l : List Entity) :
    (l.filter fun e => (r.opening ctx).all (·.keeps e)) =
      (((l.filter (r.criteria.OfKind ·)).filter
        (r.strategy.Admits ctx (r.pool ctx.world) ·)).filter
          (r.criteria.acceptsSubtype r.excludeSubtypes)).filter r.criteria.acceptsStatus := by
  rw [List.filter_filter, List.filter_filter, List.filter_filter]
  refine List.filter_congr fun e _ => ?_
  simp [opening, Bool.and_comm]

theorem length_stages :
    (r.stages ctx).length = 4 + r.filters.length + r.saturationLimits.length := by
  simp only [stages, List.length_append, List.length_map]
  rfl

/-! ## Counts -/

section Counts

variable (picked : List Entity)

theorem getElem?_steps {k : ℕ} {stage : Stage} (h : (r.stages ctx)[k]? = some stage) :
    (r.steps ctx picked)[k]? = some ⟨stage.description,
      ctx.world.entities.countP fun e => ((r.stages ctx).take (k + 1)).all (·.keeps e)⟩ := by
  obtain ⟨hk, -⟩ := List.getElem?_eq_some_iff.1 h
  rw [steps, List.getElem?_append_left (by rwa [Stage.length_notes]), Stage.getElem?_notes, h]
  rfl

theorem countP_all_eq_passing (filters : List Filter) (limits : List SaturationLimit) :
    (ctx.world.entities.countP fun e => (r.opening ctx ++ filters.map (Stage.ofFilter ctx.toScope)
      ++ limits.map (Stage.ofLimit ctx.world)).all (·.keeps e)) = r.passing ctx filters limits := by
  refine List.countP_congr fun e _ => ?_
  simp only [List.all_append, all_opening, Stage.all_ofFilter, Stage.all_ofLimit, Bool.and_eq_true,
    decide_eq_true_eq, and_assoc]

theorem getElem?_steps_filter {i : ℕ} {f : Filter} (h : r.filters[i]? = some f) :
    (r.steps ctx picked)[4 + i]? =
      some ⟨s!"filter {f.describe}", r.passing ctx (r.filters.take (i + 1)) []⟩ := by
  have hopening : (r.opening ctx).length = 4 := rfl
  obtain ⟨hi, -⟩ := List.getElem?_eq_some_iff.1 h
  have hstage : (r.stages ctx)[4 + i]? = some (.ofFilter ctx.toScope f) := by
    rw [stages, List.append_assoc, ← hopening, List.getElem?_append_right (Nat.le_add_right ..),
      Nat.add_sub_cancel_left, List.getElem?_append_left (by rwa [List.length_map]),
      List.getElem?_map, h]
    rfl
  have htake : (r.stages ctx).take (4 + i + 1) =
      r.opening ctx ++ (r.filters.take (i + 1)).map (Stage.ofFilter ctx.toScope)
        ++ [].map (Stage.ofLimit ctx.world) := by
    rw [stages, List.append_assoc, ← hopening, Nat.add_assoc, List.take_length_add_append,
      List.take_append_of_le_length (by rwa [List.length_map]), List.map_take, List.map_nil,
      List.append_nil]
  rw [r.getElem?_steps ctx picked hstage, htake, countP_all_eq_passing]
  rfl

theorem getElem?_steps_limit {i : ℕ} {l : SaturationLimit} (h : r.saturationLimits[i]? = some l) :
    (r.steps ctx picked)[4 + r.filters.length + i]? =
      some ⟨l.describe, r.passing ctx r.filters (r.saturationLimits.take (i + 1))⟩ := by
  have hearlier : (r.opening ctx ++ r.filters.map (Stage.ofFilter ctx.toScope)).length =
      4 + r.filters.length := by
    rw [List.length_append, List.length_map]
    rfl
  have hstage : (r.stages ctx)[4 + r.filters.length + i]? = some (.ofLimit ctx.world l) := by
    rw [stages, ← hearlier, List.getElem?_append_right (Nat.le_add_right ..),
      Nat.add_sub_cancel_left, List.getElem?_map, h]
    rfl
  have htake : (r.stages ctx).take (4 + r.filters.length + i + 1) =
      r.opening ctx ++ r.filters.map (Stage.ofFilter ctx.toScope)
        ++ (r.saturationLimits.take (i + 1)).map (Stage.ofLimit ctx.world) := by
    rw [stages, ← hearlier, Nat.add_assoc, List.take_length_add_append, List.map_take]
  rw [r.getElem?_steps ctx picked hstage, htake, countP_all_eq_passing]
  rfl

end Counts

/-! ## Selections -/

section Select

variable {σ : Type} [DrawSource σ] (s : Scratch σ)

/-- A selection does not read the trace, and adds its steps if there is one. -/
theorem select_eq (trace : Option Trace) :
    r.select ctx trace s =
      (((r.select ctx none s).1.1, trace.map (·.extend (r.steps ctx (r.select ctx none s).1.1))),
        (r.select ctx none s).2) := by
  refine Prod.ext (Prod.ext ?_ ?_) ?_
  · simp only [select, saturationStages_fst, filterStages_fst]
  · -- Everything noted is appended to the trace, and each stage gets what the one before it keeps.
    have hpool : r.criteria.ofKinds ctx.world.entities = r.pool ctx.world :=
      r.criteria.ofKinds_eq ctx.world.entities
    simp only [select, saturationStages_fst, filterStages_fst, trace_saturationStages,
      trace_filterStages, record_eq, Option.map_map, Function.comp_def, Trace.extend_extend,
      hpool, Strategy.narrow_eq, steps, stages, Stage.notes_append, Stage.all_ofFilter,
      List.append_assoc, filter_opening]
    rfl
  · simp only [select, saturationStages_fst, filterStages_fst]
    rw [captures_filterStages]
    rfl

/-- The pick gets those who pass all stages. -/
theorem select_eq_pick (trace : Option Trace) :
    (r.select ctx trace s).1.1 = (r.pickStrategy.pick r.maxResults
      (ctx.world.entities.filter fun e => (r.stages ctx).all (·.keeps e)) s.draws).1 := by
  have hstages : (ctx.world.entities.filter fun e => (r.stages ctx).all (·.keeps e)) =
      ((ctx.world.entities.filter fun e => (r.opening ctx).all (·.keeps e)).filter fun e =>
        ∀ f ∈ r.filters, f.admits ctx.toScope e = true).filter fun e =>
          ∀ l ∈ r.saturationLimits, l.allows ctx.world e = true := by
    simp only [List.filter_filter, stages, List.all_append, Stage.all_ofFilter, Stage.all_ofLimit,
      Bool.and_comm]
  rw [hstages, filter_opening]
  simp only [select, saturationStages_fst, filterStages_fst, Strategy.narrow_eq,
    Criteria.ofKinds_eq]
  rfl

theorem length_select_le : (r.select ctx none s).1.1.length ≤
    (ctx.world.entities.filter fun e => (r.stages ctx).all (·.keeps e)).length := by
  rw [select_eq_pick, (r.pickStrategy.reduces_pick ..).length]
  exact Nat.min_le_right ..

/-- A selection selects, draws and captures the same with a trace as without one. To the trace it
adds a step for each of the first four stages, for each filter and limit and for the pick. The
counts go down to the number of the selected, and the step of a filter or limit counts those who
pass everything up to it. -/
theorem select_traced (t : Trace) :
    (r.select ctx (some t) s).1.1 = (r.select ctx none s).1.1
      ∧ (r.select ctx (some t) s).2 = (r.select ctx none s).2
      ∧ (r.select ctx none s).1.2 = none
      ∧ ∃ steps, (r.select ctx (some t) s).1.2 = some (t.extend steps)
        ∧ steps.length = 5 + r.filters.length + r.saturationLimits.length
        ∧ steps.Pairwise (·.remaining ≥ ·.remaining)
        ∧ steps.getLast?.map (·.remaining) = some (r.select ctx none s).1.1.length
        ∧ (∀ i f, r.filters[i]? = some f → steps[4 + i]? =
          some ⟨s!"filter {f.describe}", r.passing ctx (r.filters.take (i + 1)) []⟩)
        ∧ (∀ i l, r.saturationLimits[i]? = some l → steps[4 + r.filters.length + i]? =
          some ⟨l.describe, r.passing ctx r.filters (r.saturationLimits.take (i + 1))⟩) := by
  rw [r.select_eq ctx s (some t)]
  refine ⟨rfl, rfl, congrArg (·.1.2) (r.select_eq ctx s none), _, rfl, ?_, ?_, ?_,
    fun i f => r.getElem?_steps_filter ctx _, fun i l => r.getElem?_steps_limit ctx _⟩
  · rw [steps, List.length_append, Stage.length_notes, length_stages, List.length_singleton]
    omega
  · refine List.pairwise_append.2 ⟨Stage.pairwise_notes .., List.pairwise_singleton .., ?_⟩
    intro step hstep last hlast
    rw [List.mem_singleton.1 hlast]
    exact (r.length_select_le ctx s).trans (Stage.le_remaining_of_mem_notes hstep)
  · rw [steps, List.getLast?_append_of_ne_nil _ (List.cons_ne_nil _ _)]
    rfl

end Select

end SelectionRule

namespace Sample

/-- The filter leaves Ann out, and the limit leaves out Bob, whom an npc knows twice over. -/
example : ((stranger.select annsView (some {}) undrawn).1.2.map (·.steps.map (·.remaining))) =
    some [3, 3, 3, 3, 2, 1, 1] := by decide +kernel

end Sample

end StoryWorld
