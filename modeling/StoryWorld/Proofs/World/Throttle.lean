import StoryWorld.Condition.Evaluate
import StoryWorld.Proofs.World.Built

/-!
# Throttled creation

Two conditions hold creation back: one asks how many creations the epoch has seen, the other how
long ago the last one was. They read what is noted when a creation is recorded and when an epoch
begins, and no other call touches that (`rateLimits_perform`). A run that records creations only
where both conditions are met therefore keeps every epoch within its number, and every creation at
a distance from those before it (`creations_throttled`), whatever else it does in between.

The clock may be set back. A creation that then lies in the future counts as no ticks ago, so there
is no other one until the clock has caught up with it.
-/

namespace StoryWorld

namespace World

/-! ## What the conditions ask -/

/-- The conditions that hold creation back. -/
def throttle (max : UInt32) (cooldown : UInt64) : List Condition :=
  [.test (.creationsPerEpoch max), .test (.cooldownElapsed cooldown)]

/-- Whether both are met in some context over a world, at the tick of the world. -/
def MayCreate (max : UInt32) (cooldown : UInt64) (w : World) : Prop :=
  ∃ (σ : Type) (_ : DrawSource σ) (ctx : Context) (entity : Option Entity) (s : Scratch σ),
    ctx.world = w ∧ ctx.tick = w.tick
      ∧ ∀ c ∈ throttle max cooldown, (c.evaluate ctx entity s).1.passed = true

variable {max : UInt32} {cooldown : UInt64} {w : World}

theorem throttle_passed {σ : Type} [DrawSource σ] (ctx : Context) (entity : Option Entity)
    (s : Scratch σ) : (∀ c ∈ throttle max cooldown, (c.evaluate ctx entity s).1.passed = true) ↔
      ctx.world.rateLimits.creationsThisEpoch < max
        ∧ ∀ last, ctx.world.rateLimits.lastCreationTick = some last →
          cooldown.toNat ≤ elapsed last ctx.tick := by
  simp only [throttle, List.forall_mem_cons, List.not_mem_nil, false_implies, implies_true,
    and_true, Condition.evaluate, Condition.evaluateAt, Test.run, decide_eq_true_eq]
  cases ctx.world.rateLimits.lastCreationTick <;> simp

/-- The two conditions look at nothing but the world. -/
theorem mayCreate_iff : w.MayCreate max cooldown ↔
    w.rateLimits.creationsThisEpoch < max
      ∧ ∀ last, w.rateLimits.lastCreationTick = some last →
        cooldown.toNat ≤ elapsed last w.tick := by
  constructor
  · rintro ⟨σ, _, ctx, entity, s, rfl, htick, h⟩
    rw [← htick]
    exact (throttle_passed ctx entity s).1 h
  · intro h
    let ctx : Context := { world := w, self? := none, binding? := fun _ => none, tick := w.tick }
    let s : Scratch FixedDraws := { draws := { draws := [] } }
    exact ⟨FixedDraws, inferInstance, ctx, none, s, rfl, rfl, (throttle_passed ctx none s).2 h⟩

/-- Ticks only elapse forwards: an instant they have elapsed since lies that far back. -/
theorem add_le_of_le_elapsed {last now : UInt64} (hpos : 0 < cooldown)
    (h : cooldown.toNat ≤ elapsed last now) : last.toNat + cooldown.toNat ≤ now.toNat := by
  rw [UInt64.lt_iff_toNat_lt, UInt64.toNat_zero] at hpos
  unfold elapsed at h
  omega

/-! ## What a call notes -/

theorem rateLimits_commit (w : World) (c : ChangeSet) :
    (w.commit c).1.rateLimits = w.rateLimits := by
  obtain ⟨_, _, _, h⟩ := Commit.Step.exists_foldl_after_eq c.steps w
  rw [commit_fst, h]

theorem rateLimits_perform (w : World) (op : Operation) :
    (w.perform op).rateLimits = match op with
      | .beginEpoch => w.beginEpoch.rateLimits
      | .recordCreation => w.recordCreation.rateLimits
      | _ => w.rateLimits := by
  cases op with
  | addEntity e =>
    simp only [perform, addEntity]
    by_cases hknown : w.contains e.id = true <;> simp [hknown]
  | addRelationship r =>
    simp only [perform, addRelationship_eq]
    cases w.refusal? r <;> rfl
  | commit changes => exact rateLimits_commit w changes
  | editEntity id edit => simp only [perform, modifyEntity_eq]
  | _ => rfl

/-- The count of an epoch cannot wrap around while it is below a bound. -/
theorem toNat_creationsThisEpoch_recordCreation
    (h : w.rateLimits.creationsThisEpoch < max) :
    w.recordCreation.rateLimits.creationsThisEpoch.toNat =
      w.rateLimits.creationsThisEpoch.toNat + 1 := by
  rw [UInt32.lt_iff_toNat_lt] at h
  have hmax := max.toNat_lt
  simp only [recordCreation, UInt32.toNat_add, UInt32.toNat_one]
  omega

/-! ## Runs -/

/-- The world after calls, one after the other. -/
def performAll (w : World) (ops : List Operation) : World := ops.foldl perform w

/-- Whether a run of calls records a creation only where both conditions are met. -/
def Throttled (max : UInt32) (cooldown : UInt64) : World → List Operation → Prop
  | _, [] => True
  | w, op :: rest =>
    (op = .recordCreation → w.MayCreate max cooldown) ∧ Throttled max cooldown (w.perform op) rest

/-- How many creations calls record. -/
def creations (ops : List Operation) : Nat := ops.countP (· matches .recordCreation)

namespace Throttled

theorem of_append : ∀ {ops rest : List Operation} {w : World},
    Throttled max cooldown w (ops ++ rest) →
      Throttled max cooldown w ops ∧ Throttled max cooldown (w.performAll ops) rest
  | [], _, _, h => ⟨trivial, h⟩
  | _ :: _, _, _, h => ⟨⟨h.1, (of_append h.2).1⟩, (of_append h.2).2⟩

/-- Within an epoch creations add to those it has seen before, never beyond the bound. -/
theorem creations_le : ∀ {ops : List Operation} {w : World},
    Throttled max cooldown w ops → .beginEpoch ∉ ops →
      creations ops = 0
        ∨ w.rateLimits.creationsThisEpoch.toNat + creations ops ≤ max.toNat
  | [], _, _, _ => .inl rfl
  | op :: rest, w, h, hepoch => by
    have ih := creations_le h.2 fun hrest => hepoch (List.mem_cons_of_mem _ hrest)
    rw [rateLimits_perform] at ih
    cases op with
    | recordCreation =>
      obtain ⟨hroom, -⟩ := mayCreate_iff.1 (h.1 rfl)
      have hcount : creations (.recordCreation :: rest) = creations rest + 1 :=
        List.countP_cons_of_pos rfl
      rw [toNat_creationsThisEpoch_recordCreation hroom] at ih
      rw [UInt32.lt_iff_toNat_lt] at hroom
      omega
    | beginEpoch => exact absurd List.mem_cons_self hepoch
    | _ => exact ih

end Throttled

/-- Whether a creation was recorded, the last of them no earlier than a tick. -/
def CreatedSince (tick : UInt64) (w : World) : Prop :=
  ∃ last, w.rateLimits.lastCreationTick = some last ∧ tick ≤ last

namespace CreatedSince

variable {tick : UInt64} (hpos : 0 < cooldown)

include hpos

theorem perform (h : w.CreatedSince tick) {op : Operation}
    (hop : op = .recordCreation → w.MayCreate max cooldown) :
    (w.perform op).CreatedSince tick := by
  unfold CreatedSince
  rw [rateLimits_perform]
  cases op with
  | recordCreation =>
    refine ⟨w.tick, rfl, ?_⟩
    obtain ⟨last, hlast, hle⟩ := h
    have hwaited := add_le_of_le_elapsed hpos ((mayCreate_iff.1 (hop rfl)).2 last hlast)
    rw [UInt64.le_iff_toNat_le] at hle ⊢
    omega
  | _ => exact h

theorem performAll : ∀ {ops : List Operation} {w : World}, w.CreatedSince tick →
    Throttled max cooldown w ops → (w.performAll ops).CreatedSince tick
  | [], _, h, _ => h
  | _ :: _, _, h, run => by
    have hrest := performAll (h.perform hpos run.1) run.2
    exact hrest

end CreatedSince

/-- In a run that records creations only where both conditions are met, no stretch without a new
epoch has more than `max` creations, and each creation comes at least `cooldown` ticks after every
one before it. -/
theorem creations_throttled (w : World) (ops : List Operation) (hpos : 0 < cooldown)
    (run : Throttled max cooldown w ops) :
    (∀ before epoch after, ops = before ++ epoch ++ after → .beginEpoch ∉ epoch →
        creations epoch ≤ max.toNat)
      ∧ ∀ before between after,
        ops = before ++ .recordCreation :: between ++ .recordCreation :: after →
          (w.performAll before).tick.toNat + cooldown.toNat ≤
            (w.performAll (before ++ .recordCreation :: between)).tick.toNat := by
  constructor
  · rintro before epoch after rfl hepoch
    have hthen := run.of_append.1.of_append.2
    rcases hthen.creations_le hepoch with h | h <;> omega
  · rintro before between after rfl
    obtain ⟨hfirst, hsecond⟩ := run.of_append
    have hbetween := hfirst.of_append.2.2
    have hsince : ((w.performAll before).perform .recordCreation).CreatedSince
        (w.performAll before).tick := ⟨_, rfl, UInt64.le_refl _⟩
    obtain ⟨last, hlast, hle⟩ := hsince.performAll hpos hbetween
    have hworld : ((w.performAll before).perform .recordCreation).performAll between =
        w.performAll (before ++ .recordCreation :: between) := by
      simp [performAll]
    rw [hworld] at hlast
    have hwaited := add_le_of_le_elapsed hpos ((mayCreate_iff.1 (hsecond.1 rfl)).2 last hlast)
    rw [UInt64.le_iff_toNat_le] at hle
    omega

end World

namespace Sample

/-- Two creations in two epochs, with the clock set back in between. -/
def season : List World.Operation :=
  [.setTick 10, .recordCreation, .setTick 3, .beginEpoch, .advanceTick 12, .recordCreation]

theorem throttled_season : World.Throttled 1 5 {} season := by
  refine ⟨nofun, fun _ => ?_, nofun, nofun, nofun, fun _ => ?_, trivial⟩
  · exact World.mayCreate_iff.2 ⟨by decide, nofun⟩
  · refine World.mayCreate_iff.2 ⟨by decide, fun last hlast => ?_⟩
    cases hlast
    decide

theorem season_spaced :
    World.Throttled 1 5 {} season ∧ (0 : UInt64) < 5
      ∧ World.creations [.setTick 10, .recordCreation, .setTick 3] ≤ 1
      ∧ (World.performAll {} [.setTick 10]).tick.toNat + 5 ≤
          (World.performAll {} (season.take 5)).tick.toNat := by
  have hpos : (0 : UInt64) < 5 := by decide
  obtain ⟨hepochs, hspaces⟩ := World.creations_throttled {} season hpos throttled_season
  have hepoch := hepochs [] [.setTick 10, .recordCreation, .setTick 3] _ rfl (by simp)
  have hspace := hspaces [.setTick 10] [.setTick 3, .beginEpoch, .advanceTick 12] [] rfl
  exact ⟨throttled_season, hpos, hepoch, hspace⟩

end Sample

end StoryWorld
