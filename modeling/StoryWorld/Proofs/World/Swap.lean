import Mathlib.Data.Nat.Notation
import StoryWorld.Proofs.World.Steps

/-!
# Steps that change places

A commit runs phase after phase. A step can be taken before one of a later phase, with the same
world and the same notes in the end, unless the later one archives or moves a relationship that the
earlier one adds, or the one moves and the other archives the same relationship (`swaps`). Each
kind of step reads and writes few fields of a world; the lemmas that lead there say what it does
when the other fields are different.
-/

namespace StoryWorld.Commit.Step

/-! ## What a step is about -/

/-- The place of a step in the order of a commit. -/
def phase : Step → ℕ
  | edit _ => 0
  | link _ => 1
  | archive _ => 2
  | strength _ => 3
  | pressure _ => 4

/-- The key of the relationships that a step rewrites. -/
def key? : Step → Option RelationshipKey
  | archive key => some key
  | strength change => some change.key
  | _ => none

def covers (s : Step) (r : Relationship) : Bool := s.key?.any (·.covers r)

/-- What a step makes of a relationship that is there. -/
def rewrite : Step → Relationship → Relationship
  | archive key, r => if hits key r then { r with status := .historical } else r
  | strength change, r =>
    if hits change.key r then
      { r with strength := some (clampUnit (r.effectiveStrength + change.delta)) }
    else r
  | _, r => r

section Rewrite

variable (s t : Step) (r : Relationship)

theorem rewrite_of_not_covers (h : s.covers r = false) : s.rewrite r = r := by
  cases s with
  | archive key =>
    have hk : key.covers r = false := h
    simp [rewrite, hits, hk]
  | strength change =>
    have hk : change.key.covers r = false := h
    simp [rewrite, hits, hk]
  | edit e => rfl
  | link r' => rfl
  | pressure change => rfl

/-- A step leaves the kind and the ends of a relationship alone, and keys ask for nothing else. -/
theorem key_covers_rewrite (k : RelationshipKey) : k.covers (s.rewrite r) = k.covers r := by
  cases s with
  | archive key =>
    simp only [rewrite]
    split <;> rfl
  | strength change =>
    simp only [rewrite]
    split <;> rfl
  | edit e => rfl
  | link r' => rfl
  | pressure change => rfl

theorem covers_rewrite : t.covers (s.rewrite r) = t.covers r := by
  unfold covers
  simp only [key_covers_rewrite]

variable {s t r}

theorem rewrite_comm (h : ¬ (s.covers r = true ∧ t.covers r = true)) :
    t.rewrite (s.rewrite r) = s.rewrite (t.rewrite r) := by
  by_cases hs : s.covers r = true
  · have ht : t.covers r = false := by
      rw [Bool.eq_false_iff]
      exact fun ht => h ⟨hs, ht⟩
    rw [rewrite_of_not_covers t r ht, rewrite_of_not_covers t _ (by rw [covers_rewrite, ht])]
  · have hs : s.covers r = false := by rwa [Bool.eq_false_iff]
    rw [rewrite_of_not_covers s r hs, rewrite_of_not_covers s _ (by rw [covers_rewrite, hs])]

theorem hits_rewrite {k : RelationshipKey} (h : ¬ (s.covers r = true ∧ k.covers r = true)) :
    hits k (s.rewrite r) = hits k r := by
  by_cases hs : s.covers r = true
  · have hk : k.covers r = false := by
      rw [Bool.eq_false_iff]
      exact fun hk => h ⟨hs, hk⟩
    unfold hits
    rw [key_covers_rewrite, hk, Bool.and_false, Bool.and_false]
  · have hs : s.covers r = false := by rwa [Bool.eq_false_iff]
    rw [rewrite_of_not_covers s r hs]

end Rewrite

/-! ## Fields a step takes no notice of -/

section Frames

variable (w : World)

theorem run_with_pressures (p : Table String Float) {t : Step} (ht : t.phase < 4) :
    run ({ w with pressures := p }, {}) t
      = ({ after w t with pressures := p }, noted w t) := by
  cases t with
  | edit e =>
    have he : ∀ id, ({ w with pressures := p } : World).entity? id = w.entity? id := fun _ => rfl
    simp only [after, noted, run_edit, he]
    cases w.entity? e.entity with
    | none => rfl
    | some x =>
      simp only []
      cases refusedTag? w.tagCap x e with
      | none => rfl
      | some tag => rfl
  | link r =>
    have hr : World.refusal? { w with pressures := p } r = w.refusal? r := rfl
    simp only [after, noted, run_link, hr]
    cases w.refusal? r <;> rfl
  | archive key => rfl
  | strength change => rfl
  | pressure change => exact absurd ht (Nat.lt_irrefl 4)

theorem after_pressures {t : Step} (ht : t.phase < 4) : (after w t).pressures = w.pressures :=
  congrArg (·.1.pressures) (run_with_pressures w w.pressures ht)

theorem run_edit_with_relationships (l : List Relationship) (e : EntityEdit) :
    run ({ w with relationships := l }, {}) (edit e)
      = ({ after w (edit e) with relationships := l }, noted w (edit e)) := by
  have he : ∀ id, ({ w with relationships := l } : World).entity? id = w.entity? id := fun _ => rfl
  simp only [after, noted, run_edit, he]
  cases w.entity? e.entity with
  | none => rfl
  | some x =>
    simp only []
    cases refusedTag? w.tagCap x e with
    | none => rfl
    | some tag => rfl

theorem after_edit_relationships (e : EntityEdit) :
    (after w (edit e)).relationships = w.relationships :=
  congrArg (·.1.relationships) (run_edit_with_relationships w w.relationships e)

end Frames

/-! ## Entities under an edit and an event -/

section Entities

variable {w : World}

theorem rewritten_comm {f g : Entity → Entity} (hfg : ∀ x, g (f x) = f (g x)) (id jd : EntityId) :
    World.rewritten { w with entities := w.rewritten id f } jd g
      = World.rewritten { w with entities := w.rewritten jd g } id f := by
  simp only [World.rewritten]
  cases w.index.find? id with
  | none => rfl
  | some i =>
    cases w.index.find? jd with
    | none => rfl
    | some j =>
      simp only []
      by_cases hij : i = j
      · subst hij
        rw [List.modify_modify_eq, List.modify_modify_eq]
        congr 1
        funext x
        exact hfg x
      · rw [List.modify_modify_ne _ _ _ hij]

/-- Rewriting one entity shows every entity as it is or rewritten. -/
theorem entity?_rewritten (id jd : EntityId) (f : Entity → Entity) :
    ∃ g, (g = (fun x => x) ∨ g = f)
      ∧ World.entity? { w with entities := w.rewritten id f } jd = (w.entity? jd).map g := by
  simp only [World.entity?, World.rewritten]
  cases w.index.find? id with
  | none => exact ⟨fun x => x, .inl rfl, Option.map_id'.symm⟩
  | some i =>
    cases w.index.find? jd with
    | none => exact ⟨f, .inr rfl, rfl⟩
    | some j =>
      by_cases hij : i = j
      · exact ⟨f, .inr rfl, by simp [List.getElem?_modify, hij]⟩
      · exact ⟨fun x => x, .inl rfl, by simp [List.getElem?_modify, hij]⟩

theorem refusedTag?_of_tags {cap : UInt64} {x y : Entity} (h : y.tags = x.tags) (e : EntityEdit) :
    refusedTag? cap y e = refusedTag? cap x e := by
  cases e with
  | setTag entity tag value =>
    have ht : tagRefused cap y tag = tagRefused cap x tag := by
      unfold tagRefused Entity.hasTag
      rw [h]
    simp only [refusedTag?, ht]
  | removeTag entity tag => rfl
  | setStatus entity status => rfl
  | shiftProminence entity steps => rfl

/-- An edit goes by the id and the tags of an entity and leaves the rest of it to others. -/
theorem run_edit_rewritten {f : Entity → Entity} (hid : ∀ x, (f x).id = x.id)
    (htags : ∀ x, (f x).tags = x.tags) (e : EntityEdit)
    (hcomm : ∀ x, touched w.tick e (f x) = f (touched w.tick e x)) (id : EntityId) :
    run ({ w with entities := w.rewritten id f }, {}) (edit e)
      = ({ after w (edit e) with entities := (after w (edit e)).rewritten id f },
          noted w (edit e)) := by
  obtain ⟨g, hg, hsees⟩ := entity?_rewritten (w := w) id e.entity f
  have hg : ∀ x, (g x).id = x.id ∧ (g x).tags = x.tags := by
    intro x
    rcases hg with rfl | rfl
    · exact ⟨rfl, rfl⟩
    · exact ⟨hid x, htags x⟩
  simp only [after, noted, run_edit]
  rw [hsees]
  cases w.entity? e.entity with
  | none => rfl
  | some x =>
    simp only [Option.map_some]
    rw [refusedTag?_of_tags (hg x).2, (hg x).1]
    cases refusedTag? w.tagCap x e with
    | some tag => rfl
    | none =>
      simp only []
      rw [rewritten_comm hcomm]

end Entities

/-! ## Changing places -/

/-- Whether two steps can change places: the world comes out the same, and each of them notes what
it notes when it is the first. -/
structure Swaps (w : World) (s t : Step) : Prop where
  world : after (after w s) t = after (after w t) s
  left : noted (after w t) s = noted w s
  right : noted (after w s) t = noted w t

section Swaps

variable {w : World} {s t : Step} {k j : RelationshipKey}

theorem after_of_key (h : s.key? = some k) :
    after w s = { w with relationships := w.relationships.map s.rewrite } := by
  cases s with
  | archive key => rfl
  | strength change => rfl
  | edit e => cases h
  | link r => cases h
  | pressure change => cases h

/-- What a step notes about relationships is how many of them it hits. -/
theorem noted_of_key (h : s.key? = some k) {w' : World}
    (hcount : w'.relationships.countP (hits k) = w.relationships.countP (hits k)) :
    noted w' s = noted w s := by
  cases s with
  | archive key =>
    cases h
    simp only [noted, run, Commit.archive]
    rw [hcount]
  | strength change =>
    cases h
    simp only [noted, run, adjustStrength]
    rw [hcount]
  | edit e => cases h
  | link r => cases h
  | pressure change => cases h

theorem covers_of_key (h : s.key? = some k) (r : Relationship) : s.covers r = k.covers r := by
  unfold covers
  rw [h]
  rfl

theorem swaps_pressure (change : PressureChange) (ht : t.phase < 4) :
    Swaps w (pressure change) t := by
  have hrun := run_with_pressures w (after w (pressure change)).pressures ht
  have hworld := congrArg Prod.fst hrun
  have hnoted := congrArg Prod.snd hrun
  refine ⟨hworld.trans ?_, rfl, hnoted⟩
  simp only [after_pressure, World.adjustPressure, World.setPressure, World.pressure]
  rw [after_pressures w ht]

theorem swaps_key_edit (h : s.key? = some k) (e : EntityEdit) : Swaps w s (edit e) := by
  have hrun := run_edit_with_relationships w (w.relationships.map s.rewrite) e
  rw [← after_of_key h] at hrun
  have hworld := congrArg Prod.fst hrun
  have hnoted := congrArg Prod.snd hrun
  refine ⟨hworld.trans ?_, noted_of_key h ?_, hnoted⟩
  · rw [after_of_key h, after_edit_relationships]
  · rw [after_edit_relationships]

theorem swaps_key_link (h : s.key? = some k) {r : Relationship} (hr : s.covers r = false) :
    Swaps w s (link r) := by
  have hstamp : s.covers (stamped w.tick r) = false := hr
  have hrefusal : (after w s).refusal? r = w.refusal? r := by
    rw [after_of_key h]
    rfl
  cases href : w.refusal? r with
  | some why =>
    rw [href] at hrefusal
    refine ⟨?_, ?_, ?_⟩
    · rw [after_link_refused hrefusal, after_link_refused href]
    · rw [after_link_refused href]
    · rw [noted_link_refused hrefusal, noted_link_refused href]
  | none =>
    rw [href] at hrefusal
    refine ⟨?_, noted_of_key h ?_, ?_⟩
    · rw [after_link_taken hrefusal, after_link_taken href, after_of_key h, after_of_key h]
      simp only [List.map_append, List.map_cons, List.map_nil]
      rw [rewrite_of_not_covers s _ hstamp]
      rfl
    · rw [covers_of_key h] at hstamp
      rw [after_link_taken href]
      simp [hits, hstamp]
    · rw [noted_link_taken hrefusal, noted_link_taken href]

theorem countP_rewrite {l : List Relationship}
    (h : ∀ r ∈ l, ¬ (s.covers r = true ∧ k.covers r = true)) :
    (l.map s.rewrite).countP (hits k) = l.countP (hits k) := by
  rw [List.countP_map]
  refine List.countP_congr fun r hr => ?_
  rw [Function.comp_apply, hits_rewrite (h r hr)]

theorem swaps_keys (hs : s.key? = some k) (ht : t.key? = some j)
    (h : ∀ r ∈ w.relationships, ¬ (s.covers r = true ∧ t.covers r = true)) : Swaps w s t := by
  refine ⟨?_, noted_of_key hs ?_, noted_of_key ht ?_⟩
  · rw [after_of_key hs, after_of_key ht, after_of_key ht, after_of_key hs]
    simp only [List.map_map]
    congr 1
    exact List.map_congr_left fun r hr => rewrite_comm (h r hr)
  · rw [after_of_key ht]
    refine countP_rewrite fun r hr hc => h r hr ⟨?_, hc.1⟩
    rw [covers_of_key hs]
    exact hc.2
  · rw [after_of_key hs]
    refine countP_rewrite fun r hr hc => h r hr ⟨hc.1, ?_⟩
    rw [covers_of_key ht]
    exact hc.2

theorem exists_after_edit (w : World) (e : EntityEdit) :
    ∃ l, after w (edit e) = { w with entities := l } := by
  rcases after_edit w e with h | h
  · exact ⟨w.entities, h⟩
  · exact ⟨_, h⟩

theorem run_edit_credited (e : EntityEdit) (r : Relationship) :
    run ({ w with entities := credited w r }, {}) (edit e)
      = ({ after w (edit e) with entities := credited (after w (edit e)) r },
          noted w (edit e)) := by
  obtain ⟨l, hl⟩ := exists_after_edit w e
  have hevent : withEvent (after w (edit e)).tick r = withEvent w.tick r := by rw [hl]
  unfold credited
  cases r.catalyzedBy with
  | none => rfl
  | some catalyst =>
    simp only [hevent]
    refine run_edit_rewritten (f := withEvent w.tick r) (fun _ => rfl) (fun _ => rfl) e
      (fun x => ?_) catalyst
    cases e <;> rfl

theorem swaps_link_edit (r : Relationship) (e : EntityEdit) : Swaps w (link r) (edit e) := by
  obtain ⟨l, hl⟩ := exists_after_edit w e
  have hrefusal : (after w (edit e)).refusal? r = w.refusal? r := by
    rw [hl]
    rfl
  cases href : w.refusal? r with
  | some why =>
    rw [href] at hrefusal
    refine ⟨?_, ?_, ?_⟩
    · rw [after_link_refused href, after_link_refused hrefusal]
    · rw [noted_link_refused href, noted_link_refused hrefusal]
    · rw [after_link_refused href]
  | none =>
    rw [href] at hrefusal
    have hrun := run_edit_with_relationships { w with entities := credited w r }
      (w.relationships ++ [stamped w.tick r]) e
    have hcredited := run_edit_credited (w := w) e r
    have hworld := congrArg Prod.fst hrun
    have hnoted := congrArg Prod.snd hrun
    have hworld' : after { w with entities := credited w r } (edit e) = _ :=
      congrArg Prod.fst hcredited
    have hnoted' : noted { w with entities := credited w r } (edit e) = _ :=
      congrArg Prod.snd hcredited
    refine ⟨?_, ?_, ?_⟩
    · rw [after_link_taken href, after_link_taken hrefusal]
      refine hworld.trans ?_
      rw [hworld', hl]
    · rw [noted_link_taken href, noted_link_taken hrefusal]
    · rw [after_link_taken href]
      exact hnoted.trans hnoted'

/-- A step changes places with one of an earlier phase, unless it rewrites the relationship that
the earlier one adds or both rewrite the same one. -/
theorem swaps (hphase : t.phase < s.phase) (hlink : ∀ r, t = link r → s.covers r = false)
    (h : ∀ r ∈ w.relationships, ¬ (s.covers r = true ∧ t.covers r = true)) : Swaps w s t := by
  cases s with
  | edit e => exact absurd hphase (Nat.not_lt_zero _)
  | link r =>
    cases t with
    | edit e => exact swaps_link_edit r e
    | _ => simp [phase] at hphase
  | archive key =>
    cases t with
    | edit e => exact swaps_key_edit rfl e
    | link r => exact swaps_key_link rfl (hlink r rfl)
    | _ => simp [phase] at hphase
  | strength change =>
    cases t with
    | edit e => exact swaps_key_edit rfl e
    | link r => exact swaps_key_link rfl (hlink r rfl)
    | archive key => exact swaps_keys rfl rfl h
    | _ => simp [phase] at hphase
  | pressure change => exact swaps_pressure change hphase

end Swaps

end StoryWorld.Commit.Step
