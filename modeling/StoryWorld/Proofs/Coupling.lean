import StoryWorld.Selection.Pick

/-!
# Sources that draw alike

A coupling relates sources that give the same next draw and stay related after it. Picking asks a
source for nothing but draws, so coupled sources pick the same and are left coupled (`pick`).

A source is coupled with itself, and so is a source with a meter that counts what was drawn
(`metering`). The meter then also says how far the source has come: after `n` draws it is where
skipping `n` draws leads to.
-/

namespace StoryWorld

/-- A relation of sources that draw alike. -/
structure Coupling (σ τ : Type) [DrawSource σ] [DrawSource τ] where
  rel : σ → τ → Prop
  draw_eq {s t} : rel s t → (DrawSource.next s).1 = (DrawSource.next t).1
  rel_next {s t} : rel s t → rel (DrawSource.next s).2 (DrawSource.next t).2

/-- A source with a meter that counts the draws. -/
structure Metered (σ : Type) where
  source : σ
  drawn : Nat := 0

instance {σ : Type} [DrawSource σ] : DrawSource (Metered σ) where
  next m :=
    let (x, source) := DrawSource.next m.source
    (x, { source, drawn := m.drawn + 1 })

theorem Metered.drawn_skip {σ : Type} [DrawSource σ] :
    ∀ (n : Nat) (m : Metered σ), (DrawSource.skip n m).drawn = m.drawn + n
  | 0, _ => rfl
  | n + 1, m => by
    rw [DrawSource.skip, drawn_skip n]
    exact Nat.add_right_comm m.drawn 1 n

theorem DrawSource.skip_succ {σ : Type} [DrawSource σ] :
    ∀ (n : Nat) (s : σ), skip (n + 1) s = (next (skip n s)).2
  | 0, _ => rfl
  | n + 1, s => skip_succ n (next s).2

theorem DrawSource.skip_add {σ : Type} [DrawSource σ] (n : Nat) :
    ∀ (m : Nat) (s : σ), skip (m + n) s = skip n (skip m s)
  | 0, s => by rw [Nat.zero_add, skip]
  | m + 1, s => by
    rw [Nat.add_right_comm]
    exact skip_add n m (next s).2

namespace Coupling

/-- Every source draws like itself. -/
def refl (σ : Type) [DrawSource σ] : Coupling σ σ where
  rel := Eq
  draw_eq := by
    rintro s _ rfl
    rfl
  rel_next := by
    rintro s _ rfl
    rfl

/-- A meter does not change what is drawn, and it reads how many draws lie behind. -/
def metering {σ : Type} [DrawSource σ] (start : σ) : Coupling (Metered σ) σ where
  rel m s := m.source = s ∧ s = DrawSource.skip m.drawn start
  draw_eq := by
    rintro m _ ⟨rfl, -⟩
    rfl
  rel_next := by
    rintro m _ ⟨rfl, hskip⟩
    refine ⟨rfl, ?_⟩
    simp only [DrawSource.next]
    rw [DrawSource.skip_succ, ← hskip]

variable {σ τ : Type} [DrawSource σ] [DrawSource τ] (C : Coupling σ τ)

theorem index (n : Nat) {s : σ} {t : τ} (h : C.rel s t) :
    (DrawSource.index n s).1 = (DrawSource.index n t).1
      ∧ C.rel (DrawSource.index n s).2 (DrawSource.index n t).2 := by
  refine ⟨?_, C.rel_next h⟩
  simp only [DrawSource.index, C.draw_eq h]

theorem shuffleDraws : ∀ (n : Nat) {s : σ} {t : τ}, C.rel s t →
    (Pick.shuffleDraws n s).1 = (Pick.shuffleDraws n t).1
      ∧ C.rel (Pick.shuffleDraws n s).2 (Pick.shuffleDraws n t).2
  | 0, _, _, h => ⟨rfl, h⟩
  | n + 1, s, t, h => by
    obtain ⟨hindex, hnext⟩ := C.index (n + 2) h
    obtain ⟨hrest, hend⟩ := shuffleDraws n hnext
    refine ⟨?_, hend⟩
    simp only [Pick.shuffleDraws]
    rw [hindex, hrest]

theorem shuffle {α : Type} (l : List α) {s : σ} {t : τ} (h : C.rel s t) :
    (Pick.shuffle l s).1 = (Pick.shuffle l t).1
      ∧ C.rel (Pick.shuffle l s).2 (Pick.shuffle l t).2 := by
  obtain ⟨hdraws, hend⟩ := C.shuffleDraws (l.length - 1) h
  refine ⟨?_, hend⟩
  simp only [Pick.shuffle]
  rw [hdraws]

theorem weighted : ∀ (n : Nat) (pool : List Entity) {s : σ} {t : τ}, C.rel s t →
    (Pick.weighted n pool s).1 = (Pick.weighted n pool t).1
      ∧ C.rel (Pick.weighted n pool s).2 (Pick.weighted n pool t).2
  | 0, _, _, _, h => ⟨rfl, h⟩
  | n + 1, pool, s, t, h => by
    simp only [Pick.weighted]
    split
    · exact ⟨rfl, h⟩
    · rw [C.draw_eq h]
      obtain ⟨hrest, hend⟩ := weighted n _ (C.rel_next h)
      exact ⟨congrArg _ hrest, hend⟩

theorem pick (p : PickStrategy) (max : Option UInt64) (candidates : List Entity) {s : σ} {t : τ}
    (h : C.rel s t) :
    (p.pick max candidates s).1 = (p.pick max candidates t).1
      ∧ C.rel (p.pick max candidates s).2 (p.pick max candidates t).2 := by
  unfold PickStrategy.pick
  split
  · exact ⟨rfl, h⟩
  · cases p with
    | all => cases max <;> exact ⟨rfl, h⟩
    | first => exact ⟨rfl, h⟩
    | random =>
      simp only
      split
      · obtain ⟨hindex, hnext⟩ := C.index candidates.length h
        refine ⟨?_, hnext⟩
        rw [hindex]
      · obtain ⟨hshuffle, hend⟩ := C.shuffle candidates h
        refine ⟨?_, hend⟩
        rw [hshuffle]
    | weighted => exact C.weighted _ candidates h

end Coupling

end StoryWorld
