import StoryWorld.Proofs.Selection.Shuffle

/-!
# What a pick comes to

A pick is a reduction whatever its source draws, also a draw that is no number or lies outside
`[0, 1)`. It takes members of the candidates, each at most once, and as many as are asked for or
there are. None of its indices is out of range, so it comes to the same as a pick that fails on the
first such index (`PickStrategy.pick?_eq`). How many draws it takes depends on the strategy and on
numbers of candidates alone, so what is drawn does not shift what comes after
(`PickStrategy.reduces_pick`).
-/

namespace StoryWorld

namespace Pick

variable {σ : Type} [DrawSource σ]

/-! ## Picks that fail on an index out of range -/

section Failing

variable {α : Type}

/-- The list with the members at two positions exchanged, if both are there. -/
def swap? (l : List α) (i j : ℕ) : Option (List α) :=
  match l[i]?, l[j]? with
  | some a, some b => some ((l.set i b).set j a)
  | _, _ => none

def shuffleBy? : List ℕ → List α → Option (List α)
  | [], l => some l
  | j :: js, l => (swap? l (js.length + 1) j).bind (shuffleBy? js)

def shuffle? (l : List α) (s : σ) : Option (List α × σ) :=
  let (js, s) := shuffleDraws (l.length - 1) s
  (shuffleBy? js l).map fun shuffled => (shuffled, s)

/-- The place of the next weighted pick. -/
def chosen (pool : List Entity) (s : σ) : ℕ :=
  roulette (pool.map weight) ((DrawSource.next s).1 * total (pool.map weight))

def weighted? : ℕ → List Entity → σ → Option (List Entity × σ)
  | 0, _, s => some ([], s)
  | n + 1, pool, s =>
    if pool.isEmpty then some ([], s)
    else
      pool[chosen pool s]?.bind fun e =>
        (weighted? n (pool.eraseIdx (chosen pool s)) (DrawSource.next s).2).map
          fun (picked, s) => (e :: picked, s)

end Failing

end Pick

namespace PickStrategy

variable {σ : Type} [DrawSource σ]

/-- A pick that fails on an index out of range. -/
def pick? (p : PickStrategy) (max : Option UInt64) (candidates : List Entity) (s : σ) :
    Option (List Entity × σ) :=
  if candidates.isEmpty then some ([], s)
  else
    let wanted := (max.getD 1).toNat
    match p with
    | .all =>
      match max with
      | none => some (candidates, s)
      | some n => some (candidates.take n.toNat, s)
    | .first => some (candidates.take wanted, s)
    | .random =>
      if wanted = 1 then
        let (i, s) := DrawSource.index candidates.length s
        candidates[i]?.map fun e => ([e], s)
      else
        (Pick.shuffle? candidates s).map fun (shuffled, s) => (shuffled.take wanted, s)
    | .weighted => Pick.weighted? wanted candidates s

/-- How many are asked for: what `max` says, and otherwise all for `all` and one else. -/
def limit (p : PickStrategy) (max : Option UInt64) (length : ℕ) : ℕ :=
  match max with
  | some n => n.toNat
  | none => if p = .all then length else 1

/-- How many draws a pick takes. -/
def drawCount (p : PickStrategy) (max : Option UInt64) (length : ℕ) : ℕ :=
  match p with
  | .first | .all => 0
  | .random =>
    if length = 0 then 0
    else if p.limit max length = 1 then 1
    else length - 1
  | .weighted => min (p.limit max length) length

end PickStrategy

namespace Pick

variable {σ : Type} [DrawSource σ]

/-! ## Reductions -/

/-- What it is to reduce candidates to `n` of them, or all should there be fewer, by `k` draws. No
member is taken more often than it is there. -/
structure Reduces (candidates : List Entity) (n k : ℕ) (s : σ) (r : List Entity × σ) : Prop where
  members : r.1.Subperm candidates
  length : r.1.length = min n candidates.length
  draws : r.2 = DrawSource.skip k s

section Shuffles

variable {α : Type} {l : List α}

theorem swap?_eq {i j : ℕ} (hi : i < l.length) (hj : j < l.length) :
    swap? l i j = some (swap l i j) := by
  simp only [swap?, swap, List.getElem?_eq_getElem hi, List.getElem?_eq_getElem hj]

theorem shuffleBy?_eq : ∀ {n : ℕ} {js : List ℕ} {l : List α}, js ∈ indexDraws n →
    n < l.length → shuffleBy? js l = some (shuffleBy js l)
  | 0, js, l, hjs, _ => by
    rw [eq_nil_of_mem_indexDraws hjs, shuffleBy?, shuffleBy]
  | n + 1, js, l, hjs, hl => by
    obtain ⟨j, rest, rfl, hj, hrest⟩ := exists_cons_of_mem_indexDraws hjs
    have hlen : n < (swap l (n + 1) j).length := by
      rw [length_swap]
      omega
    simp only [shuffleBy?, shuffleBy, hrest.1]
    rw [swap?_eq hl (by omega), Option.bind_some, shuffleBy?_eq hrest hlen]

theorem shuffle?_eq (h : l ≠ []) (s : σ) : shuffle? l s = some (shuffle l s) := by
  have hpos := List.length_pos_iff.2 h
  have hlen : l.length - 1 < l.length := by omega
  simp only [shuffle?, shuffle, shuffleBy?_eq (shuffleDraws_mem _ s) hlen, Option.map_some]

theorem draws_shuffleDraws : ∀ (n : ℕ) (s : σ), (shuffleDraws n s).2 = DrawSource.skip n s
  | 0, _ => rfl
  | n + 1, s => draws_shuffleDraws n (DrawSource.next s).2

end Shuffles

section Fronts

variable {candidates : List Entity} (n : ℕ) (s : σ)

theorem reduces_take : Reduces candidates n 0 s (candidates.take n, s) where
  members := (List.take_sublist n candidates).subperm
  length := List.length_take
  draws := rfl

theorem reduces_shuffle : Reduces candidates n (candidates.length - 1) s
    ((shuffle candidates s).1.take n, (shuffle candidates s).2) where
  members := by
    have hperm : (shuffle candidates s).1.Perm candidates := shuffleBy_perm _ candidates
    exact (List.take_sublist n _).subperm.trans hperm.subperm
  length := by
    have hperm : (shuffle candidates s).1.Perm candidates := shuffleBy_perm _ candidates
    rw [List.length_take, hperm.length_eq]
  draws := draws_shuffleDraws _ s

theorem reduces_index (h : candidates ≠ []) : Reduces candidates 1 1 s
    (candidates[(DrawSource.index candidates.length s).1]?.toList,
      (DrawSource.index candidates.length s).2) := by
  have hpos := List.length_pos_iff.2 h
  rw [List.getElem?_eq_getElem (index_lt hpos s)]
  refine ⟨(List.singleton_sublist.2 (List.getElem_mem _)).subperm, ?_, rfl⟩
  rw [Option.toList_some, List.length_singleton]
  omega

end Fronts

/-! ## Weighted picks -/

/-- The wheel stops at one of the weights, wherever it is spun to. -/
theorem roulette_lt {ν : Type} [Sub ν] [OfNat ν 0] [LT ν] [DecidableLT ν] :
    ∀ {ws : List ν} (roll : ν), ws ≠ [] → roulette ws roll < ws.length
  | [], _, h => absurd rfl h
  | [_], _, _ => Nat.zero_lt_one
  | w :: w' :: rest, roll, _ => by
    have ih := roulette_lt (roll - w) (List.cons_ne_nil w' rest)
    simp only [roulette]
    split
    · exact Nat.zero_lt_succ _
    · exact Nat.succ_lt_succ ih

section Weighted

variable {pool : List Entity}

theorem chosen_lt (h : pool ≠ []) (s : σ) : chosen pool s < pool.length := by
  have hne : pool.map weight ≠ [] := fun hnil => h (List.map_eq_nil_iff.1 hnil)
  have hlt := roulette_lt ((DrawSource.next s).1 * total (pool.map weight)) hne
  rwa [List.length_map] at hlt

/-- A weighted pick takes the member at the chosen place and goes on with the others, one draw
later. -/
theorem weighted_succ (n : ℕ) (h : pool ≠ []) (s : σ) :
    ∃ e, pool[chosen pool s]? = some e
      ∧ weighted (n + 1) pool s =
        (e :: (weighted n (pool.eraseIdx (chosen pool s)) (DrawSource.next s).2).1,
          (weighted n (pool.eraseIdx (chosen pool s)) (DrawSource.next s).2).2) := by
  have hget := List.getElem?_eq_getElem (chosen_lt h s)
  refine ⟨_, hget, ?_⟩
  unfold chosen at hget ⊢
  simp only [weighted, hget, List.isEmpty_iff, h, if_false, Option.toList_some,
    List.singleton_append]

theorem weighted_nil (n : ℕ) (s : σ) : weighted n [] s = ([], s) := by
  cases n <;> rfl

theorem weighted?_eq : ∀ (n : ℕ) (pool : List Entity) (s : σ),
    weighted? n pool s = some (weighted n pool s)
  | 0, _, _ => rfl
  | n + 1, pool, s => by
    by_cases h : pool = []
    · subst h
      rfl
    · obtain ⟨e, he, hsucc⟩ := weighted_succ n h s
      simp only [weighted?, List.isEmpty_iff, h, if_false, he, Option.bind_some,
        weighted?_eq n, Option.map_some, hsucc]

theorem reduces_weighted : ∀ (n : ℕ) (pool : List Entity) (s : σ),
    Reduces pool n (min n pool.length) s (weighted n pool s)
  | 0, pool, s => by
    rw [Nat.zero_min]
    exact ⟨List.nil_subperm, (Nat.zero_min _).symm, rfl⟩
  | n + 1, pool, s => by
    by_cases h : pool = []
    · rw [h, weighted_nil]
      exact ⟨List.nil_subperm, rfl, rfl⟩
    · obtain ⟨e, he, hsucc⟩ := weighted_succ n h s
      obtain ⟨hlt, rfl⟩ := List.getElem?_eq_some_iff.1 he
      -- The pick goes on with one candidate less.
      have hlen : pool.length = (pool.eraseIdx (chosen pool s)).length + 1 := by
        rw [List.length_eraseIdx_of_lt hlt]
        omega
      obtain ⟨hmembers, hlength, hdraws⟩ :=
        reduces_weighted n (pool.eraseIdx (chosen pool s)) (DrawSource.next s).2
      rw [hsucc, hlen]
      refine ⟨?_, ?_, ?_⟩
      · have hperm := List.getElem_cons_eraseIdx_perm hlt
        exact ((List.subperm_cons _).2 hmembers).trans hperm.subperm
      · rw [List.length_cons, hlength, hlen, Nat.add_min_add_right]
      · rw [hdraws, Nat.add_min_add_right]
        rfl

end Weighted

end Pick

/-! ## Picks -/

namespace PickStrategy

open Pick

variable {σ : Type} [DrawSource σ] (p : PickStrategy) (max : Option UInt64)
  (candidates : List Entity) (s : σ)

/-- No index of a pick is out of range. -/
theorem pick?_eq : p.pick? max candidates s = some (p.pick max candidates s) := by
  by_cases h : candidates = []
  · subst h
    rfl
  · have hpos := List.length_pos_iff.2 h
    simp only [pick?, pick, List.isEmpty_iff, h, if_false]
    cases p with
    | all => cases max <;> rfl
    | first => rfl
    | random =>
      simp only
      split
      · rw [List.getElem?_eq_getElem (index_lt hpos s)]
        rfl
      · rw [shuffle?_eq h]
        rfl
    | weighted => exact weighted?_eq _ candidates s

theorem limit_eq (h : p ≠ .all) (length : ℕ) : p.limit max length = (max.getD 1).toNat := by
  unfold limit
  cases max with
  | none => rw [if_neg h]; rfl
  | some n => rfl

/-- Nobody is picked only where nobody is there or nobody is asked for. -/
theorem min_limit_eq_zero_iff {p : PickStrategy} {max : Option UInt64} {length : ℕ} :
    min (p.limit max length) length = 0 ↔ length = 0 ∨ max = some 0 := by
  unfold limit
  cases max with
  | none =>
    simp only [reduceCtorEq, or_false]
    split <;> omega
  | some n =>
    simp only [Option.some.injEq, ← UInt64.toNat_inj, UInt64.toNat_ofNat]
    omega

/-- Whatever the strategy and the draws, a pick reduces the candidates to as many as are asked
for, by a number of draws that is known beforehand. -/
theorem reduces_pick : Reduces candidates (p.limit max candidates.length)
    (p.drawCount max candidates.length) s (p.pick max candidates s) := by
  by_cases h : candidates = []
  · subst h
    have hnone : p.drawCount max 0 = 0 := by cases p <;> simp [drawCount]
    rw [List.length_nil, hnone]
    exact ⟨List.nil_subperm, (Nat.min_zero _).symm, rfl⟩
  · have hlen : candidates.length ≠ 0 := fun hzero => h (List.eq_nil_of_length_eq_zero hzero)
    simp only [pick, List.isEmpty_iff, h, if_false]
    cases p with
    | all =>
      cases max with
      | none =>
        have hall : Reduces candidates candidates.length 0 s
            (candidates.take candidates.length, s) := reduces_take _ s
        rwa [List.take_length] at hall
      | some n => exact reduces_take n.toNat s
    | first =>
      rw [limit_eq _ max (by decide)]
      exact reduces_take _ s
    | random =>
      simp only [drawCount, if_neg hlen, limit_eq .random max (by decide)]
      split
      · rename_i hone
        rw [hone]
        exact reduces_index s h
      · exact reduces_shuffle _ s
    | weighted =>
      rw [drawCount, limit_eq _ max (by decide)]
      exact reduces_weighted _ candidates s

/-- Out of distinct candidates a pick takes distinct ones, as many as are asked for or there are,
without an index out of range, and it takes a number of draws that is known beforehand. -/
theorem pick_from_candidates (distinct : candidates.Nodup) :
    (p.pick max candidates s).1.Nodup
      ∧ (∀ e ∈ (p.pick max candidates s).1, e ∈ candidates)
      ∧ (p.pick max candidates s).1.length =
        min (p.limit max candidates.length) candidates.length
      ∧ p.pick? max candidates s = some (p.pick max candidates s)
      ∧ (p.pick max candidates s).2 = DrawSource.skip (p.drawCount max candidates.length) s
      ∧ (p.pick max candidates (Metered.mk s 0)).2.drawn = p.drawCount max candidates.length := by
  obtain ⟨⟨l, hperm, hsublist⟩, hlength, hdraws⟩ := p.reduces_pick max candidates s
  refine ⟨hperm.nodup_iff.1 (distinct.sublist hsublist),
    fun e he => hsublist.subset (hperm.mem_iff.2 he), hlength, p.pick?_eq max candidates s,
    hdraws, ?_⟩
  rw [(p.reduces_pick max candidates (Metered.mk s 0)).draws, Metered.drawn_skip, Nat.zero_add]

end PickStrategy

namespace Sample

/-- Draws that no source should give: none lies in `[0, 1)`, and one is no number. -/
def strayDraws : FixedDraws where
  draws := [0 / 0, -1, 7]

/-- Two are picked all the same, by two draws. -/
theorem two_picked :
    [ann, bob, cat].Nodup
      ∧ (PickStrategy.weighted.pick (some 2) [ann, bob, cat] strayDraws).1.Nodup
      ∧ (PickStrategy.weighted.pick (some 2) [ann, bob, cat] strayDraws).1.length = 2
      ∧ (PickStrategy.weighted.pick (some 2) [ann, bob, cat] strayDraws).2.position = 2 := by
  have distinct : [ann, bob, cat].Nodup := List.Nodup.of_map (·.id) (by decide)
  obtain ⟨hnodup, -, hlength, -, hdraws, -⟩ :=
    PickStrategy.pick_from_candidates .weighted (some 2) [ann, bob, cat] strayDraws distinct
  exact ⟨distinct, hnodup, hlength, congrArg FixedDraws.position hdraws⟩

end Sample

end StoryWorld
