import Mathlib.Algebra.GroupWithZero.Nat
import Mathlib.Data.List.TakeWhile
import StoryWorld.Proofs.World.Built

/-!
# References by id

An id that is written out is read again as the same id, by itself and as a reference in a rule. So
every entity of a world has a reference that means it, whatever the variables are bound to.
-/

namespace StoryWorld

theorem Text.mem_hexDigits {count n : Nat} {c : Char} (h : c ∈ hexDigits count n) :
    ∃ k < 16, c = hexChar k := by
  induction count generalizing n with
  | zero => cases h
  | succ count ih =>
    simp only [hexDigits, List.mem_append, List.mem_singleton] at h
    rcases h with h | h
    · exact ih h
    · exact ⟨n % 16, Nat.mod_lt _ (by decide), h⟩

namespace EntityId

theorem unhyphenate_hyphenate : ∀ (sizes : List Nat) (cs : List Char), cs.length = sizes.sum →
    unhyphenate sizes (hyphenate sizes cs) = some cs
  | [], cs, h => by
    rw [List.eq_nil_of_length_eq_zero h]
    rfl
  | [n], cs, h => by
    have hlen : cs.length = n := by simpa using h
    exact if_pos hlen
  | n :: m :: sizes, cs, h => by
    have hlen : n ≤ cs.length := by
      rw [h, List.sum_cons]
      exact Nat.le_add_right ..
    have hdrop : (cs.take n ++ '-' :: hyphenate (m :: sizes) (cs.drop n)).drop n =
        '-' :: hyphenate (m :: sizes) (cs.drop n) := List.drop_left' (List.length_take_of_le hlen)
    have htake : (cs.take n ++ '-' :: hyphenate (m :: sizes) (cs.drop n)).take n = cs.take n :=
      List.take_left' (List.length_take_of_le hlen)
    have hrest : unhyphenate (m :: sizes) (hyphenate (m :: sizes) (cs.drop n)) =
        some (cs.drop n) :=
      unhyphenate_hyphenate _ _ (by rw [List.length_drop, h, List.sum_cons]; omega)
    simp only [hyphenate, unhyphenate, hdrop, htake, hrest, Option.map_some, List.take_append_drop]

theorem length_hyphenate : ∀ (n : Nat) (sizes : List Nat) (cs : List Char),
    cs.length = (n :: sizes).sum → (hyphenate (n :: sizes) cs).length = cs.length + sizes.length
  | _, [], _, _ => rfl
  | n, m :: sizes, cs, h => by
    rw [List.sum_cons] at h
    have hrest := length_hyphenate m sizes (cs.drop n) (by rw [List.length_drop]; omega)
    simp only [hyphenate, List.length_append, List.length_take, List.length_cons, hrest,
      List.length_drop]
    omega

theorem mem_hyphenate {c : Char} : ∀ {sizes : List Nat} {cs : List Char},
    c ∈ hyphenate sizes cs → c = '-' ∨ c ∈ cs
  | [], _, h => .inr h
  | [_], _, h => .inr h
  | n :: m :: sizes, cs, h => by
    simp only [hyphenate, List.mem_append, List.mem_cons] at h
    rcases h with h | h | h
    · exact .inr (List.mem_of_mem_take h)
    · exact .inl h
    · exact (mem_hyphenate h).imp_right List.mem_of_mem_drop

/-- The characters that reading a reference neither folds nor drops nor takes as a sign of its own.
No written id has another. -/
@[mk_iff]
structure IsBare (c : Char) : Prop where
  lower : c.toLower = c
  notBlank : Text.isBlank c = false
  notSigil : c ≠ '$'
  notBrace : c ≠ '\x7b'
  notUrn : c ≠ 'u'

instance (c : Char) : Decidable (IsBare c) := decidable_of_iff' _ (isBare_iff c)

theorem isBare_of_mem {id : EntityId} {c : Char} (h : c ∈ id.toString.toList) : IsBare c := by
  have hdigits : ∀ k < 16, IsBare (Text.hexChar k) := by decide
  unfold EntityId.toString at h
  rw [String.toList_ofList] at h
  rcases mem_hyphenate h with rfl | h
  · decide
  · obtain ⟨k, hk, rfl⟩ := Text.mem_hexDigits h
    exact hdigits k hk

theorem lower_toString (id : EntityId) : Text.lower id.toString = id.toString := by
  have hmap : id.toString.toList.map Char.toLower = id.toString.toList :=
    (List.map_congr_left fun c hc => (isBare_of_mem hc).lower).trans (List.map_id _)
  unfold Text.lower
  rw [hmap, String.ofList_toList]

theorem trim_toString (id : EntityId) : Text.trim id.toString = id.toString := by
  have hkeep : ∀ cs : List Char, (∀ c ∈ cs, c ∈ id.toString.toList) →
      cs.dropWhile Text.isBlank = cs := by
    intro cs hcs
    refine List.dropWhile_eq_self_iff.2 fun hlen => ?_
    rw [(isBare_of_mem (hcs _ (List.getElem_mem hlen))).notBlank]
    exact Bool.false_ne_true
  unfold Text.trim
  rw [hkeep _ fun _ h => h, hkeep _ fun _ h => List.mem_reverse.1 h, List.reverse_reverse,
    String.ofList_toList]

theorem unwrap_toString (id : EntityId) : unwrap id.toString.toList = id.toString.toList := by
  have hbare : ∀ c ∈ id.toString.toList, IsBare c := fun c => isBare_of_mem
  unfold unwrap
  generalize id.toString.toList = cs at hbare ⊢
  cases cs with
  | nil => rfl
  | cons c cs =>
    have hc := hbare c List.mem_cons_self
    split
    · rename_i heq
      exact absurd (List.cons.inj heq).1 hc.notBrace
    · have hafter : Text.after? "urn:uuid:".toList (c :: cs) = none := by
        refine Option.eq_none_iff_forall_not_mem.2 fun rest hrest => ?_
        have heq := Text.after?_eq_some_iff.1 hrest
        exact absurd (List.cons.inj heq).1 hc.notUrn
      rw [hafter, Option.getD_none]

theorem ofText?_toString (id : EntityId) : ofText? id.toString = some id := by
  have hchars : id.toString.toList = hyphenate groups (Text.hexDigits 32 id.bits.toNat) :=
    String.toList_ofList
  have hlen : id.toString.toList.length = 36 := by
    rw [hchars]
    refine (length_hyphenate _ _ _ ?_).trans ?_ <;> rw [Text.length_hexDigits] <;> rfl
  have hdigits : unhyphenate groups id.toString.toList =
      some (Text.hexDigits 32 id.bits.toNat) := by
    rw [hchars]
    exact unhyphenate_hyphenate _ _ (Text.length_hexDigits ..)
  have hbits : id.bits.toNat % Nat.pow 16 32 = id.bits.toNat := Nat.mod_eq_of_lt id.bits.isLt
  unfold ofText?
  simp only [lower_toString, hlen, unwrap_toString, hdigits]
  simp [Text.ofHex?_hexDigits, hbits]

theorem ofReference?_toString (id : EntityId) : ofReference? id.toString = some id := by
  unfold ofReference?
  rw [trim_toString, ofText?_toString]

end EntityId

/-- An id means the entity that has it. -/
theorem Scope.resolve_toString (s : Scope) (id : EntityId) :
    s.resolve id.toString = s.world.entity? id := by
  -- Only what starts with a `$` is not read as an id.
  have hsigil : ∀ name, id.toString.toList ≠ '$' :: name := by
    intro name h
    have hmem : '$' ∈ id.toString.toList := by
      rw [h]
      exact List.mem_cons_self
    exact (EntityId.isBare_of_mem hmem).notSigil rfl
  have hself : id.toString ≠ selfReference := fun h => hsigil ['s', 'e', 'l', 'f'] (by rw [h]; rfl)
  unfold resolve
  simp only [EntityId.trim_toString, if_neg hself, EntityId.ofReference?_toString,
    Option.bind_some]

/-- Every entity of a world has a reference that means it. -/
theorem Scope.resolve_id (s : Scope) (good : s.world.WellFormed) {e : Entity}
    (he : e ∈ s.world.entities) : s.resolve e.id.toString = some e := by
  rw [resolve_toString]
  exact good.entity?_eq_some_iff.2 ⟨he, rfl⟩

end StoryWorld
