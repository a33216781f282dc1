/-
  Pairs of positions that match.

  `nestedLoop` compares every item on the left with every one on the right and lists the pairs of
  positions that pass, which come in lexicographic order (`pairwise_nestedLoop`). It is what every
  search for matches has to find.

  An index holds the positions of each key in ascending order (`positions_ofKeys`), so that probing
  it with the left keys is the nested loop itself (`probe_ofKeys`). Indexing the left side and
  turning the pairs around finds the same pairs in another order, which sorting settles: the pairs
  are those of the nested loop whichever side is indexed (`pairs_eq_nestedLoop`).
-/
import ColumnQuery.Join.KeyIndex
import ColumnQuery.Proofs.Value.Same
import Mathlib.Data.List.Nodup
import Mathlib.Data.Prod.Lex

namespace ColumnQuery

/-! ## Nested loops -/

section NestedLoop

variable {α β γ δ : Type}

/-- The pairs of positions that pass a test, from every item on the left with every one on the
    right. -/
def nestedLoop (test : α → β → Bool) (left : List α) (right : List β) : List (Nat × Nat) :=
  left.zipIdx.flatMap fun a => (right.zipIdx.filter fun b => test a.1 b.1).map fun b => (a.2, b.2)

theorem mem_nestedLoop {test : α → β → Bool} {left : List α} {right : List β} {p : Nat × Nat} :
    p ∈ nestedLoop test left right ↔
      ∃ a b, left[p.1]? = some a ∧ right[p.2]? = some b ∧ test a b = true := by
  obtain ⟨i, j⟩ := p
  simp only [nestedLoop, List.mem_flatMap, List.mem_map, List.mem_filter, Prod.exists,
    List.mem_zipIdx_iff_getElem?, Prod.mk.injEq]
  constructor
  · rintro ⟨a, _, ha, b, _, ⟨hb, htest⟩, rfl, rfl⟩
    exact ⟨a, b, ha, hb, htest⟩
  · rintro ⟨a, b, ha, hb, htest⟩
    exact ⟨a, i, ha, b, j, ⟨hb, htest⟩, rfl, rfl⟩

theorem pairwise_snd_zipIdx (xs : List α) : xs.zipIdx.Pairwise fun a b => a.2 < b.2 := by
  have hpositions : (xs.zipIdx.map Prod.snd).Pairwise (· < ·) := by
    rw [List.zipIdx_map_snd]
    exact List.pairwise_lt_range'
  exact List.pairwise_map.1 hpositions

/-- The pairs come in lexicographic order, each once. -/
theorem pairwise_nestedLoop (test : α → β → Bool) (left : List α) (right : List β) :
    (nestedLoop test left right).Pairwise (Prod.Lex (· < ·) (· < ·)) := by
  unfold nestedLoop
  rw [List.pairwise_flatMap]
  constructor
  · intro a _
    rw [List.pairwise_map]
    refine ((pairwise_snd_zipIdx right).filter _).imp fun hlt => ?_
    exact Prod.Lex.right _ hlt
  · refine (pairwise_snd_zipIdx left).imp fun hlt p hp q hq => ?_
    obtain ⟨_, _, rfl⟩ := List.mem_map.1 hp
    obtain ⟨_, _, rfl⟩ := List.mem_map.1 hq
    exact Prod.Lex.left _ _ hlt

/-- A test of what two functions make of the items. -/
theorem nestedLoop_map (test : γ → δ → Bool) (f : α → γ) (g : β → δ) (left : List α)
    (right : List β) : nestedLoop test (left.map f) (right.map g)
      = nestedLoop (fun a b => test (f a) (g b)) left right := by
  unfold nestedLoop
  rw [List.zipIdx_map, List.zipIdx_map, List.flatMap_map]
  simp only [List.filter_map, List.map_map]
  rfl

end NestedLoop

namespace KeyIndex

/-! ## What an index holds -/

/-- Both positions have a key, and the keys are the same. -/
def keysMatch : Option (List Value) → Option (List Value) → Bool
  | some k, some l => Value.sameItems k l
  | _, _ => false

theorem keysMatch_comm (k l : Option (List Value)) : keysMatch k l = keysMatch l k := by
  cases k with
  | none => cases l <;> rfl
  | some k =>
    cases l with
    | none => rfl
    | some l => exact Bool.eq_iff_iff.2 ⟨Value.sameItems_symm, Value.sameItems_symm⟩

theorem sameItems_congr_left {k l : List Value} (h : Value.sameItems k l = true)
    (m : List Value) : Value.sameItems k m = Value.sameItems l m :=
  Bool.eq_iff_iff.2 ⟨fun hkm => Value.sameItems_trans (Value.sameItems_symm h) hkm,
    fun hlm => Value.sameItems_trans h hlm⟩

theorem positions_cons (k : List Value) (ps : List Nat) (rest : KeyIndex) (key : List Value) :
    positions ((k, ps) :: rest) key
      = if Value.sameItems k key then ps else positions rest key := by
  unfold positions
  rw [List.find?_cons]
  cases Value.sameItems k key <;> rfl

/-- Only the key that a position is added to gets it, after those that it has. -/
theorem positions_insert (k : List Value) (p : Nat) (key : List Value) (index : KeyIndex) :
    positions (insert k p index) key
      = if Value.sameItems k key then positions index key ++ [p] else positions index key := by
  induction index with
  | nil =>
    rw [insert, positions_cons]
    rfl
  | cons e rest ih =>
    obtain ⟨l, ps⟩ := e
    rw [insert, positions_cons]
    by_cases hlk : Value.sameItems l k = true
    · rw [if_pos hlk, positions_cons, sameItems_congr_left hlk]
      split <;> rfl
    · rw [if_neg hlk, positions_cons, ih]
      by_cases hl : Value.sameItems l key = true
      · have hk : ¬ Value.sameItems k key = true := fun hk =>
          hlk (Value.sameItems_trans hl (Value.sameItems_symm hk))
        rw [if_pos hl, if_pos hl, if_neg hk]
      · rw [if_neg hl, if_neg hl]

/-- Entries that are inserted one by one stand after the positions that are there. -/
theorem positions_foldl (key : List Value) (entries : List (Option (List Value) × Nat))
    (index : KeyIndex) :
    positions (entries.foldl (fun index (key, position) =>
        match key with
        | some key => insert key position index
        | none => index) index) key
      = positions index key
        ++ (entries.filter fun e => keysMatch (some key) e.1).map (·.2) := by
  induction entries generalizing index with
  | nil => exact (List.append_nil _).symm
  | cons e entries ih =>
    obtain ⟨l, p⟩ := e
    rw [List.foldl_cons, ih, List.filter_cons]
    cases l with
    | none => rfl
    | some l =>
      have hmatch : keysMatch (some key) (some l) = Value.sameItems l key :=
        keysMatch_comm (some key) (some l)
      simp only [hmatch, positions_insert]
      split
      · rw [List.map_cons, List.append_assoc, List.singleton_append]
      · rfl

/-- The positions of a key, in ascending order. -/
theorem positions_ofKeys (keys : List (Option (List Value))) (key : List Value) :
    positions (ofKeys keys) key
      = (keys.zipIdx.filter fun e => keysMatch (some key) e.1).map (·.2) :=
  positions_foldl key keys.zipIdx []

/-- Probing an index of the right keys is the nested loop. -/
theorem probe_ofKeys (left right : List (Option (List Value))) :
    probe (ofKeys right) left = nestedLoop keysMatch left right := by
  unfold probe nestedLoop
  congr 1
  funext ⟨k, i⟩
  cases k with
  | none =>
    have hnothing : ∀ l : Option (List Value), keysMatch none l = false := fun _ => rfl
    simp [hnothing]
  | some key =>
    dsimp only
    rw [positions_ofKeys, List.map_map]
    rfl

/-! ## Sorted pairs -/

theorem pairLE_iff {a b : Nat × Nat} :
    pairLE a b = true ↔ a.1 < b.1 ∨ a.1 = b.1 ∧ a.2 ≤ b.2 := by
  simp [pairLE]

theorem pairLE_of_lex {a b : Nat × Nat} (h : Prod.Lex (· < ·) (· < ·) a b) :
    pairLE a b = true := by
  rw [Prod.lex_def] at h
  rw [pairLE_iff]
  omega

theorem pairLE_antisymm {a b : Nat × Nat} (hab : pairLE a b = true) (hba : pairLE b a = true) :
    a = b := by
  rw [pairLE_iff] at hab hba
  exact Prod.ext (by omega) (by omega)

theorem pairwise_sortPairs (ps : List (Nat × Nat)) :
    (sortPairs ps).Pairwise fun a b => pairLE a b = true := by
  refine List.pairwise_mergeSort ?_ ?_ ps
  · intro a b c hab hbc
    rw [pairLE_iff] at hab hbc ⊢
    omega
  · intro a b
    rw [Bool.or_eq_true, pairLE_iff, pairLE_iff]
    omega

/-- Sorting brings pairs into the lexicographic order in which another list has them. -/
theorem sortPairs_eq {ps qs : List (Nat × Nat)} (hperm : ps.Perm qs)
    (hqs : qs.Pairwise (Prod.Lex (· < ·) (· < ·))) : sortPairs ps = qs := by
  have hsorted : (sortPairs ps).Perm qs := (List.mergeSort_perm ps pairLE).trans hperm
  refine hsorted.eq_of_pairwise (fun a b _ _ => pairLE_antisymm) (pairwise_sortPairs ps) ?_
  exact hqs.imp pairLE_of_lex

theorem nodup_of_lex {ps : List (Nat × Nat)} (h : ps.Pairwise (Prod.Lex (· < ·) (· < ·))) :
    ps.Nodup := by
  refine h.imp fun hlex heq => ?_
  rw [Prod.lex_def] at hlex
  rw [heq] at hlex
  omega

/-- The nested loop with its sides exchanged finds the same pairs, turned around. -/
theorem perm_swap_nestedLoop (left right : List (Option (List Value))) :
    ((nestedLoop keysMatch right left).map Prod.swap).Perm (nestedLoop keysMatch left right) := by
  have hnodup := nodup_of_lex (pairwise_nestedLoop keysMatch right left)
  have hnodup' := nodup_of_lex (pairwise_nestedLoop keysMatch left right)
  rw [List.perm_ext_iff_of_nodup (List.Nodup.map Prod.swap_injective hnodup) hnodup']
  rintro ⟨i, j⟩
  have hswap : (i, j) ∈ (nestedLoop keysMatch right left).map Prod.swap
      ↔ (j, i) ∈ nestedLoop keysMatch right left :=
    List.mem_map_of_injective Prod.swap_injective (a := (j, i))
  rw [hswap, mem_nestedLoop, mem_nestedLoop]
  constructor
  · rintro ⟨l, k, hl, hk, hmatch⟩
    exact ⟨k, l, hk, hl, keysMatch_comm l k ▸ hmatch⟩
  · rintro ⟨k, l, hk, hl, hmatch⟩
    exact ⟨l, k, hl, hk, keysMatch_comm k l ▸ hmatch⟩

/-- The pairs of an index on the right. -/
theorem sortPairs_probe (left right : List (Option (List Value))) :
    sortPairs (probe (ofKeys right) left) = nestedLoop keysMatch left right := by
  rw [probe_ofKeys]
  exact sortPairs_eq (List.Perm.refl _) (pairwise_nestedLoop _ _ _)

/-- The pairs of an index on the left. -/
theorem sortPairs_probe_swap (left right : List (Option (List Value))) :
    sortPairs ((probe (ofKeys left) right).map Prod.swap) = nestedLoop keysMatch left right := by
  rw [probe_ofKeys]
  exact sortPairs_eq (perm_swap_nestedLoop left right) (pairwise_nestedLoop _ _ _)

/-- Whichever side is indexed, the pairs are those of the nested loop. -/
theorem pairs_eq_nestedLoop (left right : List (Option (List Value))) :
    pairs left right = nestedLoop keysMatch left right := by
  unfold pairs
  split
  · exact sortPairs_probe left right
  · exact sortPairs_probe_swap left right

end KeyIndex

end ColumnQuery
