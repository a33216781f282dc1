/-
  Bit sets refine finite sets.

  A `History` is how a set of a given length comes about: a first set, operations one after the
  other, and second operands that come about in the same way. `run?` performs it on packed words,
  `members` on finite sets. It succeeds exactly if every position that it names lies inside
  (`InRange`), and then the packed set stands for the finite one after every operation
  (`Represents`): words without stray bits, a cached size that is the number of members, and
  membership of every position. As nothing else is kept, two sets of one length are equal exactly
  if they have the same members (`run?_represents`).
-/
import ColumnQuery.Proofs.BitSet
import Mathlib.Algebra.Order.Floor.Div
import Mathlib.Data.Finset.Card
import Mathlib.Data.Finset.Range
import Mathlib.Data.Finset.SDiff

namespace ColumnQuery

namespace BitSet

/-- A first set, and operations one after the other. -/
inductive History where
  | empty
  | full
  | ofIndices (indices : List Nat)
  | insert (h : History) (i : Nat)
  | erase (h : History) (i : Nat)
  | complement (h : History)
  | inter (h other : History)
  | union (h other : History)

namespace History

/-- The set of length `n` that comes about; none if a position lies outside. -/
def run? (n : Nat) : History → Option BitSet
  | empty => some (.empty n)
  | full => some (.full n)
  | ofIndices indices => ofIndices? n indices
  | insert h i => do (← h.run? n).insert? i
  | erase h i => do (← h.run? n).erase? i
  | complement h => do return (← h.run? n).complement
  | inter h other => do (← h.run? n).inter? (← other.run? n)
  | union h other => do (← h.run? n).union? (← other.run? n)

/-- Every position that is named lies below `n`. -/
def InRange (n : Nat) : History → Prop
  | empty | full => True
  | ofIndices indices => ∀ i ∈ indices, i < n
  | insert h i | erase h i => h.InRange n ∧ i < n
  | complement h => h.InRange n
  | inter h other | union h other => h.InRange n ∧ other.InRange n

/-- The same operations on subsets of the first `n` numbers. -/
@[simp] def members (n : Nat) : History → Finset Nat
  | empty => ∅
  | full => Finset.range n
  | ofIndices indices => indices.toFinset
  | insert h i => Insert.insert i (h.members n)
  | erase h i => (h.members n).erase i
  | complement h => Finset.range n \ h.members n
  | inter h other => h.members n ∩ other.members n
  | union h other => h.members n ∪ other.members n

end History

/-- A packed set stands for a set of numbers below `n`. -/
structure Represents (s : BitSet) (n : Nat) (members : Finset Nat) : Prop where
  length : s.length = n
  words : s.words.size = n ⌈/⌉ 64
  /-- No bit is set at a position outside. -/
  clear : ∀ i, n ≤ i → bitAt s.words i = false
  size : s.size = members.card
  get : ∀ i < n, s.get? i = some (decide (i ∈ members))
  within : members ⊆ Finset.range n

/-- The members of a well-formed set, and nothing else, are what it stands for. -/
theorem WellFormed.represents {s : BitSet} (hs : s.WellFormed) {members : Finset Nat}
    (hmem : ∀ i, s.contains i = decide (i ∈ members)) : s.Represents s.length members where
  length := rfl
  words := by
    rw [hs.words_size, Nat.ceilDiv_eq_add_pred_div]
    rfl
  clear i hi := by
    rw [← contains_eq_bitAt, Bool.eq_false_iff]
    intro h
    have := hs.lt_length i h
    omega
  size := by
    have hlist : s.toList.toFinset = members := by
      ext i
      simp [hs.mem_toList, hmem]
    rw [← hlist, List.toFinset_card_of_nodup hs.nodup_toList, hs.length_toList]
  get i hi := get?_eq_some_iff.2 ⟨hi, hmem i⟩
  within i hi := by
    have h : s.contains i = true := by simpa [hmem] using hi
    simpa using hs.lt_length i h

namespace History

variable {n : Nat} {h other : History} {s t : BitSet}

/-- What is kept from one operation to the next. -/
structure Yields (h : History) (n : Nat) (s : BitSet) : Prop where
  wellFormed : s.WellFormed
  length : s.length = n
  contains : ∀ i, s.contains i = decide (i ∈ h.members n)

theorem yields_empty (n : Nat) : empty.Yields n (.empty n) where
  wellFormed := wellFormed_empty n
  length := rfl
  contains i := by simp [contains_empty]

theorem yields_full (n : Nat) : full.Yields n (.full n) where
  wellFormed := wellFormed_full n
  length := rfl
  contains i := by simp [contains_full]

theorem yields_ofIndices {indices : List Nat} (hs : ofIndices? n indices = some s) :
    (ofIndices indices).Yields n s := by
  obtain ⟨hwf, hlength, hmem⟩ := ofIndices?_spec hs
  exact ⟨hwf, hlength, fun i => by simp [hmem]⟩

namespace Yields

theorem insert (hs : h.Yields n s) {i : Nat} (hi : i < n) :
    (h.insert i).Yields n (s.insert i) := by
  have hin : i < s.length := by
    rw [hs.length]
    exact hi
  refine ⟨hs.wellFormed.insert hin, by rw [length_insert, hs.length], fun j => ?_⟩
  rw [contains_insert hs.wellFormed hin, hs.contains]
  simp

theorem erase (hs : h.Yields n s) {i : Nat} (hi : i < n) : (h.erase i).Yields n (s.erase i) := by
  have hin : i < s.length := by
    rw [hs.length]
    exact hi
  refine ⟨hs.wellFormed.erase hin, by rw [length_erase, hs.length], fun j => ?_⟩
  rw [contains_erase hs.wellFormed hin, hs.contains]
  simp

theorem complement (hs : h.Yields n s) : h.complement.Yields n s.complement := by
  refine ⟨hs.wellFormed.complement, hs.length, fun j => ?_⟩
  rw [contains_complement hs.wellFormed, hs.contains, hs.length]
  simp

theorem inter (hs : h.Yields n s) (ht : other.Yields n t) :
    (h.inter other).Yields n (s.inter t) := by
  have hlength : s.length = t.length := hs.length.trans ht.length.symm
  refine ⟨hs.wellFormed.inter ht.wellFormed hlength, hs.length, fun j => ?_⟩
  rw [contains_inter, hs.contains, ht.contains]
  simp

theorem union (hs : h.Yields n s) (ht : other.Yields n t) :
    (h.union other).Yields n (s.union t) := by
  have hlength : s.length = t.length := hs.length.trans ht.length.symm
  refine ⟨hs.wellFormed.union ht.wellFormed hlength, hs.length, fun j => ?_⟩
  rw [contains_union hs.wellFormed ht.wellFormed hlength, hs.contains, ht.contains]
  simp

end Yields

/-- Every operation that goes through yields what it should. -/
theorem yields_of_run? (hs : h.run? n = some s) : h.Yields n s ∧ h.InRange n := by
  induction h generalizing s with
  | empty =>
    cases hs
    exact ⟨yields_empty n, trivial⟩
  | full =>
    cases hs
    exact ⟨yields_full n, trivial⟩
  | ofIndices indices => exact ⟨yields_ofIndices hs, lt_of_foldlM_insert? indices hs⟩
  | insert h i ih =>
    obtain ⟨u, hu, hs⟩ := Option.bind_eq_some_iff.1 hs
    obtain ⟨hyields, hrange⟩ := ih hu
    obtain ⟨hi, rfl⟩ := insert?_eq_some_iff.1 hs
    rw [hyields.length] at hi
    exact ⟨hyields.insert hi, hrange, hi⟩
  | erase h i ih =>
    obtain ⟨u, hu, hs⟩ := Option.bind_eq_some_iff.1 hs
    obtain ⟨hyields, hrange⟩ := ih hu
    obtain ⟨hi, rfl⟩ := erase?_eq_some_iff.1 hs
    rw [hyields.length] at hi
    exact ⟨hyields.erase hi, hrange, hi⟩
  | complement h ih =>
    obtain ⟨u, hu, hs⟩ := Option.bind_eq_some_iff.1 hs
    obtain ⟨hyields, hrange⟩ := ih hu
    cases hs
    exact ⟨hyields.complement, hrange⟩
  | inter h other ih ihother =>
    obtain ⟨u, hu, hs⟩ := Option.bind_eq_some_iff.1 hs
    obtain ⟨w, hw, hs⟩ := Option.bind_eq_some_iff.1 hs
    obtain ⟨-, rfl⟩ := inter?_eq_some_iff.1 hs
    exact ⟨(ih hu).1.inter (ihother hw).1, (ih hu).2, (ihother hw).2⟩
  | union h other ih ihother =>
    obtain ⟨u, hu, hs⟩ := Option.bind_eq_some_iff.1 hs
    obtain ⟨w, hw, hs⟩ := Option.bind_eq_some_iff.1 hs
    obtain ⟨-, rfl⟩ := union?_eq_some_iff.1 hs
    exact ⟨(ih hu).1.union (ihother hw).1, (ih hu).2, (ihother hw).2⟩

/-- With positions inside, every operation goes through: no operand has another length. -/
theorem exists_run? (hrange : h.InRange n) : ∃ s, h.run? n = some s := by
  induction h with
  | empty | full => exact ⟨_, rfl⟩
  | ofIndices indices => exact ofIndices?_isSome n indices hrange
  | insert h i ih =>
    obtain ⟨u, hu⟩ := ih hrange.1
    have hi : i < u.length := by
      rw [(yields_of_run? hu).1.length]
      exact hrange.2
    exact ⟨u.insert i, Option.bind_eq_some_iff.2 ⟨u, hu, insert?_eq_some_iff.2 ⟨hi, rfl⟩⟩⟩
  | erase h i ih =>
    obtain ⟨u, hu⟩ := ih hrange.1
    have hi : i < u.length := by
      rw [(yields_of_run? hu).1.length]
      exact hrange.2
    exact ⟨u.erase i, Option.bind_eq_some_iff.2 ⟨u, hu, erase?_eq_some_iff.2 ⟨hi, rfl⟩⟩⟩
  | complement h ih =>
    obtain ⟨u, hu⟩ := ih hrange
    exact ⟨u.complement, Option.bind_eq_some_iff.2 ⟨u, hu, rfl⟩⟩
  | inter h other ih ihother =>
    obtain ⟨u, hu⟩ := ih hrange.1
    obtain ⟨w, hw⟩ := ihother hrange.2
    have hlength : u.length = w.length := by
      rw [(yields_of_run? hu).1.length, (yields_of_run? hw).1.length]
    exact ⟨u.inter w, Option.bind_eq_some_iff.2 ⟨u, hu, Option.bind_eq_some_iff.2
      ⟨w, hw, inter?_eq_some_iff.2 ⟨hlength, rfl⟩⟩⟩⟩
  | union h other ih ihother =>
    obtain ⟨u, hu⟩ := ih hrange.1
    obtain ⟨w, hw⟩ := ihother hrange.2
    have hlength : u.length = w.length := by
      rw [(yields_of_run? hu).1.length, (yields_of_run? hw).1.length]
    exact ⟨u.union w, Option.bind_eq_some_iff.2 ⟨u, hu, Option.bind_eq_some_iff.2
      ⟨w, hw, union?_eq_some_iff.2 ⟨hlength, rfl⟩⟩⟩⟩

end History

/-- A history goes through exactly if the positions that it names lie inside. The set that comes
    about then stands for the finite set that the same operations make, and it equals another set
    of its length exactly if both have the same members. -/
theorem run?_represents (n : Nat) (h : History) :
    ((∃ s, h.run? n = some s) ↔ h.InRange n) ∧
    ∀ s, h.run? n = some s → s.Represents n (h.members n) ∧
      ∀ (other : History) (t : BitSet), other.run? n = some t →
        (s = t ↔ h.members n = other.members n) := by
  refine ⟨⟨fun ⟨s, hs⟩ => (History.yields_of_run? hs).2, History.exists_run?⟩, fun s hs => ?_⟩
  have hyields := (History.yields_of_run? hs).1
  have hrepresents := hyields.wellFormed.represents hyields.contains
  rw [hyields.length] at hrepresents
  refine ⟨hrepresents, fun other t ht => ?_⟩
  have hother := (History.yields_of_run? ht).1
  constructor
  · rintro rfl
    ext i
    have hsame := (hyields.contains i).symm.trans (hother.contains i)
    exact decide_eq_decide.1 hsame
  · intro hmembers
    refine hyields.wellFormed.ext hother.wellFormed (hyields.length.trans hother.length.symm)
      fun i => ?_
    rw [hyields.contains, hother.contains, hmembers]

/-- All of 70 positions but three, one of which comes back, and the same set in another way: the
    last of its two words has six positions inside. -/
theorem run?_represents_seventy : ∃ s t : BitSet,
    (History.insert (.complement (.ofIndices [0, 64, 69])) 64).run? 70 = some s ∧
    (History.inter (.erase .full 69) (.union (.complement (.ofIndices [0])) .empty)).run? 70
      = some t ∧
    s.words.size = 2 ∧ s.size = 68 ∧ s.get? 64 = some true ∧ s.get? 69 = some false ∧
    bitAt s.words 70 = false ∧ s = t := by
  obtain ⟨hgoes, hrepresents⟩ :=
    run?_represents 70 (.insert (.complement (.ofIndices [0, 64, 69])) 64)
  obtain ⟨s, hs⟩ := hgoes.2 ⟨by simp [History.InRange], by decide⟩
  obtain ⟨hset, hequal⟩ := hrepresents s hs
  obtain ⟨t, ht⟩ := History.exists_run? (n := 70)
    (h := .inter (.erase .full 69) (.union (.complement (.ofIndices [0])) .empty))
    ⟨⟨trivial, by decide⟩, by simp [History.InRange], trivial⟩
  refine ⟨s, t, hs, ht, hset.words.trans (by decide), hset.size.trans (by decide +kernel),
    (hset.get 64 (by decide)).trans (by decide +kernel),
    (hset.get 69 (by decide)).trans (by decide +kernel), hset.clear 70 (by decide),
    (hequal _ t ht).2 (by decide +kernel)⟩

end BitSet

end ColumnQuery
