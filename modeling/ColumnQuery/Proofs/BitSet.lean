/-
  Bit sets as the sets of positions that they stand for.

  `contains` is the meaning of a set. A set is well formed if it has as many words as its length
  needs, no member outside its length and its number of members in `size`. Every operation
  keeps this, and each has one lemma that says which positions it leaves in the set
  (`contains_insert`, `contains_erase`, `contains_complement`, `contains_inter`, `contains_union`,
  `ofIndices?_spec`). Listing the words of a well-formed set lists its members in ascending order
  (`toList_eq`), and its members determine the set (`WellFormed.ext`).
-/
import ColumnQuery.BitSet
import Mathlib.Algebra.Ring.Nat

namespace ColumnQuery

namespace BitSet

/-! ## Words -/

theorem getLsbD_single (k i : Nat) (hi : i < 64) :
    (Word.single k).getLsbD i = decide (i = k) := by
  unfold Word.single
  rw [BitVec.getLsbD_shiftLeft]
  by_cases h : i = k
  · subst h
    simp [hi]
  · by_cases hlt : i < k
    · simp [hlt, h]
    · have hne : i - k ≠ 0 := by omega
      simp [BitVec.getLsbD_one, h, hne]

theorem getLsbD_below (k i : Nat) (hi : i < 64) :
    (Word.below k).getLsbD i = decide (i < k) := by
  unfold Word.below
  by_cases h : i < k
  · simp [hi, h]
  · have hlt : i - k < 64 := by omega
    have hbit : (BitVec.allOnes 64).getLsbD (i - k) = true := by
      rw [BitVec.getLsbD_allOnes]
      exact decide_eq_true hlt
    rw [BitVec.getLsbD_not, BitVec.getLsbD_shiftLeft, hbit]
    simp [hi, h]

/-- The bit of a position in packed words; clear past the last word. -/
def bitAt (words : Array Word) (i : Nat) : Bool := (words[i / 64]?.getD 0#64).getLsbD (i % 64)

theorem contains_eq_bitAt (s : BitSet) (i : Nat) : s.contains i = bitAt s.words i := rfl

theorem bitAt_of_size_le (words : Array Word) (i : Nat) (h : words.size ≤ i / 64) :
    bitAt words i = false := by
  unfold bitAt
  rw [Array.getElem?_eq_none h]
  simp

/-- Changing one word changes the bits of that word. -/
theorem bitAt_modify (words : Array Word) (k : Nat) (f : Word → Word) (i : Nat)
    (hk : k < words.size) :
    bitAt (words.modify k f) i =
      if i / 64 = k then (f words[k]).getLsbD (i % 64) else bitAt words i := by
  unfold bitAt
  rw [Array.getElem?_modify]
  by_cases h : i / 64 = k
  · subst h
    simp [hk]
  · have hne : ¬ k = i / 64 := fun hki => h hki.symm
    simp [h, hne]

/-- Where one bit of a word is set or cleared, one position is, and no other. -/
theorem bitAt_modify_bit {words : Array Word} {i : Nat} (hi : i / 64 < words.size)
    {f : Word → Word} {b : Bool}
    (hf : ∀ (w : Word) (k : Nat), k < 64 →
      (f w).getLsbD k = if k = i % 64 then b else w.getLsbD k) (j : Nat) :
    bitAt (words.modify (i / 64) f) j = if j = i then b else bitAt words j := by
  rw [bitAt_modify _ _ _ _ hi]
  split
  next hk =>
    have hword : words[i / 64] = words[j / 64]?.getD 0#64 := by simp [hk, hi]
    have hiff : (j % 64 = i % 64) ↔ j = i := by omega
    rw [hf _ _ (Nat.mod_lt _ (by omega)), hword, if_congr hiff rfl rfl]
    rfl
  next hk =>
    have hne : j ≠ i := fun h => hk (by rw [h])
    rw [if_neg hne]

theorem bitAt_map_not (words : Array Word) (i : Nat) (hi : i / 64 < words.size) :
    bitAt (words.map (~~~·)) i = !bitAt words i := by
  unfold bitAt
  have hmod : i % 64 < 64 := Nat.mod_lt _ (by omega)
  simp [hi, hmod]

theorem bitAt_zipWith_and (a b : Array Word) (i : Nat) :
    bitAt (Array.zipWith (· &&& ·) a b) i = (bitAt a i && bitAt b i) := by
  unfold bitAt
  rw [Array.getElem?_zipWith]
  cases a[i / 64]? with
  | none => simp
  | some x =>
    cases b[i / 64]? with
    | none => simp
    | some y => simp

/-- Words beyond the shorter operand are lost, so that here the operands are of one size. -/
theorem bitAt_zipWith_or (a b : Array Word) (hsize : a.size = b.size) (i : Nat) :
    bitAt (Array.zipWith (· ||| ·) a b) i = (bitAt a i || bitAt b i) := by
  unfold bitAt
  rw [Array.getElem?_zipWith]
  by_cases h : i / 64 < a.size
  · simp [h, show i / 64 < b.size by omega]
  · simp [h, show ¬ i / 64 < b.size by omega]

theorem wordCount_mul_ge (n : Nat) : n ≤ 64 * wordCount n := by
  unfold wordCount
  omega

/-- Trimming clears the positions that lie outside. -/
theorem bitAt_trim (n : Nat) (words : Array Word) (i : Nat) (hsize : words.size = wordCount n) :
    bitAt (trim n words) i = (decide (i < n) && bitAt words i) := by
  unfold trim
  by_cases hout : words.size ≤ i / 64
  · have hi : ¬ i < n := by
      have := wordCount_mul_ge n
      omega
    split
    · rw [bitAt_of_size_le words i hout]
      simp
    · rw [bitAt_of_size_le _ i (by simpa using hout), bitAt_of_size_le words i hout]
      simp
  · have hin : i / 64 < (n + 63) / 64 := by
      rw [hsize] at hout
      unfold wordCount at hout
      omega
    split
    next hzero =>
      have hi : i < n := by omega
      simp [hi]
    next hpos =>
      have hsize' : words.size = (n + 63) / 64 := hsize
      have hlast : words.size - 1 < words.size := by omega
      rw [bitAt_modify _ _ _ _ hlast]
      split
      next hk =>
        have hmod : i % 64 < 64 := Nat.mod_lt _ (by omega)
        rw [BitVec.getLsbD_and, getLsbD_below _ _ hmod]
        have hword : words[words.size - 1] = words[i / 64]?.getD 0#64 := by
          simp [← hk, show i / 64 < words.size by omega]
        have hlt : (i % 64 < n % 64) ↔ i < n := by omega
        rw [hword, Bool.and_comm, decide_eq_decide.2 hlt]
        rfl
      next hk =>
        have hi : i < n := by omega
        simp [hi]

theorem size_trim (n : Nat) (words : Array Word) : (trim n words).size = words.size := by
  unfold trim
  split <;> simp

/-! ## Members listed and counted -/

theorem membersIn_eq (ws : List Word) (start : Nat) :
    membersIn ws start =
      ((List.range (64 * ws.length)).filter fun i => bitAt ws.toArray i).map (start + ·) := by
  induction ws generalizing start with
  | nil => simp [membersIn]
  | cons w rest ih =>
    have hlen : 64 * (w :: rest).length = 64 + 64 * rest.length := by
      rw [List.length_cons]
      omega
    have hhead : ((List.range 64).filter fun i => bitAt (w :: rest).toArray i) = w.positions := by
      unfold Word.positions
      refine List.filter_congr fun i hi => ?_
      have hi' := List.mem_range.1 hi
      have hdiv : i / 64 = 0 := by omega
      have hmod : i % 64 = i := by omega
      simp [bitAt, hdiv, hmod]
    have htail : ∀ i, bitAt (w :: rest).toArray (64 + i) = bitAt rest.toArray i := by
      intro i
      have hdiv : (64 + i) / 64 = i / 64 + 1 := by omega
      have hmod : (64 + i) % 64 = i % 64 := by omega
      simp [bitAt, hdiv, hmod]
    rw [membersIn, ih, hlen, List.range_add, List.filter_append, List.map_append, hhead,
      List.filter_map, List.map_map]
    congr 1
    have hfun : (fun i => bitAt (w :: rest).toArray i) ∘ (fun x => 64 + x)
        = fun i => bitAt rest.toArray i := by
      funext i
      exact htail i
    rw [hfun]
    refine List.map_congr_left fun i _ => ?_
    simp only [Function.comp_apply]
    omega

theorem length_membersIn (ws : List Word) (start : Nat) :
    (membersIn ws start).length = (ws.map Word.card).sum := by
  induction ws generalizing start with
  | nil => rfl
  | cons w rest ih =>
    simp [membersIn, ih, Word.positions, Word.card, List.countP_eq_length_filter]

theorem foldl_card (ws : List Word) (n : Nat) :
    ws.foldl (fun n w => n + w.card) n = n + (ws.map Word.card).sum := by
  induction ws generalizing n with
  | nil => rfl
  | cons w rest ih =>
    simp only [List.foldl_cons, List.map_cons, List.sum_cons]
    rw [ih]
    omega

/-! ## Well-formed sets -/

/-- As many words as the length needs, no member outside, and the number of members. -/
structure WellFormed (s : BitSet) : Prop where
  words_size : s.words.size = wordCount s.length
  lt_length : ∀ i, s.contains i = true → i < s.length
  size_eq : s.size = (List.range s.length).countP s.contains

/-- Every position inside lies in one of the words. -/
theorem WellFormed.word_lt {s : BitSet} (hs : s.WellFormed) {i : Nat} (hi : i < s.length) :
    i / 64 < s.words.size := by
  have := wordCount_mul_ge s.length
  rw [hs.words_size]
  omega

/-- The words of a set without outside members list what the set contains. -/
theorem membersIn_words (s : BitSet) (hw : s.words.size = wordCount s.length)
    (hlt : ∀ i, s.contains i = true → i < s.length) :
    membersIn s.words.toList 0 = (List.range s.length).filter s.contains := by
  have hrange : (List.range (64 * s.words.size)).filter s.contains
      = (List.range s.length).filter s.contains := by
    obtain ⟨d, hd⟩ := Nat.exists_eq_add_of_le (wordCount_mul_ge s.length)
    rw [hw, hd, List.range_add, List.filter_append]
    have hnone : ((List.range d).map (s.length + ·)).filter s.contains = [] := by
      rw [List.filter_eq_nil_iff]
      intro i hi hc
      obtain ⟨j, -, rfl⟩ := List.mem_map.1 hi
      have := hlt _ hc
      omega
    rw [hnone, List.append_nil]
  rw [membersIn_eq, ← hrange]
  simp only [Array.length_toList, Nat.zero_add, List.map_id_fun', id_eq]
  rfl

theorem WellFormed.toList_eq {s : BitSet} (hs : s.WellFormed) :
    s.toList = (List.range s.length).filter s.contains :=
  membersIn_words s hs.words_size hs.lt_length

theorem WellFormed.mem_toList {s : BitSet} (hs : s.WellFormed) (i : Nat) :
    i ∈ s.toList ↔ s.contains i = true := by
  rw [hs.toList_eq, List.mem_filter, List.mem_range]
  exact ⟨fun h => h.2, fun h => ⟨hs.lt_length i h, h⟩⟩

theorem WellFormed.nodup_toList {s : BitSet} (hs : s.WellFormed) : s.toList.Nodup := by
  rw [hs.toList_eq]
  exact List.nodup_range.filter _

theorem WellFormed.length_toList {s : BitSet} (hs : s.WellFormed) : s.toList.length = s.size := by
  rw [hs.toList_eq, hs.size_eq, List.countP_eq_length_filter]

theorem WellFormed.pairwise_toList {s : BitSet} (hs : s.WellFormed) :
    s.toList.Pairwise (· < ·) := by
  rw [hs.toList_eq]
  exact List.pairwise_lt_range.filter _

/-- Sets of one length with the same members are one set: nothing else is kept in the words. -/
theorem WellFormed.ext {s t : BitSet} (hs : s.WellFormed) (ht : t.WellFormed)
    (hlength : s.length = t.length) (h : ∀ i, s.contains i = t.contains i) : s = t := by
  have hsize : s.size = t.size := by
    rw [hs.size_eq, ht.size_eq, hlength, funext h]
  have hcount : s.words.size = t.words.size := by
    rw [hs.words_size, ht.words_size, hlength]
  have hwords : s.words = t.words := by
    refine Array.ext hcount fun k hk hk' => BitVec.eq_of_getLsbD_eq fun b hb => ?_
    -- bit `b` of word `k` is position `64 * k + b`
    have hdiv : (64 * k + b) / 64 = k := by omega
    have hmod : (64 * k + b) % 64 = b := by omega
    have hbit := h (64 * k + b)
    unfold contains wordAt at hbit
    rw [hdiv, hmod] at hbit
    simpa [hk, hk'] using hbit
  obtain ⟨words, length, size⟩ := s
  obtain ⟨words', length', size'⟩ := t
  simp only at hwords hlength hsize
  rw [hwords, hlength, hsize]

/-! ## Operations -/

theorem contains_empty (n i : Nat) : (empty n).contains i = false := by
  rw [contains_eq_bitAt]
  unfold empty bitAt
  rw [Array.getElem?_replicate]
  split <;> simp

theorem wellFormed_empty (n : Nat) : (empty n).WellFormed where
  words_size := by simp [empty]
  lt_length i h := by
    rw [contains_empty] at h
    exact absurd h Bool.false_ne_true
  size_eq := by
    have h : (List.range n).countP (empty n).contains = 0 := by
      rw [List.countP_eq_zero]
      intro i _ hc
      rw [contains_empty] at hc
      exact Bool.false_ne_true hc
    exact h.symm

theorem contains_full (n i : Nat) : (full n).contains i = decide (i < n) := by
  rw [contains_eq_bitAt]
  unfold full
  rw [bitAt_trim n _ i (by simp)]
  by_cases h : i < n
  · have hword : i / 64 < wordCount n := by
      have := wordCount_mul_ge n
      omega
    have hmod : i % 64 < 64 := Nat.mod_lt _ (by omega)
    have hbit : bitAt (Array.replicate (wordCount n) (BitVec.allOnes 64)) i = true := by
      unfold bitAt
      rw [Array.getElem?_replicate, if_pos hword, Option.getD_some, BitVec.getLsbD_allOnes]
      exact decide_eq_true hmod
    rw [hbit, Bool.and_true]
  · simp [h]

theorem wellFormed_full (n : Nat) : (full n).WellFormed where
  words_size := by simp [full, size_trim]
  lt_length i h := by
    rw [contains_full] at h
    exact of_decide_eq_true h
  size_eq := by
    have h : (List.range n).countP (full n).contains = (List.range n).length := by
      rw [List.countP_eq_length]
      intro i hi
      rw [contains_full]
      exact decide_eq_true (List.mem_range.1 hi)
    rw [List.length_range] at h
    exact h.symm

@[simp] theorem length_insert (s : BitSet) (i : Nat) : (s.insert i).length = s.length := by
  unfold insert
  split <;> rfl

theorem contains_insert {s : BitSet} (hs : s.WellFormed) {i : Nat} (hi : i < s.length) (j : Nat) :
    (s.insert i).contains j = (decide (j = i) || s.contains j) := by
  unfold insert
  split
  next hc =>
    by_cases h : j = i
    · subst h
      simp [hc]
    · simp [h]
  next hc =>
    have hbit : ∀ (w : Word) (k : Nat), k < 64 → (w ||| Word.single (i % 64)).getLsbD k
        = if k = i % 64 then true else w.getLsbD k := by
      intro w k hk
      rw [BitVec.getLsbD_or, getLsbD_single _ _ hk]
      split <;> simp [*]
    rw [contains_eq_bitAt, contains_eq_bitAt, bitAt_modify_bit (hs.word_lt hi) hbit]
    split <;> simp [*]

/-- Adding one item to what is counted counts one more. -/
theorem countP_insert (l : List Nat) (p : Nat → Bool) (i : Nat) (hl : l.Nodup) (hi : i ∈ l)
    (hp : p i = false) : l.countP (fun j => decide (j = i) || p j) = l.countP p + 1 := by
  induction l with
  | nil => cases hi
  | cons a l ih =>
    obtain ⟨ha, hl⟩ := List.nodup_cons.1 hl
    rw [List.countP_cons, List.countP_cons]
    rcases List.mem_cons.1 hi with rfl | hi
    · have hrest : l.countP (fun j => decide (j = i) || p j) = l.countP p := by
        refine List.countP_congr fun j hj => ?_
        have hne : j ≠ i := fun h => ha (h ▸ hj)
        simp [hne]
      rw [hrest]
      simp [hp]
    · have hne : a ≠ i := fun h => ha (h ▸ hi)
      rw [ih hl hi]
      simp only [hne, decide_false, Bool.false_or]
      omega

theorem WellFormed.insert {s : BitSet} (hs : s.WellFormed) {i : Nat} (hi : i < s.length) :
    (s.insert i).WellFormed where
  words_size := by
    have h : (s.insert i).words.size = s.words.size := by
      unfold BitSet.insert
      split <;> simp
    rw [h, hs.words_size, length_insert]
  lt_length j h := by
    rw [contains_insert hs hi, Bool.or_eq_true, decide_eq_true_eq] at h
    rw [length_insert]
    rcases h with rfl | h
    · exact hi
    · exact hs.lt_length j h
  size_eq := by
    rw [length_insert]
    by_cases hc : s.contains i = true
    · have h : s.insert i = s := by simp [BitSet.insert, hc]
      rw [h, hs.size_eq]
    · have hsize : (s.insert i).size = s.size + 1 := by simp [BitSet.insert, hc]
      have hfun : (s.insert i).contains = fun j => decide (j = i) || s.contains j := by
        funext j
        exact contains_insert hs hi j
      rw [hsize, hs.size_eq, hfun]
      exact (countP_insert _ _ _ List.nodup_range (List.mem_range.2 hi) (by simpa using hc)).symm

@[simp] theorem length_erase (s : BitSet) (i : Nat) : (s.erase i).length = s.length := by
  unfold erase
  split <;> rfl

theorem contains_erase {s : BitSet} (hs : s.WellFormed) {i : Nat} (hi : i < s.length) (j : Nat) :
    (s.erase i).contains j = (!decide (j = i) && s.contains j) := by
  unfold erase
  split
  next hc =>
    have hbit : ∀ (w : Word) (k : Nat), k < 64 → (w &&& ~~~Word.single (i % 64)).getLsbD k
        = if k = i % 64 then false else w.getLsbD k := by
      intro w k hk
      rw [BitVec.getLsbD_and, BitVec.getLsbD_not, getLsbD_single _ _ hk, decide_eq_true hk]
      split <;> simp [*]
    rw [contains_eq_bitAt, contains_eq_bitAt, bitAt_modify_bit (hs.word_lt hi) hbit]
    split <;> simp [*]
  next hc =>
    by_cases h : j = i
    · subst h
      simpa using hc
    · simp [h]

/-- Taking one item out of what is counted counts one less. -/
theorem countP_erase (l : List Nat) (p : Nat → Bool) (i : Nat) (hl : l.Nodup) (hi : i ∈ l)
    (hp : p i = true) : l.countP (fun j => !decide (j = i) && p j) = l.countP p - 1 := by
  have hback : (fun j => decide (j = i) || (!decide (j = i) && p j)) = p := by
    funext j
    by_cases h : j = i
    · simp [h, hp]
    · simp [h]
  have hcount := countP_insert l (fun j => !decide (j = i) && p j) i hl hi (by simp)
  rw [hback] at hcount
  omega

theorem WellFormed.erase {s : BitSet} (hs : s.WellFormed) {i : Nat} (hi : i < s.length) :
    (s.erase i).WellFormed where
  words_size := by
    have h : (s.erase i).words.size = s.words.size := by
      unfold BitSet.erase
      split <;> simp
    rw [h, hs.words_size, length_erase]
  lt_length j h := by
    rw [contains_erase hs hi, Bool.and_eq_true] at h
    rw [length_erase]
    exact hs.lt_length j h.2
  size_eq := by
    rw [length_erase]
    by_cases hc : s.contains i = true
    · have hsize : (s.erase i).size = s.size - 1 := by simp [BitSet.erase, hc]
      have hfun : (s.erase i).contains = fun j => !decide (j = i) && s.contains j :=
        funext (contains_erase hs hi)
      rw [hsize, hs.size_eq, hfun]
      exact (countP_erase _ _ _ List.nodup_range (List.mem_range.2 hi) hc).symm
    · have h : s.erase i = s := by simp [BitSet.erase, hc]
      rw [h, hs.size_eq]

theorem contains_complement {s : BitSet} (hs : s.WellFormed) (i : Nat) :
    s.complement.contains i = (decide (i < s.length) && !s.contains i) := by
  rw [contains_eq_bitAt]
  unfold complement
  rw [bitAt_trim _ _ i (by simpa using hs.words_size)]
  by_cases h : i < s.length
  · rw [bitAt_map_not _ _ (hs.word_lt h)]
    rfl
  · simp [h]

theorem WellFormed.complement {s : BitSet} (hs : s.WellFormed) : s.complement.WellFormed where
  words_size := by simpa [BitSet.complement, size_trim] using hs.words_size
  lt_length i h := by
    rw [contains_complement hs, Bool.and_eq_true, decide_eq_true_eq] at h
    exact h.1
  size_eq := by
    have hsum := List.length_eq_countP_add_countP s.contains (l := List.range s.length)
    have hcongr : (List.range s.length).countP s.complement.contains
        = (List.range s.length).countP (fun i => decide (¬ s.contains i = true)) := by
      refine List.countP_congr fun i hi => ?_
      rw [contains_complement hs]
      simp [List.mem_range.1 hi]
    have hsize : s.complement.size = s.length - s.size := rfl
    have hlen : s.complement.length = s.length := rfl
    rw [List.length_range] at hsum
    rw [hsize, hlen, hcongr, hs.size_eq]
    omega

theorem contains_inter (s t : BitSet) (i : Nat) :
    (s.inter t).contains i = (s.contains i && t.contains i) :=
  bitAt_zipWith_and s.words t.words i

/-- A combination without members outside is counted anew. -/
theorem wellFormed_combine {f : Word → Word → Word} {s t : BitSet} (hs : s.WellFormed)
    (ht : t.WellFormed) (h : s.length = t.length)
    (hlt : ∀ i, (combine f s t).contains i = true → i < s.length) :
    (combine f s t).WellFormed := by
  have hwords : (combine f s t).words.size = wordCount (combine f s t).length := by
    show (Array.zipWith f s.words t.words).size = wordCount s.length
    rw [Array.size_zipWith, hs.words_size, ht.words_size, h, Nat.min_self]
  refine ⟨hwords, hlt, ?_⟩
  have hsize : (combine f s t).size = ((combine f s t).words.toList.map Word.card).sum := by
    show (combine f s t).words.foldl (fun n w => n + w.card) 0 = _
    rw [← Array.foldl_toList, foldl_card, Nat.zero_add]
  rw [hsize, ← length_membersIn _ 0, membersIn_words _ hwords hlt, List.countP_eq_length_filter]

theorem WellFormed.inter {s t : BitSet} (hs : s.WellFormed) (ht : t.WellFormed)
    (h : s.length = t.length) : (s.inter t).WellFormed := by
  refine wellFormed_combine hs ht h fun i hi => ?_
  have hboth : (s.contains i && t.contains i) = true := (contains_inter s t i).symm.trans hi
  rw [Bool.and_eq_true] at hboth
  exact hs.lt_length i hboth.1

theorem contains_union {s t : BitSet} (hs : s.WellFormed) (ht : t.WellFormed)
    (h : s.length = t.length) (i : Nat) :
    (s.union t).contains i = (s.contains i || t.contains i) :=
  bitAt_zipWith_or s.words t.words (by rw [hs.words_size, ht.words_size, h]) i

theorem WellFormed.union {s t : BitSet} (hs : s.WellFormed) (ht : t.WellFormed)
    (h : s.length = t.length) : (s.union t).WellFormed := by
  refine wellFormed_combine hs ht h fun i hi => ?_
  have heither : (s.contains i || t.contains i) = true :=
    (contains_union hs ht h i).symm.trans hi
  rw [Bool.or_eq_true] at heither
  rcases heither with hi | hi
  · exact hs.lt_length i hi
  · rw [h]
    exact ht.lt_length i hi

/-! ## Sets of listed positions -/

theorem insert?_eq_some_iff {s t : BitSet} {i : Nat} :
    s.insert? i = some t ↔ i < s.length ∧ s.insert i = t := by
  unfold insert?
  by_cases hi : i < s.length
  · simp [hi]
  · simp [hi]

/-- Inserting listed positions succeeds exactly if they all lie inside. -/
theorem foldlM_insert? (indices : List Nat) {s : BitSet} (hs : s.WellFormed) :
    (∀ i ∈ indices, i < s.length) →
      ∃ t, indices.foldlM insert? s = some t ∧ t.WellFormed ∧ t.length = s.length ∧
        ∀ i, t.contains i = (decide (i ∈ indices) || s.contains i) := by
  induction indices generalizing s with
  | nil =>
    intro _
    exact ⟨s, rfl, hs, rfl, by simp⟩
  | cons a rest ih =>
    intro hall
    have ha : a < s.length := hall a List.mem_cons_self
    have hrest : ∀ i ∈ rest, i < (s.insert a).length := by
      intro i hi
      rw [length_insert]
      exact hall i (List.mem_cons_of_mem _ hi)
    obtain ⟨t, ht, htwf, htlen, htmem⟩ := ih (hs.insert ha) hrest
    refine ⟨t, ?_, htwf, by rw [htlen, length_insert], ?_⟩
    · rw [List.foldlM_cons, insert?_eq_some_iff.2 ⟨ha, rfl⟩]
      exact ht
    · intro i
      rw [htmem, contains_insert hs ha]
      by_cases h : i = a
      · simp [h]
      · simp [h]

theorem lt_of_foldlM_insert? (indices : List Nat) {s t : BitSet}
    (h : indices.foldlM insert? s = some t) : ∀ i ∈ indices, i < s.length := by
  induction indices generalizing s with
  | nil => simp
  | cons a rest ih =>
    rw [List.foldlM_cons] at h
    obtain ⟨u, hu, h⟩ := Option.bind_eq_some_iff.1 h
    obtain ⟨ha, rfl⟩ := insert?_eq_some_iff.1 hu
    intro i hi
    rcases List.mem_cons.1 hi with rfl | hi
    · exact ha
    · have := ih h i hi
      rwa [length_insert] at this

/-- There is a set of listed positions if they all lie below its length. -/
theorem ofIndices?_isSome (n : Nat) (indices : List Nat) (h : ∀ i ∈ indices, i < n) :
    ∃ s, ofIndices? n indices = some s := by
  obtain ⟨s, hs, -⟩ := foldlM_insert? indices (wellFormed_empty n) h
  exact ⟨s, hs⟩

theorem ofIndices?_spec {n : Nat} {indices : List Nat} {s : BitSet}
    (h : ofIndices? n indices = some s) :
    s.WellFormed ∧ s.length = n ∧ ∀ i, s.contains i = decide (i ∈ indices) := by
  have hall := lt_of_foldlM_insert? indices h
  obtain ⟨t, ht, hwf, hlen, hmem⟩ := foldlM_insert? indices (wellFormed_empty n) hall
  obtain rfl : s = t := Option.some.inj (h.symm.trans ht)
  refine ⟨hwf, hlen, fun i => ?_⟩
  rw [hmem, contains_empty, Bool.or_false]

/-- Without positions outside, checked insertion is insertion. -/
theorem foldlM_insert?_eq_foldl (indices : List Nat) (s : BitSet) (h : ∀ i ∈ indices, i < s.length) :
    indices.foldlM insert? s = some (indices.foldl insert s) := by
  induction indices generalizing s with
  | nil => rfl
  | cons a rest ih =>
    rw [List.foldlM_cons, insert?_eq_some_iff.2 ⟨h a List.mem_cons_self, rfl⟩, List.foldl_cons]
    refine ih _ fun i hi => ?_
    rw [length_insert]
    exact h i (List.mem_cons_of_mem _ hi)

theorem ofPredicate_spec (n : Nat) (p : Nat → Bool) :
    (ofPredicate n p).WellFormed ∧ (ofPredicate n p).length = n ∧
      ∀ i, (ofPredicate n p).contains i = (decide (i < n) && p i) := by
  have hall : ∀ i ∈ (List.range n).filter p, i < (empty n).length := by
    intro i hi
    exact List.mem_range.1 (List.mem_filter.1 hi).1
  have h : ofIndices? n ((List.range n).filter p) = some (ofPredicate n p) :=
    foldlM_insert?_eq_foldl _ _ hall
  obtain ⟨hwf, hlen, hmem⟩ := ofIndices?_spec h
  refine ⟨hwf, hlen, fun i => ?_⟩
  rw [hmem]
  by_cases hi : i < n
  · simp [hi]
  · simp [hi]

theorem inter?_eq_some_iff {s t u : BitSet} :
    s.inter? t = some u ↔ s.length = t.length ∧ s.inter t = u := by
  unfold inter?
  by_cases h : s.length = t.length
  · simp [h]
  · simp [h]

theorem union?_eq_some_iff {s t u : BitSet} :
    s.union? t = some u ↔ s.length = t.length ∧ s.union t = u := by
  unfold union?
  by_cases h : s.length = t.length
  · simp [h]
  · simp [h]

theorem erase?_eq_some_iff {s t : BitSet} {i : Nat} :
    s.erase? i = some t ↔ i < s.length ∧ s.erase i = t := by
  unfold erase?
  by_cases hi : i < s.length
  · simp [hi]
  · simp [hi]

theorem get?_eq_some_iff {s : BitSet} {i : Nat} {b : Bool} :
    s.get? i = some b ↔ i < s.length ∧ s.contains i = b := by
  unfold get?
  by_cases hi : i < s.length
  · simp [hi]
  · simp [hi]

end BitSet

end ColumnQuery
