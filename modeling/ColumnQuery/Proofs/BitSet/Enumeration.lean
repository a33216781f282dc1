/-
  The members of a bit set, visited and searched word by word.

  A word loses its lowest position when it is combined with the number before it
  (`positions_dropLowest`). So a cursor that clears one position after the other, and moves on from
  empty words, stands before the members that it has not visited (`Cursor.remaining`): a call
  answers the first of them and leaves the cursor before the rest (`Cursor.next_refines`), and past
  the last one every call answers none. The search from a position masks the first word
  (`next?_eq_find?`); the search by number counts whole words and clears positions within one
  (`nth?_eq_getElem?`). All of them see one list, that of the members in ascending order
  (`enumerates_of_run?`).
-/
import ColumnQuery.Proofs.BitSet.History
import Mathlib.Data.List.Sort

namespace ColumnQuery

namespace Word

variable {w : Word} {k : Nat}

/-! ## Positions of a word -/

theorem mem_positions {i : Nat} : i ∈ w.positions ↔ i < 64 ∧ w.getLsbD i = true := by
  unfold positions
  rw [List.mem_filter, List.mem_range]

theorem pairwise_positions (w : Word) : w.positions.Pairwise (· < ·) :=
  List.pairwise_lt_range.filter _

theorem lowest?_eq_head? (w : Word) : w.lowest? = w.positions.head? := List.head?_filter.symm

theorem positions_zero : positions 0#64 = [] := by decide

theorem positions_eq_nil_iff : w.positions = [] ↔ w = 0#64 := by
  constructor
  · intro h
    refine BitVec.eq_of_getLsbD_eq fun i hi => ?_
    rw [BitVec.getLsbD_zero, Bool.eq_false_iff]
    intro hbit
    have hmem := mem_positions.2 ⟨hi, hbit⟩
    rw [h] at hmem
    cases hmem
  · rintro rfl
    exact positions_zero

/-- A number with lowest position `k` is an odd multiple of `2^k`. -/
theorem toNat_eq_of_lowest? (hk : w.lowest? = some k) : ∃ a, w.toNat = 2 ^ k * (2 * a + 1) := by
  obtain ⟨hbit, as, bs, hsplit, hclear⟩ := List.find?_eq_some_iff_append.1 hk
  have hsmaller : ∀ j < k, w.toNat.testBit j = false := by
    intro j hj
    have hlt : k < 64 := List.mem_range.1 (hsplit ▸ List.mem_append_right as List.mem_cons_self)
    have hmem : j ∈ as ++ k :: bs := by
      rw [← hsplit, List.mem_range]
      omega
    have hsorted := List.pairwise_lt_range (n := 64)
    rw [hsplit, List.pairwise_append] at hsorted
    rcases List.mem_append.1 hmem with hbefore | hbehind
    · exact (Bool.not_eq_true' _).mp (hclear j hbefore)
    · rcases List.mem_cons.1 hbehind with rfl | hbehind
      · omega
      · have := (List.pairwise_cons.1 hsorted.2.1).1 j hbehind
        omega
  have hmod : w.toNat % 2 ^ k = 0 := by
    refine Nat.eq_of_testBit_eq fun j => ?_
    rw [Nat.testBit_mod_two_pow, Nat.zero_testBit]
    by_cases hj : j < k
    · rw [hsmaller j hj, Bool.and_false]
    · rw [decide_eq_false hj, Bool.false_and]
  have hodd : w.toNat / 2 ^ k % 2 = 1 := by
    have hbit : w.toNat.testBit k = true := hbit
    rwa [Nat.testBit_eq_decide_div_mod_eq, decide_eq_true_eq] at hbit
  refine ⟨w.toNat / 2 ^ k / 2, ?_⟩
  have hdiv := Nat.div_add_mod w.toNat (2 ^ k)
  have hhalf := Nat.div_add_mod (w.toNat / 2 ^ k) 2
  rw [hodd] at hhalf
  rw [hhalf]
  omega

/-- The number before a word has the same positions above the lowest one, and not this one. -/
theorem getLsbD_dropLowest (hk : w.lowest? = some k) (i : Nat) :
    w.dropLowest.getLsbD i = (w.getLsbD i && decide (i ≠ k)) := by
  obtain ⟨a, ha⟩ := toNat_eq_of_lowest? hk
  have hpos := Nat.two_pow_pos k
  have hpred : (w - 1#64).toNat = 2 ^ k * (2 * a) + (2 ^ k - 1) := by
    have hlt := w.isLt
    rw [BitVec.toNat_sub, ha]
    rw [ha] at hlt
    rw [Nat.mul_succ] at hlt ⊢
    simp
    omega
  have hbit : w.getLsbD i = if i < k then false else (2 * a + 1).testBit (i - k) := by
    show w.toNat.testBit i = _
    rw [ha, ← Nat.add_zero (2 ^ k * (2 * a + 1)), Nat.testBit_two_pow_mul_add _ hpos,
      Nat.zero_testBit]
  have hbit' : (w - 1#64).getLsbD i = if i < k then true else (2 * a).testBit (i - k) := by
    show (w - 1#64).toNat.testBit i = _
    rw [hpred, Nat.testBit_two_pow_mul_add _ (by omega), Nat.testBit_two_pow_sub_one]
    by_cases hlt : i < k <;> simp [hlt]
  unfold dropLowest
  rw [BitVec.getLsbD_and, hbit, hbit']
  rcases Nat.lt_trichotomy i k with hlt | rfl | hgt
  · simp [hlt]
  · simp
  · obtain ⟨j, rfl⟩ := Nat.exists_eq_add_of_lt hgt
    have hsub : k + j + 1 - k = j + 1 := by omega
    have hlow : ¬ k + j + 1 < k := by omega
    have hne : k + j + 1 ≠ k := by omega
    have hodd : (2 * a + 1) / 2 = a := by omega
    have heven : 2 * a / 2 = a := by omega
    rw [if_neg hlow, if_neg hlow, hsub, Nat.testBit_succ, Nat.testBit_succ, hodd, heven,
      Bool.and_self, decide_eq_true hne, Bool.and_true]

theorem positions_dropLowest (w : Word) : w.dropLowest.positions = w.positions.tail := by
  cases h : w.positions with
  | nil =>
    rw [positions_eq_nil_iff] at h
    subst h
    exact positions_zero
  | cons k rest =>
    have hk : w.lowest? = some k := by rw [lowest?_eq_head?, h, List.head?_cons]
    have hsorted := pairwise_positions w
    rw [h, List.pairwise_cons] at hsorted
    refine (pairwise_positions _).eq_of_mem_iff hsorted.2 fun i => ?_
    have hmem : i ∈ w.positions ↔ i = k ∨ i ∈ rest := by rw [h, List.mem_cons]
    rw [mem_positions] at hmem
    rw [mem_positions, getLsbD_dropLowest hk, Bool.and_eq_true, ← and_assoc, hmem,
      decide_eq_true_eq]
    constructor
    · rintro ⟨rfl | hrest, hne⟩
      · exact absurd rfl hne
      · exact hrest
    · intro hrest
      exact ⟨.inr hrest, (hsorted.1 i hrest).ne'⟩

theorem positions_repeat_dropLowest (w : Word) (k : Nat) :
    (Nat.repeat dropLowest k w).positions = w.positions.drop k := by
  induction k with
  | zero => rfl
  | succ k ih => rw [Nat.repeat, positions_dropLowest, ih, List.tail_drop]

theorem card_eq_length (w : Word) : w.card = w.positions.length := List.countP_eq_length_filter

end Word

namespace BitSet

/-! ## Members of words -/

theorem membersIn_zero (ws : List Word) (start : Nat) :
    membersIn (0#64 :: ws) start = membersIn ws (start + 64) := by
  rw [membersIn, Word.positions_zero]
  rfl

theorem membersIn_append (ws vs : List Word) (start : Nat) :
    membersIn (ws ++ vs) start = membersIn ws start ++ membersIn vs (start + 64 * ws.length) := by
  induction ws generalizing start with
  | nil => rfl
  | cons w ws ih =>
    have hstart : start + 64 + 64 * ws.length = start + 64 * (ws.length + 1) := by omega
    rw [List.cons_append, membersIn, membersIn, ih, hstart, List.append_assoc, List.length_cons]

theorem bounds_of_mem_membersIn {ws : List Word} {start i : Nat} (hi : i ∈ membersIn ws start) :
    start ≤ i ∧ i < start + 64 * ws.length := by
  rw [membersIn_eq] at hi
  obtain ⟨j, hj, rfl⟩ := List.mem_map.1 hi
  have := List.mem_range.1 (List.mem_filter.1 hj).1
  omega

/-! ## Visiting -/

namespace Cursor

/-- The members that are still to be visited. -/
def remaining (c : Cursor) : List Nat := membersIn (c.word :: c.rest) c.start

theorem remaining_settle (start : Nat) (word : Word) (rest : List Word) :
    (settle start word rest).remaining = membersIn (word :: rest) start := by
  induction rest generalizing start word with
  | nil => rfl
  | cons next rest ih =>
    unfold settle
    split
    next hzero => rw [ih, hzero, membersIn_zero]
    next => rfl

/-- A cursor that has moved on stands at a member, or past the last word. -/
theorem settle_word (start : Nat) (word : Word) (rest : List Word) :
    (settle start word rest).word ≠ 0#64 ∨ (settle start word rest).rest = [] := by
  induction rest generalizing start word with
  | nil => exact .inr rfl
  | cons next rest ih =>
    unfold settle
    split
    next => exact ih ..
    next hne => exact .inl hne

/-- A call answers the first member that is left, and leaves the rest. -/
theorem next_refines (c : Cursor) :
    c.next.1 = c.remaining.head? ∧ c.next.2.remaining = c.remaining.tail := by
  obtain ⟨d, hd⟩ : ∃ d, settle c.start c.word c.rest = d := ⟨_, rfl⟩
  have hremaining : d.remaining = c.remaining := hd ▸ remaining_settle ..
  have hword : d.word ≠ 0#64 ∨ d.rest = [] := hd ▸ settle_word ..
  unfold next
  rw [hd, ← hremaining]
  dsimp only
  unfold remaining membersIn
  cases hlowest : d.word.lowest? with
  | some k =>
    rw [Word.lowest?_eq_head?] at hlowest
    obtain ⟨rest, hrest⟩ : ∃ rest, d.word.positions = k :: rest := by
      cases hpositions : d.word.positions with
      | nil => rw [hpositions] at hlowest; cases hlowest
      | cons k' rest =>
        rw [hpositions] at hlowest
        obtain rfl : k' = k := Option.some.inj hlowest
        exact ⟨rest, rfl⟩
    refine ⟨by rw [hrest]; rfl, ?_⟩
    dsimp only
    rw [Word.positions_dropLowest, hrest]
    rfl
  | none =>
    rw [Word.lowest?_eq_head?, List.head?_eq_none_iff] at hlowest
    have hrest : d.rest = [] :=
      hword.resolve_left fun hne => hne (Word.positions_eq_nil_iff.1 hlowest)
    dsimp only
    rw [hlowest, hrest]
    exact ⟨rfl, rfl⟩

/-- The answer to the call numbered `k`, from `0`. -/
def answer (c : Cursor) : Nat → Option Nat
  | 0 => c.next.1
  | k + 1 => c.next.2.answer k

/-- The calls answer the members that are left, one after the other, and then none. -/
theorem answer_eq_getElem? (c : Cursor) (k : Nat) : c.answer k = c.remaining[k]? := by
  obtain ⟨hhead, htail⟩ := c.next_refines
  induction k generalizing c with
  | zero => rw [answer, hhead, List.head?_eq_getElem?]
  | succ k ih => rw [answer, ih _ (next_refines _).1 (next_refines _).2, htail, List.getElem?_tail]

/-- A visitor is called with the members that are left. -/
theorem visit_eq_foldl {σ : Type} (visitor : σ → Nat → σ) (state : σ) (c : Cursor) :
    c.visit visitor state = c.remaining.foldl visitor state := by
  induction state, c using visit.induct visitor with
  | case1 state c i d hnext ih =>
    obtain ⟨hhead, htail⟩ := c.next_refines
    rw [hnext] at hhead htail
    rw [visit, hnext]
    dsimp only
    rw [ih, htail, List.eq_cons_of_mem_head? hhead.symm, List.foldl_cons, List.tail_cons]
  | case2 state c d hnext =>
    have hnone : c.remaining = [] := by
      rw [← List.head?_eq_none_iff, ← c.next_refines.1, hnext]
    rw [visit, hnext, hnone]
    rfl

end Cursor

theorem remaining_cursor (s : BitSet) : s.cursor.remaining = s.toList := by
  unfold Cursor.remaining cursor toList
  cases s.words.toList with
  | nil => exact membersIn_zero [] 0
  | cons w rest => rfl

/-! ## Searching -/

theorem lowestIn_eq_head? (ws : List Word) (start : Nat) :
    lowestIn ws start = (membersIn ws start).head? := by
  induction ws generalizing start with
  | nil => rfl
  | cons w rest ih =>
    rw [lowestIn, membersIn, Word.lowest?_eq_head?]
    cases w.positions with
    | nil => exact ih _
    | cons k ks => rfl

theorem nthIn_eq_getElem? (ws : List Word) (start k : Nat) :
    nthIn ws start k = (membersIn ws start)[k]? := by
  induction ws generalizing start k with
  | nil => rfl
  | cons w rest ih =>
    have hlength : (w.positions.map (start + ·)).length = w.card := by
      rw [List.length_map, Word.card_eq_length]
    rw [nthIn, membersIn]
    split
    next hlt =>
      rw [List.getElem?_append_left (hlength ▸ hlt), List.getElem?_map, Word.lowest?_eq_head?,
        Word.positions_repeat_dropLowest, List.head?_drop]
    next hge => rw [List.getElem?_append_right (hlength ▸ Nat.not_lt.1 hge), ih, hlength]

theorem nth?_eq_getElem? {s : BitSet} (hs : s.WellFormed) (k : Nat) : s.nth? k = s.toList[k]? := by
  unfold nth? toList
  split
  next => exact nthIn_eq_getElem? ..
  next hge =>
    refine (List.getElem?_eq_none ?_).symm
    have hlength : (membersIn s.words.toList 0).length = s.size := hs.length_toList
    rw [hlength]
    exact Nat.not_lt.1 hge

/-- What a mask leaves of a word. -/
theorem positions_mask (w : Word) (k : Nat) :
    (w &&& ~~~Word.below k).positions = w.positions.filter (k ≤ ·) := by
  unfold Word.positions
  rw [List.filter_filter]
  refine List.filter_congr fun i hi => ?_
  have hi := List.mem_range.1 hi
  rw [BitVec.getLsbD_and, BitVec.getLsbD_not, getLsbD_below k i hi, decide_eq_true hi,
    Bool.true_and, Bool.and_comm, ← decide_not, decide_eq_decide.2 Nat.not_lt]

/-- The search from a position finds the first member that is listed from there on. -/
theorem next?_eq_find? {s : BitSet} (hs : s.WellFormed) (i : Nat) :
    s.next? i = s.toList.find? (i ≤ ·) := by
  unfold next?
  split
  next hi =>
    have hword : i / 64 < s.words.toList.length := hs.word_lt hi
    obtain ⟨w, rest, hsplit⟩ : ∃ w rest, s.words.toList.drop (i / 64) = w :: rest :=
      ⟨_, _, List.drop_eq_getElem_cons hword⟩
    have hlist : s.toList = membersIn (s.words.toList.take (i / 64)) 0 ++
        (w.positions.map (i / 64 * 64 + ·) ++ membersIn rest (i / 64 * 64 + 64)) := by
      have hstart : 0 + 64 * (s.words.toList.take (i / 64)).length = i / 64 * 64 := by
        rw [List.length_take_of_le hword.le]
        omega
      unfold toList
      rw [← membersIn, ← hsplit, ← hstart, ← membersIn_append, List.take_append_drop]
    -- the words before that of the position hold nothing from there on, those behind it all
    have hbefore : (membersIn (s.words.toList.take (i / 64)) 0).filter (i ≤ ·) = [] := by
      refine List.filter_eq_nil_iff.2 fun j hj => ?_
      have hlt := (bounds_of_mem_membersIn hj).2
      rw [List.length_take_of_le hword.le] at hlt
      rw [decide_eq_true_eq]
      omega
    have hbehind : (membersIn rest (i / 64 * 64 + 64)).filter (i ≤ ·)
        = membersIn rest (i / 64 * 64 + 64) := by
      refine List.filter_eq_self.2 fun j hj => ?_
      have hle := (bounds_of_mem_membersIn hj).1
      rw [decide_eq_true_eq]
      omega
    have hwithin : (w.positions.map (i / 64 * 64 + ·)).filter (i ≤ ·)
        = (w.positions.filter (i % 64 ≤ ·)).map (i / 64 * 64 + ·) := by
      rw [List.filter_map]
      refine congrArg _ (List.filter_congr fun j _ => decide_eq_decide.2 ?_)
      show i ≤ i / 64 * 64 + j ↔ i % 64 ≤ j
      omega
    rw [hsplit]
    dsimp only
    rw [lowestIn_eq_head?, membersIn, positions_mask, ← List.head?_filter, hlist,
      List.filter_append, List.filter_append, hbefore, hbehind, hwithin, List.nil_append]
  next hi =>
    refine (List.find?_eq_none.2 fun j hj => ?_).symm
    have := hs.lt_length j ((hs.mem_toList j).1 hj)
    rw [decide_eq_true_eq]
    omega

/-! ## One list -/

/-- Of an ascending list, the first item from a number on is the least one. -/
theorem find?_ascending {xs : List Nat} (hxs : xs.Pairwise (· < ·)) (i j : Nat) :
    xs.find? (i ≤ ·) = some j ↔ j ∈ xs ∧ i ≤ j ∧ ∀ l ∈ xs, i ≤ l → j ≤ l := by
  induction xs with
  | nil => simp
  | cons x xs ih =>
    obtain ⟨hx, hxs⟩ := List.pairwise_cons.1 hxs
    rw [List.find?_cons]
    by_cases hi : i ≤ x
    · rw [decide_eq_true hi]
      dsimp only
      rw [Option.some.injEq]
      constructor
      · rintro rfl
        refine ⟨List.mem_cons_self, hi, fun l hl _ => ?_⟩
        rcases List.mem_cons.1 hl with rfl | hl
        · exact Nat.le_refl _
        · exact (hx l hl).le
      · rintro ⟨hj, -, hleast⟩
        have hle := hleast x List.mem_cons_self hi
        rcases List.mem_cons.1 hj with rfl | hj
        · rfl
        · exact absurd (hx j hj) (Nat.not_lt.2 hle)
    · rw [decide_eq_false hi]
      dsimp only
      rw [ih hxs]
      simp only [List.mem_cons, forall_eq_or_imp]
      constructor
      · rintro ⟨hj, hij, hleast⟩
        exact ⟨.inr hj, hij, fun hix => absurd hix hi, hleast⟩
      · rintro ⟨rfl | hj, hij, -, hleast⟩
        · exact absurd hij hi
        · exact ⟨hj, hij, hleast⟩

/-- A list of all members of a set, seen by every way to visit and to search it. -/
structure Enumerates (s : BitSet) (xs : List Nat) : Prop where
  ascending : xs.Pairwise (· < ·)
  mem_iff : ∀ i, i ∈ xs ↔ s.get? i = some true
  length_eq : xs.length = s.size
  toList_eq : s.toList = xs
  /-- Behind the last member every call answers none. -/
  answer : ∀ k, s.cursor.answer k = xs[k]?
  scan : ∀ {σ : Type} (visitor : σ → Nat → σ) (state : σ),
    s.scan visitor state = xs.foldl visitor state
  next : ∀ i j, s.next? i = some j ↔ j ∈ xs ∧ i ≤ j ∧ ∀ l ∈ xs, i ≤ l → j ≤ l
  next_none : ∀ i, s.next? i = none ↔ ∀ j ∈ xs, j < i
  nth : ∀ k, s.nth? k = xs[k]?
  nth_none : ∀ k, s.nth? k = none ↔ s.size ≤ k

theorem WellFormed.enumerates {s : BitSet} (hs : s.WellFormed) : s.Enumerates s.toList where
  ascending := hs.pairwise_toList
  mem_iff i := by
    rw [hs.mem_toList, get?_eq_some_iff]
    exact ⟨fun h => ⟨hs.lt_length i h, h⟩, fun h => h.2⟩
  length_eq := hs.length_toList
  toList_eq := rfl
  answer k := by rw [Cursor.answer_eq_getElem?, remaining_cursor]
  scan visitor state := by
    unfold BitSet.scan
    rw [Cursor.visit_eq_foldl, remaining_cursor]
  next i j := by rw [next?_eq_find? hs, find?_ascending hs.pairwise_toList]
  next_none i := by
    rw [next?_eq_find? hs, List.find?_eq_none]
    simp only [decide_eq_true_eq, Nat.not_le]
  nth k := nth?_eq_getElem? hs k
  nth_none k := by rw [nth?_eq_getElem? hs, List.getElem?_eq_none_iff, hs.length_toList]

/-- A set that comes about by its operations is listed by its members in ascending order: the
    calls of a cursor answer them and then none, a scan visits them, the search from a position
    finds the least one from there on, and the search by number the one at that place. -/
theorem enumerates_of_run? {n : Nat} {h : History} {s : BitSet} (hs : h.run? n = some s) :
    ∃ xs, s.Enumerates xs ∧ ∀ i, i ∈ xs ↔ i ∈ h.members n := by
  obtain ⟨hyields, -⟩ := History.yields_of_run? hs
  refine ⟨s.toList, hyields.wellFormed.enumerates, fun i => ?_⟩
  rw [hyields.wellFormed.mem_toList, hyields.contains, decide_eq_true_eq]

/-- Members in the first and in the last of five words, the last one cut short, and two at the ends
    of a word between empty ones. -/
theorem enumerates_of_run?_spread : ∃ s : BitSet,
    (History.ofIndices [299, 191, 3, 128]).run? 300 = some s ∧ s.toList = [3, 128, 191, 299] ∧
    s.cursor.answer 2 = some 191 ∧ s.cursor.answer 4 = none ∧ s.cursor.answer 9 = none ∧
    s.scan (fun count i => count + i) 0 = 621 ∧ s.next? 4 = some 128 ∧ s.next? 192 = some 299 ∧
    s.next? 300 = none ∧ s.nth? 3 = some 299 ∧ s.nth? 4 = none := by
  obtain ⟨s, hs⟩ := History.exists_run? (n := 300) (h := .ofIndices [299, 191, 3, 128])
    (by simp [History.InRange])
  obtain ⟨xs, hlist, hmem⟩ := enumerates_of_run? hs
  have hxs : xs = [3, 128, 191, 299] :=
    hlist.ascending.eq_of_mem_iff (by decide) fun i => by simp [hmem]; tauto
  subst hxs
  refine ⟨s, hs, hlist.toList_eq, hlist.answer 2, hlist.answer 4, hlist.answer 9, hlist.scan .., ?_,
    ?_, ?_, hlist.nth 3, hlist.nth 4⟩
  · exact (hlist.next 4 128).2 (by decide)
  · exact (hlist.next 192 299).2 (by decide)
  · exact (hlist.next_none 300).2 (by decide)

end BitSet

end ColumnQuery
