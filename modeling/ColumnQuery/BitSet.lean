/-
  Fixed-length bit sets: sets of positions below a fixed length, packed into words.

  Model. Position `i` is bit `i % 64` of word `i / 64`. A set of length `n` has `(n + 63) / 64`
  words, and the positions `≥ n` of the last word are kept clear, so that counting and
  searching never mask them. The number of members is cached in `size`.

  Operations that name a position or a second set are partial: `get?`, `insert?`, `erase?`,
  `ofIndices?` answer `none` for a position outside the set, `inter?` and `union?` for
  operands of different lengths.

  Searching (`next?`, `nth?`) and visiting (`Cursor`) skip whole words, and within a word they clear
  the lowest position after the other; `toList` lists word by word. `contains` is the membership
  that they are about.
-/

namespace ColumnQuery

/-- Sixty-four positions; position `0` is the lowest bit. -/
abbrev Word := BitVec 64

namespace Word

/-- The positions that are set, in ascending order. -/
def positions (w : Word) : List Nat := (List.range 64).filter (w.getLsbD ·)

/-- How many positions are set. -/
def card (w : Word) : Nat := (List.range 64).countP (w.getLsbD ·)

/-- The lowest position that is set. -/
def lowest? (w : Word) : Option Nat := (List.range 64).find? (w.getLsbD ·)

/-- The word without its lowest position. Borrowing sets what is below that position and clears it,
    so that nothing of either stays in both words. -/
def dropLowest (w : Word) : Word := w &&& (w - 1#64)

theorem ne_zero_of_lowest? {w : Word} {k : Nat} (h : w.lowest? = some k) : w ≠ 0#64 := by
  rintro rfl
  have hbit := List.find?_some h
  simp at hbit

theorem toNat_dropLowest_lt {w : Word} (h : w ≠ 0#64) : w.dropLowest.toNat < w.toNat := by
  have hpos : w.toNat ≠ 0 := fun hzero => h (BitVec.eq_of_toNat_eq hzero)
  have hlt := w.isLt
  have hle : (w &&& (w - 1#64)).toNat ≤ (w - 1#64).toNat := by
    rw [BitVec.toNat_and]
    exact Nat.and_le_right
  have hpred : (w - 1#64).toNat = w.toNat - 1 := by
    rw [BitVec.toNat_sub]
    simp
    omega
  unfold dropLowest
  omega

/-- The word in which exactly position `k` is set. -/
def single (k : Nat) : Word := 1#64 <<< k

/-- The word whose set positions are those below `k`. -/
def below (k : Nat) : Word := ~~~(BitVec.allOnes 64 <<< k)

end Word

/-- A set of positions below `length`. -/
structure BitSet where
  words : Array Word
  length : Nat
  size : Nat
deriving DecidableEq, Inhabited

namespace BitSet

/-- The number of words that hold `n` positions. -/
def wordCount (n : Nat) : Nat := (n + 63) / 64

/-! ## Construction -/

/-- No position is a member. -/
def empty (n : Nat) : BitSet := ⟨Array.replicate (wordCount n) 0#64, n, 0⟩

/-- Clears the positions of the last word that lie outside a set of length `n`. -/
def trim (n : Nat) (words : Array Word) : Array Word :=
  if n % 64 = 0 then words
  else words.modify (words.size - 1) (· &&& Word.below (n % 64))

/-- Every position is a member. -/
def full (n : Nat) : BitSet :=
  ⟨trim n (Array.replicate (wordCount n) (BitVec.allOnes 64)), n, n⟩

/-! ## Membership -/

/-- The word that holds position `i`. -/
def wordAt (s : BitSet) (i : Nat) : Word := s.words[i / 64]?.getD 0#64

/-- Membership; positions outside the set are no members. -/
def contains (s : BitSet) (i : Nat) : Bool := (s.wordAt i).getLsbD (i % 64)

def get? (s : BitSet) (i : Nat) : Option Bool := if i < s.length then some (s.contains i) else none

/-- Adds a position below `length`; adding a member changes nothing. -/
def insert (s : BitSet) (i : Nat) : BitSet :=
  if s.contains i then s
  else { s with words := s.words.modify (i / 64) (· ||| Word.single (i % 64)), size := s.size + 1 }

/-- Removes a position; removing what is no member changes nothing. -/
def erase (s : BitSet) (i : Nat) : BitSet :=
  if s.contains i then
    { s with words := s.words.modify (i / 64) (· &&& ~~~Word.single (i % 64)), size := s.size - 1 }
  else s

def insert? (s : BitSet) (i : Nat) : Option BitSet :=
  if i < s.length then some (s.insert i) else none

def erase? (s : BitSet) (i : Nat) : Option BitSet := if i < s.length then some (s.erase i) else none

/-- The set of the listed positions, which may repeat but must lie below `n`. -/
def ofIndices? (n : Nat) (indices : List Nat) : Option BitSet := indices.foldlM insert? (empty n)

/-- The positions below `n` that satisfy `p`. -/
def ofPredicate (n : Nat) (p : Nat → Bool) : BitSet :=
  ((List.range n).filter p).foldl insert (empty n)

def isFull (s : BitSet) : Bool := s.size == s.length

def isEmptyLength (s : BitSet) : Bool := s.length == 0

/-! ## Set algebra -/

/-- The positions below `length` that are no members. -/
def complement (s : BitSet) : BitSet :=
  { s with words := trim s.length (s.words.map (~~~·)), size := s.length - s.size }

/-- Word by word combination of two sets of one length, counted anew. -/
def combine (f : Word → Word → Word) (s t : BitSet) : BitSet :=
  let words := Array.zipWith f s.words t.words
  ⟨words, s.length, words.foldl (fun n w => n + w.card) 0⟩

def inter (s t : BitSet) : BitSet := combine (· &&& ·) s t

def union (s t : BitSet) : BitSet := combine (· ||| ·) s t

def inter? (s t : BitSet) : Option BitSet := if s.length = t.length then some (s.inter t) else none

def union? (s t : BitSet) : Option BitSet := if s.length = t.length then some (s.union t) else none

/-! ## Search -/

/-- The lowest member in `words`, the first of which starts at position `start`. -/
def lowestIn : List Word → Nat → Option Nat
  | [], _ => none
  | w :: rest, start =>
    match w.lowest? with
    | some k => some (start + k)
    | none => lowestIn rest (start + 64)

/-- The least member that is at least `i`. -/
def next? (s : BitSet) (i : Nat) : Option Nat :=
  if i < s.length then
    match s.words.toList.drop (i / 64) with
    | [] => none
    | w :: rest => lowestIn ((w &&& ~~~Word.below (i % 64)) :: rest) (i / 64 * 64)
  else none

/-- The `k`-th member (from `0`) in `words`, the first of which starts at position `start`. -/
def nthIn : List Word → Nat → Nat → Option Nat
  | [], _, _ => none
  | w :: rest, start, k =>
    if k < w.card then (Nat.repeat Word.dropLowest k w).lowest?.map (start + ·)
    else nthIn rest (start + 64) (k - w.card)

/-- The `k`-th member in ascending order, from `0`. -/
def nth? (s : BitSet) (k : Nat) : Option Nat :=
  if k < s.size then nthIn s.words.toList 0 k else none

/-- The members of `words`, the first of which starts at position `start`. -/
def membersIn : List Word → Nat → List Nat
  | [], _ => []
  | w :: rest, start => w.positions.map (start + ·) ++ membersIn rest (start + 64)

/-- The members in ascending order. -/
def toList (s : BitSet) : List Nat := membersIn s.words.toList 0

/-! ## Visiting -/

/-- What is left of a word, the position at which the word starts, and the words behind it. -/
structure Cursor where
  start : Nat
  word : Word
  rest : List Word

namespace Cursor

/-- Moves on from empty words. -/
def settle (start : Nat) (word : Word) : List Word → Cursor
  | [] => ⟨start, word, []⟩
  | next :: rest =>
    if word = 0#64 then settle (start + 64) next rest else ⟨start, word, next :: rest⟩

/-- The next member, and the cursor behind it; past the last member there is none, and the cursor
    stays there. -/
def next (c : Cursor) : Option Nat × Cursor :=
  let c := settle c.start c.word c.rest
  match c.word.lowest? with
  | some k => (some (c.start + k), { c with word := c.word.dropLowest })
  | none => (none, c)

theorem settle_eq_or_shorter (start : Nat) (word : Word) (rest : List Word) :
    settle start word rest = ⟨start, word, rest⟩ ∨
      (settle start word rest).rest.length < rest.length := by
  induction rest generalizing start word with
  | nil => exact .inl rfl
  | cons next rest ih =>
    unfold settle
    split
    · right
      rcases ih (start + 64) next with h | h
      · rw [h]
        exact Nat.lt_succ_self _
      · exact Nat.lt_succ_of_lt h
    · exact .inl rfl

/-- A visit leaves fewer words behind the cursor, or a smaller word. -/
theorem next_shrinks {c d : Cursor} {i : Nat} (h : c.next = (some i, d)) :
    d.rest.length < c.rest.length ∨
      d.rest.length = c.rest.length ∧ d.word.toNat < c.word.toNat := by
  unfold next at h
  dsimp only at h
  split at h
  next k hk =>
    obtain ⟨-, rfl⟩ := Prod.mk.injEq .. ▸ h
    have hlt := Word.toNat_dropLowest_lt (Word.ne_zero_of_lowest? hk)
    rcases settle_eq_or_shorter c.start c.word c.rest with hsame | hshorter
    · rw [hsame] at hlt ⊢
      exact .inr ⟨rfl, hlt⟩
    · exact .inl hshorter
  next => cases h

/-- Calls a visitor with every member from the cursor on. -/
def visit {σ : Type} (visitor : σ → Nat → σ) (state : σ) (c : Cursor) : σ :=
  match _h : c.next with
  | (some i, d) => d.visit visitor (visitor state i)
  | (none, _) => state
termination_by (c.rest.length, c.word.toNat)
decreasing_by
  rcases next_shrinks _h with hrest | ⟨hrest, hword⟩
  · exact .left _ _ hrest
  · rw [hrest]
    exact .right _ hword

end Cursor

/-- The cursor before the first member. -/
def cursor (s : BitSet) : Cursor := ⟨0, s.words.toList.headD 0#64, s.words.toList.tail⟩

/-- Calls a visitor with every member. -/
def scan {σ : Type} (s : BitSet) (visitor : σ → Nat → σ) (state : σ) : σ :=
  s.cursor.visit visitor state

end BitSet

end ColumnQuery
