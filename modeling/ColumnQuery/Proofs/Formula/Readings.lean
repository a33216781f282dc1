/-
  How expressions read a column.

  A resolved expression reads a column in three ways: its cell, and the comparison of its cell with
  a text on either side (`Reading`). Only the comparison looks at the encoding. On a dictionary it
  tests the key of the row, and is a constant if the dictionary lacks the text; as long as the words
  of a dictionary are distinct this gives what the operator gives on the cell (`eval_reading`), at
  every row, hidden behind a mask or not, and where the row is absent.

  Hence two columns are read alike wherever their cells are the same (`alike_of_cells`), however
  they are encoded. A copy of a column is read like the original one (`alike_of_take?`). Every
  dictionary that is made of texts has distinct words, and its copies keep them.
-/
import ColumnQuery.Formula.Resolve
import ColumnQuery.Proofs.Table
import Mathlib.Data.List.Nodup

namespace ColumnQuery

/-- A way in which an expression reads a column. -/
inductive Reading where
  | cell
  | compared (operator : BinaryOp) (text : String)
  | comparedFrom (text : String) (operator : BinaryOp)
deriving DecidableEq, Repr

namespace Reading

/-- The formula to which a reading resolves. -/
def formula (table : Nat) (c : Column) : Reading → Formula
  | cell => .column table c
  | compared op s => Resolve.binary op (.column table c) (.literal (.string s))
  | comparedFrom s op => Resolve.binary op (.literal (.string s)) (.column table c)

/-- What a reading makes of a cell. -/
def apply : Reading → Value → Value
  | cell, x => x
  | compared op s, x => op.apply x (.string s)
  | comparedFrom s op, x => op.apply (.string s) x

end Reading

namespace Column

/-- No word of a dictionary is there twice. -/
def DistinctWords : Column → Prop
  | dictionary words _ _ => words.toList.Nodup
  | values _ | numbers _ _ => True

/-- Two columns are read alike at two rows, of which each may be absent. -/
def Alike (c : Column) (row : Option Nat) (d : Column) (row' : Option Nat) : Prop :=
  ∀ (reading : Reading) (table : Nat) (env env' : Env), env.position.rowOf table = row →
    env'.position.rowOf table = row' → ∀ s,
      (reading.formula table c).evalWith env s = (reading.formula table d).evalWith env' s

/-! ## Equality with a text -/

/-- A cell of a text column: a text or null. -/
def IsText (x : Value) : Prop := x = .null ∨ ∃ w, x = .string w

/-- Every equality of a cell of a text column with a text asks whether it is that text. -/
theorem apply_equality {op : BinaryOp} {negated : Bool} (hop : Resolve.equality? op = some negated)
    {x : Value} (hx : IsText x) (s : String) :
    op.apply x (.string s) = .boolean ((x.string? == some s) != negated) ∧
      op.apply (.string s) x = .boolean ((x.string? == some s) != negated) := by
  rcases hx with rfl | ⟨w, rfl⟩
  · cases op <;> cases hop <;> exact ⟨rfl, rfl⟩
  · have hcomm : (s == w) = (w == s) := BEq.comm
    have hsame : ((Value.string w).string? == some s) = (w == s) := rfl
    cases op <;> cases hop <;>
      simp [BinaryOp.apply, Value.looselyEquals, Value.strictlyEquals, Value.same, hcomm, hsame]

/-- A row of a dictionary holds null, or the word of its key. -/
theorem get?_dictionary_eq_some {words : Array String} {keys : Array Nat}
    {validity : Option BitSet} {row : Nat} {x : Value}
    (h : (dictionary words keys validity).get? row = some x) :
    x = .null ∧ (dictionary words keys validity).keyAt? row = some none ∨
      ∃ key w, words[key]? = some w ∧ x = .string w ∧
        (dictionary words keys validity).keyAt? row = some (some key) := by
  obtain ⟨key, hkey, h⟩ := Option.bind_eq_some_iff.1 h
  have hkeyAt : (dictionary words keys validity).keyAt? row
      = some (if admits validity row then some key else none) := by
    show keys[row]?.map _ = _
    rw [hkey]
    rfl
  rw [hkeyAt]
  split at h
  next hadmits =>
    obtain ⟨w, hw, rfl⟩ := Option.map_eq_some_iff.1 h
    exact .inr ⟨key, w, hw, rfl, by rw [if_pos hadmits]⟩
  next hadmits =>
    cases h
    exact .inl ⟨rfl, by rw [if_neg hadmits]⟩

/-- Only a dictionary is looked into. -/
theorem isText_of_lookup {c : Column} {s : String} {entry : DictionaryEntry}
    (hentry : c.lookup (.string s) = some entry) {row : Nat} {x : Value}
    (hx : c.get? row = some x) : IsText x := by
  cases c with
  | dictionary words keys validity =>
    rcases get?_dictionary_eq_some hx with ⟨rfl, -⟩ | ⟨key, w, -, rfl, -⟩
    · exact .inl rfl
    · exact .inr ⟨w, rfl⟩
  | values _ => cases hentry
  | numbers _ _ => cases hentry

/-- The rows with the key of a text are those that hold the text. -/
theorem keyAt?_of_present {c : Column} (hc : c.DistinctWords) {s : String} {key : Nat}
    (hentry : c.lookup (.string s) = some (.present key)) {row : Nat} {x : Value}
    (hx : c.get? row = some x) : ∃ stored, c.keyAt? row = some stored ∧
      (stored == some key) = (x.string? == some s) := by
  cases c with
  | dictionary words keys validity =>
    have hkey : words.findIdx? (· == s) = some key := by
      have hmatch := Option.some.inj hentry
      split at hmatch
      next found hfound =>
        cases hmatch
        exact hfound
      next => cases hmatch
    obtain ⟨hlt, hs, -⟩ := Array.findIdx?_eq_some_iff_getElem.1 hkey
    rcases get?_dictionary_eq_some hx with ⟨rfl, hstored⟩ | ⟨k, w, hw, rfl, hstored⟩
    · exact ⟨none, hstored, rfl⟩
    · refine ⟨some k, hstored, ?_⟩
      obtain ⟨hk, hw⟩ := Array.getElem?_eq_some_iff.1 hw
      have hsame : k = key ↔ w = s := by
        constructor
        · rintro rfl
          rw [← hw]
          exact eq_of_beq hs
        · intro hws
          have hwords : words.toList[k]? = words.toList[key]? := by
            rw [Array.getElem?_toList, Array.getElem?_toList, Array.getElem?_eq_getElem hk,
              Array.getElem?_eq_getElem hlt, hw, hws, eq_of_beq hs]
          exact (List.getElem?_inj (by simpa using hk) hc).1 hwords
      show (some k == some key) = (some w == some s)
      rw [Bool.eq_iff_iff, beq_iff_eq, beq_iff_eq, Option.some.injEq, Option.some.injEq, hsame]
  | values _ => cases hentry
  | numbers _ _ => cases hentry

/-- No row holds a text that the dictionary lacks. -/
theorem ne_of_absent {c : Column} {s : String} (hentry : c.lookup (.string s) = some .absent)
    {row : Nat} {x : Value} (hx : c.get? row = some x) : (x.string? == some s) = false := by
  cases c with
  | dictionary words keys validity =>
    have hnone : words.findIdx? (· == s) = none := by
      have hmatch := Option.some.inj hentry
      split at hmatch
      next => cases hmatch
      next hfound => exact hfound
    rcases get?_dictionary_eq_some hx with ⟨rfl, -⟩ | ⟨k, w, hw, rfl, -⟩
    · rfl
    · have hne := Array.findIdx?_eq_none_iff.1 hnone w (Array.mem_of_getElem? hw)
      rw [beq_eq_false_iff_ne]
      rintro ⟨⟩
      exact Bool.false_ne_true (hne.symm.trans (beq_self_eq_true s))
  | values _ => cases hentry
  | numbers _ _ => cases hentry

end Column

/-! ## The value of a reading -/

section Values

variable {c : Column} {table : Nat} {env : Env}

/-- The rows at which a column is read: absent, or inside of it. -/
def Column.Readable (c : Column) (row : Option Nat) : Prop :=
  ∀ i ∈ row, c.DistinctWords ∧ ∃ x, c.get? i = some x

theorem evalWith_literal (v : Value) (s : Slots) :
    (Formula.literal v).evalWith env s = some (v, s) := by
  rw [Formula.evalWith]

theorem evalWith_binary (op : BinaryOp) (l r : Formula) (s : Slots) :
    (Formula.binary op l r).evalWith env s = (l.evalWith env s).bind fun a =>
      (r.evalWith env a.2).map fun b => (op.apply a.1 b.1, b.2) := by
  rw [Formula.evalWith]
  cases l.evalWith env s with
  | none => rfl
  | some a =>
    show (r.evalWith env a.2).bind _ = (r.evalWith env a.2).map _
    cases r.evalWith env a.2 <;> rfl

theorem eval_dictionaryEquality {s : String} {negated : Bool} {f : Formula}
    (hf : Resolve.dictionaryEquality? (.column table c) (.literal (.string s)) negated = some f)
    (hrow : c.Readable (env.position.rowOf table)) (slots : Slots) :
    ∃ x, (Formula.column table c).evalWith env slots = some (x, slots) ∧ Column.IsText x ∧
      f.evalWith env slots = some (.boolean ((x.string? == some s) != negated), slots) := by
  obtain ⟨entry, hentry, rfl⟩ := Option.map_eq_some_iff.1 hf
  cases hat : env.position.rowOf table with
  | none =>
    refine ⟨.null, by rw [Formula.evalWith, hat], .inl rfl, ?_⟩
    cases entry with
    | present key =>
      show (Formula.dictionaryEq table c key negated).evalWith env slots = _
      rw [Formula.evalWith, hat]
      cases negated <;> rfl
    | absent =>
      show (Formula.literal (.boolean negated)).evalWith env slots = _
      rw [evalWith_literal]
      cases negated <;> rfl
  | some row =>
    obtain ⟨hdistinct, x, hx⟩ := hrow row hat
    refine ⟨x, by simp [Formula.evalWith, hat, hx], Column.isText_of_lookup hentry hx, ?_⟩
    cases entry with
    | present key =>
      obtain ⟨stored, hstored, hsame⟩ := Column.keyAt?_of_present hdistinct hentry hx
      show (Formula.dictionaryEq table c key negated).evalWith env slots = _
      simp [Formula.evalWith, hat, hstored, hsame]
    | absent =>
      show (Formula.literal (.boolean negated)).evalWith env slots = _
      rw [evalWith_literal, Column.ne_of_absent hentry hx]
      cases negated <;> rfl

/-- A text is no column, so only a column on the left can be tested. -/
theorem binary_column_text (op : BinaryOp) (s : String) :
    Resolve.binary op (.column table c) (.literal (.string s))
      = ((Resolve.equality? op).bind fun negated => Resolve.dictionaryEquality? (.column table c)
          (.literal (.string s)) negated).getD
          (.binary op (.column table c) (.literal (.string s))) := by
  unfold Resolve.binary
  cases Resolve.equality? op with
  | none => rfl
  | some negated => exact congrArg (Option.getD · _) (orElse_failure _)

theorem binary_text_column (op : BinaryOp) (s : String) :
    Resolve.binary op (.literal (.string s)) (.column table c)
      = ((Resolve.equality? op).bind fun negated => Resolve.dictionaryEquality? (.column table c)
          (.literal (.string s)) negated).getD
          (.binary op (.literal (.string s)) (.column table c)) := rfl

/-- A comparison of a column with a text is a test of the dictionary, from whichever side, or is
    made of the cell. -/
theorem binary_column_cases (table : Nat) (c : Column) (op : BinaryOp) (s : String) :
    (∃ negated f, Resolve.equality? op = some negated ∧
      Resolve.dictionaryEquality? (.column table c) (.literal (.string s)) negated = some f ∧
      Resolve.binary op (.column table c) (.literal (.string s)) = f ∧
      Resolve.binary op (.literal (.string s)) (.column table c) = f) ∨
    Resolve.binary op (.column table c) (.literal (.string s))
        = .binary op (.column table c) (.literal (.string s)) ∧
      Resolve.binary op (.literal (.string s)) (.column table c)
        = .binary op (.literal (.string s)) (.column table c) := by
  rw [binary_column_text, binary_text_column]
  cases hop : Resolve.equality? op with
  | none => exact .inr ⟨rfl, rfl⟩
  | some negated =>
    rw [Option.bind_some]
    cases hf : Resolve.dictionaryEquality? (.column table c) (.literal (.string s)) negated with
    | none => exact .inr ⟨rfl, rfl⟩
    | some f => exact .inl ⟨negated, f, rfl, hf, rfl, rfl⟩

/-- Whatever the encoding, a reading gives what it makes of the cell. -/
theorem eval_reading (reading : Reading) (hrow : c.Readable (env.position.rowOf table))
    (slots : Slots) : (reading.formula table c).evalWith env slots
      = ((Formula.column table c).evalWith env slots).map fun r => (reading.apply r.1, r.2) := by
  have hcell : ∃ x, (Formula.column table c).evalWith env slots = some (x, slots) := by
    cases hat : env.position.rowOf table with
    | none => exact ⟨.null, by rw [Formula.evalWith, hat]⟩
    | some row =>
      obtain ⟨-, x, hx⟩ := hrow row hat
      exact ⟨x, by simp [Formula.evalWith, hat, hx]⟩
  obtain ⟨x, hx⟩ := hcell
  rw [hx]
  cases reading with
  | cell => exact hx
  | compared op s =>
    show (Resolve.binary op (.column table c) (.literal (.string s))).evalWith env slots = _
    rcases binary_column_cases table c op s with ⟨negated, f, hop, hf, heq, -⟩ | ⟨heq, -⟩
    · obtain ⟨y, hy, htext, hvalue⟩ := eval_dictionaryEquality hf hrow slots
      obtain rfl : y = x := by simpa [hx] using hy.symm
      rw [heq, hvalue]
      exact congrArg (fun v => some (v, slots)) (Column.apply_equality hop htext s).1.symm
    · rw [heq, evalWith_binary, hx, Option.bind_some, evalWith_literal]
      rfl
  | comparedFrom s op =>
    show (Resolve.binary op (.literal (.string s)) (.column table c)).evalWith env slots = _
    rcases binary_column_cases table c op s with ⟨negated, f, hop, hf, -, heq⟩ | ⟨-, heq⟩
    · obtain ⟨y, hy, htext, hvalue⟩ := eval_dictionaryEquality hf hrow slots
      obtain rfl : y = x := by simpa [hx] using hy.symm
      rw [heq, hvalue]
      exact congrArg (fun v => some (v, slots)) (Column.apply_equality hop htext s).2.symm
    · rw [heq, evalWith_binary, evalWith_literal, Option.bind_some, hx]
      rfl

end Values

/-! ## Columns that are read alike -/

namespace Column

variable {c d : Column} {row row' : Option Nat}

/-- Columns with the same cell are read alike there, however they are encoded. -/
theorem alike_of_cells (hc : c.Readable row) (hd : d.Readable row')
    (h : Option.Rel (fun i j => c.get? i = d.get? j) row row') : c.Alike row d row' := by
  rintro reading table env env' rfl rfl s
  rw [eval_reading reading hc, eval_reading reading hd, Formula.evalWith, Formula.evalWith]
  generalize env.position.rowOf table = row, env'.position.rowOf table = row' at h
  cases h with
  | none => rfl
  | some h =>
    dsimp only
    rw [h]

/-- All columns are read alike where the row is absent. -/
theorem alike_none (c d : Column) : c.Alike none d none :=
  alike_of_cells nofun nofun .none

section Keys

variable {table i j : Nat} {env env' : Env} {s : Slots}

/-- Both columns have a dictionary or neither has one, and tests of the same text with dictionaries
    of the same words have one value. -/
theorem test_cases (hrow : env.position.rowOf table = some i)
    (hrow' : env'.position.rowOf table = some j) (hkey : c.keyAt? i = d.keyAt? j)
    (hlookup : ∀ s, c.lookup (.string s) = d.lookup (.string s)) (text : String) (negated : Bool) :
    (Resolve.dictionaryEquality? (.column table c) (.literal (.string text)) negated = none ∧
      Resolve.dictionaryEquality? (.column table d) (.literal (.string text)) negated = none) ∨
    ∃ f g, Resolve.dictionaryEquality? (.column table c) (.literal (.string text)) negated
        = some f ∧
      Resolve.dictionaryEquality? (.column table d) (.literal (.string text)) negated = some g ∧
      f.evalWith env s = g.evalWith env' s := by
  unfold Resolve.dictionaryEquality?
  dsimp only
  rw [hlookup]
  cases d.lookup (.string text) with
  | none => exact .inl ⟨rfl, rfl⟩
  | some entry =>
    refine .inr ⟨_, _, rfl, rfl, ?_⟩
    cases entry with
    | present key =>
      show (Formula.dictionaryEq table c key negated).evalWith env s
        = (Formula.dictionaryEq table d key negated).evalWith env' s
      rw [Formula.evalWith, Formula.evalWith, hrow, hrow']
      dsimp only
      rw [hkey]
    | absent =>
      show (Formula.literal (.boolean negated)).evalWith env s
        = (Formula.literal (.boolean negated)).evalWith env' s
      rw [evalWith_literal, evalWith_literal]

/-- A comparison with a text has one value over both columns, if the comparisons of the cells
    have. -/
theorem tested_eq (hrow : env.position.rowOf table = some i)
    (hrow' : env'.position.rowOf table = some j) (hkey : c.keyAt? i = d.keyAt? j)
    (hlookup : ∀ s, c.lookup (.string s) = d.lookup (.string s)) (op : BinaryOp) (text : String)
    {plain plain' : Formula} (hplain : plain.evalWith env s = plain'.evalWith env' s) :
    (((Resolve.equality? op).bind fun negated => Resolve.dictionaryEquality? (.column table c)
        (.literal (.string text)) negated).getD plain).evalWith env s
      = (((Resolve.equality? op).bind fun negated => Resolve.dictionaryEquality? (.column table d)
        (.literal (.string text)) negated).getD plain').evalWith env' s := by
  cases Resolve.equality? op with
  | none => exact hplain
  | some negated =>
    rw [Option.bind_some, Option.bind_some]
    rcases test_cases hrow hrow' hkey hlookup text negated with ⟨hf, hg⟩ | ⟨f, g, hf, hg, hsame⟩
    · rw [hf, hg]
      exact hplain
    · rw [hf, hg]
      exact hsame

end Keys

/-- Rows with the same cell and the same key are read alike, if both dictionaries have the same
    words. -/
theorem alike_of_keys {i j : Nat} (hget : c.get? i = d.get? j) (hkey : c.keyAt? i = d.keyAt? j)
    (hlookup : ∀ s, c.lookup (.string s) = d.lookup (.string s)) :
    c.Alike (some i) d (some j) := by
  intro reading table env env' hrow hrow' s
  have hcell : (Formula.column table c).evalWith env s
      = (Formula.column table d).evalWith env' s := by
    rw [Formula.evalWith, Formula.evalWith, hrow, hrow']
    dsimp only
    rw [hget]
  cases reading with
  | cell => exact hcell
  | compared op text =>
    show (Resolve.binary op (.column table c) (.literal (.string text))).evalWith env s
      = (Resolve.binary op (.column table d) (.literal (.string text))).evalWith env' s
    rw [binary_column_text, binary_column_text]
    refine tested_eq hrow hrow' hkey hlookup op text ?_
    rw [evalWith_binary, evalWith_binary, hcell]
    simp only [evalWith_literal]
  | comparedFrom text op =>
    show (Resolve.binary op (.literal (.string text)) (.column table c)).evalWith env s
      = (Resolve.binary op (.literal (.string text)) (.column table d)).evalWith env' s
    rw [binary_text_column, binary_text_column]
    refine tested_eq hrow hrow' hkey hlookup op text ?_
    rw [evalWith_binary, evalWith_binary, evalWith_literal, evalWith_literal, Option.bind_some,
      Option.bind_some, hcell]

/-- A copied row is read like the row that it was copied from. -/
theorem alike_of_take? {rows : List Nat} (h : c.take? rows = some d) {i row : Nat}
    (hi : rows[i]? = some row) : c.Alike (some row) d (some i) :=
  alike_of_keys (by rw [get?_take? h, hi, Option.bind_some]) (keyAt?_take? h hi).symm
    fun _ => (lookup_take? h _).symm

/-- A column is read like itself. -/
theorem alike_refl (c : Column) (row : Option Nat) : c.Alike row c row := by
  cases row with
  | none => exact alike_none c c
  | some i => exact alike_of_keys rfl rfl fun _ => rfl

/-! ## Dictionaries with distinct words -/

theorem nodup_intern {words : Array String} (h : words.toList.Nodup) (s : String) :
    (intern words s).1.toList.Nodup := by
  unfold intern
  split
  next => exact h
  next hnone =>
    rw [Array.toList_push]
    refine List.nodup_append.2 ⟨h, List.nodup_singleton s, ?_⟩
    rintro w hw t ht rfl
    obtain rfl := List.mem_singleton.1 ht
    have hne := Array.findIdx?_eq_none_iff.1 hnone w (Array.mem_toList_iff.1 hw)
    exact Bool.false_ne_true (hne.symm.trans (beq_self_eq_true w))

theorem nodup_encodeFrom {words : Array String} (h : words.toList.Nodup)
    (rows : List (Option String)) : (encodeFrom words rows).1.toList.Nodup := by
  induction rows generalizing words with
  | nil => exact h
  | cons row rest ih =>
    cases row with
    | none => exact ih h
    | some s => exact ih (nodup_intern h s)

/-- Encoding texts gives every text one word. -/
theorem distinctWords_ofTextOptions (rows : List (Option String)) :
    (ofTextOptions rows).DistinctWords :=
  nodup_encodeFrom List.nodup_nil rows

/-- A copy keeps the words. -/
theorem DistinctWords.of_take? (hc : c.DistinctWords) {rows : List Nat}
    (h : c.take? rows = some d) : d.DistinctWords := by
  cases c with
  | values cells =>
    obtain ⟨vs, -, rfl⟩ := Option.map_eq_some_iff.1 h
    trivial
  | numbers entries validity =>
    obtain ⟨xs, -, rfl⟩ := Option.map_eq_some_iff.1 h
    trivial
  | dictionary words keys validity =>
    obtain ⟨taken, -, h⟩ := Option.bind_eq_some_iff.1 h
    obtain rfl := Option.some.inj h
    exact hc

end Column

end ColumnQuery
