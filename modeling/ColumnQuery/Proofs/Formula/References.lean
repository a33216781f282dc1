/-
  What names, keys and callees stand for.

  These lookups are the parts of resolution that take no steps: they read the scope, the tables and
  the parameters, and succeed or not. Each is inverted once. A column that is read is a column of an
  input table, and may be read there (`column_eq_ok_iff`); a name is a constant of a block, a column,
  a parameter or a constant of `Math` (`identifier_cases`); a key belongs to a table, the parameters
  or `Math` (`owned_cases`). In particular names and keys become cells, constants or slots.
-/
import ColumnQuery.Formula.Resolve
import ColumnQuery.Proofs.Formula.Leaves
import ColumnQuery.Proofs.Formula.Plain

namespace ColumnQuery

/-- A cell of a column, or a constant. -/
def Formula.IsReference : Formula → Prop
  | .column _ _ | .literal _ => True
  | _ => False

namespace Resolve

variable {ctx : ResolveContext} {site : Site} {s : ResolveState} {node : Node} {e : Formula × Node}

/-! ## Columns and parameters -/

theorem column_eq_ok_iff {table : Nat} {name : String} :
    column ctx site node table name = .ok e ↔
      ∃ t c, ctx.tables[table]? = some t ∧ t.column? name = some c ∧
        (ctx.options.aggregateOnly = true → site.inOperator = true) ∧
        e = (.column table c, .column table name) := by
  unfold column
  cases htable : ctx.tables[table]? with
  | none => simp
  | some t =>
    cases hcolumn : t.column? name with
    | none => simp [hcolumn]
    | some c =>
      cases honly : ctx.options.aggregateOnly <;> cases hplace : site.inOperator <;>
        simp [hcolumn, eq_comm]

theorem parameter_eq_ok_iff {name : String} : parameter ctx node name = .ok e ↔
    ∃ v, ctx.params.get? name = some v ∧ e = (.literal v, .parameter name) := by
  unfold parameter
  cases ctx.params.get? name <;> simp [eq_comm]

theorem mathConstant_eq_ok_iff {key : String} : mathConstant node key = .ok e ↔
    ∃ v, Constants.math? key = some v ∧ e = (.literal v, node) := by
  unfold mathConstant
  cases Constants.math? key <;> simp [eq_comm]

/-- A column is read alike wherever it is read inside of an operator, or outside. -/
theorem column_spec {table : Nat} {name : String} (h : column ctx site node table name = .ok e) :
    e.2 = .column table name ∧ ∀ (other : Site) (n : Node), other.inOperator = site.inOperator →
      column ctx other n table name = .ok e := by
  obtain ⟨t, c, ht, hc, hplace, rfl⟩ := column_eq_ok_iff.1 h
  exact ⟨rfl, fun other n hother =>
    column_eq_ok_iff.2 ⟨t, c, ht, hc, fun honly => hother.trans (hplace honly), rfl⟩⟩

theorem parameter_spec {name : String} (h : parameter ctx node name = .ok e) :
    e.2 = .parameter name ∧ ∀ n : Node, parameter ctx n name = .ok e := by
  obtain ⟨v, hv, rfl⟩ := parameter_eq_ok_iff.1 h
  exact ⟨rfl, fun _ => parameter_eq_ok_iff.2 ⟨v, hv, rfl⟩⟩

/-- A constant, or a cell of an input table that may be read at a place. -/
def Cell (ctx : ResolveContext) (site : Site) : Formula → Prop
  | .column t c =>
    c.IsOf ctx.tables t ∧ (ctx.options.aggregateOnly = true → site.inOperator = true)
  | .literal _ => True
  | _ => False

theorem Cell.isReference {f : Formula} (h : Cell ctx site f) : f.IsReference := by
  cases f with
  | column _ _ | literal _ => trivial
  | _ => cases h

theorem Cell.leaves {P : Formula → Prop} {f : Formula} (h : Cell ctx site f)
    (hcolumn : ∀ t c, Cell ctx site (.column t c) → P (.column t c)) : f.Leaves P := by
  cases f with
  | column t c => exact hcolumn t c h
  | literal _ => trivial
  | _ => cases h

theorem Cell.plain {f : Formula} (h : Cell ctx site f) : f.Plain ctx.tables := by
  cases f with
  | column t c => exact h.1
  | literal _ => trivial
  | _ => cases h

theorem cell_of_column {table : Nat} {name : String}
    (h : column ctx site node table name = .ok e) : Cell ctx site e.1 := by
  obtain ⟨t, c, ht, hc, hplace, rfl⟩ := column_eq_ok_iff.1 h
  exact ⟨⟨t, ht, name, hc⟩, hplace⟩

theorem cell_of_parameter {name : String} (h : parameter ctx node name = .ok e) :
    Cell ctx site e.1 := by
  obtain ⟨v, -, rfl⟩ := parameter_eq_ok_iff.1 h
  trivial

theorem isReference_column {table : Nat} {name : String}
    (h : column ctx site node table name = .ok e) : e.1.IsReference :=
  (cell_of_column h).isReference

theorem isReference_parameter {name : String} (h : parameter ctx node name = .ok e) :
    e.1.IsReference := by
  obtain ⟨v, -, rfl⟩ := parameter_eq_ok_iff.1 h
  trivial

/-! ## Names -/

/-- A name stands for a constant of a block, or else for what the header makes of it, or for a
    numeric constant that nothing hides. -/
theorem identifier_cases {name : String} (h : identifier ctx site node name s = .ok e) :
    (∃ slot, s.local? name = some slot ∧ site.inOperator = false ∧ e = (.slot slot, node)) ∨
    s.local? name = none ∧ ((∃ table col, column ctx site node table col = .ok e) ∨
      (∃ param, parameter ctx node param = .ok e) ∨
      ∃ v, Constants.global? name = some v ∧ e = (.literal v, node)) := by
  unfold identifier at h
  split at h
  next slot hslot =>
    split at h
    next => cases h
    next hplace =>
      cases h
      exact .inl ⟨slot, hslot, Bool.eq_false_iff.2 hplace, rfl⟩
  next hlocal =>
    refine .inr ⟨hlocal, ?_⟩
    split at h
    next => exact .inl ⟨_, _, h⟩
    next => exact .inr (.inl ⟨_, h⟩)
    next =>
      split at h
      next => cases h
      next =>
        split at h
        next => cases h
        next =>
          split at h
          next v hv =>
            cases h
            exact .inr (.inr ⟨v, hv, rfl⟩)
          next => cases h

/-- A name is a constant of a block outside of operators, or a cell. -/
theorem formula_of_identifier {name : String} (h : identifier ctx site node name s = .ok e) :
    (∃ slot, s.local? name = some slot ∧ site.inOperator = false ∧ e.1 = .slot slot) ∨
      s.local? name = none ∧ Cell ctx site e.1 := by
  rcases identifier_cases h with ⟨slot, hslot, hplace, rfl⟩ | ⟨hlocal, hname⟩
  · exact .inl ⟨slot, hslot, hplace, rfl⟩
  · refine .inr ⟨hlocal, ?_⟩
    rcases hname with ⟨t, col, hcolumn⟩ | ⟨param, hparam⟩ | ⟨v, -, rfl⟩
    · exact cell_of_column hcolumn
    · exact cell_of_parameter hparam
    · trivial

/-! ## Keys -/

/-- A key belongs to a table, to the parameters or to `Math`. -/
theorem owned_cases {owner : Owner} {key : String} (h : owned ctx site node owner key = .ok e) :
    (∃ t, owner = .table t ∧ column ctx site node t key = .ok e) ∨
    (owner = .params ∧ parameter ctx node key = .ok e) ∨
    (owner = .math ∧ ∃ v, Constants.math? key = some v ∧ e = (.literal v, node)) := by
  cases owner with
  | table t => exact .inl ⟨t, rfl, h⟩
  | params => exact .inr (.inl ⟨rfl, h⟩)
  | math => exact .inr (.inr ⟨rfl, mathConstant_eq_ok_iff.1 h⟩)
  | other => cases h

theorem cell_of_owned {owner : Owner} {key : String}
    (h : owned ctx site node owner key = .ok e) : Cell ctx site e.1 := by
  rcases owned_cases h with ⟨t, -, hcolumn⟩ | ⟨-, hparam⟩ | ⟨-, v, -, rfl⟩
  · exact cell_of_column hcolumn
  · exact cell_of_parameter hparam
  · trivial

theorem isReference_owned {owner : Owner} {key : String}
    (h : owned ctx site node owner key = .ok e) : e.1.IsReference :=
  (cell_of_owned h).isReference

theorem ownerOf_eq_math {object : Node} (h : ownerOf site s object = .math) :
    object = .identifier "Math" ∧ s.isLocal "Math" = false := by
  unfold ownerOf at h
  split at h
  next name =>
    split at h
    next => cases h
    next hlocal =>
      split at h
      next => cases h
      next =>
        split at h
        next => cases h
        next =>
          split at h
          next hname => exact ⟨congrArg _ hname, hname ▸ Bool.eq_false_iff.2 hlocal⟩
          next => cases h
  next => cases h

/-! ## Equality with dictionary texts -/

/-- What becomes of an equality of a dictionary column with a text: a comparison of keys, or a
    constant if the dictionary lacks the text. -/
def TextEquality (l r f : Formula) : Prop :=
  ∃ t c s negated, (l = .column t c ∧ r = .literal (.string s) ∨
      r = .column t c ∧ l = .literal (.string s)) ∧
    ((∃ key, f = .dictionaryEq t c key negated) ∨ f = .literal (.boolean negated))

theorem dictionaryEquality?_eq_some {col lit f : Formula} {negated : Bool}
    (h : dictionaryEquality? col lit negated = some f) :
    ∃ t c s, col = .column t c ∧ lit = .literal (.string s) ∧
      ((∃ key, f = .dictionaryEq t c key negated) ∨ f = .literal (.boolean negated)) := by
  unfold dictionaryEquality? at h
  split at h
  next t c s =>
    obtain ⟨entry, -, rfl⟩ := Option.map_eq_some_iff.1 h
    refine ⟨t, c, s, rfl, rfl, ?_⟩
    cases entry with
    | present key => exact .inl ⟨key, rfl⟩
    | absent => exact .inr rfl
  next => cases h

theorem textEquality_of_eq_some {op : BinaryOp} {l r f : Formula}
    (h : (do
      let negated ← equality? op
      dictionaryEquality? l r negated <|> dictionaryEquality? r l negated) = some f) :
    TextEquality l r f := by
  obtain ⟨negated, -, hf⟩ := Option.bind_eq_some_iff.1 h
  cases hleft : dictionaryEquality? l r negated with
  | some g =>
    rw [hleft] at hf
    cases hf
    obtain ⟨t, c, s, hl, hr, hform⟩ := dictionaryEquality?_eq_some hleft
    exact ⟨t, c, s, negated, .inl ⟨hl, hr⟩, hform⟩
  | none =>
    rw [hleft] at hf
    obtain ⟨t, c, s, hr, hl, hform⟩ := dictionaryEquality?_eq_some hf
    exact ⟨t, c, s, negated, .inr ⟨hr, hl⟩, hform⟩

/-- A binary operation stays one, unless it is an equality with a text. -/
theorem binary_cases (op : BinaryOp) (l r : Formula) :
    binary op l r = .binary op l r ∨ TextEquality l r (binary op l r) := by
  unfold binary
  cases hequality : (do
    let negated ← equality? op
    dictionaryEquality? l r negated <|> dictionaryEquality? r l negated) with
  | none => exact .inl rfl
  | some f => exact .inr (textEquality_of_eq_some hequality)

theorem leaves_binary {P : Formula → Prop} {op : BinaryOp} {l r : Formula}
    (hdictionary : ∀ t c key n, P (.column t c) → P (.dictionaryEq t c key n))
    (hl : l.Leaves P) (hr : r.Leaves P) : (binary op l r).Leaves P := by
  rcases binary_cases op l r with h | ⟨t, c, s, negated, hsides, hform⟩
  · rw [h]
    exact ⟨hl, hr⟩
  · have hcol : P (.column t c) := by
      rcases hsides with ⟨rfl, -⟩ | ⟨rfl, -⟩
      · exact hl
      · exact hr
    rcases hform with ⟨key, h⟩ | h
    · rw [h]
      exact hdictionary t c key negated hcol
    · rw [h]
      trivial

/-! ## Calls -/

theorem namedCallee_eq_ok_iff {name : String} {c : Callee} :
    namedCallee node name = .ok c ↔ functionOf? name = some c := by
  unfold namedCallee
  cases functionOf? name <;> simp

theorem mathCallee_eq_ok_iff {name : String} {c : Callee} :
    mathCallee node name = .ok c ↔
      ∃ f, ScalarFunction.lookupMath? name = some f ∧ c = .scalar f := by
  unfold mathCallee
  cases ScalarFunction.lookupMath? name <;> simp [eq_comm]

/-- What is called does not depend on the arguments. -/
theorem callee_of_callee {f : Node} {c : Callee} (h : callee node f s = .ok c) (n : Node) :
    callee n f s = .ok c := by
  unfold callee at h ⊢
  split at h
  next =>
    split at h
    next => cases h
    next hlocal =>
      rw [if_neg hlocal]
      exact namedCallee_eq_ok_iff.2 (namedCallee_eq_ok_iff.1 h)
  next =>
    split at h
    next => cases h
    next hlocal =>
      rw [if_neg hlocal]
      split at h
      next hop =>
        rw [if_pos hop]
        exact namedCallee_eq_ok_iff.2 (namedCallee_eq_ok_iff.1 h)
      next hop =>
        rw [if_neg hop]
        split at h
        next hmath =>
          rw [if_pos hmath]
          exact mathCallee_eq_ok_iff.2 (mathCallee_eq_ok_iff.1 h)
        next => cases h
  next => cases h
  next => cases h
  next => cases h

/-- Aggregates go over groups where aggregates are allowed, and over frames where windows are. -/
theorem checkAggregate_eq_ok_iff {a : Aggregate} {u : Unit} :
    checkAggregate ctx site node a = .ok u ↔
      (site.frame = none ∧ ctx.options.aggregate = true) ∨
        ∃ frame, site.frame = some frame ∧ ctx.options.window = true := by
  unfold checkAggregate
  cases hframe : site.frame with
  | none => cases ctx.options.aggregate <;> simp
  | some frame => cases ctx.options.window <;> simp

theorem checkAggregate_of_checkAggregate {a : Aggregate} {u : Unit}
    (h : checkAggregate ctx site node a = .ok u) {other : Site} (hframe : other.frame = site.frame)
    (n : Node) : checkAggregate ctx other n a = .ok u := by
  rw [checkAggregate_eq_ok_iff] at h ⊢
  rw [hframe]
  exact h

/-- Operators are called outside of operators, with no more operands than they have fields and
    parameters. -/
theorem checkOperands_eq_ok_iff {name : String} {fields params actual : Nat} {u : Unit} :
    checkOperands site node name fields params actual = .ok u ↔
      site.inOperator = false ∧ fields ≤ actual ∧ actual ≤ fields + params := by
  unfold checkOperands
  constructor
  · intro h
    split at h
    next => cases h
    next hsite =>
      split at h
      next => cases h
      next harity => exact ⟨Bool.eq_false_iff.2 hsite, by omega, by omega⟩
  · rintro ⟨hsite, hleast, hmost⟩
    rw [hsite, if_neg Bool.false_ne_true, if_neg (by omega)]

end Resolve

end ColumnQuery
