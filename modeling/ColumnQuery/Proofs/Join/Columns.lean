/-
  The columns of a join.

  A join that does not compute its columns chooses columns of both tables, or ones that come once
  for both (`JoinColumn`), and gives each a name. The columns are set one after the other, so the
  table has each of the names once, in the order in which they first come up, and holds under it
  the values of the last column that was given the name (`join_columns`).

  Nothing is lost exactly if no two chosen columns are given the same name, and then each has its
  values under its own name. A suffix alone does not see to that: `x` with the suffix `_1` is
  written over by a column that is called `x_1` (`join_columns_suffixed`).
-/
import ColumnQuery.Proofs.Formula.Roots
import ColumnQuery.Proofs.Join.Completion
import Mathlib.Data.Finset.Card

namespace ColumnQuery

/-! ## Chosen columns and their names -/

/-- A column that a join chooses: one of the left or the right table, or one that comes once for
    both. -/
inductive JoinColumn where
  | left (name : String)
  | right (name : String)
  | merged (name : String)
deriving DecidableEq, Repr

/-- The cell of a named column at a row; null where the row is absent. -/
def Table.valueIn? (t : Table) (name : String) : Option Nat → Option Value
  | some row => t.valueAt? name row
  | none => some .null

namespace JoinColumn

/-- The value at a pair of rows: of a merged column the left one, or the right one if that is
    null. -/
def valueAt? (left right : Table) (p : Option Nat × Option Nat) : JoinColumn → Option Value
  | .left name => left.valueIn? name p.1
  | .right name => right.valueIn? name p.2
  | .merged name => do
    let x ← left.valueIn? name p.1
    if x.isNull then right.valueIn? name p.2 else return x

/-- The column as an expression over both tables. -/
def node : JoinColumn → Node
  | .left name => .column 0 name
  | .right name => .column 1 name
  | .merged name => .logical .nullish (.column 0 name) (.column 1 name)

/-- The tables have the column. -/
def IsIn (left right : Table) : JoinColumn → Prop
  | .left name => (left.column? name).isSome
  | .right name => (right.column? name).isSome
  | .merged name => (left.column? name).isSome ∧ (right.column? name).isSome

end JoinColumn

namespace JoinSchema

variable {left right : Table}

/-- The columns that a join chooses, the left ones first. -/
def chosen (s : JoinSchema) : List JoinColumn :=
  (s.left.map fun n => if s.merged.contains n then .merged n else .left n) ++ s.right.map .right

/-- The name of a chosen column in the join. -/
def nameOf (s : JoinSchema) (o : JoinOptions) : JoinColumn → String
  | .left n | .merged n => s.leftName o.leftSuffix n
  | .right n => s.rightName o.rightSuffix n

/-- The last chosen column that is given a name. -/
def lastChosen? (s : JoinSchema) (o : JoinOptions) (name : String) : Option JoinColumn :=
  s.chosen.reverse.find? (s.nameOf o · == name)

theorem exprs_eq_map (s : JoinSchema) (o : JoinOptions) :
    s.exprs o = s.chosen.map fun c => (s.nameOf o c, .tree c.node) := by
  unfold exprs chosen
  rw [List.map_append, List.map_map, List.map_map]
  congr 1
  refine List.map_congr_left fun n _ => ?_
  rw [Function.comp_apply, leftNode]
  split <;> rfl

theorem missing?_eq_none_iff {s : JoinSchema} : s.missing? left right = none ↔
    (∀ n ∈ s.left, (left.column? n).isSome) ∧ ∀ n ∈ s.right, (right.column? n).isSome := by
  unfold missing?
  rw [Option.orElse_eq_orElse, Option.orElse_eq_or, Option.or_eq_none_iff, List.find?_eq_none,
    List.find?_eq_none]
  simp [Option.isSome_iff_ne_none]

/-- The columns chosen are in their tables if no name is missing and those that come once for
    both are in the right table. -/
theorem isIn_of_mem_chosen {s : JoinSchema} (hmissing : s.missing? left right = none)
    (hmerged : ∀ n ∈ s.merged, (right.column? n).isSome) :
    ∀ c ∈ s.chosen, c.IsIn left right := by
  obtain ⟨hleft, hright⟩ := missing?_eq_none_iff.1 hmissing
  intro c hc
  rcases List.mem_append.1 hc with hc | hc
  · obtain ⟨n, hn, rfl⟩ := List.mem_map.1 hc
    split
    next h => exact ⟨hleft n hn, hmerged n (List.contains_iff_mem.1 h)⟩
    next => exact hleft n hn
  · obtain ⟨n, hn, rfl⟩ := List.mem_map.1 hc
    exact hright n hn

end JoinSchema

/-- The columns that a join chooses, unless it computes them. -/
def JoinColumns.schema? (c : JoinColumns) (left right : Table) (shared : List String) :
    Option JoinSchema :=
  match c with
  | all => some (.ofTables left right shared)
  | selected l r => some ⟨l, r, []⟩
  | computed _ => none

theorem JoinColumns.exprs_of_schema {c : JoinColumns} {left right : Table} {shared : List String}
    {s : JoinSchema} (h : c.schema? left right shared = some s) (o : JoinOptions) :
    c.exprs left right shared o = s.checkedExprs left right o := by
  cases c with
  | all =>
    cases h
    rfl
  | selected l r =>
    cases h
    rfl
  | computed exprs => cases h

/-- The columns that matching rows agree in are in both tables. -/
theorem Matcher.isSome_of_mem_shared {v w : View} {condition : JoinCondition} {m : Matcher}
    (h : resolveCondition v w condition = .ok m) :
    ∀ n ∈ m.shared, (w.data.column? n).isSome := by
  have hshared : ∀ {names : List String}, ofColumns v w names = .ok m → m.shared = names := by
    intro names h
    obtain ⟨_, -, h⟩ := bind_eq_ok h
    obtain ⟨_, -, h⟩ := bind_eq_ok h
    obtain rfl := Except.ok.inj h
    rfl
  cases condition with
  | shared =>
    rw [resolveCondition] at h
    split at h
    next => cases h
    next =>
      intro n hn
      rw [hshared h] at hn
      exact (List.mem_filter.1 hn).2
  | columns names =>
    rw [resolveCondition] at h
    split at h
    next => cases h
    next hfind =>
      intro n hn
      rw [hshared h] at hn
      have hboth := List.find?_eq_none.1 hfind n hn
      simp only [Bool.or_eq_true, not_or, Option.isNone_iff_eq_none] at hboth
      exact Option.isSome_iff_ne_none.2 hboth.2
  | keys leftKeys rightKeys =>
    rw [resolveCondition] at h
    split at h
    next => cases h
    next =>
      obtain ⟨_, -, h⟩ := bind_eq_ok h
      obtain ⟨_, -, h⟩ := bind_eq_ok h
      obtain rfl := Except.ok.inj h
      exact fun n hn => absurd hn List.not_mem_nil
  | predicate e =>
    obtain ⟨_, -, h⟩ := bind_eq_ok h
    split at h
    next =>
      obtain rfl := Except.ok.inj h
      exact fun n hn => absurd hn List.not_mem_nil
    next => cases h

/-- The columns that come once for both tables are in the right one. -/
theorem JoinColumns.isSome_of_mem_merged {v w : View} {condition : JoinCondition} {m : Matcher}
    (hm : Matcher.resolveCondition v w condition = .ok m) {columns : JoinColumns} {s : JoinSchema}
    (hs : columns.schema? v.data w.data m.shared = some s) :
    ∀ n ∈ s.merged, (w.data.column? n).isSome := by
  cases columns with
  | all =>
    cases hs
    exact Matcher.isSome_of_mem_shared hm
  | selected l r =>
    cases hs
    exact fun n hn => nomatch hn
  | computed exprs => cases hs

/-! ## The columns as formulas -/

namespace JoinColumn

variable {left right : Table}

/-- A formula with the values of a chosen column. -/
def HasValues (left right : Table) (c : JoinColumn) (f : Formula) : Prop :=
  ∀ p : Option Nat × Option Nat,
    f.eval (.ofPosition ⟨p.1, p.2⟩) = c.valueAt? left right p

theorem evalWith_column (p : Position) {t : Table} {name : String} {c : Column}
    (hc : t.column? name = some c) (table : Nat) (s : Slots) :
    (Formula.column table c).evalWith (.ofPosition p) s
      = (t.valueIn? name (p.rowOf table)).map (·, s) := by
  rw [Formula.evalWith]
  show (match p.rowOf table with
    | some row => (c.get? row).map (·, s)
    | none => some (Value.null, s)) = _
  cases p.rowOf table with
  | none => rfl
  | some row =>
    show _ = ((t.column? name).bind (·.get? row)).map _
    rw [hc]
    rfl

theorem eval_column (p : Position) {t : Table} {name : String} {c : Column}
    (hc : t.column? name = some c) (table : Nat) :
    (Formula.column table c).eval (.ofPosition p) = t.valueIn? name (p.rowOf table) := by
  rw [Formula.eval, evalWith_column p hc, Option.map_map]
  exact Option.map_id'

/-- The first of two cells that is not null. -/
theorem eval_nullish (p : Position) {t u : Table} {name : String} {c d : Column}
    (hc : t.column? name = some c) (hd : u.column? name = some d) :
    (Formula.logical .nullish (.column 0 c) (.column 1 d)).eval (.ofPosition p)
      = (JoinColumn.merged name).valueAt? t u (p.left, p.right) := by
  rw [Formula.eval, Formula.evalWith, evalWith_column p hc]
  show (((t.valueIn? name p.left).map (·, #[])).bind _).map _ = (t.valueIn? name p.left).bind _
  cases t.valueIn? name p.left with
  | none => rfl
  | some x =>
    show (if (!x.isNull) = true then some (x, #[])
      else (Formula.column 1 d).evalWith (.ofPosition p) #[]).map (·.1)
      = if x.isNull = true then u.valueIn? name p.right else some x
    cases x.isNull with
    | false => rfl
    | true => exact eval_column p hd 1

/-- A chosen column resolves to a formula with its values. -/
theorem exists_run_spec (ctx : ResolveContext) (htables : ctx.tables = [left, right])
    (honly : ctx.options.aggregateOnly = false) {c : JoinColumn} (hc : c.IsIn left right)
    (s : ResolveState) : ∃ r s', (Resolve.spec ctx none (.tree c.node)).run s = .ok (r, s') ∧
      HasValues left right c r.1 := by
  have hplaced : (ExprSpec.tree c.node).placed? ctx.tables.length none
      = some (⟨Scope.standard ctx.tables.length, none, false⟩, c.node) := by
    cases c <;> rfl
  have hspec : ∀ {f : Formula}, Resolve.Derives ctx ⟨Scope.standard ctx.tables.length, none, false⟩
      s.restart (.expression c.node (f, c.node)) s.restart →
      ∃ tree, (Resolve.spec ctx none (.tree c.node)).run s = .ok ((f, tree), s.restart) :=
    fun h => (Resolve.run_spec_iff_body hplaced).2 ⟨c.node, h.bodyExpression.runs⟩
  have hcolumn : ∀ {site : Site} {table : Nat} {t : Table} {n : String} {c : Column},
      [left, right][table]? = some t → t.column? n = some c → Resolve.Derives ctx site s.restart
        (.expression (.column table n) (.column table c, .column table n)) s.restart :=
    fun ht hc => .column (Resolve.column_eq_ok_iff.2 ⟨_, _, htables ▸ ht, hc,
      fun h => absurd h (Bool.eq_false_iff.1 honly), rfl⟩)
  cases c with
  | left n =>
    obtain ⟨c, hc⟩ := Option.isSome_iff_exists.1 hc
    obtain ⟨tree, hrun⟩ := hspec (hcolumn rfl hc)
    exact ⟨_, _, hrun, fun p => eval_column ⟨p.1, p.2⟩ hc 0⟩
  | right n =>
    obtain ⟨c, hc⟩ := Option.isSome_iff_exists.1 hc
    obtain ⟨tree, hrun⟩ := hspec (hcolumn rfl hc)
    exact ⟨_, _, hrun, fun p => eval_column ⟨p.1, p.2⟩ hc 1⟩
  | merged n =>
    obtain ⟨⟨c, hc⟩, d, hd⟩ := And.imp Option.isSome_iff_exists.1 Option.isSome_iff_exists.1 hc
    obtain ⟨tree, hrun⟩ := hspec (.logical (hcolumn rfl hc) (hcolumn rfl hd))
    exact ⟨_, _, hrun, fun p => eval_nullish ⟨p.1, p.2⟩ hc hd⟩

/-- Chosen columns resolve together, each to a formula with its values. -/
theorem exists_resolvePair {v w : View} (name : JoinColumn → String) (columns : List JoinColumn)
    (h : ∀ c ∈ columns, c.IsIn v.data w.data) :
    ∃ r, Matcher.resolvePair v w (columns.map fun c => (name c, .tree c.node)) = .ok r ∧
      List.Forall₂ (fun c (e : NamedFormula) => e.name = name c ∧
        HasValues v.data w.data c e.formula) columns r.exprs := by
  have hnamed : ∀ (columns : List JoinColumn), (∀ c ∈ columns, c.IsIn v.data w.data) →
      ∀ s : ResolveState, ∃ es s', (Resolve.named ⟨[v.data, w.data], v.params, .joined⟩
        (columns.map fun c => (name c, .tree c.node))).run s = .ok (es, s') ∧
        List.Forall₂ (fun c (e : NamedFormula) => e.name = name c ∧
          HasValues v.data w.data c e.formula) columns es := by
    intro columns
    induction columns with
    | nil => exact fun _ s => ⟨[], s, rfl, .nil⟩
    | cons c columns ih =>
      intro h s
      obtain ⟨hc, hrest⟩ := List.forall_mem_cons.1 h
      obtain ⟨r, s₁, hr, hvalues⟩ := exists_run_spec ⟨_, v.params, .joined⟩ rfl rfl hc s
      obtain ⟨es, s₂, hes, hmore⟩ := ih hrest s₁
      exact ⟨⟨name c, r.1, r.2⟩ :: es, s₂, Resolve.run_named_cons.2 ⟨r, s₁, es, hr, hes, rfl⟩,
        .cons ⟨rfl, hvalues⟩ hmore⟩
  obtain ⟨es, s, hrun, hes⟩ := hnamed columns h .empty
  exact ⟨_, resolve_eq_ok_iff.2 ⟨es, s, hrun, rfl⟩, hes⟩

end JoinColumn

/-! ## The names of the table -/

/-- Of columns set one after the other, each name comes once, in the order in which the names
    come up first. -/
theorem names_of_foldlM_setCells {cells : NamedFormula → Option (List Value)}
    (es : List NamedFormula) {t u : Table} (h : es.foldlM (setCells cells) t = .ok u) :
    u.names = t.names ++ ((es.map (·.name)).filter (· ∉ t.names)).eraseDups := by
  induction es generalizing t with
  | nil =>
    cases h
    simp
  | cons e es ih =>
    rw [List.foldlM_cons] at h
    obtain ⟨next, hset, h⟩ := bind_eq_ok h
    obtain ⟨values, -, hset⟩ := bind_eq_ok hset
    have hnext := Table.names_of_set (QueryError.ofTable_eq_ok hset)
    rw [ih h, hnext, List.map_cons, List.filter_cons]
    by_cases hold : e.name ∈ t.names
    · simp [hold]
    · simp only [hold, if_false, not_false_eq_true, decide_true, if_true, List.eraseDups_cons,
        List.filter_filter, List.append_assoc, List.singleton_append, List.mem_append,
        List.mem_singleton]
      congr 3
      refine List.filter_congr fun name _ => ?_
      rw [Bool.eq_iff_iff]
      simp
      tauto

theorem View.names_of_join {v w joined : View} {condition : JoinCondition} {columns : JoinColumns}
    {o : JoinOptions} {m : Matcher} {exprs : List (String × ExprSpec)} {r : Resolution}
    (hm : Matcher.resolveCondition v w condition = .ok m)
    (hcolumns : columns.exprs v.data w.data m.shared o = .ok exprs)
    (hr : Matcher.resolvePair v w exprs = .ok r) (h : v.join w condition columns o = .ok joined) :
    joined.data.names = (exprs.map (·.1)).eraseDups := by
  obtain ⟨m', hm', h⟩ := bind_eq_ok h
  obtain rfl := Except.ok.inj (hm.symm.trans hm')
  obtain ⟨exprs', hcolumns', h⟩ := bind_eq_ok h
  obtain rfl := Except.ok.inj (hcolumns.symm.trans hcolumns')
  obtain ⟨r', hr', h⟩ := bind_eq_ok h
  obtain rfl := Except.ok.inj (hr.symm.trans hr')
  obtain ⟨found, -, h⟩ := bind_eq_ok h
  obtain ⟨t, ht, h⟩ := bind_eq_ok h
  obtain rfl := Except.ok.inj h
  rw [setPairColumn_eq] at ht
  show t.names = _
  rw [names_of_foldlM_setCells r.exprs ht, ← names_of_resolve hr]
  simp [Table.names, Table.withRows]

/-- A well-formed table has a cell in each of its columns at each of its rows. -/
theorem Table.WellFormed.exists_valueAt? {t : Table} (ht : t.WellFormed) {name : String}
    (hname : name ∈ t.names) {row : Nat} (hrow : row < t.rowCount) :
    ∃ x, t.valueAt? name row = some x := by
  cases hc : t.column? name with
  | none => exact absurd hname (Table.column?_eq_none_iff.1 hc)
  | some c =>
    obtain ⟨hwf, hlength⟩ := ht.column hc
    obtain ⟨x, hx⟩ := hwf row (hlength ▸ hrow)
    exact ⟨x, by rw [valueAt?, hc]; exact hx⟩

/-! ## The columns of the table -/

/-- Of columns and expressions in step, the last ones of a name belong together. -/
theorem rel_lastNamed? {left right : Table} {name : JoinColumn → String}
    {columns : List JoinColumn} {es : List NamedFormula}
    (h : List.Forall₂ (fun c (e : NamedFormula) => e.name = name c ∧
      JoinColumn.HasValues left right c e.formula) columns es) (n : String) :
    Option.Rel (fun c (e : NamedFormula) => JoinColumn.HasValues left right c e.formula)
      (columns.reverse.find? (name · == n)) (lastNamed? es n) := by
  induction h with
  | nil => exact .none
  | @cons c e columns es hce _ ih =>
    rw [lastNamed?_cons, List.reverse_cons, List.find?_append, List.find?_singleton, hce.1]
    generalize columns.reverse.find? (name · == n) = last, lastNamed? es n = last' at ih
    cases ih with
    | some h => exact .some h
    | none =>
      rw [Option.none_or, Option.none_or]
      split
      · exact .some hce.2
      · exact .none

/-- The last formula of a name has the values of the last column that is given the name. -/
theorem JoinSchema.eval_lastNamed? {left right : Table} {s : JoinSchema} {o : JoinOptions}
    {es : List NamedFormula}
    (h : List.Forall₂ (fun c (e : NamedFormula) => e.name = s.nameOf o c ∧
      JoinColumn.HasValues left right c e.formula) s.chosen es)
    (name : String) (p : Option Nat × Option Nat) :
    ((lastNamed? es name).bind fun e => e.formula.eval (.ofPosition ⟨p.1, p.2⟩))
      = (s.lastChosen? o name).bind (·.valueAt? left right p) := by
  have hlast := rel_lastNamed? h name
  unfold lastChosen?
  generalize s.chosen.reverse.find? (s.nameOf o · == name) = last,
    lastNamed? es name = last' at hlast
  cases hlast with
  | some h => exact h p
  | none => rfl

/-- The names of a table are as many as chosen columns exactly if no two columns are given the
    same name. -/
theorem JoinSchema.length_names_iff (s : JoinSchema) (o : JoinOptions) {names : List String}
    (hnodup : names.Nodup) (hnames : names = (s.chosen.map (s.nameOf o)).eraseDups) :
    names.length = s.chosen.toFinset.card ↔
      ∀ c ∈ s.chosen, ∀ d ∈ s.chosen, s.nameOf o c = s.nameOf o d → c = d := by
  have himage : names.toFinset = s.chosen.toFinset.image (s.nameOf o) := by
    ext n
    rw [List.mem_toFinset, hnames, List.mem_eraseDups, Finset.mem_image]
    simp
  rw [← List.toFinset_card_of_nodup hnodup, himage, Finset.card_image_iff]
  simp only [Set.InjOn, Finset.mem_coe, List.mem_toFinset]

/-- With different names for different columns, the last column of a name is the only one. -/
theorem JoinSchema.lastChosen?_nameOf {s : JoinSchema} {o : JoinOptions}
    (h : ∀ c ∈ s.chosen, ∀ d ∈ s.chosen, s.nameOf o c = s.nameOf o d → c = d) {c : JoinColumn}
    (hc : c ∈ s.chosen) : s.lastChosen? o (s.nameOf o c) = some c := by
  cases hlast : s.lastChosen? o (s.nameOf o c) with
  | none =>
    exact absurd (beq_self_eq_true _) (List.find?_eq_none.1 hlast c (List.mem_reverse.2 hc))
  | some d =>
    have hd := List.mem_reverse.1 (List.mem_of_find?_eq_some hlast)
    have hname := List.find?_some hlast
    rw [h d hd c hc (beq_iff_eq.1 hname)]

/-- The columns that a join chooses, and what becomes of them. A name that a table lacks is an
    error; otherwise the join succeeds, whatever the names are. Its table has every name once, in
    the order in which they first come up, and holds under it the values of the last column that
    was given the name. So there is a column for every chosen one exactly if different columns have
    different names, and then each holds its own values. -/
theorem join_columns {v w : View} (hv : Reachable v) (hw : Reachable w) {condition : JoinCondition}
    (hanswers : condition.Answers v w) {m : Matcher}
    (hm : Matcher.resolveCondition v w condition = .ok m) {columns : JoinColumns}
    {s : JoinSchema} (hs : columns.schema? v.data w.data m.shared = some s) (o : JoinOptions) :
    (∀ n, s.missing? v.data w.data = some n →
      v.join w condition columns o = .error (.unknownColumn n)) ∧
    (s.missing? v.data w.data = none → ∃ found joined, Matches.find? v w m = some found ∧
      v.join w condition columns o = .ok joined ∧
      joined.totalRows = (found.outputRows o.keepLeft o.keepRight).length ∧
      joined.data.names = (s.chosen.map (s.nameOf o)).eraseDups ∧ joined.data.names.Nodup ∧
      (∀ i p, (found.outputRows o.keepLeft o.keepRight)[i]? = some p → ∀ name,
        joined.data.valueAt? name i
          = (s.lastChosen? o name).bind (·.valueAt? v.data w.data p)) ∧
      (joined.data.names.length = s.chosen.toFinset.card ↔
        ∀ c ∈ s.chosen, ∀ d ∈ s.chosen, s.nameOf o c = s.nameOf o d → c = d) ∧
      ((∀ c ∈ s.chosen, ∀ d ∈ s.chosen, s.nameOf o c = s.nameOf o d → c = d) →
        ∀ c ∈ s.chosen, ∀ i p, (found.outputRows o.keepLeft o.keepRight)[i]? = some p →
          ∃ x, c.valueAt? v.data w.data p = some x ∧
            joined.data.valueAt? (s.nameOf o c) i = some x)) := by
  constructor
  · intro n hmissing
    unfold View.join
    rw [hm]
    show (columns.exprs v.data w.data m.shared o >>= _) = _
    rw [JoinColumns.exprs_of_schema hs, JoinSchema.checkedExprs, hmissing]
    rfl
  intro hmissing
  have hexprs : columns.exprs v.data w.data m.shared o
      = .ok (s.chosen.map fun c => (s.nameOf o c, .tree c.node)) := by
    rw [JoinColumns.exprs_of_schema hs, JoinSchema.checkedExprs, hmissing]
    exact congrArg Except.ok (s.exprs_eq_map o)
  obtain ⟨r, hr, hvalues⟩ := JoinColumn.exists_resolvePair (s.nameOf o) s.chosen
    (JoinSchema.isIn_of_mem_chosen hmissing (JoinColumns.isSome_of_mem_merged hm hs))
  have hanswer : ∀ e ∈ s.chosen.map fun c => (s.nameOf o c, ExprSpec.tree c.node),
      e.2.Answers [v.data, w.data] v.params := by
    intro e he
    obtain ⟨c, -, rfl⟩ := List.mem_map.1 he
    trivial
  obtain ⟨key, hv⟩ := hv
  obtain ⟨key', hw⟩ := hw
  have hv := sound_of_reachable hv
  have hw := sound_of_reachable hw
  obtain ⟨found, hfound, hleft, hright, hpairs⟩ := Matches.exists_find? hv hw
    (Matcher.answers_of_resolveCondition hv hw hanswers hm).1
  obtain ⟨joined, hjoined, hcount, hcells⟩ :=
    hv.join_spec hw hm hexprs hanswer hr hfound hleft hright hpairs
  have hcell : ∀ i p, (found.outputRows o.keepLeft o.keepRight)[i]? = some p → ∀ name,
      joined.data.valueAt? name i
        = (s.lastChosen? o name).bind (·.valueAt? v.data w.data p) := by
    intro i p hp name
    rw [hcells i p hp name]
    exact JoinSchema.eval_lastNamed? hvalues name p
  have hnames : joined.data.names = (s.chosen.map (s.nameOf o)).eraseDups := by
    rw [View.names_of_join hm hexprs hr hjoined, List.map_map]
    rfl
  have hwf : joined.data.WellFormed := (View.sound_of_join (fun _ => none) hjoined).table
  refine ⟨found, joined, hfound, hjoined, hcount, hnames, hwf.nodup_names, hcell,
    s.length_names_iff o hwf.nodup_names hnames, fun hdiffer c hc i p hp => ?_⟩
  have hname : s.nameOf o c ∈ joined.data.names := by
    rw [hnames, List.mem_eraseDups]
    exact List.mem_map_of_mem hc
  have hrow : i < joined.data.rowCount := by
    show i < joined.totalRows
    rw [hcount]
    exact (List.getElem?_eq_some_iff.1 hp).1
  obtain ⟨x, hx⟩ := hwf.exists_valueAt? hname hrow
  refine ⟨x, ?_, hx⟩
  rw [hcell i p hp, JoinSchema.lastChosen?_nameOf hdiffer hc] at hx
  exact hx

/-- Two columns, of which the second has the name that a suffix gives to the first one. -/
def suffixed : Table := ⟨[("x", .ofValues [.number 1.0]), ("x_1", .ofValues [.number 2.0])], 1⟩

theorem suffixed_wellFormed : suffixed.WellFormed :=
  Table.wellFormed_ofValues [("x", [.number 1.0]), ("x_1", [.number 2.0])] rfl

/-- One column of one row. -/
def unsuffixed : Table := ⟨[("x", .ofValues [.number 3.0])], 1⟩

theorem unsuffixed_wellFormed : unsuffixed.WellFormed :=
  Table.wellFormed_ofValues [("x", [.number 3.0])] rfl

/-- The first column on the left is lost: of three columns chosen two are there, and under the
    name of the first stands the value of the second. -/
theorem join_columns_suffixed : ∃ joined,
    (View.ofTable suffixed).join (.ofTable unsuffixed) (.predicate (.value (.boolean true))) .all
      .inner = .ok joined ∧
    joined.data.names = ["x_1", "x_2"] ∧ joined.totalRows = 1 ∧
    joined.data.valueAt? "x_1" 0 = some (.number 2.0) ∧
    joined.data.valueAt? "x_2" 0 = some (.number 3.0) := by
  obtain ⟨m, hm⟩ : ∃ m, Matcher.resolveCondition (.ofTable suffixed) (.ofTable unsuffixed)
      (.predicate (.value (.boolean true))) = .ok m := ⟨_, rfl⟩
  obtain ⟨-, h⟩ := join_columns ⟨_, .table suffixed_wellFormed⟩ ⟨_, .table unsuffixed_wellFormed⟩
    (show JoinCondition.Answers _ _ (.predicate (.value (.boolean true))) from trivial) hm
    (show JoinColumns.schema? .all _ _ _ = some _ from rfl) .inner
  cases hm
  obtain ⟨found, joined, hfound, hjoined, hcount, hnames, -, hcells, -⟩ := h (by decide +kernel)
  obtain rfl : ⟨[0], [0], [(0, 0)]⟩ = found := Option.some.inj hfound
  have hrows := hcells 0 (some 0, some 0) rfl
  refine ⟨joined, hjoined, hnames.trans (by decide +kernel), hcount, ?_, ?_⟩
  · rw [hrows]
    rfl
  · rw [hrows]
    rfl

end ColumnQuery
