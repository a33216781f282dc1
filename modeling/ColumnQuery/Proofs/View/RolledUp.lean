/-
  The keys in a roll-up.

  A roll-up of groups adds a column for every key, with the values that the groups have captured
  (`columns_of_keyTable`), and then sets the columns of its outputs. Adding refuses a name that is
  there, setting replaces the column. So keys of one name are refused, but an output under the name
  of a key is not: its values take the place of the key's (`RollsUpTo`). No key is lost exactly if
  no output has the name of one, and then the names are those of the keys followed by those of the
  outputs (`rollup_keys`).
-/
import ColumnQuery.Proofs.Formula.Calls
import ColumnQuery.Proofs.Join.Columns
import ColumnQuery.Proofs.View.Captured
import ColumnQuery.Proofs.View.OwnGroup

namespace ColumnQuery

/-! ## Outputs with different names -/

theorem eraseDups_of_nodup {names : List String} (h : names.Nodup) : names.eraseDups = names := by
  induction names with
  | nil => rfl
  | cons name names ih =>
    obtain ⟨hnew, hrest⟩ := List.nodup_cons.1 h
    have hothers : names.filter (fun other => !other == name) = names := by
      refine List.filter_eq_self.2 fun other hother => ?_
      simpa using fun heq : other = name => hnew (heq ▸ hother)
    rw [List.eraseDups_cons, hothers, ih hrest]

/-- Columns set under different names come after those that were there, unless they replace one. -/
theorem names_of_setCells_of_nodup {cells : NamedFormula → Option (List Value)}
    {es : List NamedFormula} (hnames : (es.map (·.name)).Nodup) {t u : Table}
    (h : es.foldlM (setCells cells) t = .ok u) :
    u.names = t.names ++ (es.map (·.name)).filter (· ∉ t.names) := by
  rw [names_of_foldlM_setCells es h, eraseDups_of_nodup (hnames.filter _)]

/-- Nothing is left out of a list exactly if nothing in it has the property. -/
theorem append_filter_iff {names outputs : List String} :
    names ++ outputs.filter (· ∉ names) = names ++ outputs ↔ ∀ name ∈ outputs, name ∉ names := by
  rw [List.append_cancel_left_eq, List.filter_eq_self]
  simp

namespace View

variable {v x : View} {exprs : List (String × ExprSpec)} {r : Resolution}
  {results : OperatorResults}

/-! ## The columns of the keys -/

/-- Keys are added under new names, each with a column of its own. -/
theorem columns_of_addKeys {g : GroupTable} {names : List String} {first : Nat} {t u : Table}
    (h : (names.zipIdx first).foldlM (fun t (name, k) =>
      QueryError.ofTable (t.add name (keyColumn g k))) t = .ok u) :
    u.names = t.names ++ names ∧ names.Nodup ∧ (∀ name ∈ names, name ∉ t.names) ∧
      (∀ name ∉ names, u.column? name = t.column? name) ∧
      ∀ k name, names[k]? = some name → u.column? name = some (keyColumn g (first + k)) := by
  induction names generalizing first t with
  | nil =>
    obtain rfl := Except.ok.inj h
    exact ⟨(List.append_nil _).symm, .nil, nofun, fun _ _ => rfl, nofun⟩
  | cons name names ih =>
    rw [List.zipIdx_cons, List.foldlM_cons] at h
    obtain ⟨next, hnext, h⟩ := bind_eq_ok h
    have hadd := QueryError.ofTable_eq_ok hnext
    have hnames := Table.names_of_add hadd
    have hcolumn := Table.column?_of_add hadd
    obtain ⟨hu, hnodup, hnew, hold, hkeys⟩ := ih h
    rw [hnames] at hu hnew
    have hfirst : name ∉ names := fun hmem => hnew name hmem (List.mem_concat_self ..)
    refine ⟨hu.trans (List.append_assoc ..), List.nodup_cons.2 ⟨hfirst, hnodup⟩,
      List.forall_mem_cons.2 ⟨(Table.add_eq_ok hadd).1, fun other hother hmem =>
        hnew other hother (List.mem_append_left _ hmem)⟩, fun other hother => ?_,
      fun k other hk => ?_⟩
    · obtain ⟨hne, hrest⟩ := not_or.1 (mt List.mem_cons.2 hother)
      rw [hold other hrest, hcolumn, if_neg hne]
    · cases k with
      | zero =>
        obtain rfl : name = other := Option.some.inj hk
        rw [hold name hfirst, hcolumn, if_pos rfl]
        rfl
      | succ k =>
        rw [hkeys k other hk, Nat.add_assoc, Nat.add_comm 1 k]

/-- The table of the keys: their names are different, and the column of each has its values. -/
theorem columns_of_keyTable {groups : Grouping} (hgroups : v.groups = some groups) {t : Table}
    (h : v.keyTable = .ok t) : t.names = groups.shown.names ∧ groups.shown.names.Nodup ∧
      ∀ k name, groups.shown.names[k]? = some name →
        t.column? name = some (keyColumn groups.shown k) := by
  unfold keyTable at h
  rw [hgroups] at h
  obtain ⟨hnames, hnodup, -, -, hkeys⟩ := columns_of_addKeys h
  refine ⟨hnames, hnodup, fun k name hk => ?_⟩
  rw [hkeys k name hk, Nat.zero_add]

/-- A key column has the captured value of each group. -/
theorem exists_captured {groups : GroupTable} (hlength : groups.values.length = groups.size)
    (hcomplete : groups.Complete) {k g : Nat} {name : String}
    (hname : groups.names[k]? = some name) (hg : g < groups.size) :
    ∃ key a, groups.values[g]? = some key ∧ key[k]? = some a ∧
      (keyColumn groups k).get? g = some a := by
  have hkey := List.getElem?_eq_getElem (hlength ▸ hg)
  have hlt : k < groups.values[g].length := by
    rw [hcomplete _ (List.getElem_mem _)]
    exact (List.getElem?_eq_some_iff.1 hname).1
  refine ⟨_, _, hkey, List.getElem?_eq_getElem hlt, ?_⟩
  rw [get?_keyColumn hg, hkey, Option.bind_some, List.getElem?_eq_getElem hlt, Option.getD_some]

/-! ## What becomes of the keys -/

/-- The captured value of every group stands in a row of its own, under the name of the key. -/
def HoldsKey (t : Table) (groups : GroupTable) (k : Nat) (name : String) : Prop :=
  ∀ g < groups.size, ∃ key a, groups.values[g]? = some key ∧ key[k]? = some a ∧
    t.valueAt? name g = some a

/-- A table keeps all keys beside the outputs. -/
structure KeepsKeys (t : Table) (groups : GroupTable) (outputs : List String) : Prop where
  rowCount : t.rowCount = groups.size
  names : t.names = groups.names ++ outputs
  keys : ∀ k name, groups.names[k]? = some name → HoldsKey t groups k name

/-- What a roll-up makes of groups: keys under the name of an output are not kept. -/
structure RollsUpTo (v : View) (groups : GroupTable) (exprs : List (String × ExprSpec))
    (t : Table) : Prop where
  rowCount : t.rowCount = groups.size
  names : t.names = groups.names ++ (exprs.map (·.1)).filter (· ∉ groups.names)
  keys : ∀ k name, groups.names[k]? = some name → name ∉ exprs.map (·.1) →
    HoldsKey t groups k name
  /-- Under the name of an output stand its values, also if it is the name of a key. -/
  outputs : ∃ r results, v.resolve exprs .rollup = .ok r ∧ v.operators r some = some results ∧
    r.exprs.map (·.name) = exprs.map (·.1) ∧ ∀ e ∈ r.exprs, ∀ g < groups.size,
      ∃ a, e.formula.evalRow results.lookup g = some a ∧ t.valueAt? e.name g = some a

/-- No key is lost exactly if no output has the name of one. -/
theorem RollsUpTo.keepsKeys_iff {groups : GroupTable} {t : Table} (h : RollsUpTo v groups exprs t) :
    KeepsKeys t groups (exprs.map (·.1)) ↔ ∀ name ∈ exprs.map (·.1), name ∉ groups.names := by
  constructor
  · intro hkeeps
    exact append_filter_iff.1 (h.names.symm.trans hkeeps.names)
  · intro hclear
    refine ⟨h.rowCount, h.names.trans (append_filter_iff.2 hclear), fun k name hk =>
      h.keys k name hk fun hmem => ?_⟩
    exact hclear name hmem (List.mem_of_getElem? hk)

theorem groupCount_of_groups {groups : Grouping} (hgroups : v.groups = some groups) :
    v.groupCount = groups.shown.size := by
  unfold groupCount
  rw [hgroups]

theorem rollsUpTo_of_rollup {groups : Grouping} (hgroups : v.groups = some groups)
    (hlength : groups.shown.values.length = groups.shown.size)
    (hcomplete : groups.shown.Complete) (hnames : (exprs.map (·.1)).Nodup)
    (hx : v.rollup exprs = .ok x) :
    groups.shown.names.Nodup ∧ RollsUpTo v groups.shown exprs x.data := by
  have hcount := groupCount_of_groups hgroups
  have hrows := totalRows_of_rollup hx
  obtain ⟨r, results, keys, t, hr, hresults, hkeys, ht, rfl⟩ := rollup_eq_ok hx
  have hresolved := names_of_resolve hr
  obtain ⟨hkeyNames, hnodup, hkeyColumns⟩ := columns_of_keyTable hgroups hkeys
  rw [setGroupColumn_eq] at ht
  have hnodup' : (r.exprs.map (·.name)).Nodup := hresolved ▸ hnames
  -- the columns that were set are those of the fold, of which the last one of a name stays
  have hcells : ∀ e ∈ r.exprs, ∃ values,
      (List.range v.groupCount).mapM (e.formula.evalRow results.lookup) = some values ∧
        values.length = keys.rowCount := by
    intro e he
    obtain ⟨values, hvalues⟩ := cells_of_foldlM_setCells ht e he
    exact ⟨values, hvalues, by
      rw [length_of_mapM hvalues, List.length_range, rowCount_of_keyTable hkeys]⟩
  obtain ⟨u, hu, -, hvalueAt⟩ := foldlM_setCells r.exprs keys hcells
  obtain rfl := Except.ok.inj (ht.symm.trans hu)
  refine ⟨hnodup, hrows.trans hcount, ?_, fun k name hk hfree g hg => ?_,
    r, results, hr, hresults, hresolved, fun e he g hg => ?_⟩
  · show t.names = _
    rw [names_of_setCells_of_nodup hnodup' ht, hkeyNames, hresolved]
  · have hnone : lastNamed? r.exprs name = none := by
      refine List.find?_eq_none.2 fun e he heq => hfree ?_
      rw [← hresolved]
      exact List.mem_map.2 ⟨e, List.mem_reverse.1 he, eq_of_beq heq⟩
    obtain ⟨key, a, hkey, ha, hget⟩ := exists_captured hlength hcomplete hk hg
    refine ⟨key, a, hkey, ha, ?_⟩
    show t.valueAt? name g = some a
    rw [hvalueAt, hnone]
    show (keys.column? name).bind (·.get? g) = some a
    rw [hkeyColumns k name hk]
    exact hget
  · obtain ⟨values, hvalues, -⟩ := hcells e he
    have hat := getElem?_of_mapM hvalues g
    rw [List.getElem?_range (hcount ▸ hg), Option.bind_some] at hat
    obtain ⟨a, -, ha⟩ := exists_of_mapM hvalues (List.mem_range.2 (hcount ▸ hg))
    refine ⟨a, ha, ?_⟩
    show t.valueAt? e.name g = some a
    rw [hvalueAt, lastNamed?_of_nodup hnodup' he]
    dsimp only
    rw [hvalues, Option.bind_some, hat, ha]

/-! ## Counts of rows -/

/-- The call that counts rows. -/
def countCall : Node := .call (.identifier "count") []

def isCountCall : Node → Bool
  | .call (.identifier name) [] => name == "count"
  | _ => false

theorem parse_count : Node.parse "count()" = .ok countCall := by
  obtain ⟨node, hnode, hcount⟩ := exists_ok (x := Node.parse "count()") (p := isCountCall)
    (by decide +kernel)
  unfold isCountCall at hcount
  split at hcount
  next name =>
    obtain rfl := eq_of_beq hcount
    exact hnode
  next => cases hcount

/-- A count of rows resolves over any table. -/
theorem exists_resolve_count (v : View) (name : String) :
    ∃ r, v.resolve [(name, .source "count()")] .rollup = .ok r := by
  have hcall : Resolve.IsCall ⟨[v.data], v.params, .rollup⟩ (Resolve.header 1 countCall).1 countCall
      .count ⟨[], []⟩ := ⟨.identifier "count", [], rfl, rfl, by decide, rfl⟩
  have hplaced : (ExprSpec.source "count()").placed? 1 none
      = some (⟨(Resolve.header 1 countCall).1, none, false⟩, countCall) := by
    show ((Node.parse "count()").toOption.bind _) = _
    rw [parse_count]
    rfl
  have hresolves : ∃ tree, v.resolve [(name, .source "count()")] .rollup
      = .ok ⟨[⟨name, .op (.aggregate 0), tree⟩], [⟨.count, [], [], []⟩], [], false⟩ :=
    hcall.resolve_call rfl rfl hplaced rfl
  obtain ⟨tree, hr⟩ := hresolves
  exact ⟨_, hr⟩

/-! ## Roll-ups of reachable views -/

/-- The keys in a roll-up of groups. It goes through exactly if the keys have different names, the
    expressions resolve and the escaped functions answer; the names of its outputs do not matter. So
    an output under the name of a key is not refused, but takes the place of its values. All keys
    are kept, under names that are followed by those of the outputs, exactly if no output has the
    name of a key. A count of rows is such a roll-up, and it always resolves. -/
theorem rollup_keys (hv : Reachable v) {groups : Grouping} (hgroups : v.groups = some groups) :
    (∀ exprs, (exprs.map (·.1)).Nodup →
      ((∃ x, v.rollup exprs = .ok x) ↔ groups.shown.names.Nodup ∧
        (∃ r, v.resolve exprs .rollup = .ok r) ∧
        ∀ g < groups.shown.size, v.EscapesAnswer exprs g) ∧
      ∀ x, v.rollup exprs = .ok x → RollsUpTo v groups.shown exprs x.data ∧
        (KeepsKeys x.data groups.shown (exprs.map (·.1)) ↔
          ∀ name ∈ exprs.map (·.1), name ∉ groups.shown.names)) ∧
    ∀ name : Option String,
      ((∃ x, v.countRows name = .ok x) ↔ groups.shown.names.Nodup) ∧
      ∀ x, v.countRows name = .ok x →
        RollsUpTo v groups.shown [(name.getD "count", .source "count()")] x.data ∧
        (KeepsKeys x.data groups.shown [name.getD "count"] ↔
          name.getD "count" ∉ groups.shown.names) := by
  obtain ⟨key, hreach⟩ := hv
  have hsound := sound_of_reachable hreach
  have hcomplete := complete_of_reachable hreach hgroups
  have hlength := (hsound.groups groups hgroups).numbers.values_length
  have hcount : v.groupCount = groups.shown.size := groupCount_of_groups hgroups
  have hspec : ∀ exprs, (exprs.map (·.1)).Nodup → ∀ x, v.rollup exprs = .ok x →
      groups.shown.names.Nodup ∧ RollsUpTo v groups.shown exprs x.data :=
    fun exprs hnames x hx => rollsUpTo_of_rollup hgroups hlength hcomplete hnames hx
  have hgoes : ∀ exprs r, v.resolve exprs .rollup = .ok r → groups.shown.names.Nodup →
      ((∃ x, v.rollup exprs = .ok x) ↔ ∀ g < groups.shown.size, v.EscapesAnswer exprs g) := by
    intro exprs r hr hnodup
    rw [← hcount]
    exact hsound.rollup_isOk_iff hr fun g hg => Option.some.inj (hgroups.symm.trans hg) ▸ hnodup
  constructor
  · intro exprs hnames
    refine ⟨⟨fun ⟨x, hx⟩ => ?_, fun ⟨hnodup, ⟨r, hr⟩, hanswer⟩ =>
      (hgoes exprs r hr hnodup).2 hanswer⟩, fun x hx => ?_⟩
    · obtain ⟨hnodup, hrolls⟩ := hspec exprs hnames x hx
      obtain ⟨r, -, hr, -⟩ := hrolls.outputs
      exact ⟨hnodup, ⟨r, hr⟩, (hgoes exprs r hr hnodup).1 ⟨x, hx⟩⟩
    · have hrolls := (hspec exprs hnames x hx).2
      exact ⟨hrolls, hrolls.keepsKeys_iff⟩
  · intro name
    have hnames : ([(name.getD "count", ExprSpec.source "count()")].map (·.1)).Nodup :=
      List.nodup_singleton _
    refine ⟨⟨fun ⟨x, hx⟩ => (hspec _ hnames x hx).1, fun hnodup => ?_⟩, fun x hx => ?_⟩
    · obtain ⟨r, hr⟩ := exists_resolve_count v (name.getD "count")
      refine (hgoes _ r hr hnodup).2 fun g _ e he f hf => ?_
      obtain rfl := List.mem_singleton.1 he
      cases hf
    · have hrolls := (hspec _ hnames x hx).2
      refine ⟨hrolls, hrolls.keepsKeys_iff.trans ?_⟩
      exact List.forall_mem_singleton

/-- A count of grouped letters keeps the letters if it stands under its own name. Under the name of
    the letters there are only numbers in their place. -/
theorem rollup_keys_letters : ∃ v kept lost,
    (View.ofTable letters).groupBy ["x"] = .ok v ∧
    v.countRows none = .ok kept ∧ kept.data.names = ["x", "count"] ∧
    kept.data.valueAt? "x" 0 = some (.string "a") ∧
    v.countRows (some "x") = .ok lost ∧ lost.data.names = ["x"] ∧
    ∃ number, lost.data.valueAt? "x" 0 = some (.number number) := by
  obtain ⟨v, hgrouped, hreach, hcount, -⟩ := exists_groupBy_letters
  have hkeys : v.groups.map (fun groups => (groups.shown.names, groups.shown.values[0]?))
      = some (["x"], some [.string "a"]) := by
    cases hgrouped
    rfl
  obtain ⟨groups, hgroups, hkeys⟩ := Option.map_eq_some_iff.1 hkeys
  obtain ⟨hnames, hkey⟩ := Prod.mk.inj hkeys
  obtain ⟨-, hcounts⟩ := rollup_keys hreach hgroups
  obtain ⟨hgoes, hkept⟩ := hcounts none
  obtain ⟨kept, hcounted⟩ := hgoes.2 (hnames ▸ List.nodup_singleton "x")
  have hkeeps := (hkept kept hcounted).2.2 (by rw [hnames]; decide)
  have hfirst : 0 < groups.shown.size := by
    rw [← groupCount_of_groups hgroups, hcount]
    exact Nat.zero_lt_succ 2
  obtain ⟨key, a, hkey', ha, hvalue⟩ := hkeeps.keys 0 "x" (by rw [hnames]; rfl) 0 hfirst
  obtain rfl : [Value.string "a"] = key := Option.some.inj (hkey.symm.trans hkey')
  obtain rfl : Value.string "a" = a := Option.some.inj ha
  obtain ⟨lost, hlost, hnumber⟩ : ∃ lost, v.countRows (some "x") = .ok lost ∧
      ∃ number, lost.data.valueAt? "x" 0 = some (.number number) := by
    obtain ⟨lost, hlost, hat⟩ := exists_ok
      (x := (View.ofTable letters).groupBy ["x"] >>= fun v => v.countRows (some "x"))
      (p := fun lost => (lost.data.valueAt? "x" 0).any (·.typeName == "number"))
      (by decide +kernel)
    obtain ⟨w, hw, hlost⟩ := bind_eq_ok hlost
    obtain rfl : w = v := Except.ok.inj (hw.symm.trans hgrouped)
    obtain ⟨b, hb, htype⟩ := (Option.any_eq_true _ _).1 hat
    refine ⟨lost, hlost, ?_⟩
    cases b with
    | number number => exact ⟨number, hb⟩
    | _ => simp [Value.typeName] at htype
  have hrolls := ((hcounts (some "x")).2 lost hlost).1
  refine ⟨v, kept, lost, hgrouped, hcounted, ?_, hvalue, hlost, ?_, hnumber⟩
  · rw [hkeeps.names, hnames]
    rfl
  · rw [hrolls.names, hnames]
    decide

end View

end ColumnQuery
