/-
  Rolling aggregates over a view.

  A rolling call gives every visible row a value: the value of its aggregate over the rows of the
  row's frame, within its partition. The state that gives it slides along the partition, so it
  could show rows that have left the frame. For the settled aggregates it does not: the value is
  the one that a reducer of its own computes afresh from the frame (`rolling_eq_fresh`). Distinct
  values and the most frequent one show them in their order, which is that of arrival
  (`rolling_same_fresh_iff`), and a running number shows them in that it can stay not-a-number
  (`rolling_isNaN_iff`).

  Calls of one frame whose fields have the same trees share a state, and it takes in the fields of
  the first of them. Fields that are looked up among the numeric constants keep a tree that does
  not tell which constant is meant, so two calls can share a state though their fields differ;
  the second one then has the values of the first one's fields.
-/
import ColumnQuery.Proofs.Aggregate.Spoiled
import ColumnQuery.Proofs.View.Reachable
import ColumnQuery.Proofs.View.Windows
import ColumnQuery.Proofs.Window.Arrival

namespace ColumnQuery

namespace WindowCall

/-- The fields of a call at rows. -/
def observe (c : WindowCall) (rows : List Nat) : Option (List (List Value)) :=
  rows.mapM (Formula.evalKey c.fields)

end WindowCall

namespace View

/-- The value of a window call at a row of the table. -/
def windowAt? (v : View) (calls : List WindowCall) (n row : Nat) : Option Value := do
  (← (← v.windows calls)[n]?)[row]?

theorem size_observe (v : View) {c : WindowCall} {rows : List Nat} {observed : List (List Value)}
    (h : c.observe rows = some observed) : observed.toArray.size = (v.peers rows).size := by
  rw [size_peers, List.size_toArray, length_of_mapM h]

/-- Every visible row has its value of a rolling call from a reducer that keeps up the aggregate
    of the call over the fields of its leader, and whose state is the run of the frames up to the
    row. -/
theorem rolling_spec {v : View} (hv : Reachable v) {exprs : List (String × ExprSpec)}
    {options : ResolveOptions} {r : Resolution} (hr : v.resolve exprs options = .ok r) :
    ∃ parts, v.partitions true = some parts ∧ ∀ rows ∈ parts, ∀ (i row n : Nat) call a,
      rows[i]? = some row → r.windows[n]? = some call → call.operator = .aggregate a →
      ∃ (own led : List (List Value)) (reducer : Reducer Formula) (place : Nat),
        call.observe rows = some own ∧ (call.leader r.windows).observe rows = some led ∧
        (∀ fields ∈ led, fields.length = a.fieldCount) ∧
        (∀ fields ∈ own, fields.length = a.fieldCount) ∧
        Ordered true reducer.ops ∧ reducer.ops[place]? = some ⟨a, call.params⟩ ∧
        v.windowAt? r.windows n row = some (reducer.valueAt
          (reducer.run reducer.start (call.frame.events (v.peers rows) led.toArray i)) place) := by
  obtain ⟨key, hreach⟩ := hv
  have hsound := sound_of_reachable hreach
  have hcalls : Registered [v.data] r.aggregates r.windows := registered_of_resolve hr
  obtain ⟨parts, results, hparts, hresults, hspec⟩ := hsound.windows_spec hcalls
  refine ⟨parts, hparts, fun rows hrows i row n call a hrow hcall ha => ?_⟩
  have hne : rows ≠ [] := by
    rintro rfl
    cases hrow
  have hmem := List.mem_of_getElem? hcall
  obtain ⟨cells, values, hcells, ⟨led, reducer, place, hled, hordered, hop, rfl⟩, hvalues⟩ :=
    hspec rows hrows hne n call a hcall ha
  have hread : ∀ c ∈ r.windows, ∃ observed, c.observe rows = some observed := by
    obtain ⟨parts', hparts', -, hlt, -⟩ := hsound.partitions_spec
    obtain rfl : parts = parts' := Option.some.inj (hparts.symm.trans hparts')
    exact fun c hc => exists_mapM _ rows fun row hrow =>
      hsound.exists_evalKey (hcalls.windows_suit c hc).plain (hlt rows hrows row hrow)
  obtain ⟨own, hown⟩ := hread call hmem
  have hsuits := hcalls.windows_suit call hmem
  refine ⟨own, led, reducer, place, hown, hled, ?_, ?_, hordered, hop, ?_⟩
  · -- the trees of the leader's fields, and so its fields, are as many as those of the call
    intro fields hfields
    obtain ⟨other, -, hother⟩ := mem_of_mapM hled hfields
    obtain ⟨hleader, -, hkey⟩ := WindowCall.leader_spec hmem ha
    rw [length_of_mapM hother, ← (hcalls.windows_suit _ hleader).key_length,
      Node.length_eq_of_sameList hkey, hsuits.key_length, hsuits.fields_length, ha]
    rfl
  · intro fields hfields
    obtain ⟨other, -, hother⟩ := mem_of_mapM hown hfields
    rw [length_of_mapM hother, hsuits.fields_length, ha]
    rfl
  · have hi := v.lt_size_peers hrow
    unfold windowAt?
    rw [hresults, Option.bind_eq_bind, Option.bind_some, hcells, Option.bind_eq_bind,
      Option.bind_some, hvalues i row hrow, List.getElem?_map, List.getElem?_range hi]
    rfl

/-- Whether the value of a rolling call at a position of a partition does not agree with the
    value that its own fields give in the frame of the position. -/
def strays (v : View) (agree : Value → Value → Bool) (calls : List WindowCall) (rows : List Nat)
    (n i : Nat) (a : Aggregate) : Bool :=
  calls[n]?.any fun call => call.operator == .aggregate a && (call.observe rows).any fun own =>
    (rows[i]?.bind (v.windowAt? calls n)).all fun x =>
      !agree x (AggregateOp.fresh ⟨a, call.params⟩ (call.frame.held (v.peers rows) own.toArray i))

theorem strays_spec {v : View} {agree : Value → Value → Bool} {calls : List WindowCall}
    {rows : List Nat} {n i : Nat} {a : Aggregate} (h : v.strays agree calls rows n i a = true) :
    ∃ call own, calls[n]? = some call ∧ call.operator = .aggregate a ∧
      call.observe rows = some own ∧ ∀ row x, rows[i]? = some row →
        v.windowAt? calls n row = some x → agree x (AggregateOp.fresh ⟨a, call.params⟩
          (call.frame.held (v.peers rows) own.toArray i)) = false := by
  obtain ⟨call, hcall, htest⟩ := (Option.any_eq_true _ _).1 h
  obtain ⟨ha, htest⟩ := Bool.and_eq_true_iff.1 htest
  obtain ⟨own, hown, hother⟩ := (Option.any_eq_true _ _).1 htest
  refine ⟨call, own, hcall, eq_of_beq ha, hown, fun row x hrow hx => ?_⟩
  rw [hrow, Option.bind_some, hx] at hother
  have hother : (!agree x _) = true := hother
  rwa [Bool.not_eq_true'] at hother

/-! ## Settled aggregates -/

/-- A settled rolling aggregate has the value that its leader's fields give in the frame of the
    row, computed afresh. It is the value of its own fields there exactly if both fields give the
    same value. -/
theorem rolling_eq_fresh {v : View} (hv : Reachable v) {exprs : List (String × ExprSpec)}
    {options : ResolveOptions} {r : Resolution} (hr : v.resolve exprs options = .ok r) :
    ∃ parts, v.partitions true = some parts ∧ ∀ rows ∈ parts, ∀ (i row n : Nat) call a,
      rows[i]? = some row → r.windows[n]? = some call → call.operator = .aggregate a →
      a.Settled → ∃ own led : List (List Value),
        call.observe rows = some own ∧ (call.leader r.windows).observe rows = some led ∧
        v.windowAt? r.windows n row = some (AggregateOp.fresh ⟨a, call.params⟩
          (call.frame.held (v.peers rows) led.toArray i)) ∧
        (v.windowAt? r.windows n row = some (AggregateOp.fresh ⟨a, call.params⟩
            (call.frame.held (v.peers rows) own.toArray i)) ↔
          AggregateOp.fresh ⟨a, call.params⟩ (call.frame.held (v.peers rows) led.toArray i)
            = AggregateOp.fresh ⟨a, call.params⟩
              (call.frame.held (v.peers rows) own.toArray i)) := by
  obtain ⟨parts, hparts, hspec⟩ := rolling_spec hv hr
  refine ⟨parts, hparts, fun rows hrows i row n call a hrow hcall ha hsettled => ?_⟩
  obtain ⟨own, led, reducer, place, hown, hled, hlength, -, hordered, hop, hvalue⟩ :=
    hspec rows hrows i row n call a hrow hcall ha
  have hi := v.lt_size_peers hrow
  have hqueue := call.frame.queue_events (v.wellFormed_peers rows) led.toArray hi
  have hfresh := Reducer.valueAt_run_eq_fresh hordered hop hsettled hqueue fun hany e he => by
    have hmem : e.fields ∈ led := Event.fields_mem_of_mem_trace he
    have hone := hlength e.fields hmem
    have hany : a = .any := hany
    rw [hany] at hone
    exact List.ne_nil_of_length_pos (by rw [hone]; decide)
  rw [hfresh] at hvalue
  refine ⟨own, led, hown, hled, hvalue, ?_⟩
  rw [hvalue]
  exact ⟨fun h => Option.some.inj h, fun h => congrArg some h⟩

/-- Four rows under a parameter that is named `k`, and holds a `k` of its own. -/
def constants : View :=
  (View.ofTable letters).addParams [("k", .string "PI"), ("q", .object [("k", .string "E")])]

theorem reachable_constants : Reachable constants :=
  ⟨_, .step (.params _) [] (.table letters_wellFormed) (by simp) rfl trivial rfl⟩

/-- A rolling aggregate of the numeric constant `Math[q.k]`. -/
def rollingConstant (aggregate : String) (q : Pattern) : ExprSpec :=
  .rolling (.tree (.arrow [.name "d", q] (.call (.identifier aggregate)
    [.member (.identifier "Math") (.member (.identifier "q") (.identifier "k") false) true])))
    .cumulative

/-- Once `q` is all parameters, and once it is the parameter `q`. -/
def constantExprs : List (String × ExprSpec) :=
  [("a", rollingConstant "min" (.name "q")), ("b", rollingConstant "max" (.object [("q", "q")]))]

/-- The greatest value of the one constant is shown as that of the other. -/
theorem rolling_constants : ∃ r call own led, constants.resolve constantExprs .derive = .ok r ∧
    r.windows[1]? = some call ∧ call.observe [0, 1, 2, 3] = some own ∧
    (call.leader r.windows).observe [0, 1, 2, 3] = some led ∧
    constants.windowAt? r.windows 1 2 = some (AggregateOp.fresh ⟨.max, call.params⟩
      (call.frame.held (constants.peers [0, 1, 2, 3]) led.toArray 2)) ∧
    constants.windowAt? r.windows 1 2 ≠ some (AggregateOp.fresh ⟨.max, call.params⟩
      (call.frame.held (constants.peers [0, 1, 2, 3]) own.toArray 2)) := by
  obtain ⟨r, hr, hstrays⟩ := exists_ok (x := constants.resolve constantExprs .derive)
    (p := fun r => constants.strays Value.same r.windows [0, 1, 2, 3] 1 2 .max) (by decide +kernel)
  obtain ⟨call, own, hcall, ha, hown, hother⟩ := strays_spec hstrays
  obtain ⟨parts, hparts, hspec⟩ := rolling_eq_fresh reachable_constants hr
  obtain rfl : [[0, 1, 2, 3]] = parts := Option.some.inj ((by decide +kernel :
    constants.partitions true = some [[0, 1, 2, 3]]).symm.trans hparts)
  obtain ⟨own', led, hown', hled, hvalue, -⟩ := hspec [0, 1, 2, 3] (by simp) 2 2 1 call .max rfl
    hcall ha (by simp [Aggregate.Settled])
  obtain rfl : own = own' := Option.some.inj (hown.symm.trans hown')
  refine ⟨r, call, own, led, hr, hcall, hown, hled, hvalue, fun hfresh => ?_⟩
  exact Bool.false_ne_true ((hother 2 _ rfl hfresh).symm.trans (Value.same_refl _))

/-! ## Distinct values and the most frequent one -/

/-- A rolling list of distinct values is the one that its own fields give in the frame of the
    row, computed afresh, exactly if the values arrived in the order in which they are first in
    the frame; and a rolling most frequent value is the one computed afresh exactly if the
    earliest to arrive of the most frequent values is the first of them in the frame. -/
theorem rolling_same_fresh_iff {v : View} (hv : Reachable v) {exprs : List (String × ExprSpec)}
    {options : ResolveOptions} {r : Resolution} (hr : v.resolve exprs options = .ok r) :
    ∃ parts, v.partitions true = some parts ∧ ∀ rows ∈ parts, ∀ (i row n : Nat) call a,
      rows[i]? = some row → r.windows[n]? = some call → call.operator = .aggregate a →
      ∃ (own led : List (List Value)) (x : Value),
        call.observe rows = some own ∧ (call.leader r.windows).observe rows = some led ∧
        v.windowAt? r.windows n row = some x ∧
        (a = .arrayAggDistinct →
          (x.same (AggregateOp.fresh ⟨a, call.params⟩
              (call.frame.held (v.peers rows) own.toArray i)) = true ↔
            call.frame.SameOrder (v.peers rows) led.toArray own.toArray i)) ∧
        (a = .mode →
          (x.same (AggregateOp.fresh ⟨a, call.params⟩
              (call.frame.held (v.peers rows) own.toArray i)) = true ↔
            call.frame.SameFavourite (v.peers rows) led.toArray own.toArray i)) := by
  obtain ⟨parts, hparts, hspec⟩ := rolling_spec hv hr
  refine ⟨parts, hparts, fun rows hrows i row n call a hrow hcall ha => ?_⟩
  obtain ⟨own, led, reducer, place, hown, hled, hledFields, hownFields, hordered, hop, hvalue⟩ :=
    hspec rows hrows i row n call a hrow hcall ha
  have hi := v.lt_size_peers hrow
  refine ⟨own, led, _, hown, hled, hvalue, ?_, ?_⟩
  · rintro rfl
    exact Reducer.arrayAggDistinct_same_iff hordered hop (v.wellFormed_peers rows)
      (v.size_observe hled)
      (v.size_observe hown) hi
  · rintro rfl
    have hne : ∀ {observed : List (List Value)},
        (∀ fields ∈ observed, fields.length = Aggregate.fieldCount .mode) →
        ∀ fields ∈ observed.toArray.toList, fields ≠ [] :=
      fun h fields hmem => List.ne_nil_of_length_pos (by rw [h fields hmem]; decide)
    exact Reducer.mode_same_iff hordered hop (v.wellFormed_peers rows) (v.size_observe hled)
      (v.size_observe hown)
      hi (hne hledFields) (hne hownFields)

/-- An aggregate of the letters over three rows. -/
def rollingLetters (aggregate : String) : ExprSpec :=
  .rolling (.tree (.call (.identifier aggregate) [.column 0 "x"])) ⟨some (-2), some 0, false⟩

def letterExprs : List (String × ExprSpec) :=
  [("distinct", rollingLetters "array_agg_distinct"), ("mode", rollingLetters "mode")]

/-- In a frame of `b`, `a` and `c` the second one arrived first, in a row that has left. -/
theorem rolling_letters : ∃ r listing mode own led own' led',
    (View.ofTable letters).resolve letterExprs .derive = .ok r ∧
    r.windows[0]? = some listing ∧ listing.observe [0, 1, 2, 3] = some own ∧
    (listing.leader r.windows).observe [0, 1, 2, 3] = some led ∧
    r.windows[1]? = some mode ∧ mode.observe [0, 1, 2, 3] = some own' ∧
    (mode.leader r.windows).observe [0, 1, 2, 3] = some led' ∧
    ¬ listing.frame.SameOrder (.alone 4) led.toArray own.toArray 3 ∧
    ¬ mode.frame.SameFavourite (.alone 4) led'.toArray own'.toArray 3 := by
  obtain ⟨r, hr, hstrays⟩ := exists_ok (x := (View.ofTable letters).resolve letterExprs .derive)
    (p := fun r =>
      (View.ofTable letters).strays Value.same r.windows [0, 1, 2, 3] 0 3 .arrayAggDistinct &&
        (View.ofTable letters).strays Value.same r.windows [0, 1, 2, 3] 1 3 .mode)
    (by decide +kernel)
  obtain ⟨hlisting, hmode⟩ := Bool.and_eq_true_iff.1 hstrays
  obtain ⟨listing, own, hlisting, ha, hown, hother⟩ := strays_spec hlisting
  obtain ⟨mode, own', hmode, ha', hown', hother'⟩ := strays_spec hmode
  obtain ⟨parts, hparts, hspec⟩ := rolling_same_fresh_iff
    ⟨_, .table letters_wellFormed⟩ hr
  obtain rfl : [[0, 1, 2, 3]] = parts := Option.some.inj ((by decide +kernel :
    (View.ofTable letters).partitions true = some [[0, 1, 2, 3]]).symm.trans hparts)
  obtain ⟨own₁, led, x, hown₁, hled, hx, horder, -⟩ :=
    hspec [0, 1, 2, 3] (by simp) 3 3 0 listing _ rfl hlisting ha
  obtain ⟨own₂, led', y, hown₂, hled', hy, -, hfavourite⟩ :=
    hspec [0, 1, 2, 3] (by simp) 3 3 1 mode _ rfl hmode ha'
  obtain rfl : own = own₁ := Option.some.inj (hown.symm.trans hown₁)
  obtain rfl : own' = own₂ := Option.some.inj (hown'.symm.trans hown₂)
  refine ⟨r, listing, mode, own, led, own', led', hr, hlisting, hown, hled, hmode, hown', hled',
    fun h => ?_, fun h => ?_⟩
  · exact Bool.false_ne_true ((hother 3 x rfl hx).symm.trans ((horder rfl).2 h))
  · exact Bool.false_ne_true ((hother' 3 y rfl hy).symm.trans ((hfavourite rfl).2 h))

/-! ## Numeric aggregates -/

/-- A rolling number is not-a-number by all events up to the row, and the one that its own fields
    give in the frame of the row, computed afresh, by the rows of the frame alone. The two agree
    on it exactly if these do. -/
theorem rolling_isNaN_iff {v : View} (hv : Reachable v) {exprs : List (String × ExprSpec)}
    {options : ResolveOptions} {r : Resolution} (hr : v.resolve exprs options = .ok r) :
    ∃ parts, v.partitions true = some parts ∧ ∀ rows ∈ parts, ∀ (i row n : Nat) call a k,
      rows[i]? = some row → r.windows[n]? = some call → call.operator = .aggregate a →
      a.running? = some k → ∃ (own led : List (List Value)) (x : Value),
        call.observe rows = some own ∧ (call.leader r.windows).observe rows = some led ∧
        v.windowAt? r.windows n row = some x ∧
        (x.isNaN = true ↔
          a.IsNaNAfter k (call.frame.events (v.peers rows) led.toArray i)) ∧
        ((AggregateOp.fresh ⟨a, call.params⟩
            (call.frame.held (v.peers rows) own.toArray i)).isNaN = true ↔
          a.IsNaNAfter k ((call.frame.held (v.peers rows) own.toArray i).map .enter)) ∧
        ((x.isNaN = true ↔ (AggregateOp.fresh ⟨a, call.params⟩
            (call.frame.held (v.peers rows) own.toArray i)).isNaN = true) ↔
          (a.IsNaNAfter k (call.frame.events (v.peers rows) led.toArray i) ↔
            a.IsNaNAfter k ((call.frame.held (v.peers rows) own.toArray i).map .enter))) := by
  obtain ⟨parts, hparts, hspec⟩ := rolling_spec hv hr
  refine ⟨parts, hparts, fun rows hrows i row n call a k hrow hcall ha hk => ?_⟩
  obtain ⟨own, led, reducer, place, hown, hled, -, -, hordered, hop, hvalue⟩ :=
    hspec rows hrows i row n call a hrow hcall ha
  have hslid := Reducer.isNaN_valueAt_run_iff hordered hop hk
    (call.frame.events (v.peers rows) led.toArray i)
  have hfresh := AggregateOp.isNaN_fresh_iff (hordered.fits _ (List.mem_of_getElem? hop)) hk
    (call.frame.held (v.peers rows) own.toArray i)
  exact ⟨own, led, _, hown, hled, hvalue, hslid, hfresh, iff_congr hslid hfresh⟩

/-- A text that does not read as a number, and two numbers. -/
def readings : Table := ⟨[("x", .ofValues [.string "oops", .number 1.0, .number 2.0])], 3⟩

theorem readings_wellFormed : readings.WellFormed :=
  Table.wellFormed_ofValues [("x", [.string "oops", .number 1.0, .number 2.0])] rfl

/-- Every row's own sum. -/
def readingExprs : List (String × ExprSpec) :=
  [("sum", .rolling (.tree (.call (.identifier "sum") [.column 0 "x"])) ⟨some 0, some 0, false⟩)]

/-- The sum of the last number alone is not-a-number after the text has left. -/
theorem rolling_readings : ∃ r call own led,
    (View.ofTable readings).resolve readingExprs .derive = .ok r ∧
    r.windows[0]? = some call ∧ call.observe [0, 1, 2] = some own ∧
    (call.leader r.windows).observe [0, 1, 2] = some led ∧
    Aggregate.IsNaNAfter .sum .sum (call.frame.events (.alone 3) led.toArray 2) ∧
    ¬ Aggregate.IsNaNAfter .sum .sum ((call.frame.held (.alone 3) own.toArray 2).map .enter) := by
  obtain ⟨r, hr, hstrays⟩ := exists_ok (x := (View.ofTable readings).resolve readingExprs .derive)
    (p := fun r => (View.ofTable readings).strays (fun x y => !x.isNaN || y.isNaN) r.windows
      [0, 1, 2] 0 2 .sum) (by decide +kernel)
  obtain ⟨call, own, hcall, ha, hown, hother⟩ := strays_spec hstrays
  obtain ⟨parts, hparts, hspec⟩ := rolling_isNaN_iff ⟨_, .table readings_wellFormed⟩ hr
  obtain rfl : [[0, 1, 2]] = parts := Option.some.inj ((by decide +kernel :
    (View.ofTable readings).partitions true = some [[0, 1, 2]]).symm.trans hparts)
  obtain ⟨own', led, x, hown', hled, hx, hslid, hfresh, -⟩ :=
    hspec [0, 1, 2] (by simp) 2 2 0 call .sum .sum rfl hcall ha rfl
  obtain rfl : own = own' := Option.some.inj (hown.symm.trans hown')
  obtain ⟨hnan, hnumber⟩ := Bool.or_eq_false_iff.1 (hother 2 x rfl hx)
  rw [Bool.not_eq_false'] at hnan
  refine ⟨r, call, own, led, hr, hcall, hown, hled, hslid.1 hnan, fun h => ?_⟩
  exact Bool.false_ne_true (hnumber.symm.trans (hfresh.2 h))

end View

end ColumnQuery
