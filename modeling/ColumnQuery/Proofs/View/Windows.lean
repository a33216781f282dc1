/-
  Window calls over a view.

  The partitions of a view share no row, and each lists rows of the table once. So the cells that
  the partitions give for a call stand side by side (`getElem?_placeParts`), and the cell of a row
  is the value that its partition answers for its position. Fields are plain, so they have values
  at all rows: window calls that were registered always have results (`windows_cells`), and those
  of a rolling call slide over the partitions (`windows_spec`).
-/
import ColumnQuery.Proofs.View.Overlays
import ColumnQuery.Proofs.Window.Streams

namespace ColumnQuery

/-! ## Cells put side by side -/

section Parts

variable {α : Type} {parts : List (List Nat × List α)} {cells out : Array α}

/-- Puts the values of several lists of rows at their rows. -/
def placeParts (cells : Array α) (parts : List (List Nat × List α)) : Option (Array α) :=
  parts.foldlM (fun cells p => placeCells? cells p.1 p.2) cells

theorem exists_placeParts (cells : Array α) (hrows : ∀ p ∈ parts, ∀ row ∈ p.1, row < cells.size) :
    ∃ out, placeParts cells parts = some out := by
  induction parts generalizing cells with
  | nil => exact ⟨cells, rfl⟩
  | cons p parts ih =>
    obtain ⟨hfirst, hrest⟩ := List.forall_mem_cons.1 hrows
    obtain ⟨next, hnext⟩ := exists_placeCells? p.2 hfirst
    have hsize := size_of_placeCells? hnext
    obtain ⟨out, hout⟩ := ih next fun q hq row hrow => by
      rw [hsize]
      exact hrest q hq row hrow
    exact ⟨out, by rw [placeParts, List.foldlM_cons, hnext]; exact hout⟩

theorem placeParts_cons {p : List Nat × List α} (h : placeParts cells (p :: parts) = some out) :
    ∃ next, placeCells? cells p.1 p.2 = some next ∧ placeParts next parts = some out := by
  unfold placeParts at h
  rw [List.foldlM_cons] at h
  exact Option.bind_eq_some_iff.1 h

theorem getElem?_placeParts_of_notMem (h : placeParts cells parts = some out) {row : Nat}
    (hrow : ∀ p ∈ parts, row ∉ p.1) : out[row]? = cells[row]? := by
  induction parts generalizing cells with
  | nil =>
    obtain rfl : cells = out := Option.some.inj h
    rfl
  | cons p parts ih =>
    obtain ⟨hfirst, hrest⟩ := List.forall_mem_cons.1 hrow
    obtain ⟨next, hnext, hout⟩ := placeParts_cons h
    rw [ih hout hrest, getElem?_placeCells?_of_notMem hnext hfirst]

/-- Of lists that share no row, each gives its rows their cells. -/
theorem getElem?_placeParts (hnodup : ∀ p ∈ parts, p.1.Nodup)
    (hdisjoint : parts.Pairwise fun p q => ∀ row ∈ p.1, row ∉ q.1)
    (h : placeParts cells parts = some out) {p : List Nat × List α} (hp : p ∈ parts)
    {i row : Nat} (hrow : p.1[i]? = some row) : out[row]? = p.2[i]?.or cells[row]? := by
  have hmem := List.mem_of_getElem? hrow
  induction parts generalizing cells with
  | nil => cases hp
  | cons q parts ih =>
    obtain ⟨hfirst, hrest⟩ := List.forall_mem_cons.1 hnodup
    obtain ⟨hhead, htail⟩ := List.pairwise_cons.1 hdisjoint
    obtain ⟨next, hnext, hout⟩ := placeParts_cons h
    rcases List.mem_cons.1 hp with rfl | hp
    · have hother : ∀ q ∈ parts, row ∉ q.1 := fun q hq => hhead q hq row hmem
      rw [getElem?_placeParts_of_notMem hout hother]
      exact getElem?_placeCells? hfirst hnext hrow
    · have hother : row ∉ q.1 := fun hq => hhead p hp row hq hmem
      rw [ih hrest htail hout hp, getElem?_placeCells?_of_notMem hnext hother]

end Parts

/-! ## Partitions -/

namespace View

variable {v : View} {key : RowKey} {parts : List (List Nat)}

theorem wellFormed_peers (v : View) (rows : List Nat) : (v.peers rows).WellFormed := by
  unfold peers
  split
  · exact Peers.wellFormed_ofTies _ rows
  · exact Peers.wellFormed_alone rows.length

theorem size_peers (v : View) (rows : List Nat) : (v.peers rows).size = rows.length := by
  unfold peers
  split <;> rfl

theorem lt_size_peers (v : View) {rows : List Nat} {i row : Nat} (h : rows[i]? = some row) :
    i < (v.peers rows).size := by
  rw [size_peers]
  exact (List.getElem?_eq_some_iff.1 h).1

/-- The rows of a partition are rows of the table. -/
theorem Sound.partitions_spec (hv : v.Sound key) :
    ∃ parts, v.partitions true = some parts ∧ (∀ rows ∈ parts, rows.Nodup) ∧
      (∀ rows ∈ parts, ∀ row ∈ rows, row < v.totalRows) ∧
      parts.Pairwise fun p q => ∀ row ∈ p, row ∉ q := by
  obtain ⟨rows, hrows, hperm⟩ := hv.exists_sorted
  refine ⟨v.split rows, ?_, ?_, ?_, ?_⟩
  · unfold partitions indices
    rw [if_pos rfl, hrows]
    rfl
  · intro part hpart
    obtain ⟨g, -, rfl⟩ := List.mem_map.1 hpart
    exact (hperm.nodup_iff.2 hv.nodup_visible).filter _
  · intro part hpart row hrow
    obtain ⟨g, -, rfl⟩ := List.mem_map.1 hpart
    exact hv.lt_of_sorted hrows (List.mem_filter.1 hrow).1
  · unfold split
    rw [List.pairwise_map]
    refine List.pairwise_lt_range.imp fun {g h} hlt row hg hh => ?_
    have heq := eq_of_beq (List.mem_filter.1 hg).2
    rw [eq_of_beq (List.mem_filter.1 hh).2] at heq
    exact absurd (Option.some.inj heq) (by omega)

/-! ## Results -/

variable {aggregates : List AggregateCall} {calls : List WindowCall}

theorem within_of_lt {row : Nat} (hrow : row < v.totalRows) :
    Formula.Within [v.data] (Position.row row) := by
  intro t table other htable hother
  match t with
  | 0 =>
    obtain rfl : v.data = table := Option.some.inj htable
    obtain rfl : row = other := Option.some.inj hother
    exact hrow
  | t + 1 => cases htable

/-- The fields of registered calls have values at every row. -/
theorem Sound.exists_evalRow (hv : v.Sound key) {f : Formula} (hf : f.Plain [v.data]) {row : Nat}
    (hrow : row < v.totalRows) : ∃ x, f.evalRow Env.noResults row = some x := by
  have hwithin : Formula.Within [v.data] (⟨.row row, Env.noResults⟩ : Env).position :=
    within_of_lt hrow
  obtain ⟨x, hx⟩ := hf.exists_eval (List.forall_mem_singleton.2 hv.table) hwithin
  exact ⟨x, by rw [Formula.evalRow, Formula.eval, hx]; rfl⟩

theorem Sound.exists_evalKey (hv : v.Sound key) {fields : List Formula}
    (hplain : ∀ f ∈ fields, f.Plain [v.data]) {row : Nat} (hrow : row < v.totalRows) :
    ∃ xs, Formula.evalKey fields row = some xs :=
  exists_mapM _ fields fun f hf => hv.exists_evalRow (hplain f hf) hrow

/-- A partition has values for all calls. -/
theorem Sound.exists_partitionValues (hv : v.Sound key)
    (hcalls : Registered [v.data] aggregates calls) {rows : List Nat}
    (hrows : ∀ row ∈ rows, row < v.totalRows) :
    ∃ entries, v.partitionValues calls rows = some entries := by
  obtain ⟨slid, hslid⟩ := exists_mapM (·.values (v.peers rows) rows) (WindowStream.ofCalls calls)
    fun w hw => WindowStream.exists_values hcalls hw _ fun c hc row hrow =>
      hv.exists_evalKey (hcalls.windows_suit c hc).plain (hrows row hrow)
  have hfunction : ∀ e ∈ calls.zipIdx,
      ∃ part, WindowCall.functionValues (v.peers rows) rows e = some part := by
    intro e he
    have hc := List.fst_mem_of_mem_zipIdx he
    unfold WindowCall.functionValues
    split
    next => exact ⟨[], rfl⟩
    next =>
      obtain ⟨fields, hfields⟩ := exists_mapM
        (fun field : Formula => rows.mapM (field.evalRow Env.noResults)) e.1.fields
        fun f hf => exists_mapM _ rows fun row hrow =>
          hv.exists_evalRow ((hcalls.windows_suit e.1 hc).plain f hf) (hrows row hrow)
      rw [hfields]
      exact ⟨_, rfl⟩
  obtain ⟨applied, happlied⟩ := exists_mapM _ calls.zipIdx hfunction
  refine ⟨slid.flatten ++ applied.flatten, ?_⟩
  unfold partitionValues
  dsimp only
  rw [hslid, happlied]
  rfl

/-- What a partition answers for a rolling call are its sliding values. -/
theorem lookup_partitionValues (hcalls : Registered [v.data] aggregates calls) {rows : List Nat}
    {entries : List (Nat × List Value)} (h : v.partitionValues calls rows = some entries)
    {n : Nat} {call : WindowCall} {a : Aggregate} (hcall : calls[n]? = some call)
    (ha : call.operator = .aggregate a) :
    ∃ values, entries.lookup n = some values ∧
      WindowStream.SlidesOver calls call a (v.peers rows) rows values := by
  unfold partitionValues at h
  dsimp only at h
  obtain ⟨slid, hslid, h⟩ := Option.bind_eq_some_iff.1 h
  obtain ⟨applied, -, h⟩ := Option.bind_eq_some_iff.1 h
  obtain rfl : slid.flatten ++ applied.flatten = entries := Option.some.inj h
  -- some stream answers for the call, so the look-up ends among the streams
  obtain ⟨w, hw, hanswers⟩ := WindowStream.exists_mem_of_call hcalls hcall ha
  obtain ⟨part, hpart, hvalues⟩ := exists_of_mapM hslid hw
  obtain ⟨values, hmem⟩ := hanswers _ rows part hvalues
  obtain ⟨found, hfound, hin⟩ :=
    exists_lookup_of_mem (List.mem_flatten.2 ⟨part, hpart, hmem⟩)
  refine ⟨found, by rw [List.lookup_append, hfound]; rfl, ?_⟩
  obtain ⟨part, hpart, hin⟩ := List.mem_flatten.1 hin
  obtain ⟨w, hw, hvalues⟩ := mem_of_mapM hslid hpart
  obtain ⟨other, b, hother, hb, hslides⟩ := WindowStream.slidesOver_of_mem hcalls hw hvalues hin
  obtain rfl : call = other := Option.some.inj (hcall.symm.trans hother)
  obtain rfl : a = b := by
    rw [ha] at hb
    exact WindowOperator.aggregate.inj hb
  exact hslides

/-- The values of a call by partition, to be put side by side. -/
def answered (parts : List (List Nat)) (answers : List (List (Nat × List Value))) (n : Nat) :
    List (List Nat × List Value) :=
  (parts.zip answers).map fun p => (p.1, (p.2.lookup n).getD [])

theorem fst_mem_of_mem_answered {answers : List (List (Nat × List Value))} {n : Nat}
    {p : List Nat × List Value} (h : p ∈ answered parts answers n) : p.1 ∈ parts := by
  obtain ⟨q, hq, rfl⟩ := List.mem_map.1 h
  exact (List.of_mem_zip hq).1

theorem map_fst_answered {answers : List (List (Nat × List Value))}
    (h : answers.length = parts.length) (n : Nat) :
    (answered parts answers n).map (·.1) = parts := by
  unfold answered
  rw [List.map_map]
  exact List.map_fst_zip (Nat.le_of_eq h.symm)

theorem mem_answered {answers : List (List (Nat × List Value))} {n k : Nat} {rows : List Nat}
    {entries : List (Nat × List Value)} (hrows : parts[k]? = some rows)
    (hanswer : answers[k]? = some entries) :
    (rows, (entries.lookup n).getD []) ∈ answered parts answers n :=
  List.mem_map.2 ⟨(rows, entries),
    List.mem_of_getElem? (List.getElem?_zip_eq_some.2 ⟨hrows, hanswer⟩), rfl⟩

/-- The cells of each call are its values put side by side. -/
theorem windows_of_answers {answers : List (List (Nat × List Value))} (hne : calls.isEmpty = false)
    (hparts : v.partitions true = some parts)
    (hanswers : (parts.filter (!·.isEmpty)).mapM (v.partitionValues calls) = some answers) :
    v.windows calls = (List.range calls.length).mapM fun n =>
      placeParts (Array.replicate v.totalRows .null)
        (answered (parts.filter (!·.isEmpty)) answers n) := by
  unfold windows
  rw [if_neg (by rw [hne]; exact Bool.false_ne_true), hparts, Option.bind_eq_bind,
    Option.bind_some]
  dsimp only
  rw [hanswers, Option.bind_eq_bind, Option.bind_some]
  congr 1
  funext n
  unfold placeParts answered
  rw [List.foldlM_map]

/-- What a partition answers for a call at a position. -/
def answerAt (entries : List (Nat × List Value)) (n i : Nat) : Value :=
  ((entries.lookup n).getD [])[i]?.getD .null

/-- Registered window calls have results, and the cell of a row is what its partition answers for
    its position. -/
theorem Sound.windows_cells (hv : v.Sound key) (hcalls : Registered [v.data] aggregates calls) :
    ∃ (parts : List (List Nat)) (results : List (Array Value)), v.partitions true = some parts ∧
      v.windows calls = some results ∧ results.length = calls.length ∧
      ∀ rows ∈ parts, rows ≠ [] → ∃ entries, v.partitionValues calls rows = some entries ∧
        ∀ n < calls.length, ∃ cells, results[n]? = some cells ∧
          ∀ (i row : Nat), rows[i]? = some row → cells[row]? = some (answerAt entries n i) := by
  obtain ⟨parts, hparts, hnodup, hlt, hdisjoint⟩ := hv.partitions_spec
  cases hempty : calls.isEmpty with
  | true =>
    rw [List.isEmpty_iff.1 hempty]
    refine ⟨parts, [], hparts, rfl, rfl, fun rows hrows _ => ?_⟩
    obtain ⟨entries, hentries⟩ := hv.exists_partitionValues
      ((List.isEmpty_iff.1 hempty) ▸ hcalls) (hlt rows hrows)
    exact ⟨entries, hentries, fun n hn => absurd hn (Nat.not_lt_zero n)⟩
  | false =>
    have hfiltered : ∀ {rows}, rows ∈ parts.filter (!·.isEmpty) → rows ∈ parts :=
      fun h => (List.mem_filter.1 h).1
    obtain ⟨answers, hanswers⟩ := exists_mapM (v.partitionValues calls)
      (parts.filter (!·.isEmpty)) fun rows hrows =>
        hv.exists_partitionValues hcalls (hlt rows (hfiltered hrows))
    have hplaced : ∀ n, ∃ cells : Array Value,
        placeParts (Array.replicate v.totalRows .null)
          (answered (parts.filter (!·.isEmpty)) answers n) = some cells := by
      refine fun n => exists_placeParts _ fun p hp row hrow => ?_
      rw [Array.size_replicate]
      exact hlt p.1 (hfiltered (fst_mem_of_mem_answered hp)) row hrow
    obtain ⟨results, hresults⟩ := exists_mapM _ (List.range calls.length) fun n _ => hplaced n
    refine ⟨parts, results, hparts, (windows_of_answers hempty hparts hanswers).trans hresults,
      by rw [length_of_mapM hresults, List.length_range], fun rows hrows hne => ?_⟩
    have hmem : rows ∈ parts.filter (!·.isEmpty) := by
      refine List.mem_filter.2 ⟨hrows, ?_⟩
      cases rows with
      | nil => exact absurd rfl hne
      | cons row rest => rfl
    obtain ⟨k, hk⟩ := List.mem_iff_getElem?.1 hmem
    obtain ⟨entries, hentries⟩ := hv.exists_partitionValues hcalls (hlt rows hrows)
    have hanswer : answers[k]? = some entries := by
      rw [getElem?_of_mapM hanswers k, hk]
      exact hentries
    refine ⟨entries, hentries, fun n hn => ?_⟩
    obtain ⟨cells, hcells⟩ := hplaced n
    refine ⟨cells, ?_, fun i row hrow => ?_⟩
    · rw [getElem?_of_mapM hresults n, List.getElem?_range hn]
      exact hcells
    · have hapart : (answered (parts.filter (!·.isEmpty)) answers n).Pairwise
          fun p q => ∀ row ∈ p.1, row ∉ q.1 := by
        rw [← List.pairwise_map (R := fun p q : List Nat => ∀ row ∈ p, row ∉ q),
          map_fst_answered (length_of_mapM hanswers)]
        exact hdisjoint.filter _
      rw [getElem?_placeParts
        (fun p hp => hnodup p.1 (hfiltered (fst_mem_of_mem_answered hp))) hapart hcells
        (mem_answered hk hanswer) hrow, Array.getElem?_replicate,
        if_pos (hlt rows hrows row (List.mem_of_getElem? hrow))]
      unfold answerAt
      cases ((entries.lookup n).getD [])[i]? <;> rfl

/-- Registered window calls have results, and the cells of a rolling call are the values that
    slide over the partitions. -/
theorem Sound.windows_spec (hv : v.Sound key) (hcalls : Registered [v.data] aggregates calls) :
    ∃ (parts : List (List Nat)) (results : List (Array Value)), v.partitions true = some parts ∧
      v.windows calls = some results ∧ ∀ rows ∈ parts, rows ≠ [] → ∀ (n : Nat) call a,
        calls[n]? = some call →
        call.operator = .aggregate a → ∃ (cells : Array Value) (values : List Value),
          results[n]? = some cells ∧
          WindowStream.SlidesOver calls call a (v.peers rows) rows values ∧
          ∀ (i row : Nat), rows[i]? = some row → cells[row]? = values[i]? := by
  obtain ⟨parts, results, hparts, hresults, -, hcells⟩ := hv.windows_cells hcalls
  refine ⟨parts, results, hparts, hresults, fun rows hrows hne n call a hcall ha => ?_⟩
  obtain ⟨entries, hentries, hcells⟩ := hcells rows hrows hne
  obtain ⟨cells, hn, hcells⟩ := hcells n (List.getElem?_eq_some_iff.1 hcall).1
  obtain ⟨values, hvalues, hslides⟩ := lookup_partitionValues hcalls hentries hcall ha
  refine ⟨cells, values, hn, hslides, fun i row hrow => ?_⟩
  have hi : i < values.length := by
    obtain ⟨observed, r, place, -, -, -, rfl⟩ := hslides
    rw [List.length_map, List.length_range]
    exact v.lt_size_peers hrow
  rw [hcells i row hrow]
  unfold answerAt
  rw [hvalues, Option.getD_some, List.getElem?_eq_getElem hi, Option.getD_some]

end View

end ColumnQuery
