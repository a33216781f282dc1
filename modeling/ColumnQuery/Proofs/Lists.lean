/-
  Lists gone through with steps that may fail.

  A list mapped by a partial function has the results of its items in their places
  (`mapM_eq_some_iff`), and there is such a list if every item has a result. A name that is listed
  is found (`exists_lookup_of_mem`). A fold whose steps may fail keeps whatever every step keeps.
-/
import Mathlib.Data.List.Basic
import Mathlib.Data.List.Forall2

namespace ColumnQuery

variable {α β γ ε : Type}

/-! ## Partial maps -/

theorem mapM_eq_some_iff {f : α → Option β} {xs : List α} {ys : List β} :
    xs.mapM f = some ys ↔ xs.map f = ys.map some := by
  induction xs generalizing ys with
  | nil => cases ys <;> simp
  | cons x xs ih =>
    rw [List.mapM_cons]
    constructor
    · intro h
      obtain ⟨y, hy, h⟩ := Option.bind_eq_some_iff.1 h
      obtain ⟨zs, hzs, h⟩ := Option.bind_eq_some_iff.1 h
      obtain rfl : y :: zs = ys := Option.some.inj h
      rw [List.map_cons, List.map_cons, hy, ih.1 hzs]
    · intro h
      cases ys with
      | nil => simp at h
      | cons y ys =>
        rw [List.map_cons, List.map_cons, List.cons.injEq] at h
        rw [h.1, ih.2 h.2]
        rfl

/-- A map is known from the item in each place if another map shows that item. -/
theorem map_eq_of_map_eq_map {f : α → γ} {h : β → γ} {g : α → β}
    (hread : ∀ a b, f a = h b → g a = b) {as : List α} {bs : List β}
    (hsame : as.map f = bs.map h) : as.map g = bs := by
  induction as generalizing bs with
  | nil => exact (List.map_eq_nil_iff.1 hsame.symm).symm
  | cons a as ih =>
    obtain ⟨b, bs, rfl, hb, hbs⟩ := List.map_eq_cons_iff.1 hsame.symm
    rw [List.map_cons, hread a b hb.symm, ih hbs.symm]

theorem mapM_congr {f g : α → Option β} {xs : List α} (h : ∀ x ∈ xs, f x = g x) :
    xs.mapM f = xs.mapM g := by
  induction xs with
  | nil => rfl
  | cons x xs ih =>
    obtain ⟨hx, hxs⟩ := List.forall_mem_cons.1 h
    rw [List.mapM_cons, List.mapM_cons, hx, ih hxs]

theorem length_of_mapM {f : α → Option β} {xs : List α} {ys : List β}
    (h : xs.mapM f = some ys) : ys.length = xs.length := by
  have := congrArg List.length (mapM_eq_some_iff.1 h)
  simpa using this.symm

theorem getElem?_of_mapM {f : α → Option β} {xs : List α} {ys : List β}
    (h : xs.mapM f = some ys) (i : Nat) : ys[i]? = xs[i]?.bind f := by
  have hi := congrArg (·[i]?) (mapM_eq_some_iff.1 h)
  simp only [List.getElem?_map] at hi
  cases hx : xs[i]? with
  | none =>
    rw [hx] at hi
    simpa using hi.symm
  | some x =>
    rw [hx] at hi
    cases hy : ys[i]? with
    | none => simp [hy] at hi
    | some y => simpa [hy] using hi.symm

theorem mem_of_mapM {f : α → Option β} {xs : List α} {ys : List β} (h : xs.mapM f = some ys)
    {y : β} (hy : y ∈ ys) : ∃ x ∈ xs, f x = some y := by
  have hmem : some y ∈ xs.map f := by
    rw [mapM_eq_some_iff.1 h]
    exact List.mem_map_of_mem hy
  exact List.mem_map.1 hmem

theorem exists_of_mapM {f : α → Option β} {xs : List α} {ys : List β} (h : xs.mapM f = some ys)
    {x : α} (hx : x ∈ xs) : ∃ y ∈ ys, f x = some y := by
  have hmem : f x ∈ ys.map some := by
    rw [← mapM_eq_some_iff.1 h]
    exact List.mem_map_of_mem hx
  obtain ⟨y, hy, hfx⟩ := List.mem_map.1 hmem
  exact ⟨y, hy, hfx.symm⟩

/-- A list is mapped if every item is. -/
theorem exists_mapM (f : α → Option β) (xs : List α) (h : ∀ x ∈ xs, ∃ y, f x = some y) :
    ∃ ys, xs.mapM f = some ys := by
  induction xs with
  | nil => exact ⟨[], rfl⟩
  | cons x xs ih =>
    obtain ⟨y, hy⟩ := h x List.mem_cons_self
    obtain ⟨ys, hys⟩ := ih fun z hz => h z (List.mem_cons_of_mem _ hz)
    refine ⟨y :: ys, ?_⟩
    rw [List.mapM_cons, hy, hys]
    rfl

/-- What a partial map that drops items lists. -/
theorem mem_of_filterMapM {f : α → Option (Option β)} {xs : List α} {ys : List β}
    (h : xs.filterMapM f = some ys) (y : β) : y ∈ ys ↔ ∃ x ∈ xs, f x = some (some y) := by
  induction xs generalizing ys with
  | nil =>
    obtain rfl : [] = ys := Option.some.inj h
    simp
  | cons x xs ih =>
    rw [List.filterMapM_cons] at h
    obtain ⟨item, hitem, h⟩ := Option.bind_eq_some_iff.1 h
    cases item with
    | none =>
      rw [ih h]
      simp [hitem]
    | some z =>
      obtain ⟨zs, hzs, h⟩ := Option.bind_eq_some_iff.1 h
      obtain rfl : z :: zs = ys := Option.some.inj h
      rw [List.mem_cons, ih hzs]
      simp [hitem, eq_comm]

/-- What a partial map that drops items lists, if every item has an outcome. -/
theorem filterMapM_eq {f : α → Option (Option β)} {test : α → Bool} {g : α → β}
    {xs : List α} (h : ∀ x ∈ xs, f x = some (if test x then some (g x) else none)) :
    xs.filterMapM f = some ((xs.filter test).map g) := by
  induction xs with
  | nil => rfl
  | cons x xs ih =>
    obtain ⟨hx, hxs⟩ := List.forall_mem_cons.1 h
    rw [List.filterMapM_cons, hx, List.filter_cons]
    cases test x with
    | true =>
      simp only [if_true, Option.bind_eq_bind, Option.bind_some, ih hxs]
      rfl
    | false => exact ih hxs

/-! ## Looking up -/

theorem mem_of_lookup [BEq α] [LawfulBEq α] {entries : List (α × β)} {a : α} {b : β}
    (h : entries.lookup a = some b) : (a, b) ∈ entries := by
  obtain ⟨before, after, hsplit, -⟩ := List.lookup_eq_some_iff.1 h
  rw [hsplit]
  simp

/-- A name that is listed is found, with one of the values listed for it. -/
theorem exists_lookup_of_mem [BEq α] [LawfulBEq α] {entries : List (α × β)} {a : α} {b : β}
    (h : (a, b) ∈ entries) : ∃ found, entries.lookup a = some found ∧ (a, found) ∈ entries := by
  have hsome : (entries.lookup a).isSome = true := by
    rw [List.lookup_isSome_iff]
    exact ⟨(a, b), h, beq_self_eq_true a⟩
  obtain ⟨found, hfound⟩ := Option.isSome_iff_exists.1 hsome
  exact ⟨found, hfound, mem_of_lookup hfound⟩

/-! ## Lists side by side -/

theorem exists_of_forall₂ {R : α → β → Prop} {xs : List α} {ys : List β}
    (h : List.Forall₂ R xs ys) {x : α} (hx : x ∈ xs) : ∃ y ∈ ys, R x y := by
  induction h with
  | nil => cases hx
  | cons hfirst _ ih =>
    rcases List.mem_cons.1 hx with rfl | hx
    · exact ⟨_, List.mem_cons_self, hfirst⟩
    · obtain ⟨y, hy, hxy⟩ := ih hx
      exact ⟨y, List.mem_cons_of_mem _ hy, hxy⟩

/-! ## Folds -/

theorem foldlM_option_keeps (P : β → Prop) {f : β → α → Option β} {xs : List α} {b b' : β}
    (hstep : ∀ b x b', x ∈ xs → P b → f b x = some b' → P b') (hb : P b)
    (h : xs.foldlM f b = some b') : P b' := by
  induction xs generalizing b with
  | nil =>
    obtain rfl : b = b' := Option.some.inj h
    exact hb
  | cons x xs ih =>
    rw [List.foldlM_cons] at h
    obtain ⟨c, hc, h⟩ := Option.bind_eq_some_iff.1 h
    have hP := hstep b x c List.mem_cons_self hb hc
    exact ih (fun b y b' hy => hstep b y b' (List.mem_cons_of_mem _ hy)) hP h

theorem ok_bind {a : α} {f : α → Except ε β} : (Except.ok a >>= f) = f a := rfl

theorem bind_eq_ok {x : Except ε α} {f : α → Except ε β} {b : β} (h : x >>= f = .ok b) :
    ∃ a, x = .ok a ∧ f a = .ok b := by
  cases x with
  | error e => cases h
  | ok a => exact ⟨a, rfl, h⟩

/-- A successful run whose result passes a test. -/
theorem exists_ok {x : Except ε α} {p : α → Bool} (h : x.toOption.any p = true) :
    ∃ a, x = .ok a ∧ p a = true := by
  cases x with
  | ok a => exact ⟨a, rfl, h⟩
  | error e => cases h

theorem foldlM_except_keeps (P : β → Prop) {f : β → α → Except ε β} {xs : List α} {b b' : β}
    (hstep : ∀ b x b', x ∈ xs → P b → f b x = .ok b' → P b') (hb : P b)
    (h : xs.foldlM f b = .ok b') : P b' := by
  induction xs generalizing b with
  | nil =>
    obtain rfl : b = b' := Except.ok.inj h
    exact hb
  | cons x xs ih =>
    rw [List.foldlM_cons] at h
    obtain ⟨c, hc, h⟩ := bind_eq_ok h
    have hP := hstep b x c List.mem_cons_self hb hc
    exact ih (fun b y b' hy => hstep b y b' (List.mem_cons_of_mem _ hy)) hP h

end ColumnQuery
