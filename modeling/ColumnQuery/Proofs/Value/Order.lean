/-
  The sorting order of values is a total preorder.

  What two values are compared by is written as a key: the place of the type, a number and a
  text, and the items of an array. Items are compared by the order itself, so the order is
  approximated by orders that look into arrays to a bounded depth (`orderTo`). Each of them
  compares keys one part after the other, which is a total preorder, and any values are ordered
  by all approximations that are deep enough.
-/
import ColumnQuery.Value.Order

namespace ColumnQuery

namespace Value

/-- The place of the type, with the invalid values last. -/
def rank (v : Value) : Nat := if v.isValid then v.typeRank else 6

/-- What is compared among values of one type, as far as it is a number. -/
def measure : Value → Int
  | boolean b => if b then 1 else 0
  | number x => if x.isNaN then 0 else Number.place x
  | date ms => ms
  | object entries => entries.length
  | string _ | array _ | null => 0

/-- What is compared among values of one type, as far as it is a text. -/
def text? : Value → String
  | string s => s
  | _ => ""

def items : Value → List Value
  | array vs => vs
  | _ => []

/-- The order without the items of arrays. -/
def outerOrder : Value → Value → Ordering :=
  compareLex (compareOn rank) (compareLex (compareOn measure) (compareOn text?))

theorem compare_length (m n : Nat) : compare (m : Int) n = compare m n := by
  rcases Nat.lt_trichotomy m n with h | rfl | h
  · rw [Nat.compare_eq_lt.2 h]
    exact Int.compare_eq_lt.2 (by omega)
  · simp
  · rw [Nat.compare_eq_gt.2 h]
    exact Int.compare_eq_gt.2 (by omega)

theorem compare_bool (a b : Bool) :
    compare (if a then 1 else 0 : Int) (if b then 1 else 0) = compare a b := by
  cases a <;> cases b <;> rfl

theorem rank_of_valid {v : Value} (h : v.isValid = true) : v.rank = v.typeRank := if_pos h

theorem rank_of_invalid {v : Value} (h : v.isValid = false) : v.rank = 6 := by
  unfold rank
  rw [h]
  rfl

theorem typeRank_of_valid {v : Value} (h : v.isValid = true) : v.typeRank < 6 := by
  cases v with
  | null => cases h
  | boolean _ | number _ | string _ | date _ | array _ | object _ => simp [typeRank]

/-- Invalid values are all compared as null is. -/
theorem keys_of_invalid {v : Value} (h : v.isValid = false) :
    v.measure = 0 ∧ v.text? = "" ∧ v.items = [] := by
  cases v with
  | null => exact ⟨rfl, rfl, rfl⟩
  | number x =>
    have hx : x.isNaN = true := by simpa [isValid] using h
    exact ⟨if_pos hx, rfl, rfl⟩
  | boolean _ | string _ | date _ | array _ | object _ => cases h

theorem measure_number {x : Float} (h : (number x).isValid = true) :
    (number x).measure = Number.place x := by
  have hx : x.isNaN = false := by simpa [isValid] using h
  exact if_neg (by rw [hx]; exact Bool.false_ne_true)

/-- Valid values are compared by their keys. -/
theorem order_of_valid {a b : Value} (ha : a.isValid = true) (hb : b.isValid = true) :
    a.order b = (outerOrder a b).then (orderItems a.items b.items) := by
  unfold order outerOrder compareLex compareOn
  rw [rank_of_valid ha, rank_of_valid hb]
  simp only [ha, hb]
  cases a <;> cases b
  case number.number x y =>
    rw [measure_number ha, measure_number hb]
    simp [typeRank, text?, items, orderItems, Number.order]
  case boolean.boolean a b => simp [typeRank, measure, text?, items, compare_bool, orderItems]
  case date.date a b => simp [typeRank, measure, text?, items, orderItems]
  case string.string a b => simp [typeRank, measure, text?, items, orderItems]
  case array.array as bs => simp [typeRank, measure, text?, items]
  case object.object as bs =>
    simp [typeRank, measure, text?, items, orderItems, compare_length]
  all_goals rfl

/-- Values are compared by their keys, and then item by item. -/
theorem order_eq_then (a b : Value) :
    a.order b = (outerOrder a b).then (orderItems a.items b.items) := by
  cases ha : a.isValid <;> cases hb : b.isValid
  · obtain ⟨hma, hta, hia⟩ := keys_of_invalid ha
    obtain ⟨hmb, htb, hib⟩ := keys_of_invalid hb
    unfold order outerOrder compareLex compareOn
    rw [ha, hb, rank_of_invalid ha, rank_of_invalid hb, hma, hmb, hta, htb, hia, hib]
    simp [orderItems]
  · have hlt : compare a.rank b.rank = .gt := by
      rw [rank_of_invalid ha, rank_of_valid hb]
      exact Nat.compare_eq_gt.2 (typeRank_of_valid hb)
    unfold order outerOrder compareLex compareOn
    rw [ha, hb, hlt]
    rfl
  · have hlt : compare a.rank b.rank = .lt := by
      rw [rank_of_valid ha, rank_of_invalid hb]
      exact Nat.compare_eq_lt.2 (typeRank_of_valid ha)
    unfold order outerOrder compareLex compareOn
    rw [ha, hb, hlt]
    rfl
  · exact order_of_valid ha hb

/-! ## Approximations -/

/-- The order with the items of arrays compared up to a depth. -/
def orderTo : Nat → Value → Value → Ordering
  | 0 => outerOrder
  | n + 1 => compareLex outerOrder fun a b => List.compareLex (orderTo n) a.items b.items

instance transCmp_outerOrder : Std.TransCmp outerOrder :=
  inferInstanceAs (Std.TransCmp (compareLex _ (compareLex _ _)))

/-- Comparing parts by a total preorder is one. -/
theorem transCmp_on {α β : Type} (c : β → β → Ordering) [Std.TransCmp c] (f : α → β) :
    Std.TransCmp fun a b => c (f a) (f b) where
  eq_swap := Std.OrientedCmp.eq_swap
  isLE_trans := Std.TransCmp.isLE_trans

theorem transCmp_orderTo : ∀ n, Std.TransCmp (orderTo n)
  | 0 => transCmp_outerOrder
  | n + 1 => by
    have hn := transCmp_orderTo n
    have hitems := transCmp_on (List.compareLex (orderTo n)) items
    unfold orderTo
    infer_instance

theorem orderItems_eq_compareLex {c : Value → Value → Ordering} (as bs : List Value)
    (h : ∀ a ∈ as, ∀ b, a.order b = c a b) : orderItems as bs = List.compareLex c as bs := by
  induction as generalizing bs with
  | nil => cases bs <;> rfl
  | cons a as ih =>
    cases bs with
    | nil => rfl
    | cons b bs =>
      have hrest := ih bs fun x hx => h x (List.mem_cons_of_mem _ hx)
      rw [List.compareLex_cons_cons, ← h a List.mem_cons_self b, ← hrest, orderItems]
      cases a.order b <;> rfl

/-- A depth that goes through a value is deep enough. -/
theorem order_eq_orderTo (n : Nat) (a : Value) (hn : sizeOf a ≤ n) (b : Value) :
    a.order b = orderTo n a b := by
  induction n generalizing a b with
  | zero => cases a <;> simp at hn
  | succ n ih =>
    have hitems : ∀ v ∈ a.items, sizeOf v ≤ n := by
      intro v hv
      cases a with
      | array vs =>
        have hlt : sizeOf v < sizeOf vs := List.sizeOf_lt_of_mem hv
        simp at hn
        omega
      | null | boolean _ | number _ | string _ | date _ | object _ => cases hv
    rw [order_eq_then, orderItems_eq_compareLex a.items b.items fun v hv => ih v (hitems v hv)]
    rfl

/-- Sorting compares by a total preorder. -/
instance transCmp_order : Std.TransCmp order where
  eq_swap {a b} := by
    have hn := transCmp_orderTo (sizeOf a + sizeOf b)
    rw [order_eq_orderTo _ a (Nat.le_add_right _ (sizeOf b)),
      order_eq_orderTo _ b (Nat.le_add_left _ (sizeOf a))]
    exact Std.OrientedCmp.eq_swap
  isLE_trans {a b c} hab hbc := by
    have hn := transCmp_orderTo (sizeOf a + sizeOf b)
    have ha := order_eq_orderTo (sizeOf a + sizeOf b) a (Nat.le_add_right _ _)
    have hb := order_eq_orderTo (sizeOf a + sizeOf b) b (Nat.le_add_left _ _)
    rw [ha] at hab ⊢
    rw [hb] at hbc
    exact Std.TransCmp.isLE_trans hab hbc

end Value

end ColumnQuery
