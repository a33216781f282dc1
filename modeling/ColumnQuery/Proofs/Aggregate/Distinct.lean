/-
  The table of distinct values.

  The table holds every value that occurs once, with the number of its occurrences (`Tally`).
  Counting one occurrence more or less keeps it so, and leaves the values in the order in which
  they stand: a new value is put at the end, and a value goes when its last occurrence does.
-/
import ColumnQuery.Aggregate.State
import ColumnQuery.Proofs.Value.Same

namespace ColumnQuery

/-! ## Counting -/

/-- One occurrence more is counted at the value that is the same, or else at the end. -/
theorem countValue_cases (v : Value) (table : List (Value × Nat)) :
    (∃ before w n after, table = before ++ (w, n) :: after ∧ w.same v = true ∧
      countValue v table = before ++ (w, n + 1) :: after) ∨
    ((∀ e ∈ table, e.1.same v = false) ∧ countValue v table = table ++ [(v, 1)]) := by
  induction table with
  | nil => exact .inr ⟨by simp, rfl⟩
  | cons e rest ih =>
    obtain ⟨w, n⟩ := e
    unfold countValue
    by_cases hw : w.same v = true
    · rw [if_pos hw]
      exact .inl ⟨[], w, n, rest, rfl, hw, rfl⟩
    · rw [if_neg hw]
      rcases ih with ⟨before, u, m, after, rfl, hu, heq⟩ | ⟨hnone, heq⟩
      · exact .inl ⟨(w, n) :: before, u, m, after, rfl, hu, by rw [heq]; rfl⟩
      · refine .inr ⟨fun e he => ?_, by rw [heq]; rfl⟩
        rcases List.mem_cons.1 he with rfl | he
        · exact Bool.eq_false_iff.2 hw
        · exact hnone e he

/-- One occurrence less is counted at the value that is the same, if there is one. -/
theorem uncountValue_cases (v : Value) (table : List (Value × Nat)) :
    (∃ before w n after, table = before ++ (w, n) :: after ∧ w.same v = true ∧
      uncountValue v table
        = before ++ (if n ≤ 1 then after else (w, n - 1) :: after)) ∨
    ((∀ e ∈ table, e.1.same v = false) ∧ uncountValue v table = table) := by
  induction table with
  | nil => exact .inr ⟨by simp, rfl⟩
  | cons e rest ih =>
    obtain ⟨w, n⟩ := e
    unfold uncountValue
    by_cases hw : w.same v = true
    · rw [if_pos hw]
      exact .inl ⟨[], w, n, rest, rfl, hw, rfl⟩
    · rw [if_neg hw]
      rcases ih with ⟨before, u, m, after, rfl, hu, heq⟩ | ⟨hnone, heq⟩
      · exact .inl ⟨(w, n) :: before, u, m, after, rfl, hu, by rw [heq]; rfl⟩
      · refine .inr ⟨fun e he => ?_, by rw [heq]⟩
        rcases List.mem_cons.1 he with rfl | he
        · exact Bool.eq_false_iff.2 hw
        · exact hnone e he

/-! ## Tallies -/

/-- No two values are the same. -/
def Apart (vs : List Value) : Prop := vs.Pairwise fun v w => v.same w = false

/-- How often a value occurs. -/
def occurrences (v : Value) (vs : List Value) : Nat := vs.countP v.same

/-- Every value that occurs, once, with the number of its occurrences. -/
structure Tally (table : List (Value × Nat)) (vs : List Value) : Prop where
  apart : Apart (table.map (·.1))
  counts : ∀ e ∈ table, e.2 = occurrences e.1 vs ∧ 0 < e.2
  covers : ∀ v ∈ vs, ∃ e ∈ table, e.1.same v = true

theorem occurrences_pos {v : Value} {vs : List Value} :
    0 < occurrences v vs ↔ ∃ w ∈ vs, v.same w = true :=
  List.countP_pos_iff

theorem occurrences_append (v : Value) (vs ws : List Value) :
    occurrences v (vs ++ ws) = occurrences v vs + occurrences v ws :=
  List.countP_append

theorem occurrences_cons (v w : Value) (vs : List Value) :
    occurrences v (w :: vs) = occurrences v vs + if v.same w then 1 else 0 :=
  List.countP_cons

theorem occurrences_congr {v w : Value} (h : v.same w = true) (vs : List Value) :
    occurrences v vs = occurrences w vs := by
  unfold occurrences
  congr 1
  funext u
  exact Value.same_congr_left h u

theorem tally_nil : Tally [] [] where
  apart := List.Pairwise.nil
  counts := by simp
  covers := by simp

namespace Tally

variable {table before after : List (Value × Nat)} {vs : List Value} {v w : Value} {n : Nat}

/-- Around one entry, the others are of other values. -/
theorem others (h : Tally (before ++ (w, n) :: after) vs) (hw : w.same v = true) :
    ∀ e ∈ before ++ after, e.1.same v = false := by
  have hapart := h.apart
  unfold Apart at hapart
  rw [List.map_append, List.map_cons] at hapart
  obtain ⟨-, htail, hcross⟩ := List.pairwise_append.1 hapart
  obtain ⟨hhead, -⟩ := List.pairwise_cons.1 htail
  intro e he
  rw [← Value.same_congr_right hw]
  rcases List.mem_append.1 he with he | he
  · exact hcross e.1 (List.mem_map_of_mem he) w List.mem_cons_self
  · rw [Value.same_comm]
    exact hhead e.1 (List.mem_map_of_mem he)

theorem mem_split {e : Value × Nat} (h : e ∈ before ++ (w, n) :: after) :
    e ∈ before ++ after ∨ e = (w, n) := by
  rcases List.mem_append.1 h with h | h
  · exact .inl (List.mem_append_left _ h)
  rcases List.mem_cons.1 h with h | h
  · exact .inr h
  · exact .inl (List.mem_append_right _ h)

theorem mem_of_mem_others {e : Value × Nat} (n : Nat) (h : e ∈ before ++ after) :
    e ∈ before ++ (w, n) :: after := by
  rcases List.mem_append.1 h with h | h
  · exact List.mem_append_left _ h
  · exact List.mem_append_right _ (List.mem_cons_of_mem _ h)

/-- The counts of the others stay, as far as they go. -/
theorem counts_others (h : Tally (before ++ (w, n) :: after) vs) {us : List Value}
    (hus : ∀ u, w.same u = false → occurrences u us = occurrences u vs) :
    ∀ e ∈ before ++ after, e.2 = occurrences e.1 us ∧ 0 < e.2 := by
  intro e he
  have hw := h.others (Value.same_refl w) e he
  rw [hus e.1 (by rw [Value.same_comm]; exact hw)]
  exact h.counts e (mem_of_mem_others n he)

/-- Only the number of one value changes. -/
theorem recount (h : Tally (before ++ (w, n) :: after) vs) {us : List Value} {m : Nat}
    (hm : m = occurrences w us) (hpos : 0 < m)
    (hus : ∀ u, w.same u = false → occurrences u us = occurrences u vs) :
    Tally (before ++ (w, m) :: after) us := by
  refine ⟨?_, fun e he => ?_, fun u hu => ?_⟩
  · have hmap : (before ++ (w, m) :: after).map (·.1) = (before ++ (w, n) :: after).map (·.1) := by
      simp
    rw [hmap]
    exact h.apart
  · rcases mem_split he with he | rfl
    · exact h.counts_others hus e he
    · exact ⟨hm, hpos⟩
  · by_cases hwu : w.same u = true
    · exact ⟨(w, m), by simp, hwu⟩
    · have hpos : 0 < occurrences u vs := by
        rw [← hus u (Bool.eq_false_iff.2 hwu)]
        exact occurrences_pos.2 ⟨u, hu, Value.same_refl u⟩
      obtain ⟨x, hx, hux⟩ := occurrences_pos.1 hpos
      obtain ⟨e, he, hex⟩ := h.covers x hx
      have heu := Value.same_trans hex (Value.same_symm hux)
      rcases mem_split he with he | rfl
      · exact ⟨e, mem_of_mem_others m he, heu⟩
      · exact absurd heu hwu

/-- One value goes. -/
theorem discard (h : Tally (before ++ (w, n) :: after) vs) {us : List Value}
    (hw : occurrences w us = 0)
    (hus : ∀ u, w.same u = false → occurrences u us = occurrences u vs) :
    Tally (before ++ after) us := by
  refine ⟨?_, h.counts_others hus, fun u hu => ?_⟩
  · refine h.apart.sublist (List.Sublist.map _ ?_)
    exact List.Sublist.append_left (List.sublist_cons_self _ _) before
  · have hwu : w.same u = false := by
      rw [Bool.eq_false_iff]
      intro hwu
      exact absurd (occurrences_pos.2 ⟨u, hu, hwu⟩) (by omega)
    have hpos : 0 < occurrences u vs := by
      rw [← hus u hwu]
      exact occurrences_pos.2 ⟨u, hu, Value.same_refl u⟩
    obtain ⟨x, hx, hux⟩ := occurrences_pos.1 hpos
    obtain ⟨e, he, hex⟩ := h.covers x hx
    have heu := Value.same_trans hex (Value.same_symm hux)
    rcases mem_split he with he | rfl
    · exact ⟨e, he, heu⟩
    · rw [hwu] at heu
      cases heu

theorem occurrences_of_none (h : Tally table vs) (hv : ∀ e ∈ table, e.1.same v = false) :
    occurrences v vs = 0 := by
  refine Nat.eq_zero_of_not_pos fun hpos => ?_
  obtain ⟨u, hu, hvu⟩ := occurrences_pos.1 hpos
  obtain ⟨e, he, heu⟩ := h.covers u hu
  have hev := Value.same_trans heu (Value.same_symm hvu)
  rw [hv e he] at hev
  cases hev

theorem countValue (h : Tally table vs) (v : Value) :
    Tally (countValue v table) (vs ++ [v]) := by
  have hus : ∀ u, v.same u = false → occurrences u (vs ++ [v]) = occurrences u vs := by
    intro u hu
    rw [occurrences_append, occurrences_cons, Value.same_comm, if_neg (by rw [hu]; decide)]
    rfl
  rcases countValue_cases v table with ⟨before, w, n, after, rfl, hw, heq⟩ | ⟨hnone, heq⟩
  · rw [heq]
    refine h.recount ?_ (Nat.succ_pos n) fun u hu => hus u ?_
    · rw [occurrences_append, occurrences_cons, if_pos hw, ← (h.counts (w, n) (by simp)).1]
      rfl
    · rw [← Value.same_congr_left hw]
      exact hu
  · rw [heq]
    refine ⟨?_, fun e he => ?_, fun u hu => ?_⟩
    · unfold Apart
      rw [List.map_append, List.pairwise_append]
      refine ⟨h.apart, List.pairwise_singleton _ _, fun a ha b hb => ?_⟩
      obtain ⟨e, he, rfl⟩ := List.mem_map.1 ha
      rw [List.mem_singleton.1 hb]
      exact hnone e he
    · rcases List.mem_append.1 he with he | he
      · rw [hus e.1 (by rw [Value.same_comm]; exact hnone e he)]
        exact h.counts e he
      · rw [List.mem_singleton.1 he, occurrences_append, h.occurrences_of_none hnone,
          occurrences_cons, if_pos (Value.same_refl v)]
        exact ⟨rfl, Nat.one_pos⟩
    · rcases List.mem_append.1 hu with hu | hu
      · obtain ⟨e, he, heu⟩ := h.covers u hu
        exact ⟨e, List.mem_append_left _ he, heu⟩
      · rw [List.mem_singleton.1 hu]
        exact ⟨(v, 1), by simp, Value.same_refl v⟩

theorem uncountValue (h : Tally table (v :: vs)) : Tally (uncountValue v table) vs := by
  have hus : ∀ u, v.same u = false → occurrences u vs = occurrences u (v :: vs) := by
    intro u hu
    rw [occurrences_cons, Value.same_comm, if_neg (by rw [hu]; decide)]
    rfl
  rcases uncountValue_cases v table with ⟨before, w, n, after, rfl, hw, heq⟩ | ⟨hnone, -⟩
  · have hn : n = occurrences w vs + 1 := by
      have hcount := (h.counts (w, n) (by simp)).1
      rwa [occurrences_cons, if_pos hw] at hcount
    have hothers : ∀ u, w.same u = false → occurrences u vs = occurrences u (v :: vs) := by
      intro u hu
      rw [Value.same_congr_left hw] at hu
      exact hus u hu
    rw [heq]
    split
    next hle => exact h.discard (by omega) hothers
    next hlt => exact h.recount (by omega) (by omega) hothers
  · have hzero := h.occurrences_of_none hnone
    rw [occurrences_cons, if_pos (Value.same_refl v)] at hzero
    omega

end Tally

/-! ## How many values there are -/

theorem length_le_of_apart {vs : List Value} (ws : List Value) (hvs : Apart vs)
    (h : ∀ v ∈ vs, ∃ w ∈ ws, w.same v = true) : vs.length ≤ ws.length := by
  induction vs generalizing ws with
  | nil => exact Nat.zero_le _
  | cons v vs ih =>
    obtain ⟨hv, hvs⟩ := List.pairwise_cons.1 hvs
    obtain ⟨w, hw, hwv⟩ := h v List.mem_cons_self
    obtain ⟨before, after, rfl⟩ := List.append_of_mem hw
    have hrest : ∀ u ∈ vs, ∃ x ∈ before ++ after, x.same u = true := by
      intro u hu
      obtain ⟨x, hx, hxu⟩ := h u (List.mem_cons_of_mem _ hu)
      rcases List.mem_append.1 hx with hx | hx
      · exact ⟨x, List.mem_append_left _ hx, hxu⟩
      rcases List.mem_cons.1 hx with rfl | hx
      · have hvu := Value.same_trans (Value.same_symm hwv) hxu
        rw [hv u hu] at hvu
        cases hvu
      · exact ⟨x, List.mem_append_right _ hx, hxu⟩
    have hle := ih _ hvs hrest
    rw [List.length_append] at hle
    rw [List.length_append, List.length_cons, List.length_cons]
    omega

namespace Tally

variable {table other : List (Value × Nat)} {vs : List Value}

theorem exists_mem (h : Tally table vs) {e : Value × Nat} (he : e ∈ table) :
    ∃ v ∈ vs, e.1.same v = true := by
  obtain ⟨hcount, hpos⟩ := h.counts e he
  rw [hcount] at hpos
  exact occurrences_pos.1 hpos

theorem eq_nil (h : Tally table []) : table = [] := by
  refine List.eq_nil_iff_forall_not_mem.2 fun e he => ?_
  obtain ⟨v, hv, -⟩ := h.exists_mem he
  cases hv

theorem length_le (h : Tally table vs) (h' : Tally other vs) : table.length ≤ other.length := by
  have hle := length_le_of_apart (other.map (·.1)) h.apart fun v hv => ?_
  · rwa [List.length_map, List.length_map] at hle
  · obtain ⟨e, he, rfl⟩ := List.mem_map.1 hv
    obtain ⟨u, hu, heu⟩ := h.exists_mem he
    obtain ⟨d, hd, hdu⟩ := h'.covers u hu
    exact ⟨d.1, List.mem_map_of_mem hd, Value.same_trans hdu (Value.same_symm heu)⟩

/-- However the values came and went, there are as many distinct ones. -/
theorem length_eq (h : Tally table vs) (h' : Tally other vs) : table.length = other.length :=
  Nat.le_antisymm (h.length_le h') (h'.length_le h)

end Tally

end ColumnQuery
