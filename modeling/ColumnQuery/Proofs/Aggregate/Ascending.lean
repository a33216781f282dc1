/-
  The order of a table of distinct values.

  A rank gives values numbers, the same one to values that are the same. If the values of two
  tables are in ascending order by two ranks, the tables list the same values in the same order
  exactly if they hold the same values and the ranks order them alike (`sameItems_iff`). The most
  frequent value of a table is the one of least rank among those that occur most often
  (`Favourite`), so two tables have one most frequent value exactly if one value is the favourite
  of both (`same_mostFrequent_iff`).
-/
import ColumnQuery.Proofs.Aggregate.Distinct
import Mathlib.Data.List.Induction

namespace ColumnQuery

/-! ## Tables in ascending order -/

/-- The values of a table are in ascending order by a rank, and their ranks are below a bound. -/
structure Ascending (rank : Value → Nat) (bound : Nat) (table : List (Value × Nat)) : Prop where
  pairwise : (table.map (·.1)).Pairwise fun v w => rank v < rank w
  lt_bound : ∀ e ∈ table, rank e.1 < bound

namespace Ascending

variable {rank other : Value → Nat} {bound bound' : Nat} {table : List (Value × Nat)} {v : Value}

theorem mono (h : Ascending rank bound table) (hle : bound ≤ bound') :
    Ascending rank bound' table :=
  ⟨h.pairwise, fun e he => Nat.lt_of_lt_of_le (h.lt_bound e he) hle⟩

/-- Only the ranks of the values in the table matter. -/
theorem congr (h : Ascending rank bound table) (hrank : ∀ e ∈ table, rank e.1 = other e.1) :
    Ascending other bound table := by
  refine ⟨h.pairwise.imp_of_mem fun {v w} hv hw hlt => ?_, fun e he => ?_⟩
  · obtain ⟨d, hd, rfl⟩ := List.mem_map.1 hv
    obtain ⟨e, he, rfl⟩ := List.mem_map.1 hw
    rwa [← hrank d hd, ← hrank e he]
  · rw [← hrank e he]
    exact h.lt_bound e he

/-- A new value comes last. -/
theorem countValue (h : Ascending rank bound table)
    (hnew : (∀ e ∈ table, e.1.same v = false) → rank v = bound) :
    Ascending rank (bound + 1) (countValue v table) := by
  rcases countValue_cases v table with ⟨before, w, n, after, rfl, -, heq⟩ | ⟨hnone, heq⟩
  · rw [heq]
    have hmap : (before ++ (w, n + 1) :: after).map (·.1)
        = (before ++ (w, n) :: after).map (·.1) := by simp
    refine ⟨hmap ▸ h.pairwise, fun e he => ?_⟩
    have hmem : e.1 ∈ (before ++ (w, n) :: after).map (·.1) := hmap ▸ List.mem_map_of_mem he
    obtain ⟨d, hd, hde⟩ := List.mem_map.1 hmem
    rw [← hde]
    exact Nat.lt_succ_of_lt (h.lt_bound d hd)
  · rw [heq]
    have hv := hnew hnone
    refine ⟨?_, fun e he => ?_⟩
    · rw [List.map_append, List.pairwise_append]
      refine ⟨h.pairwise, List.pairwise_singleton _ _, fun a ha b hb => ?_⟩
      obtain ⟨d, hd, rfl⟩ := List.mem_map.1 ha
      rw [List.mem_singleton.1 hb, hv]
      exact h.lt_bound d hd
    · rcases List.mem_append.1 he with he | he
      · exact Nat.lt_succ_of_lt (h.lt_bound e he)
      · rw [List.mem_singleton.1 he, hv]
        exact Nat.lt_succ_self bound

/-- The values that stay keep their order. -/
theorem uncountValue (h : Ascending rank bound table) (v : Value) :
    Ascending rank bound (uncountValue v table) := by
  rcases uncountValue_cases v table with ⟨before, w, n, after, rfl, -, heq⟩ | ⟨-, heq⟩
  · have hsub : ((ColumnQuery.uncountValue v (before ++ (w, n) :: after)).map (·.1)).Sublist
        ((before ++ (w, n) :: after).map (·.1)) := by
      rw [heq, List.map_append, List.map_append]
      refine List.Sublist.append_left ?_ _
      split
      · exact List.sublist_cons_self _ _
      · exact List.Sublist.refl _
    refine ⟨h.pairwise.sublist hsub, fun e he => ?_⟩
    obtain ⟨d, hd, hde⟩ := List.mem_map.1 (hsub.subset (List.mem_map_of_mem he))
    rw [← hde]
    exact h.lt_bound d hd
  · rw [heq]
    exact h

end Ascending

/-! ## Lists of the same values -/

section Lists

variable {rank : Value → Nat} {ks ls : List Value}

theorem related_of_pairwise {R : Value → Value → Prop} (h : ks.Pairwise R) {v w : Value}
    (hv : v ∈ ks) (hw : w ∈ ks) : v = w ∨ R v w ∨ R w v := by
  refine List.Pairwise.forall_of_forall_of_flip (R := fun v w => v = w ∨ R v w ∨ R w v)
    (fun _ _ => .inl rfl) ?_ ?_ hv hw
  · exact h.imp fun hvw => .inr (.inl hvw)
  · exact h.imp fun hvw => .inr (.inr hvw)

theorem exists_mem_of_sameItems (h : Value.sameItems ks ls = true) {l : Value} (hl : l ∈ ls) :
    ∃ k ∈ ks, k.same l = true := by
  induction ks generalizing ls with
  | nil =>
    cases ls with
    | nil => cases hl
    | cons => cases h
  | cons k ks ih =>
    cases ls with
    | nil => cases hl
    | cons m ls =>
      obtain ⟨hhead, htail⟩ := Bool.and_eq_true_iff.1 h
      rcases List.mem_cons.1 hl with rfl | hl
      · exact ⟨k, List.mem_cons_self, hhead⟩
      · obtain ⟨k', hk', hsame⟩ := ih htail hl
        exact ⟨k', List.mem_cons_of_mem _ hk', hsame⟩

theorem pairwise_of_sameItems (hrank : ∀ v w : Value, v.same w = true → rank v = rank w)
    (h : Value.sameItems ks ls = true) (hks : ks.Pairwise fun v w => rank v < rank w) :
    ls.Pairwise fun v w => rank v < rank w := by
  induction ks generalizing ls with
  | nil =>
    cases ls with
    | nil => exact List.Pairwise.nil
    | cons => cases h
  | cons k ks ih =>
    cases ls with
    | nil => cases h
    | cons l ls =>
      obtain ⟨hhead, htail⟩ := Bool.and_eq_true_iff.1 h
      obtain ⟨hfirst, hlater⟩ := List.pairwise_cons.1 hks
      refine List.pairwise_cons.2 ⟨fun m hm => ?_, ih htail hlater⟩
      obtain ⟨k', hk', hsame⟩ := exists_mem_of_sameItems htail hm
      rw [← hrank k l hhead, ← hrank k' m hsame]
      exact hfirst k' hk'

theorem le_of_pairwise_cons {v w : Value} {vs : List Value}
    (h : (v :: vs).Pairwise fun v w => rank v < rank w) (hw : w ∈ v :: vs) : rank v ≤ rank w := by
  rcases List.mem_cons.1 hw with rfl | hw
  · exact Nat.le_refl _
  · exact Nat.le_of_lt ((List.pairwise_cons.1 h).1 w hw)

/-- A value after the first of one list is one after the first of another list that begins with
    the same rank. -/
theorem exists_same_tail {v w : Value} {vs ws : List Value}
    (hrank : ∀ v w : Value, v.same w = true → rank v = rank w)
    (hvs : (v :: vs).Pairwise fun v w => rank v < rank w) (heq : rank v = rank w)
    (hvw : ∀ u ∈ v :: vs, ∃ x ∈ w :: ws, x.same u = true) :
    ∀ u ∈ vs, ∃ x ∈ ws, x.same u = true := by
  intro u hu
  obtain ⟨x, hx, hsame⟩ := hvw u (List.mem_cons_of_mem _ hu)
  rcases List.mem_cons.1 hx with rfl | hx
  · have hlt := (List.pairwise_cons.1 hvs).1 u hu
    rw [heq, hrank x u hsame] at hlt
    exact absurd hlt (Nat.lt_irrefl _)
  · exact ⟨x, hx, hsame⟩

/-- Values in ascending order are determined by which they are. -/
theorem sameItems_of_pairwise (hrank : ∀ v w : Value, v.same w = true → rank v = rank w)
    (hks : ks.Pairwise fun v w => rank v < rank w) (hls : ls.Pairwise fun v w => rank v < rank w)
    (hkl : ∀ k ∈ ks, ∃ l ∈ ls, l.same k = true) (hlk : ∀ l ∈ ls, ∃ k ∈ ks, k.same l = true) :
    Value.sameItems ks ls = true := by
  induction ks generalizing ls with
  | nil =>
    cases ls with
    | nil => rfl
    | cons l ls =>
      obtain ⟨k, hk, -⟩ := hlk l List.mem_cons_self
      cases hk
  | cons k ks ih =>
    cases ls with
    | nil =>
      obtain ⟨l, hl, -⟩ := hkl k List.mem_cons_self
      cases hl
    | cons l ls =>
      -- the two first values have the least rank
      have heq : rank k = rank l := by
        obtain ⟨l', hl', hlsame⟩ := hkl k List.mem_cons_self
        obtain ⟨k', hk', hksame⟩ := hlk l List.mem_cons_self
        have hle := le_of_pairwise_cons hls hl'
        have hle' := le_of_pairwise_cons hks hk'
        rw [hrank l' k hlsame] at hle
        rw [hrank k' l hksame] at hle'
        exact Nat.le_antisymm hle' hle
      have hhead : k.same l = true := by
        obtain ⟨l', hl', hlsame⟩ := hkl k List.mem_cons_self
        rcases List.mem_cons.1 hl' with rfl | hl'
        · exact Value.same_symm hlsame
        · have hlt := (List.pairwise_cons.1 hls).1 l' hl'
          rw [hrank l' k hlsame, heq] at hlt
          exact absurd hlt (Nat.lt_irrefl _)
      exact Bool.and_eq_true_iff.2 ⟨hhead, ih (List.Pairwise.of_cons hks)
        (List.Pairwise.of_cons hls) (exists_same_tail hrank hks heq hkl)
        (exists_same_tail hrank hls heq.symm hlk)⟩

end Lists

/-! ## Two tables -/

theorem Tally.occurs_iff {table : List (Value × Nat)} {vs : List Value} (h : Tally table vs)
    {v : Value} : 0 < occurrences v vs ↔ ∃ k ∈ table.map (·.1), k.same v = true := by
  constructor
  · intro hpos
    obtain ⟨w, hw, hvw⟩ := occurrences_pos.1 hpos
    obtain ⟨e, he, hew⟩ := h.covers w hw
    exact ⟨e.1, List.mem_map_of_mem he, Value.same_trans hew (Value.same_symm hvw)⟩
  · rintro ⟨k, hk, hkv⟩
    obtain ⟨e, he, rfl⟩ := List.mem_map.1 hk
    obtain ⟨hcount, hpos⟩ := h.counts e he
    rwa [hcount, occurrences_congr hkv] at hpos

section Tables

variable {rank other : Value → Nat} {bound bound' : Nat} {table table' : List (Value × Nat)}
  {vs ws : List Value}

/-- Two ascending tables list the same values exactly if they hold the same values, and one rank
    orders them as the other one does. -/
theorem sameItems_iff (hrank : ∀ v w : Value, v.same w = true → rank v = rank w)
    (hother : ∀ v w : Value, v.same w = true → other v = other w)
    (h : Tally table vs) (hasc : Ascending rank bound table)
    (h' : Tally table' ws) (hasc' : Ascending other bound' table') :
    Value.sameItems (table.map (·.1)) (table'.map (·.1)) = true ↔
      (∀ v, 0 < occurrences v vs ↔ 0 < occurrences v ws) ∧
      ∀ v w, 0 < occurrences v ws → 0 < occurrences w ws → other v < other w → rank v < rank w := by
  constructor
  · intro hsame
    refine ⟨fun v => ?_, fun v w hv hw hlt => ?_⟩
    · rw [h.occurs_iff, h'.occurs_iff]
      constructor
      · rintro ⟨k, hk, hkv⟩
        obtain ⟨l, hl, hlk⟩ := exists_mem_of_sameItems (Value.sameItems_symm hsame) hk
        exact ⟨l, hl, Value.same_trans hlk hkv⟩
      · rintro ⟨l, hl, hlv⟩
        obtain ⟨k, hk, hkl⟩ := exists_mem_of_sameItems hsame hl
        exact ⟨k, hk, Value.same_trans hkl hlv⟩
    · obtain ⟨k, hk, hkv⟩ := h'.occurs_iff.1 hv
      obtain ⟨l, hl, hlw⟩ := h'.occurs_iff.1 hw
      rw [← hother k v hkv, ← hother l w hlw] at hlt
      rw [← hrank k v hkv, ← hrank l w hlw]
      -- the second table is in ascending order by both ranks
      have hboth := hasc'.pairwise.and (pairwise_of_sameItems hrank hsame hasc.pairwise)
      rcases related_of_pairwise hboth hk hl with rfl | hkl | hlk
      · exact absurd hlt (Nat.lt_irrefl _)
      · exact hkl.2
      · exact absurd hlt (Nat.lt_asymm hlk.1)
  · rintro ⟨hoccurs, halike⟩
    have hmem : ∀ {t : List (Value × Nat)} {us : List Value}, Tally t us →
        ∀ k ∈ t.map (·.1), 0 < occurrences k us :=
      fun ht k hk => ht.occurs_iff.2 ⟨k, hk, Value.same_refl k⟩
    refine sameItems_of_pairwise hrank hasc.pairwise ?_ (fun k hk => ?_) fun l hl => ?_
    · exact hasc'.pairwise.imp_of_mem fun ha hb hlt => halike _ _ (hmem h' _ ha) (hmem h' _ hb) hlt
    · exact h'.occurs_iff.1 ((hoccurs k).1 (hmem h k hk))
    · exact h.occurs_iff.1 ((hoccurs l).2 (hmem h' l hl))

/-- In a table values of equal rank are the same. -/
theorem Ascending.same_of_rank_eq (hrank : ∀ v w : Value, v.same w = true → rank v = rank w)
    (h : Tally table vs) (hasc : Ascending rank bound table) {v w : Value}
    (hv : 0 < occurrences v vs) (hw : 0 < occurrences w vs) (heq : rank v = rank w) :
    v.same w = true := by
  obtain ⟨k, hk, hkv⟩ := h.occurs_iff.1 hv
  obtain ⟨l, hl, hlw⟩ := h.occurs_iff.1 hw
  rw [← hrank k v hkv, ← hrank l w hlw] at heq
  have hkl : k = l := by
    rcases related_of_pairwise hasc.pairwise hk hl with hkl | hkl | hlk
    · exact hkl
    · exact absurd hkl (by omega)
    · exact absurd hlk (by omega)
  rw [hkl] at hkv
  exact Value.same_trans (Value.same_symm hkv) hlw

end Tables

/-! ## The most frequent value -/

/-- Of the values that occur most often, the one of least rank. -/
structure Favourite (rank : Value → Nat) (vs : List Value) (m : Value) : Prop where
  occurs : 0 < occurrences m vs
  most : ∀ v, occurrences v vs ≤ occurrences m vs
  first : ∀ v, occurrences v vs = occurrences m vs → rank m ≤ rank v

/-- The entry of the most frequent value. -/
def mostFrequentEntry (table : List (Value × Nat)) : Option (Value × Nat) :=
  table.foldl (fun (best : Option (Value × Nat)) e =>
    match best with
    | some b => if b.2 < e.2 then some e else some b
    | none => some e) none

theorem mostFrequent_eq (table : List (Value × Nat)) :
    mostFrequent table = (mostFrequentEntry table).map (·.1) := rfl

theorem mostFrequentEntry_append (table : List (Value × Nat)) (e : Value × Nat) :
    mostFrequentEntry (table ++ [e]) = match mostFrequentEntry table with
      | some b => if b.2 < e.2 then some e else some b
      | none => some e := by
  unfold mostFrequentEntry
  rw [List.foldl_append]
  rfl

/-- The first entry with the greatest number. -/
theorem mostFrequentEntry_spec (table : List (Value × Nat)) :
    (table = [] ∧ mostFrequentEntry table = none) ∨
    ∃ before m after, table = before ++ m :: after ∧ mostFrequentEntry table = some m ∧
      (∀ e ∈ before, e.2 < m.2) ∧ ∀ e ∈ after, e.2 ≤ m.2 := by
  induction table using List.reverseRecOn with
  | nil => exact .inl ⟨rfl, rfl⟩
  | append_singleton table e ih =>
    refine .inr ?_
    rw [mostFrequentEntry_append]
    rcases ih with ⟨rfl, hnone⟩ | ⟨before, m, after, rfl, hsome, hbefore, hafter⟩
    · rw [hnone]
      exact ⟨[], e, [], rfl, rfl, by simp, by simp⟩
    · rw [hsome]
      by_cases hlt : m.2 < e.2
      · refine ⟨before ++ m :: after, e, [], rfl, if_pos hlt, fun d hd => ?_, by simp⟩
        rcases List.mem_append.1 hd with hd | hd
        · exact Nat.lt_trans (hbefore d hd) hlt
        rcases List.mem_cons.1 hd with rfl | hd
        · exact hlt
        · exact Nat.lt_of_le_of_lt (hafter d hd) hlt
      · refine ⟨before, m, after ++ [e], by simp, if_neg hlt, hbefore, fun d hd => ?_⟩
        rcases List.mem_append.1 hd with hd | hd
        · exact hafter d hd
        · rw [List.mem_singleton.1 hd]
          exact Nat.le_of_not_lt hlt

section Tables

variable {rank other : Value → Nat} {bound bound' : Nat} {table table' : List (Value × Nat)}
  {vs ws : List Value} {m k : Value}

theorem mostFrequent_eq_none (h : Tally table vs) : mostFrequent table = none ↔ vs = [] := by
  rw [mostFrequent_eq, Option.map_eq_none_iff]
  constructor
  · intro hnone
    rcases mostFrequentEntry_spec table with ⟨rfl, -⟩ | ⟨_, m, _, -, hsome, -⟩
    · refine List.eq_nil_iff_forall_not_mem.2 fun v hv => ?_
      obtain ⟨e, he, -⟩ := h.covers v hv
      cases he
    · cases hsome.symm.trans hnone
  · rintro rfl
    rw [h.eq_nil]
    rfl

/-- The most frequent value of an ascending table is the favourite. -/
theorem favourite_mostFrequent (hrank : ∀ v w : Value, v.same w = true → rank v = rank w)
    (h : Tally table vs) (hasc : Ascending rank bound table) (hm : mostFrequent table = some m) :
    Favourite rank vs m := by
  rcases mostFrequentEntry_spec table with ⟨rfl, -⟩ | ⟨before, e, after, rfl, hsome, hbefore, hafter⟩
  · cases hm
  have hme : mostFrequent (before ++ e :: after) = some e.1 := by
    rw [mostFrequent_eq, hsome]
    rfl
  obtain rfl : e.1 = m := Option.some.inj (hme.symm.trans hm)
  have hmem : e ∈ before ++ e :: after := List.mem_append_right _ List.mem_cons_self
  obtain ⟨hcount, hpos⟩ := h.counts e hmem
  rw [hcount] at hpos
  -- a value that occurs is counted at an entry
  have hentry : ∀ v, 0 < occurrences v vs →
      ∃ d ∈ before ++ e :: after, d.2 = occurrences v vs ∧ rank d.1 = rank v := by
    intro v hv
    obtain ⟨k, hk, hkv⟩ := h.occurs_iff.1 hv
    obtain ⟨d, hd, rfl⟩ := List.mem_map.1 hk
    exact ⟨d, hd, (h.counts d hd).1.trans (occurrences_congr hkv vs), hrank _ _ hkv⟩
  refine ⟨hpos, fun v => ?_, fun v hv => ?_⟩
  · rcases Nat.eq_zero_or_pos (occurrences v vs) with hzero | hv
    · rw [hzero]
      exact Nat.zero_le _
    · obtain ⟨d, hd, hdv, -⟩ := hentry v hv
      rw [← hcount, ← hdv]
      rcases List.mem_append.1 hd with hd | hd
      · exact Nat.le_of_lt (hbefore d hd)
      rcases List.mem_cons.1 hd with rfl | hd
      · exact Nat.le_refl _
      · exact hafter d hd
  · obtain ⟨d, hd, hdv, hdrank⟩ := hentry v (hv ▸ hpos)
    rw [hv, ← hcount] at hdv
    rw [← hdrank]
    have hpairwise := hasc.pairwise
    rw [List.map_append, List.map_cons] at hpairwise
    obtain ⟨hlater, -⟩ := List.pairwise_cons.1 (List.pairwise_append.1 hpairwise).2.1
    rcases List.mem_append.1 hd with hd | hd
    · exact absurd (hbefore d hd) (by omega)
    rcases List.mem_cons.1 hd with rfl | hd
    · exact Nat.le_refl _
    · exact Nat.le_of_lt (hlater d.1 (List.mem_map_of_mem hd))

/-- In a table there is one favourite. -/
theorem Favourite.same (hrank : ∀ v w : Value, v.same w = true → rank v = rank w)
    (h : Tally table vs) (hasc : Ascending rank bound table) (hm : Favourite rank vs m)
    (hk : Favourite rank vs k) : m.same k = true := by
  have hcount : occurrences m vs = occurrences k vs := Nat.le_antisymm (hk.most m) (hm.most k)
  exact hasc.same_of_rank_eq hrank h hm.occurs hk.occurs
    (Nat.le_antisymm (hm.first k hcount.symm) (hk.first m hcount))

theorem Favourite.congr (hrank : ∀ v w : Value, v.same w = true → rank v = rank w)
    (hm : Favourite rank vs m) (h : m.same k = true) : Favourite rank vs k := by
  obtain ⟨hoccurs, hmost, hfirst⟩ := hm
  rw [hrank m k h] at hfirst
  rw [occurrences_congr h] at hoccurs hmost hfirst
  exact ⟨hoccurs, hmost, hfirst⟩

/-- Null is not the same as a value that occurs among valid ones. -/
theorem null_same_of_occurs (hvs : ∀ v ∈ vs, v.isValid = true) (hk : 0 < occurrences k vs) :
    Value.null.same k = false := by
  obtain ⟨u, hu, hku⟩ := occurrences_pos.1 hk
  rw [Value.same_congr_right hku]
  have hvalid := hvs u hu
  cases u with
  | null => cases hvalid
  | _ => rfl

/-- Two tables of valid values have the same most frequent value exactly if they are empty or
    one value is the favourite of both. -/
theorem same_mostFrequent_iff (hrank : ∀ v w : Value, v.same w = true → rank v = rank w)
    (hother : ∀ v w : Value, v.same w = true → other v = other w)
    (h : Tally table vs) (hasc : Ascending rank bound table)
    (h' : Tally table' ws) (hasc' : Ascending other bound' table')
    (hvs : ∀ v ∈ vs, v.isValid = true) (hws : ∀ v ∈ ws, v.isValid = true) :
    (Value.ofOption (mostFrequent table)).same (Value.ofOption (mostFrequent table')) = true ↔
      (vs = [] ∧ ws = []) ∨ ∃ m, Favourite rank vs m ∧ Favourite other ws m := by
  have hnil : ∀ {rank : Value → Nat} {m : Value}, ¬ Favourite rank [] m :=
    fun hm => Nat.lt_irrefl 0 hm.occurs
  cases hk : mostFrequent table with
  | none =>
    obtain rfl := (mostFrequent_eq_none h).1 hk
    cases hl : mostFrequent table' with
    | none =>
      obtain rfl := (mostFrequent_eq_none h').1 hl
      exact ⟨fun _ => .inl ⟨rfl, rfl⟩, fun _ => rfl⟩
    | some l =>
      have hfavourite := favourite_mostFrequent hother h' hasc' hl
      have hnull : (Value.ofOption none).same (Value.ofOption (some l)) = false :=
        null_same_of_occurs hws hfavourite.occurs
      rw [hnull]
      refine ⟨fun hfalse => (Bool.false_ne_true hfalse).elim, ?_⟩
      rintro (⟨-, rfl⟩ | ⟨m, hm, -⟩)
      · exact (hnil hfavourite).elim
      · exact (hnil hm).elim
  | some k =>
    have hfavourite := favourite_mostFrequent hrank h hasc hk
    cases hl : mostFrequent table' with
    | none =>
      obtain rfl := (mostFrequent_eq_none h').1 hl
      have hnull : (Value.ofOption (some k)).same (Value.ofOption none) = false :=
        (Value.same_comm k .null).trans (null_same_of_occurs hvs hfavourite.occurs)
      rw [hnull]
      refine ⟨fun hfalse => (Bool.false_ne_true hfalse).elim, ?_⟩
      rintro (⟨rfl, -⟩ | ⟨m, -, hm⟩)
      · exact (hnil hfavourite).elim
      · exact (hnil hm).elim
    | some l =>
      have hfavourite' := favourite_mostFrequent hother h' hasc' hl
      show k.same l = true ↔ _
      constructor
      · exact fun hkl => .inr ⟨l, hfavourite.congr hrank hkl, hfavourite'⟩
      · rintro (⟨rfl, -⟩ | ⟨m, hm, hm'⟩)
        · exact (hnil hfavourite).elim
        · exact Value.same_trans (hfavourite.same hrank h hasc hm)
            (hm'.same hother h' hasc' hfavourite')

end Tables

end ColumnQuery
