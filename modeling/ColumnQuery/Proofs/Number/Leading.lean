/-
  The number at the head of a text.

  Heads of a text are tried from the longest to the shortest until one spells a number
  (`leadingNumber_spec`). What spells a number is a decimal number or infinity written out, both
  with an optional sign (`Numeral`), but also the words `inf`, `infinity` and `nan` in any case
  (`spelled?_eq_some`). A head that begins with a digit or a point is no such word, and no word
  is longer than `Infinity`, so a longest numeral is what is read (`Leads.leadingNumber`). Without
  any, the words come up: `nan` is not-a-number all the same, but a text that begins with `inf` is
  read as infinity (`apply_parseFloat`). A head that breaks off at the mark of an exponent is never
  looked at, and spells no number either (`headNumber?_eq`).
-/
import ColumnQuery.Function.Scalar
import ColumnQuery.Proofs.Number.Written

namespace ColumnQuery

namespace Number

open Decimal

variable {cs p q ms es word : List Char} {c : Char} {negative : Bool} {v : Option Rat} {x : Float}

/-! ## Grammar -/

/-- The texts of decimal numbers and of infinity: whether there is a minus, and the magnitude, which
    infinity does not have. -/
inductive Numeral : List Char → Bool → Option Rat → Prop
  | infinity {sign : List Char} {negative : Bool} (hsign : Signed sign negative) :
    Numeral (sign ++ "Infinity".toList) negative none
  | decimal {sign cs es : List Char} {negative : Bool} {v : Rat} {e : Int}
    (hsign : Signed sign negative) (hmantissa : Mantissa cs v) (hexponent : Exponent es e) :
    Numeral (sign ++ (cs ++ es)) negative (some (v * 10 ^ e))

/-- The longest head of a text that is a numeral. -/
structure Leads (p cs : List Char) (negative : Bool) (v : Option Rat) : Prop where
  head : p <+: cs
  numeral : Numeral p negative v
  longest : ∀ q negative v, q <+: cs → Numeral q negative v → q.length ≤ p.length

/-- A sign and the first three letters of infinity, in any case. -/
def Abridged (cs : List Char) (negative : Bool) : Prop :=
  ∃ sign word rest, Signed sign negative ∧ word.map Char.toLower = "inf".toList ∧
    cs = sign ++ (word ++ rest)

/-- If a head is a numeral, one of them is the longest. -/
theorem exists_leads (hp : p <+: cs) (h : Numeral p negative v) :
    ∃ p negative v, Leads p cs negative v := by
  let P : Nat → Prop := fun n => ∃ p negative v, p <+: cs ∧ Numeral p negative v ∧ p.length = n
  have hP : ∃ n, n ≤ cs.length ∧ P n := ⟨_, hp.length_le, p, negative, v, hp, h, rfl⟩
  classical
  obtain ⟨n, hle, hn⟩ := hP
  obtain ⟨q, negative, v, hq, hnumeral, hlength⟩ := Nat.findGreatest_spec hle hn
  refine ⟨q, negative, v, hq, hnumeral, fun r negative v hr hr' => ?_⟩
  rw [hlength]
  exact Nat.le_findGreatest hr.length_le ⟨r, negative, v, hr, hr', rfl⟩

/-! ## Words -/

/-- The words that are read in any case. -/
def readWords : List (List Char) := ["inf".toList, "infinity".toList, "nan".toList]

/-- What numerals begin with has no case. -/
theorem toLower_eq_self (h : c.isDigit = true ∨ c = '.' ∨ c = '+' ∨ c = '-') : c.toLower = c := by
  rcases h with hdigit | rfl | rfl | rfl
  · have hle : c.toNat ≤ 57 := (Char.isDigit_iff_toNat.1 hdigit).2
    refine dif_neg fun hupper => ?_
    have hge : 65 ≤ c.toNat := UInt32.le_iff_toNat_le.1 hupper.1
    omega
  · rfl
  · rfl
  · rfl

/-- A word begins with a letter. -/
theorem exists_cons_of_word (h : word.map Char.toLower ∈ readWords) : ∃ c rest, word = c :: rest ∧
    ¬ (c.isDigit = true ∨ c = '.' ∨ c = '+' ∨ c = '-') := by
  cases word with
  | nil => exact absurd h (by decide)
  | cons c rest =>
    refine ⟨c, rest, rfl, fun hc => ?_⟩
    rw [List.map_cons, toLower_eq_self hc] at h
    have hhead : c ∈ readWords.map fun word => word.head?.getD ' ' := List.mem_map.2 ⟨_, h, rfl⟩
    have hletter : c = 'i' ∨ c = 'n' := by simpa [readWords] using hhead
    rcases hletter with rfl | rfl <;> exact absurd hc (by decide)

theorem splitSign_word (h : word.map Char.toLower ∈ readWords) (rest : List Char) :
    splitSign (word ++ rest) = (false, word ++ rest) := by
  obtain ⟨c, tail, rfl, hc⟩ := exists_cons_of_word h
  rw [List.cons_append]
  unfold splitSign
  split
  next heq => exact absurd (.inr (.inr (.inr (List.cons.inj heq).1))) hc
  next heq => exact absurd (.inr (.inr (.inl (List.cons.inj heq).1))) hc
  next => rfl

/-- A sign is split off a word and what follows it. -/
theorem splitSign_signed_word {sign : List Char} (hsign : Signed sign negative)
    (h : word.map Char.toLower ∈ readWords) (rest : List Char) :
    splitSign (sign ++ (word ++ rest)) = (negative, word ++ rest) :=
  hsign.splitSign (splitSign_word h rest)

theorem readUnsigned?_word (h : word.map Char.toLower ∈ readWords) :
    readUnsigned? negative word = none := by
  obtain ⟨c, rest, rfl, hc⟩ := exists_cons_of_word h
  have hdigit : c.isDigit = false := Bool.eq_false_iff.2 fun h => hc (.inl h)
  have hspan : spanFraction ([] ++ c :: rest) = ([], [], c :: rest) :=
    spanFraction_whole nofun fun d hd => by
      obtain rfl := Option.some.inj hd
      exact ⟨hdigit, fun h => hc (.inr (.inl h))⟩
  unfold readUnsigned?
  rw [← List.nil_append (c :: rest), hspan]
  rfl

/-- No word is longer than infinity written out. -/
theorem length_word (h : word.map Char.toLower ∈ readWords) : word.length ≤ 8 := by
  rw [← List.length_map Char.toLower]
  generalize word.map Char.toLower = lower at h
  simp only [readWords, List.mem_cons, List.not_mem_nil, or_false] at h
  rcases h with rfl | rfl | rfl <;> decide

/-- A mantissa begins with a digit or a point. -/
theorem Mantissa.exists_cons {v : Rat} (h : Mantissa ms v) :
    ∃ c rest, ms = c :: rest ∧ (c.isDigit = true ∨ c = '.') := by
  cases h with
  | whole hne h =>
    obtain ⟨c, rest, rfl⟩ := List.exists_cons_of_ne_nil hne
    exact ⟨c, rest, rfl, .inl ((digits_ten_iff.1 h).1 c List.mem_cons_self)⟩
  | @point ds fs n hne h =>
    cases ds with
    | nil => exact ⟨'.', fs, rfl, .inr rfl⟩
    | cons c ds => exact ⟨c, _, rfl, .inl ((digits_ten_iff.1 h).1 c List.mem_cons_self)⟩

/-- The double that a signed word is read as. -/
def wordValue (negative : Bool) (word : List Char) : Float :=
  if word.map Char.toLower = "nan".toList then notANumber
  else if negative then -infinity else infinity

/-- A sign and a word are read. -/
theorem spelled?_word {sign : List Char} (hsign : Signed sign negative)
    (h : word.map Char.toLower ∈ readWords) :
    spelled? (sign ++ word) = some (wordValue negative word) := by
  have hsplit := splitSign_signed_word hsign h []
  rw [List.append_nil] at hsplit
  unfold spelled? wordValue
  rw [hsplit]
  dsimp only
  generalize word.map Char.toLower = lower at h
  simp only [readWords, List.mem_cons, List.not_mem_nil, or_false] at h
  rcases h with rfl | rfl | rfl <;> rfl

/-! ## What is read -/

/-- Decimal text is no word. -/
theorem spelled?_of_read? {d : Decimal} (h : read? cs = some d) : spelled? cs = some d.toFloat := by
  have hread := h
  unfold read? at hread
  unfold spelled?
  generalize hsplit : splitSign cs = signed at hread
  obtain ⟨negative, unsigned⟩ := signed
  dsimp only at hread ⊢
  have hword : unsigned.map Char.toLower ∉ readWords := fun hmem => by
    rw [readUnsigned?_word hmem] at hread
    cases hread
  simp only [readWords, List.mem_cons, List.not_mem_nil, or_false, not_or] at hword
  rw [if_neg (not_or.2 ⟨hword.1, hword.2.1⟩), if_neg hword.2.2, h]
  rfl

/-- A numeral is read as its number, rounded to a double. -/
theorem Numeral.spelled? (h : Numeral cs negative v) :
    ∃ x, IsDoubleOf v x ∧ spelled? cs = some (if negative then -x else x) := by
  cases h with
  | infinity hsign =>
    refine ⟨Number.infinity, rfl, ?_⟩
    rw [spelled?_word hsign (by decide)]
    rfl
  | @decimal sign ms es negative v e hsign hmantissa hexponent =>
    obtain ⟨d, hd, rfl, hvalue⟩ := readUnsigned?_of_written negative hmantissa hexponent
    have hread : read? (sign ++ (ms ++ es)) = some d := by
      unfold read?
      rw [hsign.splitSign (hmantissa.splitSign es)]
      exact hd
    refine ⟨magnitude d.coefficient d.exponent, ?_, spelled?_of_read? hread⟩
    rw [← hvalue]
    exact magnitude_roundsTo _ _

/-- What is read is a numeral, or a word with an optional sign. -/
theorem spelled?_eq_some (h : spelled? cs = some x) : (∃ negative v, Numeral cs negative v) ∨
    ∃ sign word negative, Signed sign negative ∧ word.map Char.toLower ∈ readWords ∧
      cs = sign ++ word ∧ x = wordValue negative word := by
  unfold Number.spelled? at h
  generalize hsplit : splitSign cs = signed at h
  obtain ⟨negative, unsigned⟩ := signed
  obtain ⟨sign, hsign, rfl⟩ := splitSign_signed hsplit
  dsimp only at h
  by_cases hword : unsigned.map Char.toLower ∈ readWords
  · have hx := spelled?_word hsign hword
    unfold Number.spelled? at hx
    rw [hsplit] at hx
    exact .inr ⟨sign, unsigned, negative, hsign, hword, rfl, Option.some.inj (h.symm.trans hx)⟩
  · simp only [readWords, List.mem_cons, List.not_mem_nil, or_false, not_or] at hword
    rw [if_neg (not_or.2 ⟨hword.1, hword.2.1⟩), if_neg hword.2.2] at h
    obtain ⟨d, hread, -⟩ := Option.map_eq_some_iff.1 h
    unfold read? at hread
    rw [hsplit] at hread
    obtain ⟨-, ms, es, v, e, rfl, hmantissa, hexponent, -⟩ := written_of_readUnsigned? hread
    exact .inl ⟨_, _, .decimal hsign hmantissa hexponent⟩

/-! ## Unfinished exponents -/

theorem endsWithMark_append (ps : List Char) (h : cs ≠ []) :
    Text.endsWithMark (ps ++ cs) = Text.endsWithMark cs := by
  unfold Text.endsWithMark
  rw [List.getLast?_append_of_ne_nil ps h]

/-- Digits and points are no marks. -/
theorem endsWithMark_of_plain (h : ∀ c ∈ cs, c.isDigit = true ∨ c = '.') :
    Text.endsWithMark cs = false := by
  unfold Text.endsWithMark
  rw [Option.any_eq_false]
  intro c hc
  rcases h c (List.mem_of_getLast? hc) with hdigit | rfl
  · have he : c ≠ 'e' := by
      rintro rfl
      exact absurd hdigit (by decide)
    have hE : c ≠ 'E' := by
      rintro rfl
      exact absurd hdigit (by decide)
    simp [he, hE]
  · decide

theorem Mantissa.plain {v : Rat} (h : Mantissa ms v) :
    ∀ c ∈ ms, c.isDigit = true ∨ c = '.' := by
  intro c hc
  cases h with
  | whole hne h => exact .inl ((digits_ten_iff.1 h).1 c hc)
  | point hne h =>
    have hdigits := (digits_ten_iff.1 h).1
    rcases List.mem_append.1 hc with hc | hc
    · exact .inl (hdigits c (List.mem_append_left _ hc))
    · rcases List.mem_cons.1 hc with rfl | hc
      · exact .inr rfl
      · exact .inl (hdigits c (List.mem_append_right _ hc))

/-- A numeral is finished: after the mark of its exponent comes a digit. -/
theorem Numeral.endsWithMark (h : Numeral cs negative v) : Text.endsWithMark cs = false := by
  cases h with
  | infinity hsign => exact endsWithMark_append _ (by decide)
  | @decimal sign ms es negative v e hsign hmantissa hexponent =>
    obtain ⟨c, rest, hms, -⟩ := hmantissa.exists_cons
    have hne : ms ≠ [] := hms ▸ List.cons_ne_nil c rest
    cases hexponent with
    | none =>
      rw [List.append_nil, endsWithMark_append _ hne]
      exact endsWithMark_of_plain hmantissa.plain
    | @some mark sign' ds _ _ hmark hsign' hds hdigits =>
      have hsplit : sign ++ (ms ++ mark :: (sign' ++ ds)) = sign ++ ms ++ mark :: sign' ++ ds := by
        simp
      rw [hsplit, endsWithMark_append _ hds]
      exact endsWithMark_of_plain fun c hc => .inl ((digits_ten_iff.1 hdigits).1 c hc)

theorem endsWithMark_word (h : word.map Char.toLower ∈ readWords) :
    Text.endsWithMark word = false := by
  unfold Text.endsWithMark
  rw [Option.any_eq_false]
  intro c hc
  have hlast : some c.toLower ∈ readWords.map List.getLast? :=
    List.mem_map.2 ⟨_, h, by rw [List.getLast?_map, hc]; rfl⟩
  have he : c ≠ 'e' := by
    rintro rfl
    exact absurd hlast (by decide)
  have hE : c ≠ 'E' := by
    rintro rfl
    exact absurd hlast (by decide)
  simp [he, hE]

/-- No head that breaks off at an exponent spells a number, so none is passed over. -/
theorem headNumber?_eq (cs : List Char) : Text.headNumber? cs = spelled? cs := by
  unfold Text.headNumber?
  cases h : spelled? cs with
  | none => exact ite_self _
  | some x =>
    have hmark : Text.endsWithMark cs = false := by
      rcases spelled?_eq_some h with ⟨_, _, hnumeral⟩ | ⟨sign, word, _, _, hword, rfl, -⟩
      · exact hnumeral.endsWithMark
      · obtain ⟨c, rest, rfl, -⟩ := exists_cons_of_word hword
        rw [endsWithMark_append _ (List.cons_ne_nil c rest)]
        exact endsWithMark_word hword
    rw [hmark]
    rfl

/-! ## The longest head -/

/-- The first of the numbers down from `n` at which something is found. -/
theorem findSome?_downwards {α : Type} (f : Nat → Option α) (n : Nat) :
    match (List.range' 1 n).reverse.findSome? f with
    | none => ∀ m ≤ n, 0 < m → f m = none
    | some x => ∃ m ≤ n, f m = some x ∧ ∀ k ≤ n, m < k → f k = none := by
  induction n with
  | zero => exact fun m hm hpos => absurd hpos (by omega)
  | succ n ih =>
    rw [List.range'_1_concat, List.reverse_append, List.reverse_singleton, List.singleton_append,
      List.findSome?_cons, Nat.add_comm 1 n]
    cases hlast : f (n + 1) with
    | some x => exact ⟨n + 1, Nat.le_refl _, hlast, fun k hk hlt => absurd hk (by omega)⟩
    | none =>
      dsimp only
      have hstep : ∀ m ≤ n + 1, m ≤ n ∨ f m = none := fun m hm =>
        (Nat.le_or_eq_of_le_succ hm).imp_right fun heq : m = n + 1 => heq ▸ hlast
      generalize (List.range' 1 n).reverse.findSome? f = found at ih ⊢
      cases found with
      | none => exact fun m hm hpos => (hstep m hm).elim (ih m · hpos) id
      | some x =>
        obtain ⟨m, hm, hfound, hmore⟩ := ih
        exact ⟨m, Nat.le_succ_of_le hm, hfound, fun k hk hlt =>
          (hstep k hk).elim (hmore k · hlt) id⟩

/-- Heads are tried from the longest to the shortest. -/
theorem leadingNumber_spec (cs : List Char) :
    (Text.leadingNumber cs = notANumber ∧ ∀ q, q <+: cs → spelled? q = none) ∨
      ∃ p, p <+: cs ∧ spelled? p = some (Text.leadingNumber cs) ∧
        ∀ q, q <+: cs → p.length < q.length → spelled? q = none := by
  have htake : ∀ {q : List Char}, q <+: cs → cs.take q.length = q := fun hq =>
    (List.prefix_iff_eq_take.1 hq).symm
  have hfound := findSome?_downwards (fun n => spelled? (cs.take n)) cs.length
  unfold Text.leadingNumber
  simp only [headNumber?_eq]
  generalize (List.range' 1 cs.length).reverse.findSome? (fun n => spelled? (cs.take n)) = found
    at hfound
  cases found with
  | none =>
    refine .inl ⟨rfl, fun q hq => ?_⟩
    rcases Nat.eq_zero_or_pos q.length with hzero | hpos
    · obtain rfl := List.eq_nil_of_length_eq_zero hzero
      rfl
    · rw [← htake hq]
      exact hfound q.length hq.length_le hpos
  | some x =>
    obtain ⟨n, hn, hx, hmore⟩ := hfound
    refine .inr ⟨cs.take n, List.take_prefix n cs, hx, fun q hq hlt => ?_⟩
    rw [List.length_take_of_le hn] at hlt
    rw [← htake hq]
    exact hmore q.length hq.length_le hlt

/-- A head is read if no longer one is read as something else. -/
theorem leadingNumber_of_head (hp : p <+: cs) (h : spelled? p = some x)
    (hmore : ∀ q y, q <+: cs → p.length < q.length → spelled? q = some y → y = x) :
    Text.leadingNumber cs = x := by
  rcases leadingNumber_spec cs with ⟨-, hnone⟩ | ⟨q, hq, hread, hlonger⟩
  · rw [hnone p hp] at h
    cases h
  · rcases Nat.lt_trichotomy p.length q.length with hlt | heq | hlt
    · exact hmore q _ hq hlt hread
    · have hsame : p = q := by
        rw [List.prefix_iff_eq_take.1 hp, List.prefix_iff_eq_take.1 hq, heq]
      rw [hsame] at h
      exact Option.some.inj (hread.symm.trans h)
    · rw [hlonger p hp hlt] at h
      cases h

/-! ## Numerals and words -/

/-- A numeral that goes on is no word. -/
theorem Numeral.not_word {rest sign : List Char} {b : Bool} (h : Numeral p negative v)
    (hrest : rest ≠ []) (hsign : Signed sign b) (hword : word.map Char.toLower ∈ readWords) :
    p ++ rest ≠ sign ++ word := by
  intro heq
  have hsplit := splitSign_signed_word hsign hword []
  rw [List.append_nil, ← heq] at hsplit
  cases h with
  | infinity hsign' =>
    rw [List.append_assoc, hsign'.splitSign rfl] at hsplit
    obtain ⟨-, rfl⟩ := Prod.mk.inj hsplit
    have hlength := length_word hword
    rw [List.length_append] at hlength
    exact hrest (List.eq_nil_of_length_eq_zero (by simpa using hlength))
  | @decimal sign' ms es negative v e hsign' hmantissa hexponent =>
    rw [List.append_assoc, List.append_assoc, hsign'.splitSign (hmantissa.splitSign _)] at hsplit
    obtain ⟨-, rfl⟩ := Prod.mk.inj hsplit
    obtain ⟨c, rest', hcons, hletter⟩ := exists_cons_of_word hword
    obtain ⟨d, ms', rfl, hd⟩ := hmantissa.exists_cons
    obtain ⟨rfl, -⟩ := List.cons.inj hcons
    exact hletter (hd.imp_right .inl)

/-- The longest numeral at the head is read. -/
theorem Leads.leadingNumber (h : Leads p cs negative v) :
    ∃ x, IsDoubleOf v x ∧ Text.leadingNumber cs = if negative then -x else x := by
  obtain ⟨x, hx, hread⟩ := h.numeral.spelled?
  refine ⟨x, hx, leadingNumber_of_head h.head hread fun q y hq hlt hy => ?_⟩
  exfalso
  rcases spelled?_eq_some hy with ⟨b, w, hnumeral⟩ | ⟨sign, word, b, hsign, hword, heq, -⟩
  · exact absurd (h.longest q b w hq hnumeral) (Nat.not_le.2 hlt)
  · obtain ⟨rest, rfl⟩ := List.prefix_of_prefix_length_le h.head hq hlt.le
    refine h.numeral.not_word (fun hnil => ?_) hsign hword heq
    rw [hnil, List.append_nil] at hlt
    exact lt_irrefl _ hlt

/-- Without a numeral, the first letters of infinity are read as infinity. -/
theorem Abridged.leadingNumber (h : Abridged cs negative)
    (hnone : ∀ q b w, q <+: cs → ¬ Numeral q b w) :
    Text.leadingNumber cs = if negative then -infinity else infinity := by
  obtain ⟨sign, word, rest, hsign, hword, rfl⟩ := h
  have hmem : word.map Char.toLower ∈ readWords := hword ▸ List.mem_cons_self
  have hvalue : ∀ tail, wordValue negative (word ++ tail)
      = if negative then -infinity else infinity := by
    intro tail
    unfold wordValue
    refine if_neg fun hnan => ?_
    rw [List.map_append, hword] at hnan
    have hhead : some 'i' = some 'n' := congrArg List.head? hnan
    exact absurd hhead (by decide)
  have hhead : Number.spelled? (sign ++ word)
      = some (if negative then -infinity else infinity) := by
    rw [spelled?_word hsign hmem, ← hvalue [], List.append_nil]
  have hprefix : sign ++ word <+: sign ++ (word ++ rest) := ⟨rest, List.append_assoc ..⟩
  refine leadingNumber_of_head hprefix hhead fun q y hq hlt hy => ?_
  rcases spelled?_eq_some hy with ⟨b, w, hnumeral⟩ | ⟨sign', word', b, hsign', hword', heq, rfl⟩
  · exact absurd hnumeral (hnone q b w hq)
  · -- the longer word has the same sign, and begins with the same letters
    obtain ⟨tail, rfl⟩ := List.prefix_of_prefix_length_le hprefix hq hlt.le
    have hsplit := splitSign_signed_word hsign' hword' []
    rw [List.append_nil, ← heq, List.append_assoc, splitSign_signed_word hsign hmem] at hsplit
    obtain ⟨rfl, rfl⟩ := Prod.mk.inj hsplit
    exact hvalue tail

/-- Without a numeral and these letters, a text is not-a-number. -/
theorem leadingNumber_of_not_abridged (hnone : ∀ q b w, q <+: cs → ¬ Numeral q b w)
    (h : ∀ b, ¬ Abridged cs b) : Text.leadingNumber cs = notANumber := by
  rcases leadingNumber_spec cs with ⟨hnan, -⟩ | ⟨q, hq, hread, -⟩
  · exact hnan
  rcases spelled?_eq_some hread with ⟨b, w, hnumeral⟩ | ⟨sign, word, b, hsign, hword, rfl, hvalue⟩
  · exact absurd hnumeral (hnone q b w hq)
  obtain ⟨rest, rfl⟩ := hq
  rw [hvalue]
  unfold wordValue
  refine if_pos (by_contra fun hnan => h b ⟨sign, word.take 3, word.drop 3 ++ rest, hsign, ?_, ?_⟩)
  · rw [List.map_take]
    generalize word.map Char.toLower = lower at hword hnan
    simp only [readWords, List.mem_cons, List.not_mem_nil, or_false] at hword
    rcases hword with rfl | rfl | rfl
    · rfl
    · rfl
    · exact absurd rfl hnan
  · rw [← List.append_assoc (word.take 3), List.take_append_drop, List.append_assoc]

/-- A numeral at the head of a text that begins with the letters of infinity is infinity. -/
theorem Abridged.infinity_of_numeral {b : Bool} (h : Abridged cs negative) (hq : q <+: cs)
    (hnumeral : Numeral q b v) :
    ∃ sign, Signed sign negative ∧ sign ++ "Infinity".toList <+: cs := by
  obtain ⟨sign, word, rest, hsign, hword, rfl⟩ := h
  have hmem : word.map Char.toLower ∈ readWords := hword ▸ List.mem_cons_self
  have hsplit := splitSign_signed_word hsign hmem rest
  obtain ⟨tail, htail⟩ := hq
  rw [← htail] at hsplit ⊢
  cases hnumeral with
  | @infinity sign' _ hsign' =>
    rw [List.append_assoc, hsign'.splitSign rfl] at hsplit
    obtain ⟨rfl, -⟩ := Prod.mk.inj hsplit
    exact ⟨sign', hsign', List.prefix_append _ _⟩
  | @decimal sign' ms es _ v e hsign' hmantissa hexponent =>
    rw [List.append_assoc, List.append_assoc, hsign'.splitSign (hmantissa.splitSign _)] at hsplit
    obtain ⟨-, heq⟩ := Prod.mk.inj hsplit
    obtain ⟨c, ms', rfl, hc⟩ := hmantissa.exists_cons
    obtain ⟨d, word', rfl, hletter⟩ := exists_cons_of_word hmem
    obtain ⟨rfl, -⟩ := List.cons.inj heq
    exact absurd (hc.imp_right .inl) hletter

/-- The longest numeral is the one after which no longer head is read. -/
theorem leads_of_isNone (hp : p <+: cs) (h : Numeral p negative v)
    (hmore : ∀ n ≤ cs.length, p.length < n → (spelled? (cs.take n)).isNone = true) :
    Leads p cs negative v := by
  refine ⟨hp, h, fun q b w hq hnumeral => Nat.le_of_not_lt fun hlt => ?_⟩
  obtain ⟨x, -, hx⟩ := hnumeral.spelled?
  have hnone := hmore q.length hq.length_le hlt
  rw [← List.prefix_iff_eq_take.1 hq, hx] at hnone
  cases hnone

end Number

namespace ScalarFunction

open Number

/-- The number that is parsed from a text, after white space at its head: that of the longest head
    that is a decimal number or infinity written out, rounded to a double. Where no head is one, it
    is not-a-number, unless the text begins with the first three letters of infinity, in any case
    and after an optional sign: then it is infinity, although that is not written out. -/
theorem apply_parseFloat {args : List Value} {s : String} (h : text? args 0 = some s) :
    (∀ p negative v, Leads p (Text.trimLeft s.toList) negative v →
      ∃ x, (∀ y, IsDoubleOf v y ↔ y = x) ∧
        parseFloat.apply args = .number (if negative then -x else x)) ∧
    ((∃ p negative v, p <+: Text.trimLeft s.toList ∧ Numeral p negative v) →
      ∃ p negative v, Leads p (Text.trimLeft s.toList) negative v) ∧
    ((∀ p negative v, p <+: Text.trimLeft s.toList → ¬ Numeral p negative v) →
      (∀ negative, ¬ Abridged (Text.trimLeft s.toList) negative) →
      parseFloat.apply args = .number notANumber) ∧
    ∀ negative, Abridged (Text.trimLeft s.toList) negative →
      (∀ sign, Signed sign negative →
        ¬ sign ++ "Infinity".toList <+: Text.trimLeft s.toList) →
      (∀ p b v, p <+: Text.trimLeft s.toList → ¬ Numeral p b v) ∧
        parseFloat.apply args = .number (if negative then -infinity else infinity) := by
  have happly : parseFloat.apply args
      = .number (Text.leadingNumber (Text.trimLeft s.toList)) := by
    show mapText args _ = _
    unfold mapText
    rw [h]
  rw [happly]
  generalize Text.trimLeft s.toList = cs
  refine ⟨fun p negative v hleads => ?_, fun ⟨p, negative, v, hp, hnumeral⟩ =>
    exists_leads hp hnumeral, fun hnone hletters => ?_, fun negative hletters hword => ?_⟩
  · obtain ⟨x, hx, hvalue⟩ := hleads.leadingNumber
    refine ⟨x, fun y => ⟨fun hy => hy.unique hx, ?_⟩, congrArg Value.number hvalue⟩
    rintro rfl
    exact hx
  · exact congrArg Value.number (leadingNumber_of_not_abridged hnone hletters)
  · have hnone : ∀ p b v, p <+: cs → ¬ Numeral p b v := by
      intro p b v hp hnumeral
      obtain ⟨sign, hsign, hprefix⟩ := hletters.infinity_of_numeral hp hnumeral
      exact hword sign hsign hprefix
    exact ⟨hnone, congrArg Value.number (hletters.leadingNumber hnone)⟩

/-- All of `-12.5e+` but the unfinished exponent is read, and `information` is infinite. -/
theorem apply_parseFloat_infinite :
    (∃ x, RoundsTo (25 / 2) x ∧ parseFloat.apply [.string " -12.5e+"] = .number (-x)) ∧
    parseFloat.apply [.string "information"] = .number infinity := by
  constructor
  · obtain ⟨hnumber, -⟩ := apply_parseFloat
      (show text? [.string " -12.5e+"] 0 = some " -12.5e+" from rfl)
    have htrim : Text.trimLeft " -12.5e+".toList = "-12.5e+".toList := by decide +kernel
    have hall : ("12".toList ++ "5".toList).all Char.isDigit = true := by decide
    have hdigits : Digits 10 ("12".toList ++ "5".toList) 125 :=
      digits_ten_iff.2 ⟨List.all_eq_true.1 hall, by decide⟩
    have hmantissa : Mantissa ("12".toList ++ '.' :: "5".toList) ((125 : Nat) * 10 ^ (-1 : Int)) :=
      .point (.inr (by decide)) hdigits
    have hnumeral : Numeral "-12.5".toList true (some ((125 : Nat) * 10 ^ (-1 : Int) * 10 ^ 0)) :=
      .decimal .minus hmantissa .none
    rw [htrim] at hnumber
    obtain ⟨x, hx, happly⟩ := hnumber _ _ _
      (leads_of_isNone ⟨"e+".toList, rfl⟩ hnumeral (by decide +kernel))
    have hrounds : RoundsTo ((125 : Nat) * 10 ^ (-1 : Int) * 10 ^ (0 : Int)) x := (hx x).2 rfl
    refine ⟨x, ?_, happly⟩
    norm_num at hrounds
    exact hrounds
  · obtain ⟨-, -, -, hletters⟩ := apply_parseFloat
      (show text? [.string "information"] 0 = some "information" from rfl)
    have htrim : Text.trimLeft "information".toList = "information".toList := by decide +kernel
    rw [htrim] at hletters
    refine (hletters false ⟨[], "inf".toList, "ormation".toList, .none, rfl, rfl⟩ ?_).2
    intro sign hsign
    cases hsign <;> decide

end ScalarFunction

end ColumnQuery
