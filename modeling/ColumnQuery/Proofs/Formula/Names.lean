/-
  Names that texts keep.

  The names that stay in the tree of a resolved expression can be read back: names of functions
  (`word_of_functionOf?`), of constants (`word_of_global?`), and of the tables, the parameters and
  `Math` before a member access (`word_of_ownerOf`). Function names may be written in any case,
  which changes letters of ASCII only.
-/
import ColumnQuery.Proofs.Formula.Scopes
import ColumnQuery.Proofs.Syntax.Surface

namespace ColumnQuery

/-- A name that the reader takes for nothing else. -/
structure Token.IsWord (name : String) : Prop where
  isName : Token.isName name = true
  free : name ∉ Node.reservedWords

namespace Token

theorem isWord_of_all {names : List String}
    (h : names.all (fun name => Token.isName name && !Node.reservedWords.contains name) = true)
    {name : String} (hname : name ∈ names) : IsWord name := by
  have hword := List.all_eq_true.1 h name hname
  obtain ⟨hisName, hfree⟩ := Bool.and_eq_true_iff.1 hword
  refine ⟨hisName, fun hmem => ?_⟩
  rw [List.contains_iff_mem.2 hmem] at hfree
  cases hfree

theorem toLower_of_not_isAscii {c : Char} (h : Text.isAscii c = false) : c.toLower = c := by
  have hwide : ¬ c.toNat < 128 := of_decide_eq_false h
  unfold Char.toLower
  refine dif_neg fun hupper => hwide ?_
  have hle : c.toNat ≤ 90 := UInt32.le_iff_toNat_le.1 hupper.2
  omega

theorem continuesName_of_toLower {c : Char} (h : continuesName c.toLower = true) :
    continuesName c = true := by
  by_cases hc : Text.isAscii c = true
  · have hall := Text.forall_ascii (p := fun c => !continuesName c.toLower || continuesName c)
      (by decide) hc
    rw [h] at hall
    exact hall
  · rwa [toLower_of_not_isAscii (Bool.not_eq_true _ ▸ hc)] at h

theorem opensName_of_toLower {c : Char} (h : opensName c.toLower = true) : opensName c = true := by
  by_cases hc : Text.isAscii c = true
  · have hall := Text.forall_ascii (p := fun c => !opensName c.toLower || opensName c)
      (by decide) hc
    rw [h] at hall
    exact hall
  · rwa [toLower_of_not_isAscii (Bool.not_eq_true _ ▸ hc)] at h

/-- A text is a name if it is one in lower case. -/
theorem isName_of_toLower {name : String}
    (h : isName (String.ofList (name.toList.map Char.toLower)) = true) : isName name = true := by
  unfold isName at h ⊢
  rw [String.toList_ofList] at h
  cases hlist : name.toList with
  | nil =>
    rw [hlist] at h
    cases h
  | cons c cs =>
    rw [hlist] at h
    simp only [List.map_cons, Bool.and_eq_true, List.all_eq_true, List.mem_map,
      forall_exists_index, and_imp, forall_apply_eq_imp_iff₂] at h ⊢
    exact ⟨opensName_of_toLower h.1, fun d hd => continuesName_of_toLower (h.2 d hd)⟩

end Token

namespace Resolve

open Token (IsWord)

/-! ## Functions -/

theorem word_of_scalar {name : String} {f : ScalarFunction}
    (h : ScalarFunction.lookup? name = some f) : IsWord name := by
  have hname : f.name = String.ofList (name.toList.map Char.toLower) :=
    beq_iff_eq.1 (List.find?_some (p := fun g : ScalarFunction =>
      g.name == String.ofList (name.toList.map Char.toLower)) h)
  have hall : ∀ g : ScalarFunction, Token.isName g.name = true ∧ ∀ word ∈ Node.reservedWords,
      g.name ≠ String.ofList (word.toList.map Char.toLower) := by
    intro g
    cases g <;> decide +kernel
  obtain ⟨hisName, hfree⟩ := hall f
  rw [hname] at hisName
  exact ⟨Token.isName_of_toLower hisName, fun hmem => hfree name hmem hname⟩

theorem word_of_aggregate {name : String} {a : Aggregate} (h : Aggregate.lookup? name = some a) :
    IsWord name := by
  have hall : ∀ a : Aggregate, IsWord a.name := by
    intro a
    cases a <;> exact ⟨by decide, by decide⟩
  unfold Aggregate.lookup? at h
  dsimp only at h
  split at h
  next heq =>
    subst heq
    exact ⟨by decide, by decide⟩
  next =>
    have hname : a.name = name :=
      beq_iff_eq.1 (List.find?_some (p := fun b : Aggregate => b.name == name) h)
    exact hname ▸ hall a

theorem word_of_window {name : String} {w : WindowFunction}
    (h : WindowFunction.lookup? name = some w) : IsWord name := by
  have hall : ∀ w : WindowFunction, IsWord w.name := by
    intro w
    cases w <;> exact ⟨by decide, by decide⟩
  have hname : w.name = name :=
    beq_iff_eq.1 (List.find?_some (p := fun b : WindowFunction => b.name == name) h)
  exact hname ▸ hall w

theorem word_of_functionOf? {name : String} {c : Callee} (h : functionOf? name = some c) :
    IsWord name := by
  unfold functionOf? at h
  cases ha : Aggregate.lookup? name with
  | some a => exact word_of_aggregate ha
  | none =>
    cases hw : WindowFunction.lookup? name with
    | some w => exact word_of_window hw
    | none =>
      rw [ha, hw] at h
      obtain ⟨f, hf, -⟩ := Option.map_eq_some_iff.1 h
      exact word_of_scalar hf

theorem word_of_lookupMath? {name : String} {f : ScalarFunction}
    (h : ScalarFunction.lookupMath? name = some f) : IsWord name := by
  unfold ScalarFunction.lookupMath? at h
  split at h
  next heq => exact heq ▸ ⟨by decide, by decide⟩
  next =>
    split at h
    next heq => exact heq ▸ ⟨by decide, by decide⟩
    next =>
      split at h
      next => cases h
      next => exact word_of_scalar h

/-- What is called is its own surface. -/
structure Plain (sp : Spelling) (f : Node) : Prop where
  spellable : f.Spellable Number.Legible
  surface : f.surface sp = f
  text : ∀ s, f.textWith s = f.textWith sp

theorem plain_identifier (sp : Spelling) {name : String} (h : IsWord name) :
    Plain sp (.identifier name) :=
  ⟨.identifier h.isName h.free, by rw [Node.surface], fun s => by rw [Node.textWith, Node.textWith]⟩

theorem plain_dotted {sp : Spelling} {o : Node} (ho : Plain sp o) (hnumber : o.isNumber = false)
    {name : String} (h : Token.isName name = true) :
    Plain sp (.member o (.identifier name) false) where
  spellable := .dotted ho.spellable hnumber h
  surface := by rw [Node.surface, ho.surface]
  text s := by rw [Node.textWith, Node.textWith, ho.text]

theorem plain_callee {node f : Node} {s : ResolveState} {c : Callee} (h : callee node f s = .ok c)
    (sp : Spelling) : Plain sp f := by
  unfold callee at h
  split at h
  next name =>
    split at h
    next => cases h
    next => exact plain_identifier sp (word_of_functionOf? (namedCallee_eq_ok_iff.1 h))
  next ns name =>
    split at h
    next => cases h
    next =>
      split at h
      next heq =>
        refine plain_dotted (plain_identifier sp ?_) rfl
          (word_of_functionOf? (namedCallee_eq_ok_iff.1 h)).isName
        exact heq ▸ ⟨by decide, by decide⟩
      next =>
        split at h
        next heq =>
          obtain ⟨f, hf, -⟩ := mathCallee_eq_ok_iff.1 h
          refine plain_dotted (plain_identifier sp ?_) rfl (word_of_lookupMath? hf).isName
          exact heq ▸ ⟨by decide, by decide⟩
        next => cases h
  next => cases h
  next => cases h
  next => cases h

/-! ## Constants and owners -/

/-- The names that an exported text gives to the tables and the parameters. -/
def headerSpelling (tables : Nat) : Spelling := ⟨if 1 < tables then ["d1", "d2"] else ["d"], "$"⟩

theorem tableOf?_headerSpelling {tables t : Nat} (ht : t < tables) (hle : tables ≤ 2) :
    IsWord ((headerSpelling tables).table t) ∧
      (Scope.standard tables).tableOf? ((headerSpelling tables).table t) = some t := by
  have hcases : tables = 1 ∧ t = 0 ∨ tables = 2 ∧ t = 0 ∨ tables = 2 ∧ t = 1 := by omega
  rcases hcases with ⟨rfl, rfl⟩ | ⟨rfl, rfl⟩ | ⟨rfl, rfl⟩ <;>
    exact ⟨⟨by decide, by decide⟩, by decide⟩

theorem word_of_global? {name : String} {v : Value} (h : Constants.global? name = some v) :
    IsWord name :=
  Token.isWord_of_all (by decide) (Constants.mem_of_global? h)

theorem word_of_tableOf? {name : String} {tables t : Nat}
    (h : (Scope.standard tables).tableOf? name = some t) : IsWord name := by
  obtain ⟨hlt, heq, -⟩ := List.findIdx?_eq_some_iff_getElem.1 h
  have hmem : some name ∈ (Scope.standard tables).tables := by
    rw [← beq_iff_eq.1 heq]
    exact List.getElem_mem hlt
  have hwords : ∀ n ∈ ["d", "d1", "d2"], IsWord n := fun n => Token.isWord_of_all (by decide)
  refine hwords name ?_
  unfold Scope.standard at hmem
  dsimp only at hmem
  split at hmem
  · simp only [List.mem_cons, Option.some.injEq, List.not_mem_nil, or_false] at hmem ⊢
    exact .inr hmem
  · simp only [List.mem_cons, Option.some.injEq, List.not_mem_nil, or_false] at hmem ⊢
    exact .inl hmem

/-- A name that owns its members is a name of the standard scope, or `Math`. -/
theorem word_of_ownerOf {site : Site} {tables : Nat} {s : ResolveState} {object : Node}
    (hscope : site.scope = Scope.standard tables) (h : ownerOf site s object ≠ .other) :
    ∃ name, object = .identifier name ∧ IsWord name := by
  unfold ownerOf at h
  rw [hscope] at h
  split at h
  next name =>
    refine ⟨name, rfl, ?_⟩
    split at h
    next => exact absurd rfl h
    next =>
      split at h
      next t ht => exact word_of_tableOf? ht
      next =>
        split at h
        next hparams =>
          obtain rfl : "$" = name := Option.some.inj hparams
          exact ⟨by decide, by decide⟩
        next =>
          split at h
          next heq => exact heq ▸ ⟨by decide, by decide⟩
          next => exact absurd rfl h
  next => exact absurd rfl h

end Resolve

end ColumnQuery
