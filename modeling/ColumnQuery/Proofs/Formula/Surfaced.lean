/-
  Resolving the surface of a tree.

  The surface of a tree that resolves without a header can be spelled, its text is the text of the
  tree, and it resolves to a formula that is worth the same. The same calls are registered, since
  what the arguments of operators are made of comes back as it was. That is shown by induction on
  the rules (`Derives.surfaced`): every rule can be applied to the surfaces of what it was applied
  to.
-/
import ColumnQuery.Proofs.Formula.Locals
import ColumnQuery.Proofs.Formula.Names
import ColumnQuery.Proofs.Formula.Respelled

namespace ColumnQuery

/-! ## What a text spells -/

namespace Node

/-- Whether a function is an aggregate or a window function. -/
def namesOperator (f : Node) : Bool :=
  match f with
  | identifier name | member (identifier _) (identifier name) false =>
    match Resolve.functionOf? name with
    | some (.aggregate _) | some (.window _) => true
    | _ => false
  | _ => false

/-- Whether a part of a tree is its own surface as far as it goes itself: no negative number, no key
    without brackets but a name, no column, parameter or window. -/
def isBare : Node → Bool
  | literal (.number x) => !decide (x < 0.0)
  | member _ (identifier _) _ => true
  | member _ _ computed => computed
  | column _ _ | parameter _ | rolling _ _ => false
  | _ => true

/-- A key without brackets is a name. -/
theorem name_of_isBare {o p : Node} (h : isBare (member o p false) = true) :
    ∃ name, p = identifier name := by
  cases p with
  | identifier name => exact ⟨name, rfl⟩
  | _ => cases h

/-- Whether a part of a tree is read back as it was: columns, parameters and windows are, but not in
    the key of a constant of `Math`. -/
def comesBack : Node → Bool
  | column _ _ | parameter _ | rolling _ _ => true
  | member (identifier "Math") p computed =>
    isBare (member (identifier "Math") p computed) && p.parts.all isBare
  | n => n.isBare

/-- Whether a part of a tree is spelled by a text: numbers that their texts spell; names after
    points, and no points after numbers; operators with arguments that are read back as they were;
    windows with bounds that are read back; and no block, whose text is taken for an object. -/
def isSpelled : Node → Bool
  | literal (.number x) => Number.isSpelled x
  | member o (identifier name) false => !(o.isNumber && o.isAtom) && Token.isName name
  | call f as => !f.namesOperator || (partsList as).all comesBack
  | rolling f _ => f.start.all Number.isBound && f.stop.all Number.isBound
  | block _ => false
  | _ => true

theorem isBare_of_comesBack {o p : Node} {computed : Bool}
    (h : comesBack (member o p computed) = true) : isBare (member o p computed) = true := by
  unfold comesBack at h
  split at h
  next heq => cases heq
  next heq => cases heq
  next heq => cases heq
  next heq =>
    cases heq
    exact (Bool.and_eq_true_iff.1 h).1
  next => exact h

/-- A key of `Math` that is read back as it was is its own surface. -/
theorem bare_of_comesBack {p : Node} {computed : Bool}
    (h : comesBack (member (identifier "Math") p computed) = true) :
    ∀ m ∈ p.parts, m.isBare = true :=
  List.all_eq_true.1 (Bool.and_eq_true_iff.1 h).2

theorem dotted_of_isSpelled {o : Node} {name : String}
    (h : isSpelled (member o (identifier name) false) = true) :
    (o.isNumber && o.isAtom) = false ∧ Token.isName name = true := by
  have hdotted : (!(o.isNumber && o.isAtom) && Token.isName name) = true := h
  rwa [Bool.and_eq_true, Bool.not_eq_true'] at hdotted

theorem comesBack_of_isSpelled {f : Node} {as : List Node} (h : isSpelled (call f as) = true)
    (hf : f.namesOperator = true) : ∀ m ∈ partsList as, m.comesBack = true := by
  have hargs : (!f.namesOperator || (partsList as).all comesBack) = true := h
  rw [hf] at hargs
  exact List.all_eq_true.1 hargs

mutual

theorem surface_of_bare (sp : Spelling) : ∀ {n : Node}, (∀ m ∈ n.parts, m.isBare = true) →
    n.surface sp = n
  | literal v, h => by
    rw [surface]
    cases v with
    | number x =>
      have hx : (!decide (x < 0.0)) = true := h _ (self_mem_parts _)
      exact if_neg (of_decide_eq_false (Bool.not_eq_true' _ ▸ hx))
    | _ => rfl
  | member o p computed, h => by
    have ho := surface_of_bare sp (n := o) fun m hm =>
      h m (List.mem_cons_of_mem _ (List.mem_append_left _ hm))
    have hp := surface_of_bare sp (n := p) fun m hm =>
      h m (List.mem_cons_of_mem _ (List.mem_append_right _ hm))
    cases computed with
    | true => rw [surface_member (fun hc => Bool.noConfusion hc), ho, hp]
    | false =>
      obtain ⟨name, rfl⟩ := name_of_isBare (h _ (self_mem_parts _))
      rw [surface, ho]
  | call f as, h => by
    rw [surface, surface_of_bare sp (n := f) fun m hm =>
        h m (List.mem_cons_of_mem _ (List.mem_append_left _ hm)),
      surfaces_of_bare sp (l := as) fun m hm =>
        h m (List.mem_cons_of_mem _ (List.mem_append_right _ hm))]
  | unary op a, h => by
    rw [surface, surface_of_bare sp (n := a) fun m hm => h m (List.mem_cons_of_mem _ hm)]
  | binary op l r, h | logical op l r, h => by
    rw [surface, surface_of_bare sp (n := l) fun m hm =>
        h m (List.mem_cons_of_mem _ (List.mem_append_left _ hm)),
      surface_of_bare sp (n := r) fun m hm =>
        h m (List.mem_cons_of_mem _ (List.mem_append_right _ hm))]
  | conditional t c a, h => by
    have hparts : ∀ m ∈ t.parts ++ c.parts ++ a.parts, m.isBare = true :=
      fun m hm => h m (List.mem_cons_of_mem _ hm)
    rw [surface, surface_of_bare sp (n := t) fun m hm =>
        hparts m (List.mem_append_left _ (List.mem_append_left _ hm)),
      surface_of_bare sp (n := c) fun m hm =>
        hparts m (List.mem_append_left _ (List.mem_append_right _ hm)),
      surface_of_bare sp (n := a) fun m hm => hparts m (List.mem_append_right _ hm)]
  | array es, h => by
    rw [surface, surfaces_of_bare sp (l := es) fun m hm => h m (List.mem_cons_of_mem _ hm)]
  | object ps, h => by
    rw [surface, surfaceProperties_of_bare sp (l := ps) fun m hm =>
      h m (List.mem_cons_of_mem _ hm)]
  | column _ _, h | parameter _, h | rolling _ _, h => absurd (h _ (self_mem_parts _)) nofun
  | identifier _, _ | arrow _ _, _ | function _ _ _, _ | block _, _ | declaration _ _, _
  | returns _, _ | branch _ _ _, _ | loop _ _, _ | assignment _ _ _, _ | update _ _ _, _
  | await _, _ | yield _, _ => by rw [surface] <;> nofun

theorem surfaces_of_bare (sp : Spelling) : ∀ {l : List Node},
    (∀ m ∈ partsList l, m.isBare = true) → surfaces sp l = l
  | [], _ => rfl
  | n :: ns, h => by
    rw [surfaces, surface_of_bare sp (n := n) fun m hm => h m (List.mem_append_left _ hm),
      surfaces_of_bare sp (l := ns) fun m hm => h m (List.mem_append_right _ hm)]

theorem surfaceProperties_of_bare (sp : Spelling) : ∀ {l : List (String × Node)},
    (∀ m ∈ partsProperties l, m.isBare = true) → surfaceProperties sp l = l
  | [], _ => rfl
  | (k, n) :: ps, h => by
    rw [surfaceProperties, surface_of_bare sp (n := n) fun m hm => h m (List.mem_append_left _ hm),
      surfaceProperties_of_bare sp (l := ps) fun m hm => h m (List.mem_append_right _ hm)]

end

/-- The surface of a tree can be spelled, and its text is the text of the tree. -/
structure KeepsText (sp : Spelling) (n : Node) : Prop where
  spellable : (n.surface sp).Spellable Number.Legible
  text : ∀ s, (n.surface sp).textWith s = n.textWith sp

end Node

namespace Resolve

/-- All of some trees have a property. -/
abbrev AllOf (p : Node → Bool) (nodes : List Node) : Prop := ∀ n ∈ nodes, p n = true

theorem AllOf.tail {p : Node → Bool} {n : Node} {ns : List Node} (h : AllOf p (n :: ns)) :
    AllOf p ns := fun m hm => h m (List.mem_cons_of_mem n hm)

theorem AllOf.left {p : Node → Bool} {ns ms : List Node} (h : AllOf p (ns ++ ms)) : AllOf p ns :=
  fun m hm => h m (List.mem_append_left ms hm)

theorem AllOf.right {p : Node → Bool} {ns ms : List Node} (h : AllOf p (ns ++ ms)) : AllOf p ms :=
  fun m hm => h m (List.mem_append_right ns hm)

/-! ## Surfaces that are resolved alike -/

section Definitions

variable (ctx : ResolveContext) (site : Site) (s s' : ResolveState)

/-- The surface of a tree is spelled like the tree, and resolved between the same states: to a
    formula that is worth the same, and to the very same one if every part of the tree is read back
    as it was. -/
structure Surfaced (n : Node) (e : Formula × Node) : Prop
    extends n.KeepsText (headerSpelling ctx.tables.length) where
  resolved : ∃ e', Derives ctx site s
      (.expression (n.surface (headerSpelling ctx.tables.length)) e') s' ∧
    e.1.Respells e'.1 ∧ (AllOf Node.comesBack n.parts → e' = e)

structure SurfacedList (nodes : List Node) (es : List (Formula × Node)) : Prop where
  keepsText : ∀ n ∈ nodes, n.KeepsText (headerSpelling ctx.tables.length)
  resolved : ∃ es', Derives ctx site s
      (.expressions (nodes.map (Node.surface (headerSpelling ctx.tables.length))) es') s' ∧
    List.Forall₂ (fun e e' => e.1.Respells e'.1) es es' ∧
    (AllOf Node.comesBack (Node.partsList nodes) → es' = es)

structure SurfacedProperties (ps : List (String × Node)) (es : List (String × Formula × Node)) :
    Prop where
  keepsText : ∀ p ∈ ps, p.2.KeepsText (headerSpelling ctx.tables.length)
  resolved : ∃ es', Derives ctx site s
      (.properties (ps.map fun p => (p.1, p.2.surface (headerSpelling ctx.tables.length))) es') s' ∧
    List.Forall₂ (fun e e' => Formula.Respells.Entry (e.1, e.2.1) (e'.1, e'.2.1)) es es' ∧
    (AllOf Node.comesBack (Node.partsProperties ps) → es' = es)

/-- Arguments of an operator only have to be compared if they are read back as they were. -/
structure SurfacedOperands (fields : Nat) (nodes : List Node) (o : Operands) : Prop where
  keepsText : ∀ n ∈ nodes, n.KeepsText (headerSpelling ctx.tables.length)
  resolved : AllOf Node.comesBack (Node.partsList nodes) → Derives ctx site s
    (.operands fields (nodes.map (Node.surface (headerSpelling ctx.tables.length))) o) s'

/-- The surface of a part is spelled and resolved alike. -/
def Part.Surfaced : Part → Prop
  | expression n e => Resolve.Surfaced ctx site s s' n e
  | expressions ns es => SurfacedList ctx site s s' ns es
  | properties ps es => SurfacedProperties ctx site s s' ps es
  | operands fields ns o => SurfacedOperands ctx site s s' fields ns o
  | _ => True

end Definitions

variable {ctx : ResolveContext} {site : Site} {s s' t : ResolveState} {n o p : Node}
  {e : Formula × Node}

/-! ## Names, columns and parameters -/

theorem isLocal_of_nil (h : s.locals = []) (name : String) : s.isLocal name = false := by
  unfold ResolveState.isLocal ResolveState.local?
  rw [h]
  rfl

theorem surfaced_literal {v : Literal} (hv : AllOf Node.isSpelled (Node.literal v).parts) :
    Surfaced ctx site s s (.literal v) (.literal v.toValue, .literal v) := by
  have hspelled : ∀ x, v = .number x → Number.isSpelled x = true := by
    rintro x rfl
    exact hv _ (Node.self_mem_parts _)
  refine ⟨⟨?_, fun sp => ?_⟩, ?_⟩
  · rw [Node.surface]
    exact Node.spellable_literalSurface hspelled
  · rw [Node.surface, Node.textWith]
    exact Node.text_literalSurface hspelled sp
  · rw [Node.surface]
    by_cases hnegative : ∃ x, v = .number x ∧ x < 0.0
    · obtain ⟨x, rfl, hx⟩ := hnegative
      have hnumber : Node.literalSurface (.number x) = .unary .negate (.literal (.number (-x))) :=
        if_pos hx
      rw [hnumber]
      refine ⟨_, .unary (.literal _), .negative hx, fun hback => ?_⟩
      have hbare : (!decide (x < 0.0)) = true := hback _ (Node.self_mem_parts _)
      rw [decide_eq_true hx] at hbare
      cases hbare
    · have hsame : Node.literalSurface v = .literal v := by
        cases v with
        | number x => exact if_neg fun hx => hnegative ⟨x, rfl, hx⟩
        | _ => rfl
      rw [hsame]
      exact ⟨_, .literal v, .refl _, fun _ => rfl⟩

theorem surfaced_identifier {name : String} (hscope : site.scope = Scope.standard ctx.tables.length)
    (hlocals : s.locals = []) (h : identifier ctx site (.identifier name) name s = .ok e) :
    Surfaced ctx site s s (.identifier name) e := by
  have hword : Token.IsWord name := by
    have hlocal : s.local? name = none := by
      unfold ResolveState.local?
      rw [hlocals]
      rfl
    unfold identifier at h
    rw [hlocal, hscope] at h
    dsimp only at h
    split at h
    next heq => exact absurd heq (Option.some_ne_none _).symm
    next heq => exact absurd heq (Option.some_ne_none _).symm
    next =>
      split at h
      next => cases h
      next =>
        split at h
        next => cases h
        next =>
          split at h
          next v hv => exact word_of_global? hv
          next => cases h
  have hplain := plain_identifier (headerSpelling ctx.tables.length) hword
  refine ⟨⟨?_, fun sp => ?_⟩, e, ?_, .refl _, fun _ => rfl⟩
  · rw [hplain.surface]
    exact hplain.spellable
  · rw [hplain.surface]
    exact hplain.text sp
  · rw [hplain.surface]
    exact .identifier h

/-- An access by a name that owns the key. -/
theorem surfaced_access {object key : String} {owner : Owner}
    (hsurface : n.surface (headerSpelling ctx.tables.length) = .access object key)
    (htext : n.textWith (headerSpelling ctx.tables.length) = Node.accessText object key)
    (hword : Token.IsWord object) (howner : ownerOf site s (.identifier object) = owner)
    (hother : owner ≠ .other) (h : ∀ node, owned ctx site node owner key = .ok e) :
    Surfaced ctx site s s n e := by
  refine ⟨⟨?_, fun sp => ?_⟩, e, ?_, .refl _, fun _ => rfl⟩
  · rw [hsurface]
    exact Node.spellable_access hword.isName hword.free key
  · rw [hsurface, Node.text_access, htext]
  · rw [hsurface]
    unfold Node.access
    split <;> exact .owned howner hother rfl (h _)

theorem surfaced_column {table : Nat} {name : String} (hle : ctx.tables.length ≤ 2)
    (hscope : site.scope = Scope.standard ctx.tables.length) (hlocals : s.locals = [])
    (h : column ctx site (.column table name) table name = .ok e) :
    Surfaced ctx site s s (.column table name) e := by
  obtain ⟨_, _, ht, -, -, -⟩ := column_eq_ok_iff.1 h
  obtain ⟨hlt, -⟩ := List.getElem?_eq_some_iff.1 ht
  obtain ⟨hword, htable⟩ := tableOf?_headerSpelling hlt hle
  have howner : ownerOf site s
      (.identifier ((headerSpelling ctx.tables.length).table table)) = .table table := by
    unfold ownerOf
    dsimp only
    rw [isLocal_of_nil hlocals, if_neg Bool.false_ne_true, hscope, htable]
  refine surfaced_access (by rw [Node.surface]) (by rw [Node.textWith]) hword howner nofun ?_
  exact fun node => (column_spec h).2 site node rfl

theorem surfaced_parameter {name : String} (hscope : site.scope = Scope.standard ctx.tables.length)
    (hlocals : s.locals = []) (h : parameter ctx (.parameter name) name = .ok e) :
    Surfaced ctx site s s (.parameter name) e := by
  have howner : ownerOf site s (.identifier "$") = .params := by
    have htable : (Scope.standard ctx.tables.length).tableOf? "$" = none := by
      unfold Scope.tableOf? Scope.standard
      dsimp only
      split <;> rfl
    unfold ownerOf
    dsimp only
    rw [isLocal_of_nil hlocals, if_neg Bool.false_ne_true, hscope, htable]
    rfl
  refine surfaced_access (by rw [Node.surface]; rfl) (by rw [Node.textWith]; rfl)
    ⟨by decide, by decide⟩ howner nofun ?_
  exact fun node => (parameter_spec h).2 node

/-! ## Members -/

theorem ownerOf_surface (sp : Spelling) (h : ownerOf site s o = .other) :
    ownerOf site s (o.surface sp) = .other := by
  cases hsurface : o.surface sp with
  | identifier name =>
    obtain rfl := Node.surface_eq_identifier hsurface
    exact h
  | _ => rfl

theorem surfaced_dotted {name : String} {a : Formula × Node} (howner : ownerOf site s o = .other)
    (ho : Surfaced ctx site s s' o a)
    (hspelled : AllOf Node.isSpelled (Node.member o (.identifier name) false).parts) :
    Surfaced ctx site s s' (.member o (.identifier name) false)
      (.member a.1 (.literal (.string name)), .member a.2 (.identifier name) false) := by
  obtain ⟨hnumber, hname⟩ := Node.dotted_of_isSpelled (hspelled _ (Node.self_mem_parts _))
  obtain ⟨a', ha, hrespells, hback⟩ := ho.resolved
  refine ⟨⟨?_, fun sp => ?_⟩, (.member a'.1 (.literal (.string name)),
    .member a'.2 (.identifier name) false), ?_, .member hrespells (.refl _), fun hall => ?_⟩
  · rw [Node.surface]
    exact .dotted ho.spellable ((Node.shape_surface _ o).2.2.trans hnumber) hname
  · rw [Node.surface, Node.textWith, Node.textWith, ho.text, Node.enclosed_surface]
  · rw [Node.surface]
    exact .dotted (ownerOf_surface _ howner) ha
  · rw [hback hall.tail.left]

theorem computed_of_comesBack {computed : Bool}
    (hname : computed = false → ∀ name, p ≠ .identifier name)
    (hall : AllOf Node.comesBack (Node.member o p computed).parts) : computed = true := by
  cases computed with
  | true => rfl
  | false =>
    obtain ⟨name, heq⟩ := Node.name_of_isBare
      (Node.isBare_of_comesBack (hall _ (Node.self_mem_parts _)))
    exact absurd heq (hname rfl name)

theorem surfaced_computed {computed : Bool} {a b : Formula × Node}
    (howner : ownerOf site s o = .other)
    (hname : computed = false → ∀ name, p ≠ .identifier name)
    (ho : Surfaced ctx site s t o a) (hp : Surfaced ctx site t s' p b) :
    Surfaced ctx site s s' (.member o p computed) (.member a.1 b.1, .member a.2 b.2 computed) := by
  obtain ⟨a', ha, harespells, haback⟩ := ho.resolved
  obtain ⟨b', hb, hbrespells, hbback⟩ := hp.resolved
  have hsurface := Node.surface_member (s := headerSpelling ctx.tables.length) (o := o) hname
  refine ⟨⟨?_, fun sp => ?_⟩, (.member a'.1 b'.1, .member a'.2 b'.2 true), ?_,
    .member harespells hbrespells, fun hall => ?_⟩
  · rw [hsurface]
    exact .computed ho.spellable hp.spellable
  · rw [hsurface, Node.textWith_member fun h => Bool.noConfusion h, Node.textWith_member hname,
      ho.text, hp.text, Node.enclosed_surface]
  · rw [hsurface]
    exact .member (ownerOf_surface _ howner) nofun ha hb
  · rw [haback hall.tail.left, hbback hall.tail.right, computed_of_comesBack hname hall]

/-! ## Keys -/

/-- What owns a key gives the same for any node; only `Math` keeps the node. -/
theorem owned_node {node : Node} {owner : Owner} {key : String}
    (h : owned ctx site node owner key = .ok e) (other : Node) :
    ∃ e', owned ctx site other owner key = .ok e' ∧ e'.1 = e.1 ∧
      ((owner = .math → other = node) → e' = e) := by
  rcases owned_cases h with ⟨t, rfl, hcolumn⟩ | ⟨rfl, hparam⟩ | ⟨rfl, v, hv, rfl⟩
  · exact ⟨e, (column_spec hcolumn).2 site other rfl, rfl, fun _ => rfl⟩
  · exact ⟨e, (parameter_spec hparam).2 other, rfl, fun _ => rfl⟩
  · exact ⟨_, mathConstant_eq_ok_iff.2 ⟨v, hv, rfl⟩, rfl, fun heq => by rw [heq rfl]⟩

/-- A key in brackets may be a constant of any form. -/
theorem derives_owned_of_constant {owner : Owner} {q : Formula × Node} {v : Value}
    (howner : ownerOf site s o = owner) (hother : owner ≠ .other)
    (hq : Derives ctx site s (.expression p q) s) (hv : q.1.constant? = some v)
    (h : owned ctx site (.member o p true) owner v.text = .ok e) :
    Derives ctx site s (.expression (.member o p true) e) s := by
  cases hplain : plainKey? true p with
  | none => exact .resolvedKey howner hother hplain hq hv h
  | some key =>
    unfold plainKey? at hplain
    split at hplain
    next heq => cases heq
    next w =>
      cases hq
      cases hv
      exact .owned howner hother rfl h
    next => cases hplain

/-- An access by a name after a point. -/
theorem surfaced_ownedName {owner : Owner} {object name : String} (hword : Token.IsWord object)
    (howner : ownerOf site s (.identifier object) = owner) (hother : owner ≠ .other)
    (howned : owned ctx site (.member (.identifier object) (.identifier name) false) owner name
      = .ok e)
    (hspelled : AllOf Node.isSpelled
      (Node.member (.identifier object) (.identifier name) false).parts) :
    Surfaced ctx site s s (.member (.identifier object) (.identifier name) false) e := by
  have hplain := plain_dotted (plain_identifier (headerSpelling ctx.tables.length) hword) rfl
    (Node.dotted_of_isSpelled (hspelled _ (Node.self_mem_parts _))).2
  refine ⟨⟨?_, fun sp => ?_⟩, e, ?_, .refl _, fun _ => rfl⟩
  · rw [hplain.surface]
    exact hplain.spellable
  · rw [hplain.surface]
    exact hplain.text sp
  · rw [hplain.surface]
    exact .owned howner hother rfl howned

/-- An access by a constant in brackets. -/
theorem surfaced_ownedKey {computed : Bool} {owner : Owner} {object : String} {q : Formula × Node}
    {v : Value} (hword : Token.IsWord object)
    (howner : ownerOf site s (.identifier object) = owner) (hother : owner ≠ .other)
    (hname : computed = false → ∀ name, p ≠ .identifier name) (hp : Surfaced ctx site s s p q)
    (hv : q.1.constant? = some v)
    (howned : owned ctx site (.member (.identifier object) p computed) owner v.text = .ok e) :
    Surfaced ctx site s s (.member (.identifier object) p computed) e := by
  have hplain := plain_identifier (headerSpelling ctx.tables.length) hword
  obtain ⟨q', hq', hrespells, -⟩ := hp.resolved
  have hsurface := Node.surface_member (s := headerSpelling ctx.tables.length)
    (o := .identifier object) hname
  rw [hplain.surface] at hsurface
  obtain ⟨e', howned', hformula, hsame⟩ := owned_node howned
    (.member (.identifier object) (p.surface (headerSpelling ctx.tables.length)) true)
  refine ⟨⟨?_, fun sp => ?_⟩, e', ?_, hformula ▸ .refl _, fun hall => hsame fun hmath => ?_⟩
  · rw [hsurface]
    exact .computed hplain.spellable hp.spellable
  · rw [hsurface, Node.textWith_member fun h => Bool.noConfusion h, Node.textWith_member hname,
      hp.text, hplain.text]
  · rw [hsurface]
    exact derives_owned_of_constant howner hother hq' (hrespells.constant?.trans hv) howned'
  · obtain ⟨hobject, -⟩ := ownerOf_eq_math (howner.trans hmath)
    obtain rfl : object = "Math" := Node.identifier.inj hobject
    have hbare := Node.bare_of_comesBack (hall _ (Node.self_mem_parts _))
    rw [Node.surface_of_bare _ hbare, computed_of_comesBack hname hall]

theorem surfaced_owned {computed : Bool} {owner : Owner} {key : String}
    (hscope : site.scope = Scope.standard ctx.tables.length)
    (howner : ownerOf site s o = owner) (hother : owner ≠ .other)
    (hkey : plainKey? computed p = some key)
    (howned : owned ctx site (.member o p computed) owner key = .ok e)
    (hspelled : AllOf Node.isSpelled (Node.member o p computed).parts) :
    Surfaced ctx site s s (.member o p computed) e := by
  obtain ⟨object, rfl, hword⟩ := word_of_ownerOf hscope (howner.trans_ne hother)
  unfold plainKey? at hkey
  split at hkey
  next name =>
    cases hkey
    exact surfaced_ownedName hword howner hother howned hspelled
  next v =>
    cases hkey
    exact surfaced_ownedKey hword howner hother nofun (surfaced_literal hspelled.tail.right) rfl
      howned
  next => cases hkey

theorem surfaced_resolvedKey {computed : Bool} {owner : Owner} {q : Formula × Node} {v : Value}
    (hscope : site.scope = Scope.standard ctx.tables.length)
    (howner : ownerOf site s o = owner) (hother : owner ≠ .other)
    (hplain : plainKey? computed p = none) (hp : Surfaced ctx site s s p q)
    (hv : q.1.constant? = some v)
    (howned : owned ctx site (.member o p computed) owner v.text = .ok e) :
    Surfaced ctx site s s (.member o p computed) e := by
  obtain ⟨object, rfl, hword⟩ := word_of_ownerOf hscope (howner.trans_ne hother)
  refine surfaced_ownedKey hword howner hother ?_ hp hv howned
  rintro rfl name rfl
  cases hplain

/-! ## Operations -/

theorem surfaced_unary (op : UnaryOp) {x : Formula × Node} (hn : Surfaced ctx site s s' n x) :
    Surfaced ctx site s s' (.unary op n) (.unary op x.1, .unary op x.2) := by
  obtain ⟨x', hx, hrespells, hback⟩ := hn.resolved
  refine ⟨⟨?_, fun sp => ?_⟩, (.unary op x'.1, .unary op x'.2), ?_, .unary op hrespells,
    fun hall => ?_⟩
  · rw [Node.surface]
    exact .unary op hn.spellable
  · rw [Node.surface, Node.textWith, Node.textWith, hn.text, Node.enclosed_surface]
  · rw [Node.surface]
    exact .unary hx
  · rw [hback hall.tail]

theorem surfaced_binary (op : BinaryOp) {l r : Node} {x y : Formula × Node}
    (hl : Surfaced ctx site s t l x) (hr : Surfaced ctx site t s' r y) :
    Surfaced ctx site s s' (.binary op l r) (binary op x.1 y.1, .binary op x.2 y.2) := by
  obtain ⟨x', hx, hxrespells, hxback⟩ := hl.resolved
  obtain ⟨y', hy, hyrespells, hyback⟩ := hr.resolved
  refine ⟨⟨?_, fun sp => ?_⟩, (binary op x'.1 y'.1, .binary op x'.2 y'.2), ?_,
    .binary op hxrespells hyrespells, fun hall => ?_⟩
  · rw [Node.surface]
    exact .binary op hl.spellable hr.spellable
  · rw [Node.surface, Node.textWith, Node.textWith, hl.text, hr.text, Node.enclosed_surface,
      Node.enclosed_surface]
  · rw [Node.surface]
    exact .binary hx hy
  · rw [hxback hall.tail.left, hyback hall.tail.right]

theorem surfaced_logical (op : LogicalOp) {l r : Node} {x y : Formula × Node}
    (hl : Surfaced ctx site s t l x) (hr : Surfaced ctx site t s' r y) :
    Surfaced ctx site s s' (.logical op l r) (.logical op x.1 y.1, .logical op x.2 y.2) := by
  obtain ⟨x', hx, hxrespells, hxback⟩ := hl.resolved
  obtain ⟨y', hy, hyrespells, hyback⟩ := hr.resolved
  refine ⟨⟨?_, fun sp => ?_⟩, (.logical op x'.1 y'.1, .logical op x'.2 y'.2), ?_,
    .logical op hxrespells hyrespells, fun hall => ?_⟩
  · rw [Node.surface]
    exact .logical op hl.spellable hr.spellable
  · rw [Node.surface, Node.textWith, Node.textWith, hl.text, hr.text, Node.enclosed_surface,
      Node.enclosed_surface]
  · rw [Node.surface]
    exact .logical hx hy
  · rw [hxback hall.tail.left, hyback hall.tail.right]

theorem surfaced_conditional {a b c : Node} {x y z : Formula × Node} {u : ResolveState}
    (ha : Surfaced ctx site s t a x) (hb : Surfaced ctx site t u b y)
    (hc : Surfaced ctx site u s' c z) :
    Surfaced ctx site s s' (.conditional a b c)
      (.conditional x.1 y.1 z.1, .conditional x.2 y.2 z.2) := by
  obtain ⟨x', hx, hxrespells, hxback⟩ := ha.resolved
  obtain ⟨y', hy, hyrespells, hyback⟩ := hb.resolved
  obtain ⟨z', hz, hzrespells, hzback⟩ := hc.resolved
  refine ⟨⟨?_, fun sp => ?_⟩, (.conditional x'.1 y'.1 z'.1, .conditional x'.2 y'.2 z'.2), ?_,
    .conditional hxrespells hyrespells hzrespells, fun hall => ?_⟩
  · rw [Node.surface]
    exact .conditional ha.spellable hb.spellable hc.spellable
  · rw [Node.surface, Node.textWith, Node.textWith, ha.text, hb.text, hc.text,
      Node.enclosed_surface, Node.enclosed_surface, Node.enclosed_surface]
  · rw [Node.surface]
    exact .conditional hx hy hz
  · rw [hxback hall.tail.left.left, hyback hall.tail.left.right, hzback hall.tail.right]

/-! ## Lists -/

theorem surfacedList_cons {ns : List Node} {es : List (Formula × Node)}
    (hn : Surfaced ctx site s t n e) (hns : SurfacedList ctx site t s' ns es) :
    SurfacedList ctx site s s' (n :: ns) (e :: es) := by
  obtain ⟨e', he, hrespells, hback⟩ := hn.resolved
  obtain ⟨es', hes, hsrespell, hsback⟩ := hns.resolved
  refine ⟨List.forall_mem_cons.2 ⟨hn.toKeepsText, hns.keepsText⟩, e' :: es',
    .moreExpressions he hes, .cons hrespells hsrespell, fun hall => ?_⟩
  rw [hback hall.left, hsback hall.right]

theorem surfaced_array {ns : List Node} {es : List (Formula × Node)}
    (hns : SurfacedList ctx site s s' ns es) :
    Surfaced ctx site s s' (.array ns) (.array (es.map (·.1)), .array (es.map (·.2))) := by
  obtain ⟨es', hes, hrespells, hback⟩ := hns.resolved
  refine ⟨⟨?_, fun sp => ?_⟩, (.array (es'.map (·.1)), .array (es'.map (·.2))), ?_, .array ?_,
    fun hall => ?_⟩
  · rw [Node.surface, Node.surfaces_eq]
    exact .array (List.forall_mem_map.2 fun n hn => (hns.keepsText n hn).spellable)
  · rw [Node.surface, Node.surfaces_eq, Node.textWith, Node.textWith, Node.textsWith_eq,
      Node.textsWith_eq, List.map_map]
    exact congrArg (fun texts => "[" ++ Node.commaSeparated texts ++ "]")
      (List.map_congr_left fun n hn => (hns.keepsText n hn).text sp)
  · rw [Node.surface, Node.surfaces_eq]
    exact .array hes
  · exact List.forall₂_map_left_iff.2 (List.forall₂_map_right_iff.2 hrespells)
  · rw [hback hall.tail]

theorem surfacedProperties_cons {k : String} {ps : List (String × Node)}
    {es : List (String × Formula × Node)} (hn : Surfaced ctx site s t n e)
    (hps : SurfacedProperties ctx site t s' ps es) :
    SurfacedProperties ctx site s s' ((k, n) :: ps) ((k, e) :: es) := by
  obtain ⟨e', he, hrespells, hback⟩ := hn.resolved
  obtain ⟨es', hes, hsrespell, hsback⟩ := hps.resolved
  refine ⟨List.forall_mem_cons.2 ⟨hn.toKeepsText, hps.keepsText⟩, (k, e') :: es',
    .moreProperties he hes, .cons ⟨rfl, hrespells⟩ hsrespell, fun hall => ?_⟩
  rw [hback hall.left, hsback hall.right]

theorem surfaced_object {ps : List (String × Node)} {es : List (String × Formula × Node)}
    (hps : SurfacedProperties ctx site s s' ps es) :
    Surfaced ctx site s s' (.object ps)
      (.object (es.map fun p => (p.1, p.2.1)), .object (es.map fun p => (p.1, p.2.2))) := by
  obtain ⟨es', hes, hrespells, hback⟩ := hps.resolved
  refine ⟨⟨?_, fun sp => ?_⟩, (.object (es'.map fun p => (p.1, p.2.1)),
    .object (es'.map fun p => (p.1, p.2.2))), ?_, .object ?_, fun hall => ?_⟩
  · rw [Node.surface, Node.surfaceProperties_eq]
    exact .object (List.forall_mem_map.2 fun p hp => (hps.keepsText p hp).spellable)
  · rw [Node.surface, Node.surfaceProperties_eq, Node.textWith, Node.textWith,
      Node.propertyTexts_eq, Node.propertyTexts_eq, List.map_map]
    refine congrArg (fun texts => "(\x7b " ++ Node.commaSeparated texts ++ " \x7d)")
      (List.map_congr_left fun p hp => ?_)
    exact congrArg (Node.keyText p.1 ++ ": " ++ ·) ((hps.keepsText p hp).text sp)
  · rw [Node.surface, Node.surfaceProperties_eq]
    exact .object hes
  · exact List.forall₂_map_left_iff.2 (List.forall₂_map_right_iff.2 hrespells)
  · rw [hback hall.tail]

/-! ## Calls -/

variable {f : Node} {args : List Node} {c : Callee}

theorem keepsText_call {sp : Spelling} (hf : Plain sp f) (hargs : ∀ n ∈ args, n.KeepsText sp) :
    (Node.call f args).KeepsText sp := by
  refine ⟨?_, fun s => ?_⟩
  · rw [Node.surface, Node.surfaces_eq, hf.surface]
    exact .call hf.spellable (List.forall_mem_map.2 fun n hn => (hargs n hn).spellable)
  · have hmap : (args.map (Node.surface sp)).map (Node.textWith s) = args.map (Node.textWith sp) := by
      rw [List.map_map]
      exact List.map_congr_left fun n hn => (hargs n hn).text s
    rw [Node.surface, Node.surfaces_eq, hf.surface, Node.textWith, Node.textWith, hf.text,
      Node.textsWith_eq, Node.textsWith_eq, hmap]

theorem surfaced_scalarCall {g : ScalarFunction} {as : List (Formula × Node)}
    (hcallee : callee (.call f args) f s = .ok (.scalar g)) (hadmits : g.admits args.length = true)
    (hargs : SurfacedList ctx site s s' args as) :
    Surfaced ctx site s s' (.call f args) (.call g (as.map (·.1)), .call f (as.map (·.2))) := by
  have hf := plain_callee hcallee (headerSpelling ctx.tables.length)
  obtain ⟨as', has, hrespells, hback⟩ := hargs.resolved
  refine ⟨keepsText_call hf hargs.keepsText, (.call g (as'.map (·.1)), .call f (as'.map (·.2))), ?_,
    .call g ?_, fun hall => ?_⟩
  · rw [← List.length_map (Node.surface (headerSpelling ctx.tables.length))] at hadmits
    rw [Node.surface, Node.surfaces_eq, hf.surface]
    exact .scalar (callee_of_callee hcallee _) hadmits has
  · exact List.forall₂_map_left_iff.2 (List.forall₂_map_right_iff.2 hrespells)
  · rw [hback hall.tail.right]

/-- Aggregates and window functions are called by names of operators. -/
theorem namesOperator_of_callee {node : Node} (h : callee node f s = .ok c)
    (hc : ∀ g, c ≠ .scalar g) : f.namesOperator = true := by
  have hnamed : ∀ name, functionOf? name = some c →
      (match functionOf? name with
        | some (.aggregate _) | some (.window _) => true
        | _ => false) = true := by
    intro name hname
    rw [hname]
    cases c with
    | scalar g => exact absurd rfl (hc g)
    | _ => rfl
  unfold callee at h
  split at h
  next name =>
    split at h
    next => cases h
    next => exact hnamed name (namedCallee_eq_ok_iff.1 h)
  next ns name =>
    split at h
    next => cases h
    next =>
      split at h
      next => exact hnamed name (namedCallee_eq_ok_iff.1 h)
      next =>
        split at h
        next =>
          obtain ⟨g, -, rfl⟩ := mathCallee_eq_ok_iff.1 h
          exact absurd rfl (hc g)
        next => cases h
  next => cases h
  next => cases h
  next => cases h

theorem surfacedOperands_field {fields : Nat} {ns : List Node} {o : Operands}
    (hn : Surfaced ctx site s t n e) (hns : SurfacedOperands ctx site t s' fields ns o) :
    SurfacedOperands ctx site s s' (fields + 1) (n :: ns) { o with fields := e :: o.fields } := by
  obtain ⟨e', he, -, hback⟩ := hn.resolved
  refine ⟨List.forall_mem_cons.2 ⟨hn.toKeepsText, hns.keepsText⟩, fun hall => ?_⟩
  obtain rfl := hback hall.left
  exact .field he (hns.resolved hall.right)

theorem surfacedOperands_constant {ns : List Node} {o : Operands} {v : Value}
    (hn : Surfaced ctx site s t n e) (hv : e.1.constant? = some v)
    (hns : SurfacedOperands ctx site t s' 0 ns o) :
    SurfacedOperands ctx site s s' 0 (n :: ns) { o with params := (v, e.2) :: o.params } := by
  obtain ⟨e', he, -, hback⟩ := hn.resolved
  refine ⟨List.forall_mem_cons.2 ⟨hn.toKeepsText, hns.keepsText⟩, fun hall => ?_⟩
  obtain rfl := hback hall.left
  exact .constant he hv (hns.resolved hall.right)

/-- A call of an operator, whose arguments are read back as they were. -/
theorem surfaced_operatorCall {fields : Nat} {o : Operands}
    (hcallee : callee (.call f args) f s = .ok c) (hc : ∀ g, c ≠ .scalar g)
    (hspelled : AllOf Node.isSpelled (Node.call f args).parts)
    (hargs : SurfacedOperands ctx (inside site) s s fields args o)
    (hcall : ∀ surfaces : List Node, surfaces.length = args.length →
      callee (.call f surfaces) f s = .ok c →
      Derives ctx (inside site) s (.operands fields surfaces o) s →
      Derives ctx site s (.expression (.call f surfaces) e) s') :
    Surfaced ctx site s s' (.call f args) e := by
  have hf := plain_callee hcallee (headerSpelling ctx.tables.length)
  have hback : AllOf Node.comesBack (Node.partsList args) :=
    Node.comesBack_of_isSpelled (hspelled _ (Node.self_mem_parts _))
      (namesOperator_of_callee hcallee hc)
  refine ⟨keepsText_call hf hargs.keepsText, e, ?_, .refl _, fun _ => rfl⟩
  rw [Node.surface, Node.surfaces_eq, hf.surface]
  exact hcall _ (List.length_map _) (callee_of_callee hcallee _) (hargs.resolved hback)

/-! ## Derivations -/

/-- The surface of an expression without a header is spelled like the expression, and resolves to
    a formula that is worth the same. -/
theorem Derives.surfaced (hle : ctx.tables.length ≤ 2) {part : Part}
    (h : Derives ctx site s part s') :
    site.scope = Scope.standard ctx.tables.length → s.locals = [] →
      AllOf Node.isSpelled part.parts → part.Surfaced ctx site s s' := by
  induction h with
  | literal v => exact fun _ _ hspelled => surfaced_literal hspelled
  | identifier he => exact fun hscope hlocals _ => surfaced_identifier hscope hlocals he
  | column he => exact fun hscope hlocals _ => surfaced_column hle hscope hlocals he
  | parameter he => exact fun hscope hlocals _ => surfaced_parameter hscope hlocals he
  | owned howner hother hkey he =>
    exact fun hscope _ hspelled => surfaced_owned hscope howner hother hkey he hspelled
  | resolvedKey howner hother hplain _ hv he ih =>
    exact fun hscope hlocals hspelled => surfaced_resolvedKey hscope howner hother hplain
      (ih hscope hlocals hspelled.tail.right) hv he
  | dotted howner _ ih =>
    exact fun hscope hlocals hspelled =>
      surfaced_dotted howner (ih hscope hlocals hspelled.tail.left) hspelled
  | member howner hname ho _ iho ihp =>
    exact fun hscope hlocals hspelled => surfaced_computed howner hname
      (iho hscope hlocals hspelled.tail.left)
      (ihp hscope (ho.declared.locals_eq.trans hlocals) hspelled.tail.right)
  | scalar hcallee hadmits _ ih =>
    exact fun hscope hlocals hspelled =>
      surfaced_scalarCall hcallee hadmits (ih hscope hlocals hspelled.tail.right)
  | aggregate hcallee hallowed hplace hcount _ ih =>
    intro hscope hlocals hspelled
    refine surfaced_operatorCall hcallee nofun hspelled (ih hscope hlocals hspelled.tail.right) ?_
    intro surfaces hlength hcallee' ho
    exact .aggregate hcallee' (checkAggregate_of_checkAggregate hallowed rfl _) hplace
      (hlength ▸ hcount) ho
  | window hcallee hallowed hplace hcount _ ih =>
    intro hscope hlocals hspelled
    refine surfaced_operatorCall hcallee nofun hspelled (ih hscope hlocals hspelled.tail.right) ?_
    intro surfaces hlength hcallee' ho
    exact .window hcallee' hallowed hplace (hlength ▸ hcount) ho
  | unary _ ih =>
    exact fun hscope hlocals hspelled => surfaced_unary _ (ih hscope hlocals hspelled.tail)
  | binary hl _ ihl ihr =>
    exact fun hscope hlocals hspelled => surfaced_binary _
      (ihl hscope hlocals hspelled.tail.left)
      (ihr hscope (hl.declared.locals_eq.trans hlocals) hspelled.tail.right)
  | logical hl _ ihl ihr =>
    exact fun hscope hlocals hspelled => surfaced_logical _
      (ihl hscope hlocals hspelled.tail.left)
      (ihr hscope (hl.declared.locals_eq.trans hlocals) hspelled.tail.right)
  | conditional ht hc _ iht ihc iha =>
    intro hscope hlocals hspelled
    have hlocals₁ := ht.declared.locals_eq.trans hlocals
    have hlocals₂ := hc.declared.locals_eq.trans hlocals₁
    exact surfaced_conditional (iht hscope hlocals hspelled.tail.left.left)
      (ihc hscope hlocals₁ hspelled.tail.left.right) (iha hscope hlocals₂ hspelled.tail.right)
  | array _ ih =>
    exact fun hscope hlocals hspelled => surfaced_array (ih hscope hlocals hspelled.tail)
  | object _ ih =>
    exact fun hscope hlocals hspelled => surfaced_object (ih hscope hlocals hspelled.tail)
  | noExpressions =>
    exact fun _ _ _ => ⟨by simp, [], .noExpressions, .nil, fun _ => rfl⟩
  | moreExpressions he _ ih ih' =>
    exact fun hscope hlocals hspelled => surfacedList_cons (ih hscope hlocals hspelled.left)
      (ih' hscope (he.declared.locals_eq.trans hlocals) hspelled.right)
  | noProperties =>
    exact fun _ _ _ => ⟨by simp, [], .noProperties, .nil, fun _ => rfl⟩
  | moreProperties he _ ih ih' =>
    exact fun hscope hlocals hspelled => surfacedProperties_cons (ih hscope hlocals hspelled.left)
      (ih' hscope (he.declared.locals_eq.trans hlocals) hspelled.right)
  | noOperands => exact fun _ _ _ => ⟨by simp, fun _ => .noOperands⟩
  | field he _ ih ih' =>
    exact fun hscope hlocals hspelled => surfacedOperands_field (ih hscope hlocals hspelled.left)
      (ih' hscope (he.declared.locals_eq.trans hlocals) hspelled.right)
  | constant hp hv _ ih ih' =>
    exact fun hscope hlocals hspelled => surfacedOperands_constant
      (ih hscope hlocals hspelled.left) hv
      (ih' hscope (hp.declared.locals_eq.trans hlocals) hspelled.right)
  | _ => exact fun _ _ _ => trivial

end Resolve

end ColumnQuery
