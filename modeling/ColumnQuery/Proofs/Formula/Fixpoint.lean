/-
  Rewritten trees are fixpoints of resolution.

  Resolution turns references to columns and parameters into nodes of their own, and everything else
  keeps its shape: the rewritten tree of an expression is an expression, which is a name or a call
  only if the expression was that name or a call of that function (`Derives.rewritten`).

  The rewritten tree of a part resolves, without a header, to the same formula, and it is rewritten
  to itself; on the way the same calls are registered in the same order (`Derives.again`). The one
  thing in a tree that is not rewritten is a key of `Math`: it keeps the names that the header gave
  it. So the names in such keys have to mean the same with the header and without it
  (`Scope.MathKeysAgree`), which they do if there was no header.
-/
import ColumnQuery.Proofs.Formula.Scopes

namespace ColumnQuery

/-! ## Keys of `Math` -/

namespace Scope

/-- If the tree reads a constant of `Math` under a key that has to be resolved, then all names in
    the key stand for the same in both scopes. -/
def MathKeyAgrees (S T : Scope) (n : Node) : Prop :=
  ∀ key computed, n = .member (.identifier "Math") key computed →
    Resolve.plainKey? computed key = none → S.AgreeIn T key.parts

/-- The keys of `Math` in a list of trees mean the same in both scopes. -/
def MathKeysAgree (S T : Scope) (nodes : List Node) : Prop := ∀ n ∈ nodes, S.MathKeyAgrees T n

theorem MathKeysAgree.left {S T : Scope} {xs ys : List Node} (h : S.MathKeysAgree T (xs ++ ys)) :
    S.MathKeysAgree T xs := fun n hn => h n (List.mem_append_left ys hn)

theorem MathKeysAgree.right {S T : Scope} {xs ys : List Node} (h : S.MathKeysAgree T (xs ++ ys)) :
    S.MathKeysAgree T ys := fun n hn => h n (List.mem_append_right xs hn)

theorem MathKeysAgree.tail {S T : Scope} {x : Node} {xs : List Node}
    (h : S.MathKeysAgree T (x :: xs)) : S.MathKeysAgree T xs :=
  fun n hn => h n (List.mem_cons_of_mem x hn)

theorem MathKeysAgree.refl (S : Scope) (nodes : List Node) : S.MathKeysAgree S nodes :=
  fun _ _ key _ _ _ => AgreeIn.refl S key.parts

end Scope

namespace Resolve

variable {ctx : ResolveContext} {site : Site} {s t : ResolveState} {e : Formula × Node}

/-! ## Rewritten trees -/

/-- What a tree has become: an expression, which is a name or a call only if it was that name or
    a call of the same function. -/
structure Rewritten (n t : Node) : Prop where
  isExpression : t.isExpression = true
  identifier : ∀ name, t = .identifier name → n = .identifier name
  call : ∀ f args, t = .call f args → ∃ others, n = .call f others

theorem rewritten_of_column {n : Node} {node : Node} {table : Nat} {name : String}
    (h : column ctx site node table name = .ok e) : Rewritten n e.2 := by
  rw [(column_spec h).1]
  exact ⟨rfl, nofun, nofun⟩

theorem rewritten_of_parameter {n : Node} {node : Node} {name : String}
    (h : parameter ctx node name = .ok e) : Rewritten n e.2 := by
  rw [(parameter_spec h).1]
  exact ⟨rfl, nofun, nofun⟩

theorem rewritten_of_identifier {name : String}
    (h : identifier ctx site (.identifier name) name s = .ok e) :
    Rewritten (.identifier name) e.2 := by
  have hkept : Rewritten (.identifier name) (.identifier name) := ⟨rfl, fun _ h => h, nofun⟩
  rcases identifier_cases h with ⟨slot, -, -, rfl⟩ | ⟨-, ⟨_, _, h⟩ | ⟨_, h⟩ | ⟨v, -, rfl⟩⟩
  · exact hkept
  · exact rewritten_of_column h
  · exact rewritten_of_parameter h
  · exact hkept

theorem rewritten_of_owned {object property : Node} {computed : Bool} {owner : Owner}
    {key : String}
    (h : owned ctx site (.member object property computed) owner key = .ok e) :
    Rewritten (.member object property computed) e.2 := by
  rcases owned_cases h with ⟨_, -, h⟩ | ⟨-, h⟩ | ⟨-, v, -, rfl⟩
  · exact rewritten_of_column h
  · exact rewritten_of_parameter h
  · exact ⟨rfl, nofun, nofun⟩

/-- What an expression may be rewritten to. -/
theorem Derives.rewritten {n : Node} (h : Derives ctx site s (.expression n e) t) :
    Rewritten n e.2 := by
  cases h with
  | identifier he => exact rewritten_of_identifier he
  | column he => exact rewritten_of_column he
  | parameter he => exact rewritten_of_parameter he
  | owned _ _ _ he | resolvedKey _ _ _ _ _ he => exact rewritten_of_owned he
  | scalar _ _ _ | aggregate _ _ _ _ _ | window _ _ _ _ _ =>
    exact ⟨rfl, nofun, fun f args heq => ⟨_, by cases heq; rfl⟩⟩
  | _ => exact ⟨rfl, nofun, nofun⟩

/-- A statement is rewritten to a block only if it was one. -/
theorem Derives.block_of_statement {n : Node} {r : List Statement × Node}
    (h : Derives ctx site s (.statement n r) t) {nodes : List Node} (hblock : r.2 = .block nodes) :
    ∃ ss, n = .block ss := by
  cases h with
  | block _ => exact ⟨_, rfl⟩
  | evaluated he =>
    have hexpression := he.rewritten.isExpression
    rw [hblock] at hexpression
    cases hexpression
  | _ => cases hblock

/-- The tree of a body is a block, or what an expression may be rewritten to. -/
theorem Derives.shape_of_body {n : Node} (h : Derives ctx site s (.body n e) t) :
    (∃ nodes, e.2 = .block nodes) ∨ Rewritten n e.2 := by
  cases h with
  | bodyBlock _ => exact .inl ⟨_, rfl⟩
  | bodyExpression he => exact .inr he.rewritten

theorem Derives.length_expressions {nodes : List Node} {es : List (Formula × Node)}
    (h : Derives ctx site s (.expressions nodes es) t) : es.length = nodes.length := by
  induction nodes generalizing s es with
  | nil =>
    cases h
    rfl
  | cons n ns ih =>
    cases h with
    | moreExpressions _ hes => exact congrArg (· + 1) (ih hes)

/-! ## Places without a header -/

/-- The same place under the names that need no header. -/
def withoutHeader (ctx : ResolveContext) (site : Site) : Site :=
  { site with scope := Scope.standard ctx.tables.length }

/-- Where a name stands before a member access: only names that nothing hides are owners. -/
theorem ownerOf_withoutHeader {name : String}
    (h : s.isLocal name = true ∨ name ∉ ["d", "d1", "d2", "$"]) :
    ownerOf (withoutHeader ctx site) s (.identifier name)
      = if s.isLocal name = true then .other else if name = "Math" then .math else .other := by
  unfold ownerOf withoutHeader
  dsimp only
  by_cases hlocal : s.isLocal name = true
  · rw [if_pos hlocal, if_pos hlocal]
  · obtain ⟨htable, hparams⟩ := Scope.standard_of_ne ctx.tables.length (h.resolve_left hlocal)
    rw [if_neg hlocal, if_neg hlocal, htable]
    dsimp only
    rw [if_neg hparams]

/-- A name that is no table and no parameters to a header is neither without one. -/
theorem ownerOf_again {object : Node} (howner : ownerOf site s object = .other)
    (h : Derives ctx site s (.expression object e) t) :
    ownerOf (withoutHeader ctx site) s e.2 = .other := by
  cases hname : e.2 with
  | identifier name =>
    obtain rfl := h.rewritten.identifier name hname
    cases h with
    | identifier he =>
      rcases identifier_cases he with ⟨slot, hslot, -, -⟩ | ⟨hlocal, ⟨_, _, he⟩ | ⟨_, he⟩ |
        ⟨v, hglobal, -⟩⟩
      · have hlocal : s.isLocal name = true := by
          unfold ResolveState.isLocal
          rw [hslot]
          rfl
        rw [ownerOf_withoutHeader (.inl hlocal), if_pos hlocal]
      · rw [(column_spec he).1] at hname
        cases hname
      · rw [(parameter_spec he).1] at hname
        cases hname
      · obtain ⟨hmath, hstandard⟩ := Constants.names_of_global? hglobal
        have hlocal : s.isLocal name = false := by
          unfold ResolveState.isLocal
          rw [hlocal]
          rfl
        rw [ownerOf_withoutHeader (.inr hstandard), hlocal, if_neg Bool.false_ne_true, if_neg hmath]
  | _ => rfl

/-! ## References -/

theorem column_again {node : Node} {table : Nat} {name : String}
    (h : column ctx site node table name = .ok e) :
    Derives ctx (withoutHeader ctx site) s (.expression e.2 e) s := by
  obtain ⟨hnode, hagain⟩ := column_spec h
  rw [hnode]
  exact .column (hagain (withoutHeader ctx site) _ rfl)

theorem parameter_again {node : Node} {name : String} (h : parameter ctx node name = .ok e)
    (site : Site) : Derives ctx site s (.expression e.2 e) s := by
  obtain ⟨hnode, hagain⟩ := parameter_spec h
  rw [hnode]
  exact .parameter (hagain _)

theorem identifier_again {name : String}
    (h : identifier ctx site (.identifier name) name s = .ok e) :
    Derives ctx (withoutHeader ctx site) s (.expression e.2 e) s := by
  rcases identifier_cases h with ⟨slot, hslot, hplace, rfl⟩ | ⟨hlocal, ⟨_, _, h⟩ | ⟨_, h⟩ |
    ⟨v, hglobal, rfl⟩⟩
  · refine .identifier ?_
    unfold identifier
    rw [hslot]
    exact if_neg (Bool.eq_false_iff.1 hplace)
  · exact column_again h
  · exact parameter_again h _
  · obtain ⟨htable, hparams⟩ :=
      Scope.standard_of_ne ctx.tables.length (Constants.names_of_global? hglobal).2
    refine .identifier ?_
    unfold identifier withoutHeader
    rw [hlocal, hglobal]
    dsimp only
    rw [htable, if_neg hparams]
    rfl

theorem ownerOf_withoutHeader_math {object : Node} (h : ownerOf site s object = .math) :
    ownerOf (withoutHeader ctx site) s object = .math := by
  obtain ⟨rfl, hlocal⟩ := ownerOf_eq_math h
  rw [ownerOf_withoutHeader (.inr (by decide)), hlocal]
  rfl

/-- Cells become nodes of their own, and a constant of `Math` stays the access that it is. -/
theorem owned_again {object property : Node} {computed : Bool} {owner : Owner} {key : String}
    (h : owned ctx site (.member object property computed) owner key = .ok e)
    (hmath : owner = .math → e.2 = .member object property computed →
      Derives ctx (withoutHeader ctx site) s (.expression e.2 e) s) :
    Derives ctx (withoutHeader ctx site) s (.expression e.2 e) s := by
  rcases owned_cases h with ⟨_, -, h⟩ | ⟨-, h⟩ | ⟨howner, v, -, rfl⟩
  · exact column_again h
  · exact parameter_again h _
  · exact hmath howner rfl

/-! ## Derivations -/

/-- The part with its rewritten trees in the place of its trees. -/
def Part.rewritten : Part → Part
  | expression _ e => expression e.2 e
  | expressions _ es => expressions (es.map (·.2)) es
  | properties _ es => properties (es.map fun p => (p.1, p.2.2)) es
  | operands fields _ o => operands fields o.nodes o
  | statement _ r => statement r.2 r
  | branch _ r => branch r.2 r
  | statements _ r => statements r.2 r
  | declarations _ r => declarations (r.map (·.2)) r
  | body _ e => body e.2 e

/-- What a part was rewritten to is resolved, without a header, to the same formula and to itself,
    and registers the same calls. -/
theorem Derives.again {part : Part} (h : Derives ctx site s part t) :
    site.scope.MathKeysAgree (Scope.standard ctx.tables.length) part.rewritten.parts →
      Derives ctx (withoutHeader ctx site) s part.rewritten t := by
  induction h with
  | literal v => exact fun _ => .literal v
  | identifier he => exact fun _ => identifier_again he
  | column he => exact fun _ => column_again he
  | parameter he => exact fun _ => parameter_again he _
  | owned howner hother hkey he =>
    intro _
    refine owned_again he fun hmath hnode => ?_
    subst hmath
    rw [hnode]
    exact .owned (ownerOf_withoutHeader_math howner) hother hkey he
  | @resolvedKey site s object property computed owner p e v howner hother hplain hp hv he ih =>
    intro hagree
    refine owned_again he fun hmath hnode => ?_
    -- the key stays as it is too, under the names of the header
    subst hmath
    obtain ⟨rfl, -⟩ := ownerOf_eq_math howner
    rw [Part.rewritten, Part.parts, hnode] at hagree
    rw [hnode]
    have hkey := hagree _ (Node.self_mem_parts _) property computed rfl hplain
    exact .resolvedKey (ownerOf_withoutHeader_math howner) hother hplain
      (hp.alike (Alike.scopes ctx site _) hkey) hv he
  | dotted howner ho ih =>
    exact fun hagree => .dotted (ownerOf_again howner ho) (ih hagree.tail.left)
  | member howner hname ho hp iho ihp =>
    intro hagree
    refine .member (ownerOf_again howner ho) (fun hcomputed name heq => ?_)
      (iho hagree.tail.left) (ihp hagree.tail.right)
    exact hname hcomputed name (hp.rewritten.identifier name heq)
  | scalar hcallee hadmits has ih =>
    intro hagree
    refine .scalar (callee_of_callee hcallee _) ?_ (ih hagree.tail.right)
    rw [List.length_map, has.length_expressions]
    exact hadmits
  | aggregate hcallee hallowed hplace hcount ho ih =>
    intro hagree
    rw [← ho.length_nodes] at hcount
    exact .aggregate (callee_of_callee hcallee _) (checkAggregate_of_checkAggregate hallowed rfl _)
      hplace hcount (ih hagree.tail.right)
  | window hcallee hallowed hplace hcount ho ih =>
    intro hagree
    rw [← ho.length_nodes] at hcount
    exact .window (callee_of_callee hcallee _) hallowed hplace hcount (ih hagree.tail.right)
  | unary _ ih => exact fun hagree => .unary (ih hagree.tail)
  | binary _ _ ihl ihr => exact fun hagree => .binary (ihl hagree.tail.left) (ihr hagree.tail.right)
  | logical _ _ ihl ihr =>
    exact fun hagree => .logical (ihl hagree.tail.left) (ihr hagree.tail.right)
  | conditional _ _ _ iht ihc iha =>
    exact fun hagree => .conditional (iht hagree.tail.left.left) (ihc hagree.tail.left.right)
      (iha hagree.tail.right)
  | array _ ih => exact fun hagree => .array (ih hagree.tail)
  | object _ ih => exact fun hagree => .object (ih hagree.tail)
  | noExpressions => exact fun _ => .noExpressions
  | moreExpressions _ _ ih ih' =>
    exact fun hagree => .moreExpressions (ih hagree.left) (ih' hagree.right)
  | noProperties => exact fun _ => .noProperties
  | moreProperties _ _ ih ih' =>
    exact fun hagree => .moreProperties (ih hagree.left) (ih' hagree.right)
  | noOperands => exact fun _ => .noOperands
  | field _ _ ih ih' => exact fun hagree => .field (ih hagree.left) (ih' hagree.right)
  | @constant site s t s' n ns p v o _ hv ho ih ih' =>
    have hfields : o.fields = [] := by
      have hlength := ho.length_operands.1
      rw [Nat.zero_min] at hlength
      exact List.length_eq_zero_iff.1 hlength
    have hnodes : Operands.nodes ⟨o.fields, (v, p.2) :: o.params⟩ = p.2 :: o.nodes := by
      unfold Operands.nodes Operands.key
      rw [hfields]
      rfl
    intro hagree
    rw [Part.rewritten, hnodes] at hagree ⊢
    exact .constant (ih hagree.left) hv (ih' hagree.right)
  | declaration _ ih => exact fun hagree => .declaration (ih hagree.tail)
  | returnsNothing => exact fun _ => .returnsNothing
  | returns _ ih => exact fun hagree => .returns (ih hagree.tail)
  | branchAlone _ _ iht ihc =>
    exact fun hagree => .branchAlone (iht hagree.tail.left.left) (ihc hagree.tail.left.right)
  | branchElse _ _ _ iht ihc iha =>
    exact fun hagree => .branchElse (iht hagree.tail.left.left) (ihc hagree.tail.left.right)
      (iha hagree.tail.right)
  | block _ ih => exact fun hagree => .block (ih hagree.tail)
  | evaluated _ ih => exact fun hagree => .evaluated (ih hagree)
  | branchBlock _ ih => exact fun hagree => .branchBlock (ih hagree.tail)
  | branchStatement hblock hn ih =>
    intro hagree
    refine .branchStatement (fun nodes heq => ?_) (ih hagree)
    obtain ⟨ss, hss⟩ := hn.block_of_statement heq
    exact hblock ss hss
  | noStatements => exact fun _ => .noStatements
  | moreStatements _ _ ih ih' =>
    exact fun hagree => .moreStatements (ih hagree.left) (ih' hagree.right)
  | noDeclarations => exact fun _ => .noDeclarations
  | moreDeclarations _ _ ih ih' =>
    exact fun hagree => .moreDeclarations (ih hagree.left) (ih' hagree.right)
  | bodyBlock _ ih => exact fun hagree => .bodyBlock (ih hagree.tail)
  | bodyExpression _ ih => exact fun hagree => .bodyExpression (ih hagree)

end Resolve

end ColumnQuery
