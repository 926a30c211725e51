import SchemaFilter.Proofs.Schema.TokenRules

/-!
# Parts of definitions

How the parts that the grammar reads belong to the definitions that are written down. The spans are
left open, all else is fixed; so a part determines its definition.

Main definitions and results:

* `AttributeDef.ReadAs`, `FieldDef.ReadAs`, `ModelDef.ReadAs`: a part belongs to a definition;
* `ModelDef.leftUnique_readAs`: to one only.
-/

namespace SchemaFilter.SchemaText

open Grammar

/-- The part is a token with the given text. -/
structure IsToken (s : Symbol) (text : List Char) (n : Part) : Prop where
  symbol : n.symbol = s
  text : n.text = text

def ArgumentDef.ReadAs (a : ArgumentDef) (n : Part) : Prop := IsToken a.symbol a.token.text n

inductive AttributeDef.ReadAs (s : Symbol) : AttributeDef → Part → Prop
  | bare {name : Name} {span : Span} {text : List Char} {i : Part}
      (hname : IsToken .identifier name.val i) : ReadAs s ⟨name, none⟩ ⟨s, span, text, [i]⟩
  | applied {name : Name} {as : List ArgumentDef} {span span' : Span} {text text' : List Char}
      {i : Part} {ns : List Part} (hname : IsToken .identifier name.val i)
      (hargs : List.Forall₂ ArgumentDef.ReadAs as ns) :
      ReadAs s ⟨name, some as⟩ ⟨s, span, text, [i, ⟨.arguments, span', text', ns⟩]⟩

/-- The parts that documentation lines give: one for all of them, if there are any. -/
inductive DocsReadAs : List LineText → List Part → Prop
  | none : DocsReadAs [] []
  | some {l : LineText} {ls : List LineText} {span : Span} {text : List Char} {ns : List Part}
      (hlines : List.Forall₂ (fun l n => IsToken .docLine (Token.docLine l).text n) (l :: ls) ns) :
      DocsReadAs (l :: ls) [⟨.documentation, span, text, ns⟩]

inductive TypeReadAs (name : Name) (isList isOptional : Bool) : Part → Prop
  | mk {span : Span} {text : List Char} {t : Part} {marks : List Part}
      (hname : IsToken .typeName name.val t)
      (hmarks : marks.map (·.symbol) =
        (if isList then [.listMarker] else []) ++ if isOptional then [.optionalMarker] else []) :
      TypeReadAs name isList isOptional ⟨.fieldType, span, text, t :: marks⟩

inductive FieldDef.ReadAs (f : FieldDef) : Part → Prop
  | mk {span : Span} {text : List Char} {docs : List Part} {i t : Part} {as : List Part}
      (hdocs : DocsReadAs f.docs docs) (hname : IsToken .identifier f.name.val i)
      (htype : TypeReadAs f.type f.isList f.isOptional t)
      (hattributes : List.Forall₂ (AttributeDef.ReadAs .fieldAttribute) f.attributes as) :
      ReadAs f ⟨.field, span, text, docs ++ i :: t :: as⟩

def ItemDef.ReadAs : ItemDef → Part → Prop
  | field f => f.ReadAs
  | modelAttribute a => a.ReadAs .modelAttribute

inductive ModelDef.ReadAs (m : ModelDef) : Part → Prop
  | mk {span : Span} {text : List Char} {docs : List Part} {k i : Part} {is : List Part}
      (hdocs : DocsReadAs m.docs docs) (hkeyword : k.symbol = .modelKeyword)
      (hname : IsToken .identifier m.name.val i) (hitems : List.Forall₂ ItemDef.ReadAs m.items is) :
      ReadAs m ⟨.model, span, text, docs ++ k :: i :: is⟩

/-! ## Parts determine definitions -/

variable {n : Part}

theorem IsToken.unique {s t : Symbol} {v w : List Char} (h : IsToken s v n) (h' : IsToken t w n) :
    s = t ∧ v = w :=
  ⟨h.symbol.symm.trans h'.symbol, h.text.symm.trans h'.text⟩

theorem IsToken.name_unique {s t : Symbol} {m n : Name} {p : Part} (h : IsToken s m.val p)
    (h' : IsToken t n.val p) : m = n := Subtype.ext (h.unique h').2

theorem Digits.ne_minus_cons (digits : Digits) (cs : List Char) : digits.val ≠ '-' :: cs := by
  obtain ⟨ds, hne, hall⟩ := digits
  rintro rfl
  exact absurd (hall '-' List.mem_cons_self) (by decide)

theorem ArgumentDef.leftUnique_readAs : Relator.LeftUnique ArgumentDef.ReadAs := by
  intro a b n h h'
  have htext : a.token.text = b.token.text := (IsToken.unique h h').2
  have hstart : a.token.start = b.token.start :=
    Token.start_eq_of_append_eq (congrArg (· ++ []) htext)
  cases a <;> cases b
  case string.string q q' => simpa [token, Token.text, Subtype.ext_iff] using htext
  case word.word w w' => simpa [token, Token.text, Subtype.ext_iff] using htext
  case number.number isNegative digits isNegative' digits' =>
    cases isNegative <;> cases isNegative'
    · simpa [token, Token.text, Subtype.ext_iff] using htext
    · exact absurd htext (digits.ne_minus_cons _)
    · exact absurd htext.symm (digits'.ne_minus_cons _)
    · simpa [token, Token.text, Subtype.ext_iff] using htext
  all_goals simp [token, Token.start] at hstart

theorem AttributeDef.leftUnique_readAs (s : Symbol) :
    Relator.LeftUnique (AttributeDef.ReadAs s) := by
  intro a b n h h'
  cases h with
  | bare hname =>
    cases h' with
    | bare hname' => rw [hname.name_unique hname']
  | applied hname hargs =>
    cases h' with
    | applied hname' hargs' =>
      rw [hname.name_unique hname',
        List.left_unique_forall₂' ArgumentDef.leftUnique_readAs hargs hargs']

theorem leftUnique_docsReadAs : Relator.LeftUnique DocsReadAs := by
  intro ls ls' ns h h'
  cases h with
  | none => cases h'; rfl
  | some hlines =>
    cases h' with
    | some hlines' =>
      refine List.left_unique_forall₂' (fun l l' n h h' => Subtype.ext ?_) hlines hlines'
      simpa [Token.text] using (h.unique h').2

theorem TypeReadAs.unique {name name' : Name} {isList isList' isOptional isOptional' : Bool}
    (h : TypeReadAs name isList isOptional n) (h' : TypeReadAs name' isList' isOptional' n) :
    name = name' ∧ isList = isList' ∧ isOptional = isOptional' := by
  cases h with
  | mk hname hmarks =>
    cases h' with
    | mk hname' hmarks' =>
      refine ⟨hname.name_unique hname', ?_⟩
      have heq := hmarks.symm.trans hmarks'
      revert heq
      cases isList <;> cases isList' <;> cases isOptional <;> cases isOptional' <;> decide

theorem AttributeDef.ReadAs.symbol {s : Symbol} {a : AttributeDef} (h : a.ReadAs s n) :
    n.symbol = s := by
  cases h <;> rfl

theorem FieldDef.ReadAs.symbol {f : FieldDef} (h : f.ReadAs n) : n.symbol = .field := by
  cases h
  rfl

theorem DocsReadAs.symbol {ls : List LineText} {docs : List Part} (h : DocsReadAs ls docs) :
    ∀ n ∈ docs, n.symbol = .documentation := by
  cases h <;> simp

/-- The parts of documentation end where another part begins. -/
theorem DocsReadAs.append_inj {ls ls' : List LineText} {docs docs' ps ps' : List Part} {p p' : Part}
    (h : DocsReadAs ls docs) (h' : DocsReadAs ls' docs') (hp : p.symbol ≠ .documentation)
    (hp' : p'.symbol ≠ .documentation) (heq : docs ++ p :: ps = docs' ++ p' :: ps') :
    ls = ls' ∧ p = p' ∧ ps = ps' := by
  have hdocs : docs = docs' := by
    have htake := congrArg (List.takeWhile fun n => n.symbol = .documentation) heq
    rw [List.takeWhile_append_of_pos (by simpa using h.symbol),
      List.takeWhile_append_of_pos (by simpa using h'.symbol)] at htake
    simpa [hp, hp'] using htake
  subst hdocs
  exact ⟨leftUnique_docsReadAs h h', List.cons.inj (List.append_cancel_left heq)⟩

theorem FieldDef.leftUnique_readAs : Relator.LeftUnique FieldDef.ReadAs := by
  rintro ⟨⟩ ⟨⟩ n h h'
  generalize hn : n = m at h'
  cases h with
  | mk hdocs hname htype hattributes =>
    cases h' with
    | mk hdocs' hname' htype' hattributes' =>
      obtain ⟨hd, rfl, heq⟩ := hdocs.append_inj hdocs' (by simp [hname.symbol])
        (by simp [hname'.symbol]) (congrArg Node.children hn)
      obtain ⟨rfl, rfl⟩ := List.cons.inj heq
      obtain ⟨ht, hl, ho⟩ := htype.unique htype'
      rw [FieldDef.mk.injEq]
      exact ⟨hd, hname.name_unique hname', ht, hl, ho,
        List.left_unique_forall₂' (AttributeDef.leftUnique_readAs _) hattributes hattributes'⟩

theorem ItemDef.leftUnique_readAs : Relator.LeftUnique ItemDef.ReadAs := by
  intro i j n h h'
  cases i with
  | field f =>
    cases j with
    | field g => rw [FieldDef.leftUnique_readAs h h']
    | modelAttribute a => exact absurd (h.symbol.symm.trans h'.symbol) (by decide)
  | modelAttribute a =>
    cases j with
    | field f => exact absurd (h'.symbol.symm.trans h.symbol) (by decide)
    | modelAttribute b => rw [AttributeDef.leftUnique_readAs _ h h']

theorem ModelDef.leftUnique_readAs : Relator.LeftUnique ModelDef.ReadAs := by
  rintro ⟨⟩ ⟨⟩ n h h'
  generalize hn : n = m at h'
  cases h with
  | mk hdocs hkeyword hname hitems =>
    cases h' with
    | mk hdocs' hkeyword' hname' hitems' =>
      obtain ⟨hd, -, heq⟩ := hdocs.append_inj hdocs' (by simp [hkeyword]) (by simp [hkeyword'])
        (congrArg Node.children hn)
      obtain ⟨rfl, rfl⟩ := List.cons.inj heq
      rw [ModelDef.mk.injEq]
      exact ⟨hd, hname.name_unique hname',
        List.left_unique_forall₂' ItemDef.leftUnique_readAs hitems hitems'⟩

end SchemaFilter.SchemaText
