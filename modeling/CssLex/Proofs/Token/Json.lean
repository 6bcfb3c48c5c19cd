import Mathlib
import CssLex.Proofs.Decimal.Notation
import CssLex.Proofs.Grammar.Form
import CssLex.Proofs.Text.Quoted
import CssLex.Token.Json

/-! Tokens in JSON. An object tells its fields, and the fields of a token tell the token: its number
is left to its literal. -/

namespace CssLex

theorem Scalar.unbroken {text : List Char} (h : Scalar text) : Unbroken text := by
  refine unbroken_of_forall fun c hc => ?_
  have hscalar := h c hc
  constructor <;> rintro rfl <;> cases hscalar

/-! ## Values -/

namespace Json

/-- A field of an object. -/
def field (f : String × String) : List Char := jsonQuoted f.1.toList ++ ':' :: f.2.toList

/-- The fields behind the first one, up to the end of the object. -/
def more : List (String × String) → List Char
  | [] => ['\x7d']
  | f :: fields => ',' :: (field f ++ more fields)

/-- The fields of an object, up to its end. -/
def inside : List (String × String) → List Char
  | [] => ['\x7d']
  | f :: fields => field f ++ more fields

/-- The values of tokens and of their fields. -/
inductive Value : String → Prop
  | scalar {text : String} (h : Scalar text.toList) : Value text
  | string (text : String) : Value (string text)
  | object {fields : List (String × String)} (h : ∀ f ∈ fields, Value f.2) : Value (object fields)

/-- A value ends here: its object ends or another field follows. -/
def Ends (rest : List Char) : Prop := rest.head? = some ',' ∨ rest.head? = some '\x7d'

/-- A value tells where it ends. -/
def Parts (value : String) : Prop :=
  ∀ value' rest rest', Value value' → Ends rest → Ends rest' →
    value.toList ++ rest = value'.toList ++ rest' → value = value' ∧ rest = rest'

section

variable {fields fields' : List (String × String)} {rest rest' : List Char}

theorem toList_string (text : String) : (string text).toList = jsonQuoted text.toList :=
  String.toList_ofList

theorem toList_object (fields : List (String × String)) :
    (object fields).toList = '\x7b' :: inside fields := by
  let write (f : String × String) : String := string f.1 ++ ":" ++ f.2
  have hwrite (f : String × String) : (write f).toList = field f := by
    simp [write, field, toList_string]
  have hfields (f : String × String) (fields : List (String × String)) :
      (String.intercalate "," (write f :: fields.map write)).toList ++ ['\x7d'] =
        field f ++ more fields := by
    induction fields generalizing f with
    | nil => rw [List.map_nil, String.intercalate_singleton, hwrite, more]
    | cons f' fields ih =>
        rw [List.map_cons, String.intercalate_cons_cons, String.toList_append,
          String.toList_append, List.append_assoc, ih f', hwrite, more, List.append_assoc]
        rfl
  change ("\x7b" ++ String.intercalate "," (fields.map write) ++ "\x7d").toList = _
  rw [String.toList_append, String.toList_append, List.append_assoc]
  refine congrArg ('\x7b' :: ·) ?_
  cases fields with
  | nil => rfl
  | cons f fields => exact hfields f fields

theorem more_ends (fields : List (String × String)) (rest : List Char) :
    Ends (more fields ++ rest) := by
  cases fields with
  | nil => exact .inr rfl
  | cons f fields => exact .inl rfl

theorem string_inj {text text' : String} (h : string text = string text') : text = text' := by
  have hquoted : jsonQuoted text.toList ++ [] = jsonQuoted text'.toList ++ [] := by
    rw [← toList_string, ← toList_string, h]
  exact String.toList_injective (jsonQuoted_append_inj hquoted).1

theorem field_inj {f f' : String × String} (h : Parts f.2) (h' : Value f'.2) (hrest : Ends rest)
    (hrest' : Ends rest') (heq : field f ++ rest = field f' ++ rest') : f = f' ∧ rest = rest' := by
  simp only [field, List.append_assoc, List.cons_append] at heq
  obtain ⟨hkey, hvalue⟩ := jsonQuoted_append_inj heq
  obtain ⟨hsame, rfl⟩ := h _ _ _ h' hrest hrest' (List.cons.inj hvalue).2
  exact ⟨Prod.ext (String.toList_injective hkey) hsame, rfl⟩

theorem more_inj (h : ∀ f ∈ fields, Parts f.2) (h' : ∀ f ∈ fields', Value f.2)
    (heq : more fields ++ rest = more fields' ++ rest') : fields = fields' ∧ rest = rest' := by
  induction fields generalizing fields' with
  | nil =>
      cases fields' with
      | nil => exact ⟨rfl, (List.cons.inj heq).2⟩
      | cons f' fields' => exact absurd (List.cons.inj heq).1 (by decide)
  | cons f fields ih =>
      cases fields' with
      | nil => exact absurd (List.cons.inj heq).1 (by decide)
      | cons f' fields' =>
          obtain ⟨hf, hfields⟩ := List.forall_mem_cons.mp h
          obtain ⟨hf', hfields'⟩ := List.forall_mem_cons.mp h'
          simp only [more, List.cons_append, List.append_assoc, List.cons.injEq, true_and] at heq
          obtain ⟨rfl, hmore⟩ := field_inj hf hf' (more_ends ..) (more_ends ..) heq
          obtain ⟨rfl, rfl⟩ := ih hfields hfields' hmore
          exact ⟨rfl, rfl⟩

theorem inside_inj (h : ∀ f ∈ fields, Parts f.2) (h' : ∀ f ∈ fields', Value f.2)
    (heq : inside fields ++ rest = inside fields' ++ rest') : fields = fields' ∧ rest = rest' := by
  cases fields with
  | nil =>
      cases fields' with
      | nil => exact ⟨rfl, (List.cons.inj heq).2⟩
      | cons f' fields' => exact absurd (List.cons.inj heq).1 (by decide)
  | cons f fields =>
      cases fields' with
      | nil => exact absurd (List.cons.inj heq).1 (by decide)
      | cons f' fields' =>
          -- a comma in front makes both of them fields that follow another one
          refine more_inj h h' ?_
          simpa only [more, inside, List.cons_append, List.cons.injEq, true_and] using heq

theorem scalar_inj {text text' : List Char} (h : Scalar text) (h' : Scalar text')
    (hrest : Ends rest) (hrest' : Ends rest') (heq : text ++ rest = text' ++ rest') :
    text = text' ∧ rest = rest' := by
  have hnone {rest : List Char} (hrest : Ends rest) : rest.takeWhile isScalarChar = [] := by
    rcases hrest with hhead | hhead <;>
    · obtain ⟨more, rfl⟩ := List.head?_eq_some_iff.mp hhead
      rfl
  have htext := congrArg (List.takeWhile isScalarChar) heq
  rw [List.takeWhile_append_of_pos h, List.takeWhile_append_of_pos h', hnone hrest, hnone hrest',
    List.append_nil, List.append_nil] at htext
  subst htext
  exact ⟨rfl, List.append_cancel_left heq⟩

/-- Behind a scalar there is an end, so it is no string and no object. -/
theorem scalar_head {text : List Char} {c : Char} (h : Scalar text) (hrest : Ends rest)
    (hc : c = '"' ∨ c = '\x7b') : (text ++ rest).head? ≠ some c := by
  cases text with
  | nil => rcases hc with rfl | rfl <;> rcases hrest with hhead | hhead <;> simp [hhead]
  | cons d text =>
      have hd := h d List.mem_cons_self
      rcases hc with rfl | rfl <;> rintro ⟨⟩ <;> cases hd

/-- A value tells where it ends. -/
theorem Value.parts {value : String} (h : Value value) : Parts value := by
  induction h with
  | scalar h =>
      intro value' rest rest' h' hrest hrest' heq
      cases h' with
      | scalar h' =>
          obtain ⟨htext, hmore⟩ := scalar_inj h h' hrest hrest' heq
          exact ⟨String.toList_injective htext, hmore⟩
      | string text =>
          refine absurd ?_ (scalar_head h hrest (.inl rfl))
          rw [heq, toList_string]
          rfl
      | object h' =>
          refine absurd ?_ (scalar_head h hrest (.inr rfl))
          rw [heq, toList_object]
          rfl
  | string text =>
      intro value' rest rest' h' hrest hrest' heq
      rw [toList_string] at heq
      cases h' with
      | scalar h' =>
          refine absurd ?_ (scalar_head h' hrest' (.inl rfl))
          rw [← heq]
          rfl
      | string text' =>
          rw [toList_string] at heq
          obtain ⟨htext, hmore⟩ := jsonQuoted_append_inj heq
          exact ⟨congrArg Json.string (String.toList_injective htext), hmore⟩
      | object h' =>
          rw [toList_object] at heq
          exact absurd (List.cons.inj heq).1 (by decide)
  | object h ih =>
      intro value' rest rest' h' hrest hrest' heq
      rw [toList_object] at heq
      cases h' with
      | scalar h' =>
          refine absurd ?_ (scalar_head h' hrest' (.inr rfl))
          rw [← heq]
          rfl
      | string text' =>
          rw [toList_string] at heq
          exact absurd (List.cons.inj heq).1 (by decide)
      | object h' =>
          rw [toList_object] at heq
          obtain ⟨rfl, hmore⟩ := inside_inj ih h' (List.cons.inj heq).2
          exact ⟨rfl, hmore⟩

theorem object_inj (h : ∀ f ∈ fields, Value f.2) (h' : ∀ f ∈ fields', Value f.2)
    (heq : object fields = object fields') : fields = fields' := by
  have hinside : inside fields ++ [] = inside fields' ++ [] := by
    have htext := congrArg String.toList heq
    rw [toList_object, toList_object] at htext
    rw [(List.cons.inj htext).2]
  exact (inside_inj (fun f hf => (h f hf).parts) h' hinside).1

theorem unbroken_more (h : ∀ f ∈ fields, Unbroken f.2.toList) : Unbroken (more fields) := by
  induction fields with
  | nil => simp [more]
  | cons f fields ih =>
      obtain ⟨hf, hfields⟩ := List.forall_mem_cons.mp h
      simp [more, field, unbroken_jsonQuoted, hf, ih hfields]

/-- Values stand on one line. -/
theorem Value.unbroken {value : String} (h : Value value) : Unbroken value.toList := by
  induction h with
  | scalar h => exact h.unbroken
  | string text =>
      rw [toList_string]
      exact unbroken_jsonQuoted _
  | @object fields _ ih =>
      rw [toList_object]
      cases fields with
      | nil => simp [inside]
      | cons f fields => simpa [more, inside] using unbroken_more ih

end

end Json

/-! ## Tokens -/

/-- The fields of a token. -/
def Token.jsonFields (token : Token) : List (String × String) :=
  [("kind", token.kind.renderJson)] ++
  (token.text.toList.map fun text => ("text", Json.string text)) ++
  (token.number.toList.map fun number => ("number", number.renderJson)) ++
  (token.literal.toList.map fun literal => ("literal", Json.string literal)) ++
  [("span", token.span.renderJson), ("line", toString token.line)]

theorem Token.renderJson_eq (token : Token) : token.renderJson = Json.object token.jsonFields := rfl

open Json

theorem TokenKind.renderJson_value (kind : TokenKind) : Value kind.renderJson := by
  cases kind with
  | delim c => exact .object (by simpa using .string _)
  | _ => exact .string _

theorem value_repr (n : Nat) : Value n.repr := .scalar (scalar_nat n)

theorem Span.renderJson_value (span : Span) : Value span.renderJson :=
  .object (by simp [value_repr])

theorem Token.jsonFields_value (token : Token) : ∀ f ∈ token.jsonFields, Value f.2 := by
  have hnumber (number : Number) : Value number.renderJson := .scalar number.scalar_renderJson
  simp [jsonFields, or_imp, forall_and, TokenKind.renderJson_value, Span.renderJson_value,
    value_repr, hnumber, Value.string]

theorem Token.lookup_jsonFields (token : Token) :
    token.jsonFields.lookup "kind" = some token.kind.renderJson ∧
      token.jsonFields.lookup "text" = token.text.map Json.string ∧
      token.jsonFields.lookup "literal" = token.literal.map Json.string ∧
      token.jsonFields.lookup "span" = some token.span.renderJson ∧
      token.jsonFields.lookup "line" = some (toString token.line) := by
  obtain ⟨⟨kind, text, number, literal⟩, span, line⟩ := token
  unfold jsonFields
  cases text <;> cases number <;> cases literal <;> simp [List.lookup_cons]

/-! ## Kinds and spans -/

/-- The kinds that have a name of their own. -/
def TokenKind.plain : List TokenKind :=
  [.ident, .function, .atKeyword, .hash, .string, .badString, .url, .badUrl, .number, .percentage,
    .dimension, .whitespace, .comment, .badComment, .cdo, .cdc, .includeMatch, .dashMatch,
    .prefixMatch, .suffixMatch, .substringMatch, .column, .eof]

theorem TokenKind.name_inj {kind kind' : TokenKind} (h : kind ∈ plain) (h' : kind' ∈ plain)
    (heq : kind.name = kind'.name) : kind = kind' :=
  List.inj_on_of_nodup_map (by decide) h h' heq

theorem TokenKind.delim_or_plain (kind : TokenKind) :
    (∃ c, kind = .delim c) ∨
      kind ∈ plain ∧ kind.renderJson = Json.string kind.name := by
  cases kind <;> simp [plain, renderJson]

theorem string_ne_object (text : String) (fields : List (String × String)) :
    Json.string text ≠ Json.object fields := by
  intro h
  have htext := congrArg String.toList h
  rw [toList_string, toList_object] at htext
  exact absurd (List.cons.inj htext).1 (by decide)

theorem TokenKind.renderJson_inj {kind kind' : TokenKind}
    (h : kind.renderJson = kind'.renderJson) : kind = kind' := by
  rcases kind.delim_or_plain with ⟨c, rfl⟩ | ⟨hplain, hname⟩ <;>
    rcases kind'.delim_or_plain with ⟨c', rfl⟩ | ⟨hplain', hname'⟩
  · have hfields := object_inj (by simpa using .string _) (by simpa using .string _) h
    have hc := string_inj (Prod.mk.inj (List.cons.inj hfields).1).2
    simpa using hc
  · rw [hname'] at h
    exact absurd h.symm (string_ne_object _ _)
  · rw [hname] at h
    exact absurd h (string_ne_object _ _)
  · rw [hname, hname'] at h
    exact name_inj hplain hplain' (string_inj h)

theorem Span.renderJson_inj {span span' : Span} (h : span.renderJson = span'.renderJson) :
    span = span' := by
  have hfields := object_inj (by simp [value_repr]) (by simp [value_repr]) h
  obtain ⟨⟩ := span
  obtain ⟨⟩ := span'
  simpa [Nat.repr_inj] using hfields

/-! ## What a token tells -/

/-- The number of a lexeme is the value of its literal. -/
def Lexeme.Valued (l : Lexeme) : Prop :=
  l.number = l.literal.bind fun literal => Number.ofLiteral? literal.toList

namespace Grammar

open Production

theorem valued_quantity (n : Numeral) (text : List Char) :
    (quantity n text).1.Valued := by
  have hnumber : Number.ofLiteral? n.text = Number.ofLiteral? (String.ofList n.text).toList := by
    rw [String.toList_ofList]
  unfold quantity
  split
  · exact hnumber
  · split <;> exact hnumber

/-- Every lexeme of a text has the number that its literal has. -/
theorem valued_lexeme (text : List Char) : (lexeme text).1.Valued := by
  have hbody (kind bad : TokenKind) (body : Body) : (ofBody kind bad body).Valued := by
    unfold ofBody
    split <;> rfl
  cases text with
  | nil => rfl
  | cons c text =>
      have hform := lexemeFrom_form c text
      change (lexemeFrom c text).1.Valued
      generalize lexemeFrom c text = found at hform
      cases hform with
      | string => exact hbody _ _ _
      | comment => exact hbody _ _ _
      | quantity => exact valued_quantity _ _
      | @name name rest =>
          unfold identLike
          split
          · split
            · exact hbody _ _ _
            · rfl
          · rfl
      | _ => rfl

end Grammar

/-- Tokens in JSON tell everything about a token, its number by its literal. -/
theorem Token.renderJson_inj {token token' : Token} (h : token.Valued) (h' : token'.Valued)
    (heq : token.renderJson = token'.renderJson) : token = token' := by
  rw [renderJson_eq, renderJson_eq] at heq
  have hfields := object_inj token.jsonFields_value token'.jsonFields_value heq
  obtain ⟨hkind, htext, hliteral, hspan, hline⟩ := token.lookup_jsonFields
  obtain ⟨hkind', htext', hliteral', hspan', hline'⟩ := token'.lookup_jsonFields
  rw [hfields] at hkind htext hliteral hspan hline
  have hstring : Function.Injective Json.string := fun _ _ => string_inj
  have hkinds := TokenKind.renderJson_inj (Option.some.inj (hkind.symm.trans hkind'))
  have htexts := Option.map_injective hstring (htext.symm.trans htext')
  have hliterals := Option.map_injective hstring (hliteral.symm.trans hliteral')
  have hspans := Span.renderJson_inj (Option.some.inj (hspan.symm.trans hspan'))
  have hlines := Nat.repr_injective (Option.some.inj (hline.symm.trans hline'))
  have hnumbers : token.number = token'.number := by
    rw [h, h', hliterals]
  obtain ⟨⟨⟩, _, _⟩ := token
  obtain ⟨⟨⟩, _, _⟩ := token'
  simp_all

end CssLex
