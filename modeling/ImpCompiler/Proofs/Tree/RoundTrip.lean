import ImpCompiler.Tree.Json

/-! # Trees survive their JSON form

Decoding the JSON form of a program gives the program back, whatever its nodes and tokens are
(`programOfJson?_programToJson`).  This is a statement about the values that the encoder writes, which
are in the format that is described beside it.  Of the values that are not among them, and which other
readers of that format may take or refuse, it says nothing.

A decoder of a nested part is given a proof that the part is smaller.  It does what its plain counterpart
does, so that the proof is not looked at again.  An absent part is null, and no node is: this keeps the
two apart at every depth (`Json.getOptional?_optional`). -/

namespace ImpCompiler

namespace Json

variable {α : Type}

/-! ## Decoders of nested parts -/

@[simp] theorem atField_eq_get? (j : Json) (key : String) (decode : Json → Option α) :
    (j.atField key fun value _ => decode value) = j.get? key decode := by
  rw [atField, get?]
  split
  · rename_i value found
    rw [found, Option.bind_some]
  · rename_i absent
    rw [absent, Option.bind_none]

@[simp] theorem atOptional_eq_getOptional? (j : Json) (key : String) (decode : Json → Option α) :
    (j.atOptional key fun value _ => decode value) = j.getOptional? key decode := by
  rw [atOptional, getOptional?]
  split <;> simp_all

@[simp] theorem atItems_eq_list? (j : Json) (decode : Json → Option α) :
    (j.atItems fun value _ => decode value) = j.list? decode := by
  rw [atItems, list?]
  split
  · rename_i items found
    rw [found, Option.bind_some]
    simp
  · rename_i absent
    rw [absent, Option.bind_none]

/-! ## Fields -/

@[simp] theorem field?_head (key : String) (value : Json) (fields : List (String × Json)) :
    (obj ((key, value) :: fields)).field? key = some value := by
  rw [field?, List.lookup_cons_self]

@[simp] theorem field?_tail {key name : String} (other : key ≠ name) (value : Json)
    (fields : List (String × Json)) :
    (obj ((name, value) :: fields)).field? key = (obj fields).field? key := by
  rw [field?, List.lookup_cons, beq_false_of_ne other, field?]

@[simp] theorem get?_of_field? {j value : Json} {key : String} (found : j.field? key = some value)
    (decode : Json → Option α) : j.get? key decode = decode value := by
  rw [get?, found, Option.bind_some]

@[simp] theorem list?_arr (items : List Json) (decode : Json → Option α) :
    (arr items).list? decode = items.mapM decode :=
  rfl

variable {encode : α → Json} {decode : Json → Option α}

/-- An absent part is told from every part that is not encoded as null. -/
theorem getOptional?_optional {j : Json} {key : String} {a : Option α}
    (found : j.field? key = some (optional encode a)) (present : ∀ x, encode x ≠ .null)
    (back : ∀ x ∈ a, decode (encode x) = some x) : j.getOptional? key decode = some a := by
  rw [getOptional?, found]
  cases a with
  | none => rfl
  | some x =>
    rw [optional]
    split
    · rename_i none
      cases none
    · rename_i null
      exact absurd (Option.some.inj null) (present x)
    · rename_i same
      rw [← Option.some.inj same, back x rfl, Option.map_some]

/-- A list survives if its items do. -/
theorem mapM_map_eq_some (back : ∀ a, decode (encode a) = some a) (as : List α) :
    (as.map encode).mapM decode = some as := by
  induction as with
  | nil => rfl
  | cons a as ih =>
    rw [List.map_cons, List.mapM_cons, back, ih]
    rfl

end Json

/-! ## Tokens -/

theorem Kind.ofName?_name (kind : Kind) : Kind.ofName? kind.name = some kind := by
  cases kind <;> rfl

theorem Position.ofJson?_toJson (p : Position) : Position.ofJson? p.toJson = some p := by
  simp [ofJson?, toJson, Json.nat, Json.nat?]

@[simp] theorem Token.ofJson?_toJson (t : Token) : Token.ofJson? t.toJson = some t := by
  simp [ofJson?, toJson, Json.str?, Kind.ofName?_name, Position.ofJson?_toJson]

/-! ## Expressions -/

theorem Expr.toJson_ne_null (e : Expr) : e.toJson ≠ .null := by
  cases e <;> simp [toJson, Json.tagged]

mutual

/-- Every kind of expression is decoded by its own tag, and its parts by their own names. -/
theorem Expr.ofJson?_toJson : (e : Expr) → Expr.ofJson? e.toJson = some e
  | .binary left op right => by
    rw [toJson, Json.tagged, ofJson?]
    simp [ofJson?_toJson left, ofJson?_toJson right]
  | .unary op operand => by
    rw [toJson, Json.tagged, ofJson?]
    simp [ofJson?_toJson operand]
  | .literal value => by
    rw [toJson, Json.tagged, ofJson?]
    simp
  | .name var => by
    rw [toJson, Json.tagged, ofJson?]
    simp
  | .assign target value => by
    rw [toJson, Json.tagged, ofJson?]
    simp [ofJson?_toJson value]
  | .call callee arguments => by
    rw [toJson, Json.tagged, ofJson?]
    simp [mapM_listToJson arguments]
  | .group inner => by
    rw [toJson, Json.tagged, ofJson?]
    simp [ofJson?_toJson inner]

theorem Expr.mapM_listToJson : (es : List Expr) → (Expr.listToJson es).mapM Expr.ofJson? = some es
  | [] => rfl
  | e :: es => by
    rw [listToJson, List.mapM_cons, ofJson?_toJson e, mapM_listToJson es]
    rfl

end

/-- A part that is an expression, or that is absent. -/
theorem Expr.getOptional?_optional (e : Option Expr) {j : Json} {key : String}
    (found : j.field? key = some (.optional Expr.toJson e)) :
    j.getOptional? key Expr.ofJson? = some e :=
  Json.getOptional?_optional found toJson_ne_null fun x _ => ofJson?_toJson x

/-! ## Statements -/

theorem Stmt.toJson_ne_null (st : Stmt) : st.toJson ≠ .null := by
  cases st <;> simp [toJson, Json.tagged]

theorem Stmt.optionToJson_eq_optional (st : Option Stmt) :
    Stmt.optionToJson st = .optional Stmt.toJson st := by
  cases st <;> simp [optionToJson, Json.optional]

/-- A part that is a statement, or that is absent. -/
theorem Stmt.getOptional?_optionToJson {st : Option Stmt}
    (back : ∀ x ∈ st, Stmt.ofJson? x.toJson = some x) {j : Json} {key : String}
    (found : j.field? key = some (Stmt.optionToJson st)) : j.getOptional? key Stmt.ofJson? = some st := by
  rw [optionToJson_eq_optional] at found
  exact Json.getOptional?_optional found toJson_ne_null back

mutual

/-- The same for statements, whose parts may also be absent. -/
theorem Stmt.ofJson?_toJson : (st : Stmt) → Stmt.ofJson? st.toJson = some st
  | .expression value => by
    rw [toJson, Json.tagged, ofJson?]
    simp [value.ofJson?_toJson]
  | .print value => by
    rw [toJson, Json.tagged, ofJson?]
    simp [value.ofJson?_toJson]
  | .declare var initial => by
    rw [toJson, Json.tagged, ofJson?]
    simp [Expr.getOptional?_optional initial]
  | .block body => by
    rw [toJson, Json.tagged, ofJson?]
    simp [mapM_listToJson body]
  | .ifElse condition yes no => by
    rw [toJson, Json.tagged, ofJson?]
    simp [condition.ofJson?_toJson, ofJson?_toJson yes, getOptional?_optionToJson (optionOfJson?_toJson no)]
  | .whileLoop condition body => by
    rw [toJson, Json.tagged, ofJson?]
    simp [condition.ofJson?_toJson, ofJson?_toJson body]
  | .forLoop initial condition step body => by
    rw [toJson, Json.tagged, ofJson?]
    simp [getOptional?_optionToJson (optionOfJson?_toJson initial), Expr.getOptional?_optional condition,
      Expr.getOptional?_optional step, ofJson?_toJson body]
  | .function name params body => by
    rw [toJson, Json.tagged, ofJson?]
    simp [Json.mapM_map_eq_some Token.ofJson?_toJson params, mapM_listToJson body]
  | .ret keyword value => by
    rw [toJson, Json.tagged, ofJson?]
    simp [Expr.getOptional?_optional value]
  | .brk keyword => by
    rw [toJson, Json.tagged, ofJson?]
    simp

theorem Stmt.mapM_listToJson : (ss : List Stmt) → (Stmt.listToJson ss).mapM Stmt.ofJson? = some ss
  | [] => rfl
  | st :: ss => by
    rw [listToJson, List.mapM_cons, ofJson?_toJson st, mapM_listToJson ss]
    rfl

theorem Stmt.optionOfJson?_toJson : (st : Option Stmt) → ∀ x ∈ st, Stmt.ofJson? x.toJson = some x
  | none, x, member => by cases member
  | some st, x, member => by
    cases member
    exact ofJson?_toJson st

end

/-- Nothing of a program is lost in its JSON form. -/
theorem programOfJson?_programToJson (program : List Stmt) :
    programOfJson? (programToJson program) = some program := by
  rw [programToJson, programOfJson?, Json.list?_arr]
  exact Stmt.mapM_listToJson program

end ImpCompiler
