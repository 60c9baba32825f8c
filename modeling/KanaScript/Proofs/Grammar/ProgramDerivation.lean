import KanaScript.Grammar.Program
import KanaScript.Proofs.Grammar.Derivation

/-! The grammar of statements and programs as a set of rules: which trees a list of tokens stands
for.  The tokens of a tree are those of its parts with the words between them, so that each token
is used once and in order.  Only the size of an array is derived and left out of the tree. -/

namespace KanaScript.Grammar

def IsName (t : Token) : Prop := t.kind = .identifier ∨ t.kind = .otherKeyword

/-- At most one terminator. -/
inductive Terminator : List Token → Prop
  | none : Terminator []
  | one {t : Token} (kind : t.kind = .semicolon) : Terminator [t]

/-- The brackets after the name of an array, with what they add to its type. -/
inductive DerivesSize : List Token → String → Prop
  | none : DerivesSize [] ""
  | empty {t u : Token} (opening : t.kind = .openBracket) (closing : u.kind = .closeBracket) :
      DerivesSize [t, u] arraySuffix
  | sized {ts : List Token} {t u : Token} {size : Expr} (opening : t.kind = .openBracket)
      (inner : Derives .assignment ts size) (closing : u.kind = .closeBracket) :
      DerivesSize (t :: (ts ++ [u])) arraySuffix

inductive DerivesInit : List Token → Option Expr → Prop
  | none : DerivesInit [] none
  | some {ts : List Token} {t : Token} {e : Expr} (sign : t.isWord .operator "=" = true)
      (value : Derives .assignment ts e) : DerivesInit (t :: ts) (some e)

/-- A type, a name, perhaps brackets and perhaps an initial value. -/
inductive DerivesVariable : List Token → Variable → Prop
  | intro {a b : List Token} {t u : Token} {suffix : String} {init : Option Expr}
      (type : t.kind = .typeKeyword) (name : IsName u) (size : DerivesSize a suffix)
      (value : DerivesInit b init) :
      DerivesVariable (t :: u :: (a ++ b)) ⟨t.text ++ suffix, u.text, init, t.position⟩

inductive DerivesOptional : List Token → Option Expr → Prop
  | none : DerivesOptional [] none
  | some {ts : List Token} {e : Expr} (whole : Derives .assignment ts e) :
      DerivesOptional ts (some e)

inductive DerivesForInit : List Token → Option ForInit → Prop
  | none : DerivesForInit [] none
  | declare {ts : List Token} {v : Variable} (whole : DerivesVariable ts v) :
      DerivesForInit ts (some (.declare v))
  | expression {ts : List Token} {e : Expr} (whole : Derives .assignment ts e) :
      DerivesForInit ts (some (.expression e))

/-- Three clauses in parentheses with commas between them, or a condition alone. -/
inductive DerivesForHead : List Token → ForHead → Prop
  | clauses {a b c : List Token} {t u v w : Token} {init : Option ForInit}
      {condition update : Option Expr} (opening : t.kind = .openParen)
      (first : DerivesForInit a init)
      (comma : u.kind = .comma) (second : DerivesOptional b condition) (comma' : v.kind = .comma)
      (third : DerivesOptional c update) (closing : w.kind = .closeParen) :
      DerivesForHead (t :: (a ++ u :: (b ++ v :: (c ++ [w])))) ⟨init, condition, update⟩
  | condition {ts : List Token} {e : Expr} (whole : Derives .assignment ts e) :
      DerivesForHead ts ⟨none, some e, none⟩

mutual

/-- A statement without the terminator after it. -/
inductive DerivesStatement : List Token → Stmt → Prop
  | block {ts : List Token} {b : Block} (whole : DerivesBlock ts b) :
      DerivesStatement ts (.block b.statements b.position)
  | ifOnly {a b : List Token} {t : Token} {condition : Expr} {consequent : Stmt}
      (word : t.isWord .controlKeyword "if" = true) (test : Derives .assignment a condition)
      (body : DerivesBody b consequent) :
      DerivesStatement (t :: (a ++ b)) (.ifElse condition consequent none t.position)
  /-- What follows `else` is an `if` or a body; an `if` is a body without terminator. -/
  | ifElse {a b c : List Token} {t u : Token} {condition : Expr} {consequent alternative : Stmt}
      (word : t.isWord .controlKeyword "if" = true) (test : Derives .assignment a condition)
      (body : DerivesBody b consequent) (word' : u.isWord .controlKeyword "else" = true)
      (other : DerivesBody c alternative) :
      DerivesStatement (t :: (a ++ (b ++ u :: c)))
        (.ifElse condition consequent (some alternative) t.position)
  | whileLoop {a b : List Token} {t : Token} {condition : Expr} {s : Stmt}
      (word : t.isWord .controlKeyword "while" = true) (test : Derives .assignment a condition)
      (body : DerivesBody b s) :
      DerivesStatement (t :: (a ++ b)) (.whileLoop condition s t.position)
  | forLoop {a b : List Token} {t : Token} {head : ForHead} {s : Stmt}
      (word : t.isWord .controlKeyword "for" = true) (clauses : DerivesForHead a head)
      (body : DerivesBody b s) :
      DerivesStatement (t :: (a ++ b))
        (.forLoop head.init head.condition head.update s t.position)
  | switch {a b : List Token} {t u v : Token} {subject : Expr} {cases : List Clause}
      {fallback : Option (List Stmt)} (word : t.isWord .controlKeyword "switch" = true)
      (value : Derives .assignment a subject) (opening : u.kind = .openBrace)
      (clauses : DerivesClauses b cases fallback) (closing : v.kind = .closeBrace) :
      DerivesStatement (t :: (a ++ u :: (b ++ [v]))) (.switch subject cases fallback t.position)
  | returns {ts : List Token} {t : Token} {e : Option Expr}
      (word : t.isWord .controlKeyword "return" = true) (value : DerivesOptional ts e) :
      DerivesStatement (t :: ts) (.returns e t.position)
  | breaks {t : Token} (word : t.isWord .controlKeyword "break" = true) :
      DerivesStatement [t] (.breaks t.position)
  | continues {t : Token} (word : t.isWord .controlKeyword "continue" = true) :
      DerivesStatement [t] (.continues t.position)
  | declare {ts : List Token} {v : Variable} (whole : DerivesVariable ts v) :
      DerivesStatement ts (.declare v)
  | expression {ts : List Token} {e : Expr} (whole : Derives .assignment ts e) :
      DerivesStatement ts (.expression e (here ts))

/-- A statement and perhaps a terminator. -/
inductive DerivesBody : List Token → Stmt → Prop
  | intro {a b : List Token} {s : Stmt} (whole : DerivesStatement a s) (ending : Terminator b) :
      DerivesBody (a ++ b) s

inductive DerivesStatements : List Token → List Stmt → Prop
  | none : DerivesStatements [] []
  | more {a b : List Token} {s : Stmt} {ss : List Stmt} (first : DerivesBody a s)
      (others : DerivesStatements b ss) : DerivesStatements (a ++ b) (s :: ss)

inductive DerivesBlock : List Token → Block → Prop
  | intro {ts : List Token} {t u : Token} {ss : List Stmt} (opening : t.kind = .openBrace)
      (inner : DerivesStatements ts ss) (closing : u.kind = .closeBrace) :
      DerivesBlock (t :: (ts ++ [u])) ⟨ss, t.position⟩

/-- Cases in any order with at most one default. -/
inductive DerivesClauses : List Token → List Clause → Option (List Stmt) → Prop
  | none : DerivesClauses [] [] none
  | case {a b c : List Token} {t u : Token} {value : Expr} {body : List Stmt}
      {cases : List Clause} {fallback : Option (List Stmt)}
      (word : t.isWord .controlKeyword "case" = true) (label : Derives .assignment a value)
      (colon : u.kind = .colon) (inner : DerivesStatements b body)
      (others : DerivesClauses c cases fallback) :
      DerivesClauses (t :: (a ++ u :: (b ++ c))) (.case value body t.position :: cases) fallback
  | default {b c : List Token} {t u : Token} {body : List Stmt} {cases : List Clause}
      (word : t.isWord .controlKeyword "default" = true) (colon : u.kind = .colon)
      (inner : DerivesStatements b body) (others : DerivesClauses c cases none) :
      DerivesClauses (t :: u :: (b ++ c)) cases (some body)

end

inductive DerivesParameter : List Token → Parameter → Prop
  | intro {t u : Token} (type : t.kind = .typeKeyword) (name : IsName u) :
      DerivesParameter [t, u] ⟨t.text, u.text, t.position⟩

inductive DerivesParameters : List Token → List Parameter → Prop
  | last {ts : List Token} {p : Parameter} (only : DerivesParameter ts p) : DerivesParameters ts [p]
  | more {a b : List Token} {t : Token} {p : Parameter} {ps : List Parameter}
      (first : DerivesParameter a p) (comma : t.kind = .comma) (others : DerivesParameters b ps) :
      DerivesParameters (a ++ t :: b) (p :: ps)

/-- Parameters in parentheses, nothing or `void` for none. -/
inductive DerivesGroup : List Token → List Parameter → Prop
  | empty {t u : Token} (opening : t.kind = .openParen) (closing : u.kind = .closeParen) :
      DerivesGroup [t, u] []
  | void {t u v : Token} (opening : t.kind = .openParen)
      (word : u.isWord .typeKeyword "void" = true) (closing : v.kind = .closeParen) :
      DerivesGroup [t, u, v] []
  | list {ts : List Token} {t u : Token} {ps : List Parameter} (opening : t.kind = .openParen)
      (inner : DerivesParameters ts ps) (closing : u.kind = .closeParen) :
      DerivesGroup (t :: (ts ++ [u])) ps

/-- Parameters without parentheses; a type alone may stand at their end and is none. -/
inductive DerivesBare : List Token → List Parameter → Prop
  | type {t : Token} (type : t.kind = .typeKeyword) : DerivesBare [t] []
  | last {ts : List Token} {p : Parameter} (only : DerivesParameter ts p) : DerivesBare ts [p]
  | more {a b : List Token} {t : Token} {p : Parameter} {ps : List Parameter}
      (first : DerivesParameter a p) (comma : t.kind = .comma) (others : DerivesBare b ps) :
      DerivesBare (a ++ t :: b) (p :: ps)

/-- The parameters of a marked function. -/
inductive DerivesMarked : List Token → List Parameter → Prop
  | group {ts : List Token} {ps : List Parameter} (whole : DerivesGroup ts ps) : DerivesMarked ts ps
  | void {t : Token} (word : t.isWord .typeKeyword "void" = true) : DerivesMarked [t] []
  | bare {ts : List Token} {ps : List Parameter} (whole : DerivesBare ts ps) : DerivesMarked ts ps
  | none : DerivesMarked [] []

/-- A declaration without the terminator after it. -/
inductive DerivesDeclaration : List Token → Declaration → Prop
  | marked {a b : List Token} {m t u : Token} {parameters : List Parameter} {body : Block}
      (marker : m.isWord .otherKeyword Vocabulary.functionMarker = true)
      (type : t.kind = .typeKeyword) (name : IsName u) (list : DerivesMarked a parameters)
      (inner : DerivesBlock b body) :
      DerivesDeclaration (m :: t :: u :: (a ++ b))
        (.function ⟨t.text, u.text, parameters, body, t.position⟩)
  | typed {a b : List Token} {t u : Token} {parameters : List Parameter} {body : Block}
      (type : t.kind = .typeKeyword) (name : IsName u) (list : DerivesGroup a parameters)
      (inner : DerivesBlock b body) :
      DerivesDeclaration (t :: u :: (a ++ b))
        (.function ⟨t.text, u.text, parameters, body, t.position⟩)
  | global {ts : List Token} {v : Variable} (whole : DerivesVariable ts v) :
      DerivesDeclaration ts (.global v)
  | statement {ts : List Token} {s : Stmt} (whole : DerivesStatement ts s) :
      DerivesDeclaration ts (.statement s)

/-- Declarations, with at most one terminator after each. -/
inductive DerivesProgram : List Token → Program → Prop
  | none : DerivesProgram [] []
  | more {a b c : List Token} {d : Declaration} {program : Program}
      (first : DerivesDeclaration a d) (ending : Terminator b)
      (others : DerivesProgram c program) : DerivesProgram (a ++ (b ++ c)) (d :: program)

end KanaScript.Grammar
