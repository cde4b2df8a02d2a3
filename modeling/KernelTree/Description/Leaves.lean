import KernelTree.Data.Schema
import KernelTree.Statement.Basic
/-! The written form of expressions, types, declarators and signatures. -/
namespace KernelTree.Schema

/-- Descriptions may hold members of any name; what is read off data must not be longer than it
should. -/
def lenient : Strictness := { refuseUnknown := false, refuseLonger := true }

def byte : Schema Nat := natural 0xFF "u8"

def halfWord : Schema Nat := natural 0xFFFF "u16"

def word : Schema Nat := natural 0xFFFFFFFF "u32"

/-- More levels than a text can nest. -/
def levels : Nat := 128

def span : Schema Span :=
  (fun (file, start, stop) => { file, start, stop }) <$>
    record lenient "struct Span"
      ((defaulted "file_id" 0 halfWord).and ((required "start" word).and (required "end" word)))

/-- The parts of a token that is written with its place. -/
def tokenFields : Fields (Option String × Option Span) (String × Span) :=
  (required "text" text).and (defaulted "span" .none span)

/-- Takes a spelling, alone or with its place, for a token. -/
def toToken : Datum → Except Mismatch Token
  | .text s => .ok (.ofSpelling s)
  | .table ms =>
    match tokenFields.convertMembers lenient ms tokenFields.draft >>= tokenFields.finish with
    | .ok (s, span) => .ok (.ofSpelling s span)
    | .error _ => .error (.noForm "TokenRepr")
  | _ => .error (.noForm "TokenRepr")

def lexeme : Schema Token := whole toToken

def qualifier : Schema Qualifier := names Qualifier.all (·.name)

def typeSpec : Schema TypeSpec :=
  (fun (name, qualifiers, pointers) => { name, qualifiers, pointers := pointers.toUInt8 }) <$>
    record lenient "struct Type"
      ((required "name" text).and
        ((defaulted "qualifiers" [] (list qualifier)).and (defaulted "pointers" 0 byte)))

def binaryOp : Schema BinaryOp := names BinaryOp.all (·.symbol)

/-- The written name of an operator; those behind their operand are written with an `x`. -/
def unaryName (op : UnaryOp) : String := if op.isPostfix then "x" ++ op.symbol else op.symbol

def unaryOp : Schema UnaryOp := names UnaryOp.all unaryName

def exprUpTo : Nat → Schema Expr
  | 0 => whole fun d => .error (.wrongType d.found "enum Expr")
  | n + 1 =>
    let sub := exprUpTo n
    choice [
      .holding "ident" (.ident <$> lexeme),
      .holding "literal" (.literal <$> lexeme),
      .parts "unary" <| (fun (op, operand) => .unary op operand) <$>
        record lenient "struct variant Expr::Unary"
          ((required "op" unaryOp).and (required "operand" sub)),
      .parts "binary" <| (fun (op, lhs, rhs) => .binary op lhs rhs) <$>
        record lenient "struct variant Expr::Binary"
          ((required "op" binaryOp).and ((required "lhs" sub).and (required "rhs" sub))),
      .parts "ternary" <| (fun (condition, consequent, alternative) =>
          .ternary condition consequent alternative) <$>
        record lenient "struct variant Expr::Ternary"
          ((required "cond" sub).and ((required "then" sub).and (required "else" sub))),
      .parts "call" <| (fun (callee, args) => .call callee args) <$>
        record lenient "struct variant Expr::Call"
          ((required "callee" sub).and (defaulted "args" [] (list sub))),
      .parts "index" <| (fun (base, subscript) => .index base subscript) <$>
        record lenient "struct variant Expr::Index"
          ((required "base" sub).and (required "index" sub)),
      .parts "member" <| (fun (base, field, arrow) => .member base field arrow) <$>
        record lenient "struct variant Expr::Member"
          ((required "base" sub).and
            ((required "field" lexeme).and (defaulted "arrow" false bool))),
      .parts "cast" <| (fun (type, operand) => .cast type operand) <$>
        record lenient "struct variant Expr::Cast"
          ((required "type" typeSpec).and (required "expr" sub)),
      .holding "list" (.list <$> list sub)]

def expr : Schema Expr := exprUpTo levels

def varDecl : Schema VarDecl :=
  (fun (name, type, dims, init) => { name, type, dims, init }) <$>
    record lenient "struct VarDecl"
      ((required "name" lexeme).and ((required "type" typeSpec).and
        ((defaulted "dims" [] (list expr)).and (defaulted "init" none (optional expr)))))

def functionKind : Schema FunctionKind := names FunctionKind.all (·.name)

def signature : Schema Signature :=
  (fun (name, kind, returns, params) => { name, kind, returns, params }) <$>
    record lenient "struct FunctionSig"
      ((required "name" lexeme).and ((defaulted "kind" .plain functionKind).and
        ((required "returns" typeSpec).and (defaulted "params" [] (list varDecl)))))

def access : Schema Access := names Access.all (·.word)

end KernelTree.Schema
