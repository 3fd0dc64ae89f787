/-
Token lists that end with the end of the input, as a parser needs them. An end of the input may
also stand before the last one, where nothing reads past it.
-/
import ScriptSyntax.Token.Basic

namespace ScriptSyntax

structure TokenList where
  /-- The tokens before the last one. -/
  front : List Token
  last : Token
  last_eof : last.kind = .eof

namespace TokenList

/-- A list of tokens that does not end with the end of the input. -/
inductive MissingEnd where
  | missingEnd
deriving DecidableEq, Repr

def MissingEnd.message : MissingEnd → String
  | .missingEnd => "token list must end with an EOF token"

def cons (t : Token) (ts : TokenList) : TokenList := { ts with front := t :: ts.front }

def toList (ts : TokenList) : List Token := ts.front ++ [ts.last]

def ofList (ts : List Token) : Except MissingEnd TokenList :=
  match ts.getLast? with
  | none => .error .missingEnd
  | some last =>
    if h : last.kind = .eof then .ok ⟨ts.dropLast, last, h⟩ else .error .missingEnd

@[simp] theorem toList_cons (t : Token) (ts : TokenList) : (ts.cons t).toList = t :: ts.toList := rfl

end TokenList

end ScriptSyntax
