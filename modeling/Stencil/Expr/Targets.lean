import Stencil.Error
import Stencil.Expr.Lexeme

/-!
# Loop targets

The names that a loop binds: names between commas, one of which may end the list.
-/

namespace Stencil.Targets

/-- Reads on after a comma, or at the start if `needed`. The place is the end of the text. -/
def ofLexemes (ending : Nat) : Bool → List (Lexeme × Nat) → Except Nat (List String)
  | needed, [] => if needed then .error ending else .ok []
  | _, (.name n, _) :: (.comma, _) :: rest => (ofLexemes ending false rest).map (n :: ·)
  | _, [(.name n, _)] => .ok [n]
  | _, (.name _, _) :: (_, place) :: _ => .error place
  | _, (_, place) :: _ => .error place

def parse (text : String) : Except SyntaxError (List String) :=
  let cs := text.toList
  match ofLexemes cs.length true (Lexeme.scan cs) with
  | .error place => .error (.expression text (column cs place))
  | .ok names => .ok names

end Stencil.Targets
