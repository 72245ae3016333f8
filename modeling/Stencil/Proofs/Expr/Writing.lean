import Mathlib.Data.List.Chain
import Stencil.Expr.Parser

/-! # Expressions written out -/

namespace Stencil

namespace Lexeme

def keywords : List String :=
  ["and", "or", "not", "in", "is", "if", "else", "True", "False", "None", "true", "false"]

/-- A letter or underscore, then letters, digits and underscores, and no keyword as a whole. -/
def IsName (name : String) : Prop :=
  ∃ c cs, name.toList = c :: cs ∧ startsName c = true ∧ (∀ d ∈ cs, inName d = true) ∧
    name ∉ keywords

def spelling : Lexeme → List (List Char)
  | literal .none => ["None".toList]
  | literal (.bool true) => ["True".toList]
  | literal (.bool false) => ["False".toList]
  | literal (.int i) => [Number.integerText i]
  | literal (.real x) => [Number.realText x]
  | literal (.text s) => [Text.quoted s.toList]
  | oversized digits => [digits.toList]
  | name n => [n.toList]
  | between .notSame => ["is".toList, "not".toList]
  | between op => [op.symbol.toList]
  | plus => ["+".toList]
  | minus => ["-".toList]
  | not => ["not".toList]
  | notWithin _ => ["not".toList, "in".toList]
  | ifWord => ["if".toList]
  | elseWord => ["else".toList]
  | openParen => ["(".toList]
  | closeParen => [")".toList]
  | openSquare => ["[".toList]
  | closeSquare => ["]".toList]
  | openBrace => [['\x7b']]
  | closeBrace => [['\x7d']]
  | comma => [",".toList]
  | colon => [":".toList]
  | dot => [".".toList]
  | stray => [[]]

/-- A lexeme without the place that `not in` carries. -/
def shape : Lexeme → Lexeme
  | notWithin _ => notWithin 0
  | l => l

end Lexeme

def UnaryOp.lexeme : UnaryOp → Lexeme
  | negate => .minus
  | plus => .plus
  | not => .not

def BinaryOp.lexeme : BinaryOp → Lexeme
  | add => .plus
  | sub => .minus
  | notWithin => .notWithin 0
  | op => .between op

def Literal.Plain : Literal → Prop
  | int i => 0 ≤ i.toInt
  | real _ => False
  | _ => True

/-- The expressions that texts without real numbers stand for. -/
inductive Expr.Plain : Expr → Prop where
  | literal {v : Literal} : v.Plain → Plain (.literal v)
  | name {n : String} : Lexeme.IsName n → Plain (.name n)
  | list {items : List Expr} : (∀ e ∈ items, Plain e) → Plain (.list items)
  | dict {entries : List (Expr × Expr)} : (∀ entry ∈ entries, Plain entry.1) →
      (∀ entry ∈ entries, Plain entry.2) → Plain (.dict entries)
  | member {target : Expr} {n : String} : Plain target → Lexeme.IsName n →
      Plain (.member target n)
  | index {target index : Expr} : Plain target → Plain index → Plain (.index target index)
  | slice {target : Expr} {lower upper : Option Expr} : Plain target →
      (∀ e, lower = some e → Plain e) → (∀ e, upper = some e → Plain e) →
      Plain (.slice target lower upper)
  | call {callee : Expr} {args : List Expr} : Plain callee → (∀ e ∈ args, Plain e) →
      Plain (.call callee args)
  | unary {op : UnaryOp} {operand : Expr} : Plain operand → Plain (.unary op operand)
  | binary {op : BinaryOp} {left right : Expr} : Plain left → Plain right →
      Plain (.binary op left right)
  | choice {condition value otherwise : Expr} : Plain condition → Plain value →
      Plain otherwise → Plain (.choice condition value otherwise)

mutual

/-- An expression with parentheses around every operator, every conditional and everything that is
subscripted, called or asked for a member. -/
def Expr.words : Expr → List Lexeme
  | .literal v => [.literal v]
  | .name n => [.name n]
  | .list items => .openSquare :: (itemWords [] items ++ [.closeSquare])
  | .dict entries => .openBrace :: (entryWords [] entries ++ [.closeBrace])
  | .member target n => .openParen :: (target.words ++ [.closeParen, .dot, .name n])
  | .index target index =>
    .openParen :: (target.words ++ .closeParen :: .openSquare :: (index.words ++ [.closeSquare]))
  | .slice target lower upper =>
    .openParen :: (target.words ++ .closeParen :: .openSquare ::
      (boundWords lower ++ .colon :: (boundWords upper ++ [.closeSquare])))
  | .call callee args =>
    .openParen :: (callee.words ++ .closeParen :: .openParen ::
      (itemWords [] args ++ [.closeParen]))
  | .unary op operand => .openParen :: op.lexeme :: (operand.words ++ [.closeParen])
  | .binary op left right =>
    .openParen :: (left.words ++ op.lexeme :: (right.words ++ [.closeParen]))
  | .choice condition value otherwise =>
    .openParen :: (value.words ++ .ifWord :: (condition.words ++ .elseWord ::
      (otherwise.words ++ [.closeParen])))

/-- Items with commas between them, the first after what is given. -/
def itemWords : List Lexeme → List Expr → List Lexeme
  | _, [] => []
  | before, e :: rest => before ++ (e.words ++ itemWords [.comma] rest)

def entryWords : List Lexeme → List (Expr × Expr) → List Lexeme
  | _, [] => []
  | before, (key, value) :: rest =>
    before ++ (key.words ++ .colon :: (value.words ++ entryWords [.comma] rest))

def boundWords : Option Expr → List Lexeme
  | none => []
  | some e => e.words

end

def Gap (cs : List Char) : Prop :=
  ∀ c ∈ cs, Lexeme.isGap c = true

/-- Whether a text may stand right behind another: characters of names do not meet. -/
def Apart (front back : List Char) : Prop :=
  ∀ c ∈ front.getLast?, ∀ d ∈ back.head?, ¬ (Lexeme.inName c = true ∧ Lexeme.inName d = true)

/-- Texts in order with any gaps around them. Two of them touch only where they stay apart. -/
inductive Layout : List (List Char) → List Char → Prop where
  | nil {gap : List Char} : Gap gap → Layout [] gap
  | cons {gap front back : List Char} {texts : List (List Char)} : Gap gap → Apart front back →
      Layout texts back → Layout (front :: texts) (gap ++ (front ++ back))

theorem gap_nil : Gap [] :=
  fun _ hc => (List.not_mem_nil hc).elim

theorem gap_space : Gap [' '] := by
  intro c hc
  cases List.mem_singleton.mp hc
  rfl

def Quiet (cs : List Char) : Prop :=
  ∀ c ∈ cs.head?, Lexeme.inName c = false

theorem Layout.word {texts : List (List Char)} {back : List Char} (w : List Char)
    (h : Layout texts back) (hq : Quiet back) : Layout (w :: texts) (w ++ back) := by
  have hapart : Apart w back := by
    intro c _ d hd hin
    rw [hq d hd] at hin
    cases hin.2
  exact .cons gap_nil hapart h

theorem Layout.sign {texts : List (List Char)} {back : List Char} {c : Char}
    (hc : Lexeme.inName c = false) (h : Layout texts back) : Layout ([c] :: texts) (c :: back) := by
  have hapart : Apart [c] back := by
    intro d hd e _ hin
    cases hd
    have hname : Lexeme.inName c = true := hin.1
    rw [hc] at hname
    cases hname
  exact .cons gap_nil hapart h

theorem Layout.gap {texts : List (List Char)} {cs gap : List Char} (hg : Gap gap)
    (h : Layout texts cs) : Layout texts (gap ++ cs) := by
  have happend : ∀ {gap' : List Char}, Gap gap' → Gap (gap ++ gap') := fun hg' c hc =>
    (List.mem_append.mp hc).elim (hg c) (hg' c)
  cases h with
  | nil hg' => exact .nil (happend hg')
  | cons hg' ha hb =>
    rw [← List.append_assoc]
    exact .cons (happend hg') ha hb

def Expr.Writes (e : Expr) (cs : List Char) : Prop :=
  Layout (e.words.flatMap Lexeme.spelling) cs

def Expr.written (e : Expr) : List Char :=
  (e.words.flatMap Lexeme.spelling).flatMap (' ' :: ·)

theorem quiet_spaced (texts : List (List Char)) : Quiet (texts.flatMap (' ' :: ·)) := by
  intro c hc
  cases texts with
  | nil => cases hc
  | cons text texts =>
    cases hc
    rfl

theorem Layout.spaced (texts : List (List Char)) : Layout texts (texts.flatMap (' ' :: ·)) := by
  induction texts with
  | nil => exact .nil gap_nil
  | cons text texts ih =>
    have hall := Layout.gap gap_space (Layout.word text ih (quiet_spaced texts))
    exact hall

theorem Expr.writes_written (e : Expr) : e.Writes e.written :=
  .spaced _

end Stencil
