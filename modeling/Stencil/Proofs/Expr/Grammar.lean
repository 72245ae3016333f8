import Stencil.Proofs.Expr.Reading

/-! # The grammar of expressions -/

namespace Stencil

namespace Expr

/-- What lexemes can make up, with the trees they stand for. -/
inductive Construct where
  /-- A constant, a name or something bracketed, with what is asked of it. -/
  | operand (e : Expr)
  | operation (c : Chain)
  | whole (e : Expr)
  /-- A bound of a slice, which may be missing. -/
  | bound (e : Option Expr)
  /-- Expressions with commas between them; one may stand behind the last. -/
  | items (es : List Expr)
  | entries (es : List (Expr × Expr))

/-- The lexemes of every construct. A conditional takes operations before `else` only. -/
inductive Spells : List Lexeme → Construct → Prop where
  | literal (v : Literal) : Spells [.literal v] (.operand (.literal v))
  | name (n : String) : Spells [.name n] (.operand (.name n))
  | group {ws : List Lexeme} {e : Expr} : Spells ws (.whole e) →
      Spells (.openParen :: (ws ++ [.closeParen])) (.operand e)
  | unit : Spells [.openParen, .closeParen] (.operand (.list []))
  | tuple {ws vs : List Lexeme} {e : Expr} {es : List Expr} : Spells ws (.whole e) →
      Spells vs (.items es) →
      Spells (.openParen :: (ws ++ .comma :: (vs ++ [.closeParen]))) (.operand (.list (e :: es)))
  | list {ws : List Lexeme} {es : List Expr} : Spells ws (.items es) →
      Spells (.openSquare :: (ws ++ [.closeSquare])) (.operand (.list es))
  | dict {ws : List Lexeme} {es : List (Expr × Expr)} : Spells ws (.entries es) →
      Spells (.openBrace :: (ws ++ [.closeBrace])) (.operand (.dict es))
  | member {ws : List Lexeme} {e : Expr} (n : String) : Spells ws (.operand e) →
      Spells (ws ++ [.dot, .name n]) (.operand (.member e n))
  | index {ws vs : List Lexeme} {e i : Expr} : Spells ws (.operand e) → Spells vs (.whole i) →
      Spells (ws ++ .openSquare :: (vs ++ [.closeSquare])) (.operand (.index e i))
  | slice {ws ls us : List Lexeme} {e : Expr} {lower upper : Option Expr} :
      Spells ws (.operand e) → Spells ls (.bound lower) → Spells us (.bound upper) →
      Spells (ws ++ .openSquare :: (ls ++ .colon :: (us ++ [.closeSquare])))
        (.operand (.slice e lower upper))
  | call {ws vs : List Lexeme} {e : Expr} {es : List Expr} : Spells ws (.operand e) →
      Spells vs (.items es) →
      Spells (ws ++ .openParen :: (vs ++ [.closeParen])) (.operand (.call e es))
  | last {ws : List Lexeme} {e : Expr} (signs : List UnaryOp) : Spells ws (.operand e) →
      Spells (signs.map UnaryOp.lexeme ++ ws) (.operation ⟨[], ⟨signs, e⟩⟩)
  | link {ws vs : List Lexeme} {e : Expr} {c : Chain} (signs : List UnaryOp) (op : BinaryOp) :
      Spells ws (.operand e) → Spells vs (.operation c) →
      Spells (signs.map UnaryOp.lexeme ++ (ws ++ op.lexeme :: vs))
        (.operation ⟨(⟨signs, e⟩, op) :: c.links, c.last⟩)
  | operation {ws : List Lexeme} {c : Chain} : Spells ws (.operation c) →
      Spells ws (.whole c.tree)
  | choice {vs cs os : List Lexeme} {v c : Chain} {o : Expr} : Spells vs (.operation v) →
      Spells cs (.operation c) → Spells os (.whole o) →
      Spells (vs ++ .ifWord :: (cs ++ .elseWord :: os)) (.whole (.choice c.tree v.tree o))
  | unbounded : Spells [] (.bound none)
  | bounded {ws : List Lexeme} {e : Expr} : Spells ws (.whole e) → Spells ws (.bound (some e))
  | noItems : Spells [] (.items [])
  | lastItem {ws : List Lexeme} {e : Expr} : Spells ws (.whole e) → Spells ws (.items [e])
  | item {ws vs : List Lexeme} {e : Expr} {es : List Expr} : Spells ws (.whole e) →
      Spells vs (.items es) → Spells (ws ++ .comma :: vs) (.items (e :: es))
  | noEntries : Spells [] (.entries [])
  | lastEntry {ks ws : List Lexeme} {k e : Expr} : Spells ks (.whole k) → Spells ws (.whole e) →
      Spells (ks ++ .colon :: ws) (.entries [(k, e)])
  | entry {ks ws vs : List Lexeme} {k e : Expr} {es : List (Expr × Expr)} :
      Spells ks (.whole k) → Spells ws (.whole e) → Spells vs (.entries es) →
      Spells (ks ++ .colon :: (ws ++ .comma :: vs)) (.entries ((k, e) :: es))

theorem Spells.whole_operand {ws : List Lexeme} {e : Expr} (h : Spells ws (.operand e)) :
    Spells ws (.whole e) :=
  (Spells.last [] h).operation

namespace Reading

def ends : Lexeme → Bool
  | .closeParen | .closeSquare | .closeBrace | .comma | .colon => true
  | _ => false

theorem next?_ends {l : Lexeme} (hl : ends l = true) (holes : List Hole) (p : Pending) (e : Expr) :
    next? ⟨holes, p, .after e⟩ l =
      (settle holes (p.close e)).bind fun (holes, e) => endItem e holes l := by
  cases l <;> cases hl <;>
    simp only [next?, afterOperand, operator?] <;>
    cases settle holes (p.close e) <;> rfl

/-- Whether a whole expression may stand inside the constructs begun. -/
def admits : List Hole → Bool
  | .condition _ :: _ => false
  | _ => true

private theorem next?_if {holes : List Hole} (h : admits holes = true) (p : Pending) (e : Expr) :
    next? ⟨holes, p, .after e⟩ .ifWord = some (descend (.condition (p.close e) :: holes)) := by
  cases holes with
  | nil => rfl
  | cons hole holes => cases hole <;> cases h <;> rfl

/-- A construct that collects items between commas up to a lexeme. -/
structure Series (hole : List Expr → Hole) (close : Lexeme)
    (done : List Hole → List Expr → Reading) : Prop where
  ends : ends close = true
  neutral : ∀ acc holes e, settle (hole acc :: holes) e = some (hole acc :: holes, e)
  admits : ∀ acc holes, admits (hole acc :: holes) = true
  more : ∀ acc holes e,
    endItem e (hole acc :: holes) .comma = some (descend (hole (e :: acc) :: holes))
  last : ∀ acc holes e,
    endItem e (hole acc :: holes) close = some (done holes (e :: acc).reverse)
  nothing : ∀ acc holes, next? (descend (hole acc :: holes)) close = some (done holes acc.reverse)

end Reading

open Reading

/-- Behind a whole expression the branches of conditionals may still be open; the lexeme that ends
it closes them. -/
def ReadWhole (ws : List Lexeme) (e : Expr) : Prop :=
  ∀ holes, admits holes = true → ∃ inner p x,
    (descend holes).Reads ws ⟨inner ++ holes, p, .after x⟩ ∧
      settle (inner ++ holes) (p.close x) = settle holes e

def Construct.Read (ws : List Lexeme) : Construct → Prop
  | operand e => ∀ holes p, (⟨holes, p, .operand⟩ : Reading).Reads ws ⟨holes, p, .after e⟩
  | operation c => ∀ holes links, (⟨holes, ⟨links, []⟩, .operand⟩ : Reading).Reads ws
      ⟨holes, ⟨c.links.reverse ++ links, c.last.signs.reverse⟩, .after c.last.value⟩
  | whole e => ReadWhole ws e
  | bound none => ws = []
  | bound (some e) => ReadWhole ws e
  | items es => ∀ hole close done, Series hole close done → ∀ acc holes,
      (descend (hole acc :: holes)).Reads (ws ++ [close]) (done holes (acc.reverse ++ es))
  | entries es => ∀ outer acc holes, (descend (.key outer acc :: holes)).Reads
      (ws ++ [.closeBrace]) (ascend holes outer (.dict (acc.reverse ++ es)))

namespace Reading

private theorem series_tuple (outer : Pending) :
    Series (.tuple outer) .closeParen fun holes es => ascend holes outer (.list es) :=
  ⟨rfl, fun _ _ _ => rfl, fun _ _ => rfl, fun _ _ _ => rfl, fun _ _ _ => rfl, fun _ _ => rfl⟩

private theorem series_list (outer : Pending) :
    Series (.list outer) .closeSquare fun holes es => ascend holes outer (.list es) :=
  ⟨rfl, fun _ _ _ => rfl, fun _ _ => rfl, fun _ _ _ => rfl, fun _ _ _ => rfl, fun _ _ => rfl⟩

private theorem series_args (outer : Pending) (callee : Expr) :
    Series (.args outer callee) .closeParen fun holes es => ascend holes outer (.call callee es) :=
  ⟨rfl, fun _ _ _ => rfl, fun _ _ => rfl, fun _ _ _ => rfl, fun _ _ _ => rfl, fun _ _ => rfl⟩

private theorem reads_ended {ws : List Lexeme} {e : Expr} (h : ReadWhole ws e)
    (holes : List Hole) {l : Lexeme} (hl : ends l = true) (ha : admits holes = true)
    (hs : settle holes e = some (holes, e)) {r : Reading} (hr : endItem e holes l = some r) :
    (descend holes).Reads (ws ++ [l]) r := by
  obtain ⟨inner, p, x, hread, hsettle⟩ := h holes ha
  refine hread.append (.single ?_)
  rw [next?_ends hl, hsettle, hs]
  exact hr

/-- Signs are kept with the operand they stand before, the latest first. -/
private theorem reads_signs (signs : List UnaryOp) (holes : List Hole) (p : Pending) :
    (⟨holes, p, .operand⟩ : Reading).Reads (signs.map UnaryOp.lexeme)
      ⟨holes, ⟨p.links, signs.reverse ++ p.signs⟩, .operand⟩ := by
  induction signs generalizing p with
  | nil => exact .nil _
  | cons op signs ih =>
    have hrest := ih ⟨p.links, op :: p.signs⟩
    rw [List.map_cons, List.reverse_cons, List.append_assoc]
    exact .cons (next?_sign op holes p) hrest

end Reading

private theorem close_chain (c : Chain) :
    Pending.close ⟨c.links.reverse ++ [], c.last.signs.reverse⟩ c.last.value = c.tree := by
  simp only [Pending.close, Pending.operand, List.append_nil, List.reverse_reverse]

namespace Construct

variable {ws vs us : List Lexeme} {e k : Expr} {es : List Expr}

private theorem read_tuple (he : (whole e).Read ws) (hs : (items es).Read vs) :
    (operand (.list (e :: es))).Read (.openParen :: (ws ++ .comma :: (vs ++ [.closeParen]))) := by
  intro holes p
  have hfirst := reads_ended he (.group p :: holes) (l := .comma) rfl rfl rfl rfl
  have hmore := hs _ _ _ (series_tuple p) [e] holes
  have hall := hfirst.append hmore
  simp only [List.append_assoc, List.singleton_append] at hall
  exact .cons rfl hall

private theorem read_index {i : Expr} (he : (operand e).Read ws) (hi : (whole i).Read vs) :
    (operand (.index e i)).Read (ws ++ .openSquare :: (vs ++ [.closeSquare])) := by
  intro holes p
  have hi := reads_ended hi (.subscript p e :: holes) (l := .closeSquare) rfl rfl rfl rfl
  exact (he holes p).append (.cons rfl hi)

private theorem reads_lower {lower : Option Expr} (h : (bound lower).Read ws) (p : Pending)
    (e : Expr) (holes : List Hole) :
    (descend (.subscript p e :: holes)).Reads (ws ++ [.colon])
      (descend (.upper p e lower :: holes)) := by
  cases lower with
  | none =>
    have hws : ws = [] := h
    rw [hws]
    exact .single rfl
  | some l => exact reads_ended h (.subscript p e :: holes) rfl rfl rfl rfl

private theorem reads_upper {upper : Option Expr} (h : (bound upper).Read ws) (p : Pending)
    (e : Expr) (lower : Option Expr) (holes : List Hole) :
    (descend (.upper p e lower :: holes)).Reads (ws ++ [.closeSquare])
      (ascend holes p (.slice e lower upper)) := by
  cases upper with
  | none =>
    have hws : ws = [] := h
    rw [hws]
    exact .single rfl
  | some u => exact reads_ended h (.upper p e lower :: holes) rfl rfl rfl rfl

private theorem read_slice {lower upper : Option Expr} (he : (operand e).Read ws)
    (hl : (bound lower).Read vs) (hu : (bound upper).Read us) :
    (operand (.slice e lower upper)).Read
      (ws ++ .openSquare :: (vs ++ .colon :: (us ++ [.closeSquare]))) := by
  intro holes p
  have hall := (reads_lower hl p e holes).append (reads_upper hu p e lower holes)
  simp only [List.append_assoc, List.singleton_append] at hall
  exact (he holes p).append (.cons rfl hall)

private theorem read_last (signs : List UnaryOp) (he : (operand e).Read ws) :
    (operation ⟨[], ⟨signs, e⟩⟩).Read (signs.map UnaryOp.lexeme ++ ws) := by
  intro holes links
  have hsigns := reads_signs signs holes ⟨links, []⟩
  rw [List.append_nil] at hsigns
  exact hsigns.append (he holes _)

private theorem read_link {c : Chain} (signs : List UnaryOp) (op : BinaryOp)
    (he : (operand e).Read ws) (hc : (operation c).Read vs) :
    (operation ⟨(⟨signs, e⟩, op) :: c.links, c.last⟩).Read
      (signs.map UnaryOp.lexeme ++ (ws ++ op.lexeme :: vs)) := by
  intro holes links
  have hsigns := reads_signs signs holes ⟨links, []⟩
  rw [List.append_nil] at hsigns
  have hrest := hc holes ((⟨signs, e⟩, op) :: links)
  refine hsigns.append ((he holes _).append (.cons (next?_operator op _ _ _) ?_))
  simpa [Pending.operand] using hrest

private theorem read_operation {c : Chain} (hc : (operation c).Read ws) :
    (whole c.tree).Read ws := by
  intro holes _
  refine ⟨[], _, _, hc holes [], ?_⟩
  rw [close_chain, List.nil_append]

private theorem read_choice {v c : Chain} {o : Expr} (hv : (operation v).Read vs)
    (hc : (operation c).Read us) (ho : (whole o).Read ws) :
    (whole (.choice c.tree v.tree o)).Read (vs ++ .ifWord :: (us ++ .elseWord :: ws)) := by
  intro holes ha
  have hvalue : (descend holes).Reads (vs ++ [.ifWord])
      (descend (.condition v.tree :: holes)) := by
    refine (hv holes []).append (.single ?_)
    rw [next?_if ha, close_chain]
  have hcondition : (descend (.condition v.tree :: holes)).Reads (us ++ [.elseWord])
      (descend (.otherwise v.tree c.tree :: holes)) := by
    rw [← close_chain c]
    exact (hc _ []).append (.single rfl)
  obtain ⟨inner, p, x, hother, hs⟩ := ho (.otherwise v.tree c.tree :: holes) rfl
  refine ⟨inner ++ [.otherwise v.tree c.tree], p, x, ?_, ?_⟩
  · have hall := hvalue.append (hcondition.append hother)
    simpa only [List.append_assoc, List.singleton_append] using hall
  · rw [List.append_assoc, List.singleton_append, hs]
    rfl

private theorem read_lastItem (he : (whole e).Read ws) : (items [e]).Read ws := by
  intro hole close done hs acc holes
  have hlast := reads_ended he _ hs.ends (hs.admits acc holes) (hs.neutral acc holes e)
    (hs.last acc holes e)
  rwa [List.reverse_cons] at hlast

private theorem read_item (he : (whole e).Read ws) (hes : (items es).Read vs) :
    (items (e :: es)).Read (ws ++ .comma :: vs) := by
  intro hole close done hs acc holes
  have hfirst := reads_ended he _ (l := .comma) rfl (hs.admits acc holes)
    (hs.neutral acc holes e) (hs.more acc holes e)
  have hall := hfirst.append (hes hole close done hs (e :: acc) holes)
  simpa using hall

private theorem read_lastEntry (hk : (whole k).Read ws) (he : (whole e).Read vs) :
    (entries [(k, e)]).Read (ws ++ .colon :: vs) := by
  intro outer acc holes
  have hkey := reads_ended hk (.key outer acc :: holes) (l := .colon) rfl rfl rfl rfl
  have hvalue := reads_ended he (.value outer acc k :: holes) (l := .closeBrace) rfl rfl rfl rfl
  have hall := hkey.append hvalue
  simpa using hall

private theorem read_entry {rest : List (Expr × Expr)} (hk : (whole k).Read ws)
    (he : (whole e).Read vs) (hrest : (entries rest).Read us) :
    (entries ((k, e) :: rest)).Read (ws ++ .colon :: (vs ++ .comma :: us)) := by
  intro outer acc holes
  have hkey := reads_ended hk (.key outer acc :: holes) (l := .colon) rfl rfl rfl rfl
  have hvalue := reads_ended he (.value outer acc k :: holes) (l := .comma) rfl rfl rfl rfl
  have hall := hkey.append (hvalue.append (hrest outer ((k, e) :: acc) holes))
  simpa using hall

end Construct

open Construct in
private theorem Spells.read {ws : List Lexeme} {s : Construct} (h : Spells ws s) : s.Read ws := by
  induction h with
  | literal v => exact fun holes p => Reads.single rfl
  | name n => exact fun holes p => Reads.single rfl
  | group _ ih =>
    exact fun holes p => .cons rfl (reads_ended ih (.group p :: holes) rfl rfl rfl rfl)
  | unit => exact fun holes p => .cons rfl (.single rfl)
  | tuple _ _ ihe ihs => exact read_tuple ihe ihs
  | list _ ih => exact fun holes p => .cons rfl (ih _ _ _ (series_list p) [] holes)
  | dict _ ih => exact fun holes p => .cons rfl (ih p [] holes)
  | member n _ ih => exact fun holes p => (ih holes p).append (.cons rfl (.single rfl))
  | index _ _ ihe ihi => exact read_index ihe ihi
  | slice _ _ _ ihe ihl ihu => exact read_slice ihe ihl ihu
  | @call ws vs e es _ _ ihe ihs =>
    exact fun holes p => (ihe holes p).append (.cons rfl (ihs _ _ _ (series_args p e) [] holes))
  | last signs _ ih => exact read_last signs ih
  | link signs op _ _ ihe ihc => exact read_link signs op ihe ihc
  | operation _ ih => exact read_operation ih
  | choice _ _ _ ihv ihc iho => exact read_choice ihv ihc iho
  | unbounded => rfl
  | bounded _ ih => exact ih
  | noItems =>
    intro hole close done hs acc holes
    rw [List.append_nil]
    exact .single (hs.nothing acc holes)
  | lastItem _ ih => exact read_lastItem ih
  | item _ _ ihe ihs => exact read_item ihe ihs
  | noEntries =>
    intro outer acc holes
    rw [List.append_nil]
    exact .single rfl
  | lastEntry _ _ ihk ihe => exact read_lastEntry ihk ihe
  | entry _ _ _ ihk ihe ihs => exact read_entry ihk ihe ihs

private theorem Spells.in_range {ws : List Lexeme} {s : Construct} (h : Spells ws s) :
    ∀ l ∈ ws, ∀ digits, l ≠ .oversized digits := by
  have hsign : ∀ (op : UnaryOp) digits, op.lexeme ≠ .oversized digits := by
    intro op
    cases op <;> simp [UnaryOp.lexeme]
  have hop : ∀ (op : BinaryOp) digits, op.lexeme ≠ .oversized digits := by
    intro op
    cases op <;> simp [BinaryOp.lexeme]
  induction h <;> simp_all [or_imp]

/-- Every text that the grammar derives is read as the tree it is derived with. -/
theorem Spells.parse {ws : List Lexeme} {e : Expr} (h : Spells ws (.whole e)) {text : String}
    (hs : (Lexeme.scan text.toList).map (fun l => l.1.shape) = ws) : parse text = .ok e := by
  obtain ⟨inner, p, x, hreads, hsettle⟩ := h.read [] rfl
  have hfinish : (⟨inner ++ [], p, .after x⟩ : Reading).finish? = some e := by
    simp only [finish?, hsettle]
    rfl
  have hstart : Reading.start.Reads ((Lexeme.scan text.toList).map fun l => l.1.shape)
      ⟨inner ++ [], p, .after x⟩ := by rw [hs]; exact hreads
  have hread : ofLexemes (Lexeme.scan text.toList) text.toList.length = .ok e := by
    rw [ofLexemes, foldlM_step hstart]
    simp only [bind, Except.bind, hfinish]
  have hrange : oversized? (Lexeme.scan text.toList) = none := by
    refine oversized?_eq_none fun l hl digits => ?_
    refine h.in_range _ ?_ digits
    rw [← hs]
    exact List.mem_map_of_mem hl
  simp only [Expr.parse, hread, hrange]

end Expr

end Stencil
