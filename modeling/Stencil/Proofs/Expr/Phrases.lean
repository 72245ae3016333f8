import Stencil.Proofs.Expr.Grammar
import Stencil.Proofs.Expr.Lexing

/-! # The words of an expression -/

namespace Stencil

namespace Lexeme

def closes : Lexeme → Bool
  | literal _ => true
  | name _ => true
  | closeParen => true
  | closeSquare => true
  | closeBrace => true
  | _ => false

def parts : Lexeme → Bool
  | literal _ => false
  | dot => false
  | _ => true

theorem mayPrecede_of_closes {l m : Lexeme} (hl : l.closes = true) (hm : m.parts = true) :
    l.MayPrecede m := by
  cases l with
  | literal v => cases m <;> trivial
  | between op => cases hl
  | not => cases hl
  | _ => trivial

private theorem mayPrecede_of_opens {m l : Lexeme} (hm : m.parts = true) (hl : l.opens = true) :
    m.MayPrecede l := by
  cases m with
  | literal v => cases hm
  | between op => exact hl
  | not => exact hl
  | _ => trivial

/-- Lexemes that can stand for an operand. -/
structure Phrase (ls : List Lexeme) : Prop where
  chain : ls.IsChain MayPrecede
  first : ∃ l, ls.head? = some l ∧ l.opens = true
  last : ∃ l, ls.getLast? = some l ∧ l.closes = true

private theorem Phrase.single {l : Lexeme} (ho : l.opens = true) (hc : l.closes = true) :
    Phrase [l] :=
  ⟨.singleton l, ⟨l, rfl, ho⟩, ⟨l, rfl, hc⟩⟩

private theorem Phrase.between {l r : Lexeme} {ls rest : List Lexeme} (h : Phrase ls)
    (hl : l.parts = true) (hr : r.parts = true) (hc : (r :: rest).IsChain MayPrecede) :
    (l :: (ls ++ r :: rest)).IsChain MayPrecede := by
  obtain ⟨hchain, ⟨first, hfirst, hopens⟩, ⟨last, hlast, hcloses⟩⟩ := h
  have hhead : (ls ++ r :: rest).head? = some first := by
    rw [List.head?_append, hfirst]
    rfl
  refine List.isChain_cons.mpr ⟨?_, List.isChain_append.mpr ⟨hchain, hc, ?_⟩⟩
  · intro y hy
    rw [hhead] at hy
    cases hy
    exact mayPrecede_of_opens hl hopens
  · intro x hx y hy
    rw [hlast] at hx
    cases hx
    cases hy
    exact mayPrecede_of_closes hcloses hr

private theorem Phrase.of_chain {l r : Lexeme} {ls : List Lexeme} (ho : l.opens = true)
    (hc : r.closes = true) (hl : ls.getLast? = some r) (h : (l :: ls).IsChain MayPrecede) :
    Phrase (l :: ls) := by
  refine ⟨h, ⟨l, rfl, ho⟩, ⟨r, ?_, hc⟩⟩
  rw [List.getLast?_cons, hl]
  rfl

section Series

variable {r : Lexeme} {tail : List Lexeme} (hr : r.parts = true)
  (hc : (r :: tail).IsChain MayPrecede)
include hr hc

private theorem chain_items {l : Lexeme} {items : List Expr} (hl : l.parts = true)
    (hlr : l.MayPrecede r) (h : ∀ e ∈ items, Phrase e.words) :
    (l :: (itemWords [] items ++ r :: tail)).IsChain MayPrecede := by
  have hmore : ∀ (items : List Expr) (l : Lexeme) (e : Expr), l.parts = true → Phrase e.words →
      (∀ e ∈ items, Phrase e.words) →
      (l :: (e.words ++ (itemWords [.comma] items ++ r :: tail))).IsChain MayPrecede := by
    intro items
    induction items with
    | nil =>
      intro l e hl he _
      exact he.between hl hr hc
    | cons next items ih =>
      intro l e hl he h
      obtain ⟨hnext, h⟩ := List.forall_mem_cons.mp h
      have hn := ih comma next rfl hnext h
      simp only [itemWords, List.cons_append, List.append_assoc]
      exact he.between hl rfl hn
  cases items with
  | nil => exact List.isChain_cons_cons.mpr ⟨hlr, hc⟩
  | cons e items =>
    obtain ⟨he, h⟩ := List.forall_mem_cons.mp h
    simp only [itemWords, List.nil_append, List.append_assoc]
    exact hmore items l e hl he h

private theorem chain_entries {l : Lexeme} {entries : List (Expr × Expr)} (hl : l.parts = true)
    (hlr : l.MayPrecede r) (hk : ∀ entry ∈ entries, Phrase entry.1.words)
    (hv : ∀ entry ∈ entries, Phrase entry.2.words) :
    (l :: (entryWords [] entries ++ r :: tail)).IsChain MayPrecede := by
  have hmore : ∀ (entries : List (Expr × Expr)) (l : Lexeme) (e : Expr), l.parts = true →
      Phrase e.words → (∀ entry ∈ entries, Phrase entry.1.words) →
      (∀ entry ∈ entries, Phrase entry.2.words) →
      (l :: (e.words ++ (entryWords [.comma] entries ++ r :: tail))).IsChain MayPrecede := by
    intro entries
    induction entries with
    | nil =>
      intro l e hl he _ _
      exact he.between hl hr hc
    | cons entry entries ih =>
      intro l e hl he hk hv
      obtain ⟨hkey, hk⟩ := List.forall_mem_cons.mp hk
      obtain ⟨hvalue, hv⟩ := List.forall_mem_cons.mp hv
      have hn := ih colon entry.2 rfl hvalue hk hv
      have hp := hkey.between (l := comma) rfl rfl hn
      simp only [entryWords, List.cons_append, List.append_assoc]
      exact he.between hl rfl hp
  cases entries with
  | nil => exact List.isChain_cons_cons.mpr ⟨hlr, hc⟩
  | cons entry entries =>
    obtain ⟨hkey, hk⟩ := List.forall_mem_cons.mp hk
    obtain ⟨hvalue, hv⟩ := List.forall_mem_cons.mp hv
    have hn := hmore entries colon entry.2 rfl hvalue hk hv
    simp only [entryWords, List.nil_append, List.append_assoc, List.cons_append]
    exact hkey.between hl rfl hn

private theorem chain_bound {l : Lexeme} {bound : Option Expr} (hl : l.parts = true)
    (hlr : l.MayPrecede r) (h : ∀ e, bound = some e → Phrase e.words) :
    (l :: (boundWords bound ++ r :: tail)).IsChain MayPrecede := by
  cases bound with
  | none => exact List.isChain_cons_cons.mpr ⟨hlr, hc⟩
  | some e => exact (h e rfl).between hl hr hc

end Series

private theorem sound_items (before : List Lexeme) {items : List Expr} (hb : ∀ l ∈ before, l.Sound)
    (h : ∀ e ∈ items, ∀ l ∈ e.words, l.Sound) : ∀ l ∈ itemWords before items, l.Sound := by
  induction items generalizing before with
  | nil => exact fun l hl => by cases hl
  | cons e items ih =>
    obtain ⟨he, h⟩ := List.forall_mem_cons.mp h
    have hmore := ih [.comma] (by simp [Sound]) h
    simp only [itemWords, List.forall_mem_append]
    exact ⟨hb, he, hmore⟩

private theorem sound_entries (before : List Lexeme) {entries : List (Expr × Expr)}
    (hb : ∀ l ∈ before, l.Sound) (hk : ∀ entry ∈ entries, ∀ l ∈ entry.1.words, l.Sound)
    (hv : ∀ entry ∈ entries, ∀ l ∈ entry.2.words, l.Sound) :
    ∀ l ∈ entryWords before entries, l.Sound := by
  induction entries generalizing before with
  | nil => exact fun l hl => by cases hl
  | cons entry entries ih =>
    obtain ⟨hkey, hk⟩ := List.forall_mem_cons.mp hk
    obtain ⟨hvalue, hv⟩ := List.forall_mem_cons.mp hv
    have hmore := ih [.comma] (by simp [Sound]) hk hv
    simp only [entryWords, List.forall_mem_append, List.forall_mem_cons]
    exact ⟨hb, hkey, trivial, hvalue, hmore⟩

private theorem sound_bound {bound : Option Expr}
    (h : ∀ e, bound = some e → ∀ l ∈ e.words, l.Sound) :
    ∀ l ∈ boundWords bound, l.Sound := by
  cases bound with
  | none => exact fun l hl => by cases hl
  | some e => exact h e rfl

end Lexeme

open Lexeme

private theorem UnaryOp.lexeme_sound (op : UnaryOp) : op.lexeme.Sound := by
  cases op <;> trivial

private theorem UnaryOp.lexeme_parts (op : UnaryOp) : op.lexeme.parts = true := by
  cases op <;> rfl

private theorem BinaryOp.lexeme_sound (op : BinaryOp) : op.lexeme.Sound := by
  cases op <;> simp [lexeme, Sound]

private theorem BinaryOp.lexeme_parts (op : BinaryOp) : op.lexeme.parts = true := by
  cases op <;> rfl

namespace Expr

private theorem Plain.words_sound {e : Expr} (h : e.Plain) : ∀ l ∈ e.words, l.Sound := by
  induction h <;>
    simp only [words, List.forall_mem_cons, List.forall_mem_append, List.not_mem_nil, false_implies,
      implies_true, and_true]
  case literal hv => exact hv
  case name hn => exact hn
  case list ih => exact ⟨trivial, sound_items [] (by simp) ih, trivial⟩
  case dict ihk ihv => exact ⟨trivial, sound_entries [] (by simp) ihk ihv, trivial⟩
  case member hn ih => exact ⟨trivial, ih, trivial, trivial, hn⟩
  case index iht ihi => exact ⟨trivial, iht, trivial, trivial, ihi, trivial⟩
  case slice iht ihl ihu =>
    exact ⟨trivial, iht, trivial, trivial, sound_bound ihl, trivial, sound_bound ihu, trivial⟩
  case call ihc iha => exact ⟨trivial, ihc, trivial, trivial, sound_items [] (by simp) iha, trivial⟩
  case unary op _ _ ih => exact ⟨trivial, op.lexeme_sound, ih, trivial⟩
  case binary op _ _ _ _ ihl ihr => exact ⟨trivial, ihl, op.lexeme_sound, ihr, trivial⟩
  case choice ihc ihv iho => exact ⟨trivial, ihv, trivial, ihc, trivial, iho, trivial⟩

private theorem Plain.phrase {e : Expr} (h : e.Plain) : Phrase e.words := by
  have hend : ∀ l : Lexeme, [l].IsChain MayPrecede := fun l => .singleton l
  induction h with
  | literal _ => exact .single rfl rfl
  | name _ => exact .single rfl rfl
  | list _ ih =>
    refine .of_chain (r := .closeSquare) rfl rfl (by simp [List.getLast?_cons]) ?_
    exact chain_items rfl (hend _) rfl trivial ih
  | dict _ _ ihk ihv =>
    refine .of_chain (r := .closeBrace) rfl rfl (by simp [List.getLast?_cons]) ?_
    exact chain_entries rfl (hend _) rfl trivial ihk ihv
  | @member target n _ hn ih =>
    refine .of_chain (r := .name n) rfl rfl (by simp [List.getLast?_cons]) ?_
    exact ih.between rfl rfl (.cons_cons trivial (.cons_cons trivial (hend _)))
  | index _ _ iht ihi =>
    refine .of_chain (r := .closeSquare) rfl rfl (by simp [List.getLast?_cons]) ?_
    exact iht.between rfl rfl (.cons_cons trivial (ihi.between rfl rfl (hend _)))
  | slice _ _ _ iht ihl ihu =>
    have hu := chain_bound (l := .colon) (r := .closeSquare) rfl (hend _) rfl trivial ihu
    refine .of_chain (r := .closeSquare) rfl rfl (by simp [List.getLast?_cons]) ?_
    exact iht.between rfl rfl (.cons_cons trivial (chain_bound rfl hu rfl trivial ihl))
  | call _ _ ihc iha =>
    have ha := chain_items (l := .openParen) (r := .closeParen) rfl (hend _) rfl trivial iha
    refine .of_chain (r := .closeParen) rfl rfl (by simp [List.getLast?_cons]) ?_
    exact ihc.between rfl rfl (.cons_cons trivial ha)
  | @unary op _ _ ih =>
    have ho := ih.between (r := .closeParen) op.lexeme_parts rfl (hend _)
    refine .of_chain (r := .closeParen) rfl rfl (by simp [List.getLast?_cons]) ?_
    exact .cons_cons trivial ho
  | @binary op _ _ _ _ ihl ihr =>
    have hr := ihr.between (r := .closeParen) op.lexeme_parts rfl (hend _)
    refine .of_chain (r := .closeParen) rfl rfl (by simp [List.getLast?_cons]) ?_
    exact ihl.between rfl op.lexeme_parts hr
  | choice _ _ _ ihc ihv iho =>
    have ho := iho.between (l := .elseWord) (r := .closeParen) rfl rfl (hend _)
    have hc := ihc.between (l := .ifWord) rfl rfl ho
    refine .of_chain (r := .closeParen) rfl rfl (by simp [List.getLast?_cons]) ?_
    exact ihv.between rfl rfl hc

/-- However an expression is laid out, its words are the lexemes found. -/
private theorem Plain.scan_writes {e : Expr} (h : e.Plain) {cs : List Char} (hw : e.Writes cs) :
    (Lexeme.scan cs).map (fun l => l.1.shape) = e.words :=
  scan_layout h.words_sound h.phrase.chain hw

private theorem spells_items {items : List Expr} (h : ∀ e ∈ items, Spells e.words (.operand e)) :
    Spells (itemWords [] items) (.items items) := by
  induction items with
  | nil => exact .noItems
  | cons e items ih =>
    obtain ⟨he, h⟩ := List.forall_mem_cons.mp h
    cases items with
    | nil =>
      simp only [itemWords, List.nil_append, List.append_nil]
      exact .lastItem he.whole_operand
    | cons e' items => exact .item he.whole_operand (ih h)

private theorem spells_entries {entries : List (Expr × Expr)}
    (hk : ∀ entry ∈ entries, Spells entry.1.words (.operand entry.1))
    (hv : ∀ entry ∈ entries, Spells entry.2.words (.operand entry.2)) :
    Spells (entryWords [] entries) (.entries entries) := by
  induction entries with
  | nil => exact .noEntries
  | cons entry entries ih =>
    obtain ⟨hkey, hk⟩ := List.forall_mem_cons.mp hk
    obtain ⟨hvalue, hv⟩ := List.forall_mem_cons.mp hv
    cases entries with
    | nil =>
      simp only [entryWords, List.nil_append, List.append_nil]
      exact .lastEntry hkey.whole_operand hvalue.whole_operand
    | cons entry' entries => exact .entry hkey.whole_operand hvalue.whole_operand (ih hk hv)

private theorem spells_bound {bound : Option Expr}
    (h : ∀ e, bound = some e → Spells e.words (.operand e)) :
    Spells (boundWords bound) (.bound bound) := by
  cases bound with
  | none => exact .unbounded
  | some e => exact .bounded (h e rfl).whole_operand

private theorem Plain.spells {e : Expr} (h : e.Plain) : Spells e.words (.operand e) := by
  induction h with
  | @literal v _ => exact .literal v
  | @name n _ => exact .name n
  | list _ ih => exact (spells_items ih).list
  | dict _ _ ihk ihv => exact (spells_entries ihk ihv).dict
  | @member target n _ _ ih =>
    have hall := ih.whole_operand.group.member n
    simpa only [words, List.cons_append, List.append_assoc, List.nil_append] using hall
  | index _ _ iht ihi =>
    have hall := iht.whole_operand.group.index ihi.whole_operand
    simpa only [words, List.cons_append, List.append_assoc, List.nil_append] using hall
  | slice _ _ _ iht ihl ihu =>
    have hall := iht.whole_operand.group.slice (spells_bound ihl) (spells_bound ihu)
    simpa only [words, List.cons_append, List.append_assoc, List.nil_append] using hall
  | call _ _ ihc iha =>
    have hall := ihc.whole_operand.group.call (spells_items iha)
    simpa only [words, List.cons_append, List.append_assoc, List.nil_append] using hall
  | @unary op operand _ ih => exact (Spells.last [op] ih).operation.group
  | @binary op left right _ _ ihl ihr =>
    have hall := (Spells.link [] op ihl (.last [] ihr)).operation.group
    simp only [List.map_nil, List.nil_append, List.append_assoc, List.cons_append] at hall
    exact hall
  | choice _ _ _ ihc ihv iho =>
    have hall := (Spells.choice (.last [] ihv) (.last [] ihc) iho.whole_operand).group
    simp only [List.map_nil, List.nil_append, List.append_assoc, List.cons_append] at hall
    exact hall

theorem Plain.parse_writes {e : Expr} (h : e.Plain) {cs : List Char} (hw : e.Writes cs) :
    parse (String.ofList cs) = .ok e := by
  refine h.spells.whole_operand.parse ?_
  rw [String.toList_ofList]
  exact h.scan_writes hw

end Expr

end Stencil
