import Stencil.Proofs.Loader.Steady
import Stencil.Proofs.Render.Scopes
import Stencil.Proofs.Render.Sharing
import Stencil.Proofs.Template.Surrounded

/-!
# Templates inserted by name

Inserting a template by its name writes what rendering the name writes and stops as that stops, for
the scope it gets is the one it would be rendered in.
-/

namespace Stencil

open Rendering

deriving instance DecidableEq for Outcome

/-- How an action ends that does behind pieces of output what a render of some outcome does. -/
inductive Outcome.Shown (pieces : Array String) :
    Outcome → EStateM.Result Halt Stage Unit → Prop where
  | output {s : Stage} {shown : Array String} : s.output = pieces ++ shown →
      Shown pieces (.output (String.join shown.toList)) (.ok () s)
  | failed (e : TemplateError) (s : Stage) : Shown pieces (.failed e) (.error (.failed e) s)
  | tooDeep (s : Stage) : Shown pieces .tooDeep (.error .tooDeep s)

namespace Compiled

def alone (host : Host) (depth : Nat) (t : Template) : Rendering Unit :=
  runBlock ⟨t.name, t.metadata, host, insertAt host depth⟩ t.body

theorem render_eq (host : Host) (depth : Nat) (t : Template) (params : Dict Value)
    (loader : Option Loader) :
    t.render host depth params loader =
      match t.alone host depth ⟨Dict.extend t.defaults params, #[], loader⟩ with
      | .ok _ s => (.output (String.join s.output.toList), s.loader)
      | .error (.failed e) s => (.failed e, s.loader)
      | .error .tooDeep s => (.tooDeep, s.loader) := by
  unfold render runIn isolated Scope.ofTemplate alone
  cases runBlock ⟨t.name, t.metadata, host, insertAt host depth⟩ t.body
      ⟨Dict.extend t.defaults params, #[], loader⟩ with
  | ok a s => rfl
  | error halt s => cases halt <;> rfl

/-- A template does the same in a scope whatever was written and bound before, and whatever its
loader has cached. -/
private theorem render_shown (host : Host) (depth : Nat) (t : Template) (params : Dict Value)
    {l k : Loader} (h : l.Agrees k) (bindings : Dict Value) (pieces : Array String) :
    (t.render host depth params (some l)).1.Shown pieces
      (t.runIn host (insertAt host depth) (.ofTemplate t params) ⟨bindings, pieces, some k⟩) := by
  have hblind : Blind (t.alone host depth) := closed_blind.block (blind_insertAt host depth) t.body
  have happends : Appends (t.alone host depth) :=
    closed_appends.block (appends_insertAt host depth) t.body
  let own := Dict.extend t.defaults params
  have hcache := hblind ⟨own, #[], some l⟩ ⟨own, #[], some k⟩ ⟨rfl, rfl, l, k, rfl, rfl, h⟩
  have hpieces := happends ⟨own, #[], some k⟩ pieces
  rw [Stage.below, Array.append_empty] at hpieces
  have hrun : t.runIn host (insertAt host depth) (.ofTemplate t params) =
      isolated own (t.alone host depth) := rfl
  rw [render_eq, hrun]
  unfold isolated
  rw [hpieces]
  generalize t.alone host depth ⟨own, #[], some l⟩ = r at hcache ⊢
  generalize t.alone host depth ⟨own, #[], some k⟩ = q at hcache ⊢
  cases hcache with
  | @ok a b s t _ hst =>
    have hout : ({ t.below pieces with bindings } : Stage).output = pieces ++ s.output := by
      rw [hst.output]
      rfl
    exact .output hout
  | error halt hst =>
    cases halt with
    | failed e => exact .failed e _
    | tooDeep => exact .tooDeep _

end Compiled

namespace Loader

private theorem afresh_eq_ok {l : Loader} {name : String} {t : Template}
    (h : l.afresh name = .ok t) :
    t.defaults = [] ∧
      t.metadata = ⟨name, l.dialect.escapes.forName name, some l.number, []⟩ := by
  unfold afresh at h
  cases hf : Source.firstText name l.sources with
  | error e => simp [hf] at h
  | ok text =>
    cases text with
    | none => simp [hf] at h
    | some text =>
      simp only [hf] at h
      obtain ⟨body, -, hok⟩ := Assembly.bind_eq_ok.mp h
      cases hok
      exact ⟨rfl, rfl⟩

theorem load_eq_ok {l : Loader} (h : l.Faithful) {name : String} {t : Template}
    (ht : (l.load name).1 = .ok t) :
    t.defaults = [] ∧
      t.metadata = ⟨name, l.dialect.escapes.forName name, some l.number, []⟩ := by
  have hspec := (load_spec h name).1
  rw [ht] at hspec
  exact afresh_eq_ok (t := t.unnumbered) hspec.symm

private theorem insertAt_shown (host : Host) (depth : Nat) {l k : Loader} (h : l.Agrees k)
    (name : String) (params : Dict Value) (pieces : Array String) {m : Metadata Value}
    (hloader : m.loader = some k.number) (hglobals : m.globals = []) :
    (l.render host depth name params).1.Shown pieces
      (insertAt host (depth + 1) m (.text name) ⟨Dict.ofList params, pieces, some k⟩) := by
  have hload := h.load name
  have hinsert : insertAt host (depth + 1) m (.text name) ⟨Dict.ofList params, pieces, some k⟩ =
      EStateM.bind (loadNamed m name) (fun t => t.runInserted host (insertAt host depth) m none)
        ⟨Dict.ofList params, pieces, some k⟩ := rfl
  rw [hinsert]
  unfold Loader.render EStateM.bind loadNamed
  simp only [if_pos hloader]
  rcases hl : l.load name with ⟨e | u, l'⟩
  · rcases hk : k.load name with ⟨f | v, k'⟩
    · rw [hl, hk] at hload
      cases hload.1
      exact .failed e _
    · rw [hl, hk] at hload
      cases hload.1
  · rcases hk : k.load name with ⟨f | v, k'⟩
    · rw [hl, hk] at hload
      cases hload.1
    · rw [hl, hk] at hload
      obtain ⟨hsame, hagrees⟩ := hload
      have huv : v.Resembles u := (Except.ok.inj hsame).symm
      obtain ⟨hdefaults, hmetadata⟩ := load_eq_ok h.right (by rw [hk])
      have hscope : Scope.inserted ⟨Dict.ofList params, m⟩ v none = Scope.ofTemplate v params :=
        Scope.inserted_bare hdefaults (by rw [hmetadata]) (by simp [hmetadata]) hglobals params
      simp only [Compiled.runInserted, hscope, Scope.ofTemplate_resembles huv,
        Compiled.runIn_resembles huv]
      exact u.render_shown host depth params hagrees _ pieces

end Loader

private theorem runBlock_segments (c : Setting) (ts : List Token) (rest : List (Located Step))
    (s : Stage) :
    runBlock c (ts.map Token.segment ++ rest) s =
      runBlock c rest { s with output := s.output ++ (ts.map Token.content).toArray } := by
  induction ts generalizing s with
  | nil => simp
  | cons t ts ih =>
    have hfirst : runBlock c ((t :: ts).map Token.segment ++ rest) s =
        runBlock c (ts.map Token.segment ++ rest)
          { s with output := s.output.push t.content } := rfl
    rw [hfirst, ih]
    simp

/-- The outcome of a template that inserts another between texts, by the outcome of the other. -/
private def Outcome.surrounded (name : String) (line : Nat) (front back : String) :
    Outcome → Outcome
  | output text => output (front ++ text ++ back)
  | failed e => failed (e.atRender name line)
  | tooDeep => tooDeep

private theorem Compiled.render_surrounded (host : Host) (depth : Nat) {t : Template}
    {before after : List Token} {line : Nat} {f : Formula} {name front back : String}
    (hbody : t.body = before.map Token.segment ++ ⟨line, .insertion f⟩ :: after.map Token.segment)
    (hbefore : Token.Spell before front) (hafter : Token.Spell after back)
    (hf : f.tree = .literal (.text name)) {l k : Loader} (h : l.Agrees k)
    (hdefaults : t.defaults = []) (hloader : t.metadata.loader = some k.number)
    (hglobals : t.metadata.globals = []) (params : Dict Value) :
    (t.render host (depth + 1) params (some k)).1 =
      (l.render host depth name params).1.surrounded t.name line front back := by
  let c : Setting := ⟨t.name, t.metadata, host, insertAt host (depth + 1)⟩
  let pieces := (before.map Token.content).toArray
  have hstep : (Step.insertion f).run c = insertAt host (depth + 1) t.metadata (.text name) := by
    funext s
    have hvalue : c.value f s = .ok (.text name) s := by
      rw [Setting.value, hf, Expr.eval]
      rfl
    change EStateM.bind (c.value f) (c.insert c.metadata) s = _
    rw [EStateM.bind, hvalue]
  have halone : t.alone host (depth + 1) ⟨Dict.ofList params, #[], some k⟩ =
      EStateM.bind (located t.name line (insertAt host (depth + 1) t.metadata (.text name)))
        (fun _ => runBlock c (after.map Token.segment ++ []))
        ⟨Dict.ofList params, pieces, some k⟩ := by
    rw [alone, hbody, runBlock_segments, runBlock, hstep, Array.empty_append, List.append_nil]
    rfl
  have hown : Dict.extend t.defaults params = Dict.ofList params := by
    rw [hdefaults]
    rfl
  have hshown := Loader.insertAt_shown host depth h name params pieces hloader hglobals
  rw [render_eq, hown, halone]
  unfold EStateM.bind located
  generalize insertAt host (depth + 1) t.metadata (.text name)
    ⟨Dict.ofList params, pieces, some k⟩ = r at hshown ⊢
  generalize (l.render host depth name params).1 = o at hshown ⊢
  cases hshown with
  | @output s shown hout =>
    simp only [runBlock_segments, hout, runBlock, pure, EStateM.pure, Outcome.surrounded, pieces,
      Array.toList_append, String.join_append, hbefore.2, hafter.2]
  | failed e s => rfl
  | tooDeep s => rfl

namespace Loader

private theorem afresh_inserts {l : Loader} {front tag back : List Char} {name template : String}
    (hsource : Source.firstText template l.sources =
      .ok (some (String.ofList (front ++ tag ++ back))))
    (htag : l.dialect.delimiters.Inserts name front tag back) :
    (l.dialect.builtins = false ∧ ∃ e, l.afresh template = .error e) ∨
    (l.dialect.builtins = true ∧ ∃ t before line after f, l.afresh template = .ok t ∧
      t.body = before.map Token.segment ++ ⟨line, .insertion f⟩ :: after.map Token.segment ∧
      Token.Spell before (String.ofList front) ∧ Token.Spell after (String.ofList back) ∧
        f.tree = .literal (.text name)) := by
  have hafresh : l.afresh template = l.dialect.compile (String.ofList (front ++ tag ++ back))
      template [] (l.attach (.named "")) 0 := by rw [afresh, hsource]
  rw [hafresh]
  cases hb : l.dialect.builtins with
  | false =>
    obtain ⟨e, he⟩ := Dialect.assemble_without_builtins hb htag template
    refine .inl ⟨rfl, e, ?_⟩
    rw [Dialect.compile, he]
    rfl
  | true =>
    obtain ⟨before, line, after, f, hassemble, hbefore, hafter, hf⟩ :=
      Dialect.assemble_inserts hb htag template
    let body := before.map Token.segment ++ ⟨line, .insertion f⟩ :: after.map Token.segment
    refine .inr ⟨rfl, ⟨body, [], l.dialect.metadata template (l.attach (.named "")), 0⟩, before,
      line, after, f, ?_, rfl, hbefore, hafter, hf⟩
    exact Assembly.bind_eq_ok.mpr ⟨body, hassemble, rfl⟩

/-- A template of a literal text, a tag that inserts another by its name and a literal text, over
sources that stay: it is loaded where the builtin tags are known, and what is loaded renders to what
the name renders to, between the texts, or stops for the same error. What goes with the extension of
its name does not matter, nor what the loader did before. With delimiters that are kept apart, a
printed tag with the quoted name is such a tag unless the closing delimiter is in it. -/
theorem insertion_transparent (host : Host) {start l m k : Loader} (hempty : start.clear = start)
    (hl : start.Becomes host l) (hm : start.Becomes host m) (hk : start.Becomes host k)
    {name template : String} {front tag back : List Char}
    (hsource : Source.firstText template start.sources =
      .ok (some (String.ofList (front ++ tag ++ back))))
    (htag : start.dialect.delimiters.Inserts name front tag back) :
    (start.dialect.builtins = true → ∃ t, (m.load template).1 = .ok t) ∧
    (∀ t, (m.load template).1 = .ok t → ∀ depth params,
      (∀ text, (l.render host depth name params).1 = .output text →
        (t.render host (depth + 1) params (some k)).1 =
          .output (String.ofList front ++ text ++ String.ofList back)) ∧
      ∀ message place line,
        (l.render host depth name params).1 = .failed (.render message place line) →
          (t.render host (depth + 1) params (some k)).1 =
            .failed (.render message place line)) ∧
    ∀ (d : Delimiters) (name : String) (front back : List Char), d.Apart →
      ¬ d.block.closing <:+: "include".toList → ¬ d.block.closing <:+: Text.quoted name.toList →
      d.Literal front (d.block.print ' ' (insertionOf name) ++ back) → d.Literal back [] →
        d.Inserts name front (d.block.print ' ' (insertionOf name)) back := by
  have hfaithful := faithful_of_clear hempty
  have hstart := hm.agrees hfaithful
  have hload := (load_spec hstart.right template).1
  rw [← hstart.alike.afresh] at hload
  refine ⟨?_, ?_, fun d name front back hd => hd.inserts⟩
  · intro hbuiltins
    rcases afresh_inserts hsource htag with ⟨hno, -⟩ | ⟨-, u, _, _, _, _, hu, -⟩
    · cases hno.symm.trans hbuiltins
    · rw [hu] at hload
      cases hr : (m.load template).1 with
      | error e => simp [hr, Except.map] at hload
      | ok t => exact ⟨t, rfl⟩
  · intro t ht depth params
    rw [ht] at hload
    rcases afresh_inserts hsource htag with
      ⟨-, e, he⟩ | ⟨-, u, before, line, after, f, hu, hbody, hbefore, hafter, hf⟩
    · rw [he] at hload
      cases hload
    · rw [hu] at hload
      obtain rfl : t.unnumbered = u := Except.ok.inj hload
      have hagrees := (hl.agrees hfaithful).trans_right (hk.agrees hfaithful)
      have hnumber := (hstart.trans_right (hk.agrees hfaithful)).alike.number
      obtain ⟨hdefaults, hmetadata⟩ := load_eq_ok hstart.right ht
      have hloader : t.metadata.loader = some k.number := by rw [hmetadata, hnumber]
      have hglobals : t.metadata.globals = [] := by rw [hmetadata]
      have hown : t.body = t.unnumbered.body := rfl
      have hrender := Compiled.render_surrounded host depth (hown.trans hbody) hbefore hafter hf
        hagrees hdefaults hloader hglobals params
      refine ⟨fun text htext => ?_, fun message place line herror => ?_⟩
      · rw [hrender, htext]
        rfl
      · rw [hrender, herror]
        rfl

/-- Where a template whose name asks for escapes inserts one whose name does not. -/
theorem insertion_transparent_html :
    let host : Host := fun _ _ => .error .overflow
    let texts : Dict String :=
      [("a.html", "<\x7b% include 'b' %\x7d>"), ("b", "\x7b\x7b x \x7d\x7d")]
    let start : Loader := ⟨0, .standard, [.memory texts], .recent (.empty 0), 0⟩
    (start.render host 0 "b" [("x", .text "&")]).1 = .output "&" ∧
    ∃ t, (start.load "a.html").1 = .ok t ∧
      (t.render host 1 [("x", .text "&")] (some start)).1 = .output "<&>" := by
  intro host texts start
  have hrender : (start.render host 0 "b" [("x", .text "&")]).1 = .output "&" := by
    decide +kernel
  have hbecomes : start.Becomes host start := ⟨[], by simp, rfl⟩
  have htag : Delimiters.standard.Inserts "b" ['<'] "\x7b% include 'b' %\x7d".toList ['>'] := by
    have hliteral : ∀ c : Char, c ≠ '\x7b' → ∀ rest, Delimiters.standard.Literal [c] rest := by
      intro c hc rest
      refine Delimiters.standard_apart.literal ?_ rest
      simpa [Delimiters.openings, Delimiters.standard] using Ne.symm hc
    exact Delimiters.standard_apart.inserts (by decide) (by decide) (hliteral _ (by decide) _)
      (hliteral _ (by decide) _)
  have hsource : Source.firstText "a.html" start.sources =
      .ok (some (String.ofList (['<'] ++ "\x7b% include 'b' %\x7d".toList ++ ['>']))) := by
    decide +kernel
  obtain ⟨hloads, hrenders, -⟩ :=
    insertion_transparent host rfl hbecomes hbecomes hbecomes hsource htag
  obtain ⟨t, ht⟩ := hloads rfl
  exact ⟨hrender, t, ht, (hrenders t ht 0 [("x", .text "&")]).1 "&" hrender⟩

end Loader

end Stencil
