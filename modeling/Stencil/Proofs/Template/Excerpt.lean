import Stencil.Proofs.Markup.Tightness
import Stencil.Proofs.Template.Blame
import Stencil.Proofs.Template.Window

/-!
# What a snippet shows

A snippet shows the lines around a number that there are, each with its own number. The snippet of a
compile error has the line of the token to blame, from its opening delimiter on.
-/

namespace Stencil

open Text (LineOf newlines)

private theorem Dialect.compile_blames {d : Dialect} {source name : String} {defaults : Dict Value}
    {m : Metadata Value} {serial : Nat} {e : TemplateError}
    (h : d.compile source name defaults m serial = .error e) :
    ∃ t ∈ d.tokens source, Blames d.builtins d.custom (d.tokens source) t ∧ t.kind ≠ .text ∧
      ∃ message, e = .compile message name t.line (some (.around source t.line)) := by
  rcases Assembly.bind_eq_error.mp h with h | ⟨body, -, h⟩
  · unfold assemble at h
    split at h
    · cases h
    · rename_i fault line hfault
      obtain ⟨t, ht, hblames, hk, hline⟩ := Assembly.ofTokens_blames hfault
      cases h
      obtain rfl : line = t.line := hline
      exact ⟨t, ht, hblames, hk, _, rfl⟩
  · cases h

private theorem Token.scan_line {source : String} {t : Token} (ht : t ∈ scan .standard source)
    (hk : t.kind ≠ .text) :
    ∃ kind : TagKind, t.kind = kind.tokenKind ∧ ∃ before margin more,
      LineOf source.toList before
        (margin ++ ((Delimiters.standard.pair kind).opening ++ more)) ∧
      t.line = newlines before + 1 ∧ t.start = Token.byteLength (before ++ margin) := by
  obtain ⟨kind, hkind⟩ : ∃ kind : TagKind, t.kind = kind.tokenKind := by
    cases hkind : t.kind with
    | text => exact absurd hkind hk
    | expression => exact ⟨.expression, rfl⟩
    | block => exact ⟨.block, rfl⟩
  obtain ⟨front, slice, rest, hsource, hline, hstart, -, hfastens⟩ :=
    scan_tag Delimiters.standard_firm ht hkind
  obtain ⟨lead, trail, -, -, rfl, -⟩ := hfastens.margins
  rw [List.append_assoc] at hsource
  have hne : (Delimiters.standard.pair kind).opening ≠ [] := by cases kind <;> decide
  have hwhole : '\n' ∉ (Delimiters.standard.pair kind).opening := by cases kind <;> decide
  have hlast : (Delimiters.standard.pair kind).opening.getLast? ≠ some '\r' := by
    cases kind <;> decide
  obtain ⟨before, margin, more, rfl, hcount, hlineOf⟩ := Text.exists_lineOf front _ hne hwhole hlast
  rw [← hsource] at hlineOf
  exact ⟨kind, hkind, before, margin, more, hlineOf, by rw [hline, hcount, Nat.add_comm], hstart⟩

/-- A snippet has the lines from two before its own to two behind it that there are, each with its
number and its text, and marks its own. If a source fails to compile, the snippet is about the line
in which the token to blame begins, whole and exactly once. -/
theorem snippet_shows_tag (source : String) :
    (∀ number line, (Text.lines source.toList)[number]? = some line ↔
      ∃ before, LineOf source.toList before line ∧ newlines before = number) ∧
    (∀ line : Nat,
      let shown := (Snippet.around source line).window
      let first := max (line - 2) 1
      let last := min (line + 2) (Text.lines source.toList).length
      (Snippet.around source line).text = String.join (shown.map fun row =>
        " " ++ (if row.1 = line then ">" else " ") ++ " " ++ padLeft 3 row.1 ++ " | " ++ row.2 ++
          "\n") ∧
      shown.map Prod.fst = List.range' first (last + 1 - first) ∧
      ∀ row ∈ shown, ∃ before, LineOf source.toList before row.2.toList ∧
        row.1 = newlines before + 1) ∧
    ∀ (d : Dialect) name defaults m serial e, d.delimiters = .standard →
      d.compile source name defaults m serial = .error e →
      ∃ t ∈ d.tokens source, Blames d.builtins d.custom (d.tokens source) t ∧
        (∃ message, e = .compile message name t.line (some (.around source t.line))) ∧
        ∃ kind : TagKind, t.kind = kind.tokenKind ∧ ∃ before margin more above below,
          let line := margin ++ ((Delimiters.standard.pair kind).opening ++ more)
          LineOf source.toList before line ∧ t.line = newlines before + 1 ∧
          t.start = Token.byteLength (before ++ margin) ∧
          (Snippet.around source t.line).window =
            above ++ (t.line, String.ofList line) :: below ∧
          ∀ row ∈ above ++ below, row.1 ≠ t.line := by
  refine ⟨fun _ _ => Text.getElem?_lines, fun line => ?_, ?_⟩
  · refine ⟨rfl, Snippet.window_numbers source line, ?_⟩
    rintro ⟨number, text⟩ hrow
    obtain ⟨-, -, before, hline, hcount⟩ := Snippet.mem_window_iff.mp hrow
    exact ⟨before, hline, hcount⟩
  · intro d name defaults m serial e hd herror
    obtain ⟨t, ht, hblames, hk, hmessage⟩ := Dialect.compile_blames herror
    have hscan : t ∈ Token.scan .standard source := hd ▸ ht
    obtain ⟨kind, hkind, before, margin, more, hlineOf, hline, hstart⟩ := Token.scan_line hscan hk
    let text := margin ++ ((Delimiters.standard.pair kind).opening ++ more)
    have hrow : (t.line, String.ofList text) ∈ (Snippet.around source t.line).window := by
      rw [Snippet.mem_window_iff, String.toList_ofList]
      exact ⟨by omega, by omega, before, hlineOf, hline⟩
    obtain ⟨above, below, hwindow, hothers⟩ := Snippet.window_splits hrow
    exact ⟨t, ht, hblames, hmessage, kind, hkind, before, margin, more, above, below, hlineOf,
      hline, hstart, hwindow, hothers⟩

/-- A tag that is left open in the second line, which nothing ends. -/
theorem snippet_shows_tag_open :
    let source := "a\r\nb \x7b% if x %\x7d"
    let message := "if tag could not find a corresponding endif"
    Dialect.standard.compile source "a" [] (.named "a") 0 =
        .error (.compile message "a" 2 (some (.around source 2))) ∧
      (Snippet.around source 2).window = [(1, "a"), (2, "b \x7b% if x %\x7d")] ∧
      ∃ t ∈ Token.scan .standard source, t.line = 2 ∧ ∃ kind : TagKind, ∃ before margin more,
        LineOf source.toList before
          (margin ++ ((Delimiters.standard.pair kind).opening ++ more)) ∧
        t.start = Token.byteLength (before ++ margin) := by
  intro source message
  have hcompile : Dialect.standard.compile source "a" [] (.named "a") 0 =
      .error (.compile message "a" 2 (some (.around source 2))) := by
    dsimp only [source, message]
    rfl
  refine ⟨hcompile, by decide +kernel, ?_⟩
  obtain ⟨t, ht, -, ⟨message', herror⟩, kind, -, before, margin, more, -, -, hline, -, hstart, -⟩ :=
    (snippet_shows_tag source).2.2 _ _ _ _ _ _ rfl hcompile
  injection herror with _ _ hnumber _
  exact ⟨t, ht, hnumber.symm, kind, before, margin, more, hline, hstart⟩

/-- A carriage return that ends the source stays in its line. -/
theorem snippet_keeps_return :
    let source := "\x7b% x %\x7d\r"
    Dialect.standard.compile source "a" [] (.named "a") 0 =
        .error (.compile "\x7b% x %\x7d is not a recognized tag." "a" 1
          (some (.around source 1))) ∧
      (Snippet.around source 1).window = [(1, source)] ∧
      (Snippet.around source 1).window.map Prod.snd ≠
        (source.toList.splitOn '\n').map fun line =>
          String.ofList (if line.getLast? = some '\r' then line.dropLast else line) := by
  intro source
  dsimp only [source]
  exact ⟨rfl, by decide +kernel, by decide +kernel⟩

end Stencil
