import Lox.Proofs.Token.Seam

/-!
# The lines of tokens and of lexical errors

Segments are numbered by the line feeds up to their ends, so their lines go up from left to right,
from the first line of a source to its last. A line feed between two sources keeps what is said
about them apart: the errors and the tokens of the second come behind those of the first, further
down by the lines of the first. Only an open string at the end of the first would reach over the
line feed.
-/

namespace Lox

namespace Segment

variable {line : Int} {segments : List Segment}

/-- A segment stands on one of the lines that its row takes. -/
theorem line_of_mem_numbered {s : Int × Segment} (h : s ∈ numbered line segments) :
    line ≤ s.1 ∧ s.1 ≤ line + (Text.newlines (segments.flatMap text) : Nat) := by
  induction segments generalizing line with
  | nil => cases h
  | cons first rest ih =>
    have hend : first.endLine line = line + (Text.newlines first.text : Nat) := rfl
    rw [List.flatMap_cons, Text.newlines_append]
    rcases List.mem_cons.mp h with rfl | hmem
    · dsimp only
      omega
    · have hrest := ih hmem
      omega

/-- The lines of a row of segments go up. -/
theorem pairwise_numbered (line : Int) (segments : List Segment) :
    (numbered line segments).Pairwise fun s s' => s.1 ≤ s'.1 := by
  induction segments generalizing line with
  | nil => exact .nil
  | cons first rest ih =>
    exact List.pairwise_cons.mpr ⟨fun s hs => (line_of_mem_numbered hs).1, ih _⟩

end Segment

/-- A segment of a source stands on one of its lines. -/
theorem line_of_mem_numberedSegments {source : Text} {s : Int × Segment}
    (h : s ∈ numberedSegments source) : 1 ≤ s.1 ∧ s.1 ≤ lastLine source := by
  have hline := Segment.line_of_mem_numbered h
  rwa [(Segment.splits_split source).flatMap_text] at hline

/-- A lexical error of a source is on one of its lines. -/
theorem line_of_mem_lexicalErrors {source : Text} {error : LexicalError}
    (h : error ∈ lexicalErrors source) : 1 ≤ error.line ∧ error.line ≤ lastLine source := by
  obtain ⟨⟨line, s⟩, hs, herror⟩ := List.mem_filterMap.mp h
  have hline := line_of_mem_numberedSegments hs
  cases s with
  | unexpected | unterminated =>
    cases herror
    exact hline
  | blank | comment | token => cases herror

/-- The token of a segment stands on the line of the segment. -/
theorem Segment.line_of_token? {line : Int} {s : Segment} {t : Token}
    (h : s.token? line = some t) : t.line = line := by
  cases s with
  | token =>
    cases h
    rfl
  | blank | comment | unterminated | unexpected => cases h

section Scanned

variable {source : Text} {tokens : List Token}

/-- The tokens that a source is scanned into stand on its lines. -/
theorem line_of_mem_scan (h : scan source = .ok tokens) :
    ∀ t ∈ tokens, 1 ≤ t.line ∧ t.line ≤ lastLine source := by
  obtain ⟨-, rfl⟩ := scan_eq_ok_iff.mp h
  refine List.forall_mem_append.mpr ⟨fun t ht => ?_, List.forall_mem_singleton.mpr ?_⟩
  · obtain ⟨s, hs, htoken⟩ := List.mem_filterMap.mp ht
    rw [Segment.line_of_token? htoken]
    exact line_of_mem_numberedSegments hs
  · have hlast : (Token.eof (lastLine source)).line = 1 + (Text.newlines source : Nat) := rfl
    have hline : lastLine source = 1 + (Text.newlines source : Nat) := rfl
    omega

/-- The lines of the tokens that a source is scanned into go up. -/
theorem pairwise_line_of_scan (h : scan source = .ok tokens) :
    tokens.Pairwise fun t t' => t.line ≤ t'.line := by
  have hbounds := line_of_mem_scan h
  obtain ⟨-, rfl⟩ := scan_eq_ok_iff.mp h
  obtain ⟨hsource, -⟩ := List.forall_mem_append.mp hbounds
  refine List.pairwise_append.mpr ⟨?_, List.pairwise_singleton _ _, fun t ht =>
    List.forall_mem_singleton.mpr (hsource t ht).2⟩
  refine (Segment.pairwise_numbered 1 (Segment.split source)).filterMap _ ?_
  intro s s' hs t ht t' ht'
  rwa [Segment.line_of_token? ht, Segment.line_of_token? ht']

end Scanned

/-- The errors of a source, none if it is scanned into tokens. -/
def scanErrors (source : Text) : List LexicalError :=
  match scan source with
  | .ok _ => []
  | .error errors => errors

/-- The errors of scanning are those of the bad segments. -/
theorem scanErrors_eq (source : Text) : scanErrors source = lexicalErrors source := by
  unfold scanErrors scan
  cases lexicalErrors source <;> rfl

/-- A source is scanned into tokens, the last of them its end token, if it has no errors. -/
theorem scan_of_scanErrors_eq_nil {source : Text} (h : scanErrors source = []) :
    scan source = .ok (sourceTokens source ++ [Token.eof (lastLine source)]) :=
  scan_eq_ok_iff.mpr ⟨scanErrors_eq source ▸ h, rfl⟩

/-- A source without an error of an open string has no open string. -/
theorem unterminated_not_mem_split {source : Text}
    (h : ∀ error ∈ scanErrors source, error.cause ≠ .unterminatedString) (body : Text) :
    .unterminated body ∉ Segment.split source := by
  intro hmem
  rw [scanErrors_eq] at h
  rw [← Segment.map_snd_numbered 1 (Segment.split source)] at hmem
  obtain ⟨⟨line, s⟩, hs, rfl⟩ := List.mem_map.mp hmem
  exact h ⟨.unterminatedString, line⟩ (List.mem_filterMap.mpr ⟨_, hs, rfl⟩) rfl

/-- Scanning composes at line boundaries. If no string is open at the end of a source, the errors of
this source, a line feed and another source are those of the first and then those of the second,
further down by the lines of the first. If there are none, the tokens are those of the first without
its end token and then those of the second, as far down. -/
theorem scan_composes_at_line_feeds {source : Text}
    (h : ∀ error ∈ scanErrors source, error.cause ≠ .unterminatedString) (more : Text) :
    scanErrors (source ++ Text.lineFeed :: more) = scanErrors source ++
      (scanErrors more).map (LexicalError.mapLine (· + (1 + (Text.newlines source : Nat)))) ∧
    (scanErrors (source ++ Text.lineFeed :: more) = [] →
      ∃ before e tokens, scan source = .ok (before ++ [e]) ∧ e.kind = .eof ∧
        scan more = .ok tokens ∧
        scan (source ++ Text.lineFeed :: more) =
          .ok (before ++
            tokens.map (Token.mapLine (· + (1 + (Text.newlines source : Nat)))))) := by
  have herrors := lexicalErrors_append_lineFeed (unterminated_not_mem_split h) more
  simp only [← scanErrors_eq] at herrors
  refine ⟨herrors, fun hnone => ?_⟩
  rw [herrors, List.append_eq_nil_iff, List.map_eq_nil_iff] at hnone
  have hsource := scan_of_scanErrors_eq_nil hnone.1
  have hmore := scan_of_scanErrors_eq_nil hnone.2
  exact ⟨_, _, _, hsource, rfl, hmore, scan_append_lineFeed hsource hmore⟩

/-- A first part that ends in half a character and a second part with a bad character on its
second line: three errors, the last on the third line. Two parts without errors: a word and a point
behind it, which the line feed ends, and a name on the second line. -/
theorem scan_composes_at_line_feeds_of_half_character :
    let half := utf8 "a " ++ [0xE2, 0x82]
    let bad := utf8 ";\n#"
    let dotted := utf8 "nil."
    (∀ error ∈ scanErrors half, error.cause ≠ .unterminatedString) ∧
      scanErrors (half ++ Text.lineFeed :: bad) =
        [⟨.unexpectedCharacter (.first 0xE2 [0x82]), 1⟩,
          ⟨.unexpectedCharacter (.first 0x82 []), 1⟩,
          ⟨.unexpectedCharacter (.first 0x23 []), 3⟩] ∧
      scan (dotted ++ Text.lineFeed :: utf8 "a") = .ok [⟨.word .nil, utf8 "nil", none, 1⟩,
        ⟨.sign .dot, utf8 ".", none, 1⟩, ⟨.identifier, utf8 "a", none, 2⟩, Token.eof 2] := by
  intro half bad dotted
  have hhalf : ∀ error ∈ scanErrors half, error.cause ≠ .unterminatedString := by decide
  have hdotted : ∀ error ∈ scanErrors dotted, error.cause ≠ .unterminatedString := by decide
  refine ⟨hhalf, (scan_composes_at_line_feeds hhalf bad).1.trans (by decide), ?_⟩
  obtain ⟨before, e, tokens, hfirst, -, hsecond, hscan⟩ :=
    (scan_composes_at_line_feeds hdotted (utf8 "a")).2 (by decide)
  have hbefore : before ++ [e] = [⟨.word .nil, utf8 "nil", none, 1⟩,
      ⟨.sign .dot, utf8 ".", none, 1⟩] ++ [Token.eof 1] :=
    Except.ok.inj (hfirst.symm.trans (by rfl))
  have htokens : tokens = [⟨.identifier, utf8 "a", none, 1⟩, Token.eof 1] :=
    Except.ok.inj (hsecond.symm.trans (by rfl))
  rw [hscan, (List.append_inj' hbefore rfl).1, htokens]
  rfl

end Lox
