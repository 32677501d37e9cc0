import Lox.Proofs.Lines
import Lox.Proofs.Token.MaximalMunch

/-!
# Scanning goes on after a line feed

A line feed ends every segment but an open string, which no quote closes before the end of the
source. So a source of two parts with a line feed between them falls into the segments of its
parts, and what is said about the second part holds as many lines further down as the first
part and the line feed take.
-/

namespace Lox

/-- A byte outside a class ends what was taken of the class. -/
theorem takeWhile_append_of_neg {p : UInt8 → Bool} {b : UInt8} (h : p b = false)
    (t more : Text) : (t ++ b :: more).takeWhile p = t.takeWhile p := by
  induction t with
  | nil => rw [List.nil_append, List.takeWhile_cons_of_neg (by rw [h]; nofun), List.takeWhile_nil]
  | cons c t ih => simp only [List.cons_append, List.takeWhile_cons, ih]

/-- A byte outside a class ends what was dropped of the class. -/
theorem dropWhile_append_of_neg {p : UInt8 → Bool} {b : UInt8} (h : p b = false)
    (t more : Text) : (t ++ b :: more).dropWhile p = t.dropWhile p ++ b :: more := by
  induction t with
  | nil => rw [List.nil_append, List.dropWhile_cons_of_neg (by rw [h]; nofun), List.dropWhile_nil,
      List.nil_append]
  | cons c t ih =>
    simp only [List.cons_append, List.dropWhile_cons, ih]
    split <;> rfl

/-- A line feed belongs to no longer sequence of bytes. -/
theorem Rune.first_append_lineFeed (lead : UInt8) (rest more : Text) :
    first lead (rest ++ Text.lineFeed :: more) = first lead rest := by
  have hcontinuation : isContinuation Text.lineFeed = false := by decide
  have hthree : secondOfThree lead Text.lineFeed = false := by
    unfold secondOfThree
    split
    · decide
    · split <;> decide
  have hfour : secondOfFour lead Text.lineFeed = false := by
    unfold secondOfFour
    split
    · decide
    · split <;> decide
  unfold first
  split
  · rfl
  split
  · cases rest with
    | nil => simp only [List.nil_append, hcontinuation, Bool.false_eq_true, if_false]
    | cons b rest => rfl
  split
  · cases rest with
    | nil => cases more <;> simp only [List.nil_append, hthree, Bool.false_and,
        Bool.false_eq_true, if_false]
    | cons b rest =>
      cases rest with
      | nil => simp only [List.cons_append, List.nil_append, hcontinuation, Bool.and_false,
          Bool.false_eq_true, if_false]
      | cons c rest => rfl
  split
  · cases rest with
    | nil =>
      rcases more with _ | ⟨c, _ | ⟨d, more⟩⟩ <;> simp only [List.nil_append, hfour,
        Bool.false_and, Bool.false_eq_true, if_false]
    | cons b rest =>
      cases rest with
      | nil => cases more <;> simp only [List.cons_append, List.nil_append, hcontinuation,
          Bool.and_false, Bool.false_and, Bool.false_eq_true, if_false]
      | cons c rest =>
        cases rest with
        | nil => simp only [List.cons_append, List.nil_append, hcontinuation, Bool.and_false,
            Bool.false_eq_true, if_false]
        | cons d rest => rfl
  · rfl

namespace Segment

/-- A line feed belongs to no fraction. -/
theorem fraction_append_lineFeed (t more : Text) :
    fraction (t ++ Text.lineFeed :: more) = fraction t := by
  cases t with
  | nil => rfl
  | cons b t =>
    by_cases hb : b = 0x2E
    · rw [hb]
      exact takeWhile_append_of_neg (by decide) t more
    · have hnone (u : Text) : fraction (b :: u) = [] := by
        unfold fraction
        split
        · next heq => exact absurd (List.cons.inj heq).1 hb
        · rfl
      rw [List.cons_append, hnone, hnone]

/-- A line feed belongs to no numeral. -/
theorem numeral_append_lineFeed (digit : UInt8) (rest more : Text) :
    numeral digit (rest ++ Text.lineFeed :: more) = numeral digit rest := by
  have hdigit : Text.isDigit Text.lineFeed = false := by decide
  simp only [numeral, takeWhile_append_of_neg hdigit, dropWhile_append_of_neg hdigit,
    fraction_append_lineFeed]

/-- A line feed belongs to no name. -/
theorem name_append_lineFeed (letter : UInt8) (rest more : Text) :
    name letter (rest ++ Text.lineFeed :: more) = name letter rest := by
  have hpart : isNamePart Text.lineFeed = false := by decide
  simp only [name, takeWhile_append_of_neg hpart]

/-- A string that is closed before a line feed does not reach it. -/
theorem quoted_append_lineFeed {rest : Text} (h : ∀ body, quoted rest ≠ unterminated body)
    (more : Text) : quoted (rest ++ Text.lineFeed :: more) = quoted rest := by
  have hdrop : rest.dropWhile (· != 0x22) ≠ [] := by
    intro hdrop
    simp only [quoted, hdrop] at h
    exact h _ rfl
  obtain ⟨b, after, hafter⟩ := List.exists_cons_of_ne_nil hdrop
  have hhead := List.head?_dropWhile_not (· != 0x22) rest
  rw [hafter] at hhead
  obtain rfl : b = 0x22 := bne_eq_false_iff_eq.mp hhead
  have hrest : rest = rest.takeWhile (· != 0x22) ++ 0x22 :: after := by
    rw [← hafter, List.takeWhile_append_dropWhile]
  have hbody : ∀ b ∈ rest.takeWhile (· != 0x22), b ≠ 0x22 := fun b hb =>
    bne_iff_ne.mp (List.all_eq_true.mp List.all_takeWhile b hb)
  generalize rest.takeWhile (· != 0x22) = body at hrest hbody
  rw [hrest, List.append_assoc, List.cons_append, quoted_of_body hbody, quoted_of_body hbody]

/-- A sign takes no line feed for an equals sign. -/
theorem signOrEqual_append_lineFeed (short long : Punctuator) (rest more : Text) :
    signOrEqual short long (rest ++ Text.lineFeed :: more) = signOrEqual short long rest := by
  cases rest with
  | nil => rfl
  | cons b rest =>
    by_cases hb : b = 0x3D
    · rw [hb]
      rfl
    · have hshort (u : Text) : signOrEqual short long (b :: u) = sign short := by
        unfold signOrEqual
        split
        · next heq => exact absurd (List.cons.inj heq).1 hb
        · rfl
      rw [List.cons_append, hshort, hshort]

/-- A slash without another after it is a sign. -/
theorem first_slash_of_ne {c : UInt8} (hc : c ≠ 0x2F) (rest : Text) :
    first 0x2F (c :: rest) = sign .slash := by
  simp only [first]
  split
  · next heq => exact absurd (List.cons.inj heq).1 hc
  · rfl

/-- A line feed ends the first segment of a source unless it is an open string. -/
theorem first_append_lineFeed {b : UInt8} {rest : Text}
    (h : ∀ body, first b rest ≠ unterminated body) (more : Text) :
    first b (rest ++ Text.lineFeed :: more) = first b rest := by
  by_cases hb : b = 0x2F
  · rw [hb]
    cases rest with
    | nil => rfl
    | cons c rest =>
      by_cases hc : c = 0x2F
      · rw [hc]
        exact congrArg comment (takeWhile_append_of_neg (by decide) rest more)
      · rw [List.cons_append, first_slash_of_ne hc, first_slash_of_ne hc]
  unfold first at h ⊢
  split
  case h_15 => exact absurd rfl hb
  case h_16 | h_17 | h_18 | h_19 => exact signOrEqual_append_lineFeed _ _ rest more
  case h_20 => exact quoted_append_lineFeed h more
  case h_21 =>
    rw [numeral_append_lineFeed, name_append_lineFeed, Rune.first_append_lineFeed]
  all_goals rfl

/-- A source with a line feed in it falls into the segments of its two parts, unless the first
part ends in an open string. -/
theorem split_append_lineFeed {source : Text}
    (h : ∀ body, unterminated body ∉ split source) (more : Text) :
    split (source ++ Text.lineFeed :: more) =
      split source ++ blank Text.lineFeed :: split more := by
  induction hn : source.length using Nat.strongRecOn generalizing source with
  | ind n ih =>
    cases source with
    | nil => exact split_cons Text.lineFeed more
    | cons b rest =>
      rw [split_cons] at h
      have hfirst : ∀ body, first b rest ≠ unterminated body := fun body heq =>
        h body (heq ▸ List.mem_cons_self)
      obtain ⟨after, hafter, -⟩ := exists_rest b rest
      have hlength := congrArg List.length hafter
      rw [List.length_cons, List.length_append] at hlength
      have hle : (first b rest).text.length - 1 ≤ rest.length := by omega
      have hrest := ih (rest.drop ((first b rest).text.length - 1)).length
        (by rw [List.length_drop, ← hn, List.length_cons]; omega)
        (fun body hbody => h body (List.mem_cons_of_mem _ hbody)) rfl
      rw [List.cons_append, split_cons, first_append_lineFeed hfirst, split_cons,
        List.drop_append_of_le_length hle, hrest, List.cons_append]

/-- The lines of segments that follow others go on where these end. -/
theorem numbered_append (line : Int) (segments segments' : List Segment) :
    numbered line (segments ++ segments') = numbered line segments ++
      numbered (line + (Text.newlines (segments.flatMap text) : Nat)) segments' := by
  induction segments generalizing line with
  | nil =>
    have hzero : line + (Text.newlines [] : Nat) = line := Int.add_zero line
    simp only [List.nil_append, numbered, List.flatMap_nil, hzero]
  | cons s rest ih =>
    have hline : s.endLine line + (Text.newlines (rest.flatMap text) : Nat) =
        line + (Text.newlines ((s :: rest).flatMap text) : Nat) := by
      rw [endLine, List.flatMap_cons, Text.newlines_append]
      omega
    rw [List.cons_append, numbered, ih, hline, numbered, List.cons_append]

/-- Segments that start further down stand further down. -/
theorem numbered_add (line distance : Int) (segments : List Segment) :
    numbered (line + distance) segments =
      (numbered line segments).map fun s => (s.1 + distance, s.2) := by
  induction segments generalizing line with
  | nil => rfl
  | cons s rest ih =>
    have hline : s.endLine (line + distance) = s.endLine line + distance := by
      simp only [endLine]
      omega
    rw [numbered, hline, ih, numbered, List.map_cons]

/-- The segments of a source with a line feed in it stand on the lines of its parts, those of the
second further down. -/
theorem numberedSegments_append_lineFeed {source : Text}
    (h : ∀ body, unterminated body ∉ split source) (more : Text) :
    numberedSegments (source ++ Text.lineFeed :: more) = numberedSegments source ++
      (lastLine source + 1, blank Text.lineFeed) ::
        (numberedSegments more).map fun s => (s.1 + lastLine source, s.2) := by
  have hend : (blank Text.lineFeed).endLine (lastLine source) = lastLine source + 1 := rfl
  have hline : lastLine source + 1 = 1 + lastLine source := Int.add_comm _ _
  unfold numberedSegments
  rw [split_append_lineFeed h, numbered_append, (splits_split source).flatMap_text, numbered,
    ← lastLine, hend, ← numbered_add, hline]

/-- The token of a segment that ends further down. -/
theorem token?_add (line distance : Int) (s : Segment) :
    s.token? (line + distance) = (s.token? line).map (Token.mapLine (· + distance)) := by
  cases s <;> rfl

end Segment

/-- The lexical error on another line. -/
def LexicalError.mapLine (g : Int → Int) (e : LexicalError) : LexicalError :=
  { e with line := g e.line }

/-- The error of a segment that ends further down. -/
theorem Segment.error?_add (line distance : Int) (s : Segment) :
    s.error? (line + distance) = (s.error? line).map (LexicalError.mapLine (· + distance)) := by
  cases s <;> rfl

/-- The tokens of a source with a line feed in it are those of its parts. -/
theorem sourceTokens_append_lineFeed {source : Text}
    (h : ∀ body, Segment.unterminated body ∉ Segment.split source) (more : Text) :
    sourceTokens (source ++ Text.lineFeed :: more) = sourceTokens source ++
      (sourceTokens more).map (Token.mapLine (· + lastLine source)) := by
  simp only [sourceTokens, Segment.numberedSegments_append_lineFeed h, List.filterMap_append,
    List.filterMap_cons, List.filterMap_map, List.map_filterMap, Function.comp_def,
    Segment.token?_add]
  rfl

/-- The errors of a source with a line feed in it are those of its parts. -/
theorem lexicalErrors_append_lineFeed {source : Text}
    (h : ∀ body, Segment.unterminated body ∉ Segment.split source) (more : Text) :
    lexicalErrors (source ++ Text.lineFeed :: more) = lexicalErrors source ++
      (lexicalErrors more).map (LexicalError.mapLine (· + lastLine source)) := by
  simp only [lexicalErrors, Segment.numberedSegments_append_lineFeed h, List.filterMap_append,
    List.filterMap_cons, List.filterMap_map, List.map_filterMap, Function.comp_def,
    Segment.error?_add]
  rfl

/-- The end of a source with a line feed in it is as far down as its parts reach. -/
theorem lastLine_append_lineFeed (source more : Text) :
    lastLine (source ++ Text.lineFeed :: more) = lastLine more + lastLine source := by
  have hcons : Text.newlines (Text.lineFeed :: more) = Text.newlines more + 1 :=
    List.count_cons_self
  rw [lastLine, Text.newlines_append, hcons, lastLine, lastLine]
  omega

/-- No pattern is that of an end token. -/
theorem Pattern.kind_ne_eof {kind : Kind} {lexeme : Text} {literal : Option Value}
    (h : Pattern kind lexeme literal) : kind ≠ .eof := by
  cases h <;> nofun

/-- A token that leads a source matches its pattern. -/
theorem Segment.Matches.pattern {source : Text} {kind : Kind} {lexeme : Text}
    {literal : Option Value} (h : Matches source (.token kind lexeme literal)) :
    Pattern kind lexeme literal := by
  cases h with
  | token hp => exact hp

/-- A token that a source falls into matches its pattern. -/
theorem Segment.Splits.pattern {source : Text} {segments : List Segment}
    (h : Splits source segments) {kind : Kind} {lexeme : Text} {literal : Option Value}
    (ht : .token kind lexeme literal ∈ segments) : Pattern kind lexeme literal := by
  induction h with
  | nil => cases ht
  | cons hleads _ ih =>
    rcases List.mem_cons.mp ht with rfl | ht
    · exact hleads.applies.pattern
    · exact ih ht

/-- No token of a source is an end token. -/
theorem kind_ne_eof_of_mem_sourceTokens {source : Text} {t : Token} (h : t ∈ sourceTokens source) :
    t.kind ≠ .eof := by
  obtain ⟨⟨line, s⟩, hs, ht⟩ := List.mem_filterMap.mp h
  have hsplit : s ∈ Segment.split source := by
    have hmem := List.mem_map_of_mem (f := Prod.snd) hs
    rwa [numberedSegments, Segment.map_snd_numbered] at hmem
  cases s with
  | token kind lexeme literal =>
    cases ht
    exact ((Segment.splits_split source).pattern hsplit).kind_ne_eof
  | _ => cases ht

/-- Two sources without errors are scanned together into the tokens of both. -/
theorem scan_append_lineFeed {source more : Text} {tokens tokens' : List Token}
    (h : scan source = .ok tokens) (h' : scan more = .ok tokens') :
    scan (source ++ Text.lineFeed :: more) =
      .ok (sourceTokens source ++ tokens'.map (Token.mapLine (· + lastLine source))) := by
  obtain ⟨herrors, -⟩ := scan_eq_ok_iff.mp h
  obtain ⟨herrors', rfl⟩ := scan_eq_ok_iff.mp h'
  have hclosed : ∀ body, Segment.unterminated body ∉ Segment.split source := fun body hmem =>
    (Segment.lexicalErrors_eq_nil_iff source).mp herrors _ hmem (.unterminated body)
  refine scan_eq_ok_iff.mpr ⟨?_, ?_⟩
  · rw [lexicalErrors_append_lineFeed hclosed, herrors, herrors', List.map_nil, List.append_nil]
  · rw [sourceTokens_append_lineFeed hclosed, lastLine_append_lineFeed, List.map_append,
      List.append_assoc]
    rfl

end Lox
