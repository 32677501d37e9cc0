import Lox.Proofs.Scanning
import Lox.Proofs.Token.MaximalMunch

/-!
# Scanning with a cursor is total and safe

On every source the procedures that move a cursor over its bytes end, and no byte and no piece
outside the source is asked for. Each segment is scanned to its end: the moves of the cursor come
first, then the loops, then the segments one class at a time, and last the source as a whole, which
gives the tokens and the errors that its segments have.
-/

namespace Lox.Scanning

open Procedure

section Moves

variable {source rest : Text} {b : UInt8} {start p : Nat} (line : Int) (tokens : List Token)
  (errors : List LexicalError)

/-- Behind a byte comes what followed it. -/
theorem drop_succ (h : source.drop p = b :: rest) : source.drop (p + 1) = rest := by
  rw [← List.drop_drop, h, List.drop_one, List.tail_cons]

/-- The byte at a position before the end. -/
theorem runAt_byteAt (h : source.drop p = b :: rest) (c : ScanCursor) :
    (byteAt source p).runAt c = some (.ok b, c) := by
  have hget : source[p]? = some b := by
    rw [← Nat.add_zero p, ← List.getElem?_drop, h]
    rfl
  rw [byteAt, hget]
  rfl

/-- A piece inside the source. -/
theorem runAt_piece {t : Text} (h : source.drop p = t ++ rest) (hp : p ≤ source.length)
    (c : ScanCursor) : (piece source p (p + t.length)).runAt c = some (.ok t, c) := by
  have hlength : p + t.length ≤ source.length := by
    have hdrop := congrArg List.length h
    rw [List.length_drop, List.length_append] at hdrop
    omega
  have htake : (source.drop p).take (p + t.length - p) = t := by
    rw [h, Nat.add_sub_cancel_left, List.take_left]
  rw [piece, if_pos ⟨by omega, hlength⟩, htake]
  rfl

/-- Asking for the end. -/
theorem runAt_isAtEnd (h : source.drop p = rest) :
    (isAtEnd source).runAt ⟨start, p, line, tokens, errors⟩ =
      some (.ok (decide (rest = [])), ⟨start, p, line, tokens, errors⟩) := by
  have hiff : source.length ≤ p ↔ rest = [] := by rw [← h, List.drop_eq_nil_iff]
  simp only [← hiff]
  rfl

/-- Looking at the byte to come. -/
theorem runAt_peek (h : source.drop p = rest) :
    (peek source).runAt ⟨start, p, line, tokens, errors⟩ =
      some (.ok (rest.headD 0), ⟨start, p, line, tokens, errors⟩) := by
  rw [peek, runAt_bind_ok (runAt_isAtEnd line tokens errors h)]
  cases rest with
  | nil => rfl
  | cons b rest => exact runAt_byteAt h _

/-- Looking at the byte after the one to come. -/
theorem runAt_peekNext (h : source.drop p = b :: rest) :
    (peekNext source).runAt ⟨start, p, line, tokens, errors⟩ =
      some (.ok (rest.headD 0), ⟨start, p, line, tokens, errors⟩) := by
  have hnext := drop_succ h
  have hiff : source.length ≤ p + 1 ↔ rest = [] := by rw [← hnext, List.drop_eq_nil_iff]
  change runAt (if source.length ≤ p + 1 then pure 0 else byteAt source (p + 1)) _ = _
  cases rest with
  | nil =>
    rw [if_pos (hiff.mpr rfl)]
    rfl
  | cons b rest =>
    rw [if_neg (fun hle => List.cons_ne_nil _ _ (hiff.mp hle))]
    exact runAt_byteAt hnext _

/-- Moving on over a byte. -/
theorem runAt_advance (h : source.drop p = b :: rest) :
    (advance source).runAt ⟨start, p, line, tokens, errors⟩ =
      some (.ok b, ⟨start, p + 1, line, tokens, errors⟩) := by
  change (byteAt source p >>= _).runAt _ = _
  rw [runAt_bind_ok (runAt_byteAt h _)]
  rfl

/-- The given byte is accepted if it is to come. -/
theorem runAt_accept (h : source.drop p = b :: rest) :
    (accept source b).runAt ⟨start, p, line, tokens, errors⟩ =
      some (.ok true, ⟨start, p + 1, line, tokens, errors⟩) := by
  rw [accept, runAt_bind_ok (runAt_isAtEnd line tokens errors h)]
  change (byteAt source p >>= _).runAt _ = _
  rw [runAt_bind_ok (runAt_byteAt h _)]
  simp only [ne_eq, not_true_eq_false, if_false]
  rfl

/-- Another byte, or none, is not. -/
theorem runAt_accept_of_ne (h : source.drop p = rest) (hne : rest.head? ≠ some b) :
    (accept source b).runAt ⟨start, p, line, tokens, errors⟩ =
      some (.ok false, ⟨start, p, line, tokens, errors⟩) := by
  rw [accept, runAt_bind_ok (runAt_isAtEnd line tokens errors h)]
  cases rest with
  | nil => rfl
  | cons b' rest =>
    have hb : b' ≠ b := fun heq => hne (congrArg some heq)
    change (byteAt source p >>= _).runAt _ = _
    rw [runAt_bind_ok (runAt_byteAt h _)]
    simp only [ne_eq, hb, not_false_eq_true, if_true]
    rfl

/-- Moving on over bytes of a class. -/
theorem runAt_advanceWhile {q : UInt8 → Bool} (hq : q 0 = false) (h : source.drop p = rest) :
    (advanceWhile source q).runAt ⟨start, p, line, tokens, errors⟩ =
      some (.ok (), ⟨start, p + (rest.takeWhile q).length, line, tokens, errors⟩) := by
  induction rest generalizing p with
  | nil =>
    rw [advanceWhile.eq_def, runAt_bind_ok (runAt_peek line tokens errors h), List.headD_nil, hq]
    rfl
  | cons b rest ih =>
    rw [advanceWhile.eq_def]
    simp only [bind_pure]
    rw [runAt_bind_ok (runAt_peek line tokens errors h), List.headD_cons]
    cases hb : q b with
    | false =>
      rw [List.takeWhile_cons_of_neg (by rw [hb]; decide)]
      rfl
    | true =>
      rw [if_pos rfl, runAt_bind_ok (runAt_advance line tokens errors h), ih (drop_succ h),
        List.takeWhile_cons_of_pos hb, List.length_cons, Nat.add_assoc, Nat.add_comm 1]

/-- Behind the bytes of a class come those that the class does not take. -/
theorem drop_takeWhile (q : UInt8 → Bool) (h : source.drop p = rest) :
    source.drop (p + (rest.takeWhile q).length) = rest.dropWhile q := by
  have hsplit : source.drop p = rest.takeWhile q ++ rest.dropWhile q := by
    rw [List.takeWhile_append_dropWhile, h]
  rw [← List.drop_drop, hsplit, List.drop_left]

/-- The bytes up to a stop end at it. -/
theorem takeWhile_stop (stop : UInt8) (rest : Text) : (stop :: rest).takeWhile (· != stop) = [] :=
  List.takeWhile_cons_of_neg
    (by simp only [bne_self_eq_false, Bool.false_eq_true, not_false_eq_true])

/-- The bytes up to a stop go on over another byte. -/
theorem takeWhile_of_ne_stop {stop : UInt8} (hb : b ≠ stop) (rest : Text) :
    (b :: rest).takeWhile (· != stop) = b :: rest.takeWhile (· != stop) := by
  have hne : (b != stop) = true := bne_iff_ne.mpr hb
  simp only [List.takeWhile_cons, hne, if_true]

/-- Moving on to the end of a comment. -/
theorem runAt_comment (h : source.drop p = rest) :
    (comment source).runAt ⟨start, p, line, tokens, errors⟩ =
      some (.ok (), ⟨start, p + (rest.takeWhile (· != Text.lineFeed)).length, line, tokens,
        errors⟩) := by
  induction rest generalizing p with
  | nil =>
    rw [comment.eq_def, runAt_bind_ok (runAt_peek line tokens errors h), List.headD_nil,
      if_pos (by decide), runAt_bind_ok (runAt_isAtEnd line tokens errors h)]
    rfl
  | cons b rest ih =>
    rw [comment.eq_def, runAt_bind_ok (runAt_peek line tokens errors h), List.headD_cons]
    by_cases hb : b = Text.lineFeed
    · rw [if_neg (fun hne => hne hb), hb, takeWhile_stop]
      rfl
    · rw [if_pos hb, runAt_bind_ok (runAt_isAtEnd line tokens errors h)]
      simp only [reduceCtorEq, decide_false, Bool.false_eq_true, if_false]
      rw [runAt_bind_ok (runAt_advance line tokens errors h), ih (drop_succ h),
        takeWhile_of_ne_stop hb, List.length_cons, Nat.add_assoc, Nat.add_comm 1]

/-- Moving on to the end of a string, over its lines. -/
theorem runAt_stringBody (h : source.drop p = rest) :
    (stringBody source).runAt ⟨start, p, line, tokens, errors⟩ =
      some (.ok (), ⟨start, p + (rest.takeWhile (· != 0x22)).length,
        line + (Text.newlines (rest.takeWhile (· != 0x22)) : Nat), tokens, errors⟩) := by
  induction rest generalizing p line with
  | nil =>
    rw [stringBody.eq_def, runAt_bind_ok (runAt_peek line tokens errors h), List.headD_nil,
      if_pos (by decide), runAt_bind_ok (runAt_isAtEnd line tokens errors h)]
    simp only [decide_true, if_true, List.takeWhile_nil, Text.newlines, List.count_nil,
      Int.natCast_zero, Int.add_zero]
    rfl
  | cons b rest ih =>
    rw [stringBody.eq_def, runAt_bind_ok (runAt_peek line tokens errors h), List.headD_cons]
    by_cases hb : b = 0x22
    · rw [if_neg (fun hne => hne hb), hb, takeWhile_stop]
      simp only [Text.newlines, List.count_nil, Int.natCast_zero, Int.add_zero]
      rfl
    · have hlength (t : Text) : p + 1 + t.length = p + (b :: t).length := by
        rw [List.length_cons]
        omega
      rw [if_pos hb, runAt_bind_ok (runAt_isAtEnd line tokens errors h)]
      simp only [reduceCtorEq, decide_false, Bool.false_eq_true, if_false]
      rw [runAt_bind_ok (runAt_peek line tokens errors h), List.headD_cons,
        takeWhile_of_ne_stop hb, ← hlength]
      by_cases hfeed : b = Text.lineFeed
      · have hline : line + 1 + (Text.newlines (rest.takeWhile (· != 0x22)) : Nat) =
            line + (Text.newlines (b :: rest.takeWhile (· != 0x22)) : Nat) := by
          rw [Text.newlines, Text.newlines, hfeed, List.count_cons_self]
          omega
        have hnewLine : newLine.runAt ⟨start, p, line, tokens, errors⟩ =
            some (.ok (), ⟨start, p, line + 1, tokens, errors⟩) := rfl
        rw [if_pos hfeed, runAt_bind_ok hnewLine, runAt_bind_ok (runAt_advance _ tokens errors h),
          ih _ (drop_succ h), hline]
      · have hline : Text.newlines (b :: rest.takeWhile (· != 0x22)) =
            Text.newlines (rest.takeWhile (· != 0x22)) := List.count_cons_of_ne hfeed
        rw [if_neg hfeed, runAt_bind_ok (runAt_advance line tokens errors h), ih _ (drop_succ h),
          hline]

end Moves

section Segments

variable {source rest : Text} {b : UInt8} {start : Nat} (line : Int) (tokens : List Token)
  (errors : List LexicalError)

/-- The cursor behind a segment, with the token or the error of the segment added. -/
def behind (start : Nat) (line : Int) (tokens : List Token) (errors : List LexicalError)
    (s : Segment) : ScanCursor :=
  ⟨start, start + s.text.length, s.endLine line, tokens ++ (s.token? (s.endLine line)).toList,
    errors ++ (s.error? (s.endLine line)).toList⟩

/-- Adding the token of a segment, once the cursor is behind it. -/
theorem runAt_emit {kind : Kind} {lexeme : Text} {literal : Option Value}
    (h : source.drop start = lexeme ++ rest) (hstart : start ≤ source.length) :
    (emit source kind literal).runAt ⟨start, start + lexeme.length,
        (Segment.token kind lexeme literal).endLine line, tokens, errors⟩ =
      some (.ok (), behind start line tokens errors (.token kind lexeme literal)) := by
  change runAt (piece source start (start + lexeme.length) >>= _) _ = _
  rw [runAt_bind_ok (runAt_piece h hstart _)]
  simp only [behind, Segment.error?, Option.toList_none, List.append_nil]
  rfl

/-- A text without line feeds ends on the line on which it starts. -/
theorem newlines_eq_zero {t : Text} (h : ∀ b ∈ t, b ≠ Text.lineFeed) : Text.newlines t = 0 :=
  List.count_eq_zero.mpr fun hmem => h _ hmem rfl

/-- Bytes of a class without line feeds have none. -/
theorem newlines_takeWhile {q : UInt8 → Bool} (hq : q Text.lineFeed = false) (t : Text) :
    Text.newlines (t.takeWhile q) = 0 := by
  refine newlines_eq_zero fun b hb heq => ?_
  have htrue := List.all_eq_true.mp List.all_takeWhile b hb
  rw [heq, hq] at htrue
  cases htrue

/-- A sign with its own byte, or with an equals sign after it, has no line feeds. -/
theorem newlines_spelling (p : Punctuator) : Text.newlines p.spelling = 0 := by
  cases p <;> rfl

/-- A token without line feeds is added where the cursor is. -/
theorem runAt_emit_of_newlines {kind : Kind} {lexeme : Text} {literal : Option Value}
    (h : source.drop start = lexeme ++ rest) (hstart : start ≤ source.length)
    (hline : Text.newlines lexeme = 0) :
    (emit source kind literal).runAt ⟨start, start + lexeme.length, line, tokens, errors⟩ =
      some (.ok (), behind start line tokens errors (.token kind lexeme literal)) := by
  have hend : (Segment.token kind lexeme literal).endLine line = line := by
    rw [Segment.endLine, Segment.text, hline]
    omega
  have hemit : (emit source kind literal).runAt ⟨start, start + lexeme.length,
      (Segment.token kind lexeme literal).endLine line, tokens, errors⟩ =
        some (.ok (), behind start line tokens errors (.token kind lexeme literal)) :=
    runAt_emit line tokens errors h hstart
  rwa [hend] at hemit

/-- A sign is added behind it. -/
theorem runAt_sign (p : Punctuator) (h : source.drop start = p.spelling ++ rest)
    (hstart : start ≤ source.length) :
    (emit source (.sign p) none).runAt ⟨start, start + p.spelling.length, line, tokens, errors⟩ =
      some (.ok (), behind start line tokens errors (.sign p)) :=
  runAt_emit_of_newlines line tokens errors h hstart (newlines_spelling p)

/-- A position before the end is inside the source. -/
theorem le_length (h : source.drop start = b :: rest) : start ≤ source.length := by
  have hlength := congrArg List.length h
  rw [List.length_drop, List.length_cons] at hlength
  omega

/-- The sign that takes a following equals sign. -/
theorem runAt_signOrEqual {short long : Punctuator} (h : source.drop start = b :: rest)
    (hshort : short.spelling = [b]) (hlong : long.spelling = [b, 0x3D]) :
    (signOrEqual source short long).runAt ⟨start, start + 1, line, tokens, errors⟩ =
      some (.ok (), behind start line tokens errors (Segment.signOrEqual short long rest)) := by
  have hstart := le_length h
  by_cases hequal : ∃ more, rest = 0x3D :: more
  · obtain ⟨more, rfl⟩ := hequal
    have hsign : source.drop start = long.spelling ++ more := by rw [hlong, h]; rfl
    have hemit := runAt_sign line tokens errors long hsign hstart
    rw [hlong] at hemit
    rw [signOrEqual, runAt_bind_ok (runAt_accept line tokens errors (drop_succ h))]
    exact hemit
  · have hsign : source.drop start = short.spelling ++ rest := by rw [hshort, h]; rfl
    have hemit := runAt_sign line tokens errors short hsign hstart
    have hne : rest.head? ≠ some 0x3D := fun heq => hequal (List.head?_eq_some_iff.mp heq)
    have hfirst : Segment.signOrEqual short long rest = Segment.sign short := by
      unfold Segment.signOrEqual
      split
      · next more => exact absurd ⟨more, rfl⟩ hequal
      · rfl
    rw [hshort] at hemit
    rw [signOrEqual, runAt_bind_ok (runAt_accept_of_ne line tokens errors (drop_succ h) hne),
      hfirst]
    exact hemit

/-- A name is scanned to its last letter or digit. -/
theorem runAt_name (h : source.drop start = b :: rest) (hb : b ≠ Text.lineFeed) :
    (name source).runAt ⟨start, start + 1, line, tokens, errors⟩ =
      some (.ok (), behind start line tokens errors (Segment.name b rest)) := by
  have hlexeme : source.drop start =
      (b :: rest.takeWhile Segment.isNamePart) ++ rest.dropWhile Segment.isNamePart := by
    rw [h, List.cons_append, List.takeWhile_append_dropWhile]
  have hposition : start + 1 + (rest.takeWhile Segment.isNamePart).length =
      start + (b :: rest.takeWhile Segment.isNamePart).length := by
    rw [List.length_cons]
    omega
  have hline : Text.newlines (b :: rest.takeWhile Segment.isNamePart) = 0 := by
    rw [Text.newlines, List.count_cons_of_ne hb]
    exact newlines_takeWhile (by decide) rest
  rw [name, runAt_bind_ok (runAt_advanceWhile line tokens errors (by decide) (drop_succ h)),
    hposition]
  change runAt (piece source start (start + _) >>= _) _ = _
  rw [runAt_bind_ok (runAt_piece hlexeme (le_length h) _)]
  exact runAt_emit_of_newlines line tokens errors hlexeme (le_length h) hline

/-- The bytes of a character behind the first are no line feeds. -/
theorem lineFeed_not_mem_bytes (hb : b ≠ Text.lineFeed) (rest : Text) :
    ∀ c ∈ (Rune.first b rest).bytes, c ≠ Text.lineFeed := by
  have hhigh {c : UInt8} (hc : 0x80 ≤ c.toNat) : c ≠ Text.lineFeed := by
    rintro rfl
    exact absurd hc (by decide)
  have hcontinuation {c : UInt8} (hc : Rune.isContinuation c = true) : c ≠ Text.lineFeed :=
    hhigh ((Rune.isContinuation_iff c).mp hc).1
  have hlead : ∀ c ∈ [b], c ≠ Text.lineFeed := List.forall_mem_singleton.mpr hb
  unfold Rune.first
  split
  · exact hlead
  split
  · split
    · split
      · next hc =>
        exact List.forall_mem_cons.mpr ⟨hb, List.forall_mem_singleton.mpr (hcontinuation hc)⟩
      · exact hlead
    · exact hlead
  split
  · split
    · split
      · next hsequence =>
        obtain ⟨hc, hd⟩ := Bool.and_eq_true_iff.mp hsequence
        have hc := hhigh ((Rune.secondOfThree_iff _ _).mp hc).1
        simp only [Rune.bytes, List.forall_mem_cons, List.not_mem_nil, false_implies, implies_true,
          and_true]
        exact ⟨hb, hc, hcontinuation hd⟩
      · exact hlead
    · exact hlead
  split
  · split
    · split
      · next hsequence =>
        obtain ⟨hsequence, he⟩ := Bool.and_eq_true_iff.mp hsequence
        obtain ⟨hc, hd⟩ := Bool.and_eq_true_iff.mp hsequence
        have hc := hhigh ((Rune.secondOfFour_iff _ _).mp hc).1
        simp only [Rune.bytes, List.forall_mem_cons, List.not_mem_nil, false_implies, implies_true,
          and_true]
        exact ⟨hb, hc, hcontinuation hd, hcontinuation he⟩
      · exact hlead
    · exact hlead
  · exact hlead

/-- A character that starts no token is passed over as a whole. -/
theorem runAt_unexpected (h : source.drop start = b :: rest) (hb : b ≠ Text.lineFeed) (p : Nat) :
    (unexpected source).runAt ⟨start, p, line, tokens, errors⟩ =
      some (.ok (), behind start line tokens errors (.unexpected (Rune.first b rest))) := by
  have hlength : source.length = start + (b :: rest).length := by
    have hdrop := congrArg List.length h
    have hle := le_length h
    rw [List.length_drop] at hdrop
    omega
  have hpiece : (piece source start source.length).runAt ⟨start, p, line, tokens, errors⟩ =
      some (.ok (b :: rest), ⟨start, p, line, tokens, errors⟩) := by
    rw [hlength]
    exact runAt_piece (h.trans (List.append_nil _).symm) (le_length h) _
  have hline : (Segment.unexpected (Rune.first b rest)).endLine line = line := by
    rw [Segment.endLine, Segment.text, newlines_eq_zero (lineFeed_not_mem_bytes hb rest)]
    omega
  change runAt (piece source start source.length >>= _) _ = _
  rw [runAt_bind_ok hpiece]
  simp only [behind, hline, Segment.token?, Option.toList_none, List.append_nil]
  rfl

/-- A quote is no line feed. -/
theorem newlines_quote (t : Text) : Text.newlines (0x22 :: t) = Text.newlines t :=
  List.count_cons_of_ne (by decide)

/-- A string is added behind its closing quote, on the line of that quote. -/
theorem runAt_closeString {body more : Text}
    (h : source.drop start = 0x22 :: (body ++ 0x22 :: more)) :
    (closeString source).runAt ⟨start, start + 1 + body.length,
        line + (Text.newlines body : Nat), tokens, errors⟩ =
      some (.ok (), behind start line tokens errors
        (.token .string (utf8 "\"" ++ body ++ utf8 "\"") (some (.string body)))) := by
  have hquote : utf8 "\"" = [0x22] := rfl
  have hline : (Segment.token .string (utf8 "\"" ++ body ++ utf8 "\"")
      (some (.string body))).endLine line = line + (Text.newlines body : Nat) := by
    rw [Segment.endLine, Segment.text, hquote, List.singleton_append, Text.newlines_append,
      newlines_quote, newlines_quote]
    rfl
  have hposition : start + (utf8 "\"" ++ body ++ utf8 "\"").length =
      start + 1 + body.length + 1 := by
    simp only [hquote, List.length_append, List.length_singleton]
    omega
  have hlexeme : source.drop start = (utf8 "\"" ++ body ++ utf8 "\"") ++ more := by
    simp only [h, hquote, List.nil_append, List.cons_append, List.append_assoc]
  have hinside : start + 1 ≤ source.length := by
    have hlength := congrArg List.length h
    rw [List.length_drop, List.length_cons] at hlength
    omega
  have hclosing : source.drop (start + 1 + body.length) = 0x22 :: more := by
    rw [← List.drop_drop, drop_succ h, List.drop_left]
  have hemit : (emit source .string (some (.string body))).runAt ⟨start,
      start + (utf8 "\"" ++ body ++ utf8 "\"").length, _, tokens, errors⟩ = _ :=
    runAt_emit line tokens errors hlexeme (le_length h)
  rw [hline, hposition] at hemit
  rw [closeString, runAt_bind_ok (runAt_advance _ tokens errors hclosing)]
  change runAt (piece source (start + 1) (start + 1 + body.length + 1 - 1) >>= _) _ = _
  rw [Nat.add_sub_cancel, runAt_bind_ok (runAt_piece (drop_succ h) hinside _)]
  exact hemit

/-- A string is scanned to its closing quote, or to the end of the source. -/
theorem runAt_string (h : source.drop start = 0x22 :: rest) :
    (string source).runAt ⟨start, start + 1, line, tokens, errors⟩ =
      some (.ok (), behind start line tokens errors (Segment.quoted rest)) := by
  have hbody : (stringBody source).runAt ⟨start, start + 1, line, tokens, errors⟩ = _ :=
    runAt_stringBody line tokens errors (drop_succ h)
  have hafter := drop_takeWhile (· != 0x22) (drop_succ h)
  have hrest : rest = rest.takeWhile (· != 0x22) ++ rest.dropWhile (· != 0x22) :=
    List.takeWhile_append_dropWhile.symm
  rw [string, runAt_bind_ok hbody, runAt_bind_ok (runAt_isAtEnd _ tokens errors hafter),
    Segment.quoted]
  generalize rest.takeWhile (· != 0x22) = body at hrest ⊢
  cases hmore : rest.dropWhile (· != 0x22) with
  | nil =>
    have hquote : utf8 "\"" = [0x22] := rfl
    have hline : (Segment.unterminated body).endLine line = line + (Text.newlines body : Nat) := by
      rw [Segment.endLine, Segment.text, hquote, List.singleton_append, newlines_quote]
    have hposition : start + (Segment.unterminated body).text.length = start + 1 + body.length := by
      rw [Segment.text, hquote, List.singleton_append, List.length_cons]
      omega
    simp only [behind, hline, hposition, Segment.token?, Option.toList_none, List.append_nil]
    rfl
  | cons q more =>
    have hq : q = 0x22 := by
      have hhead := List.head?_dropWhile_not (· != (0x22 : UInt8)) rest
      rw [hmore] at hhead
      simpa only [List.head?_cons, bne_eq_false_iff_eq] using hhead
    rw [hmore, hq] at hrest
    rw [hrest] at h
    exact runAt_closeString line tokens errors h

/-- A point and the digits after it are passed over, if there are such digits. -/
theorem runAt_fraction {p : Nat} (h : source.drop p = rest) :
    (fraction source).runAt ⟨start, p, line, tokens, errors⟩ =
      some (.ok (), ⟨start, p + (if (Segment.fraction rest).isEmpty then 0
        else (Segment.fraction rest).length + 1), line, tokens, errors⟩) := by
  rw [fraction, runAt_bind_ok (runAt_peek line tokens errors h)]
  by_cases hpoint : ∃ more, rest = 0x2E :: more
  · obtain ⟨more, rfl⟩ := hpoint
    have hfraction : Segment.fraction (0x2E :: more) = more.takeWhile Text.isDigit := rfl
    rw [List.headD_cons, if_pos rfl, runAt_bind_ok (runAt_peekNext line tokens errors h),
      hfraction]
    cases more with
    | nil => rfl
    | cons d more =>
      rw [List.headD_cons]
      cases hd : Text.isDigit d with
      | false =>
        rw [List.takeWhile_cons_of_neg (by rw [hd]; decide)]
        rfl
      | true =>
        rw [if_pos rfl, runAt_bind_ok (runAt_advance line tokens errors h),
          runAt_advanceWhile line tokens errors (by decide) (drop_succ h),
          List.takeWhile_cons_of_pos hd, List.isEmpty_cons, if_neg (by decide), Nat.add_assoc,
          Nat.add_comm 1]
  · have hne : rest.headD 0 ≠ 0x2E := by
      intro heq
      cases rest with
      | nil => exact absurd heq (by decide)
      | cons c more => exact hpoint ⟨more, by rw [← heq]; rfl⟩
    have hfraction : Segment.fraction rest = [] := by
      unfold Segment.fraction
      split
      · next more => exact absurd ⟨more, rfl⟩ hpoint
      · rfl
    rw [if_neg hne, hfraction]
    rfl

/-- The number of a numeral is that of its digits and decimals. -/
theorem numberOf_eq {whole decimals : Text} (hwhole : ∀ c ∈ whole, Text.isDigit c = true)
    (hdecimals : ∀ c ∈ decimals, Text.isDigit c = true) :
    numberOf (if decimals.isEmpty then whole else whole ++ utf8 "." ++ decimals) =
      Number.ofNumeral whole decimals := by
  have hall {t : Text} (ht : ∀ c ∈ t, Text.isDigit c = true) : t.takeWhile Text.isDigit = t := by
    have happend : (t ++ []).takeWhile Text.isDigit = t ++ [] := List.takeWhile_append_of_pos ht
    rwa [List.append_nil] at happend
  cases decimals with
  | nil =>
    have hnone : (whole ++ []).dropWhile Text.isDigit = [] := List.dropWhile_append_of_pos hwhole
    rw [List.append_nil] at hnone
    rw [List.isEmpty_nil, if_pos rfl, numberOf, hall hwhole, hnone]
    rfl
  | cons d decimals =>
    have hpoint : whole ++ utf8 "." ++ (d :: decimals) = whole ++ (0x2E :: d :: decimals) := by
      rw [List.append_assoc]
      rfl
    have hfraction : Segment.fraction (0x2E :: d :: decimals) = d :: decimals := hall hdecimals
    rw [List.isEmpty_cons, if_neg (by decide), hpoint, numberOf,
      List.takeWhile_append_of_pos hwhole, List.dropWhile_append_of_pos hwhole,
      List.takeWhile_cons_of_neg (by decide), List.dropWhile_cons_of_neg (by decide),
      List.append_nil, hfraction]

/-- Decimals are digits. -/
theorem isDigit_of_mem_fraction {c : UInt8} (hc : c ∈ Segment.fraction rest) :
    Text.isDigit c = true := by
  unfold Segment.fraction at hc
  split at hc
  · exact List.all_eq_true.mp List.all_takeWhile c hc
  · cases hc

/-- A digit is no line feed. -/
theorem ne_lineFeed_of_isDigit {c : UInt8} (hc : Text.isDigit c = true) : c ≠ Text.lineFeed := by
  rintro rfl
  exact absurd hc (by decide)

/-- A numeral is a token of one line that denotes the number of its text. -/
theorem numeral_eq_token (hb : Text.isDigit b = true) (rest : Text) :
    ∃ lexeme, Segment.numeral b rest =
        .token .number lexeme (some (.number (numberOf lexeme))) ∧
      Text.newlines lexeme = 0 ∧
      lexeme.length = 1 + (rest.takeWhile Text.isDigit).length +
        (if (Segment.fraction (rest.dropWhile Text.isDigit)).isEmpty then 0
          else (Segment.fraction (rest.dropWhile Text.isDigit)).length + 1) := by
  have hwhole : ∀ c ∈ b :: rest.takeWhile Text.isDigit, Text.isDigit c = true := fun c hc =>
    (List.mem_cons.mp hc).elim (fun heq => heq ▸ hb) fun hmem =>
      List.all_eq_true.mp List.all_takeWhile c hmem
  have hdecimals : ∀ c ∈ Segment.fraction (rest.dropWhile Text.isDigit), Text.isDigit c = true :=
    fun c hc => isDigit_of_mem_fraction hc
  rw [Segment.numeral, ← numberOf_eq hwhole hdecimals]
  refine ⟨_, rfl, newlines_eq_zero fun c hc => ?_, ?_⟩
  · split at hc
    · exact ne_lineFeed_of_isDigit (hwhole c hc)
    · rcases List.mem_append.mp hc with hc | hc
      · rcases List.mem_append.mp hc with hc | hc
        · exact ne_lineFeed_of_isDigit (hwhole c hc)
        · rw [List.mem_singleton.mp hc]
          decide
      · exact ne_lineFeed_of_isDigit (hdecimals c hc)
  · split
    · rw [List.length_cons]
      omega
    · simp only [List.length_append, List.length_cons]
      have hpoint : (utf8 ".").length = 1 := rfl
      omega

/-- A numeral is scanned to its last digit. -/
theorem runAt_number (h : source.drop start = b :: rest) (hb : Text.isDigit b = true) :
    (number source).runAt ⟨start, start + 1, line, tokens, errors⟩ =
      some (.ok (), behind start line tokens errors (Segment.numeral b rest)) := by
  obtain ⟨more, hmore, -⟩ := Segment.exists_rest b rest
  obtain ⟨lexeme, hnumeral, hline, hlength⟩ := numeral_eq_token hb rest
  have hlexeme : source.drop start = lexeme ++ more := by
    rw [h, hmore, Segment.first_of_digit hb, hnumeral, Segment.text]
  have hdigits := drop_takeWhile Text.isDigit (drop_succ h)
  rw [number, runAt_bind_ok (runAt_advanceWhile line tokens errors (by decide) (drop_succ h)),
    runAt_bind_ok (runAt_fraction line tokens errors hdigits), Nat.add_assoc, Nat.add_assoc,
    ← Nat.add_assoc 1, ← hlength, hnumeral]
  change runAt (piece source start (start + _) >>= _) _ = _
  rw [runAt_bind_ok (runAt_piece hlexeme (le_length h) _)]
  exact runAt_emit_of_newlines line tokens errors hlexeme (le_length h) hline

/-- A single sign is added behind its byte. -/
theorem runAt_sign_byte {p : Punctuator} (h : source.drop start = b :: rest)
    (hp : p.spelling = [b]) :
    (emit source (.sign p) none).runAt ⟨start, start + 1, line, tokens, errors⟩ =
      some (.ok (), behind start line tokens errors (.sign p)) := by
  have hsign : source.drop start = p.spelling ++ rest := by
    rw [hp, h]
    rfl
  have hemit := runAt_sign line tokens errors p hsign (le_length h)
  rwa [hp] at hemit

/-- Segments that are neither tokens nor bad leave nothing behind but the line. -/
theorem behind_of_none {s : Segment} (htoken : s.token? (s.endLine line) = none)
    (herror : s.error? (s.endLine line) = none) :
    behind start line tokens errors s =
      ⟨start, start + s.text.length, s.endLine line, tokens, errors⟩ := by
  simp only [behind, htoken, herror, Option.toList_none, List.append_nil]

/-- A segment without line feeds ends on its line. -/
theorem endLine_of_newlines {s : Segment} (h : Text.newlines s.text = 0) :
    s.endLine line = line := by
  rw [Segment.endLine, h]
  omega

/-- A blank other than a line feed is passed over. -/
theorem behind_blank (hb : b ≠ Text.lineFeed) :
    behind start line tokens errors (.blank b) = ⟨start, start + 1, line, tokens, errors⟩ := by
  have hline : (Segment.blank b).endLine line = line :=
    endLine_of_newlines line (newlines_eq_zero (List.forall_mem_singleton.mpr hb))
  rw [behind_of_none line tokens errors rfl rfl, hline]
  rfl

/-- A slash is a sign unless a second one makes it a comment. -/
theorem runAt_slash (h : source.drop start = 0x2F :: rest) :
    runAt (do if ← accept source 0x2F then comment source else emit source (.sign .slash) none)
        ⟨start, start + 1, line, tokens, errors⟩ =
      some (.ok (), behind start line tokens errors (Segment.first 0x2F rest)) := by
  by_cases hslash : ∃ more, rest = 0x2F :: more
  · obtain ⟨more, rfl⟩ := hslash
    have hfirst : Segment.first 0x2F (0x2F :: more) =
        .comment (more.takeWhile (· != Text.lineFeed)) := rfl
    have hline : Text.newlines (more.takeWhile (· != Text.lineFeed)) = 0 :=
      newlines_takeWhile (by decide) more
    have hend : (Segment.comment (more.takeWhile (· != Text.lineFeed))).endLine line = line := by
      refine endLine_of_newlines line ?_
      rw [Segment.text, Text.newlines_append, hline]
      rfl
    have hlength : start + (Segment.comment (more.takeWhile (· != Text.lineFeed))).text.length =
        start + 1 + 1 + (more.takeWhile (· != Text.lineFeed)).length := by
      have hslashes : (utf8 "//").length = 2 := rfl
      rw [Segment.text, List.length_append, hslashes]
      omega
    rw [runAt_bind_ok (runAt_accept line tokens errors (drop_succ h)), hfirst,
      behind_of_none line tokens errors rfl rfl, hend, hlength]
    exact runAt_comment line tokens errors (drop_succ (drop_succ h))
  · have hne : rest.head? ≠ some 0x2F := fun heq => hslash (List.head?_eq_some_iff.mp heq)
    have hfirst : Segment.first 0x2F rest = .sign .slash := by
      simp only [Segment.first]
      split
      · next more => exact absurd ⟨more, rfl⟩ hslash
      · rfl
    rw [runAt_bind_ok (runAt_accept_of_ne line tokens errors (drop_succ h) hne), hfirst]
    exact runAt_sign_byte line tokens errors h rfl

/-- A segment is scanned to its end, and its token or its error is added. -/
theorem runAt_segment (h : source.drop start = b :: rest) :
    (segment source).runAt ⟨start, start, line, tokens, errors⟩ =
      some (.ok (), behind start line tokens errors (Segment.first b rest)) := by
  rw [segment, runAt_bind_ok (runAt_advance line tokens errors h)]
  split
  · rw [show Segment.first 0x20 rest = .blank 0x20 from rfl,
      behind_blank line tokens errors (by decide)]
    rfl
  · rw [show Segment.first 0x09 rest = .blank 0x09 from rfl,
      behind_blank line tokens errors (by decide)]
    rfl
  · rw [show Segment.first 0x0D rest = .blank 0x0D from rfl,
      behind_blank line tokens errors (by decide)]
    rfl
  · rw [show Segment.first 0x0A rest = .blank 0x0A from rfl,
      behind_of_none line tokens errors rfl rfl]
    rfl
  · exact runAt_sign_byte line tokens errors h rfl
  · exact runAt_sign_byte line tokens errors h rfl
  · exact runAt_sign_byte line tokens errors h rfl
  · exact runAt_sign_byte line tokens errors h rfl
  · exact runAt_sign_byte line tokens errors h rfl
  · exact runAt_sign_byte line tokens errors h rfl
  · exact runAt_sign_byte line tokens errors h rfl
  · exact runAt_sign_byte line tokens errors h rfl
  · exact runAt_sign_byte line tokens errors h rfl
  · exact runAt_sign_byte line tokens errors h rfl
  · exact runAt_slash line tokens errors h
  · exact runAt_signOrEqual line tokens errors h rfl rfl
  · exact runAt_signOrEqual line tokens errors h rfl rfl
  · exact runAt_signOrEqual line tokens errors h rfl rfl
  · exact runAt_signOrEqual line tokens errors h rfl rfl
  · exact runAt_string line tokens errors h
  · have hfirst : Segment.first b rest =
        if Text.isDigit b then Segment.numeral b rest
        else if Text.isLetter b then Segment.name b rest
        else .unexpected (Rune.first b rest) := by
      rw [Segment.first] <;> assumption
    have hb : b ≠ Text.lineFeed := by assumption
    rw [hfirst]
    split
    · next hdigit => exact runAt_number line tokens errors h hdigit
    · split
      · exact runAt_name line tokens errors h hb
      · exact runAt_unexpected line tokens errors h hb _

end Segments

section Source

/-- A segment moves on the tokens of the segments from it on. -/
theorem toList_append_filterMap {α : Type} (f : Int → Segment → Option α) (line : Int)
    (s : Segment) (rest : List Segment) (found : List α) :
    found ++ (f (s.endLine line) s).toList ++
        (Segment.numbered (s.endLine line) rest).filterMap (fun s => f s.1 s.2) =
      found ++ (Segment.numbered line (s :: rest)).filterMap (fun s => f s.1 s.2) := by
  rw [Segment.numbered, List.filterMap_cons]
  cases f (s.endLine line) s with
  | none => rw [Option.toList_none, List.append_nil]
  | some v => rw [Option.toList_some, List.append_assoc, List.singleton_append]

/-- Scanning from a position adds the tokens and the errors of the segments from there on, on the
lines on which they end. -/
theorem runAt_segments {source rest : Text} {p : Nat} (h : source.drop p = rest) (start : Nat)
    (line : Int) (tokens : List Token) (errors : List LexicalError) :
    ∃ start' p', (segments source).runAt ⟨start, p, line, tokens, errors⟩ =
      some (.ok (), ⟨start', p', line + (Text.newlines rest : Nat),
        tokens ++ (Segment.numbered line (Segment.split rest)).filterMap fun s => s.2.token? s.1,
        errors ++ (Segment.numbered line (Segment.split rest)).filterMap fun s =>
          s.2.error? s.1⟩) := by
  induction hn : rest.length using Nat.strongRecOn generalizing rest p start line tokens errors with
  | ind n ih =>
    rw [segments.eq_def, runAt_bind_ok (runAt_isAtEnd line tokens errors h)]
    cases rest with
    | nil =>
      refine ⟨start, p, ?_⟩
      simp only [decide_true, if_true, Text.newlines, List.count_nil, Int.natCast_zero,
        Int.add_zero, Segment.split, Segment.splitFrom, Segment.numbered, List.filterMap_nil,
        List.append_nil]
      rfl
    | cons b rest =>
      obtain ⟨more, hmore, hlt⟩ := Segment.exists_rest b rest
      have hnext : source.drop (p + (Segment.first b rest).text.length) = more := by
        rw [← List.drop_drop, h, hmore, List.drop_left]
      have hsplit : Segment.split (b :: rest) = Segment.first b rest :: Segment.split more := by
        have hleads := Segment.leads_first b rest
        rw [hmore] at hleads ⊢
        exact Segment.split_of_leads hleads
      have hnewlines : (Segment.first b rest).endLine line + (Text.newlines more : Nat) =
          line + (Text.newlines (b :: rest) : Nat) := by
        rw [Segment.endLine, hmore, Text.newlines_append]
        omega
      obtain ⟨start', p', hrun⟩ := ih more.length (hn ▸ hlt) hnext p
        ((Segment.first b rest).endLine line) _ _ rfl
      have hmodify : runAt (modify fun c => { c with start := c.current } : Scanning Unit)
          ⟨start, p, line, tokens, errors⟩ = some (.ok (), ⟨p, p, line, tokens, errors⟩) := rfl
      refine ⟨start', p', ?_⟩
      simp only [reduceCtorEq, decide_false, Bool.false_eq_true, if_false]
      rw [runAt_bind_ok hmodify, runAt_bind_ok (runAt_segment line tokens errors h), hsplit,
        ← toList_append_filterMap (fun line s => s.token? line),
        ← toList_append_filterMap (fun line s => s.error? line), ← hnewlines]
      exact hrun

/-- Scanning with a cursor ends on every source, never looks outside of it, and gives its tokens
or all its errors. -/
theorem scan_eq (source : Text) : Scanning.scan source = some (.ok (Lox.scan source)) := by
  obtain ⟨start, p, hrun⟩ := runAt_segments (List.drop_zero : source.drop 0 = source) 0 1 [] []
  rw [Scanning.scan, hrun]
  rfl

end Source

end Lox.Scanning
