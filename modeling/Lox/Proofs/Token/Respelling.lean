import Lox.Proofs.Token.Seam
import Lox.Proofs.Tree.Produced

/-!
# Tokens survive being written out

Tokens that are written one after another, with gaps between them, are read back as they were. A
gap is made of blanks and of comments with the line feeds that end them, and it starts with a
blank: no text of a token goes on behind one, but for a string, which ends at its own quote.
So every token ends where its text does, whatever follows, and only its line says where it stands.
-/

namespace Lox

/-- No letter and no digit is a blank. -/
theorem Segment.not_mem_blanks_of_isNamePart {c : UInt8} (h : isNamePart c = true) :
    c ∉ blanks := by
  intro hmem
  simp only [blanks, List.mem_cons, List.not_mem_nil, or_false] at hmem
  rcases hmem with rfl | rfl | rfl | rfl <;> cases h

/-- No byte of a sign is a blank. -/
theorem Segment.not_mem_blanks_of_mem_spelling {p : Punctuator} {c : UInt8}
    (h : c ∈ p.spelling) : c ∉ blanks := by
  have hsigns : ∀ p ∈ Punctuator.all, p.spelling.all (· ∉ blanks) = true := by decide
  exact of_decide_eq_true (List.all_eq_true.mp (hsigns p (Punctuator.mem_all p)) c h)

/-- No byte of a token is a blank unless the token is a string. -/
theorem Shape.not_mem_blanks_of_mem {b : UInt8} {t : Text} (h : Shape b t) (hquote : b ≠ 0x22) :
    ∀ c ∈ t, c ∉ Segment.blanks := by
  have hdigit {c : UInt8} (hc : Text.isDigit c = true) : c ∉ Segment.blanks :=
    Segment.not_mem_blanks_of_isNamePart (Bool.or_eq_true_iff.mpr (.inr hc))
  intro c hc
  cases h with
  | sign p hp =>
    exact Segment.not_mem_blanks_of_mem_spelling (hp ▸ List.mem_cons_of_mem b hc)
  | string => exact absurd rfl hquote
  | whole _ h => exact hdigit (h c hc)
  | decimal _ h _ h' =>
    rcases List.mem_append.mp hc with hc | hc
    · exact hdigit (h c hc)
    · rcases List.mem_cons.mp hc with rfl | hc
      · decide
      · exact hdigit (h' c hc)
  | name _ h => exact Segment.not_mem_blanks_of_isNamePart (h c hc)

/-- No token goes on behind another that a blank or the end of the source follows. -/
theorem Shape.length_le_of_blank {b : UInt8} {t t' rest : Text} (h : Shape b t)
    (h' : Shape b t') (hrest : ∀ c ∈ rest.head?, c ∈ Segment.blanks) (hstart : t' <+: t ++ rest) :
    t'.length ≤ t.length := by
  by_cases hquote : b = 0x22
  · -- A string ends at the first quote, so there is only one.
    subst hquote
    have hsame : t' = t :=
      (h'.eq_of_quote hstart).trans (h.eq_of_quote (List.prefix_append t rest)).symm
    exact Nat.le_of_eq (congrArg List.length hsame)
  · refine Nat.le_of_not_lt fun hlt => ?_
    obtain ⟨more, rfl⟩ := List.prefix_of_prefix_length_le (List.prefix_append t rest) hstart
      (Nat.le_of_lt hlt)
    have hmore : more <+: rest := (List.prefix_append_right_inj t).mp hstart
    cases more with
    | nil =>
      rw [List.append_nil] at hlt
      exact Nat.lt_irrefl _ hlt
    | cons c more =>
      obtain ⟨after, rfl⟩ := hmore
      refine h'.not_mem_blanks_of_mem hquote c ?_ (hrest c rfl)
      exact List.mem_append_right t List.mem_cons_self

/-- A token that a blank or the end of the source follows starts no comment. -/
theorem Shape.not_comment_of_blank {b : UInt8} {t rest : Text} (h : Shape b t)
    (hrest : ∀ c ∈ rest.head?, c ∈ Segment.blanks) : ¬ utf8 "//" <+: b :: (t ++ rest) := by
  intro hcomment
  have hslashes : b = 0x2F ∧ [0x2F] <+: t ++ rest := by
    obtain ⟨hb, hslash⟩ := List.cons_prefix_cons.mp hcomment
    exact ⟨hb.symm, hslash⟩
  obtain ⟨rfl, hslash⟩ := hslashes
  obtain ⟨p, hp⟩ := h.exists_sign (by decide) (by decide) (by decide)
  have ht : t = [] := by cases p <;> cases hp; rfl
  obtain ⟨after, hafter⟩ := hslash
  rw [ht, List.nil_append] at hafter
  exact absurd (hrest 0x2F (by rw [← hafter]; rfl)) (by decide)

namespace Segment

/-- The text of a token that a blank or the end of the source follows leads to that token. -/
theorem leads_token_of_blank {kind : Kind} {lexeme rest : Text} {literal : Option Value}
    (h : Pattern kind lexeme literal) (hrest : ∀ c ∈ rest.head?, c ∈ blanks) :
    Leads (lexeme ++ rest) (token kind lexeme literal) := by
  obtain ⟨b, t, rfl, hshape⟩ := h.shape
  exact leads_token h (hshape.not_comment_of_blank hrest) fun t' hshape' hstart =>
    hshape.length_le_of_blank hshape' hrest hstart

/-- Such a text is one segment. -/
theorem split_token_of_blank {kind : Kind} {lexeme rest : Text} {literal : Option Value}
    (h : Pattern kind lexeme literal) (hrest : ∀ c ∈ rest.head?, c ∈ blanks) :
    split (lexeme ++ rest) = token kind lexeme literal :: split rest :=
  split_of_leads (s := token kind lexeme literal) (leads_token_of_blank h hrest)

/-- A blank is one segment. -/
theorem split_blank {b : UInt8} (hb : b ∈ blanks) (rest : Text) :
    split (b :: rest) = blank b :: split rest :=
  split_of_leads (s := blank b) (leads_blank hb rest)

/-- A comment up to a line feed or the end is one segment. -/
theorem split_comment {body rest : Text} (hbody : ∀ b ∈ body, b ≠ Text.lineFeed)
    (hrest : ∀ b ∈ rest.head?, b = Text.lineFeed) :
    split (utf8 "//" ++ body ++ rest) = comment body :: split rest := by
  have hleads := leads_comment (body ++ rest)
  rw [comment_body_eq hbody hrest, ← List.append_assoc] at hleads
  exact split_of_leads (s := comment body) hleads

/-- Segments that are neither tokens nor errors. -/
inductive Idle : Segment → Prop
  | blank (b : UInt8) : Idle (.blank b)
  | comment (body : Text) : Idle (.comment body)

/-- No such segment is an error. -/
theorem Idle.not_bad {s : Segment} (h : s.Idle) : ¬ s.Bad := by
  cases h <;> exact nofun

/-- Such segments leave no tokens. -/
theorem filterMap_token?_of_idle {segments : List Segment} (h : ∀ s ∈ segments, s.Idle)
    (line : Int) : (numbered line segments).filterMap (fun s => s.2.token? s.1) = [] := by
  rw [List.filterMap_eq_nil_iff]
  rintro ⟨line', s⟩ hs
  have hmem := List.mem_map_of_mem (f := Prod.snd) hs
  rw [map_snd_numbered] at hmem
  cases h s hmem <;> rfl

end Segment

/-- What may stand between tokens: blanks, and comments each with the line feed that ends it. -/
inductive Filler : Text → Prop
  | nil : Filler []
  | blank {b : UInt8} {t : Text} (hb : b ∈ Segment.blanks) (h : Filler t) : Filler (b :: t)
  | comment {body t : Text} (hbody : ∀ b ∈ body, b ≠ Text.lineFeed) (h : Filler t) :
      Filler (utf8 "//" ++ body ++ Text.lineFeed :: t)

/-- What may stand behind the last token: a filler, or one with a comment up to the end. -/
inductive Closing : Text → Prop
  | filler {t : Text} (h : Filler t) : Closing t
  | comment {t body : Text} (h : Filler t) (hbody : ∀ b ∈ body, b ≠ Text.lineFeed) :
      Closing (t ++ (utf8 "//" ++ body))

/-- A filler before a source adds segments without tokens and without errors. -/
theorem Filler.exists_split {gap : Text} (h : Filler gap) (rest : Text) :
    ∃ segments : List Segment, (∀ s ∈ segments, s.Idle) ∧ segments.flatMap Segment.text = gap ∧
      Segment.split (gap ++ rest) = segments ++ Segment.split rest := by
  induction h with
  | nil => exact ⟨[], List.forall_mem_nil _, rfl, rfl⟩
  | @blank b t hb _ ih =>
    obtain ⟨segments, hidle, htext, hsplit⟩ := ih
    refine ⟨.blank b :: segments, List.forall_mem_cons.mpr ⟨.blank b, hidle⟩, ?_, ?_⟩
    · rw [List.flatMap_cons, htext]
      rfl
    · rw [List.cons_append, List.cons_append, Segment.split_blank hb, hsplit]
  | @comment body t hbody _ ih =>
    obtain ⟨segments, hidle, htext, hsplit⟩ := ih
    have hfeed : ∀ b ∈ (Text.lineFeed :: (t ++ rest)).head?, b = Text.lineFeed :=
      fun b hb => (Option.some.inj hb).symm
    refine ⟨.comment body :: .blank Text.lineFeed :: segments,
      List.forall_mem_cons.mpr ⟨.comment body, List.forall_mem_cons.mpr ⟨.blank _, hidle⟩⟩, ?_, ?_⟩
    · rw [List.flatMap_cons, List.flatMap_cons, htext]
      rfl
    · rw [List.append_assoc, List.cons_append, Segment.split_comment hbody hfeed,
        Segment.split_blank (by decide), hsplit, List.cons_append, List.cons_append]

/-- What stands behind the last token falls into segments without tokens and without errors. -/
theorem Closing.idle {tail : Text} (h : Closing tail) : ∀ s ∈ Segment.split tail, s.Idle := by
  cases h with
  | filler h =>
    obtain ⟨segments, hidle, -, hsplit⟩ := h.exists_split []
    have hnil : Segment.split [] = [] := rfl
    rw [List.append_nil, hnil, List.append_nil] at hsplit
    rwa [hsplit]
  | @comment t body h hbody =>
    obtain ⟨segments, hidle, -, hsplit⟩ := h.exists_split (utf8 "//" ++ body)
    have hcomment : Segment.split (utf8 "//" ++ body ++ []) = [.comment body] :=
      Segment.split_comment hbody nofun
    rw [List.append_nil] at hcomment
    rw [hsplit, hcomment]
    exact List.forall_mem_append.mpr ⟨hidle, List.forall_mem_singleton.mpr (.comment body)⟩

/-- The text of a token with the kind and the literal that it has. -/
structure Spelling where
  /-- What the token is. -/
  kind : Kind
  /-- The bytes of the token. -/
  lexeme : Text
  /-- The value that a string or a numeral denotes. -/
  literal : Option Value
  /-- The three fit together. -/
  pattern : Pattern kind lexeme literal

/-- A spelling as a token on a line. -/
def Spelling.token (s : Spelling) (line : Int) : Token := ⟨s.kind, s.lexeme, s.literal, line⟩

/-- A spelling with the gap before it. -/
structure Item where
  /-- What stands before the spelling. -/
  gap : Text
  /-- The token. -/
  spelling : Spelling
  /-- No token stands in the gap. -/
  filler : Filler gap

/-- An item as it is written. -/
def Item.text (item : Item) : Text := item.gap ++ item.spelling.lexeme

/-- Items on the lines on which they end, the first of them starting on a given line. -/
def Item.tokens (line : Int) (items : List Item) : List Token :=
  items.mapIdx fun i item =>
    item.spelling.token (line + (Text.newlines ((items.take (i + 1)).flatMap Item.text) : Nat))

/-- The first of several items stands where it ends, the others behind it. -/
theorem Item.tokens_cons (line : Int) (item : Item) (items : List Item) :
    Item.tokens line (item :: items) =
      item.spelling.token (line + (Text.newlines item.text : Nat)) ::
        Item.tokens (line + (Text.newlines item.text : Nat)) items := by
  have hfirst : Text.newlines (((item :: items).take (0 + 1)).flatMap Item.text) =
      Text.newlines item.text := by
    rw [List.take_succ_cons, List.take_zero, List.flatMap_singleton]
  have hrest (i : Nat) : line + (Text.newlines item.text : Nat) +
      (Text.newlines ((items.take (i + 1)).flatMap Item.text) : Nat) =
        line + (Text.newlines (((item :: items).take (i + 1 + 1)).flatMap Item.text) : Nat) := by
    rw [List.take_succ_cons, List.flatMap_cons, Text.newlines_append]
    omega
  simp only [Item.tokens, List.mapIdx_cons, hfirst, hrest]

/-- Items and what stands behind the last of them, with a blank at the start of all gaps but the
first. The last may also be empty. -/
structure Laid (items : List Item) (tail : Text) : Prop where
  /-- The gaps between items start with a blank. -/
  between : ∀ item ∈ items.tail, ∃ b ∈ item.gap.head?, b ∈ Segment.blanks
  /-- No token stands behind the last item. -/
  closing : Closing tail
  /-- What stands behind the last item starts with a blank unless it is empty. -/
  apart : items ≠ [] → ∀ b ∈ tail.head?, b ∈ Segment.blanks

namespace Laid

variable {item : Item} {items : List Item} {tail : Text}

/-- What is laid out stays so without its first item. -/
theorem of_cons (h : Laid (item :: items) tail) : Laid items tail where
  between i hi := h.between i (List.mem_of_mem_tail hi)
  closing := h.closing
  apart _ := h.apart (List.cons_ne_nil item items)

/-- Behind the first item stands a blank or nothing. -/
theorem blank_of_mem_head? (h : Laid (item :: items) tail) :
    ∀ b ∈ (items.flatMap Item.text ++ tail).head?, b ∈ Segment.blanks := by
  intro b hb
  cases items with
  | nil => exact h.apart (List.cons_ne_nil item []) b hb
  | cons next items =>
    obtain ⟨c, hc, hblank⟩ := h.between next List.mem_cons_self
    obtain ⟨gap, hgap⟩ := List.head?_eq_some_iff.mp hc
    rw [List.flatMap_cons, Item.text, hgap] at hb
    obtain rfl : c = b := Option.some.inj hb
    exact hblank

/-- The first item adds its token to the segments of what follows. -/
theorem exists_split (h : Laid (item :: items) tail) :
    ∃ segments : List Segment, (∀ s ∈ segments, s.Idle) ∧
      segments.flatMap Segment.text = item.gap ∧
      Segment.split ((item :: items).flatMap Item.text ++ tail) = segments ++
        .token item.spelling.kind item.spelling.lexeme item.spelling.literal ::
          Segment.split (items.flatMap Item.text ++ tail) := by
  obtain ⟨segments, hidle, htext, hsplit⟩ := item.filler.exists_split
    (item.spelling.lexeme ++ (items.flatMap Item.text ++ tail))
  refine ⟨segments, hidle, htext, ?_⟩
  rw [List.flatMap_cons, Item.text, List.append_assoc, List.append_assoc, hsplit,
    Segment.split_token_of_blank item.spelling.pattern h.blank_of_mem_head?]

/-- No segment of what is laid out is an error. -/
theorem not_bad (h : Laid items tail) :
    ∀ s ∈ Segment.split (items.flatMap Item.text ++ tail), ¬ s.Bad := by
  induction items with
  | nil => exact fun s hs => (h.closing.idle s hs).not_bad
  | cons item items ih =>
    obtain ⟨segments, hidle, -, hsplit⟩ := h.exists_split
    rw [hsplit]
    refine List.forall_mem_append.mpr ⟨fun s hs => (hidle s hs).not_bad, ?_⟩
    exact List.forall_mem_cons.mpr ⟨nofun, ih h.of_cons⟩

/-- The tokens of what is laid out are those of its items, each where it ends. -/
theorem filterMap_token? (h : Laid items tail) (line : Int) :
    (Segment.numbered line (Segment.split (items.flatMap Item.text ++ tail))).filterMap
      (fun s => s.2.token? s.1) = Item.tokens line items := by
  induction items generalizing line with
  | nil => exact Segment.filterMap_token?_of_idle h.closing.idle line
  | cons item items ih =>
    obtain ⟨segments, hidle, htext, hsplit⟩ := h.exists_split
    -- The gap moves the line on but adds no token.
    have hline : line + (Text.newlines item.gap : Nat) +
        (Text.newlines item.spelling.lexeme : Nat) = line + (Text.newlines item.text : Nat) := by
      rw [Item.text, Text.newlines_append]
      omega
    rw [hsplit, Segment.numbered_append, List.filterMap_append,
      Segment.filterMap_token?_of_idle hidle, List.nil_append, htext, Segment.numbered,
      Segment.endLine, Segment.text, hline, Item.tokens_cons, ← ih h.of_cons]
    rfl

/-- What is laid out is scanned into the tokens of its items. -/
theorem scan_eq (h : Laid items tail) :
    scan (items.flatMap Item.text ++ tail) =
      .ok (Item.tokens 1 items ++ [Token.eof (lastLine (items.flatMap Item.text ++ tail))]) := by
  refine scan_eq_ok_iff.mpr ⟨(Segment.lexicalErrors_eq_nil_iff _).mpr h.not_bad, ?_⟩
  rw [sourceTokens, numberedSegments, h.filterMap_token?]

end Laid

/-- A spelling alone is scanned into its token. -/
theorem Spelling.scan_eq (s : Spelling) :
    scan s.lexeme = .ok [s.token (lastLine s.lexeme), Token.eof (lastLine s.lexeme)] := by
  have hlaid : Laid [⟨[], s, .nil⟩] [] :=
    ⟨List.forall_mem_nil _, .filler .nil, fun _ => nofun⟩
  have hscan := hlaid.scan_eq
  have htext : Item.text ⟨[], s, .nil⟩ = s.lexeme := rfl
  rw [Item.tokens_cons, List.flatMap_singleton, List.append_nil, htext] at hscan
  exact hscan

/-- What a token is, wherever it stands: its kind, its bytes and its literal. -/
def Token.essence (t : Token) : Kind × Text × Option Value := (t.kind, t.lexeme, t.literal)

/-- A token that stands in a source, as a spelling. -/
def Token.Written.spelling {t : Token} (h : t.Written) : Spelling :=
  ⟨t.kind, t.lexeme, t.literal, h⟩

/-- A spelling behind a single space. -/
def Spelling.spaced (s : Spelling) : Item :=
  ⟨[0x20], s, .blank (by decide) .nil⟩

/-- Spellings with single spaces between them. -/
def Item.row : List Spelling → List Item
  | [] => []
  | s :: more => ⟨[], s, .nil⟩ :: more.map Spelling.spaced

/-- Single spaces between spellings are gaps. -/
theorem Item.laid_row (spellings : List Spelling) {tail : Text} (h : tail = [] ∨ tail = [0x20]) :
    Laid (row spellings) tail where
  between item hitem := by
    cases spellings with
    | nil => cases hitem
    | cons s more =>
      obtain ⟨s', -, rfl⟩ := List.mem_map.mp hitem
      exact ⟨0x20, rfl, by decide⟩
  closing := by
    rcases h with rfl | rfl
    · exact .filler .nil
    · exact .filler (.blank (by decide) .nil)
  apart _ b hb := by
    rcases h with rfl | rfl
    · cases hb
    · obtain rfl : 0x20 = b := Option.some.inj hb
      decide

/-- A row of spellings is written with single spaces between them. -/
theorem Item.text_row (spellings : List Spelling) :
    (row spellings).flatMap text = [0x20].intercalate (spellings.map Spelling.lexeme) := by
  cases spellings with
  | nil => rfl
  | cons s more =>
    induction more generalizing s with
    | nil =>
      simp only [row, List.map_nil, List.map_cons, List.flatMap_singleton,
        List.intercalate_singleton]
      rfl
    | cons s' more ih =>
      have hrest := ih s'
      simp only [row, List.flatMap_cons, List.map_cons] at hrest ⊢
      rw [List.intercalate_cons_cons, ← hrest]
      simp only [text, Spelling.spaced, List.nil_append, List.append_assoc]

/-- Items are the tokens that are spelled there, whatever their gaps. -/
theorem Item.essence_tokens (line : Int) (items : List Item) :
    (tokens line items).map Token.essence =
      items.map fun item => (item.spelling.token line).essence := by
  induction items generalizing line with
  | nil => rfl
  | cons item items ih =>
    rw [tokens_cons, List.map_cons, ih, List.map_cons]
    rfl

/-- The tokens of a row are its spellings. -/
theorem Item.essence_tokens_row (line : Int) (spellings : List Spelling) :
    (tokens line (row spellings)).map Token.essence =
      spellings.map fun s => (s.token line).essence := by
  rw [essence_tokens]
  cases spellings with
  | nil => rfl
  | cons s more =>
    rw [row, List.map_cons, List.map_cons, List.map_map]
    rfl

/-- Tokens of sources with single spaces between them are scanned into the same tokens. -/
theorem scan_spaced {tokens : List Token} (h : ∀ t ∈ tokens, t.Written) {tail : Text}
    (htail : tail = [] ∨ tail = [0x20]) :
    ∃ tokens', scan ([0x20].intercalate (tokens.map Token.lexeme) ++ tail) = .ok tokens' ∧
      tokens'.map Token.essence = tokens.map Token.essence ++ [(.eof, [], none)] := by
  let spellings := tokens.pmap (fun _ h => Token.Written.spelling h) h
  have hlexemes : spellings.map Spelling.lexeme = tokens.map Token.lexeme := by
    rw [List.map_pmap]
    exact List.pmap_eq_map h
  have hessence : spellings.map (fun s => (s.token 1).essence) = tokens.map Token.essence := by
    rw [List.map_pmap]
    exact List.pmap_eq_map (f := Token.essence) h
  have hscan := (Item.laid_row spellings htail).scan_eq
  rw [Item.text_row, hlexemes] at hscan
  refine ⟨_, hscan, ?_⟩
  rw [List.map_append, Item.essence_tokens_row, hessence]
  rfl

/-- Another space is written before an empty text at the end. -/
theorem exists_intercalate_concat (parts : List Text) :
    ∃ tail, (tail = [] ∨ tail = [0x20]) ∧
      [0x20].intercalate (parts ++ [[]]) = [0x20].intercalate parts ++ tail := by
  cases parts with
  | nil => exact ⟨[], .inl rfl, rfl⟩
  | cons part parts =>
    refine ⟨[0x20], .inr rfl, ?_⟩
    induction parts generalizing part with
    | nil => simp only [List.singleton_append, List.intercalate_cons_cons,
        List.intercalate_singleton, List.append_nil]
    | cons next parts ih =>
      have hrest := ih next
      simp only [List.cons_append, List.intercalate_cons_cons] at hrest ⊢
      rw [hrest, List.append_assoc, List.append_assoc, List.append_assoc]

/-- Every spelling alone is scanned into its token. Spellings that are written one after another,
with a blank at the start of each gap between them, are scanned into their tokens, each on the line
on which it ends, and an end token. So the tokens of a source, with or without the end token, are
scanned into the same tokens again when single spaces are written between them. -/
theorem tokens_survive_respelling :
    (∀ s : Spelling, scan s.lexeme =
      .ok [s.token (lastLine s.lexeme), Token.eof (lastLine s.lexeme)]) ∧
    (∀ (items : List Item) (tail : Text), Laid items tail →
      scan (items.flatMap Item.text ++ tail) = .ok (Item.tokens 1 items ++
        [Token.eof (lastLine (items.flatMap Item.text ++ tail))])) ∧
    ∀ (source : Text) (tokens : List Token), scan source = .ok tokens →
      ∀ kept ∈ [tokens, tokens.dropLast], ∃ tokens',
        scan ([0x20].intercalate (kept.map Token.lexeme)) = .ok tokens' ∧
          tokens'.map Token.essence = tokens.map Token.essence := by
  refine ⟨Spelling.scan_eq, fun items tail h => h.scan_eq, ?_⟩
  intro source tokens h kept hkept
  obtain ⟨-, rfl⟩ := scan_eq_ok_iff.mp h
  have hwritten : ∀ t ∈ sourceTokens source, t.Written := fun _ => written_of_mem_sourceTokens
  have hessence : (sourceTokens source ++ [Token.eof (lastLine source)]).map Token.essence =
      (sourceTokens source).map Token.essence ++ [(.eof, [], none)] := List.map_append
  rw [List.dropLast_concat] at hkept
  rw [hessence]
  simp only [List.mem_cons, List.not_mem_nil, or_false] at hkept
  rcases hkept with rfl | rfl
  · obtain ⟨tail, htail, hjoined⟩ :=
      exists_intercalate_concat ((sourceTokens source).map Token.lexeme)
    have hlexemes : (sourceTokens source ++ [Token.eof (lastLine source)]).map Token.lexeme =
        (sourceTokens source).map Token.lexeme ++ [[]] := List.map_append
    rw [hlexemes, hjoined]
    exact scan_spaced hwritten htail
  · have hscan := scan_spaced hwritten (.inl rfl)
    rwa [List.append_nil] at hscan

/-- A string over two lines, a comment with a quote in it and a name, with a comment at the end
that no line feed ends. Written with single spaces, the tokens are the same. -/
theorem tokens_survive_respelling_of_quotes :
    let tokens : List Token := [⟨.string, utf8 "\"a\nb\"", some (.string (utf8 "a\nb")), 2⟩,
      ⟨.identifier, utf8 "x", none, 3⟩, Token.eof 3]
    scan (utf8 "\"a\nb\" // \"\n\tx // end") = .ok tokens ∧
      ∃ tokens', scan (utf8 "\"a\nb\" x ") = .ok tokens' ∧
        tokens'.map Token.essence = tokens.map Token.essence := by
  intro tokens
  have hbytes {body : Text} {b : UInt8} (h : body.all (· != b) = true) : ∀ c ∈ body, c ≠ b :=
    fun c hc => bne_iff_ne.mp (List.all_eq_true.mp h c hc)
  have hbody : ∀ b ∈ utf8 "a\nb", b ≠ 0x22 := hbytes rfl
  have hstring : Pattern .string (utf8 "\"a\nb\"") (some (.string (utf8 "a\nb"))) := .string hbody
  have hname : Pattern .identifier (utf8 "x") none :=
    .identifier rfl nofun fun k => by cases k <;> decide
  have hgap : Filler (utf8 " " ++ (utf8 "//" ++ utf8 " \"" ++ utf8 "\n\t")) :=
    .blank (by decide) (.comment (hbytes rfl) (.blank (by decide) .nil))
  have hlaid : Laid [⟨[], ⟨_, _, _, hstring⟩, .nil⟩, ⟨_, ⟨_, _, _, hname⟩, hgap⟩]
      (utf8 " " ++ (utf8 "//" ++ utf8 " end")) :=
    ⟨List.forall_mem_singleton.mpr ⟨0x20, rfl, by decide⟩,
      .comment (.blank (by decide) .nil) (hbytes rfl),
      fun _ b hb => (Option.some.inj hb : 0x20 = b) ▸ by decide⟩
  obtain ⟨-, hscan, hagain⟩ := tokens_survive_respelling
  have hsource := hscan _ _ hlaid
  exact ⟨hsource, hagain _ _ hsource _ List.mem_cons_self⟩

end Lox
