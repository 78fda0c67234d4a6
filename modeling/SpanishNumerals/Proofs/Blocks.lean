-- The blocks of a text: what stands between its blanks. To squeeze a text is to make one space
-- of each row of blanks; nothing that a Spanish pattern looks at is lost by it. Texts with the
-- same blocks are the same when they are squeezed.
import SpanishNumerals.Proofs.Captures
import SpanishNumerals.Proofs.FigureNumbers

namespace SpanishNumerals

theorem isBlank_space : isBlank ' ' = true := by decide

/-! ## Squeezing -/

/-- A character put before a squeezed text. -/
def squeezeCons (c : Char) (text : Text) : Text :=
  if isBlank c then (if text.head?.all isBlank then text else ' ' :: text) else c :: text

/-- The text with one space for each row of blanks, and with none at its far end. -/
def squeeze (text : Text) : Text := text.foldr squeezeCons []

theorem squeeze_cons (c : Char) (text : Text) :
    squeeze (c :: text) = squeezeCons c (squeeze text) := rfl

theorem squeeze_cons_of_not_blank {c : Char} (h : isBlank c = false) (text : Text) :
    squeeze (c :: text) = c :: squeeze text := by
  simp [squeeze_cons, squeezeCons, h]

theorem squeezeCons_of_blank {c : Char} (h : isBlank c = true) (text : Text) :
    squeezeCons c text = squeezeCons ' ' text := by
  simp only [squeezeCons, h, isBlank_space, if_true]

/-- What a blank leaves at the front is a blank or nothing. -/
theorem head?_squeezeCons_of_blank {c : Char} (h : isBlank c = true) (text : Text) :
    (squeezeCons c text).head?.all isBlank = true := by
  rw [squeezeCons, if_pos h]
  split
  · assumption
  · exact isBlank_space

/-- Another blank changes nothing. -/
theorem squeezeCons_squeezeCons {c d : Char} (hc : isBlank c = true) (hd : isBlank d = true)
    (text : Text) : squeezeCons c (squeezeCons d text) = squeezeCons d text := by
  rw [squeezeCons, if_pos hc, if_pos (head?_squeezeCons_of_blank hd text)]

theorem squeeze_append_of_not_blank {read : Text} (h : ∀ c ∈ read, isBlank c = false)
    (rest : Text) : squeeze (read ++ rest) = read ++ squeeze rest := by
  induction read with
  | nil => rfl
  | cons c read ih =>
    rw [List.cons_append, squeeze_cons_of_not_blank (h c List.mem_cons_self),
      ih fun d hd => h d (List.mem_cons_of_mem c hd), List.cons_append]

/-- A row of blanks counts as one space. -/
theorem squeeze_blanks_append {blanks : Text} (hne : blanks ≠ [])
    (h : ∀ c ∈ blanks, isBlank c = true) (rest : Text) :
    squeeze (blanks ++ rest) = squeezeCons ' ' (squeeze rest) := by
  induction blanks with
  | nil => exact absurd rfl hne
  | cons c blanks ih =>
    have hc := h c List.mem_cons_self
    rw [List.cons_append, squeeze_cons]
    cases blanks with
    | nil => exact squeezeCons_of_blank hc _
    | cons d blanks =>
      rw [ih (List.cons_ne_nil d blanks) fun e he => h e (List.mem_cons_of_mem c he),
        squeezeCons_squeezeCons hc isBlank_space]

theorem squeeze_blanks {blanks : Text} (h : ∀ c ∈ blanks, isBlank c = true) :
    squeeze blanks = [] := by
  cases blanks with
  | nil => rfl
  | cons c blanks =>
    have hrow := squeeze_blanks_append (List.cons_ne_nil c blanks) h []
    rw [List.append_nil] at hrow
    rw [hrow]
    simp [squeezeCons, squeeze, isBlank_space]

/-- Squeezing keeps the first character, unless it is a blank. -/
theorem head?_squeeze (text : Text) :
    (∃ c, isBlank c = false ∧ text.head? = some c ∧ (squeeze text).head? = some c) ∨
      text.head?.all isBlank = true ∧ (squeeze text).head?.all isBlank = true := by
  cases text with
  | nil => exact Or.inr ⟨rfl, rfl⟩
  | cons c text =>
    cases hc : isBlank c with
    | false => exact Or.inl ⟨c, hc, rfl, by rw [squeeze_cons_of_not_blank hc]; rfl⟩
    | true => exact Or.inr ⟨hc, head?_squeezeCons_of_blank hc _⟩

theorem blank_head?_squeeze (text : Text) :
    (squeeze text).head?.all isBlank = text.head?.all isBlank := by
  rcases head?_squeeze text with ⟨c, _, htext, hsqueeze⟩ | ⟨htext, hsqueeze⟩
  · rw [htext, hsqueeze]
  · rw [htext, hsqueeze]

/-- Characters that are no blanks and begin the squeezed text begin the text. -/
theorem exists_of_squeeze_eq_append {text read rest : Text}
    (hread : ∀ c ∈ read, isBlank c = false) (h : squeeze text = read ++ rest) :
    ∃ back, text = read ++ back ∧ squeeze back = rest := by
  induction read generalizing text with
  | nil => exact ⟨text, rfl, h⟩
  | cons c read ih =>
    have hc := hread c List.mem_cons_self
    rcases head?_squeeze text with ⟨d, hd, htext, hsqueeze⟩ | ⟨_, hblank⟩
    · obtain ⟨text, rfl⟩ := List.head?_eq_some_iff.mp htext
      rw [squeeze_cons_of_not_blank hd, List.cons_append] at h
      obtain ⟨rfl, hrest⟩ := List.cons.inj h
      obtain ⟨back, rfl, hback⟩ := ih (fun e he => hread e (List.mem_cons_of_mem d he)) hrest
      exact ⟨back, rfl, hback⟩
    · rw [h, List.cons_append, List.head?_cons, Option.all_some, hc] at hblank
      exact absurd hblank (by decide)

/-! ## What the patterns see -/

theorem isBoundary_of_blank_right (before : Option Char) {next : Option Char}
    (h : next.all isBlank = true) : isBoundary before next = true := by
  cases next with
  | none => exact isBoundary_none_right before
  | some c =>
    cases before with
    | none => rfl
    | some b => exact separates_of_isBlank_right b h

theorem isBoundary_of_blank_left {before : Option Char} (next : Option Char)
    (h : before.all isBlank = true) : isBoundary before next = true := by
  cases before with
  | none => exact isBoundary_none_left next
  | some c =>
    cases next with
    | none => rfl
    | some d => exact separates_of_isBlank_left d h

theorem isBoundary_squeeze_right (before : Option Char) (text : Text) :
    isBoundary before (squeeze text).head? = isBoundary before text.head? := by
  rcases head?_squeeze text with ⟨c, _, htext, hsqueeze⟩ | ⟨htext, hsqueeze⟩
  · rw [htext, hsqueeze]
  · rw [isBoundary_of_blank_right before htext, isBoundary_of_blank_right before hsqueeze]

theorem isBoundary_squeeze_left (text : Text) (next : Option Char) :
    isBoundary (squeeze text).head? next = isBoundary text.head? next := by
  rcases head?_squeeze text with ⟨c, _, htext, hsqueeze⟩ | ⟨htext, hsqueeze⟩
  · rw [htext, hsqueeze]
  · rw [isBoundary_of_blank_left next htext, isBoundary_of_blank_left next hsqueeze]

/-- A blank is no letter, no digit and no sign. -/
theorem not_sign_of_isBlank {c : Char} (h : isBlank c = true) :
    c.isDigit = false ∧ isAlphabetic c = false ∧ isNumeric c = false ∧
      c ≠ '.' ∧ c ≠ ',' ∧ c ≠ '_' :=
  forall_inRanges (P := fun c => c.isDigit = false ∧ isAlphabetic c = false ∧
    isNumeric c = false ∧ c ≠ '.' ∧ c ≠ ',' ∧ c ≠ '_') (by decide +kernel) h

theorem noFigureFollows_of_blank {rest : Text} (h : rest.head?.all isBlank = true) :
    noFigureFollows rest = true := by
  cases rest with
  | nil => rfl
  | cons c rest => simp [noFigureFollows, (not_sign_of_isBlank h).1]

theorem noFigureFollows_squeeze (rest : Text) :
    noFigureFollows (squeeze rest) = noFigureFollows rest := by
  rcases head?_squeeze rest with ⟨c, hc, hrest, _⟩ | ⟨hrest, hsqueeze⟩
  · obtain ⟨rest, rfl⟩ := List.head?_eq_some_iff.mp hrest
    rw [squeeze_cons_of_not_blank hc]
    rfl
  · rw [noFigureFollows_of_blank hrest, noFigureFollows_of_blank hsqueeze]

theorem noNumberFollows_cons (c : Char) (rest : Text) :
    noNumberFollows (c :: rest) =
      (!c.isDigit && !((c = '.' || c = ',') && !noFigureFollows rest)) := by
  cases rest with
  | nil => simp [noNumberFollows, noFigureFollows]
  | cons d rest => simp [noNumberFollows, noFigureFollows]

theorem noNumberFollows_of_blank {rest : Text} (h : rest.head?.all isBlank = true) :
    noNumberFollows rest = true := by
  cases rest with
  | nil => rfl
  | cons c rest =>
    obtain ⟨hdigit, _, _, hpoint, hcomma, _⟩ := not_sign_of_isBlank h
    simp [noNumberFollows_cons, hdigit, hpoint, hcomma]

theorem noNumberFollows_squeeze (rest : Text) :
    noNumberFollows (squeeze rest) = noNumberFollows rest := by
  rcases head?_squeeze rest with ⟨c, hc, hrest, _⟩ | ⟨hrest, hsqueeze⟩
  · obtain ⟨rest, rfl⟩ := List.head?_eq_some_iff.mp hrest
    rw [squeeze_cons_of_not_blank hc, noNumberFollows_cons, noNumberFollows_cons,
      noFigureFollows_squeeze]
  · rw [noNumberFollows_of_blank hrest, noNumberFollows_of_blank hsqueeze]

theorem noWordFollows_of_blank {rest : Text} (h : rest.head?.all isBlank = true) :
    noWordFollows rest = true := by
  cases rest with
  | nil => rfl
  | cons c rest =>
    obtain ⟨_, hletter, hnumeric, _, _, hline⟩ := not_sign_of_isBlank h
    simp [noWordFollows, hletter, hnumeric, hline]

theorem noWordFollows_squeeze (rest : Text) :
    noWordFollows (squeeze rest) = noWordFollows rest := by
  rcases head?_squeeze rest with ⟨c, hc, hrest, _⟩ | ⟨hrest, hsqueeze⟩
  · obtain ⟨rest, rfl⟩ := List.head?_eq_some_iff.mp hrest
    rw [squeeze_cons_of_not_blank hc]
    rfl
  · rw [noWordFollows_of_blank hrest, noWordFollows_of_blank hsqueeze]

/-- A word of letters or a hyphen begins no text that begins with a blank. -/
theorem beginsWith_of_blank {k : Char} {key text : Text} (hk : k ∈ '-' :: spellingLetters)
    (h : text.head?.all isBlank = true) : beginsWith sameFold (k :: key) text = false := by
  cases text with
  | nil => rfl
  | cons c text => rw [beginsWith, sameFold_blank hk h, Bool.false_and]

theorem beginsWith_squeeze {key : Text} (hkey : ∀ k ∈ key, k ∈ '-' :: spellingLetters)
    (text : Text) : beginsWith sameFold key (squeeze text) = beginsWith sameFold key text := by
  induction key generalizing text with
  | nil => rfl
  | cons k key ih =>
    rcases head?_squeeze text with ⟨c, hc, htext, _⟩ | ⟨htext, hsqueeze⟩
    · obtain ⟨text, rfl⟩ := List.head?_eq_some_iff.mp htext
      rw [squeeze_cons_of_not_blank hc, beginsWith, beginsWith,
        ih fun l hl => hkey l (List.mem_cons_of_mem k hl)]
    · have hk := hkey k List.mem_cons_self
      rw [beginsWith_of_blank hk htext, beginsWith_of_blank hk hsqueeze]

theorem letters_of_mem_spokenWords {key : Text} (h : key ∈ spokenWords) :
    ∀ k ∈ key, k ∈ '-' :: spellingLetters := by
  obtain ⟨_, _, rfl | hletters⟩ := spoken_letters key h
  · simp
  · exact fun k hk => List.mem_cons_of_mem _ (hletters k hk)

section Patterns

variable {pattern : Pattern} {capture : Capture} {rest : Text}
  (hpattern : pattern ∈ patternsOf spanishRules)

include hpattern

/-- No blank is read. -/
theorem not_blank_of_reads (h : pattern.Reads capture rest) :
    ∀ c ∈ capture.text, isBlank c = false := by
  intro c hc
  rcases (spanishRead_of_reads hpattern h).signs_or_letters with hsigns | hhyphen | hletters
  · rw [Bool.eq_false_iff]
    intro hblank
    obtain ⟨hdigit, _, _, hpoint, hcomma, _⟩ := not_sign_of_isBlank hblank
    have hsign := hsigns c hc
    simp [isFigureSign, hdigit, hpoint, hcomma] at hsign
  · rw [hhyphen, List.mem_singleton] at hc
    rw [hc]
    decide
  · exact isBlank_eq_false (by rw [hletters c hc]; decide)

/-- A pattern reads the same before a text and before the squeezed text. -/
theorem reads_squeeze_iff :
    pattern.Reads capture (squeeze rest) ↔ pattern.Reads capture rest := by
  rcases patternsOf_spanishRules hpattern with hplain | hpointed | ⟨keys, hkeys, hextent, hfollow⟩ | rfl
  · simp only [plainPatterns, List.mem_cons, List.not_mem_nil, or_false] at hplain
    rcases hplain with rfl | rfl | rfl
    · rw [reads_integer_iff, reads_integer_iff, noFigureFollows_squeeze]
    · rw [reads_groupedDecimal_iff, reads_groupedDecimal_iff, noFigureFollows_squeeze]
    · rw [reads_decimal_iff, reads_decimal_iff, noFigureFollows_squeeze]
  · simp only [pointedPatterns, List.mem_cons, List.not_mem_nil, or_false] at hpointed
    rcases hpointed with rfl | rfl
    · rw [reads_groupedInteger_iff, reads_groupedInteger_iff, noNumberFollows_squeeze]
    · rw [reads_pointDecimal_iff, reads_pointDecimal_iff, noNumberFollows_squeeze]
  · have hsame : (∀ c ∈ capture.text, isBlank c = false) → ∀ key ∈ keys,
        beginsWith sameFold key (capture.text ++ squeeze rest) =
          beginsWith sameFold key (capture.text ++ rest) := by
      intro hread key hkey
      rw [← squeeze_append_of_not_blank hread,
        beginsWith_squeeze (letters_of_mem_spokenWords (hkeys hkey))]
    have hfind : (∀ c ∈ capture.text, isBlank c = false) →
        (pattern.Reads capture (squeeze rest) ↔ pattern.Reads capture rest) := by
      intro hread
      rw [reads_caseless_iff hextent hfollow, reads_caseless_iff hextent hfollow,
        List.find?_congr (hsame hread)]
    constructor
    · exact fun h => (hfind (not_blank_of_reads hpattern h)).mp h
    · exact fun h => (hfind (not_blank_of_reads hpattern h)).mpr h
  · rw [reads_suffix_iff, reads_suffix_iff, noWordFollows_squeeze]

end Patterns

/-! ## Blocks -/

/-- A row of characters without a blank, as long as it can be. -/
structure Block where
  /-- The byte position where it begins. -/
  start : Nat
  /-- Its characters. -/
  text : Text
deriving DecidableEq

/-- The characters up to the first blank. -/
def untilBlank (text : Text) : Text := text.takeWhile fun c => !isBlank c

/-- What is left from the first blank on. -/
def fromBlank (text : Text) : Text := text.dropWhile fun c => !isBlank c

/-- The blocks that begin from `⟨behind, ahead⟩` on: each at a character that is no blank, at the
beginning of the text or behind a blank. -/
def blocksFrom (behind : Text) : Text → List Block
  | [] => []
  | c :: ahead =>
    if !isBlank c && behind.head?.all isBlank then
      ⟨byteLength behind, untilBlank (c :: ahead)⟩ :: blocksFrom (c :: behind) ahead
    else blocksFrom (c :: behind) ahead

/-- The blocks of a text, in order. -/
def blocks (text : Text) : List Block := blocksFrom [] text

theorem blocksFrom_cons (behind : Text) (c : Char) (ahead : Text) :
    blocksFrom behind (c :: ahead) =
      if !isBlank c && behind.head?.all isBlank then
        ⟨byteLength behind, untilBlank (c :: ahead)⟩ :: blocksFrom (c :: behind) ahead
      else blocksFrom (c :: behind) ahead := rfl

/-- How many blocks begin in what lies behind, nearest first. -/
def blocksBegun : Text → Nat
  | [] => 0
  | c :: further =>
    (if !isBlank c && further.head?.all isBlank then 1 else 0) + blocksBegun further

theorem untilBlank_append_fromBlank (text : Text) : untilBlank text ++ fromBlank text = text :=
  List.takeWhile_append_dropWhile

theorem not_blank_of_mem_untilBlank {text : Text} {c : Char} (h : c ∈ untilBlank text) :
    isBlank c = false := by
  simpa using List.mem_takeWhile_imp h

theorem blank_head?_fromBlank (text : Text) : (fromBlank text).head?.all isBlank = true := by
  unfold fromBlank
  induction text with
  | nil => rfl
  | cons c text ih =>
    cases hc : isBlank c with
    | false => simpa [hc] using ih
    | true => simp [hc]

theorem untilBlank_append {read : Text} (h : ∀ c ∈ read, isBlank c = false) (rest : Text) :
    untilBlank (read ++ rest) = read ++ untilBlank rest :=
  List.takeWhile_append_of_pos (by simpa using h)

theorem fromBlank_append {read : Text} (h : ∀ c ∈ read, isBlank c = false) (rest : Text) :
    fromBlank (read ++ rest) = fromBlank rest :=
  List.dropWhile_append_of_pos (by simpa using h)

theorem untilBlank_of_blank {text : Text} (h : text.head?.all isBlank = true) :
    untilBlank text = [] := by
  cases text with
  | nil => rfl
  | cons c text =>
    have hc : isBlank c = true := h
    simp [untilBlank, hc]

theorem fromBlank_of_blank {text : Text} (h : text.head?.all isBlank = true) :
    fromBlank text = text := by
  have := untilBlank_append_fromBlank text
  rwa [untilBlank_of_blank h] at this

/-! ### Blocks and squeezing -/

/-- Squeezing changes nothing up to the first blank. -/
theorem squeeze_eq_append (text : Text) :
    squeeze text = untilBlank text ++ squeeze (fromBlank text) := by
  rw [← squeeze_append_of_not_blank fun _ => not_blank_of_mem_untilBlank,
    untilBlank_append_fromBlank]

theorem untilBlank_squeeze (text : Text) : untilBlank (squeeze text) = untilBlank text := by
  rw [squeeze_eq_append, untilBlank_append fun _ => not_blank_of_mem_untilBlank,
    untilBlank_of_blank ((blank_head?_squeeze _).trans (blank_head?_fromBlank text)),
    List.append_nil]

theorem fromBlank_squeeze (text : Text) : fromBlank (squeeze text) = squeeze (fromBlank text) := by
  rw [squeeze_eq_append, fromBlank_append fun _ => not_blank_of_mem_untilBlank,
    fromBlank_of_blank ((blank_head?_squeeze _).trans (blank_head?_fromBlank text))]

theorem blocksBegun_squeeze (behind : Text) : blocksBegun (squeeze behind) = blocksBegun behind := by
  induction behind with
  | nil => rfl
  | cons c further ih =>
    cases hc : isBlank c with
    | false =>
      rw [squeeze_cons_of_not_blank hc, blocksBegun, blocksBegun, blank_head?_squeeze, ih]
    | true =>
      rw [squeeze_cons, squeezeCons, if_pos hc, blocksBegun, hc]
      split
      · simp [ih]
      · simp [blocksBegun, isBlank_space, ih]

/-- The blocks begin within a text and go on from the place reached. -/
theorem exists_blocks_eq_append (here : Cursor) :
    ∃ front, blocks here.text = front ++ blocksFrom here.behind here.ahead ∧
      front.length = blocksBegun here.behind := by
  obtain ⟨behind, ahead⟩ := here
  induction behind generalizing ahead with
  | nil => exact ⟨[], rfl, rfl⟩
  | cons c further ih =>
    obtain ⟨front, hfront, hlength⟩ := ih (c :: ahead)
    have htext : (Cursor.mk (c :: further) ahead).text = (Cursor.mk further (c :: ahead)).text := by
      simp [Cursor.text]
    rw [htext, hfront]
    dsimp only
    rw [blocksFrom_cons, blocksBegun]
    split
    · exact ⟨front ++ [⟨byteLength further, untilBlank (c :: ahead)⟩], by simp,
        by simp [hlength, Nat.add_comm]⟩
    · exact ⟨front, rfl, by simpa using hlength⟩

/-- The block around a place that touches one: how many begin before it, where it begins, and
its characters on both sides of the place. -/
theorem block_around {here : Cursor}
    (h : here.ahead.head?.all isBlank = false ∨ here.behind.head?.all isBlank = false) :
    (blocks here.text)[blocksBegun (fromBlank here.behind)]? =
        some ⟨byteLength (fromBlank here.behind),
          (untilBlank here.behind).reverse ++ untilBlank here.ahead⟩ ∧
      here.pos = byteLength (fromBlank here.behind) + byteLength (untilBlank here.behind) := by
  obtain ⟨behind, ahead⟩ := here
  dsimp only at h ⊢
  have hbehind := untilBlank_append_fromBlank behind
  have hinner : ∀ c ∈ (untilBlank behind).reverse, isBlank c = false :=
    fun c hc => not_blank_of_mem_untilBlank (List.mem_reverse.mp hc)
  refine ⟨?_, ?_⟩
  · -- The block begins at the place before which the first blank behind stands.
    obtain ⟨front, hblocks, hlength⟩ := exists_blocks_eq_append
      ⟨fromBlank behind, (untilBlank behind).reverse ++ ahead⟩
    have htext : (Cursor.mk (fromBlank behind) ((untilBlank behind).reverse ++ ahead)).text =
        (Cursor.mk behind ahead).text := by
      conv_rhs => rw [Cursor.text, ← hbehind]
      simp [Cursor.text]
    rw [htext] at hblocks
    dsimp only at hblocks hlength
    obtain ⟨c, rest, hnext, hc⟩ : ∃ c rest, (untilBlank behind).reverse ++ ahead = c :: rest ∧
        isBlank c = false := by
      rcases hrow : (untilBlank behind).reverse with _ | ⟨c, row⟩
      · rw [List.reverse_eq_nil_iff] at hrow
        rw [hrow, List.nil_append] at hbehind
        rw [← hbehind, blank_head?_fromBlank] at h
        cases ahead with
        | nil => simp at h
        | cons c rest => exact ⟨c, rest, rfl, by simpa using h⟩
      · exact ⟨c, row ++ ahead, rfl, hinner c (hrow ▸ List.mem_cons_self)⟩
    have huntil : untilBlank (c :: rest) = (untilBlank behind).reverse ++ untilBlank ahead := by
      rw [← hnext, untilBlank_append hinner]
    rw [hblocks, ← hlength, hnext, List.getElem?_append_right (Nat.le_refl _), Nat.sub_self,
      blocksFrom, hc, blank_head?_fromBlank, huntil]
    rfl
  · have hlength := congrArg byteLength hbehind
    rw [byteLength_append] at hlength
    rw [Cursor.pos, ← hlength, Nat.add_comm]

theorem flatMap_blocksFrom (behind ahead : Text) :
    (blocksFrom behind ahead).flatMap (fun block => ' ' :: block.text) =
      if behind.head?.all isBlank then squeezeCons ' ' (squeeze ahead)
      else squeeze (fromBlank ahead) := by
  induction ahead generalizing behind with
  | nil => simp [blocksFrom, squeeze, squeezeCons, fromBlank, isBlank_space]
  | cons c ahead ih =>
    cases hc : isBlank c with
    | true =>
      have hrest : (blocksFrom (c :: behind) ahead).flatMap (fun block => ' ' :: block.text) =
          squeezeCons ' ' (squeeze ahead) := by
        rw [ih, List.head?_cons, Option.all_some, if_pos hc]
      have hfrom : fromBlank (c :: ahead) = c :: ahead := fromBlank_of_blank hc
      rw [blocksFrom_cons, hc, hfrom, squeeze_cons, squeezeCons_of_blank hc,
        squeezeCons_squeezeCons isBlank_space isBlank_space, ite_self]
      exact hrest
    | false =>
      have hrest : (blocksFrom (c :: behind) ahead).flatMap (fun block => ' ' :: block.text) =
          squeeze (fromBlank ahead) := by
        rw [ih, List.head?_cons, Option.all_some, hc]
        rfl
      have huntil : untilBlank (c :: ahead) = c :: untilBlank ahead := by simp [untilBlank, hc]
      have hfrom : fromBlank (c :: ahead) = fromBlank ahead := by simp [fromBlank, hc]
      rw [blocksFrom_cons, hc, hfrom]
      cases hbehind : behind.head?.all isBlank with
      | false => exact hrest
      | true =>
        rw [squeeze_cons_of_not_blank hc, squeeze_eq_append ahead]
        simp [squeezeCons, isBlank_space, hc, huntil, hrest]

/-- Squeezed, a text is its blocks, each with a space before it, but perhaps for the first. -/
theorem squeezeCons_squeeze (text : Text) :
    squeezeCons ' ' (squeeze text) = (blocks text).flatMap fun block => ' ' :: block.text :=
  (flatMap_blocksFrom [] text).symm

end SpanishNumerals
