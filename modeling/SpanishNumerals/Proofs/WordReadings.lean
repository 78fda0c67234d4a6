-- Rules on texts of words. A pattern that reads words as wholes takes a word or does not, in
-- whatever case it is written, and so a derivation over a text of words is a derivation over
-- its words: the two directions are the two halves of this module.
import SpanishNumerals.Proofs.WrittenWords

namespace SpanishNumerals

/-! ## Patterns and words -/

/-- The word in small letters. -/
def Word.key (word : Word) : Text := lowercase word.text

/-- The pattern takes a word in small letters when it reads all of it. -/
def Pattern.takes (pattern : Pattern) (key : Text) : Bool :=
  pattern.readBounded? (Cursor.start key) = some (⟨key, []⟩, ⟨key.reverse, []⟩)

/-- Where a text begins with one of some words, in whatever case, the pattern reads this word
if it takes it, and else nothing. -/
def Pattern.ReadsWords (keys : List Text) (pattern : Pattern) : Prop :=
  ∀ word rest : Text, lowercase word ∈ keys → (∀ c, rest.head? = some c → isBlank c = true) →
    pattern.readBounded? (Cursor.start (word ++ rest)) =
      if pattern.takes (lowercase word) = true then some (⟨word, []⟩, ⟨word.reverse, rest⟩)
      else none

theorem Pattern.ReadsWords.append {keys keys' : List Text} {pattern : Pattern}
    (h : pattern.ReadsWords keys) (h' : pattern.ReadsWords keys') :
    pattern.ReadsWords (keys ++ keys') := by
  intro word rest hmem hrest
  rcases List.mem_append.mp hmem with hmem | hmem
  · exact h word rest hmem hrest
  · exact h' word rest hmem hrest

/-- All the patterns of the rule read words. -/
def Rule.ReadsWords (keys : List Text) (rule : Rule) : Prop :=
  ∀ pattern, Element.text pattern ∈ rule.elements → pattern.ReadsWords keys

/-- None of the words can be cut through, and in small letters they are among `keys`. -/
structure Legible (keys : List Text) (words : List Word) : Prop where
  unbroken : Unbroken words
  known : ∀ word ∈ words, word.key ∈ keys

theorem readBounded?_placeOf {keys : List Text} {pattern : Pattern} {before after : List Word}
    {word : Word} (hpattern : pattern.ReadsWords keys)
    (h : Legible keys (before ++ word :: after)) :
    pattern.readBounded? (placeOf before word after) =
      if pattern.takes word.key = true then
        some (⟨word.text, []⟩, placeAfter (before ++ [word]) after)
      else none := by
  have hspaced := h.unbroken.spaced
  have hknown := h.known word (List.mem_append_right _ List.mem_cons_self)
  unfold placeOf
  rw [readBounded?_after (boundary_before_word hspaced _) pattern rfl,
    hpattern word.text (written after) hknown (blank_after_word hspaced), ← placeAfter_word]
  unfold Word.key
  split <;> rfl

/-- Nothing is read at the end of a text. -/
theorem readBounded?_at_end (pattern : Pattern) {here : Cursor} (h : here.ahead = []) :
    pattern.readBounded? here = none := by
  cases hread : pattern.readBounded? here with
  | none => rfl
  | some result =>
    obtain ⟨_, hread, _⟩ := Pattern.readBounded?_eq_some.mp hread
    obtain ⟨hne, happend, _⟩ := Pattern.read?_eq_some hread
    rw [h] at happend
    exact absurd (List.append_eq_nil_iff.mp happend).1 hne

/-! ## Rows of words -/

/-- The words `taken` stand among the words after `before`, from one position to another. -/
structure Stands (words before taken : List Word) (start stop : Nat) : Prop where
  splits : before ++ taken <+: words
  nonempty : taken ≠ []
  start_eq : start = skipBlankAt (written words) (byteLength (written before))
  stop_eq : stop = byteLength (written (before ++ taken))

/-- The elements take the words one after the other, from behind the words `before` on: a
pattern one word, a condition the words of a number that `known` tells. -/
inductive Takes (known : List Word → List Word → Token → Prop) :
    (before : List Word) → List Element → (taken : List Word) → Window → Prop
  | nil {before : List Word} : Takes known before [] [] []
  | text {before words : List Word} {word : Word} {pattern : Pattern} {elements : List Element}
      {window : Window} : pattern.takes word.key = true →
      Takes known (before ++ [word]) elements words window →
      Takes known before (.text pattern :: elements) (word :: words)
        (.capture ⟨word.text, []⟩ :: window)
  | number {before words taken : List Word} {condition : Condition} {elements : List Element}
      {token : Token} {window : Window} : taken ≠ [] → known before taken token →
      condition.accepts token = true → Takes known (before ++ taken) elements words window →
      Takes known before (.number condition :: elements) (taken ++ words)
        (.number token :: window)

theorem Takes.ne_nil {known : List Word → List Word → Token → Prop} {before taken : List Word}
    {element : Element} {elements : List Element} {window : Window}
    (h : Takes known before (element :: elements) taken window) : taken ≠ [] := by
  cases h with
  | text _ _ => exact List.cons_ne_nil _ _
  | number hne _ _ _ => exact fun h => hne (List.append_eq_nil_iff.mp h).1

/-- The last element takes the words of a number. -/
theorem Takes.last {known : List Word → List Word → Token → Prop} {before taken : List Word}
    {condition : Condition} {token : Token} (hne : taken ≠ []) (hknown : known before taken token)
    (haccepts : condition.accepts token = true) :
    Takes known before [.number condition] taken [.number token] := by
  have htakes := Takes.number hne hknown haccepts Takes.nil
  rwa [List.append_nil] at htakes

/-- Each pattern among the elements takes one of the words. -/
theorem Takes.exists_word {known : List Word → List Word → Token → Prop}
    {before taken : List Word} {elements : List Element} {window : Window} {pattern : Pattern}
    (h : Takes known before elements taken window) (hmem : Element.text pattern ∈ elements) :
    ∃ word ∈ taken, pattern.takes word.key = true := by
  induction h with
  | nil => simp at hmem
  | text hword _ ih =>
    rcases List.mem_cons.mp hmem with heq | hmem
    · obtain rfl := Element.text.inj heq
      exact ⟨_, List.mem_cons_self, hword⟩
    · obtain ⟨word, hmember, htakes⟩ := ih hmem
      exact ⟨word, List.mem_cons_of_mem _ hmember, htakes⟩
  | number _ _ _ _ ih =>
    obtain ⟨word, hmember, htakes⟩ := ih ((List.mem_cons.mp hmem).resolve_left (by simp))
    exact ⟨word, List.mem_append_right _ hmember, htakes⟩

theorem Takes.accepted {known : List Word → List Word → Token → Prop}
    {before taken : List Word} {elements : List Element} {window : Window}
    (h : Takes known before elements taken window) : window.length = elements.length ∧
      (elements.zip window).all (fun (element, node) => element.accepts node) = true := by
  induction h with
  | nil => exact ⟨rfl, rfl⟩
  | text _ _ ih => exact ⟨congrArg (· + 1) ih.1, ih.2⟩
  | number _ _ haccepts _ ih =>
    refine ⟨congrArg (· + 1) ih.1, ?_⟩
    rw [List.zip_cons_cons, List.all_cons, ih.2, Bool.and_true]
    exact haccepts

/-- On a row of words a rule gives what its production makes of them. -/
theorem Takes.apply_eq {known : List Word → List Word → Token → Prop} {before taken : List Word}
    {rule : Rule} {window : Window} (h : Takes known before rule.elements taken window) :
    rule.apply window = rule.produce window :=
  if_pos h.accepted

section Words

variable {keys : List Text} {words : List Word}

theorem byteLength_written_lt (h : Unbroken words) {before : List Word} {word : Word}
    {after : List Word} (hwords : words = before ++ word :: after) (more : List Word) :
    byteLength (written before) + byteLength word.gap <
      byteLength (written (before ++ word :: more)) := by
  have hne := byteLength_pos (h.nonempty word (by rw [hwords]; simp))
  rw [written_append, written_cons, byteLength_append, byteLength_append, byteLength_append]
  omega

/-! ## Rows of words in order -/

section Rows

variable (h : Unbroken words) {a b : List Word}

include h

theorem written_lt (hb : b <+: words) (hbegins : a <+: b) (hlt : a.length < b.length) :
    byteLength (written a) < byteLength (written b) := by
  obtain ⟨more, rfl⟩ := hbegins
  cases more with
  | nil => simp at hlt
  | cons word more =>
    obtain ⟨rest, hwords⟩ := hb
    have hlt := byteLength_written_lt h
      (show words = a ++ word :: (more ++ rest) by rw [← hwords]; simp) more
    omega

/-- Of two beginnings of the words, the one with more words is longer. -/
theorem written_lt_iff (ha : a <+: words) (hb : b <+: words) :
    byteLength (written a) < byteLength (written b) ↔ a.length < b.length := by
  constructor
  · intro hlt
    by_contra hge
    rcases Nat.lt_or_eq_of_le (Nat.not_lt.mp hge) with hlength | hlength
    · have := written_lt h ha (List.prefix_of_prefix_length_le hb ha (Nat.le_of_lt hlength)) hlength
      omega
    · have heq := (List.prefix_of_prefix_length_le hb ha (Nat.le_of_eq hlength)).eq_of_length hlength
      rw [heq] at hlt
      exact Nat.lt_irrefl _ hlt
  · intro hlt
    exact written_lt h hb (List.prefix_of_prefix_length_le ha hb (Nat.le_of_lt hlt)) hlt

/-- The word behind some words begins before the end of those words that reach past it. -/
theorem skipBlankAt_lt_iff (ha : a <+: words) (hb : b <+: words) :
    skipBlankAt (written words) (byteLength (written a)) < byteLength (written b) ↔
      a.length < b.length := by
  have hskip := le_skipBlankAt (written words) (byteLength (written a))
  constructor
  · intro hlt
    exact (written_lt_iff h ha hb).mp (by omega)
  · intro hlt
    obtain ⟨more, rfl⟩ := List.prefix_of_prefix_length_le ha hb (Nat.le_of_lt hlt)
    cases more with
    | nil => simp at hlt
    | cons word more =>
      obtain ⟨rest, hwords⟩ := hb
      have hsplit : words = a ++ word :: (more ++ rest) := by rw [← hwords]; simp
      have hstart := skipBlankAt_written (hsplit ▸ h)
      rw [← hsplit] at hstart
      have := byteLength_written_lt h hsplit more
      omega

variable {before taken before' taken' : List Word} {start stop start' stop' : Nat}

omit h in
theorem Stands.before_prefix (hstands : Stands words before taken start stop) :
    before <+: words := (List.prefix_append before taken).trans hstands.splits

theorem Stands.start_lt_iff (hstands : Stands words before taken start stop)
    {other : List Word} (hother : other <+: words) :
    start < byteLength (written other) ↔ before.length < other.length := by
  rw [hstands.start_eq]
  exact skipBlankAt_lt_iff h hstands.before_prefix hother

/-- The words before a stretch are told by its beginning. -/
theorem Stands.before_eq (hstands : Stands words before taken start stop) {other : List Word}
    (hother : other <+: words)
    (hstart : start = skipBlankAt (written words) (byteLength (written other))) :
    other = before := by
  have hskip := le_skipBlankAt (written words) (byteLength (written before))
  have hskip' := le_skipBlankAt (written words) (byteLength (written other))
  rw [← hstands.start_eq] at hskip
  rw [← hstart] at hskip'
  have hle := (hstands.start_lt_iff h hother).not.mp (Nat.not_lt.mpr hskip')
  have hge := (skipBlankAt_lt_iff h hother hstands.before_prefix).not.mp
    (hstart ▸ Nat.not_lt.mpr hskip)
  exact (List.prefix_of_prefix_length_le hother hstands.before_prefix
    (Nat.not_lt.mp hle)).eq_of_length (by omega)

theorem Stands.start_lt_stop_iff (hstands : Stands words before taken start stop)
    (hstands' : Stands words before' taken' start' stop') :
    start < stop' ↔ before.length < (before' ++ taken').length := by
  rw [hstands'.stop_eq]
  exact hstands.start_lt_iff h hstands'.splits

theorem Stands.stop_lt_iff (hstands : Stands words before taken start stop)
    (hstands' : Stands words before' taken' start' stop') :
    stop < stop' ↔ (before ++ taken).length < (before' ++ taken').length := by
  rw [hstands.stop_eq, hstands'.stop_eq]
  exact written_lt_iff h hstands.splits hstands'.splits

/-- A row that begins later begins at a later position. -/
theorem Stands.start_lt (hstands : Stands words before taken start stop)
    (hstands' : Stands words before' taken' start' stop') (hlt : before.length < before'.length) :
    start < start' := by
  have hbefore := (hstands.start_lt_iff h hstands'.before_prefix).mpr hlt
  have hskip := le_skipBlankAt (written words) (byteLength (written before'))
  rw [← hstands'.start_eq] at hskip
  omega

/-- The words of a row are told by its two ends. -/
theorem Stands.unique (hstands : Stands words before taken start stop)
    (hstands' : Stands words before' taken' start stop) : before = before' ∧ taken = taken' := by
  obtain rfl := hstands'.before_eq h hstands.before_prefix hstands.start_eq
  refine ⟨rfl, ?_⟩
  have hle := (hstands.stop_lt_iff h hstands').not.mp (Nat.lt_irrefl stop)
  have hge := (hstands'.stop_lt_iff h hstands).not.mp (Nat.lt_irrefl stop)
  have hlength : (before ++ taken).length = (before ++ taken').length := by omega
  have hbegins := List.prefix_of_prefix_length_le hstands.splits hstands'.splits
    (Nat.le_of_eq hlength)
  exact List.append_cancel_left (hbegins.eq_of_length hlength)

/-- A row within a longer one covers less text. -/
theorem Stands.size_lt (hstands : Stands words before taken start stop)
    (hstands' : Stands words before' taken' start' stop') (hbefore : before'.length ≤ before.length)
    (htaken : (before ++ taken).length ≤ (before' ++ taken').length)
    (hlt : taken.length < taken'.length) (hpos : start < stop) :
    stop - start < stop' - start' := by
  have hstop := (hstands'.stop_lt_iff h hstands).not.mpr (Nat.not_lt.mpr htaken)
  rcases Nat.lt_or_eq_of_le hbefore with hlater | hsame
  · have hstart := hstands'.start_lt h hstands hlater
    omega
  · have heq : before' = before :=
      (List.prefix_of_prefix_length_le hstands'.before_prefix hstands.before_prefix
        (Nat.le_of_eq hsame)).eq_of_length hsame
    have hlonger := (hstands.stop_lt_iff h hstands').mpr (by simp [heq, hlt])
    have hstart : start' = start := by rw [hstands.start_eq, hstands'.start_eq, heq]
    omega

end Rows

/-! ## From pieces to words -/

/-- The number stands somewhere among the words, and `known` tells it. -/
def Located (words : List Word) (known : List Word → List Word → Token → Prop) (key : Key) :
    Prop :=
  ∃ before taken, Stands words before taken key.1 key.2.1 ∧ known before taken key.2.2

variable {known : List Word → List Word → Token → Prop}

/-- A piece of text at a word is the whole word. -/
theorem word_of_fits (h : Legible keys words) {before : List Word} {pattern : Pattern}
    {piece : Piece} (hpattern : pattern.ReadsWords keys) (hbefore : before <+: words)
    (hfits : piece.Fits (written words) (.text pattern))
    (hstart : piece.start = skipBlankAt (written words) (byteLength (written before))) :
    ∃ word, before ++ [word] <+: words ∧ pattern.takes word.key = true ∧
      piece.node = .capture ⟨word.text, []⟩ ∧
      piece.stop = byteLength (written (before ++ [word])) := by
  obtain ⟨here, capture, there, hhere, hread, hstop, hnode, _⟩ := hfits
  obtain ⟨htext, hpos⟩ := cursorAt?_eq_some.mp hhere
  obtain ⟨after, rfl⟩ := hbefore
  cases after with
  | nil =>
    rw [List.append_nil] at hstart htext
    rw [skipBlankAt_end] at hstart
    have hend : here = placeAfter before [] := by
      apply Cursor.eq_of_pos
      · rw [htext, text_placeAfter, List.append_nil]
      · rw [hpos, hstart, pos_placeAfter]
    rw [readBounded?_at_end pattern (by rw [hend]; rfl)] at hread
    simp at hread
  | cons word after =>
    rw [skipBlankAt_written h.unbroken] at hstart
    have hplace : here = placeOf before word after := by
      apply Cursor.eq_of_pos
      · rw [htext, text_placeOf]
      · rw [hpos, hstart, pos_placeOf]
    rw [hplace, readBounded?_placeOf hpattern h] at hread
    split at hread
    · rename_i htakes
      simp only [Option.some.injEq, Prod.mk.injEq] at hread
      obtain ⟨rfl, rfl⟩ := hread
      exact ⟨word, ⟨after, by simp⟩, htakes, hnode, hstop.trans (pos_placeAfter _ _)⟩
    · simp at hread

theorem takes_of_row (h : Legible keys words) {elements : List Element} {pieces : List Piece}
    {before : List Word} {stop : Nat}
    (hpatterns : ∀ pattern, Element.text pattern ∈ elements → pattern.ReadsWords keys)
    (hbefore : before <+: words)
    (hrow : Row (written words) elements pieces (byteLength (written before)) stop)
    (hnumbers : ∀ piece ∈ pieces, ∀ token, piece.node = .number token →
      Located words known (piece.start, piece.stop, token)) :
    ∃ taken, before ++ taken <+: words ∧ stop = byteLength (written (before ++ taken)) ∧
      Takes known before elements taken (pieces.map Piece.node) := by
  induction elements generalizing before pieces with
  | nil =>
    cases hrow
    exact ⟨[], by rwa [List.append_nil], by rw [List.append_nil], Takes.nil⟩
  | cons element elements ih =>
    cases hrow with
    | @cons _ _ piece pieces _ _ hfits hstart hrest =>
      have hpatterns' : ∀ pattern, Element.text pattern ∈ elements → pattern.ReadsWords keys :=
        fun pattern hmem => hpatterns pattern (List.mem_cons_of_mem element hmem)
      have hnumbers' : ∀ p ∈ pieces, ∀ token, p.node = .number token →
          Located words known (p.start, p.stop, token) :=
        fun p hp => hnumbers p (List.mem_cons_of_mem piece hp)
      cases element with
      | text pattern =>
        obtain ⟨word, hword, htakes, hnode, hstop⟩ :=
          word_of_fits h (hpatterns pattern List.mem_cons_self) hbefore hfits hstart
        rw [hstop] at hrest
        obtain ⟨taken, htaken, hend, hwords⟩ := ih hpatterns' hword hrest hnumbers'
        rw [List.append_assoc] at htaken hend
        refine ⟨word :: taken, htaken, hend, ?_⟩
        rw [List.map_cons, hnode]
        exact Takes.text htakes hwords
      | number condition =>
        obtain ⟨token, hnode, haccepts⟩ := hfits
        obtain ⟨other, first, hstands, hknown⟩ := hnumbers piece List.mem_cons_self token hnode
        obtain rfl := hstands.before_eq h.unbroken hbefore hstart
        rw [show piece.stop = _ from hstands.stop_eq] at hrest
        obtain ⟨taken, htaken, hend, hwords⟩ := ih hpatterns' hstands.splits hrest hnumbers'
        rw [List.append_assoc] at htaken hend
        refine ⟨first ++ taken, htaken, hend, ?_⟩
        rw [List.map_cons, hnode]
        exact Takes.number hstands.nonempty hknown haccepts hwords

/-- What a rule makes of pieces of a text of words it makes of a row of words. -/
theorem takes_of_assembles (h : Legible keys words) {rule : Rule} {pieces : List Piece}
    {key : Key} (hrule : rule.ReadsWords keys)
    (hassembles : Assembles (written words) rule pieces key)
    (hnumbers : ∀ piece ∈ pieces, ∀ token, piece.node = .number token →
      Located words known (piece.start, piece.stop, token)) :
    ∃ before taken, Stands words before taken key.1 key.2.1 ∧
      Takes known before rule.elements taken (pieces.map Piece.node) ∧
      rule.produce (pieces.map Piece.node) = some key.2.2 := by
  cases hassembles with
  | @intro element elements piece pieces stop token helements hfits hopens hrow htoken =>
    have hbefore : ∃ before, before <+: words ∧
        piece.start = skipBlankAt (written words) (byteLength (written before)) := by
      cases element with
      | text pattern =>
        obtain ⟨here, hhere, hpos⟩ := List.mem_map.mp (hopens rfl)
        obtain ⟨before, word, after, hwords, rfl⟩ :=
          exists_placeOf_of_mem_segments h.unbroken hhere
        refine ⟨before, ⟨_, hwords.symm⟩, ?_⟩
        rw [← hpos, pos_placeOf, hwords]
        exact (skipBlankAt_written (hwords ▸ h.unbroken)).symm
      | number condition =>
        obtain ⟨token, hnode, _⟩ := hfits
        obtain ⟨before, taken, hstands, _⟩ := hnumbers piece List.mem_cons_self token hnode
        exact ⟨before, (List.prefix_append before taken).trans hstands.splits, hstands.start_eq⟩
    obtain ⟨before, hbefore, hstart⟩ := hbefore
    have hpatterns : ∀ pattern, Element.text pattern ∈ element :: elements →
        pattern.ReadsWords keys := helements ▸ hrule
    obtain ⟨taken, htaken, hstop, htakes⟩ :=
      takes_of_row h hpatterns hbefore (Row.cons hfits hstart hrow) hnumbers
    refine ⟨before, taken, ⟨htaken, htakes.ne_nil, hstart, hstop⟩, helements ▸ htakes, ?_⟩
    rw [← (helements ▸ htakes : Takes known before rule.elements taken _).apply_eq]
    exact htoken

/-- What the rules keep up, going by words, holds of every number derived. -/
theorem located_of_derived (h : Legible keys words) {rules : Registry}
    (hrules : ∀ rule ∈ rules, rule.ReadsWords keys)
    (hkept : ∀ rule ∈ rules, ∀ before taken window token, before ++ taken <+: words →
      Takes known before rule.elements taken window → rule.produce window = some token →
        known before taken token)
    {key : Key} {k : Nat} (hderived : Derived rules (written words) key k) :
    Located words known key := by
  induction hderived with
  | @intro rule pieces key hrule hassembles _ ih =>
    obtain ⟨before, taken, hstands, htakes, htoken⟩ :=
      takes_of_assembles h (hrules rule hrule) hassembles ih
    exact ⟨before, taken, hstands,
      hkept rule hrule before taken _ _ hstands.splits htakes htoken⟩

/-! ## From words to pieces -/

/-- The words `taken`, after `before`, have a derivation that is no higher than `most`. -/
def DerivedWithin (rules : Registry) (words : List Word) (most : Nat) (before taken : List Word)
    (token : Token) : Prop :=
  ∃ k ≤ most, Derived rules (written words)
    (skipBlankAt (written words) (byteLength (written before)),
      byteLength (written (before ++ taken)), token) k

theorem DerivedWithin.mono {rules : Registry} {most more : Nat} {before taken : List Word}
    {token : Token} (hle : most ≤ more) (h : DerivedWithin rules words most before taken token) :
    DerivedWithin rules words more before taken token := by
  obtain ⟨k, hk, hderived⟩ := h
  exact ⟨k, Nat.le_trans hk hle, hderived⟩

theorem row_of_takes {rules : Registry} {most : Nat} (h : Legible keys words)
    {elements : List Element} {before taken : List Word} {window : Window}
    (hpatterns : ∀ pattern, Element.text pattern ∈ elements → pattern.ReadsWords keys)
    (htaken : before ++ taken <+: words)
    (htakes : Takes (DerivedWithin rules words most) before elements taken window) :
    ∃ pieces, Row (written words) elements pieces (byteLength (written before))
        (byteLength (written (before ++ taken))) ∧
      pieces.map Piece.node = window ∧ ∀ piece ∈ pieces, piece.height ≤ most ∧
        ∀ token, piece.node = .number token →
          Derived rules (written words) (piece.start, piece.stop, token) piece.height := by
  induction htakes with
  | nil => exact ⟨[], by rw [List.append_nil]; exact Row.nil, rfl, by simp⟩
  | @text before taken word pattern elements window hword _ ih =>
    obtain ⟨pieces, hrow, hnodes, hpieces⟩ :=
      ih (fun pattern hmem => hpatterns pattern (List.mem_cons_of_mem _ hmem))
        (by rwa [List.append_assoc])
    obtain ⟨after, rfl⟩ := htaken
    have hwords : before ++ word :: taken ++ after = before ++ word :: (taken ++ after) := by simp
    rw [hwords] at h hrow hpieces ⊢
    have hread := readBounded?_placeOf (hpatterns pattern List.mem_cons_self) h
    rw [if_pos hword] at hread
    refine ⟨⟨(placeOf before word (taken ++ after)).pos,
      (placeAfter (before ++ [word]) (taken ++ after)).pos, .capture ⟨word.text, []⟩, 0⟩ :: pieces,
      Row.cons ⟨_, _, _, cursorAt?_eq_some.mpr ⟨text_placeOf _ _ _, rfl⟩, hread, rfl, rfl, rfl⟩
        ?_ ?_, ?_, ?_⟩
    · rw [skipBlankAt_written h.unbroken]
      exact pos_placeOf _ _ _
    · rw [List.append_assoc] at hrow
      rw [pos_placeAfter]
      exact hrow
    · rw [List.map_cons, hnodes]
    · intro piece hp
      rcases List.mem_cons.mp hp with rfl | hp
      · exact ⟨Nat.zero_le most, by simp⟩
      · exact hpieces piece hp
  | @number before taken first condition elements token window hne hfirst haccepts _ ih =>
    obtain ⟨pieces, hrow, hnodes, hpieces⟩ :=
      ih (fun pattern hmem => hpatterns pattern (List.mem_cons_of_mem _ hmem))
        (by rwa [List.append_assoc])
    obtain ⟨k, hk, hderived⟩ := hfirst
    refine ⟨⟨skipBlankAt (written words) (byteLength (written before)),
      byteLength (written (before ++ first)), .number token, k⟩ :: pieces,
      Row.cons ⟨token, rfl, haccepts⟩ rfl ?_, ?_, ?_⟩
    · rw [← List.append_assoc]
      exact hrow
    · rw [List.map_cons, hnodes]
    · intro piece hp
      rcases List.mem_cons.mp hp with rfl | hp
      · refine ⟨hk, ?_⟩
        rintro other hother
        obtain rfl := Node.number.inj hother
        exact hderived
      · exact hpieces piece hp

/-- A row of words that the elements of a rule take has a derivation one step higher. -/
theorem derivedWithin_of_takes {rules : Registry} {most : Nat} (h : Legible keys words)
    {rule : Rule} (hrule : rule ∈ rules) (hreads : rule.ReadsWords keys)
    {before taken : List Word} {window : Window} {token : Token}
    (htaken : before ++ taken <+: words)
    (htakes : Takes (DerivedWithin rules words most) before rule.elements taken window)
    (hne : taken ≠ []) (htoken : rule.produce window = some token) :
    DerivedWithin rules words (most + 1) before taken token := by
  rw [← htakes.apply_eq] at htoken
  obtain ⟨pieces, hrow, hnodes, hpieces⟩ := row_of_takes h hreads htaken htakes
  have hassembles : Assembles (written words) rule pieces
      (skipBlankAt (written words) (byteLength (written before)),
        byteLength (written (before ++ taken)), token) := by
    cases helements : rule.elements with
    | nil =>
      rw [helements] at htakes
      cases htakes
      exact absurd rfl hne
    | cons element elements =>
      rw [helements] at hrow
      cases hrow with
      | @cons _ _ piece pieces _ _ hfits hstart hrest =>
        rw [← hstart]
        refine Assembles.intro helements hfits (fun _ => ?_) hrest (by rw [hnodes]; exact htoken)
        obtain ⟨word, taken', rfl⟩ := List.exists_cons_of_ne_nil hne
        obtain ⟨after, rfl⟩ := htaken
        have hwords : before ++ word :: taken' ++ after =
            before ++ word :: (taken' ++ after) := by simp
        rw [hwords] at h hstart ⊢
        rw [hstart, skipBlankAt_written h.unbroken, ← pos_placeOf before (taken' ++ after) word]
        exact List.mem_map.mpr ⟨_, placeOf_mem_segments h.unbroken, rfl⟩
  refine ⟨1 + Piece.highest pieces, ?_, Derived.intro hrule hassembles fun piece hp =>
    (hpieces piece hp).2⟩
  have := Piece.highest_le fun piece hp => (hpieces piece hp).1
  omega

end Words

end SpanishNumerals
