-- What is found in texts of words. Without figures, without "punto" and without a suffix the other
-- rules feed one another only: the sums, the hundreds, the thousands and the opposites. None of
-- them leaves the whole numbers below a million, on either side of zero.
import SpanishNumerals.Proofs.LiteralCuts
import SpanishNumerals.Proofs.Suffixes
import SpanishNumerals.Proofs.Windows
import SpanishNumerals.Proofs.WorthOfWords

namespace SpanishNumerals

/-! ## Texts of words -/

/-- The stretch stands somewhere in the text with no letter on either side of it. -/
def StandsAlone (stretch text : Text) : Prop :=
  ∃ front back, text = front ++ stretch ++ back ∧
    (∀ c, front.getLast? = some c → classify c ≠ .letter) ∧
    (∀ c, back.head? = some c → classify c ≠ .letter)

/-- Neither figures, nor "punto", nor a letter for a scale that stands alone, in whatever case. -/
structure WordsAlone (text : Text) : Prop where
  no_figure : ∀ c ∈ text, c.isDigit = false
  no_point : ∀ word : Text, word.map foldChar = "punto".toList → ¬StandsAlone word text
  no_suffix : ∀ c, isSuffixLetter c = true → ¬StandsAlone [c] text

/-- A letter has no letter beside it across a boundary. -/
theorem neighbour_of_letter {before : Option Char} {c d : Char} (hc : classify c = .letter)
    (hboundary : isBoundary before (some c) = true) (hd : before = some d) :
    classify d ≠ .letter := by
  rintro hletter
  simp [hd, isBoundary, separates, hc, hletter] at hboundary

/-- A row of letters that a pattern reads stands alone. -/
theorem standsAlone_of_fits {text : Text} {pattern : Pattern} {piece : Piece}
    (hfits : piece.Fits text (.text pattern))
    (hletters : ∀ capture rest, pattern.Reads capture rest →
      ∀ c ∈ capture.text, classify c = .letter) :
    ∃ capture rest, pattern.Reads capture rest ∧ StandsAlone capture.text text := by
  obtain ⟨front, capture, back, hsplit, hreads, hopens, hcloses, _⟩ := hfits.reads
  have hall := hletters capture back hreads
  refine ⟨capture, back, hreads, front, back, hsplit, ?_, ?_⟩
  · intro d hd
    obtain ⟨c, rest, hc⟩ := List.exists_cons_of_ne_nil hreads.1
    rw [hc, List.head?_cons] at hopens
    exact neighbour_of_letter (hall c (hc ▸ List.mem_cons_self)) hopens
      (by rwa [List.head?_reverse])
  · intro d hd
    obtain ⟨before, c, hc⟩ := (List.eq_nil_or_concat' capture.text).resolve_left hreads.1
    have hletter := hall c (by simp [hc])
    rw [hc, List.reverse_concat, List.head?_cons, hd] at hcloses
    intro hdletter
    simp [isBoundary, separates, hletter, hdletter] at hcloses

/-! ## The rules for words -/

/-- The rule of the decimals. -/
def pointRule : Rule := (compoundRules.drop 4).head (List.cons_ne_nil _ _)

/-- The rules that read nothing but number words, "y", "mil" and the word for the opposite. -/
def spokenRules : Registry := wordRules ++ (compoundRules.take 4 ++ compoundRules.drop 6)

theorem mem_spanishRules_iff {rule : Rule} :
    rule ∈ spanishRules ↔
      rule ∈ figureRules ∨ rule ∈ spokenRules ∨ rule = pointRule ∨ rule = suffixRule := by
  have hsplit : compoundRules =
      compoundRules.take 4 ++ pointRule :: suffixRule :: compoundRules.drop 6 := rfl
  rw [spanishRules, hsplit]
  simp only [spokenRules, List.mem_append, List.mem_cons]
  tauto

namespace WordsAlone

variable {text : Text} (hwords : WordsAlone text)

include hwords

theorem not_fits_figures {pattern : Pattern} {piece : Piece}
    (hpattern : pattern ∈ plainPatterns ∨ pattern ∈ pointedPatterns) :
    ¬piece.Fits text (.text pattern) := by
  intro hfits
  obtain ⟨front, capture, back, hsplit, hreads, _⟩ := hfits.reads
  obtain ⟨c, hc, hdigit⟩ : ∃ c ∈ capture.text, c.isDigit = true := by
    rcases hpattern with hplain | hpointed
    · obtain ⟨before, c, hread, hdigit⟩ := ends_in_figure (plain_of_reads hplain hreads).1
      exact ⟨c, by simp [hread], hdigit⟩
    · obtain ⟨before, figures, hread, hne, hall⟩ :=
        ends_in_point (pointed_of_reads hpointed hreads).1
      obtain ⟨c, more, rfl⟩ := List.exists_cons_of_ne_nil hne
      exact ⟨c, by simp [hread], hall c List.mem_cons_self⟩
  have hmem : c ∈ text := by
    rw [hsplit]
    exact List.mem_append_left back (List.mem_append_right front hc)
  rw [hwords.no_figure c hmem] at hdigit
  exact Bool.false_ne_true hdigit

theorem not_fits_point {piece : Piece} : ¬piece.Fits text (wordElement "punto") := by
  intro hfits
  have hpoint : ∀ capture rest, (Pattern.caseless ["punto".toList]).Reads capture rest →
      capture.text.map foldChar = "punto".toList := by
    intro capture rest hreads
    obtain ⟨key, hkey, hfold⟩ := exists_key_of_reads rfl rfl hreads
    obtain rfl := List.mem_singleton.mp hkey
    exact hfold
  obtain ⟨capture, rest, hreads, halone⟩ := standsAlone_of_fits hfits fun capture rest hreads c hc =>
    letter_of_foldChar (k := foldChar c) ((by decide : ∀ k ∈ "punto".toList, k ∈ spellingLetters) _
      (hpoint capture rest hreads ▸ List.mem_map_of_mem hc)) rfl
  exact hwords.no_point _ (hpoint capture rest hreads) halone

theorem not_fits_suffix {piece : Piece} : ¬piece.Fits text (.text suffixPattern) := by
  intro hfits
  obtain ⟨capture, rest, hreads, halone⟩ := standsAlone_of_fits hfits fun capture rest hreads => by
    obtain ⟨⟨c, rfl, hc⟩, _⟩ := reads_suffix_iff.mp hreads
    simpa using letter_of_suffix hc
  obtain ⟨⟨c, rfl, hc⟩, _⟩ := reads_suffix_iff.mp hreads
  exact hwords.no_suffix c hc halone

/-- In a text of words no other rules give a number. -/
theorem mem_spokenRules {rule : Rule} {pieces : List Piece} {key : Key}
    (hrule : rule ∈ spanishRules) (hassembles : Assembles text rule pieces key) :
    rule ∈ spokenRules := by
  rcases mem_spanishRules_iff.mp hrule with hfigures | hspoken | rfl | rfl
  · obtain ⟨pattern, helements, hpattern, _⟩ := elements_of_figureRules hfigures
    obtain ⟨piece, _, hfits⟩ := hassembles.exists_fits (helements ▸ List.mem_cons_self)
    exact absurd hfits (hwords.not_fits_figures hpattern)
  · exact hspoken
  · obtain ⟨piece, _, hfits⟩ :=
      hassembles.exists_fits (List.mem_cons_of_mem _ List.mem_cons_self)
    exact absurd hfits hwords.not_fits_point
  · obtain ⟨piece, _, hfits⟩ :=
      hassembles.exists_fits (List.mem_cons_of_mem _ List.mem_cons_self)
    exact absurd hfits hwords.not_fits_suffix

end WordsAlone

/-! ## Whole numbers below a million -/

/-- The token is a whole number of less than a million on either side of zero. If it has a scale it
counts thousands, and is not zero. -/
def Token.BelowMillion (token : Token) : Prop :=
  ∃ n : Int, -999999 ≤ n ∧ n ≤ 999999 ∧ token.value.Is n ∧
    (token.grain = none ∨ token.grain = some 3 ∧ n ≠ 0 ∧ 1000 ∣ n)

section Productions

variable {a b token : Token} {capture : Capture} {m n : Int}

theorem is_hundred : (Value.ofNat 100).Is 100 := @Value.is_ofNat 100 (by decide)

theorem is_thousand : (Value.ofNat 1000).Is 1000 := @Value.is_ofNat 1000 (by decide)

theorem belowMillion_of_plain {value : Option Value} (hvalue : ∀ v, value = some v → v.Is n)
    (hlow : -999999 ≤ n) (hhigh : n ≤ 999999) (h : Token.plain? value = some token) :
    token.BelowMillion := by
  obtain ⟨v, hv, rfl⟩ := plain?_eq_some h
  exact ⟨n, hlow, hhigh, hvalue v hv, Or.inl rfl⟩

theorem belowMillion_add {x y : Value} (hx : x.Is m) (hy : y.Is n) (hlow : -999999 ≤ m + n)
    (hhigh : m + n ≤ 999999) (h : Token.plain? (x.add? y) = some token) : token.BelowMillion :=
  belowMillion_of_plain (fun _ hv => hx.add hy (le_twoPow_53 (by omega)) hv) hlow hhigh h

/-- A product and a remainder. -/
theorem belowMillion_mul_add {x y z : Value} {k : Int} (hx : x.Is k) (hy : y.Is m) (hz : z.Is n)
    (hproduct : (k * m).natAbs ≤ 1000000) (hlow : -999999 ≤ k * m + n) (hhigh : k * m + n ≤ 999999)
    (h : Token.plain? ((x.mul? y).bind fun product => product.add? z) = some token) :
    token.BelowMillion := by
  refine belowMillion_of_plain (fun v hv => ?_) hlow hhigh h
  obtain ⟨product, hmul, hadd⟩ := Option.bind_eq_some_iff.mp hv
  exact (hx.mul hy (le_twoPow_53 (by omega)) hmul).add hz (le_twoPow_53 (by omega)) hadd

theorem belowMillion_word {table : WordTable} (htable : table ∈ wordTables)
    (h : table.produce [.capture capture] = some token) : token.BelowMillion := by
  have hbind : ((table.lookup capture.text).toOption.bind fun n => Token.plain? (Value.ofNat? n)) =
      some token := h
  obtain ⟨n, hn, htoken⟩ := Option.bind_eq_some_iff.mp hbind
  have hle := le_of_spells htable (spells_of_lookup hn)
  have hsmall : n ≤ twoPow 53 := le_twoPow_53 (by omega)
  rw [Value.ofNat?_eq hsmall] at htoken
  refine belowMillion_of_plain (n := n) (fun v hv => ?_) (by omega) (by omega) htoken
  exact Option.some.inj hv ▸ Value.is_ofNat hsmall

theorem belowMillion_opposite (h : token.BelowMillion) : token.opposite.BelowMillion := by
  obtain ⟨n, hlow, hhigh, hvalue, hgrain⟩ := h
  refine ⟨-n, by omega, by omega, hvalue.neg, ?_⟩
  rcases hgrain with hnone | ⟨hthree, hne, hdvd⟩
  · exact Or.inl hnone
  · exact Or.inr ⟨hthree, Int.neg_ne_zero.mpr hne, Int.dvd_neg.mpr hdvd⟩

theorem belowMillion_sum (ha : a.value.Is m) (hb : b.value.Is n) (hm : 0 ≤ m ∧ m ≤ 90)
    (hn : 0 ≤ n ∧ n < 10)
    (h : Compound.sum [.number a, .capture capture, .number b] = some token) :
    token.BelowMillion :=
  belowMillion_add ha hb (by omega) (by omega) h

theorem belowMillion_hundredsOf {hundred : Token} (ha : a.value.Is m) (hb : b.value.Is n)
    (hm : 2 ≤ m ∧ m < 10) (hn : 0 ≤ n ∧ n < 100)
    (h : Compound.hundredsOf [.number a, .number hundred, .number b] = some token) :
    token.BelowMillion :=
  belowMillion_mul_add is_hundred ha hb (by omega) (by omega) (by omega) h

theorem belowMillion_hundredsAnd (hb : b.value.Is n) (hn : 1 ≤ n ∧ n < 100)
    (h : Compound.hundredsAnd [.capture capture, .number b] = some token) :
    token.BelowMillion := by
  have hbind : ((hundreds.lookup capture.text).toOption.bind fun m =>
      (Value.ofNat? m).bind fun value =>
        if value ∈ hundredsValues then Token.plain? (value.add? b.value) else none) =
      some token := h
  obtain ⟨m, hm, hrest⟩ := Option.bind_eq_some_iff.mp hbind
  obtain ⟨value, hvalue, hsum⟩ := Option.bind_eq_some_iff.mp hrest
  have hle := le_of_spells hundreds_mem (spells_of_lookup hm)
  have hsmall : m ≤ twoPow 53 := le_twoPow_53 (by omega)
  rw [Value.ofNat?_eq hsmall] at hvalue
  obtain rfl := Option.some.inj hvalue
  split at hsum
  · exact belowMillion_add (Value.is_ofNat hsmall) hb (by omega) (by omega) hsum
  · simp at hsum

/-- So many thousands: the one production that gives a scale. -/
theorem belowMillion_thousands (ha : a.value.Is m) (hm : 2 ≤ m ∧ m < 1000)
    (h : Compound.thousands [.number a, .capture capture] = some token) : token.BelowMillion := by
  have hscaled : Token.scaled? (a.value.mul? (.ofNat 1000)) 3 = some token := h
  obtain ⟨v, hv, rfl⟩ := Option.map_eq_some_iff.mp hscaled
  have hproduct := ha.mul is_thousand (le_twoPow_53 (by omega)) hv
  exact ⟨m * 1000, by omega, by omega, hproduct, Or.inr ⟨rfl, by omega, Int.dvd_mul_left ..⟩⟩

theorem belowMillion_thousandsAnd (ha : a.value.Is m) (hb : b.value.Is n)
    (hm : 2 ≤ m ∧ m < 1000) (hn : 1 ≤ n ∧ n < 1000)
    (h : Compound.thousandsAnd [.number a, .capture capture, .number b] = some token) :
    token.BelowMillion :=
  belowMillion_mul_add ha is_thousand hb (by omega) (by omega) (by omega) h

theorem belowMillion_thousandAnd (hb : b.value.Is n) (hn : 1 ≤ n ∧ n < 1000)
    (h : Compound.thousandsAnd [.capture capture, .number b] = some token) :
    token.BelowMillion :=
  belowMillion_add is_thousand hb (by omega) (by omega) h

end Productions

/-! ## One rule -/

section Step

variable {rule : Rule} {window : Window} {token : Token}

theorem belowMillion_of_wordRules (hrule : rule ∈ wordRules) (htaken : window.TakenBy rule.elements)
    (hvalue : rule.produce window = some token) : token.BelowMillion := by
  simp only [wordRules, List.mem_cons, List.not_mem_nil, or_false] at hrule
  rcases hrule with rfl | rfl | rfl | rfl <;>
    simp only [Window.takenBy_text, Window.takenBy_nil] at htaken <;>
    obtain ⟨capture, _, rfl, rfl⟩ := htaken
  · exact belowMillion_word ones_mem hvalue
  · exact belowMillion_word teens_mem hvalue
  · exact belowMillion_word tens_mem hvalue
  · exact belowMillion_word hundreds_mem hvalue

/-- The rules for words keep to the whole numbers below a million. -/
theorem belowMillion_of_apply (hrule : rule ∈ spokenRules)
    (hknown : ∀ t, Node.number t ∈ window → t.BelowMillion) (h : rule.apply window = some token) :
    token.BelowMillion := by
  obtain ⟨htaken, hvalue⟩ := apply_eq_some_iff.mp h
  rcases List.mem_append.mp hrule with hword | hcompound
  · exact belowMillion_of_wordRules hword htaken hvalue
  simp only [compoundRules, List.take_succ_cons, List.take_zero, List.drop_succ_cons, List.drop_zero,
    List.mem_append, List.mem_cons, List.not_mem_nil, or_false] at hcompound
  rcases hcompound with (rfl | rfl | rfl | rfl) | rfl | rfl | rfl | rfl <;>
    simp only [wordElement, Window.takenBy_text, Window.takenBy_number, Window.takenBy_nil]
      at htaken hvalue
  · obtain ⟨a, _, hten, ⟨_, _, ⟨b, _, hunit, rfl, rfl⟩, rfl⟩, rfl⟩ := htaken
    obtain ⟨m, _, _, ha, _⟩ := hknown a (by simp)
    obtain ⟨n, _, _, hb, _⟩ := hknown b (by simp)
    rw [ha.accepts_equals (by decide)] at hten
    rw [hb.accepts_between (by decide) (by decide)] at hunit
    exact belowMillion_sum ha hb (by omega) (by omega) hvalue
  · obtain ⟨a, _, htens, ⟨_, _, ⟨b, _, hunit, rfl, rfl⟩, rfl⟩, rfl⟩ := htaken
    obtain ⟨m, _, _, ha, _⟩ := hknown a (by simp)
    obtain ⟨n, _, _, hb, _⟩ := hknown b (by simp)
    obtain ⟨ten, hten, hm⟩ := ha.accepts_tens.mp htens
    have hle := (by decide : ∀ ten ∈ [20, 30, 40, 50, 60, 70, 80, 90], ten ≤ 90) ten hten
    rw [hb.accepts_between (by decide) (by decide)] at hunit
    exact belowMillion_sum ha hb (by omega) (by omega) hvalue
  · obtain ⟨a, _, hcount, ⟨_, _, _, ⟨b, _, hrest, rfl, rfl⟩, rfl⟩, rfl⟩ := htaken
    obtain ⟨m, _, _, ha, _⟩ := hknown a (by simp)
    obtain ⟨n, _, _, hb, _⟩ := hknown b (by simp)
    rw [ha.accepts_between (by decide) (by decide)] at hcount
    rw [hb.accepts_between (by decide) (by decide)] at hrest
    exact belowMillion_hundredsOf ha hb hcount hrest hvalue
  · obtain ⟨_, _, ⟨t, _, _, rfl, rfl⟩, rfl⟩ := htaken
    obtain rfl := Option.some.inj hvalue
    exact belowMillion_opposite (hknown t (by simp))
  · obtain ⟨_, _, ⟨b, _, hrest, rfl, rfl⟩, rfl⟩ := htaken
    obtain ⟨n, _, _, hb, _⟩ := hknown b (by simp)
    obtain ⟨hlow, hhigh, _⟩ := (hb.accepts_remainderBelow (by decide)).mp hrest
    exact belowMillion_hundredsAnd hb ⟨hlow, hhigh⟩ hvalue
  · obtain ⟨a, _, hcount, ⟨_, _, rfl, rfl⟩, rfl⟩ := htaken
    obtain ⟨m, _, _, ha, _⟩ := hknown a (by simp)
    obtain ⟨hlow, hhigh, _⟩ := ha.accepts_thousandsCount.mp hcount
    exact belowMillion_thousands ha ⟨hlow, hhigh⟩ hvalue
  · obtain ⟨a, _, hcount, ⟨_, _, ⟨b, _, hrest, rfl, rfl⟩, rfl⟩, rfl⟩ := htaken
    obtain ⟨m, _, _, ha, _⟩ := hknown a (by simp)
    obtain ⟨n, _, _, hb, _⟩ := hknown b (by simp)
    obtain ⟨hlow, hhigh, _⟩ := ha.accepts_thousandsCount.mp hcount
    obtain ⟨hlow', hhigh', _⟩ := (hb.accepts_remainderBelow (by decide)).mp hrest
    exact belowMillion_thousandsAnd ha hb ⟨hlow, hhigh⟩ ⟨hlow', hhigh'⟩ hvalue
  · obtain ⟨_, _, ⟨b, _, hrest, rfl, rfl⟩, rfl⟩ := htaken
    obtain ⟨n, _, _, hb, _⟩ := hknown b (by simp)
    obtain ⟨hlow, hhigh, _⟩ := (hb.accepts_remainderBelow (by decide)).mp hrest
    exact belowMillion_thousandAnd hb ⟨hlow, hhigh⟩ hvalue

end Step

/-! ## All passes -/

/-- In a text of words, without figures, without "punto" and without suffixes, each number found
within any number of passes is a whole number of less than a million on either side of zero. It has
no scale, or it has the scale of thousands and is a multiple of a thousand other than zero. -/
theorem texts_of_words_give_whole_numbers_below_a_million {text : Text} (hwords : WordsAlone text)
    (passes : Nat) : ∀ n ∈ candidates spanishRules text passes, ∃ v : Int,
      -999999 ≤ v ∧ v ≤ 999999 ∧ n.token.value.signed = v * quantaPerUnit ∧
        (n.token.grain = none ∨ n.token.grain = some 3 ∧ v ≠ 0 ∧ 1000 ∣ v) :=
  forall_token_candidates (fun _ hrule _ _ hassembles hknown =>
    belowMillion_of_apply (hwords.mem_spokenRules hrule hassembles) hknown hassembles.apply_eq) passes

/-- A text of words with a number of thousands below zero, which is found. No letter for a scale
stands alone in it, for a letter follows each "m". -/
theorem minus_two_thousand_is_a_text_of_words :
    WordsAlone "menos dos mil".toList ∧
      ⟨0, "menos dos mil".toList, ⟨(Value.ofNat 2000).neg, some 3⟩, negation.name⟩ ∈
        candidates spanishRules "menos dos mil".toList 3 ∧
      ∀ n ∈ candidates spanishRules "menos dos mil".toList 3, ∃ v : Int,
        -999999 ≤ v ∧ v ≤ 999999 ∧ n.token.value.signed = v * quantaPerUnit ∧
          (n.token.grain = none ∨ n.token.grain = some 3 ∧ v ≠ 0 ∧ 1000 ∣ v) := by
  have hwords : WordsAlone "menos dos mil".toList := by
    refine ⟨by decide, ?_, ?_⟩
    · rintro word hword ⟨front, back, hsplit, _⟩
      have hmem : 'p' ∈ word.map foldChar := hword ▸ by decide
      have hall : 'p' ∈ ("menos dos mil".toList).map foldChar := by
        rw [hsplit, List.map_append, List.map_append]
        simp [hmem]
      exact absurd hall (by decide)
    · rintro c hc ⟨front, back, hsplit, _, hback⟩
      have hfollowed : ∀ i < 13, ("menos dos mil".toList[i]?).any isSuffixLetter = true →
          ("menos dos mil".toList[i + 1]?).any (fun d => classify d = .letter) = true := by
        decide
      have hlength := congrArg List.length hsplit
      simp only [List.length_append, List.length_singleton] at hlength
      have hnext := hfollowed front.length (by rw [show 13 = _ from hlength]; omega)
        (by rw [hsplit]; simp [hc])
      rw [hsplit, List.getElem?_append_right (by simp)] at hnext
      obtain ⟨d, hd, hletter⟩ := (Option.any_eq_true _ _).mp hnext
      exact hback d (by simpa [List.head?_eq_getElem?] using hd) (of_decide_eq_true hletter)
  exact ⟨hwords, by decide +kernel,
    texts_of_words_give_whole_numbers_below_a_million hwords 3⟩

end SpanishNumerals
