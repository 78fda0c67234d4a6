-- The opposite of a whole number. What is found at the beginning behind "menos" answers to what
-- the text finds there by itself, one pass later and as its opposite. Decimals are the exception:
-- in "menos tres punto cinco" the opposite of 3 may take them too. The sum of 3 and 0.5 goes
-- before when it is found as early as it can be, which is when 0.5 is found no later than 3.
import SpanishNumerals.Proofs.DecimalParts
import SpanishNumerals.Proofs.NamedRanges

namespace SpanishNumerals

/-! ## The beginning -/

/-- At the word for the opposite no other rule reads text. -/
theorem eq_negation_of_read {rule : Rule} (hrule : rule ∈ spanishRules) {pattern : Pattern}
    {elements : List Element} (helements : rule.elements = .text pattern :: elements)
    {rest : Text} (hread : pattern.read? (Cursor.start (minus ++ rest)) ≠ none) :
    rule = negation := by
  simp only [spanishRules, figureRules, wordRules, compoundRules, List.mem_append, List.mem_cons,
    List.not_mem_nil, or_false] at hrule
  rcases hrule with ((rfl | rfl | rfl | rfl | rfl) | rfl | rfl | rfl | rfl) |
    rfl | rfl | rfl | rfl | rfl | rfl | rfl | rfl | rfl | rfl <;> cases helements <;>
    first
      | rfl
      | exact absurd rfl hread

section Beginning

variable {blanks ending : Text} (hne : blanks ≠ []) (hblank : ∀ c ∈ blanks, isBlank c = true)
  (hnext : ∀ c, ending.head? = some c → isBlank c = false) {found : List Numeral}
  (hfound : ∀ n ∈ found, n.StandsIn (minus ++ blanks ++ ending))

include hne hblank hnext hfound

/-- The rule of the opposite takes the numbers at the beginning of the ending. -/
theorem firstMade_negation_minus (f : Token → Option Token) (stop : Nat) :
    firstMade f 0 stop (proposals [negation] (minus ++ blanks ++ ending) found) =
      firstMade (fun token => f token.opposite) (byteLength (minus ++ blanks)) stop found := by
  obtain ⟨c, rest, rfl⟩ := List.exists_cons_of_ne_nil hne
  have hread := @readBounded?_minus (c :: rest ++ ending) c rfl (hblank c List.mem_cons_self)
  have hpos : (Cursor.start (minus ++ (c :: rest) ++ ending)).pos = 0 := rfl
  rw [← List.append_assoc] at hread
  have hbegin : Cursor.start (minus ++ (c :: rest) ++ ending) ∈
      segments (minus ++ (c :: rest) ++ ending) :=
    mem_segments.mpr ⟨rfl, 'm', _, rfl, by decide, isBoundary_none_left _⟩
  rw [firstMade_negation hfound, findSome?_of_only hbegin]
  · rw [if_pos hpos, hread, Option.bind_some, skipBlank_minus hblank hnext, Cursor.pos_after]
    rfl
  · intro other hother hne
    refine if_neg fun hpos => hne (Cursor.eq_of_pos ?_ hpos)
    exact text_of_mem_segments hother

/-- What it gives there is the opposite of such a number. -/
theorem exists_of_negation_minus {n : Numeral}
    (hn : n ∈ proposals [negation] (minus ++ blanks ++ ending) found) (hstart : n.start = 0) :
    ∃ m ∈ found, m.start = byteLength (minus ++ blanks) ∧ m.stop = n.stop ∧
      n.token = m.token.opposite := by
  have hmade := firstMade_negation_minus hne hblank hnext hfound
    (fun token => if token = n.token then some token else none) n.stop
  cases hfirst : firstMade (fun token => if token.opposite = n.token then some token.opposite
      else none) (byteLength (minus ++ blanks)) n.stop found with
  | none =>
    rw [hfirst, firstMade_eq_none_iff] at hmade
    simpa using hmade n hn hstart rfl
  | some token =>
    obtain ⟨m, hm, hmstart, hmstop, hmtoken⟩ := exists_of_firstMade hfirst
    refine ⟨m, hm, hmstart, hmstop, ?_⟩
    by_contra hother
    rw [if_neg fun h => hother h.symm] at hmtoken
    simp at hmtoken

end Beginning

/-! ## The rules that begin with a number -/

/-- One or less is taken by the rules of the decimals and of the suffixes only. -/
theorem eq_of_accepts_le_unit {rule : Rule} {condition : Condition} {elements : List Element}
    (helements : rule.elements = .number condition :: elements) (hrule : rule ∈ compoundRules)
    {token : Token} (haccepts : condition.accepts token = true)
    (hle : token.value.signed ≤ quantaPerUnit) :
    rule = pointRule ∨ rule = suffixRule := by
  have hunit := quantaPerUnit_pos
  -- A number from two on is above one.
  have habove : ∀ {low : Nat}, 2 ≤ low →
      ¬((low * quantaPerUnit : Nat) : Int) ≤ token.value.signed := by
    intro low hlow hge
    have := Nat.mul_le_mul_right quantaPerUnit hlow
    omega
  have hexact : ∀ {n : Nat}, 2 ≤ n → ¬token.value.Is n := by
    intro n hn his
    refine habove hn (Int.le_of_eq ?_)
    rw [his, Int.natCast_mul]
  have hcount : ¬thousandsCount.accepts token = true := by
    intro h
    have hbetween := accepts_all.mp h _ List.mem_cons_self
    exact habove (Nat.le_refl 2) ((accepts_between_iff (by decide) (by decide)).mp hbetween).1
  simp only [compoundRules, List.mem_cons, List.not_mem_nil, or_false] at hrule
  rcases hrule with rfl | rfl | rfl | rfl | rfl | rfl | rfl | rfl | rfl | rfl <;>
    cases helements
  · exact absurd ((accepts_equals_iff (by decide)).mp haccepts) (hexact (by decide))
  · obtain ⟨ten, hten, hvalue⟩ := accepts_tens_iff.mp haccepts
    have htwo : ∀ ten ∈ [20, 30, 40, 50, 60, 70, 80, 90], 2 ≤ ten := by decide
    exact absurd hvalue (hexact (htwo ten hten))
  · exact absurd ((accepts_between_iff (by decide) (by decide)).mp haccepts).1
      (habove (Nat.le_refl 2))
  · exact Or.inl rfl
  · exact Or.inr rfl
  · exact absurd haccepts hcount
  · exact absurd haccepts hcount

/-- Apart from the opposites, what the rules make at the beginning begins with a number. -/
theorem opposite_or_number_first {rules : Registry} (hrules : rules ⊆ spanishRules)
    {text rest : Text} (htext : text = minus ++ rest) {found : List Numeral}
    (hfound : ∀ n ∈ found, n.StandsIn text) {n : Numeral} (hn : n ∈ proposals rules text found)
    (hstart : n.start = 0) :
    ∃ rule ∈ rules, rule = negation ∧ n ∈ proposals [negation] text found ∨
      ∃ condition elements, rule.elements = .number condition :: elements ∧
        ∃ pieces, Assembles text rule pieces n.key ∧ ∀ piece ∈ pieces, piece.Known found := by
  subst htext
  obtain ⟨rule, hrule, hproposed⟩ : ∃ rule ∈ rules, n ∈ proposals [rule] (minus ++ rest) found := by
    simpa [proposals] using hn
  obtain ⟨_, hsame, _, pieces, hassembles, hpieces⟩ :=
    assembles_of_mem_proposals (fun _ => 0) hfound hproposed
  obtain rfl := List.mem_singleton.mp hsame
  have hassembles' := hassembles
  generalize hkey : n.key = key at hassembles
  cases hassembles with
  | @intro element elements piece _ _ _ helements hfits _ _ _ =>
    have hpiece : piece.start = 0 := (congrArg Prod.fst hkey).symm.trans hstart
    cases element with
    | number condition =>
      exact ⟨_, hrule, Or.inr ⟨condition, elements, helements, _, hkey ▸ hassembles',
        fun p hp => (hpieces p hp).1⟩⟩
    | text pattern =>
      obtain ⟨here, capture, there, hhere, hread, _⟩ := hfits
      rw [hpiece, cursorAt?_eq_some] at hhere
      obtain rfl : here = Cursor.start (minus ++ rest) := Cursor.eq_of_pos hhere.1 hhere.2
      obtain ⟨_, hread, _⟩ := Pattern.readBounded?_eq_some.mp hread
      have hreads := Option.ne_none_iff_exists'.mpr ⟨_, hread⟩
      have hrule' := eq_negation_of_read (hrules hrule) helements hreads
      exact ⟨_, hrule, Or.inl ⟨hrule', hrule' ▸ hproposed⟩⟩

/-! ## Where the point is read -/

/-- The pattern of the word before decimals. -/
def pointPattern : Pattern := .caseless ["punto".toList]

/-- The places of a text where a pattern reads. -/
def placesOf (pattern : Pattern) (text : Text) : List Cursor :=
  (segments text).filter fun here => (pattern.readBounded? here).isSome

theorem elements_pointRule :
    pointRule.elements = [.number .any, .text pointPattern, .number .unscaled] := rfl

theorem elements_suffixRule : suffixRule.elements = [.number .any, .text suffixPattern] := rfl

theorem pointRule_mem_compoundRules : pointRule ∈ compoundRules := by
  simp [pointRule, compoundRules]

theorem suffixRule_mem_compoundRules : suffixRule ∈ compoundRules := by
  simp [suffixRule, compoundRules]

theorem mem_patternsOf_of_compound {rule : Rule} (hrule : rule ∈ compoundRules)
    {pattern : Pattern} (hpattern : .text pattern ∈ rule.elements) :
    pattern ∈ patternsOf spanishRules :=
  mem_patternsOf.mpr ⟨rule, List.mem_append_right _ hrule, hpattern⟩

theorem beginsUnblank_point : pointPattern.BeginsUnblank :=
  beginsUnblank_of_mem (mem_patternsOf_of_compound pointRule_mem_compoundRules
    (by simp [elements_pointRule]))

theorem beginsUnblank_suffix : suffixPattern.BeginsUnblank :=
  beginsUnblank_of_mem (mem_patternsOf_of_compound suffixRule_mem_compoundRules
    (by simp [elements_suffixRule]))

/-- What a pattern reads between boundaries it reads at one of its places. -/
theorem mem_placesOf {pattern : Pattern} (hunblank : pattern.BeginsUnblank) {text : Text}
    {here there : Cursor} {capture : Capture} (hhere : here.text = text)
    (hread : pattern.readBounded? here = some (capture, there)) : here ∈ placesOf pattern text := by
  obtain ⟨hopens, hread', _⟩ := Pattern.readBounded?_eq_some.mp hread
  obtain ⟨hreach, hreads⟩ := Pattern.read?_eq_some_iff.mp hread'
  obtain ⟨c, rest, hcons⟩ := List.exists_cons_of_ne_nil hreads.1
  have hahead : here.ahead = c :: (rest ++ there.ahead) := by
    rw [hreach.1, hcons, List.cons_append]
  refine List.mem_filter.mpr ⟨mem_segments.mpr ⟨hhere, c, _, hahead, ?_, ?_⟩, ?_⟩
  · exact hunblank _ _ hreads c (by rw [hcons, List.head?_cons])
  · unfold Cursor.atBoundary at hopens
    rwa [hahead] at hopens
  · exact Option.isSome_iff_exists.mpr ⟨_, hread⟩

/-- Neither another point nor a suffix stands behind a point. -/
def LastPoint (text : Text) : Prop :=
  ∀ point ∈ placesOf pointPattern text,
    ∀ here ∈ placesOf pointPattern text ++ placesOf suffixPattern text, here.pos ≤ point.pos

/-- A number without a scale that `more` has next behind a point is among those found, when one
of those at the beginning is next before the point. -/
def DecimalsKnown (text : Text) (found more : List Numeral) : Prop :=
  ∀ point ∈ placesOf pointPattern text, ∀ reading ∈ pointPattern.readBounded? point,
    ∀ n ∈ found, n.start = 0 → skipBlankAt text n.stop = point.pos →
      ∀ m ∈ more, m.start = reading.2.skipBlank.pos → m.token.grain = none → m ∈ found

/-- The text has one point at most and no suffix behind it, and no pass finds a number up to the
point before it finds the decimals behind. -/
structure DecimalsInTime (text : Text) (passes : Nat) : Prop where
  last : LastPoint text
  in_time : ∀ k < passes, DecimalsKnown text (candidates spanishRules text (k + 1))
    (candidates spanishRules text passes)

/-- There is nothing to ask of a text without a point. -/
theorem DecimalsInTime.of_no_point {text : Text} (h : placesOf pointPattern text = [])
    (passes : Nat) : DecimalsInTime text passes := by
  constructor
  · intro point hpoint
    simp [h] at hpoint
  · intro k _ point hpoint
    simp [h] at hpoint

/-- Decimals that the first pass finds are in time. -/
theorem DecimalsInTime.of_first_pass {text : Text} {passes : Nat}
    (hlast : LastPoint text)
    (hfirst : ∀ point ∈ placesOf pointPattern text, ∀ n ∈ candidates spanishRules text passes,
      point.pos < n.start → n ∈ candidates spanishRules text 1) :
    DecimalsInTime text passes := by
  refine ⟨hlast, ?_⟩
  rintro k - point hpoint ⟨capture, there⟩ hreading - - - - m hm hmstart -
  obtain ⟨_, hread, _⟩ := Pattern.readBounded?_eq_some.mp hreading
  have hbehind : point.pos < there.pos := by
    have := byteLength_pos (Pattern.read?_eq_some hread).1
    rw [(Cursor.reaches_of_read? hread).pos_eq]
    omega
  have hskip : there.pos ≤ there.skipBlank.pos := by
    have := le_skipBlankAt there.text there.pos
    rwa [skipBlankAt_pos] at this
  have hone := hfirst point hpoint m hm (by simp only at hmstart; omega)
  exact (candidates_beginning spanishRules text (Nat.le_add_left 1 k)).subset hone

/-! ## One pass behind -/

/-- A numeral at the beginning, before which the word for the opposite stands, answers to one of
the text by itself: it is the opposite of that one, or else it is at most one and a point is
read. -/
structure Answers (bytes : Nat) (ending : Text) (n m : Numeral) : Prop where
  start : m.start = 0
  stop : n.stop = bytes + m.stop
  token : n.token = m.token.opposite ∨ n.token.value.signed ≤ quantaPerUnit ∧
    ∃ point ∈ placesOf pointPattern ending, point.pos < m.stop

/-- Each numeral that was found at the beginning answers to one of the text by itself that was
found before, and the first found up to an end are opposites. -/
structure Lags (bytes : Nat) (ending : Text) (found before : List Numeral) : Prop where
  answered : ∀ n ∈ found, n.start = 0 → ∃ m ∈ before, Answers bytes ending n m
  first : ∀ stop, firstMade some 0 (bytes + stop) found =
    (firstMade some 0 stop before).map Token.opposite

section Step

variable {a ending : Text} (hcut : isBoundary a.reverse.head? ending.head? = true)
  {found before later : List Numeral} (hends : EndsWith (byteLength a) found later)
  (hbefore : ∀ n ∈ before, n.StandsIn ending)
  (hlast : LastPoint ending)

include hlast in
/-- A numeral that stands before another point or a suffix answers as an opposite. -/
theorem Answers.eq_opposite {bytes : Nat} {n m : Numeral} (h : Answers bytes ending n m)
    {here : Cursor} (hplace : here ∈ placesOf pointPattern ending ++ placesOf suffixPattern ending)
    (hpos : here.pos = skipBlankAt ending m.stop) : n.token = m.token.opposite := by
  refine h.token.resolve_right ?_
  rintro ⟨_, point, hpoint, hlt⟩
  have hle := hlast point hpoint here hplace
  have hskip := le_skipBlankAt ending m.stop
  omega

theorem Answers.le_unit {bytes : Nat} {n m : Numeral} (h : Answers bytes ending n m)
    (hnonneg : 0 ≤ m.token.value.signed) : n.token.value.signed ≤ quantaPerUnit := by
  rcases h.token with htoken | ⟨hle, _⟩
  · rw [htoken, Token.opposite, Value.signed_neg]
    omega
  · exact hle

include hcut hends hbefore hlast

variable {first m : Numeral}

/-- The scaled opposite of a number is the opposite of the scaled number. -/
theorem exists_scaled_of_answers (hm : m ∈ before) (hanswers : Answers (byteLength a) ending first m)
    {others : List Piece} {stop : Nat} {token : Token}
    (hrow : Row (a ++ ending) [.text suffixPattern] others first.stop stop)
    (hothers : ∀ piece ∈ others, piece.Known found)
    (happly : suffixRule.apply (.number first.token :: others.map Piece.node) = some token) :
    ∃ scaled ∈ proposals compoundRules ending before, scaled.start = 0 ∧
      stop = byteLength a + scaled.stop ∧ token = scaled.token.opposite := by
  obtain ⟨others', stop, rfl, hrow', hnodes, -⟩ := hrow.past hcut hends hanswers.stop hothers
  obtain ⟨here, there, capture, letter, rest, htext, hpos, hread, -, -, rfl, hletter, hend⟩ :=
    hrow'.text_first
  cases hend
  have hplace := mem_placesOf beginsUnblank_suffix htext hread
  rw [hanswers.eq_opposite hlast (List.mem_append_right _ hplace) hpos, ← hnodes,
    List.map_singleton, hletter, apply_suffixRule] at happly
  obtain ⟨scale, hscale, hopposite⟩ := Option.bind_eq_some_iff.mp happly
  rw [scaledBy_opposite] at hopposite
  obtain ⟨scaled, hscaled, rfl⟩ := Option.map_eq_some_iff.mp hopposite
  have happly' : suffixRule.apply (.number m.token :: [letter].map Piece.node) = some scaled := by
    rw [List.map_singleton, hletter, apply_suffixRule, hscale, Option.bind_some]
    exact hscaled
  have hknown : ∀ p ∈ [letter], p.Known before :=
    List.forall_mem_singleton.mpr (Piece.known_of_capture hletter)
  obtain ⟨other, hother, hkey⟩ := exists_proposal_of_row elements_suffixRule
    suffixRule_mem_compoundRules hbefore hm rfl hrow' hknown happly'
  obtain ⟨hstart, hstop, htoken⟩ := Numeral.key_eq_iff.mp hkey
  exact ⟨other, hother, hstart.trans hanswers.start, by rw [hstop], by rw [htoken]⟩

/-- An opposite and its decimals are at most one together, and the number with the decimals is
found by then. -/
theorem exists_sum_of_answers (hknown : DecimalsKnown ending before later) (hm : m ∈ before)
    (hnonneg : 0 ≤ m.token.value.signed) (hanswers : Answers (byteLength a) ending first m)
    {others : List Piece} {stop : Nat} {token : Token}
    (hrow : Row (a ++ ending) [.text pointPattern, .number .unscaled] others first.stop stop)
    (hothers : ∀ piece ∈ others, piece.Known found)
    (happly : pointRule.apply (.number first.token :: others.map Piece.node) = some token) :
    token.value.signed ≤ quantaPerUnit ∧
      ∃ sum ∈ proposals compoundRules ending before, sum.start = 0 ∧
        stop = byteLength a + sum.stop ∧
          ∃ point ∈ placesOf pointPattern ending, point.pos < sum.stop := by
  obtain ⟨others', stop, rfl, hrow', hnodes, hothers'⟩ :=
    hrow.past hcut hends hanswers.stop hothers
  obtain ⟨here, there, capture, word, rest, htext, hpos, hread, hthere, hlt, rfl, hword, hrow''⟩ :=
    hrow'.text_first
  obtain ⟨b, hb, hbstart, haccepts, decimals, nothing, rfl, hdecimals, hof, hend⟩ :=
    hrow''.number_first (List.forall_mem_cons.mp hothers').2
  cases hend
  have hplace := mem_placesOf beginsUnblank_point htext hread
  have hgrain := accepts_unscaled.mp haccepts
  -- The decimals were found before, and the number takes them too.
  have hbbefore : b ∈ before := by
    refine hknown here hplace ⟨capture, there⟩ hread m hm hanswers.start hpos.symm b hb ?_ hgrain
    rw [hbstart, ← hthere, skipBlankAt_pos]
  have hdecimal := b.token.value.asDecimals_lt_one
  obtain ⟨sum, hsum⟩ := Value.exists_add_of_lt_unit hnonneg hdecimal
  have happly' : pointRule.apply (.number m.token :: [word, decimals].map Piece.node) =
      some ⟨sum, none⟩ := by
    rw [List.map_cons, List.map_singleton, hword, hdecimals, apply_pointRule hgrain, hsum]
    rfl
  have hknown' : ∀ p ∈ [word, decimals], p.Known before :=
    List.forall_mem_cons.mpr
      ⟨Piece.known_of_capture hword, List.forall_mem_singleton.mpr (hof before hbbefore)⟩
  obtain ⟨other, hother, hkey⟩ := exists_proposal_of_row elements_pointRule
    pointRule_mem_compoundRules hbefore hm rfl hrow' hknown' happly'
  obtain ⟨hstart, hstop, -⟩ := Numeral.key_eq_iff.mp hkey
  -- The opposite takes them to no more than one.
  rw [hanswers.eq_opposite hlast (List.mem_append_left _ hplace) hpos, ← hnodes,
    List.map_cons, List.map_singleton, hword, hdecimals, apply_pointRule hgrain] at happly
  obtain ⟨value, hvalue, rfl⟩ := Option.map_eq_some_iff.mp happly
  have hend := (hbefore b hbbefore).start_lt_stop
  have hskip := le_skipBlankAt ending there.pos
  refine ⟨Value.add?_le_unit hvalue ?_, other, hother, hstart.trans hanswers.start,
    by rw [hstop], here, hplace, by omega⟩
  rw [Token.opposite, Value.signed_neg]
  omega

end Step

/-- The rules of sums propose nothing at the beginning. -/
theorem Lags.firstMade_sums {rest ending : Text} {bytes : Nat} {found before : List Numeral}
    (hlags : Lags bytes ending found before)
    (hnonneg : ∀ n ∈ before, n.start = 0 → 0 ≤ n.token.value.signed)
    (hfound : ∀ n ∈ found, n.StandsIn (minus ++ rest)) (f : Token → Option Token) (stop : Nat) :
    firstMade f 0 stop (proposals rulesBeforeNegation (minus ++ rest) found) = none := by
  refine firstMade_eq_none_iff.mpr fun n hn hstart _ => ?_
  have hnames : ∀ rule ∈ rulesBeforeNegation,
      rule.name ∉ [negation.name, pointRule.name, suffixRule.name] := by decide
  have hcompound : rulesBeforeNegation ⊆ compoundRules := List.take_subset 3 _
  obtain ⟨rule, hrule, ⟨rfl, -⟩ | ⟨condition, elements, helements, pieces, hassembles,
      hpieces⟩⟩ :=
    opposite_or_number_first (List.subset_append_of_subset_right _ hcompound) rfl hfound hn hstart
  · exact absurd List.mem_cons_self (hnames _ hrule)
  · obtain ⟨first, hfirst, hfirststart, haccepts, -⟩ := hassembles.number_first helements hpieces
    obtain ⟨m, hm, hanswers⟩ := hlags.answered first hfirst (hfirststart.trans hstart)
    have hle := hanswers.le_unit (hnonneg m hm hanswers.start)
    rcases eq_of_accepts_le_unit helements (hcompound hrule) haccepts hle with rfl | rfl
    · exact absurd (by simp) (hnames _ hrule)
    · exact absurd (by simp) (hnames _ hrule)

section Lagging

variable {blanks ending : Text} (hne : blanks ≠ []) (hblank : ∀ c ∈ blanks, isBlank c = true)
  (hnext : ∀ c, ending.head? = some c → isBlank c = false)

include hne hblank hnext

section Pass

variable {found before later : List Numeral}
  (hfound : ∀ n ∈ found, n.StandsIn (minus ++ blanks ++ ending))
  (hbefore : ∀ n ∈ before, n.StandsIn ending)
  (hends : EndsWith (byteLength (minus ++ blanks)) found later)
  (hnewer : ∀ n ∈ proposals compoundRules ending before, ∃ m ∈ later, m.key = n.key)
  (hlast : LastPoint ending)
  (hknown : DecimalsKnown ending before later)
  (hnonneg : ∀ n ∈ before, n.start = 0 → 0 ≤ n.token.value.signed)
  (hlags : Lags (byteLength (minus ++ blanks)) ending found before)

include hfound hbefore hends hnewer hlast hknown hnonneg hlags

/-- What a pass proposes at the beginning answers to a numeral of the text. -/
theorem exists_answer {n : Numeral}
    (hn : n ∈ proposals compoundRules (minus ++ blanks ++ ending) found) (hstart : n.start = 0) :
    ∃ m ∈ later, Answers (byteLength (minus ++ blanks)) ending n m := by
  have hcut := boundary_after_blanks hne hblank ending
  obtain ⟨rule, hrule, ⟨-, hopposite⟩ | ⟨condition, elements, helements, pieces, hassembles,
      hpieces⟩⟩ :=
    opposite_or_number_first (List.subset_append_right _ _) (List.append_assoc _ _ _) hfound hn
      hstart
  · obtain ⟨m, hm, hmstart, hmstop, htoken⟩ :=
      exists_of_negation_minus hne hblank hnext hfound hopposite hstart
    obtain ⟨m', hm', hstart', hstop', htoken'⟩ :=
      hends.exists_of_start hm (hmstart.trans (Nat.add_zero _).symm)
    exact ⟨m', hm', hstart', hmstop.symm.trans hstop', Or.inl (htoken' ▸ htoken)⟩
  · obtain ⟨first, hfirst, hfirststart, haccepts, others, hrow, hothers, happly⟩ :=
      hassembles.number_first helements hpieces
    obtain ⟨m, hm, hanswers⟩ := hlags.answered first hfirst (hfirststart.trans hstart)
    have hle := hanswers.le_unit (hnonneg m hm hanswers.start)
    rcases eq_of_accepts_le_unit helements hrule haccepts hle with rfl | rfl
    · cases helements
      obtain ⟨hsumle, sum, hsum, hsumstart, hsumstop, hpoint⟩ :=
        exists_sum_of_answers hcut hends hbefore hlast hknown hm (hnonneg m hm hanswers.start)
          hanswers hrow hothers happly
      obtain ⟨m', hm', hkey⟩ := hnewer sum hsum
      obtain ⟨hstart', hstop', -⟩ := Numeral.key_eq_iff.mp hkey
      rw [← hstop'] at hsumstop hpoint
      exact ⟨m', hm', hstart'.trans hsumstart, hsumstop, Or.inr ⟨hsumle, hpoint⟩⟩
    · cases helements
      obtain ⟨scaled, hscaled, hscaledstart, hscaledstop, htoken⟩ :=
        exists_scaled_of_answers hcut hends hbefore hlast hm hanswers hrow hothers happly
      obtain ⟨m', hm', hkey⟩ := hnewer scaled hscaled
      obtain ⟨hstart', hstop', htoken'⟩ := Numeral.key_eq_iff.mp hkey
      rw [← hstop'] at hscaledstop
      rw [← htoken'] at htoken
      exact ⟨m', hm', hstart'.trans hscaledstart, hscaledstop, Or.inl htoken⟩

/-- One pass more on both sides. -/
theorem Lags.grow (hbegins : before <+: later) :
    Lags (byteLength (minus ++ blanks)) ending
      (grow compoundRules (minus ++ blanks ++ ending) found) later := by
  have hanswer := @exists_answer blanks ending hne hblank hnext found before later hfound hbefore
    hends hnewer hlast hknown hnonneg hlags
  refine ⟨fun n hn hstart => ?_, fun stop => ?_⟩
  · rcases List.mem_append.mp hn with hn | hn
    · obtain ⟨m, hm, hanswers⟩ := hlags.answered n hn hstart
      exact ⟨m, hbegins.subset hm, hanswers⟩
    · exact hanswer (mem_of_mem_keepNew hn) hstart
  · have hopposite : firstMade some 0 (byteLength (minus ++ blanks) + stop)
        (proposals [negation] (minus ++ blanks ++ ending) found) =
          (firstMade some 0 stop later).map Token.opposite := by
      rw [firstMade_negation_minus hne hblank hnext hfound, ← firstMade_map]
      exact @firstMade_of_endsWith _ 0 stop _ _ _ hends
    have hsums := hlags.firstMade_sums hnonneg (List.append_assoc _ _ _ ▸ hfound) some
      (byteLength (minus ++ blanks) + stop)
    rw [← List.append_assoc] at hsums
    rw [firstMade_grow, compoundRules_eq, ← List.singleton_append, firstMade_proposals_append,
      firstMade_proposals_append, hsums, Option.none_or, hopposite, hlags.first]
    cases hfirst : firstMade some 0 stop before with
    | some token =>
      obtain ⟨newer, rfl⟩ := hbegins
      rw [firstMade_append, hfirst]
      rfl
    | none =>
      rw [Option.map_none, Option.none_or]
      cases hnext : firstMade some 0 stop later with
      | some token => rfl
      | none =>
        -- What the rules behind the opposite propose would answer to a number of the text.
        rw [Option.map_none, Option.none_or, firstMade_eq_none_iff]
        intro n hn hstart hstop
        have hproposed : n ∈ proposals compoundRules (minus ++ blanks ++ ending) found := by
          rw [compoundRules_eq, ← List.singleton_append, proposals_append, proposals_append]
          exact List.mem_append_right _ (List.mem_append_right _ hn)
        obtain ⟨m, hm, hanswers⟩ := hanswer hproposed hstart
        have hmstop : m.stop = stop := Nat.add_left_cancel (hanswers.stop.symm.trans hstop)
        exact absurd (firstMade_eq_none_iff.mp hnext m hm hanswers.start hmstop) (by simp)

end Pass

omit hne hblank hnext in
/-- The first pass finds nothing at the beginning. -/
theorem lags_first_pass (bytes : Nat) :
    Lags bytes ending (candidates spanishRules (minus ++ blanks ++ ending) 1) [] := by
  have hnone : ∀ n ∈ candidates spanishRules (minus ++ blanks ++ ending) 1, n.start ≠ 0 := by
    intro n hn hstart
    have hproposed := mem_of_mem_keepNew hn
    obtain ⟨rule, -, ⟨-, hopposite⟩ | ⟨condition, elements, helements, pieces, hassembles,
        hpieces⟩⟩ :=
      opposite_or_number_first (List.Subset.refl _) (List.append_assoc _ _ _) (by simp) hproposed
        hstart
    · obtain ⟨_, hrule, hgiven⟩ := mem_proposals_first.mp hopposite
      rw [List.mem_singleton.mp hrule, given_of_composes rfl] at hgiven
      simp at hgiven
    · obtain ⟨first, hfirst, -⟩ := hassembles.number_first helements hpieces
      simp at hfirst
  refine ⟨fun n hn hstart => absurd hstart (hnone n hn), fun stop => ?_⟩
  exact firstMade_eq_none_iff.mpr fun n hn hstart _ => absurd hstart (hnone n hn)

/-- All passes: what is found at the beginning lags one pass behind what the text finds. -/
theorem lags_candidates {passes : Nat} (htime : DecimalsInTime ending passes)
    (hnonneg : ∀ n ∈ candidates spanishRules ending passes, n.start = 0 →
      0 ≤ n.token.value.signed) (k : Nat) (hk : k + 1 ≤ passes) :
    Lags (byteLength (minus ++ blanks)) ending
      (candidates spanishRules (minus ++ blanks ++ ending) (k + 2))
      (candidates spanishRules ending (k + 1)) := by
  have hends := candidates_after (boundary_after_blanks hne hblank ending) spanishRules
  rw [candidates_succ, composing_spanishRules]
  induction k with
  | zero =>
    refine Lags.grow hne hblank hnext standsIn_of_mem_candidates (by simp) (hends 1) ?_ htime.last
      ?_ (by simp) (lags_first_pass _) List.nil_prefix
    · intro n hn
      obtain ⟨m, hm, hkey⟩ := @key_mem_of_proposed [] _ _
        (mem_proposals_first.mpr (by
          obtain ⟨rule, hrule, hgiven⟩ := mem_proposals_first.mp hn
          exact ⟨rule, List.mem_append_right _ hrule, hgiven⟩) :
            n ∈ proposals spanishRules ending [])
      exact ⟨m, hm.resolve_left List.not_mem_nil, hkey⟩
    · intro _ _ _ _ n hn
      simp at hn
  | succ k ih =>
    have hsub : candidates spanishRules ending (k + 2) ⊆ candidates spanishRules ending passes :=
      (candidates_beginning spanishRules ending hk).subset
    have hbegins := candidates_prefix_succ spanishRules ending (k + 1)
    have hlags := ih (by omega)
    rw [← composing_spanishRules, ← candidates_succ] at hlags
    refine Lags.grow hne hblank hnext standsIn_of_mem_candidates standsIn_of_mem_candidates
      (hends (k + 2)) ?_ htime.last ?_ ?_ hlags hbegins
    · intro n hn
      obtain ⟨m, hm, hkey⟩ := key_mem_of_proposed hn
      rw [candidates_succ, composing_spanishRules]
      exact ⟨m, List.mem_append.mpr hm, hkey⟩
    · intro point hpoint reading hreading n hn hstart hskip m hm
      exact htime.in_time k (by omega) point hpoint reading hreading n hn hstart hskip m (hsub hm)
    · exact fun n hn => hnonneg n (hsub (hbegins.subset hn))

end Lagging

/-! ## The whole text -/

/-- What is found before the opposites of pass `k + 1`: all that `k` passes find, and what the
rules before the opposite propose. -/
def foundBeforeOpposites (text : Text) (k : Nat) : List Numeral :=
  candidates spanishRules text k ++
    proposals rulesBeforeNegation text (candidates spanishRules text k)

/-- After "menos" and blanks, a numeral of the whole text gives one numeral of the whole. It is
the opposite unless another is found before. None is when no number at the beginning of the text
is below zero and its decimals, if there are any, are found in time. -/
theorem the_opposite_of_a_whole_number_is_read_unless_its_decimals_come_late
    {blanks ending : Text} {passes : Nat} {e : Numeral} (hne : blanks ≠ [])
    (hblank : ∀ c ∈ blanks, isBlank c = true)
    (hpasses : byteLength (minus ++ blanks ++ ending) ≤ passes)
    (hanalyze : analyze spanishRules ending passes = [e]) (hcovers : e.covers ending = true) :
    ∃ k f, FoundInPass ending e k ∧
      analyze spanishRules (minus ++ blanks ++ ending) passes = [f] ∧
      f.covers (minus ++ blanks ++ ending) = true ∧
      (f.token = e.token.opposite ↔
        ∀ n, (foundBeforeOpposites (minus ++ blanks ++ ending) k).find?
          (·.covers (minus ++ blanks ++ ending)) = some n → n.token = e.token.opposite) ∧
      ((∀ n ∈ candidates spanishRules ending passes, n.start = 0 → 0 ≤ n.token.value.signed) →
        DecimalsInTime ending passes → f.token = e.token.opposite) := by
  have hfirst := find?_of_analyze hanalyze hcovers
  have hmem := List.mem_of_find?_eq_some hfirst
  have hnext := head_not_blank_of_mem hmem (Numeral.covers_iff.mp hcovers).1
  have hcut := boundary_after_blanks hne hblank ending
  have hlength : byteLength (minus ++ blanks ++ ending) =
      byteLength (minus ++ blanks) + byteLength ending := byteLength_append _ _
  have hword : 5 ≤ byteLength (minus ++ blanks) := by
    rw [byteLength_append]
    exact Nat.le_add_right 5 _
  obtain ⟨k, hk, hpass⟩ := exists_foundInPass (by omega) hmem
  obtain ⟨j, rfl⟩ := Nat.exists_eq_add_of_le' hpass.pos
  have he := find?_of_mem_beginning (candidates_beginning spanishRules ending (by omega))
    hpass.found hfirst
  -- The opposite is proposed in the next pass.
  have hopposite : firstMade some 0 (byteLength (minus ++ blanks ++ ending))
      (proposals [negation] (minus ++ blanks ++ ending)
        (candidates spanishRules (minus ++ blanks ++ ending) (j + 1))) = some e.token.opposite := by
    rw [firstMade_negation_minus hne hblank hnext standsIn_of_mem_candidates, hlength]
    have hends := candidates_after hcut spanishRules (j + 1)
    exact (firstMade_of_endsWith (f := fun token => some token.opposite) hends).trans
      (firstMade_of_find? he rfl)
  obtain ⟨n, hn, htoken⟩ := find?_of_firstMade hopposite
  have hnextpass : (candidates spanishRules (minus ++ blanks ++ ending) (j + 2)).find?
      (·.covers (minus ++ blanks ++ ending)) =
        some (((foundBeforeOpposites (minus ++ blanks ++ ending) (j + 1)).find?
          (·.covers (minus ++ blanks ++ ending))).getD n) :=
    find?_candidates_succ compoundRules_eq hn
  have hfind := find?_of_beginning (candidates_beginning spanishRules (minus ++ blanks ++ ending)
    (by omega : j + 2 ≤ passes)) hnextpass
  have hwhole := List.find?_some hfind
  refine ⟨j + 1, _, hpass, analyze_of_find? hfind, hwhole, ?_, ?_⟩
  · cases (foundBeforeOpposites (minus ++ blanks ++ ending) (j + 1)).find?
        (·.covers (minus ++ blanks ++ ending)) with
    | none => simp [htoken]
    | some m => simp
  · intro hnonneg htime
    obtain ⟨last, rfl⟩ := Nat.exists_eq_add_of_le' (by omega : 1 ≤ passes)
    have hlags := (lags_candidates hne hblank hnext htime hnonneg last (Nat.le_refl _)).first
      (byteLength ending)
    rw [candidates_of_byteLength_le growing_spanishRules hpasses (Nat.le_succ _),
      ← hlength, firstMade_of_find? hfirst (show some e.token = some e.token from rfl)] at hlags
    obtain ⟨m, hm, hmtoken⟩ := find?_of_firstMade hlags
    rw [hfind] at hm
    rw [Option.some.inj hm, hmtoken]

/-- The opposites of 2000 and of 3.5: "dos mil" has no point, and in "tres punto cinco" the first
pass finds 5. -/
theorem the_opposites_of_two_thousand_and_three_point_five :
    (([' '] ≠ ([] : Text) ∧ (∀ c ∈ [' '], isBlank c = true) ∧
      byteLength (minus ++ [' '] ++ "dos mil".toList) ≤ 32 ∧
      byteLength (minus ++ [' '] ++ "tres punto cinco".toList) ≤ 32) ∧
      analyze spanishRules "dos mil".toList 32 =
        [⟨0, "dos mil".toList, ⟨.ofNat 2000, some 3⟩, "thousands"⟩] ∧
      (∀ n ∈ candidates spanishRules "dos mil".toList 32,
        n.start = 0 → 0 ≤ n.token.value.signed) ∧
      DecimalsInTime "dos mil".toList 32 ∧
      analyze spanishRules "tres punto cinco".toList 32 =
        [⟨0, "tres punto cinco".toList, ⟨(Value.ofNat 7).divNat 2 Nat.two_pos, none⟩,
          pointRule.name⟩] ∧
      (∀ n ∈ candidates spanishRules "tres punto cinco".toList 32,
        n.start = 0 → 0 ≤ n.token.value.signed) ∧
      DecimalsInTime "tres punto cinco".toList 32) ∧
    (∃ f, analyze spanishRules (minus ++ [' '] ++ "dos mil".toList) 32 = [f] ∧
      f.covers (minus ++ [' '] ++ "dos mil".toList) = true ∧
      f.token = ⟨(Value.ofNat 2000).neg, some 3⟩) ∧
    ∃ f, analyze spanishRules (minus ++ [' '] ++ "tres punto cinco".toList) 32 = [f] ∧
      f.covers (minus ++ [' '] ++ "tres punto cinco".toList) = true ∧
      f.token = ⟨((Value.ofNat 7).divNat 2 Nat.two_pos).neg, none⟩ := by
  have hne : [' '] ≠ ([] : Text) := by decide
  have hblank : ∀ c ∈ [' '], isBlank c = true := by decide
  have hshort : byteLength (minus ++ [' '] ++ "dos mil".toList) ≤ 32 := by decide
  have hlong : byteLength (minus ++ [' '] ++ "tres punto cinco".toList) ≤ 32 := by decide
  have hthousands : analyze spanishRules "dos mil".toList 32 =
      [⟨0, "dos mil".toList, ⟨.ofNat 2000, some 3⟩, "thousands"⟩] := by
    decide +kernel
  have hpositive : ∀ n ∈ candidates spanishRules "dos mil".toList 32,
      n.start = 0 → 0 ≤ n.token.value.signed := by
    decide +kernel
  have htime : DecimalsInTime "dos mil".toList 32 :=
    DecimalsInTime.of_no_point (by decide) 32
  have hpoint : analyze spanishRules "tres punto cinco".toList 32 =
      [⟨0, "tres punto cinco".toList, ⟨(Value.ofNat 7).divNat 2 Nat.two_pos, none⟩,
        pointRule.name⟩] := by
    decide +kernel
  have hpositive' : ∀ n ∈ candidates spanishRules "tres punto cinco".toList 32,
      n.start = 0 → 0 ≤ n.token.value.signed := by
    decide +kernel
  have htime' : DecimalsInTime "tres punto cinco".toList 32 :=
    DecimalsInTime.of_first_pass (by unfold LastPoint; decide +kernel) (by decide +kernel)
  obtain ⟨-, f, -, hf, hcovers, -, hopposite⟩ :=
    the_opposite_of_a_whole_number_is_read_unless_its_decimals_come_late hne hblank hshort
      hthousands (by decide)
  obtain ⟨-, f', -, hf', hcovers', -, hopposite'⟩ :=
    the_opposite_of_a_whole_number_is_read_unless_its_decimals_come_late hne hblank hlong hpoint
      (by decide)
  exact ⟨⟨⟨hne, hblank, hshort, hlong⟩, hthousands, hpositive, htime, hpoint, hpositive', htime'⟩,
    ⟨f, hf, hcovers, hopposite hpositive htime⟩,
    ⟨f', hf', hcovers', hopposite' hpositive' htime'⟩⟩

/-- The opposite of 3.35 is not read: the sum of -3 and 0.35 is found in the same pass as 3.35,
one before its opposite. -/
theorem the_opposite_of_three_point_thirty_five_is_not_read :
    ((analyze spanishRules "tres punto treinta y cinco".toList 32).map
        fun n => (n.start, n.stop, n.token.text)) = [(0, 26, "3.35".toList)] ∧
      ((analyze spanishRules (minus ++ [' '] ++ "tres punto treinta y cinco".toList) 32).map
        fun n => (n.start, n.stop, n.token.text)) = [(0, 32, "-2.65".toList)] := by
  decide +kernel

end SpanishNumerals
