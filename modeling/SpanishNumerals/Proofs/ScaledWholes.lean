-- The scale of a whole number. Behind a number of the whole text a suffix scales that number,
-- unless another number of the whole is found before. The rules of sums may find one: they look
-- at the values of their numbers and take a scaled one for a part of a sum.
import SpanishNumerals.Proofs.Separators
import SpanishNumerals.Proofs.SimpleRules
import SpanishNumerals.Proofs.Suffixes
import SpanishNumerals.Proofs.WholeNumbers

namespace SpanishNumerals

/-! ## Rules that take no scaled number -/

/-- The element takes neither a scaled number nor a suffix. -/
def Element.RefusesScaled : Element → Prop
  | .text pattern => pattern ≠ suffixPattern
  | .number condition => ∀ token, condition.accepts token = true → token.grain = none

/-- The rule ends with such an element. -/
def Rule.RefusesScaled (rule : Rule) : Prop :=
  ∃ element, rule.elements.getLast? = some element ∧ element.RefusesScaled

/-- All the rules but those of sums, of the opposite and of the suffixes. -/
def guardedRules : Registry :=
  figureRules ++ wordRules ++ compoundRules[4] :: compoundRules.drop 6

theorem guardedRules_subset : guardedRules ⊆ spanishRules := by
  intro rule hrule
  simp only [guardedRules, List.mem_append, List.mem_cons] at hrule
  rw [spanishRules, List.mem_append, List.mem_append]
  rcases hrule with hrule | rfl | hrule
  · exact Or.inl hrule
  · exact Or.inr (List.getElem_mem _)
  · exact Or.inr (List.mem_of_mem_drop hrule)

theorem compoundRules_eq_suffix :
    compoundRules = compoundRules.take 5 ++ suffixRule :: compoundRules.drop 6 := rfl

theorem compoundRules_eq_sums : compoundRules =
    rulesBeforeNegation ++ ([negation] ++ ([compoundRules[4]] ++
      ([suffixRule] ++ compoundRules.drop 6))) := rfl

theorem refusesScaled_text {pattern : Pattern}
    (h : pattern.follow = none ∨ pattern.source ≠ suffixPattern.source) :
    (Element.text pattern).RefusesScaled := by
  rintro rfl
  rcases h with h | h
  · exact absurd h (by simp [suffixPattern, Pattern.followedBy])
  · exact h rfl

theorem refusesScaled_remainder (high : Binary64) :
    (Element.number (remainderBelow high)).RefusesScaled := by
  intro token h
  simp only [remainderBelow, Condition.accepts, Condition.acceptsAll, Bool.and_eq_true,
    Option.isNone_iff_eq_none] at h
  exact h.2.2.1

theorem refusesScaled_unscaled : (Element.number .unscaled).RefusesScaled := by
  intro token h
  simpa [Condition.accepts] using h

theorem guardedRules_refuse : ∀ rule ∈ guardedRules, rule.RefusesScaled := by
  have hfigures : ∀ rule ∈ figureRules, rule.RefusesScaled := by
    simp only [figureRules, List.forall_mem_cons, List.not_mem_nil, false_implies, implies_true,
      and_true]
    refine ⟨?_, ?_, ?_, ?_, ?_⟩ <;>
      exact ⟨_, rfl, refusesScaled_text (Or.inr (by decide))⟩
  have hwords : ∀ rule ∈ wordRules, rule.RefusesScaled := by
    simp only [wordRules, List.forall_mem_cons, List.not_mem_nil, false_implies, implies_true,
      and_true]
    refine ⟨?_, ?_, ?_, ?_⟩ <;> exact ⟨_, rfl, refusesScaled_text (Or.inl rfl)⟩
  intro rule hrule
  simp only [guardedRules, compoundRules, List.mem_append] at hrule
  rcases hrule with (hrule | hrule) | hrule
  · exact hfigures rule hrule
  · exact hwords rule hrule
  · simp only [List.getElem_cons_succ, List.getElem_cons_zero, List.drop_succ_cons,
      List.drop_zero, List.mem_cons, List.not_mem_nil, or_false] at hrule
    rcases hrule with rfl | rfl | rfl | rfl | rfl
    · exact ⟨_, rfl, refusesScaled_unscaled⟩
    · exact ⟨_, rfl, refusesScaled_remainder _⟩
    · exact ⟨_, rfl, refusesScaled_text (Or.inl rfl)⟩
    · exact ⟨_, rfl, refusesScaled_remainder _⟩
    · exact ⟨_, rfl, refusesScaled_remainder _⟩

/-! ## Sums that stay out of the way -/

/-- Where a sum and an opposite both stand from one place to an end, they are the same number. -/
def SumsAgree (text : Text) (found : List Numeral) (stop : Nat) : Prop :=
  ∀ n ∈ proposals rulesBeforeNegation text found, ∀ m ∈ proposals [negation] text found,
    n.stop = stop → m.stop = stop → n.start = m.start → n.token = m.token

theorem SumsAgree.of_more {text : Text} {found more : List Numeral} {stop : Nat}
    (h : SumsAgree text more stop) (hfound : ∀ n ∈ found, n.StandsIn text)
    (hmore : ∀ n ∈ more, n.StandsIn text) (hsub : found ⊆ more) : SumsAgree text found stop := by
  intro n hn m hm
  obtain ⟨n', hn', hkey⟩ := proposals_mono hfound hmore hsub hn
  obtain ⟨m', hm', hkey'⟩ := proposals_mono hfound hmore hsub hm
  obtain ⟨hstart, hstop, htoken⟩ := Numeral.key_eq_iff.mp hkey
  obtain ⟨hstart', hstop', htoken'⟩ := Numeral.key_eq_iff.mp hkey'
  rw [← hstart, ← hstop, ← htoken, ← hstart', ← hstop', ← htoken']
  exact h n' hn' m' hm'

/-- The rules of sums stay out of the way of a suffix that the whole has and the text has not: no
sum ends with the whole, and where a sum and an opposite both stand up to the end of the text
they are the same number. -/
structure ClearOfSums (text whole : Text) (found : List Numeral) : Prop where
  no_sum : ∀ n ∈ proposals rulesBeforeNegation whole found,
    n.stop ≠ byteLength whole
  no_other : ∀ n ∈ proposals rulesBeforeNegation whole found,
    ∀ m ∈ proposals [negation] whole found, n.stop = byteLength text →
      m.stop = byteLength text → n.start = m.start → n.token = m.token

theorem ClearOfSums.of_more {text whole : Text} {found more : List Numeral}
    (h : ClearOfSums text whole more) (hfound : ∀ n ∈ found, n.StandsIn whole)
    (hmore : ∀ n ∈ more, n.StandsIn whole) (hsub : found ⊆ more) :
    ClearOfSums text whole found := by
  refine ⟨fun n hn => ?_, SumsAgree.of_more h.no_other hfound hmore hsub⟩
  obtain ⟨n', hn', hkey⟩ := proposals_mono hfound hmore hsub hn
  exact (Numeral.key_eq_iff.mp hkey).2.1 ▸ h.no_sum n' hn'

section Suffixed

variable {text blanks : Text} {c : Char} {factor : Value} {grain : Nat}
  (hne : blanks ≠ []) (hblank : ∀ d ∈ blanks, isBlank d = true)
  (hc : suffixScale [c] = some (factor, grain))

include hne hblank hc

/-- Such rules give nothing that ends with the suffix, as long as each number that does is
scaled. -/
theorem stop_ne_of_guarded {rules : Registry} (hrules : rules ⊆ guardedRules)
    {found : List Numeral} (hfound : ∀ n ∈ found, n.StandsIn (text ++ blanks ++ [c]))
    (hscaled : ∀ n ∈ found, n.stop = byteLength (text ++ blanks ++ [c]) →
      n.token.grain ≠ none) :
    ∀ n ∈ proposals rules (text ++ blanks ++ [c]) found,
      n.stop ≠ byteLength (text ++ blanks ++ [c]) := by
  intro n hn hend
  obtain ⟨rule, hrule, _, pieces, hassembles, hpieces⟩ :=
    assembles_of_mem_proposals (fun _ => 0) hfound hn
  obtain ⟨p, hp, element, hlast, hfits, hstop⟩ := hassembles.last
  have hpstop : p.stop = byteLength (text ++ blanks ++ [c]) := hstop.trans hend
  obtain ⟨last, hlast', hrefuses⟩ := guardedRules_refuse rule (hrules hrule)
  obtain rfl : element = last := Option.some.inj (hlast.symm.trans hlast')
  cases element with
  | text pattern =>
    obtain ⟨here, capture, there, hhere, hread, hthere, _, _⟩ := hfits
    have hpattern : pattern ∈ patternsOf spanishRules :=
      mem_patternsOf.mpr ⟨rule, guardedRules_subset (hrules hrule), List.mem_of_getLast? hlast⟩
    exact hrefuses (read_at_end hne hblank hc hpattern hread (cursorAt?_eq_some.mp hhere).1
      (hthere.symm.trans hpstop)).1
  | number condition =>
    obtain ⟨token, hnode, haccepts⟩ := hfits
    obtain ⟨m, hm, hmkey⟩ := List.mem_map.mp ((hpieces p hp).1 token hnode)
    obtain ⟨-, hstop, htoken⟩ := Numeral.key_eq_iff.mp hmkey
    refine hscaled m hm (hstop.trans hpstop) ?_
    rw [htoken]
    exact hrefuses token haccepts

/-- No number of the first pass ends with the suffix. -/
theorem stop_ne_of_first_pass :
    ∀ n ∈ candidates spanishRules (text ++ blanks ++ [c]) 1,
      n.stop ≠ byteLength (text ++ blanks ++ [c]) := by
  intro n hn
  obtain ⟨rule, hrule, hgiven⟩ := mem_proposals_first.mp (mem_of_mem_keepNew hn)
  have hsimple : [rule] ⊆ guardedRules := by
    rw [spanishRules, List.mem_append] at hrule
    rcases hrule with hrule | hrule
    · exact fun _ h => List.mem_singleton.mp h ▸ List.mem_append_left _ hrule
    · have hcomposes : rule.composes = true :=
        (by decide : ∀ rule ∈ compoundRules, rule.composes = true) rule hrule
      rw [given_of_composes hcomposes] at hgiven
      simp at hgiven
  have hproposed : n ∈ proposals [rule] (text ++ blanks ++ [c]) [] := by
    simpa [proposals, given] using hgiven
  have hnone : ∀ P : Numeral → Prop, ∀ m ∈ ([] : List Numeral), P m := by simp
  exact stop_ne_of_guarded hne hblank hc hsimple (hnone _) (hnone _) n hproposed

/-! ## The invariant of the passes -/

variable {found : List Numeral}
  (hfound : ∀ n ∈ found, n.StandsIn (text ++ blanks ++ [c]))
  (hends : ∀ n ∈ found, ∀ d, n.text.getLast? = some d → isBlank d = false)
  (htext : ∀ d, text.getLast? = some d → isBlank d = false)
  (hscaled : ∀ n ∈ found, n.stop = byteLength (text ++ blanks ++ [c]) → n.token.grain ≠ none)
  (hclear : ClearOfSums text (text ++ blanks ++ [c]) found)

include hfound hends htext hscaled hclear

/-- One pass: what ends with the suffix is an opposite of what ended with it before, or a scaled
number that ended where the text ends. -/
theorem firstMade_compounds (f : Token → Option Token) (start : Nat) :
    firstMade f start (byteLength (text ++ blanks ++ [c]))
        (proposals compoundRules (text ++ blanks ++ [c]) found) =
      (firstMade f start (byteLength (text ++ blanks ++ [c]))
        (proposals [negation] (text ++ blanks ++ [c]) found)).or
      (firstMade (fun token => (scaledBy factor grain token).bind f) start (byteLength text)
        found) := by
  have hguarded : ∀ rules ⊆ guardedRules, firstMade f start (byteLength (text ++ blanks ++ [c]))
      (proposals rules (text ++ blanks ++ [c]) found) = none := fun rules hrules =>
    firstMade_eq_none_iff.mpr fun n hn _ hstop =>
      absurd hstop (stop_ne_of_guarded hne hblank hc hrules hfound hscaled n hn)
  have hsums : firstMade f start (byteLength (text ++ blanks ++ [c]))
      (proposals rulesBeforeNegation (text ++ blanks ++ [c]) found) = none :=
    firstMade_eq_none_iff.mpr fun n hn _ hstop => absurd hstop (hclear.no_sum n hn)
  rw [compoundRules_eq_sums, firstMade_proposals_append, firstMade_proposals_append,
    firstMade_proposals_append, firstMade_proposals_append, hsums,
    hguarded [compoundRules[4]] (by simp [guardedRules]),
    hguarded (compoundRules.drop 6) fun rule hrule => by simp [guardedRules, hrule],
    firstMade_suffix hne hblank hc hfound hends htext]
  simp only [Option.none_or, Option.or_none]

end Suffixed

section Passes

variable {text blanks : Text} {c : Char} {factor : Value} {grain : Nat}

/-- What is scaled has a scale. -/
theorem grain_of_scaledBy {token scaled : Token}
    (h : scaledBy factor grain token = some scaled) : scaled.grain = some grain := by
  unfold scaledBy Token.scaled? at h
  obtain ⟨_, _, rfl⟩ := Option.map_eq_some_iff.mp h
  rfl

variable (hne : blanks ≠ []) (hblank : ∀ d ∈ blanks, isBlank d = true)
  (hc : suffixScale [c] = some (factor, grain))
  (htext : ∀ d, text.getLast? = some d → isBlank d = false)

include hne hblank hc htext

theorem firstMade_candidates_succ {k : Nat}
    (hscaled : ∀ n ∈ candidates spanishRules (text ++ blanks ++ [c]) (k + 1),
      n.stop = byteLength (text ++ blanks ++ [c]) → n.token.grain ≠ none)
    (hclear : ClearOfSums text (text ++ blanks ++ [c])
      (candidates spanishRules (text ++ blanks ++ [c]) (k + 1)))
    (f : Token → Option Token) (start : Nat) :
    firstMade f start (byteLength (text ++ blanks ++ [c]))
        (candidates spanishRules (text ++ blanks ++ [c]) (k + 2)) =
      (firstMade f start (byteLength (text ++ blanks ++ [c]))
        (candidates spanishRules (text ++ blanks ++ [c]) (k + 1))).or
      ((firstMade f start (byteLength (text ++ blanks ++ [c]))
        (proposals [negation] (text ++ blanks ++ [c])
          (candidates spanishRules (text ++ blanks ++ [c]) (k + 1)))).or
      (firstMade (fun token => (scaledBy factor grain token).bind f) start (byteLength text)
        (candidates spanishRules (text ++ blanks ++ [c]) (k + 1)))) := by
  rw [candidates_succ, composing_spanishRules, firstMade_grow,
    firstMade_compounds hne hblank hc standsIn_of_mem_candidates
      (fun n hn => last_not_blank_of_mem hn) htext hscaled hclear]

omit hne hblank hc htext in
/-- The opposites that end with the suffix are the scaled opposites of the pass before. -/
theorem firstMade_negation_scaled {k : Nat}
    (hmade : ∀ f start, firstMade f start (byteLength (text ++ blanks ++ [c]))
        (candidates spanishRules (text ++ blanks ++ [c]) (k + 2)) =
      firstMade (fun token => (scaledBy factor grain token).bind f) start (byteLength text)
        (candidates spanishRules (text ++ blanks ++ [c]) (k + 1)))
    (f : Token → Option Token) (start : Nat) :
    firstMade f start (byteLength (text ++ blanks ++ [c]))
        (proposals [negation] (text ++ blanks ++ [c])
          (candidates spanishRules (text ++ blanks ++ [c]) (k + 2))) =
      firstMade (fun token => (scaledBy factor grain token).bind f) start (byteLength text)
        (proposals [negation] (text ++ blanks ++ [c])
          (candidates spanishRules (text ++ blanks ++ [c]) (k + 1))) := by
  rcases exists_place_of_opposites (text ++ blanks ++ [c]) start with hnever | ⟨place, hplace⟩
  · rw [hnever _ standsIn_of_mem_candidates, hnever _ standsIn_of_mem_candidates]
  · have hscale : (fun token : Token => (scaledBy factor grain token.opposite).bind f) =
        fun token => (scaledBy factor grain token).bind fun token => f token.opposite := by
      funext token
      rw [scaledBy_opposite, Option.bind_map, Function.comp_def]
    rw [hplace _ standsIn_of_mem_candidates, hplace _ standsIn_of_mem_candidates, hmade, hscale]

omit hne hblank hc htext in
/-- The first number of a stretch after one pass more, by the rules in their order. -/
theorem firstMade_candidates_grow (whole : Text) (k : Nat) (f : Token → Option Token)
    (start stop : Nat) :
    firstMade f start stop (candidates spanishRules whole (k + 2)) =
      (firstMade f start stop (candidates spanishRules whole (k + 1))).or
        ((firstMade f start stop
          (proposals rulesBeforeNegation whole (candidates spanishRules whole (k + 1)))).or
        ((firstMade f start stop
          (proposals [negation] whole (candidates spanishRules whole (k + 1)))).or
        (firstMade f start stop
          (proposals (compoundRules.drop 4) whole (candidates spanishRules whole (k + 1)))))) := by
  conv_lhs =>
    rw [candidates_succ, composing_spanishRules, firstMade_grow, compoundRules_eq,
      ← List.singleton_append, firstMade_proposals_append, firstMade_proposals_append]

/-- The invariant of the passes: what ends with the suffix is what the pass before has found up to
the end of the text, scaled, and in the same order. -/
theorem firstMade_candidates (k : Nat)
    (hclear : ClearOfSums text (text ++ blanks ++ [c])
      (candidates spanishRules (text ++ blanks ++ [c]) (k + 1))) :
    (∀ n ∈ candidates spanishRules (text ++ blanks ++ [c]) (k + 1),
      n.stop = byteLength (text ++ blanks ++ [c]) → n.token.grain ≠ none) ∧
    ∀ f start, firstMade f start (byteLength (text ++ blanks ++ [c]))
        (candidates spanishRules (text ++ blanks ++ [c]) (k + 2)) =
      firstMade (fun token => (scaledBy factor grain token).bind f) start (byteLength text)
        (candidates spanishRules (text ++ blanks ++ [c]) (k + 1)) := by
  induction k with
  | zero =>
    have hnone := @stop_ne_of_first_pass text blanks c factor grain hne hblank hc
    have hmade : ∀ f start, firstMade f start (byteLength (text ++ blanks ++ [c]))
        (candidates spanishRules (text ++ blanks ++ [c]) 1) = none :=
      fun f start => firstMade_eq_none_iff.mpr fun n hn _ hstop => absurd hstop (hnone n hn)
    have hscaled : ∀ n ∈ candidates spanishRules (text ++ blanks ++ [c]) 1,
        n.stop = byteLength (text ++ blanks ++ [c]) → n.token.grain ≠ none :=
      fun n hn hstop => absurd hstop (hnone n hn)
    refine ⟨hscaled, fun f start => ?_⟩
    have hopposite : firstMade f start (byteLength (text ++ blanks ++ [c]))
        (proposals [negation] (text ++ blanks ++ [c])
          (candidates spanishRules (text ++ blanks ++ [c]) 1)) = none := by
      rcases exists_place_of_opposites (text ++ blanks ++ [c]) start with hnever | ⟨place, hplace⟩
      · exact hnever _ standsIn_of_mem_candidates f _
      · rw [hplace _ standsIn_of_mem_candidates, hmade]
    rw [firstMade_candidates_succ hne hblank hc htext hscaled hclear, hmade, hopposite,
      Option.none_or, Option.none_or]
  | succ k ih =>
    have hclear' := hclear.of_more standsIn_of_mem_candidates standsIn_of_mem_candidates
      (candidates_prefix_succ spanishRules (text ++ blanks ++ [c]) (k + 1)).subset
    obtain ⟨_, hmade⟩ := ih hclear'
    have hscaled : ∀ n ∈ candidates spanishRules (text ++ blanks ++ [c]) (k + 2),
        n.stop = byteLength (text ++ blanks ++ [c]) → n.token.grain ≠ none := by
      intro n hn hstop hgrain
      have hunscaled := hmade (fun token => if token.grain = none then some token else none) n.start
      have hscale : firstMade (fun token => (scaledBy factor grain token).bind fun token =>
          if token.grain = none then some token else none) n.start (byteLength text)
          (candidates spanishRules (text ++ blanks ++ [c]) (k + 1)) = none := by
        refine firstMade_eq_none_iff.mpr fun m _ _ _ => Option.bind_eq_none_iff.mpr ?_
        intro scaled hm
        rw [grain_of_scaledBy hm]
        rfl
      rw [hscale, firstMade_eq_none_iff] at hunscaled
      simpa [hgrain] using hunscaled n hn rfl hstop
    refine ⟨hscaled, fun f start => ?_⟩
    rw [firstMade_candidates_succ hne hblank hc htext hscaled hclear, hmade,
      firstMade_negation_scaled hmade f start]
    have hgrow := firstMade_candidates_grow (text ++ blanks ++ [c]) k
      (fun token => (scaledBy factor grain token).bind f) start (byteLength text)
    cases hbefore : firstMade (fun token => (scaledBy factor grain token).bind f) start
        (byteLength text) (candidates spanishRules (text ++ blanks ++ [c]) (k + 1)) with
    | some token => rw [hgrow, hbefore, Option.some_or, Option.some_or]
    | none =>
      rw [Option.none_or]
      cases hopposite : firstMade (fun token => (scaledBy factor grain token).bind f) start
          (byteLength text) (proposals [negation] (text ++ blanks ++ [c])
            (candidates spanishRules (text ++ blanks ++ [c]) (k + 1))) with
      | none => rw [Option.none_or]
      | some token =>
        -- A sum would go before the opposite, but then it is the same number.
        rw [hgrow, hbefore, hopposite, Option.none_or, Option.some_or, Option.some_or]
        cases hsum : firstMade (fun token => (scaledBy factor grain token).bind f) start
            (byteLength text) (proposals rulesBeforeNegation (text ++ blanks ++ [c])
              (candidates spanishRules (text ++ blanks ++ [c]) (k + 1))) with
        | none => rw [Option.none_or]
        | some sum =>
          obtain ⟨m, hm, hmstart, hmstop, hmtoken⟩ := exists_of_firstMade hopposite
          obtain ⟨n, hn, hnstart, hnstop, hntoken⟩ := exists_of_firstMade hsum
          rw [hclear'.no_other n hn m hm hnstop hmstop (hnstart.trans hmstart.symm),
            hmtoken] at hntoken
          rw [Option.some_or, hntoken]

end Passes

/-! ## Endings clear of sums -/

/-- With blanks behind it, a text finds what it finds by itself. -/
theorem candidates_before_blank {b : Char} (hb : isBlank b = true) (text rest : Text)
    (passes : Nat) :
    BeginsWith (byteLength text) (candidates spanishRules (text ++ b :: rest) passes)
      (candidates spanishRules text passes) := by
  have hclean := (isGap_of_isBlank hb).cleanCut text rest
  exact candidates_within hclean.boundary (fun _ => hclean.steady) passes

/-- The last number of a sum is from zero on and below a hundred. -/
theorem last_of_sum : ∀ rule ∈ rulesBeforeNegation, ∃ condition,
    rule.elements.getLast? = some (.number condition) ∧ ∀ token, condition.accepts token = true →
      (Condition.between (bound 0) (bound 100)).accepts token = true := by
  have hwithin : ∀ {low high : Nat}, high ≤ 100 → low ≤ high → ∀ token,
      (Condition.between (bound low) (bound high)).accepts token = true →
        (Condition.between (bound 0) (bound 100)).accepts token = true := by
    intro low high hhigh hlow token h
    obtain ⟨hge, hlt⟩ := (accepts_between_iff (le_twoPow_53 (by omega)) (le_twoPow_53 (by omega))).mp h
    have hunits := Nat.mul_le_mul_right quantaPerUnit hhigh
    exact (accepts_between_iff (by decide) (by decide)).mpr ⟨by omega, by omega⟩
  intro rule hrule
  have hrules : rulesBeforeNegation = compoundRules.take 3 := rfl
  simp only [hrules, compoundRules, List.take_succ_cons, List.take_zero, List.mem_cons,
    List.not_mem_nil, or_false] at hrule
  rcases hrule with rfl | rfl | rfl
  · exact ⟨_, rfl, hwithin (by decide) (by decide)⟩
  · exact ⟨_, rfl, hwithin (by decide) (by decide)⟩
  · exact ⟨_, rfl, hwithin (by decide) (by decide)⟩

/-- At its end the text leaves no room for a sum with a scaled number: none that stands there is
scaled to a number from zero on and below a hundred. And where a sum and an opposite stand from
one place to the end, they are the same number. -/
structure EndsClear (text : Text) (factor : Value) (grain passes : Nat) : Prop where
  no_part : ∀ n ∈ candidates spanishRules text passes, n.stop = byteLength text →
    ∀ scaled ∈ scaledBy factor grain n.token,
      (Condition.between (bound 0) (bound 100)).accepts scaled = false
  sums_agree : SumsAgree text (candidates spanishRules text passes) (byteLength text)

section EndsClear

variable {text blanks : Text} {c : Char} {factor : Value} {grain passes : Nat}

/-- One pass: no sum ends with the suffix when no number does that a sum may end with. -/
theorem EndsClear.of_last {b : Char} (hb : isBlank b = true) {rest : Text} {k : Nat}
    (h : EndsClear text factor grain passes) (hk : k ≤ passes)
    (hlast : ∀ n ∈ candidates spanishRules (text ++ b :: rest) k,
      n.stop = byteLength (text ++ b :: rest) →
        (Condition.between (bound 0) (bound 100)).accepts n.token = false) :
    ClearOfSums text (text ++ b :: rest) (candidates spanishRules (text ++ b :: rest) k) := by
  have hstands := @standsIn_of_mem_candidates spanishRules (text ++ b :: rest) k
  constructor
  · intro n hn hend
    obtain ⟨rule, hrule, _, pieces, hassembles, hpieces⟩ :=
      assembles_of_mem_proposals (fun _ => 0) hstands hn
    obtain ⟨p, hp, element, helement, hfits, hstop⟩ := hassembles.last
    obtain ⟨condition, hcondition, haccepts⟩ := last_of_sum rule hrule
    obtain rfl := Option.some.inj (helement.symm.trans hcondition)
    obtain ⟨m, hm, _, hmstop, _, hm'⟩ := (hpieces p hp).1.exists_number hfits
    have hnone := hlast m hm (hmstop.trans (hstop.trans hend))
    rw [haccepts m.token hm'] at hnone
    exact absurd hnone (by decide)
  · -- What stands up to the end of the text is proposed by the text itself.
    have hclean := (isGap_of_isBlank hb).cleanCut text rest
    have hbegins : ∀ rules : Registry, rules ⊆ spanishRules →
        ∀ n ∈ proposals rules (text ++ b :: rest) (candidates spanishRules (text ++ b :: rest) k),
          n.stop = byteLength text → n ∈ proposals rules text (candidates spanishRules text k) := by
      intro rules hrules n hn hstop
      have hproposals := proposals_before hclean.boundary (candidates_before_blank hb text rest k)
        hstands standsIn_of_mem_candidates fun pattern hpattern =>
          hclean.steady (patternsOf_subset hrules hpattern)
      rw [← hproposals]
      exact List.mem_filter.mpr ⟨hn, decide_eq_true (Nat.le_of_eq hstop)⟩
    have hsums : rulesBeforeNegation ⊆ spanishRules :=
      List.subset_append_of_subset_right _ (List.take_subset 3 _)
    have hopposites : [negation] ⊆ spanishRules :=
      List.cons_subset.mpr ⟨List.mem_append_right _ (List.getElem_mem _), List.nil_subset _⟩
    have hagree := h.sums_agree.of_more standsIn_of_mem_candidates standsIn_of_mem_candidates
      (candidates_beginning spanishRules text hk).subset
    intro n hn m hm hnstop hmstop
    exact hagree n (hbegins _ hsums n hn hnstop) m (hbegins _ hopposites m hm hmstop) hnstop hmstop

/-- All passes: an ending that is clear keeps the sums out of the way of its scale. -/
theorem EndsClear.clearOfSums (hne : blanks ≠ []) (hblank : ∀ d ∈ blanks, isBlank d = true)
    (hc : suffixScale [c] = some (factor, grain))
    (htext : ∀ d, text.getLast? = some d → isBlank d = false)
    (h : EndsClear text factor grain passes) (k : Nat) (hk : k + 1 ≤ passes) :
    ClearOfSums text (text ++ blanks ++ [c])
      (candidates spanishRules (text ++ blanks ++ [c]) (k + 1)) := by
  obtain ⟨b, rest, rfl⟩ := List.exists_cons_of_ne_nil hne
  have hb := hblank b List.mem_cons_self
  have hsplit : text ++ (b :: rest) ++ [c] = text ++ b :: (rest ++ [c]) := by simp
  induction k with
  | zero =>
    have hnone := @stop_ne_of_first_pass text (b :: rest) c factor grain hne hblank hc
    rw [hsplit] at hnone ⊢
    exact h.of_last hb hk fun n hn hstop => absurd hstop (hnone n hn)
  | succ k ih =>
    -- What ends with the suffix is scaled, and stood at the end of the text before.
    have hscaled := (firstMade_candidates hne hblank hc htext k (ih (by omega))).2
    rw [hsplit] at hscaled ⊢
    refine h.of_last hb hk fun n hn hstop => ?_
    by_contra haccepts
    rw [Bool.not_eq_false] at haccepts
    have hmade := hscaled (fun token =>
      if (Condition.between (bound 0) (bound 100)).accepts token = true then some token else none)
      n.start
    cases hfirst : firstMade (fun token => (scaledBy factor grain token).bind fun token =>
        if (Condition.between (bound 0) (bound 100)).accepts token = true then some token else none)
        n.start (byteLength text) (candidates spanishRules (text ++ b :: (rest ++ [c])) (k + 1)) with
    | none =>
      rw [hfirst, firstMade_eq_none_iff] at hmade
      simpa [haccepts] using hmade n hn rfl hstop
    | some token =>
      obtain ⟨m, hm, _, hmstop, htoken⟩ := exists_of_firstMade hfirst
      obtain ⟨scaled, hm', htaken⟩ := Option.bind_eq_some_iff.mp htoken
      have hbegins := candidates_before_blank hb text (rest ++ [c]) (k + 1)
      have hmem : m ∈ candidates spanishRules text passes := by
        apply (candidates_beginning spanishRules text (by omega : k + 1 ≤ passes)).subset
        rw [← hbegins]
        exact List.mem_filter.mpr ⟨hm, decide_eq_true (Nat.le_of_eq hmstop)⟩
      rw [if_neg (by simp [h.no_part m hmem hmstop scaled hm'])] at htaken
      simp at htaken

end EndsClear

/-! ## The whole text -/

/-- What is found before the suffixes of pass `k + 1`: all that `k` passes find, and what the
rules before the suffix propose. -/
def foundBeforeSuffixes (text : Text) (k : Nat) : List Numeral :=
  candidates spanishRules text k ++
    proposals (compoundRules.take 5) text (candidates spanishRules text k)

/-- After blanks and a suffix, a number of the whole text before them gives that number times the
factor of the suffix, unless a number of the whole that is found before has another token. None
is when the rules of sums stay out of the way, and they do when the end of the text is clear. -/
theorem a_suffix_scales_the_whole_number_unless_another_is_found_before {text blanks : Text}
    {c : Char} {factor value : Value} {grain passes : Nat} {e : Numeral} (hne : blanks ≠ [])
    (hblank : ∀ d ∈ blanks, isBlank d = true) (hc : suffixScale [c] = some (factor, grain))
    (hpasses : byteLength (text ++ blanks ++ [c]) ≤ passes)
    (hanalyze : analyze spanishRules text passes = [e]) (hcovers : e.covers text = true)
    (hvalue : e.token.value.mul? factor = some value) :
    ∃ k f, FoundInPass text e k ∧
      analyze spanishRules (text ++ blanks ++ [c]) passes = [f] ∧
      f.covers (text ++ blanks ++ [c]) = true ∧
      (f.token = ⟨value, some grain⟩ ↔
        ∀ n, (foundBeforeSuffixes (text ++ blanks ++ [c]) k).find?
          (·.covers (text ++ blanks ++ [c])) = some n → n.token = ⟨value, some grain⟩) ∧
      (ClearOfSums text (text ++ blanks ++ [c])
        (candidates spanishRules (text ++ blanks ++ [c]) passes) →
          f.token = ⟨value, some grain⟩) ∧
      (EndsClear text factor grain passes → f.token = ⟨value, some grain⟩) := by
  have hfirst := find?_of_analyze hanalyze hcovers
  have hmem := List.mem_of_find?_eq_some hfirst
  have htext : ∀ d, text.getLast? = some d → isBlank d = false := by
    have hlast := last_not_blank_of_mem hmem
    rwa [Numeral.text_of_covers (standsIn_of_mem_candidates e hmem) hcovers] at hlast
  have hlength : byteLength text + 1 < passes := by
    have hblanks := byteLength_pos hne
    have hletter := byteLength_pos (List.cons_ne_nil c [])
    rw [byteLength_append, byteLength_append] at hpasses
    omega
  obtain ⟨k, hk, hpass⟩ := exists_foundInPass (by omega) hmem
  obtain ⟨j, rfl⟩ := Nat.exists_eq_add_of_le' hpass.pos
  have he := find?_of_mem_beginning (candidates_beginning spanishRules text (by omega))
    hpass.found hfirst
  -- The number of the text is the first up to the end of the text in the longer text too.
  have hscaled : firstMade (fun token => (scaledBy factor grain token).bind some) 0
      (byteLength text) (candidates spanishRules (text ++ blanks ++ [c]) (j + 1)) =
        some ⟨value, some grain⟩ := by
    obtain ⟨b, rest, rfl⟩ := List.exists_cons_of_ne_nil hne
    have hbegins := candidates_before_blank (hblank b List.mem_cons_self) text (rest ++ [c]) (j + 1)
    rw [← List.cons_append, ← List.append_assoc] at hbegins
    rw [firstMade_of_beginsWith hbegins (Nat.le_refl _)]
    apply firstMade_of_find? he
    rw [scaledBy, hvalue]
    rfl
  have hstands := @standsIn_of_mem_candidates spanishRules (text ++ blanks ++ [c]) (j + 1)
  have hsuffix := (firstMade_suffix hne hblank hc hstands
    (fun n hn => last_not_blank_of_mem hn) htext some 0).trans hscaled
  obtain ⟨n, hn, htoken⟩ := find?_of_firstMade hsuffix
  have hnext : (candidates spanishRules (text ++ blanks ++ [c]) (j + 2)).find?
      (·.covers (text ++ blanks ++ [c])) =
        some (((foundBeforeSuffixes (text ++ blanks ++ [c]) (j + 1)).find?
          (·.covers (text ++ blanks ++ [c]))).getD n) :=
    find?_candidates_succ compoundRules_eq_suffix hn
  have hbeginning := candidates_beginning spanishRules (text ++ blanks ++ [c])
    (by omega : j + 2 ≤ passes)
  have hfind := find?_of_beginning hbeginning hnext
  have hwhole := List.find?_some hfind
  have hlaw : ClearOfSums text (text ++ blanks ++ [c])
      (candidates spanishRules (text ++ blanks ++ [c]) passes) →
        (((foundBeforeSuffixes (text ++ blanks ++ [c]) (j + 1)).find?
          (·.covers (text ++ blanks ++ [c]))).getD n).token = ⟨value, some grain⟩ := by
    intro hclear
    have hclear' := hclear.of_more hstands standsIn_of_mem_candidates
      (candidates_beginning spanishRules (text ++ blanks ++ [c])
        (by omega : j + 1 ≤ passes)).subset
    have hmade := ((firstMade_candidates hne hblank hc htext j hclear').2 some 0).trans hscaled
    obtain ⟨m, hm, hmtoken⟩ := find?_of_firstMade hmade
    rw [hnext] at hm
    rw [Option.some.inj hm, hmtoken]
  refine ⟨j + 1, _, hpass, analyze_of_find? hfind, hwhole, ?_, hlaw, fun h => hlaw ?_⟩
  · cases (foundBeforeSuffixes (text ++ blanks ++ [c]) (j + 1)).find?
        (·.covers (text ++ blanks ++ [c])) with
    | none => simp [htoken]
    | some m => simp
  · obtain ⟨last, rfl⟩ := Nat.exists_eq_add_of_le' (by omega : 1 ≤ passes)
    exact h.clearOfSums hne hblank hc htext last (Nat.le_refl _)

/-- The letter scales the opposite of 3.5: "menos tres punto cinco", two blanks and "K". -/
theorem the_opposite_of_three_point_five_is_scaled :
    ([' ', ' '] ≠ ([] : Text) ∧ (∀ d ∈ [' ', ' '], isBlank d = true) ∧
      suffixScale ['K'] = some (.ofNat 1000, 3) ∧
      byteLength ("menos tres punto cinco".toList ++ [' ', ' '] ++ ['K']) ≤ 32 ∧
      analyze spanishRules "menos tres punto cinco".toList 32 =
        [⟨0, "menos tres punto cinco".toList, ⟨((Value.ofNat 7).divNat 2 Nat.two_pos).neg, none⟩,
          negation.name⟩] ∧
      ((Value.ofNat 7).divNat 2 Nat.two_pos).neg.mul? (.ofNat 1000) =
        some (Value.ofNat 3500).neg ∧
      ClearOfSums "menos tres punto cinco".toList
        ("menos tres punto cinco".toList ++ [' ', ' '] ++ ['K'])
        (candidates spanishRules ("menos tres punto cinco".toList ++ [' ', ' '] ++ ['K']) 32) ∧
      EndsClear "menos tres punto cinco".toList (.ofNat 1000) 3 32) ∧
    ∃ f, analyze spanishRules ("menos tres punto cinco".toList ++ [' ', ' '] ++ ['K']) 32 = [f] ∧
      f.covers ("menos tres punto cinco".toList ++ [' ', ' '] ++ ['K']) = true ∧
      f.token = ⟨(Value.ofNat 3500).neg, some 3⟩ := by
  have hne : [' ', ' '] ≠ ([] : Text) := by decide
  have hblank : ∀ d ∈ [' ', ' '], isBlank d = true := by decide
  have hc : suffixScale ['K'] = some (.ofNat 1000, 3) := by decide +kernel
  have hpasses : byteLength ("menos tres punto cinco".toList ++ [' ', ' '] ++ ['K']) ≤ 32 := by
    decide
  have hanalyze : analyze spanishRules "menos tres punto cinco".toList 32 =
      [⟨0, "menos tres punto cinco".toList, ⟨((Value.ofNat 7).divNat 2 Nat.two_pos).neg, none⟩,
        negation.name⟩] := by
    decide +kernel
  have hvalue : ((Value.ofNat 7).divNat 2 Nat.two_pos).neg.mul? (.ofNat 1000) =
      some (Value.ofNat 3500).neg := by
    decide +kernel
  have hclear : ClearOfSums "menos tres punto cinco".toList
      ("menos tres punto cinco".toList ++ [' ', ' '] ++ ['K'])
      (candidates spanishRules ("menos tres punto cinco".toList ++ [' ', ' '] ++ ['K']) 32) :=
    ⟨by decide +kernel, by decide +kernel⟩
  have hends : EndsClear "menos tres punto cinco".toList (.ofNat 1000) 3 32 :=
    ⟨by decide +kernel, by unfold SumsAgree; decide +kernel⟩
  obtain ⟨_, f, _, hf, hcovers, _, _, hscaled⟩ :=
    a_suffix_scales_the_whole_number_unless_another_is_found_before hne hblank hc hpasses hanalyze
      (by decide) hvalue
  exact ⟨⟨hne, hblank, hc, hpasses, hanalyze, hvalue, hclear, hends⟩, f, hf, hcovers,
    hscaled hends⟩

/-- Three, a hundred and zero are 300, and with a suffix behind them still 300: zero thousands are
less than a hundred, and the sum with them is found in the same pass as 300 thousands, by an
earlier rule. -/
theorem three_hundred_and_a_suffix_are_not_scaled :
    ((analyze spanishRules "3 100 0".toList 32).map
        fun n => (n.start, n.stop, n.token)) = [(0, 7, ⟨.ofNat 300, none⟩)] ∧
      ((analyze spanishRules ("3 100 0".toList ++ [' '] ++ ['k']) 32).map
        fun n => (n.start, n.stop, n.token)) = [(0, 9, ⟨.ofNat 300, none⟩)] := by
  decide +kernel

end SpanishNumerals
