-- The first number of a stretch. Of the numbers that are found at one stretch of a text the
-- first found counts, and a rule that takes one number gives its own first number of a stretch
-- for the first number that it can take. So what is first can be told from what was first a
-- pass before.
import SpanishNumerals.Proofs.Beginning
import SpanishNumerals.Proofs.Opposite

namespace SpanishNumerals

/-! ## The first value over a list -/

section FindSome

variable {α β γ : Type _}

theorem findSome?_flatMap (list : List α) (g : α → List β) (f : β → Option γ) :
    (list.flatMap g).findSome? f = list.findSome? fun x => (g x).findSome? f := by
  rw [← List.head?_filterMap, List.filterMap_flatMap, List.head?_flatMap]
  simp only [List.head?_filterMap]

theorem findSome?_filterMap (list : List α) (g : α → Option β) (f : β → Option γ) :
    (list.filterMap g).findSome? f = list.findSome? fun x => (g x).bind f := by
  rw [← List.head?_filterMap, List.filterMap_filterMap, List.head?_filterMap]

theorem findSome?_congr {list : List α} {f g : α → Option β} (h : ∀ x ∈ list, f x = g x) :
    list.findSome? f = list.findSome? g := by
  rw [← List.head?_filterMap, List.filterMap_congr h, List.head?_filterMap]

/-- When no other member has a value, the value of the list is that of the one. -/
theorem findSome?_of_only {list : List α} {f : α → Option β} {a : α} (ha : a ∈ list)
    (h : ∀ x ∈ list, x ≠ a → f x = none) : list.findSome? f = f a := by
  cases hfirst : list.findSome? f with
  | none => exact (List.findSome?_eq_none_iff.mp hfirst a ha).symm
  | some b =>
    obtain ⟨x, hx, hb⟩ := List.exists_of_findSome?_eq_some hfirst
    obtain rfl : x = a := by
      by_contra hne
      simp [h x hx hne] at hb
    exact hb.symm

theorem findSome?_eq_find?_bind (list : List α) (f : α → Option β) :
    list.findSome? f = (list.find? fun x => (f x).isSome).bind f := by
  rw [← List.head?_filter, ← List.head?_filterMap, List.head?_filterMap]
  induction list with
  | nil => rfl
  | cons x list ih =>
    cases hx : f x with
    | none => simp [hx, ih]
    | some y => simp [hx]

end FindSome

/-! ## The first number of a stretch -/

/-- The first that `f` makes of a number from `start` to `stop`. -/
def firstMade (f : Token → Option Token) (start stop : Nat) (found : List Numeral) :
    Option Token :=
  found.findSome? fun n => if n.start = start ∧ n.stop = stop then f n.token else none

section FirstMade

variable {f : Token → Option Token} {start stop : Nat} {found more : List Numeral} {token : Token}

theorem firstMade_append :
    firstMade f start stop (found ++ more) =
      (firstMade f start stop found).or (firstMade f start stop more) :=
  List.findSome?_append

theorem firstMade_eq_none_iff :
    firstMade f start stop found = none ↔
      ∀ n ∈ found, n.start = start → n.stop = stop → f n.token = none := by
  simp only [firstMade, List.findSome?_eq_none_iff, ite_eq_right_iff, and_imp]

theorem exists_of_firstMade (h : firstMade f start stop found = some token) :
    ∃ n ∈ found, n.start = start ∧ n.stop = stop ∧ f n.token = some token := by
  obtain ⟨n, hn, hmade⟩ := List.exists_of_findSome?_eq_some h
  split at hmade
  · rename_i hplace
    exact ⟨n, hn, hplace.1, hplace.2, hmade⟩
  · simp at hmade

/-- What is found again does not count. -/
theorem firstMade_grow (rules : Registry) (text : Text) :
    firstMade f start stop (grow rules text found) =
      (firstMade f start stop found).or (firstMade f start stop (proposals rules text found)) := by
  have hkey : ∀ a b : Numeral, a.key = b.key →
      (if a.start = start ∧ a.stop = stop then f a.token else none) =
        if b.start = start ∧ b.stop = stop then f b.token else none := by
    intro a b h
    obtain ⟨hstart, hstop, htoken⟩ := Numeral.key_eq_iff.mp h
    rw [hstart, hstop, htoken]
  rw [← firstMade_append, grow, firstMade, firstMade, findSome?_eq_find?_bind,
    findSome?_eq_find?_bind, find?_append_keepNew fun a b h => congrArg _ (hkey a b h)]

/-- Numerals that do not stand there do not count. -/
theorem firstMade_filter {p : Numeral → Bool}
    (h : ∀ n : Numeral, n.start = start → n.stop = stop → p n = true) :
    firstMade f start stop (found.filter p) = firstMade f start stop found := by
  rw [firstMade, firstMade, ← List.head?_filterMap, ← List.head?_filterMap, List.filterMap_filter]
  congr 1
  apply List.filterMap_congr
  intro n _
  by_cases hplace : n.start = start ∧ n.stop = stop
  · rw [if_pos (h n hplace.1 hplace.2)]
  · rw [if_neg hplace, ite_self]

/-- The stretches of a beginning have the numbers that the beginning has by itself. -/
theorem firstMade_of_beginsWith {bytes : Nat} (h : BeginsWith bytes found more)
    (hle : stop ≤ bytes) : firstMade f start stop found = firstMade f start stop more := by
  rw [← h, firstMade_filter]
  exact fun n _ hstop => decide_eq_true (hstop ▸ hle)

/-- The stretches of an ending have the numbers that the ending has by itself. -/
theorem firstMade_of_endsWith {bytes : Nat} (h : EndsWith bytes found more) :
    firstMade f (bytes + start) (bytes + stop) found = firstMade f start stop more := by
  rw [← firstMade_filter fun n hstart _ => decide_eq_true (hstart ▸ Nat.le_add_right bytes start),
    h, firstMade, List.findSome?_map]
  apply findSome?_congr
  intro n _
  simp only [Function.comp_apply, Numeral.start_shift, Numeral.stop_shift,
    Nat.add_left_cancel_iff]
  rfl

theorem firstMade_map (g : Token → Token) :
    firstMade (fun token => some (g token)) start stop found =
      (firstMade some start stop found).map g := by
  rw [firstMade, firstMade, List.map_findSome?]
  apply findSome?_congr
  intro n _
  simp only [Function.comp_apply]
  split <;> rfl

/-- The first numeral of the whole text, when something is made of it, is the first of which
anything is made. -/
theorem firstMade_of_find? {text : Text} {n : Numeral}
    (h : found.find? (·.covers text) = some n) (hmade : f n.token = some token) :
    firstMade f 0 (byteLength text) found = some token := by
  obtain ⟨hcovers, front, back, rfl, hfront⟩ := List.find?_eq_some_iff_append.mp h
  have hnone : firstMade f 0 (byteLength text) front = none := by
    refine firstMade_eq_none_iff.mpr fun m hm hstart hstop => ?_
    have := hfront m hm
    rw [Numeral.covers_iff.mpr ⟨hstart, hstop⟩] at this
    simp at this
  rw [firstMade_append, hnone, Option.none_or, firstMade, List.findSome?_cons,
    if_pos (Numeral.covers_iff.mp hcovers), hmade]

theorem find?_of_firstMade {text : Text}
    (h : firstMade some 0 (byteLength text) found = some token) :
    ∃ n, found.find? (·.covers text) = some n ∧ n.token = token := by
  cases hfind : found.find? (·.covers text) with
  | none =>
    obtain ⟨n, hn, hplace⟩ := exists_of_firstMade h
    exact absurd (Numeral.covers_iff.mpr ⟨hplace.1, hplace.2.1⟩) (List.find?_eq_none.mp hfind n hn)
  | some n =>
    rw [firstMade_of_find? hfind (show some n.token = some n.token from rfl)] at h
    exact ⟨n, rfl, Option.some.inj h⟩

end FirstMade

/-! ## What a rule makes -/

section Rules

variable {text : Text} {found : List Numeral} (hfound : ∀ n ∈ found, n.StandsIn text)
  (f : Token → Option Token) (start stop : Nat)

theorem firstMade_proposals_append (front back : Registry) :
    firstMade f start stop (proposals (front ++ back) text found) =
      (firstMade f start stop (proposals front text found)).or
        (firstMade f start stop (proposals back text found)) := by
  rw [proposals_append, firstMade_append]

include hfound

/-- The first number that a rule makes of a stretch is that of its first reading of the stretch
that makes one. -/
theorem firstMade_proposals (rule : Rule) :
    firstMade f start stop (proposals [rule] text found) =
      (readRule text found rule).findSome? fun reading =>
        if reading.first.pos = start ∧ reading.last.pos = stop then
          (rule.apply reading.window).bind f else none := by
  simp only [firstMade, proposals, List.flatMap_cons, List.flatMap_nil, List.append_nil,
    findSome?_filterMap]
  apply findSome?_congr
  intro reading hreading
  cases hnumeral : reading.numeral? rule with
  | none =>
    have hnone : rule.apply reading.window = none := Option.map_eq_none_iff.mp hnumeral
    simp [hnone]
  | some n =>
    obtain ⟨_, hkey, happly, _⟩ := numeral?_eq_some hfound hreading hnumeral
    obtain ⟨hstart, hstop, -⟩ := Numeral.key_eq_iff.mp hkey
    rw [Option.bind_some, hstart, hstop, happly, Option.bind_some]

end Rules

/-- The ways to read one number from a place on. -/
theorem findSome?_readElements_number (found : List Numeral) (there : Cursor)
    (condition : Condition) (g : Window × Cursor → Option Token) :
    (readElements found [.number condition] there).findSome? g =
      found.findSome? fun n => if n.start = there.skipBlank.pos ∧ condition.accepts n.token = true
        then g ([.number n.token], there.skipBlank.forward n.text.length) else none := by
  simp only [readElements, readElement, List.map_cons, List.map_nil, findSome?_flatMap]
  rw [← List.head?_filterMap, List.filterMap_map, List.filterMap_filter, List.head?_filterMap]
  apply findSome?_congr
  intro n _
  simp

/-! ## The opposite -/

section Opposite

variable {text : Text} {found : List Numeral} (hfound : ∀ n ∈ found, n.StandsIn text)
  (f : Token → Option Token) (start stop : Nat)

include hfound

/-- The rule of the opposite looks for its word at each place where a stretch may begin, and
behind it for a number. -/
theorem firstMade_negation :
    firstMade f start stop (proposals [negation] text found) =
      (segments text).findSome? fun here => if here.pos = start then
        (minusPattern.readBounded? here).bind fun reading =>
          firstMade (fun token => f token.opposite) reading.2.skipBlank.pos stop found
        else none := by
  have hrule : readRule text found negation =
      (readFirst text found (.text minusPattern)).flatMap fun first =>
        (readElements found [.number .any] first.2.2).map fun rest =>
          ⟨first.1, rest.2, first.2.1 :: rest.1⟩ := rfl
  rw [firstMade_proposals hfound, hrule, findSome?_flatMap, readFirst, findSome?_filterMap]
  apply findSome?_congr
  intro here hhere
  cases hread : minusPattern.readBounded? here with
  | none => simp
  | some reading =>
    obtain ⟨capture, there⟩ := reading
    simp only [Option.map_some, Option.bind_some, List.findSome?_map, Function.comp_def]
    rw [findSome?_readElements_number]
    by_cases hpos : here.pos = start
    · rw [if_pos hpos]
      apply findSome?_congr
      intro n hn
      have htext : there.skipBlank.text = text := by
        obtain ⟨_, hread, _⟩ := Pattern.readBounded?_eq_some.mp hread
        rw [Cursor.text_skipBlank, (Cursor.reaches_of_read? hread).text_eq,
          text_of_mem_segments hhere]
      by_cases hstart : n.start = there.skipBlank.pos
      · have hstop := (reaches_of_standsIn (htext ▸ hfound n hn) hstart).2
        simp [hstart, hpos, hstop, apply_negation, Condition.accepts]
      · simp [hstart]
    · rw [if_neg hpos, List.findSome?_eq_none_iff]
      intro n _
      simp [hpos]

end Opposite

/-- At one place of a text either the rule of the opposite never gives anything, or all that it
gives are the opposites of the numbers that begin at a certain other place. -/
theorem exists_place_of_opposites (text : Text) (start : Nat) :
    (∀ found : List Numeral, (∀ n ∈ found, n.StandsIn text) → ∀ f stop,
      firstMade f start stop (proposals [negation] text found) = none) ∨
    ∃ place, ∀ found : List Numeral, (∀ n ∈ found, n.StandsIn text) → ∀ f stop,
      firstMade f start stop (proposals [negation] text found) =
        firstMade (fun token => f token.opposite) place stop found := by
  by_cases hread : ∃ here ∈ segments text, here.pos = start ∧
      ∃ reading, minusPattern.readBounded? here = some reading
  · obtain ⟨here, hhere, hpos, ⟨capture, there⟩, hreading⟩ := hread
    refine Or.inr ⟨there.skipBlank.pos, fun found hfound f stop => ?_⟩
    rw [firstMade_negation hfound, findSome?_of_only hhere]
    · rw [if_pos hpos, hreading, Option.bind_some]
    · intro other hother hne
      refine if_neg fun hsame => hne (Cursor.eq_of_pos ?_ (hsame.trans hpos.symm))
      rw [text_of_mem_segments hother, text_of_mem_segments hhere]
  · refine Or.inl fun found hfound f stop => ?_
    rw [firstMade_negation hfound, List.findSome?_eq_none_iff]
    intro here hhere
    by_cases hpos : here.pos = start
    · have hnone : minusPattern.readBounded? here = none := by
        rw [Option.eq_none_iff_forall_ne_some]
        exact fun reading hreading => hread ⟨here, hhere, hpos, reading, hreading⟩
      rw [if_pos hpos, hnone, Option.bind_none]
    · exact if_neg hpos

end SpanishNumerals
