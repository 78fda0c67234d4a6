-- The order of finding. A number has a least height among its derivations, and at this height a
-- first rule that derives it. The numbers of a text are found in the order of these two, the
-- height first, and each is given by that rule. So of the numbers on one stretch of text the
-- analysis keeps none but the one that comes first.
import Mathlib.Data.Prod.Lex
import Mathlib.Order.Bounds.Basic
import SpanishNumerals.Proofs.LongestFirst
import SpanishNumerals.Proofs.PlainPasses

namespace SpanishNumerals

/-! ## Origins -/

/-- The rule at this place of the registry has a derivation of the number of this height. -/
def DerivedBy (rules : Registry) (text : Text) (key : Key) (height place : Nat) : Prop :=
  ∃ rule pieces, rules[place]? = some rule ∧ Assembles text rule pieces key ∧
    (∀ piece ∈ pieces, ∀ token, piece.node = .number token →
      Derived rules text (piece.start, piece.stop, token) piece.height) ∧
    height = 1 + Piece.highest pieces

/-- The least height of a number, and the place of the first rule that derives it so. -/
structure Origin (rules : Registry) (text : Text) (key : Key) (height place : Nat) : Prop where
  lowest : IsLeast {h | Derived rules text key h} height
  first : IsLeast {r | DerivedBy rules text key height r} place

/-- The origin of `a` is no later than that of `b`: its height is lower, or it is as high and its
rule comes no later. -/
def NoLater (rules : Registry) (text : Text) (a b : Numeral) : Prop :=
  ∀ h r h' r', Origin rules text a.key h r → Origin rules text b.key h' r' →
    toLex (h, r) ≤ toLex (h', r')

theorem derived_iff_derivedBy {rules : Registry} {text : Text} {key : Key} {height : Nat} :
    Derived rules text key height ↔ ∃ place, DerivedBy rules text key height place := by
  constructor
  · rintro ⟨hrule, hassembles, hpieces⟩
    obtain ⟨place, hplace⟩ := List.mem_iff_getElem?.mp hrule
    exact ⟨place, _, _, hplace, hassembles, hpieces, rfl⟩
  · rintro ⟨place, rule, pieces, hplace, hassembles, hpieces, rfl⟩
    exact Derived.intro (List.mem_of_getElem? hplace) hassembles hpieces

theorem Origin.unique {rules : Registry} {text : Text} {key : Key} {h r h' r' : Nat}
    (horigin : Origin rules text key h r) (horigin' : Origin rules text key h' r') :
    h = h' ∧ r = r' := by
  obtain rfl := horigin.lowest.unique horigin'.lowest
  exact ⟨rfl, horigin.first.unique horigin'.first⟩

theorem NoLater.of_origins {rules : Registry} {text : Text} {a b : Numeral} {h r h' r' : Nat}
    (ha : Origin rules text a.key h r) (hb : Origin rules text b.key h' r')
    (hle : toLex (h, r) ≤ toLex (h', r')) : NoLater rules text a b := by
  intro k s k' s' ha' hb'
  obtain ⟨rfl, rfl⟩ := ha.unique ha'
  obtain ⟨rfl, rfl⟩ := hb.unique hb'
  exact hle

theorem NoLater.refl {rules : Registry} {text : Text} (n : Numeral) : NoLater rules text n n := by
  intro h r h' r' horigin horigin'
  obtain ⟨rfl, rfl⟩ := horigin.unique horigin'
  exact le_refl _

/-! ## The rule that comes first in a pass -/

/-- What one rule gives when some numerals are found already. -/
def givenBeside (text : Text) (found : List Numeral) (rule : Rule) : List Numeral :=
  (readRule text found rule).filterMap fun reading => reading.numeral? rule

/-- The place of the first rule that gives the number. -/
def firstGiving (text : Text) (found : List Numeral) (key : Key) (rules : Registry) : Nat :=
  rules.findIdx fun rule => key ∈ (givenBeside text found rule).map Numeral.key

section Pass

variable {text : Text} {found : List Numeral}

theorem proposals_cons (rule : Rule) (rules : Registry) :
    proposals (rule :: rules) text found =
      givenBeside text found rule ++ proposals rules text found := List.flatMap_cons

theorem proposals_singleton (rule : Rule) :
    proposals [rule] text found = givenBeside text found rule := List.flatMap_singleton _ _

/-- What is new in two parts: the new of the first, and what is new to it of the second. -/
theorem keepNew_append (known front back : List Numeral) :
    keepNew known (front ++ back) =
      keepNew known front ++ keepNew ((keepNew known front).reverse ++ known) back := by
  induction front generalizing known with
  | nil => rfl
  | cons n front ih =>
    rw [List.cons_append, keepNew, keepNew]
    split
    · exact ih known
    · rw [ih, List.cons_append, List.reverse_cons, List.append_assoc, List.singleton_append]

theorem firstGiving_of_mem {rule : Rule} {rules : Registry} {n : Numeral}
    (hn : n ∈ givenBeside text found rule) : firstGiving text found n.key (rule :: rules) = 0 := by
  have hgives : n.key ∈ (givenBeside text found rule).map Numeral.key := List.mem_map_of_mem hn
  rw [firstGiving, List.findIdx_cons, decide_eq_true hgives, cond_true]

/-- A number that is new though a rule's numbers are known is none that the rule gives. -/
theorem firstGiving_of_new {known : List Numeral} {rule : Rule} {rules : Registry} {n : Numeral}
    (hn : n ∈ keepNew ((keepNew known (givenBeside text found rule)).reverse ++ known)
      (proposals rules text found)) :
    firstGiving text found n.key (rule :: rules) = firstGiving text found n.key rules + 1 := by
  have hother : n.key ∉ (givenBeside text found rule).map Numeral.key := by
    intro hgives
    obtain ⟨m, hm, hkey⟩ := List.mem_map.mp hgives
    obtain ⟨m', hm', hkey'⟩ := @key_mem_of_proposed known _ _ hm
    refine key_ne_of_mem_keepNew hn m' ?_ (hkey.symm.trans hkey'.symm)
    rw [List.mem_append, List.mem_reverse]
    exact hm'.symm
  rw [firstGiving, List.findIdx_cons, decide_eq_false hother, cond_false, firstGiving]

/-- What is new in a pass bears the name of the first rule that gives it. -/
theorem rule_of_mem_keepNew {known : List Numeral} {rules : Registry} {n : Numeral}
    (hn : n ∈ keepNew known (proposals rules text found)) :
    ∃ rule, rules[firstGiving text found n.key rules]? = some rule ∧
      n ∈ givenBeside text found rule := by
  induction rules generalizing known with
  | nil => simp [proposals, keepNew] at hn
  | cons rule rules ih =>
    rw [proposals_cons, keepNew_append, List.mem_append] at hn
    rcases hn with hn | hn
    · have hgiven := mem_of_mem_keepNew hn
      exact ⟨rule, by rw [firstGiving_of_mem hgiven]; rfl, hgiven⟩
    · obtain ⟨rule', hrule', hgiven⟩ := ih hn
      exact ⟨rule', by rw [firstGiving_of_new hn]; exact hrule', hgiven⟩

/-- What is new in a pass stands in the order of the rules. -/
theorem pairwise_firstGiving (known : List Numeral) (rules : Registry) :
    (keepNew known (proposals rules text found)).Pairwise fun a b =>
      firstGiving text found a.key rules ≤ firstGiving text found b.key rules := by
  induction rules generalizing known with
  | nil => exact List.Pairwise.nil
  | cons rule rules ih =>
    rw [proposals_cons, keepNew_append, List.pairwise_append]
    refine ⟨?_, ?_, ?_⟩
    · refine List.pairwise_of_forall_mem_list (fun a ha b hb => ?_)
      rw [firstGiving_of_mem (mem_of_mem_keepNew ha), firstGiving_of_mem (mem_of_mem_keepNew hb)]
    · refine (ih _).imp_of_mem fun {a b} ha hb hle => ?_
      rw [firstGiving_of_new ha, firstGiving_of_new hb]
      exact Nat.succ_le_succ hle
    · intro a ha b _
      rw [firstGiving_of_mem (mem_of_mem_keepNew ha)]
      exact Nat.zero_le _

/-- The numbers that are found are those with a derivation of no more than some height. -/
def HasHeights (rules : Registry) (text : Text) (found : List Numeral) (height : Nat) : Prop :=
  ∀ key, key ∈ found.map Numeral.key ↔ ∃ h ≤ height, Derived rules text key h

/-- With the numbers of lower heights found, a rule gives the numbers that it derives. -/
theorem mem_givenBeside_iff {rules : Registry} {rule : Rule} {height place : Nat} {key : Key}
    (hfound : ∀ n ∈ found, n.StandsIn text) (hheights : HasHeights rules text found height)
    (hplace : rules[place]? = some rule) :
    key ∈ (givenBeside text found rule).map Numeral.key ↔
      ∃ h ≤ height + 1, DerivedBy rules text key h place := by
  rw [← proposals_singleton]
  constructor
  · intro hkey
    have hderived := fun key hkey => (hheights key).mp hkey
    obtain ⟨n, hn, rfl⟩ := List.mem_map.mp hkey
    choose! rank hrank using hderived
    obtain ⟨rule', hrule', _, pieces, hassembles, hpieces⟩ :=
      assembles_of_mem_proposals rank hfound hn
    obtain rfl := List.mem_singleton.mp hrule'
    obtain ⟨hle, hderived⟩ := derived_pieces hrank hassembles hpieces
    exact ⟨1 + Piece.highest pieces, by omega, rule', pieces, hplace, hassembles, hderived, rfl⟩
  · rintro ⟨h, hle, rule', pieces, hplace', hassembles, hpieces, rfl⟩
    obtain rfl : rule = rule' := Option.some.inj (hplace.symm.trans hplace')
    refine mem_proposals_of_assembles hfound List.mem_cons_self hassembles ?_
    intro piece hpiece token hnode
    have := Piece.height_le_highest hpiece
    exact (hheights _).mpr ⟨piece.height, by omega, hpieces piece hpiece token hnode⟩

/-- What a pass finds new has the height of the pass, and the first rule that gives it is the first
that derives it at this height. -/
theorem origin_of_mem_keepNew {rules : Registry} {height : Nat} {n : Numeral}
    (hfound : ∀ n ∈ found, n.StandsIn text) (hheights : HasHeights rules text found height)
    (hn : n ∈ keepNew found (proposals rules text found)) :
    Origin rules text n.key (height + 1) (firstGiving text found n.key rules) := by
  have hhigh : ∀ h, Derived rules text n.key h → height + 1 ≤ h := by
    intro h hderived
    by_contra hlow
    obtain ⟨m, hm, hkey⟩ := List.mem_map.mp ((hheights n.key).mpr ⟨h, by omega, hderived⟩)
    exact key_ne_of_mem_keepNew hn m hm hkey.symm
  have hgives : ∀ place rule, rules[place]? = some rule →
      (n.key ∈ (givenBeside text found rule).map Numeral.key ↔
        DerivedBy rules text n.key (height + 1) place) := by
    intro place rule hplace
    rw [mem_givenBeside_iff hfound hheights hplace]
    constructor
    · rintro ⟨h, hle, hby⟩
      have := hhigh h (derived_iff_derivedBy.mpr ⟨place, hby⟩)
      obtain rfl : h = height + 1 := by omega
      exact hby
    · exact fun hby => ⟨_, Nat.le_refl _, hby⟩
  obtain ⟨rule, hplace, hgiven⟩ := rule_of_mem_keepNew hn
  have hby := (hgives _ rule hplace).mp (List.mem_map_of_mem hgiven)
  refine ⟨⟨derived_iff_derivedBy.mpr ⟨_, hby⟩, hhigh⟩, hby, ?_⟩
  intro place hplace'
  obtain ⟨rule', pieces, hrule', hrest⟩ := hplace'
  by_contra hearlier
  obtain ⟨hlt, rfl⟩ := List.getElem?_eq_some_iff.mp hrule'
  have hnot := List.not_of_lt_findIdx (Nat.lt_of_not_le hearlier)
  exact of_decide_eq_false hnot
    ((hgives place _ hrule').mpr ⟨_, pieces, hrule', hrest⟩)

end Pass

/-! ## All passes -/

section Passes

variable {rules : Registry} {text : Text}

theorem standsIn_saturate (passes : Nat) :
    ∀ n ∈ saturate rules text passes [], n.StandsIn text := by
  induction passes with
  | zero => simp [saturate]
  | succ passes ih =>
    rw [saturate_succ']
    exact standsIn_grow ih

theorem hasHeights_saturate (passes : Nat) :
    HasHeights rules text (saturate rules text passes []) passes := by
  intro key
  cases passes with
  | zero =>
    constructor
    · simp [saturate]
    · rintro ⟨h, hle, hderived⟩
      have := hderived.height_pos
      omega
  | succ passes =>
    rw [saturate_eq_candidates]
    exact mem_candidates_succ_iff rules text passes key

/-- The numeral has an origin of no more than this height, and its rule is the one of the origin. -/
def HasOrigin (rules : Registry) (text : Text) (height : Nat) (n : Numeral) : Prop :=
  ∃ h ≤ height, ∃ r, Origin rules text n.key h r ∧ (rules[r]?).map Rule.name = some n.rule

theorem hasOrigin_of_mem_keepNew {passes : Nat} {n : Numeral}
    (hn : n ∈ keepNew (saturate rules text passes [])
      (proposals rules text (saturate rules text passes []))) :
    HasOrigin rules text (passes + 1) n := by
  have hstands := @standsIn_saturate rules text passes
  refine ⟨passes + 1, Nat.le_refl _, _,
    origin_of_mem_keepNew hstands (hasHeights_saturate passes) hn, ?_⟩
  obtain ⟨rule, hplace, hgiven⟩ := rule_of_mem_keepNew hn
  obtain ⟨reading, hreading, hnumeral⟩ := List.mem_filterMap.mp hgiven
  rw [hplace, (numeral?_eq_some hstands hreading hnumeral).2.2.2]
  rfl

/-- The passes keep the order of the origins: what was found before is lower, and what is found in
one pass stands in the order of the rules. -/
theorem origins_in_order (rules : Registry) (text : Text) (passes : Nat) :
    (∀ n ∈ saturate rules text passes [], HasOrigin rules text passes n) ∧
      (saturate rules text passes []).Pairwise (NoLater rules text) := by
  induction passes with
  | zero => exact ⟨by simp [saturate], List.Pairwise.nil⟩
  | succ passes ih =>
    obtain ⟨hold, hpairs⟩ := ih
    have hnew := fun n hn => @origin_of_mem_keepNew text _ rules passes n
      (standsIn_saturate passes) (hasHeights_saturate passes) hn
    rw [saturate_succ', grow]
    refine ⟨?_, List.pairwise_append.mpr ⟨hpairs, ?_, ?_⟩⟩
    · intro n hn
      rcases List.mem_append.mp hn with hn | hn
      · obtain ⟨h, hle, horigin⟩ := hold n hn
        exact ⟨h, Nat.le_succ_of_le hle, horigin⟩
      · exact hasOrigin_of_mem_keepNew hn
    · refine (pairwise_firstGiving _ rules).imp_of_mem fun {a b} ha hb hle => ?_
      refine NoLater.of_origins (hnew a ha) (hnew b hb) ?_
      rw [Prod.Lex.toLex_le_toLex]
      exact Or.inr ⟨rfl, hle⟩
    · intro a ha b hb
      obtain ⟨h, hle, r, horigin, _⟩ := hold a ha
      refine NoLater.of_origins horigin (hnew b hb) ?_
      rw [Prod.Lex.toLex_le_toLex]
      exact Or.inl (Nat.lt_succ_of_le hle)

end Passes

/-- Of two numerals on one stretch the analysis keeps none with the later origin. -/
theorem noLater_of_mem_analyze {rules : Registry} {text : Text} {passes : Nat}
    (horder : (candidates rules text passes).Pairwise (NoLater rules text)) {n m : Numeral}
    (hn : n ∈ analyze rules text passes) (hm : m ∈ candidates rules text passes)
    (hstart : m.start = n.start) (hstop : m.stop = n.stop) : NoLater rules text n m := by
  obtain ⟨places, hchosen⟩ := exists_chosen rules text passes
  have hover : n.overlaps n = true := by
    have hlt := (standsIn_of_mem_candidates n (mem_of_mem_select hn)).start_lt_stop
    simp [Numeral.overlaps, hlt]
  have hsame : ∀ k : Numeral, m.overlaps k = n.overlaps k := by
    intro k
    simp only [Numeral.overlaps, hstart, hstop]
  rcases hchosen.exists_kept horder hm with hkept | ⟨k, hk, hoverlaps, hbeats⟩
  · obtain rfl := hchosen.eq_of_overlaps hkept hn (by rw [hsame]; exact hover)
    exact NoLater.refl m
  · obtain rfl := hchosen.eq_of_overlaps hn hk (by rw [← hsame]; exact hoverlaps)
    rcases hbeats with hlonger | ⟨_, hearlier⟩
    · unfold Numeral.stop at hstop
      omega
    · exact hearlier

/-- Each number that is found has an origin, a least height and the first rule that derives it at
this height, and bears the name of this rule. The numbers are found in the order of their origins,
and of the numbers on one stretch the analysis keeps none that has a later origin than another. -/
theorem numbers_are_found_in_the_order_of_their_origins (rules : Registry) (text : Text)
    (passes : Nat) :
    (∀ n ∈ candidates rules text passes, ∃ h r, Origin rules text n.key h r ∧
      (rules[r]?).map Rule.name = some n.rule) ∧
    (candidates rules text passes).Pairwise (NoLater rules text) ∧
    ∀ n ∈ analyze rules text passes, ∀ m ∈ candidates rules text passes,
      m.start = n.start → m.stop = n.stop → NoLater rules text n m := by
  obtain ⟨horigins, horder⟩ := origins_in_order rules text (max passes 1)
  rw [show saturate rules text (max passes 1) [] = candidates rules text passes from
    plainCandidates_eq rules text passes] at horigins horder
  refine ⟨?_, horder, fun n hn m hm => noLater_of_mem_analyze horder hn hm⟩
  intro n hn
  obtain ⟨h, _, r, horigin⟩ := horigins n hn
  exact ⟨h, r, horigin⟩

end SpanishNumerals
