-- The law of the selection. The numerals that are kept stand one behind the other, and each
-- one that is dropped shares text with a kept one that is longer, or as long and found before.
-- No other choice from the same list has these properties.
import Mathlib.Data.List.Chain
import Mathlib.Data.List.Nodup
import Mathlib.Data.Option.Basic
import SpanishNumerals.Analysis
import SpanishNumerals.Proofs.Derivation

namespace SpanishNumerals

/-! ## Choices from a list of numerals -/

/-- The numeral `b` stands behind `a`: it begins no earlier, and not before `a` has ended. -/
def Numeral.Before (a b : Numeral) : Prop := a.start ≤ b.start ∧ a.stop ≤ b.start

instance : Trans Numeral.Before Numeral.Before Numeral.Before where
  trans := fun ⟨hab, hab'⟩ ⟨hbc, _⟩ => ⟨Nat.le_trans hab hbc, Nat.le_trans hab' hbc⟩

/-- Numerals one behind the other. -/
def InOrder (kept : List Numeral) : Prop := kept.IsChain Numeral.Before

/-- The numeral `m` at place `j` goes before `n` at place `i`: it is longer, or as long and
found before. -/
def GoesBefore (m : Numeral) (j : Nat) (n : Numeral) (i : Nat) : Prop :=
  n.size < m.size ∨ n.size = m.size ∧ j < i

/-- `kept` is chosen from `found` at the places `places`, and all that is not chosen shares
text with something chosen that goes before it. -/
structure Chosen (found kept : List Numeral) (places : List Nat) : Prop where
  distinct : places.Nodup
  at_places : kept.map some = places.map fun i => found[i]?
  in_order : InOrder kept
  beaten : ∀ i n, found[i]? = some n → i ∉ places →
    ∃ j ∈ places, ∃ m, found[j]? = some m ∧ n.overlaps m = true ∧ GoesBefore m j n i

theorem overlaps_comm (a b : Numeral) : a.overlaps b = b.overlaps a := by
  unfold Numeral.overlaps
  rw [Bool.and_comm]

theorem not_overlaps_of_stop_le {a b : Numeral} (h : a.stop ≤ b.start) :
    a.overlaps b = false := by
  simp only [Numeral.overlaps, Bool.and_eq_false_iff, decide_eq_false_iff_not]
  right
  omega

/-- In a row of numerals each one ends before any later one begins. -/
theorem InOrder.pairwise {kept : List Numeral} (h : InOrder kept) :
    kept.Pairwise fun a b => a.stop ≤ b.start :=
  (List.isChain_iff_pairwise.mp h).imp And.right

/-! ## What the greedy scan keeps -/

theorem keepApart_eq_append (kept list : List Numeral) :
    ∃ more, more.Sublist list ∧ keepApart kept list = kept ++ more := by
  induction list generalizing kept with
  | nil => exact ⟨[], List.Sublist.refl _, by simp [keepApart]⟩
  | cons n rest ih =>
    unfold keepApart
    split
    · obtain ⟨more, hsub, heq⟩ := ih kept
      exact ⟨more, hsub.cons n, heq⟩
    · obtain ⟨more, hsub, heq⟩ := ih (kept ++ [n])
      exact ⟨n :: more, hsub.cons_cons n, by rw [heq, List.append_assoc]; rfl⟩

theorem pairwise_keepApart {kept : List Numeral} (list : List Numeral)
    (h : kept.Pairwise fun a b => a.overlaps b = false) :
    (keepApart kept list).Pairwise fun a b => a.overlaps b = false := by
  induction list generalizing kept with
  | nil => exact h
  | cons n rest ih =>
    unfold keepApart
    split
    · exact ih h
    · rename_i hn
      apply ih
      refine List.pairwise_append.mpr ⟨h, List.pairwise_singleton _ n, ?_⟩
      intro m hm b hb
      obtain rfl := List.mem_singleton.mp hb
      simp only [List.any_eq_true, not_exists, not_and, Bool.not_eq_true] at hn
      exact hn m hm

/-- What the scan drops shares text with something that it keeps and that it came to before. -/
theorem beaten_of_not_mem_keepApart {before : Numeral → Numeral → Prop}
    {kept list : List Numeral} (h : (kept ++ list).Pairwise before) {n : Numeral}
    (hn : n ∈ list) (hdropped : n ∉ keepApart kept list) :
    ∃ m ∈ keepApart kept list, m.overlaps n = true ∧ before m n := by
  induction list generalizing kept with
  | nil => simp at hn
  | cons p rest ih =>
    unfold keepApart at hdropped ⊢
    obtain ⟨hkept, hlist, hcross⟩ := List.pairwise_append.mp h
    split at hdropped
    · rename_i hp
      simp only [hp, if_true]
      have hsub : (kept ++ rest).Pairwise before :=
        h.sublist ((List.Sublist.refl kept).append (List.sublist_cons_self p rest))
      rcases List.mem_cons.mp hn with rfl | hn
      · obtain ⟨m, hm, hoverlap⟩ := List.any_eq_true.mp hp
        obtain ⟨more, _, heq⟩ := keepApart_eq_append kept rest
        rw [heq]
        exact ⟨m, List.mem_append_left _ hm, hoverlap, hcross m hm n List.mem_cons_self⟩
      · exact ih hsub hn hdropped
    · rename_i hp
      simp only [hp]
      rcases List.mem_cons.mp hn with rfl | hn
      · obtain ⟨more, _, heq⟩ := keepApart_eq_append (kept ++ [n]) rest
        rw [heq] at hdropped
        simp at hdropped
      · exact ih (by rw [List.append_assoc]; exact h) hn hdropped

/-! ## Sorting keeps the order of equals -/

/-- Of two elements that may each precede the other, the one that stood first stays first. -/
theorem pairwise_sortBy_of_both {α : Type _} {precedes : α → α → Bool} {before : α → α → Prop}
    {list : List α} (h : list.Pairwise before) :
    (sortBy precedes list).Pairwise fun a b => precedes b a = true → before a b := by
  induction list with
  | nil => exact List.Pairwise.nil
  | cons a rest ih =>
    obtain ⟨ha, hrest⟩ := List.pairwise_cons.mp h
    have hsorted := ih hrest
    have hmem : ∀ b ∈ sortBy precedes rest, before a b := fun b hb => ha b (mem_sortBy.mp hb)
    unfold sortBy
    generalize sortBy precedes rest = sorted at hsorted hmem
    clear ih ha hrest h
    induction sorted with
    | nil => exact List.pairwise_singleton _ a
    | cons b sorted ih =>
      obtain ⟨hb, hsorted'⟩ := List.pairwise_cons.mp hsorted
      unfold insertBy
      split
      · exact List.pairwise_cons.mpr ⟨fun c hc _ => hmem c hc, hsorted⟩
      · rename_i hab
        refine List.pairwise_cons.mpr
          ⟨?_, ih hsorted' fun c hc => hmem c (List.mem_cons_of_mem b hc)⟩
        intro c hc hcb
        rcases List.mem_cons.mp ((insertBy_perm precedes a sorted).mem_iff.mp hc) with rfl | hc
        · exact absurd hcb hab
        · exact hb c hc hcb

theorem pairwise_idxOf {found : List Numeral} (h : found.Nodup) :
    found.Pairwise fun a b => found.idxOf a < found.idxOf b := by
  rw [List.pairwise_iff_getElem]
  intro i j hi hj hij
  rwa [h.idxOf_getElem i hi, h.idxOf_getElem j hj]

theorem trans_measure {f : Numeral → Nat} {a b c : Numeral} (hab : decide (f a ≤ f b) = true)
    (hbc : decide (f b ≤ f c) = true) : decide (f a ≤ f c) = true :=
  decide_eq_true (Nat.le_trans (of_decide_eq_true hab) (of_decide_eq_true hbc))

theorem total_measure {f : Numeral → Nat} (a b : Numeral) :
    decide (f a ≤ f b) = true ∨ decide (f b ≤ f a) = true :=
  (Nat.le_total (f a) (f b)).imp decide_eq_true decide_eq_true

/-- In the order of size each numeral goes before those behind it. -/
theorem pairwise_bySize {found : List Numeral} (h : found.Nodup) :
    (bySize found).Pairwise fun m n => GoesBefore m (found.idxOf m) n (found.idxOf n) := by
  have hsize : (bySize found).Pairwise fun a b => decide (b.size ≤ a.size) = true :=
    pairwise_sortBy (fun _ _ _ hab hbc => trans_measure hbc hab) (fun _ _ => total_measure _ _) found
  have hplace : (bySize found).Pairwise fun a b =>
      decide (a.size ≤ b.size) = true → found.idxOf a < found.idxOf b :=
    pairwise_sortBy_of_both (pairwise_idxOf h)
  refine (hsize.and hplace).imp ?_
  rintro m n ⟨hle, himp⟩
  simp only [decide_eq_true_eq] at hle himp
  rcases Nat.lt_or_eq_of_le hle with hlt | heq
  · exact Or.inl hlt
  · exact Or.inr ⟨heq, himp (Nat.le_of_eq heq.symm)⟩

/-! ## The selection is a choice -/

theorem select_perm (found : List Numeral) :
    (select found).Perm (keepApart [] (bySize found)) := sortBy_perm _ _

theorem keepApart_sublist (list : List Numeral) : (keepApart [] list).Sublist list := by
  obtain ⟨more, hsub, heq⟩ := keepApart_eq_append [] list
  rw [heq]
  exact hsub

theorem mem_of_mem_select {found : List Numeral} {n : Numeral} (h : n ∈ select found) :
    n ∈ found :=
  mem_sortBy.mp ((keepApart_sublist _).subset ((select_perm found).mem_iff.mp h))

theorem nodup_select {found : List Numeral} (h : found.Nodup) : (select found).Nodup := by
  refine (select_perm found).nodup_iff.mpr ((keepApart_sublist _).nodup ?_)
  exact (sortBy_perm _ found).nodup_iff.mpr h

theorem inOrder_select {found : List Numeral} (hsize : ∀ n ∈ found, 0 < n.size) :
    InOrder (select found) := by
  apply List.Pairwise.isChain
  have hstart : (select found).Pairwise fun a b => decide (a.start ≤ b.start) = true :=
    pairwise_sortBy (fun _ _ _ => trans_measure) (fun _ _ => total_measure _ _) _
  have hapart : (select found).Pairwise fun a b => a.overlaps b = false :=
    (List.Perm.pairwise_iff (fun {a b} h => by rw [overlaps_comm]; exact h)
      (select_perm found)).mpr (pairwise_keepApart _ List.Pairwise.nil)
  refine (hstart.and hapart).imp_of_mem ?_
  rintro a b _ hb ⟨hle, hoverlap⟩
  have hbsize := hsize b (mem_of_mem_select hb)
  simp only [decide_eq_true_eq] at hle
  simp only [Numeral.overlaps, Bool.and_eq_false_iff, decide_eq_false_iff_not] at hoverlap
  have hbstop : b.stop = b.start + b.size := rfl
  exact ⟨hle, by omega⟩

theorem chosen_select {found : List Numeral} (hsize : ∀ n ∈ found, 0 < n.size)
    (hnodup : found.Nodup) :
    Chosen found (select found) ((select found).map fun n => found.idxOf n) := by
  have hidx : ∀ n ∈ found, found[found.idxOf n]? = some n := by
    intro n hn
    rw [List.getElem?_eq_getElem (List.idxOf_lt_length_of_mem hn), List.getElem_idxOf]
  refine ⟨?_, ?_, inOrder_select hsize, ?_⟩
  · refine List.Nodup.map_on ?_ (nodup_select hnodup)
    intro a ha b hb hab
    have hga := hidx a (mem_of_mem_select ha)
    rw [hab, hidx b (mem_of_mem_select hb)] at hga
    exact (Option.some.inj hga).symm
  · rw [List.map_map]
    apply List.map_congr_left
    intro n hn
    exact (hidx n (mem_of_mem_select hn)).symm
  · intro i n hi hplaces
    have hn : n ∈ found := List.mem_of_getElem? hi
    have hplace : found.idxOf n = i := by
      obtain ⟨hlt, rfl⟩ := List.getElem?_eq_some_iff.mp hi
      exact hnodup.idxOf_getElem i hlt
    have hdropped : n ∉ keepApart [] (bySize found) := by
      intro h
      refine hplaces (List.mem_map.mpr ⟨n, (select_perm found).mem_iff.mpr h, hplace⟩)
    obtain ⟨m, hm, hoverlap, hbefore⟩ :=
      @beaten_of_not_mem_keepApart _ [] _ (pairwise_bySize hnodup) n (mem_sortBy.mpr hn) hdropped
    have hselect := (select_perm found).mem_iff.mpr hm
    rw [hplace] at hbefore
    exact ⟨found.idxOf m, List.mem_map.mpr ⟨m, hselect, rfl⟩, m,
      hidx m (mem_of_mem_select hselect), by rw [overlaps_comm]; exact hoverlap, hbefore⟩

/-! ## There is no other choice -/

section Unique

variable {found kept kept' : List Numeral} {places places' : List Nat}

theorem Chosen.getElem? (h : Chosen found kept places) (a : Nat) :
    kept[a]? = (places[a]?).bind fun i => found[i]? := by
  have hmap := congrArg (fun list => list[a]?) h.at_places
  simp only [List.getElem?_map] at hmap
  cases hk : kept[a]? <;> cases hp : places[a]? <;> simp_all

/-- Two chosen numerals at different places share no text. -/
theorem Chosen.not_overlaps (h : Chosen found kept places) {i j : Nat} {n m : Numeral}
    (hi : i ∈ places) (hj : j ∈ places) (hij : i ≠ j) (hn : found[i]? = some n)
    (hm : found[j]? = some m) : n.overlaps m = false := by
  obtain ⟨a, ha⟩ := List.mem_iff_getElem?.mp hi
  obtain ⟨b, hb⟩ := List.mem_iff_getElem?.mp hj
  have hka : kept[a]? = some n := by rw [h.getElem? a, ha]; exact hn
  have hkb : kept[b]? = some m := by rw [h.getElem? b, hb]; exact hm
  have hab : a ≠ b := by
    rintro rfl
    rw [ha] at hb
    exact hij (Option.some.inj hb)
  obtain ⟨hla, rfl⟩ := List.getElem?_eq_some_iff.mp hka
  obtain ⟨hlb, rfl⟩ := List.getElem?_eq_some_iff.mp hkb
  have hpairwise := List.pairwise_iff_getElem.mp h.in_order.pairwise
  rcases Nat.lt_or_gt_of_ne hab with hlt | hlt
  · exact not_overlaps_of_stop_le (hpairwise a b hla hlb hlt)
  · rw [overlaps_comm]
    exact not_overlaps_of_stop_le (hpairwise b a hlb hla hlt)

theorem Chosen.exists_place (h : Chosen found kept places) {n : Numeral} (hn : n ∈ kept) :
    ∃ i ∈ places, found[i]? = some n := by
  obtain ⟨a, ha⟩ := List.mem_iff_getElem?.mp hn
  rw [h.getElem? a] at ha
  obtain ⟨i, hi, hplace⟩ := Option.bind_eq_some_iff.mp ha
  exact ⟨i, List.mem_of_getElem? hi, hplace⟩

theorem Chosen.mem_of_place (h : Chosen found kept places) {i : Nat} {n : Numeral}
    (hi : i ∈ places) (hn : found[i]? = some n) : n ∈ kept := by
  have hmem : found[i]? ∈ kept.map some := by
    rw [h.at_places]
    exact List.mem_map.mpr ⟨i, hi, rfl⟩
  rw [hn] at hmem
  obtain ⟨m, hm, heq⟩ := List.mem_map.mp hmem
  exact Option.some.inj heq ▸ hm

/-- Two chosen numerals that share text are one. -/
theorem Chosen.eq_of_overlaps (h : Chosen found kept places) {n m : Numeral} (hn : n ∈ kept)
    (hm : m ∈ kept) (hover : n.overlaps m = true) : n = m := by
  obtain ⟨i, hi, hin⟩ := h.exists_place hn
  obtain ⟨j, hj, hjm⟩ := h.exists_place hm
  by_cases hij : i = j
  · subst hij
    exact Option.some.inj (hin.symm.trans hjm)
  · rw [h.not_overlaps hi hj hij hin hjm] at hover
    exact absurd hover (by decide)

/-- When two choices agree on all that goes before a place, what the one has there the other
has too. -/
theorem Chosen.mem_of_agree (h : Chosen found kept places) (h' : Chosen found kept' places')
    {i : Nat} {n : Numeral} (hn : found[i]? = some n)
    (hagree : ∀ j m, found[j]? = some m → GoesBefore m j n i → j ∈ places' → j ∈ places)
    (hi : i ∈ places) : i ∈ places' := by
  by_contra hnot
  obtain ⟨j, hj, m, hm, hoverlap, hbefore⟩ := h'.beaten i n hn hnot
  have hij : i ≠ j := by
    rintro rfl
    exact hnot hj
  rw [h.not_overlaps hi (hagree j m hm hbefore hj) hij hn hm] at hoverlap
  exact absurd hoverlap (by simp)

/-- Two choices have the same places. The induction follows the order in which the numerals
go: by falling size, then by place. -/
theorem Chosen.mem_iff (h : Chosen found kept places) (h' : Chosen found kept' places')
    {bound : Nat} (hbound : ∀ n ∈ found, n.size ≤ bound) (i : Nat) (n : Numeral)
    (hn : found[i]? = some n) : i ∈ places ↔ i ∈ places' := by
  obtain ⟨d, hd⟩ : ∃ d, bound - n.size = d := ⟨_, rfl⟩
  induction d using Nat.strong_induction_on generalizing i n with
  | _ d ihd =>
    induction i using Nat.strong_induction_on generalizing n with
    | _ i ihi =>
      have hagree : ∀ j m, found[j]? = some m → GoesBefore m j n i →
          (j ∈ places ↔ j ∈ places') := by
        intro j m hm hbefore
        have hle := hbound m (List.mem_of_getElem? hm)
        rcases hbefore with hlt | ⟨heq, hlt⟩
        · exact ihd (bound - m.size) (by omega) j m hm rfl
        · exact ihi j hlt m hm (by omega)
      exact ⟨h.mem_of_agree h' hn fun j m hm hb => (hagree j m hm hb).mpr,
        h'.mem_of_agree h hn fun j m hm hb => (hagree j m hm hb).mp⟩

theorem Chosen.exists_getElem? (h : Chosen found kept places) {i : Nat} (hi : i ∈ places) :
    ∃ n, found[i]? = some n := by
  have hmem : found[i]? ∈ kept.map some := by
    rw [h.at_places]
    exact List.mem_map.mpr ⟨i, hi, rfl⟩
  obtain ⟨n, _, hn⟩ := List.mem_map.mp hmem
  exact ⟨n, hn.symm⟩

theorem Chosen.pairwise_places (h : Chosen found kept places) :
    places.Pairwise fun i j => ∀ n m, found[i]? = some n → found[j]? = some m →
      n.stop ≤ m.start := by
  rw [List.pairwise_iff_getElem]
  intro a b ha hb hab n m hn hm
  have hka : kept[a]? = some n := by
    rw [h.getElem? a, List.getElem?_eq_getElem ha]
    exact hn
  have hkb : kept[b]? = some m := by
    rw [h.getElem? b, List.getElem?_eq_getElem hb]
    exact hm
  obtain ⟨hla, rfl⟩ := List.getElem?_eq_some_iff.mp hka
  obtain ⟨hlb, rfl⟩ := List.getElem?_eq_some_iff.mp hkb
  exact List.pairwise_iff_getElem.mp h.in_order.pairwise a b hla hlb hab

/-- Two choices from one list are the same, place by place. -/
theorem Chosen.unique (h : Chosen found kept places) (h' : Chosen found kept' places')
    {bound : Nat} (hsize : ∀ n ∈ found, 0 < n.size) (hbound : ∀ n ∈ found, n.size ≤ bound) :
    kept = kept' ∧ places = places' := by
  have hmem : ∀ i, i ∈ places ↔ i ∈ places' := by
    intro i
    constructor
    · intro hi
      obtain ⟨n, hn⟩ := h.exists_getElem? hi
      exact (h.mem_iff h' hbound i n hn).mp hi
    · intro hi
      obtain ⟨n, hn⟩ := h'.exists_getElem? hi
      exact (h.mem_iff h' hbound i n hn).mpr hi
  have hplaces : places = places' := by
    have hperm := (List.perm_ext_iff_of_nodup h.distinct h'.distinct).mpr hmem
    refine List.Perm.eq_of_pairwise ?_ h.pairwise_places h'.pairwise_places hperm
    intro i j hi hj hij hji
    obtain ⟨n, hn⟩ := h.exists_getElem? hi
    obtain ⟨m, hm⟩ := h'.exists_getElem? hj
    have hnm := hij n m hn hm
    have hmn := hji m n hm hn
    have hnsize := hsize n (List.mem_of_getElem? hn)
    have hmsize := hsize m (List.mem_of_getElem? hm)
    unfold Numeral.stop at hnm hmn
    omega
  refine ⟨?_, hplaces⟩
  have hsome : kept.map some = kept'.map some := by
    rw [h.at_places, h'.at_places, hplaces]
  exact List.map_injective_iff.mpr (Option.some_injective _) hsome

end Unique

/-! ## The law -/

/-- What was found is kept, or shares text with something kept that is longer, or as long and
found before. -/
theorem Chosen.exists_kept {found kept : List Numeral} {places : List Nat}
    (h : Chosen found kept places) {earlier : Numeral → Numeral → Prop}
    (hearlier : found.Pairwise earlier) {n : Numeral} (hn : n ∈ found) :
    n ∈ kept ∨ ∃ m ∈ kept, n.overlaps m = true ∧
      (n.size < m.size ∨ n.size = m.size ∧ earlier m n) := by
  obtain ⟨i, hi⟩ := List.mem_iff_getElem?.mp hn
  by_cases hplace : i ∈ places
  · exact Or.inl (h.mem_of_place hplace hi)
  · obtain ⟨j, hj, m, hm, hover, hbefore⟩ := h.beaten i n hi hplace
    refine Or.inr ⟨m, h.mem_of_place hj hm, hover, ?_⟩
    rcases hbefore with hlonger | ⟨hsame, hlt⟩
    · exact Or.inl hlonger
    · obtain ⟨hil, rfl⟩ := List.getElem?_eq_some_iff.mp hi
      obtain ⟨hjl, rfl⟩ := List.getElem?_eq_some_iff.mp hm
      exact Or.inr ⟨hsame, List.pairwise_iff_getElem.mp hearlier j i hjl hil hlt⟩

theorem nodup_candidates (rules : Registry) (text : Text) (passes : Nat) :
    (candidates rules text passes).Nodup :=
  (pairwise_key_candidates rules text passes).imp fun hne heq => hne (congrArg _ heq)

theorem exists_chosen (rules : Registry) (text : Text) (passes : Nat) :
    ∃ places, Chosen (candidates rules text passes) (analyze rules text passes) places :=
  ⟨_, chosen_select (fun n hn => (standsIn_of_mem_candidates n hn).size_pos)
    (nodup_candidates rules text passes)⟩

/-- The analysis keeps a choice of the numerals found, the longest first and of two as long the
one found first, and there is no other such choice. -/
theorem the_analysis_is_the_only_longest_first_choice (rules : Registry) (text : Text)
    (passes : Nat) :
    ∃ places, Chosen (candidates rules text passes) (analyze rules text passes) places ∧
      ∀ kept places', Chosen (candidates rules text passes) kept places' →
        kept = analyze rules text passes ∧ places' = places := by
  have hstands := @standsIn_of_mem_candidates rules text passes
  have hchosen := chosen_select (fun n hn => (hstands n hn).size_pos)
    (nodup_candidates rules text passes)
  refine ⟨_, hchosen, ?_⟩
  intro kept places' h
  have hbound : ∀ n ∈ candidates rules text passes, n.size ≤ byteLength text := by
    intro n hn
    have := (hstands n hn).stop_le
    unfold Numeral.stop at this
    omega
  exact h.unique hchosen (fun n hn => (hstands n hn).size_pos) hbound

end SpanishNumerals
