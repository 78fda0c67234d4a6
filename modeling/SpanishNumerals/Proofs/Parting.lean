-- Selection part by part. When no numeral of one part shares text with one of the other, what is
-- kept of the whole is what is kept of each part; and numerals moved along the text are kept as
-- they were where they came from.
import SpanishNumerals.Proofs.Ending
import SpanishNumerals.Proofs.LongestFirst

namespace SpanishNumerals

/-! ## Sorting part by part -/

section Sorting

variable {α β : Type _} {precedes : α → α → Bool}

theorem insertBy_of_forall {a : α} {list : List α} (h : ∀ b ∈ list, precedes a b = true) :
    insertBy precedes a list = a :: list := by
  cases list with
  | nil => rfl
  | cons b rest => rw [insertBy, if_pos (h b List.mem_cons_self)]

theorem filter_insertBy_of_neg {p : α → Bool} {a : α} (list : List α) (ha : ¬ p a = true) :
    (insertBy precedes a list).filter p = list.filter p := by
  induction list with
  | nil => exact List.filter_cons_of_neg ha
  | cons b rest ih =>
    unfold insertBy
    split
    · exact List.filter_cons_of_neg ha
    · rw [List.filter_cons, List.filter_cons, ih]

section Order

variable (trans : ∀ a b c, precedes a b = true → precedes b c = true → precedes a c = true)

include trans

theorem filter_insertBy {p : α → Bool} {a : α} {list : List α} (ha : p a = true)
    (hsorted : list.Pairwise fun a b => precedes a b = true) :
    (insertBy precedes a list).filter p = insertBy precedes a (list.filter p) := by
  induction list with
  | nil => exact List.filter_cons_of_pos ha
  | cons b rest ih =>
    obtain ⟨hb, hrest⟩ := List.pairwise_cons.mp hsorted
    by_cases hab : precedes a b = true
    · -- What comes after `b` may come after `a` too, whatever is dropped.
      have hall : ∀ c ∈ (b :: rest).filter p, precedes a c = true := by
        intro c hc
        rcases List.mem_cons.mp (List.mem_filter.mp hc).1 with rfl | hc
        · exact hab
        · exact trans a b c hab (hb c hc)
      rw [insertBy_of_forall hall, insertBy, if_pos hab, List.filter_cons_of_pos ha]
    · rw [insertBy, if_neg hab]
      by_cases hpb : p b = true
      · rw [List.filter_cons_of_pos hpb, List.filter_cons_of_pos hpb, ih hrest, insertBy,
          if_neg hab]
      · rw [List.filter_cons_of_neg hpb, List.filter_cons_of_neg hpb, ih hrest]

/-- To sort and drop is to drop and sort. -/
theorem filter_sortBy (total : ∀ a b, precedes a b = true ∨ precedes b a = true) (p : α → Bool)
    (list : List α) : (sortBy precedes list).filter p = sortBy precedes (list.filter p) := by
  induction list with
  | nil => rfl
  | cons a rest ih =>
    by_cases ha : p a = true
    · rw [sortBy, filter_insertBy trans ha (pairwise_sortBy trans total rest), ih,
        List.filter_cons_of_pos ha, sortBy]
    · rw [sortBy, filter_insertBy_of_neg _ ha, ih, List.filter_cons_of_neg ha]

end Order

theorem map_insertBy {precedes' : β → β → Bool} {f : α → β}
    (hf : ∀ a b, precedes' (f a) (f b) = precedes a b) (a : α) (list : List α) :
    insertBy precedes' (f a) (list.map f) = (insertBy precedes a list).map f := by
  induction list with
  | nil => rfl
  | cons b rest ih =>
    simp only [List.map_cons, insertBy, hf]
    split
    · rfl
    · rw [ih, List.map_cons]

theorem map_sortBy {precedes' : β → β → Bool} {f : α → β}
    (hf : ∀ a b, precedes' (f a) (f b) = precedes a b) (list : List α) :
    sortBy precedes' (list.map f) = (sortBy precedes list).map f := by
  induction list with
  | nil => rfl
  | cons a rest ih => rw [List.map_cons, sortBy, ih, map_insertBy hf, sortBy]

end Sorting

/-! ## Keeping apart part by part -/

/-- The scan keeps of a part what it would keep of that part by itself, when numerals that share
text are of one part. -/
theorem filter_keepApart {p : Numeral → Bool} {kept list : List Numeral}
    (h : ∀ m ∈ kept ++ list, ∀ n ∈ list, m.overlaps n = true → p m = p n) :
    (keepApart kept list).filter p = keepApart (kept.filter p) (list.filter p) := by
  induction list generalizing kept with
  | nil => rfl
  | cons n rest ih =>
    have hskip := @ih kept fun m hm k hk =>
      h m (by simp only [List.mem_append, List.mem_cons] at hm ⊢; tauto) k
        (List.mem_cons_of_mem n hk)
    have htake := @ih (kept ++ [n]) fun m hm k hk =>
      h m (by simpa [or_assoc] using hm) k (List.mem_cons_of_mem n hk)
    by_cases hn : p n = true
    · -- Only what is of the part of `n` can share text with it.
      have hany : (kept.filter p).any (·.overlaps n) = kept.any (·.overlaps n) := by
        rw [Bool.eq_iff_iff, List.any_eq_true, List.any_eq_true]
        constructor
        · rintro ⟨m, hm, hover⟩
          exact ⟨m, (List.mem_filter.mp hm).1, hover⟩
        · rintro ⟨m, hm, hover⟩
          have hpm := h m (List.mem_append_left _ hm) n List.mem_cons_self hover
          exact ⟨m, List.mem_filter.mpr ⟨hm, hpm.trans hn⟩, hover⟩
      rw [List.filter_cons_of_pos hn]
      simp only [keepApart, hany]
      split
      · exact hskip
      · rw [htake, List.filter_append, List.filter_cons_of_pos hn, List.filter_nil]
    · rw [List.filter_cons_of_neg hn]
      simp only [keepApart]
      split
      · exact hskip
      · rw [htake, List.filter_append, List.filter_cons_of_neg hn, List.filter_nil,
          List.append_nil]

theorem map_keepApart {f : Numeral → Numeral}
    (hf : ∀ m n : Numeral, (f m).overlaps (f n) = m.overlaps n) (kept list : List Numeral) :
    keepApart (kept.map f) (list.map f) = (keepApart kept list).map f := by
  induction list generalizing kept with
  | nil => rfl
  | cons n rest ih =>
    have hany : (kept.map f).any (·.overlaps (f n)) = kept.any (·.overlaps n) := by
      rw [List.any_map]
      simp only [Function.comp_def, hf]
    simp only [List.map_cons, keepApart, hany]
    split
    · exact ih kept
    · rw [← ih, List.map_append, List.map_singleton]

/-! ## Selecting part by part -/

section Selection

/-- Of numerals moved along the text the same ones are kept. -/
theorem map_select_shift (bytes : Nat) (found : List Numeral) :
    select (found.map (Numeral.shift bytes)) = (select found).map (Numeral.shift bytes) := by
  have hsize : ∀ a b : Numeral, decide ((b.shift bytes).size ≤ (a.shift bytes).size) =
      decide (b.size ≤ a.size) := fun _ _ => rfl
  have hstart : ∀ a b : Numeral, decide ((a.shift bytes).start ≤ (b.shift bytes).start) =
      decide (a.start ≤ b.start) := by
    intro a b
    simp
  have hover : ∀ a b : Numeral, (a.shift bytes).overlaps (b.shift bytes) = a.overlaps b := by
    intro a b
    simp [Numeral.overlaps]
  have hbySize : bySize (found.map (Numeral.shift bytes)) =
      (bySize found).map (Numeral.shift bytes) := map_sortBy hsize found
  have hkeep := map_keepApart hover [] (bySize found)
  rw [List.map_nil] at hkeep
  rw [select, hbySize, hkeep, map_sortBy hstart]
  rfl

/-- What is kept of a part is what is kept of it by itself, when numerals that share text are of
one part. -/
theorem filter_select {p : Numeral → Bool} {found : List Numeral}
    (h : ∀ m ∈ found, ∀ n ∈ found, m.overlaps n = true → p m = p n) :
    (select found).filter p = select (found.filter p) := by
  have hbySize : (bySize found).filter p = bySize (found.filter p) :=
    filter_sortBy (fun _ _ _ hab hbc => trans_measure hbc hab) (fun _ _ => total_measure _ _) p found
  have hkeep : (keepApart [] (bySize found)).filter p = keepApart [] (bySize (found.filter p)) := by
    rw [← hbySize]
    exact filter_keepApart fun m hm n hn => h m (by simpa [bySize] using hm) n
      (by simpa [bySize] using hn)
  rw [select, filter_sortBy (fun _ _ _ => trans_measure) (fun _ _ => total_measure _ _), hkeep,
    select]

/-- A list in which nothing of one part stands before something of the other falls into the two
parts. -/
theorem filter_append_filter_not {α : Type _} {p : α → Bool} {list : List α}
    (h : list.Pairwise fun a b => p b = true → p a = true) :
    list.filter p ++ list.filter (fun a => !p a) = list := by
  induction list with
  | nil => rfl
  | cons a rest ih =>
    obtain ⟨ha, hrest⟩ := List.pairwise_cons.mp h
    by_cases hpa : p a = true
    · rw [List.filter_cons_of_pos hpa, List.filter_cons_of_neg (by simp [hpa]), List.cons_append,
        ih hrest]
    · have hnone : rest.filter p = [] := by
        rw [List.filter_eq_nil_iff]
        exact fun b hb hpb => hpa (ha b hb hpb)
      have hall : rest.filter (fun a => !p a) = rest := by
        rw [List.filter_eq_self]
        intro b hb
        simpa using fun hpb => hpa (ha b hb hpb)
      rw [List.filter_cons_of_neg hpa, List.filter_cons_of_pos (by simpa using hpa), hnone, hall,
        List.nil_append]

/-- Numerals on two sides of a gap in the text are kept side by side. -/
theorem select_of_gap {found : List Numeral} {low high : Nat} (hle : low ≤ high)
    (hsize : ∀ n ∈ found, 0 < n.size)
    (hgap : ∀ n ∈ found, n.stop ≤ low ∨ high ≤ n.start) :
    select found = select (found.filter fun n => decide (n.stop ≤ low)) ++
      select (found.filter fun n => decide (high ≤ n.start)) := by
  have hside : ∀ n ∈ found, (!decide (n.stop ≤ low)) = decide (high ≤ n.start) := by
    intro n hn
    have hpos := hsize n hn
    have hstop : n.stop = n.start + n.size := rfl
    rcases hgap n hn with h | h
    · simp [h, show ¬ high ≤ n.start by omega]
    · simp [h, show ¬ n.stop ≤ low by omega]
  have hlow : ∀ m ∈ found, ∀ n ∈ found, m.overlaps n = true →
      decide (m.stop ≤ low) = decide (n.stop ≤ low) := by
    intro m hm n hn hover
    simp only [Numeral.overlaps, Bool.and_eq_true, decide_eq_true_eq] at hover
    have hm' := hgap m hm
    have hn' := hgap n hn
    rw [decide_eq_decide]
    omega
  have hhigh : ∀ m ∈ found, ∀ n ∈ found, m.overlaps n = true →
      decide (high ≤ m.start) = decide (high ≤ n.start) := by
    intro m hm n hn hover
    rw [← hside m hm, ← hside n hn, hlow m hm n hn hover]
  have hrest : (select found).filter (fun n => !decide (n.stop ≤ low)) =
      (select found).filter fun n => decide (high ≤ n.start) :=
    List.filter_congr fun n hn => hside n (mem_of_mem_select hn)
  rw [← filter_select hlow, ← filter_select hhigh, ← hrest]
  refine (filter_append_filter_not ?_).symm
  refine (inOrder_select hsize).pairwise.imp_of_mem ?_
  intro m n hm hn hbefore hstop
  have hm' := hgap m (mem_of_mem_select hm)
  have hn' := hsize n (mem_of_mem_select hn)
  have hnstop : n.stop = n.start + n.size := rfl
  have hmstop : m.stop = m.start + m.size := rfl
  simp only [decide_eq_true_eq] at hstop ⊢
  omega

end Selection

end SpanishNumerals
