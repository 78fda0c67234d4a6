-- Sorting that keeps the order of equals. It inserts from the back, each element before the
-- first that it may precede.

namespace SpanishNumerals

variable {α : Type _}

/-- Puts an element before the first one that it may precede. -/
def insertBy (precedes : α → α → Bool) (a : α) : List α → List α
  | [] => [a]
  | b :: rest => if precedes a b then a :: b :: rest else b :: insertBy precedes a rest

/-- The elements in an order in which each may precede the next. -/
def sortBy (precedes : α → α → Bool) : List α → List α
  | [] => []
  | a :: rest => insertBy precedes a (sortBy precedes rest)

theorem insertBy_perm (precedes : α → α → Bool) (a : α) (list : List α) :
    (insertBy precedes a list).Perm (a :: list) := by
  induction list with
  | nil => exact List.Perm.refl _
  | cons b rest ih =>
    unfold insertBy
    split
    · exact List.Perm.refl _
    · exact (ih.cons b).trans (List.Perm.swap a b rest)

theorem sortBy_perm (precedes : α → α → Bool) (list : List α) :
    (sortBy precedes list).Perm list := by
  induction list with
  | nil => exact List.Perm.refl _
  | cons a rest ih => exact (insertBy_perm precedes a _).trans (ih.cons a)

@[simp]
theorem mem_sortBy {precedes : α → α → Bool} {list : List α} {a : α} :
    a ∈ sortBy precedes list ↔ a ∈ list :=
  (sortBy_perm precedes list).mem_iff

theorem pairwise_insertBy {precedes : α → α → Bool}
    (trans : ∀ a b c, precedes a b = true → precedes b c = true → precedes a c = true)
    (total : ∀ a b, precedes a b = true ∨ precedes b a = true) (a : α) {list : List α}
    (h : list.Pairwise fun a b => precedes a b = true) :
    (insertBy precedes a list).Pairwise fun a b => precedes a b = true := by
  induction list with
  | nil => exact List.pairwise_singleton _ a
  | cons b rest ih =>
    obtain ⟨hb, hrest⟩ := List.pairwise_cons.mp h
    unfold insertBy
    split
    · rename_i hab
      refine List.pairwise_cons.mpr ⟨?_, h⟩
      intro c hc
      rcases List.mem_cons.mp hc with rfl | hc
      · exact hab
      · exact trans a b c hab (hb c hc)
    · rename_i hab
      have hba : precedes b a = true := (total a b).resolve_left hab
      refine List.pairwise_cons.mpr ⟨?_, ih hrest⟩
      intro c hc
      rcases List.mem_cons.mp ((insertBy_perm precedes a rest).mem_iff.mp hc) with rfl | hc
      · exact hba
      · exact hb c hc

theorem pairwise_sortBy {precedes : α → α → Bool}
    (trans : ∀ a b c, precedes a b = true → precedes b c = true → precedes a c = true)
    (total : ∀ a b, precedes a b = true ∨ precedes b a = true) (list : List α) :
    (sortBy precedes list).Pairwise fun a b => precedes a b = true := by
  induction list with
  | nil => exact List.Pairwise.nil
  | cons a rest ih => exact pairwise_insertBy trans total a ih

end SpanishNumerals
