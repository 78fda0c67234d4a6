-- Registries beside each other. A derivation needs its rules and nothing else, so it stays one
-- when rules are added and when they are put in another order. What is found depends on the
-- order only in the name of the rule and in the order of finding.
import SpanishNumerals.Proofs.Derivation
import SpanishNumerals.Catalogue

namespace SpanishNumerals

section

variable {rules more : Registry} {text : Text}

/-- With more rules a derivation stays one, and is as high. -/
theorem Derived.mono (hsub : rules ⊆ more) {key : Key} {h : Nat}
    (hd : Derived rules text key h) : Derived more text key h := by
  induction hd with
  | intro hrule hassembles _ ih => exact Derived.intro (hsub hrule) hassembles ih

theorem key_mem_candidates_mono (hsub : rules ⊆ more) {passes : Nat} {key : Key}
    (hkey : key ∈ (candidates rules text passes).map Numeral.key) :
    key ∈ (candidates more text passes).map Numeral.key := by
  obtain ⟨h, hle, hderived⟩ := mem_candidates_iff.mp hkey
  exact mem_candidates_iff.mpr ⟨h, hle, hderived.mono hsub⟩

/-- Two registries of the same rules find the same numbers, each of them once. -/
theorem perm_key_candidates (hsub : rules ⊆ more) (hsub' : more ⊆ rules) (passes : Nat) :
    ((candidates rules text passes).map Numeral.key).Perm
      ((candidates more text passes).map Numeral.key) := by
  have hnodup : ∀ rules : Registry, ((candidates rules text passes).map Numeral.key).Nodup :=
    fun rules => List.pairwise_map.mpr (pairwise_key_candidates rules text passes)
  refine (List.perm_ext_iff_of_nodup (hnodup rules) (hnodup more)).mpr fun key => ?_
  exact ⟨key_mem_candidates_mono hsub, key_mem_candidates_mono hsub'⟩

end

/-- More rules find no fewer numbers: each number at its place is found again within as many
passes. And rules in another order find the same numbers. -/
theorem more_rules_find_no_fewer_numbers (text : Text) (passes : Nat) :
    (∀ rules more : Registry, rules ⊆ more →
      (candidates rules text passes).map Numeral.key ⊆
        (candidates more text passes).map Numeral.key) ∧
    ∀ rules others : Registry, rules.Perm others →
      ((candidates rules text passes).map Numeral.key).Perm
        ((candidates others text passes).map Numeral.key) :=
  ⟨fun _ _ hsub _ => key_mem_candidates_mono hsub,
    fun _ _ hperm => perm_key_candidates hperm.subset hperm.symm.subset passes⟩

/-- The words of "dos mil" by themselves give no number that all the rules do not give, as the 2
of "dos", and from the last rule to the first these give the same numbers, as 2000. -/
theorem two_thousand_is_found_by_the_rules_in_any_order :
    (wordRules ⊆ spanishRules ∧
      (0, 3, ⟨.ofNat 2, none⟩) ∈ (candidates wordRules "dos mil".toList 2).map Numeral.key ∧
      (0, 3, ⟨.ofNat 2, none⟩) ∈ (candidates spanishRules "dos mil".toList 2).map Numeral.key ∧
      (candidates wordRules "dos mil".toList 2).map Numeral.key ⊆
        (candidates spanishRules "dos mil".toList 2).map Numeral.key) ∧
    (spanishRules.Perm spanishRules.reverse ∧
      (0, 7, ⟨.ofNat 2000, some 3⟩) ∈
        (candidates spanishRules "dos mil".toList 2).map Numeral.key ∧
      (0, 7, ⟨.ofNat 2000, some 3⟩) ∈
        (candidates spanishRules.reverse "dos mil".toList 2).map Numeral.key ∧
      ((candidates spanishRules "dos mil".toList 2).map Numeral.key).Perm
        ((candidates spanishRules.reverse "dos mil".toList 2).map Numeral.key)) := by
  have hsub : wordRules ⊆ spanishRules := fun rule hrule => by simp [spanishRules, hrule]
  have hperm : spanishRules.Perm spanishRules.reverse := (List.reverse_perm spanishRules).symm
  have htwo : (0, 3, ⟨.ofNat 2, none⟩) ∈
      (candidates wordRules "dos mil".toList 2).map Numeral.key := by
    decide +kernel
  have hthousands : (0, 7, ⟨.ofNat 2000, some 3⟩) ∈
      (candidates spanishRules "dos mil".toList 2).map Numeral.key := by
    decide +kernel
  obtain ⟨hadd, horder⟩ := more_rules_find_no_fewer_numbers "dos mil".toList 2
  have hmore := hadd _ _ hsub
  have hsame := horder _ _ hperm
  exact ⟨⟨hsub, htwo, hmore htwo, hmore⟩, hperm, hthousands, hsame.subset hthousands, hsame⟩

end SpanishNumerals
