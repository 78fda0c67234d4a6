-- A numeral that covers the whole text is kept alone. Of several of them it is the first.
import SpanishNumerals.Proofs.LongestFirst

namespace SpanishNumerals

/-- The numeral covers the whole of a text. -/
def Numeral.covers (n : Numeral) (text : Text) : Bool := n.start = 0 && n.stop = byteLength text

namespace Numeral

variable {n m : Numeral} {text : Text}

theorem covers_iff : n.covers text = true ↔ n.start = 0 ∧ n.stop = byteLength text := by
  simp [covers]

theorem covers_congr (h : n.key = m.key) : n.covers text = m.covers text := by
  obtain ⟨hstart, hstop, -⟩ := key_eq_iff.mp h
  simp only [covers, hstart, hstop]

theorem text_of_covers (hn : n.StandsIn text) (h : n.covers text = true) : n.text = text := by
  obtain ⟨hstart, hstop⟩ := covers_iff.mp h
  obtain ⟨here, hhere, hreach⟩ := hn.cursor
  have hbegin : cursorAt? text 0 = some (Cursor.start text) := cursorAt?_eq_some.mpr ⟨rfl, rfl⟩
  rw [hstart, hbegin] at hhere
  obtain rfl := Option.some.inj hhere
  have hahead : text = n.text ++ ((Cursor.start text).forward n.text.length).ahead := hreach.1
  have hlength := congrArg byteLength hahead
  rw [byteLength_append, ← hstop, stop, hstart, Nat.zero_add, size] at hlength
  -- Nothing is left behind the numeral, since no character takes less than a byte.
  cases hrest : ((Cursor.start text).forward n.text.length).ahead with
  | nil => rw [hrest, List.append_nil] at hahead; exact hahead.symm
  | cons c rest =>
    have := byteLength_pos (List.cons_ne_nil c rest)
    rw [hrest] at hlength
    omega

end Numeral

section

variable {rules : Registry} {text : Text} {passes : Nat} {n : Numeral}

theorem select_of_find? {found : List Numeral} (hstands : ∀ m ∈ found, m.StandsIn text)
    (hnodup : found.Nodup) (h : found.find? (·.covers text) = some n) : select found = [n] := by
  obtain ⟨hcovers, i, hi, hn, hfirst⟩ := List.find?_eq_some_iff_getElem.mp h
  obtain ⟨hstart, hstop⟩ := Numeral.covers_iff.mp hcovers
  have hsize : n.size = byteLength text := by
    unfold Numeral.stop at hstop
    omega
  have hin : found[i]? = some n := by rw [List.getElem?_eq_getElem hi, hn]
  have hbound : ∀ m ∈ found, m.start + m.size ≤ byteLength text := fun m hm => (hstands m hm).stop_le
  have hchosen : Chosen found [n] [i] := by
    refine ⟨List.nodup_singleton i, by simp [hin], List.isChain_singleton n, ?_⟩
    intro j m hj hplaces
    obtain ⟨hlt, rfl⟩ := List.getElem?_eq_some_iff.mp hj
    have hm := hstands _ (List.getElem_mem hlt)
    have hmstop := hm.stop_le
    have hmsize := hm.size_pos
    refine ⟨i, List.mem_singleton_self i, n, hin, ?_, ?_⟩
    · simp only [Numeral.overlaps, Bool.and_eq_true, decide_eq_true_eq]
      unfold Numeral.stop at hstop hmstop ⊢
      omega
    · unfold Numeral.stop at hmstop
      rcases Nat.lt_or_ge found[j].size n.size with hshort | hlong
      · exact Or.inl hshort
      · -- As long as the text: it covers the text too, and so was found later.
        right
        refine ⟨by omega, ?_⟩
        have hwhole : found[j].covers text = true := by
          rw [Numeral.covers_iff, Numeral.stop]
          omega
        have hij : ¬ j < i := by
          intro hji
          have := hfirst j hji
          simp [hwhole] at this
        have hne : j ≠ i := fun heq => hplaces (List.mem_singleton.mpr heq)
        omega
  have hunique := hchosen.unique
    (chosen_select (fun m hm => (hstands m hm).size_pos) hnodup)
    (fun m hm => (hstands m hm).size_pos)
    (fun m hm => Nat.le_trans (Nat.le_add_left _ _) (hbound m hm))
  exact hunique.1.symm

theorem analyze_of_find? (h : (candidates rules text passes).find? (·.covers text) = some n) :
    analyze rules text passes = [n] :=
  select_of_find? standsIn_of_mem_candidates (nodup_candidates rules text passes) h

/-- A numeral of the whole text that is kept was found before all others of the whole text. -/
theorem find?_of_analyze (h : analyze rules text passes = [n]) (hcovers : n.covers text = true) :
    (candidates rules text passes).find? (·.covers text) = some n := by
  have hmem : n ∈ candidates rules text passes := by
    apply mem_of_mem_select
    rw [← analyze, h]
    exact List.mem_singleton_self n
  cases hfind : (candidates rules text passes).find? (·.covers text) with
  | none => exact absurd hcovers (List.find?_eq_none.mp hfind n hmem)
  | some m =>
    have hm := analyze_of_find? hfind
    rw [h] at hm
    rw [List.singleton_inj.mp hm]

/-- When all the derivations of the whole text give one token, and one of them is not too
high, the analysis is that token. -/
theorem analyze_of_derived {token : Token} {h : Nat} (hle : h ≤ passes)
    (hderived : Derived rules text (0, byteLength text, token) h)
    (hunique : ∀ other k, Derived rules text (0, byteLength text, other) k → other = token) :
    ∃ n, analyze rules text passes = [n] ∧ n.covers text = true ∧ n.text = text ∧
      n.token = token := by
  have hkey : (0, byteLength text, token) ∈ (candidates rules text passes).map Numeral.key :=
    mem_candidates_iff.mpr ⟨h, by omega, hderived⟩
  obtain ⟨m, hm, hmkey⟩ := List.mem_map.mp hkey
  have hmcovers : m.covers text = true := by
    obtain ⟨hstart, hstop, -⟩ := Numeral.key_eq_iff.mp hmkey
    exact Numeral.covers_iff.mpr ⟨hstart, hstop⟩
  cases hfind : (candidates rules text passes).find? (·.covers text) with
  | none => exact absurd hmcovers (List.find?_eq_none.mp hfind m hm)
  | some n =>
    have hcovers := List.find?_some hfind
    obtain ⟨hstart, hstop⟩ := Numeral.covers_iff.mp hcovers
    have hmem := List.mem_of_find?_eq_some hfind
    obtain ⟨k, _, hk⟩ := mem_candidates_iff.mp (List.mem_map.mpr ⟨n, hmem, rfl⟩)
    rw [Numeral.key, hstart, hstop] at hk
    exact ⟨n, analyze_of_find? hfind, hcovers,
      Numeral.text_of_covers (standsIn_of_mem_candidates n hmem) hcovers, hunique n.token k hk⟩

end

end SpanishNumerals
