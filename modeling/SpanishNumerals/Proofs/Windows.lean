-- The windows that rules take. The elements of a rule tell the shape of its window and what the
-- numbers in it meet. So what the productions keep true of tokens is true of all that is found.
import Mathlib.Data.List.Forall2
import SpanishNumerals.Proofs.Leaves

namespace SpanishNumerals

/-! ## Elements and their nodes -/

/-- The window has one node for each of the elements, and each element takes its node. -/
def Window.TakenBy (window : Window) (elements : List Element) : Prop :=
  List.Forall₂ (fun element node => element.accepts node = true) elements window

namespace Window

variable {window : Window} {elements : List Element}

theorem takenBy_nil : TakenBy window [] ↔ window = [] := List.forall₂_nil_left_iff

theorem takenBy_text {pattern : Pattern} :
    TakenBy window (.text pattern :: elements) ↔
      ∃ capture rest, TakenBy rest elements ∧ window = .capture capture :: rest := by
  rw [TakenBy, List.forall₂_cons_left_iff]
  constructor
  · rintro ⟨node, rest, hnode, hrest, rfl⟩
    cases node with
    | number token => simp [Element.accepts] at hnode
    | capture capture => exact ⟨capture, rest, hrest, rfl⟩
  · rintro ⟨capture, rest, hrest, rfl⟩
    exact ⟨.capture capture, rest, rfl, hrest, rfl⟩

theorem takenBy_number {condition : Condition} :
    TakenBy window (.number condition :: elements) ↔
      ∃ token rest, condition.accepts token = true ∧ TakenBy rest elements ∧
        window = .number token :: rest := by
  rw [TakenBy, List.forall₂_cons_left_iff]
  constructor
  · rintro ⟨node, rest, hnode, hrest, rfl⟩
    cases node with
    | number token => exact ⟨token, rest, hnode, hrest, rfl⟩
    | capture capture => simp [Element.accepts] at hnode
  · rintro ⟨token, rest, htoken, hrest, rfl⟩
    exact ⟨.number token, rest, htoken, hrest, rfl⟩

end Window

theorem apply_eq_some_iff {rule : Rule} {window : Window} {token : Token} :
    rule.apply window = some token ↔
      window.TakenBy rule.elements ∧ rule.produce window = some token := by
  have htakes : window.TakenBy rule.elements ↔ window.length = rule.elements.length ∧
      (rule.elements.zip window).all (fun pair => pair.1.accepts pair.2) = true := by
    simp only [Window.TakenBy, List.forall₂_iff_zip, List.all_eq_true, Prod.forall,
      eq_comm (a := window.length)]
  simp only [htakes, Rule.apply]
  constructor
  · intro h
    split at h
    · rename_i haccepts
      exact ⟨haccepts, h⟩
    · simp at h
  · rintro ⟨haccepts, h⟩
    rw [if_pos haccepts, h]

/-! ## The pieces of a number -/

theorem Row.exists_fits {text : Text} {elements : List Element} {pieces : List Piece}
    {pos stop : Nat} (h : Row text elements pieces pos stop) {element : Element}
    (helement : element ∈ elements) : ∃ piece ∈ pieces, piece.Fits text element := by
  induction h with
  | nil => simp at helement
  | @cons first elements piece pieces pos stop hfits _ _ ih =>
    rcases List.mem_cons.mp helement with rfl | helement
    · exact ⟨piece, List.mem_cons_self, hfits⟩
    · obtain ⟨p, hp, hpfits⟩ := ih helement
      exact ⟨p, List.mem_cons_of_mem piece hp, hpfits⟩

section Assembles

variable {text : Text} {rule : Rule} {pieces : List Piece} {key : Key}
  (h : Assembles text rule pieces key)

include h

theorem Assembles.apply_eq : rule.apply (pieces.map Piece.node) = some key.2.2 := by
  cases h with
  | intro _ _ _ _ hvalue => exact hvalue

/-- Each element of the rule has taken a piece. -/
theorem Assembles.exists_fits {element : Element} (helement : element ∈ rule.elements) :
    ∃ piece ∈ pieces, piece.Fits text element := by
  cases h with
  | @intro first elements piece pieces _ _ hrule hfits _ hrow _ =>
    rw [hrule] at helement
    rcases List.mem_cons.mp helement with rfl | helement
    · exact ⟨piece, List.mem_cons_self, hfits⟩
    · obtain ⟨p, hp, hpfits⟩ := hrow.exists_fits helement
      exact ⟨p, List.mem_cons_of_mem piece hp, hpfits⟩

/-- A rule of three elements has three pieces. -/
theorem Assembles.three {x y z : Element} (helements : rule.elements = [x, y, z]) :
    ∃ a b c, pieces = [a, b, c] ∧ a.Fits text x ∧ b.Fits text y ∧ c.Fits text z ∧
      a.start = key.1 ∧ c.stop = key.2.1 := by
  cases h with
  | intro hrule ha _ hrow _ =>
    rw [helements] at hrule
    cases hrule
    cases hrow with
    | cons hb _ hrow =>
      cases hrow with
      | cons hc _ hrow =>
        cases hrow
        exact ⟨_, _, _, rfl, ha, hb, hc, rfl, rfl⟩

end Assembles

/-! ## Rows by their first element -/

section RowCases

variable {text : Text} {elements : List Element} {pieces : List Piece} {pos stop : Nat}

/-- A row that begins with text: what the pattern reads, and the row behind it. -/
theorem Row.text_first {pattern : Pattern}
    (h : Row text (.text pattern :: elements) pieces pos stop) :
    ∃ (here there : Cursor) (capture : Capture) (piece : Piece) (others : List Piece),
      here.text = text ∧ here.pos = skipBlankAt text pos ∧
      pattern.readBounded? here = some (capture, there) ∧ there.text = text ∧
      here.pos < there.pos ∧ pieces = piece :: others ∧ piece.node = .capture capture ∧
      Row text elements others there.pos stop := by
  cases h with
  | @cons _ _ piece others _ _ hfits hstart hrest =>
    have hlt := hfits.start_lt_stop
    obtain ⟨here, capture, there, hhere, hread, hstop, hnode, -⟩ := hfits
    obtain ⟨htext, hpos⟩ := cursorAt?_eq_some.mp hhere
    obtain ⟨_, hread', _⟩ := Pattern.readBounded?_eq_some.mp hread
    have hthere := (Cursor.reaches_of_read? hread').text_eq.trans htext
    rw [hstop] at hlt hrest
    exact ⟨here, there, capture, piece, others, htext, hpos.trans hstart, hread, hthere,
      hpos ▸ hlt, rfl, hnode, hrest⟩

/-- A row that begins with a number: the number that was found, and the row behind it. -/
theorem Row.number_first {condition : Condition} {found : List Numeral}
    (h : Row text (.number condition :: elements) pieces pos stop)
    (hknown : ∀ piece ∈ pieces, piece.Known found) :
    ∃ n ∈ found, n.start = skipBlankAt text pos ∧ condition.accepts n.token = true ∧
      ∃ (piece : Piece) (others : List Piece), pieces = piece :: others ∧
        piece.node = .number n.token ∧ (∀ more : List Numeral, n ∈ more → piece.Known more) ∧
        Row text elements others n.stop stop := by
  cases h with
  | @cons _ _ piece others _ _ hfits hstart hrest =>
    obtain ⟨n, hn, hnstart, hnstop, hnode, haccepts⟩ :=
      (hknown piece List.mem_cons_self).exists_number hfits
    rw [← hnstop] at hrest
    exact ⟨n, hn, hnstart.trans hstart, haccepts, piece, others, rfl, hnode,
      fun _ hmore => Piece.known_of_mem hmore hnstart hnstop hnode, hrest⟩

end RowCases

/-! ## Rules that begin with a number -/

section NumberFirst

variable {rule : Rule} {condition : Condition} {elements : List Element}
  (helements : rule.elements = .number condition :: elements)

include helements

/-- Such a rule takes a number that was found, and the pieces of a row behind it. -/
theorem Assembles.number_first {text : Text} {found : List Numeral} {pieces : List Piece}
    {key : Key} (h : Assembles text rule pieces key)
    (hknown : ∀ piece ∈ pieces, piece.Known found) :
    ∃ n ∈ found, n.start = key.1 ∧ condition.accepts n.token = true ∧ ∃ others,
      Row text elements others n.stop key.2.1 ∧ (∀ piece ∈ others, piece.Known found) ∧
        rule.apply (.number n.token :: others.map Piece.node) = some key.2.2 := by
  cases h with
  | @intro _ _ piece others stop token hrule hfits _ hrow happly =>
    rw [helements] at hrule
    cases hrule
    obtain ⟨hfirst, hothers⟩ := List.forall_mem_cons.mp hknown
    obtain ⟨n, hn, hstart, hstop, hnode, haccepts⟩ := hfirst.exists_number hfits
    rw [List.map_cons, hnode] at happly
    rw [← hstop] at hrow
    exact ⟨n, hn, hstart, haccepts, others, hrow, hothers, happly⟩

/-- What it makes of them is proposed. -/
theorem exists_proposal_of_row {rules : Registry} (hrule : rule ∈ rules) {text : Text}
    {found : List Numeral} (hfound : ∀ n ∈ found, n.StandsIn text) {n : Numeral} (hn : n ∈ found)
    (haccepts : condition.accepts n.token = true) {others : List Piece} {stop : Nat}
    (hrow : Row text elements others n.stop stop) (hothers : ∀ piece ∈ others, piece.Known found)
    {token : Token} (happly : rule.apply (.number n.token :: others.map Piece.node) = some token) :
    ∃ m ∈ proposals rules text found, m.key = (n.start, stop, token) := by
  have hassembles : Assembles text rule (⟨n.start, n.stop, .number n.token, 0⟩ :: others)
      (n.start, stop, token) :=
    Assembles.intro helements ⟨n.token, rfl, haccepts⟩ (by simp [Element.isNumber]) hrow happly
  exact List.mem_map.mp (mem_proposals_of_assembles hfound hrule hassembles
    (List.forall_mem_cons.mpr ⟨Piece.known_of_mem hn rfl rfl rfl, hothers⟩))

end NumberFirst

/-! ## What is found -/

/-- Each number found was assembled by the rule that it is named for, of numbers found. -/
theorem assembled_of_mem_candidates {rules : Registry} {text : Text} {passes : Nat} {n : Numeral}
    (hn : n ∈ candidates rules text passes) :
    ∃ rule ∈ rules, n.rule = rule.name ∧ ∃ pieces, Assembles text rule pieces n.key ∧
      ∀ piece ∈ pieces, piece.Known (candidates rules text passes) := by
  suffices hboth : (∀ n ∈ candidates rules text passes, n.StandsIn text) ∧
      ∀ n ∈ candidates rules text passes, ∃ rule ∈ rules, n.rule = rule.name ∧
        ∃ pieces, Assembles text rule pieces n.key ∧
          ∀ piece ∈ pieces, piece.Known (candidates rules text passes) from hboth.2 n hn
  refine @candidates_induction rules text (fun found => (∀ n ∈ found, n.StandsIn text) ∧
    ∀ n ∈ found, ∃ rule ∈ rules, n.rule = rule.name ∧ ∃ pieces, Assembles text rule pieces n.key ∧
      ∀ piece ∈ pieces, piece.Known found) (by simp) ?_ passes
  rintro taking htaking found ⟨hstands, hfound⟩
  -- What was found before the pass is found after it.
  have hgrown : ∀ piece : Piece, piece.Known found → piece.Known (grow taking text found) := by
    intro piece hknown token htoken
    exact List.map_subset _ (prefix_grow taking text found).subset (hknown token htoken)
  refine ⟨standsIn_grow hstands, fun n hn => ?_⟩
  rcases List.mem_append.mp hn with hn | hn
  · obtain ⟨rule, hrule, hname, pieces, hassembles, hknown⟩ := hfound n hn
    exact ⟨rule, hrule, hname, pieces, hassembles, fun p hp => hgrown p (hknown p hp)⟩
  · obtain ⟨rule, hrule, hname, pieces, hassembles, hknown⟩ :=
      assembles_of_mem_proposals (fun _ => 0) hstands (mem_of_mem_keepNew hn)
    exact ⟨rule, htaking hrule, hname, pieces, hassembles, fun p hp => hgrown p (hknown p hp).1⟩

/-- What the rules keep true of tokens, when it is true of the numbers in their windows, is true
of all that is found. -/
theorem forall_token_candidates {rules : Registry} {text : Text} {P : Token → Prop}
    (h : ∀ rule ∈ rules, ∀ pieces key, Assembles text rule pieces key →
      (∀ token, .number token ∈ pieces.map Piece.node → P token) → P key.2.2) (passes : Nat) :
    ∀ n ∈ candidates rules text passes, P n.token := by
  refine forall_mem_candidates (fun taking htaking found hstands hfound n hn => ?_) passes
  obtain ⟨rule, hrule, _, pieces, hassembles, hpieces⟩ :=
    assembles_of_mem_proposals (fun _ => 0) hstands hn
  refine h rule (htaking hrule) pieces n.key hassembles ?_
  intro token htoken
  obtain ⟨piece, hpiece, hnode⟩ := List.mem_map.mp htoken
  obtain ⟨m, hm, hkey⟩ := List.mem_map.mp ((hpieces piece hpiece).1 token hnode)
  obtain rfl : m.token = token := congrArg (fun key => key.2.2) hkey
  exact hfound m hm

end SpanishNumerals
