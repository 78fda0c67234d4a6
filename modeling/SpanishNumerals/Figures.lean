-- Numbers written with figures. In Spanish a point groups thousands and a comma begins the
-- decimals; a point may begin decimals too when no group of thousands can be read. Each form
-- reads as far as it can at the front of a text.
import SpanishNumerals.Binary64.Rounding
import SpanishNumerals.Pattern

namespace SpanishNumerals

/-! ## Rows of figures and groups -/

/-- The row of figures at the front of a text, and what follows it. -/
def splitFigures (text : Text) : Text × Text :=
  (text.takeWhile Char.isDigit, text.dropWhile Char.isDigit)

/-- Groups of a point and three figures at the front of a text, at most so many of them, and
what follows them. -/
def splitGroups : (limit : Nat) → Text → Text × Text
  | limit + 1, '.' :: a :: b :: c :: text =>
    if a.isDigit && b.isDigit && c.isDigit then
      let (groups, rest) := splitGroups limit text
      ('.' :: a :: b :: c :: groups, rest)
    else ([], '.' :: a :: b :: c :: text)
  | _, text => ([], text)

/-! ## The forms -/

/-- A whole number of at most eighteen figures. -/
def integerForm (text : Text) : Option Text :=
  match (text.take maxIntegerFigures).takeWhile Char.isDigit with
  | [] => none
  | figures => some figures

/-- Thousands in groups, a comma and decimals. -/
def groupedDecimalForm (text : Text) : Option Text :=
  let (whole, rest) := splitFigures text
  let (groups, rest) := splitGroups rest.length rest
  match rest with
  | ',' :: rest =>
    let fraction := (splitFigures rest).1
    if whole ≠ [] ∧ groups ≠ [] ∧ fraction ≠ [] then some (whole ++ groups ++ ',' :: fraction)
    else none
  | _ => none

/-- One to three figures, then one to five groups of thousands. -/
def groupedIntegerForm (text : Text) : Option Text :=
  let whole := (text.take 3).takeWhile Char.isDigit
  let groups := (splitGroups 5 (text.drop whole.length)).1
  if whole ≠ [] ∧ groups ≠ [] then some (whole ++ groups) else none

/-- Figures or none, a comma and decimals. -/
def decimalForm (text : Text) : Option Text :=
  let (whole, rest) := splitFigures text
  match rest with
  | ',' :: rest =>
    let fraction := (splitFigures rest).1
    if fraction ≠ [] then some (whole ++ ',' :: fraction) else none
  | _ => none

/-- Figures or none, a point and decimals: the figures on both sides. -/
def pointDecimalForm (text : Text) : Option (Text × Text) :=
  let (whole, rest) := splitFigures text
  match rest with
  | '.' :: rest =>
    let fraction := (splitFigures rest).1
    if fraction ≠ [] then some (whole, fraction) else none
  | _ => none

/-! ## A form reads the front of a text -/

theorem splitFigures_append (text : Text) : (splitFigures text).1 ++ (splitFigures text).2 = text :=
  List.takeWhile_append_dropWhile

theorem splitGroups_append (limit : Nat) (text : Text) :
    (splitGroups limit text).1 ++ (splitGroups limit text).2 = text := by
  fun_induction splitGroups limit text with
  | case1 limit a b c text h groups rest hsplit ih => simpa [hsplit] using ih
  | case2 => rfl
  | case3 => rfl

theorem integerForm_append {text figures : Text} (h : integerForm text = some figures) :
    ∃ rest, text = figures ++ rest := by
  unfold integerForm at h
  split at h
  · simp at h
  · simp only [Option.some.injEq] at h
    subst h
    refine ⟨(text.take maxIntegerFigures).dropWhile Char.isDigit ++
      text.drop maxIntegerFigures, ?_⟩
    rw [← List.append_assoc, List.takeWhile_append_dropWhile, List.take_append_drop]

theorem groupedDecimalForm_append {text figures : Text}
    (h : groupedDecimalForm text = some figures) : ∃ rest, text = figures ++ rest := by
  unfold groupedDecimalForm at h
  have hwhole := splitFigures_append text
  have hgroups := splitGroups_append (splitFigures text).2.length (splitFigures text).2
  dsimp only at h
  split at h
  · rename_i rest hrest
    have hfraction := splitFigures_append rest
    split at h
    · simp only [Option.some.injEq] at h
      subst h
      refine ⟨(splitFigures rest).2, ?_⟩
      simp only [List.append_assoc, List.cons_append, hfraction]
      rw [← hrest, hgroups, hwhole]
    · simp at h
  · simp at h

theorem groupedIntegerForm_append {text figures : Text}
    (h : groupedIntegerForm text = some figures) : ∃ rest, text = figures ++ rest := by
  unfold groupedIntegerForm at h
  dsimp only at h
  split at h
  · simp only [Option.some.injEq] at h
    subst h
    refine ⟨(splitGroups 5 (text.drop ((text.take 3).takeWhile Char.isDigit).length)).2, ?_⟩
    have hwhole : (text.take 3).takeWhile Char.isDigit <+: text :=
      (List.takeWhile_prefix _).trans (List.take_prefix _ _)
    rw [List.append_assoc, splitGroups_append]
    exact (List.prefix_iff_eq_append.mp hwhole).symm
  · simp at h

theorem decimalForm_append {text figures : Text} (h : decimalForm text = some figures) :
    ∃ rest, text = figures ++ rest := by
  unfold decimalForm at h
  have hwhole := splitFigures_append text
  dsimp only at h
  split at h
  · rename_i rest hrest
    have hfraction := splitFigures_append rest
    split at h
    · simp only [Option.some.injEq] at h
      subst h
      refine ⟨(splitFigures rest).2, ?_⟩
      simp only [List.append_assoc, List.cons_append, hfraction]
      rw [← hrest, hwhole]
    · simp at h
  · simp at h

/-! ## Patterns -/

namespace Pattern

/-- The pattern of a form without groups. -/
def ofForm (source : String) (form : Text → Option Text) : Pattern where
  source := source
  extent text := (form text).map fun figures => ⟨figures.length, []⟩
  follow := none

/-- A whole number: "42". -/
def integer : Pattern := ofForm "[0-9]\x7b1,18\x7d" integerForm

/-- Thousands with points and decimals with a comma: "1.234.567,89". -/
def groupedDecimal : Pattern :=
  ofForm "[0-9]+(?:\\.[0-9]\x7b3\x7d)+,[0-9]+" groupedDecimalForm

/-- Thousands with points: "1.234". -/
def groupedInteger : Pattern :=
  ofForm "[0-9]\x7b1,3\x7d(?:\\.[0-9]\x7b3\x7d)\x7b1,5\x7d" groupedIntegerForm

/-- Decimals with a comma: "3,5" and ",5". -/
def decimal : Pattern := ofForm "[0-9]*,[0-9]+" decimalForm

/-- Decimals with a point: "2.5" and ".75". The groups are the two sides of the point. -/
def pointDecimal : Pattern where
  source := "([0-9]*)\\.([0-9]+)"
  extent text := (pointDecimalForm text).map fun (whole, fraction) =>
    ⟨whole.length + 1 + fraction.length, [some whole, some fraction]⟩
  follow := none

end Pattern

/-! ## What may follow -/

/-- No figure follows. -/
def noFigureFollows : Text → Bool
  | c :: _ => !c.isDigit
  | [] => true

/-- Neither a figure follows nor a separator with a figure behind it. -/
def noNumberFollows : Text → Bool
  | c :: d :: _ => !c.isDigit && !((c = '.' || c = ',') && d.isDigit)
  | [c] => !c.isDigit
  | [] => true

/-! ## Values -/

/-- Points dropped, commas made points, and a zero put before a leading point. -/
def normalizeSeparators (text : Text) : Text :=
  let plain := (text.filter (· ≠ '.')).map fun c => if c = ',' then '.' else c
  match plain with
  | '.' :: _ => '0' :: plain
  | _ => plain

/-- The value of a whole number of at most eighteen bytes. -/
def readWhole (figures : Text) : Except NumeralError Value :=
  if maxIntegerFigures < byteLength figures then .error (.digitOverflow (byteLength figures))
  else
    match readInteger? figures with
    | none => .error (.format figures)
    | some n =>
      match Value.ofInt? n with
      | some value => .ok value
      | none => .error .nonFinite

/-- The value of a number with or without a point. -/
def readDecimal (text : Text) : Except NumeralError Value :=
  match Binary64.read? text with
  | none => .error (.format text)
  | some (.finite value) => .ok value
  | some _ => .error .nonFinite

/-! ## Productions -/

namespace Figures

/-- The token of a whole number. -/
def integer (window : Window) : Option Token := do
  let capture ← window.firstCapture?
  Token.plain? (readWhole capture.text).toOption

/-- The token of a number in the Spanish notation. -/
def decimal (window : Window) : Option Token := do
  let capture ← window.firstCapture?
  Token.plain? (readDecimal (normalizeSeparators capture.text)).toOption

/-- The token of a whole number with points between its groups. -/
def groupedInteger (window : Window) : Option Token := do
  let capture ← window.firstCapture?
  Token.plain? (readDecimal (capture.text.filter (· ≠ '.'))).toOption

/-- The token of a number with a decimal point. One to three figures, a point and three
figures are a group of thousands, and no decimal number. -/
def pointDecimal (window : Window) : Option Token := do
  let capture ← window.firstCapture?
  let whole := (capture.group 1).getD []
  let fraction ← capture.group 2
  if byteLength fraction = 3 ∧ 1 ≤ byteLength whole ∧ byteLength whole ≤ 3 then none
  else
    let whole := if whole = [] then ['0'] else whole
    Token.plain? (readDecimal (whole ++ '.' :: fraction)).toOption

end Figures

end SpanishNumerals
