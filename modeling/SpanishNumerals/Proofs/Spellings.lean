-- The spellings of the whole numbers below a million, and what the words of a spelling are
-- worth together. "Mil" multiplies what comes before it, and every other word adds its number.
import Mathlib.Data.List.Chain
import SpanishNumerals.Proofs.WordPatterns

namespace SpanishNumerals

/-! ## Spellings -/

/-- The table has the word for the number. -/
def WordTable.Spells (table : WordTable) (n : Nat) (key : Text) : Prop :=
  ∃ word, (word, n) ∈ table.entries ∧ key = word.toList

/-- The words, in small letters, spell the number. -/
inductive Spells : Nat → List Text → Prop
  | word {n : Nat} {key : Text} : n ≤ 29 ∨ n < 100 ∧ n % 10 = 0 →
      ones.Spells n key ∨ teens.Spells n key ∨ tens.Spells n key → Spells n [key]
  | tensAnd {n : Nat} {ten unit : Text} : 29 < n → n < 100 → n % 10 ≠ 0 →
      tens.Spells (n / 10 * 10) ten → ones.Spells (n % 10) unit → Spells n [ten, andWord, unit]
  | hundreds {n : Nat} {key : Text} : 100 ≤ n → n < 1000 → n % 100 = 0 →
      hundreds.Spells (100 * (n / 100)) key → Spells n [key]
  | hundredsAnd {n : Nat} {key : Text} {keys : List Text} : 100 ≤ n → n < 1000 → n % 100 ≠ 0 →
      hundreds.Spells (100 * (n / 100)) key → Spells (n % 100) keys → Spells n (key :: keys)
  | thousand : Spells 1000 [mil]
  | thousandAnd {n : Nat} {keys : List Text} : 1000 < n → n < 2000 → Spells (n % 1000) keys →
      Spells n (mil :: keys)
  | thousands {n : Nat} {keys : List Text} : 2000 ≤ n → n < 1000000 → n % 1000 = 0 →
      Spells (n / 1000) keys → Spells n (keys ++ [mil])
  | thousandsAnd {n : Nat} {keys rest : List Text} : 2000 ≤ n → n < 1000000 → n % 1000 ≠ 0 →
      Spells (n / 1000) keys → Spells (n % 1000) rest → Spells n (keys ++ mil :: rest)

/-- The number of a word, and zero for the word between tens and units. -/
def wordValue (key : Text) : Nat :=
  match (wordTables.flatMap WordTable.entries).find? fun (word, _) => word.toList = key with
  | some (_, n) => n
  | none => 0

/-- A word more. -/
def addWord (sum : Nat) (key : Text) : Nat :=
  if key = mil then max sum 1 * 1000 else sum + wordValue key

/-- What the words are worth together. -/
def worth (keys : List Text) : Nat := keys.foldl addWord 0

/-- The scale of words that count thousands and end there. -/
def scaleOf (keys : List Text) : Option Nat :=
  if 1 < keys.length ∧ keys.getLast? = some mil then some 3 else none

/-! ## Words of the tables -/

theorem wordValue_of_entry : ∀ table ∈ wordTables, ∀ entry ∈ table.entries,
    wordValue entry.1.toList = entry.2 := by
  decide +kernel

theorem entry_ne_andWord : ∀ table ∈ wordTables, ∀ entry ∈ table.entries,
    entry.1.toList ≠ andWord := by
  decide +kernel

theorem wordValue_mil : wordValue mil = 1000 :=
  wordValue_of_entry hundreds (by simp [wordTables]) ("mil", 1000) (by decide)

theorem wordValue_andWord : wordValue andWord = 0 := by decide +kernel

namespace WordTable

variable {table : WordTable} {n : Nat} {key : Text}

theorem Spells.wordValue_eq (htable : table ∈ wordTables) (h : table.Spells n key) :
    wordValue key = n := by
  obtain ⟨word, hentry, rfl⟩ := h
  exact wordValue_of_entry table htable _ hentry

theorem Spells.ne_andWord (htable : table ∈ wordTables) (h : table.Spells n key) :
    key ≠ andWord := by
  obtain ⟨word, hentry, rfl⟩ := h
  exact entry_ne_andWord table htable _ hentry

theorem Spells.mem_vocabulary (htable : table ∈ wordTables) (h : table.Spells n key) :
    key ∈ vocabulary := by
  obtain ⟨word, hentry, rfl⟩ := h
  exact mem_vocabulary_of_entry htable hentry

end WordTable

theorem ones_mem : ones ∈ wordTables := by simp [wordTables]

theorem teens_mem : teens ∈ wordTables := by simp [wordTables]

theorem tens_mem : tens ∈ wordTables := by simp [wordTables]

theorem hundreds_mem : hundreds ∈ wordTables := by simp [wordTables]

theorem spells_mil : hundreds.Spells 1000 mil := ⟨"mil", by decide, rfl⟩

/-! ## What words are worth -/

section Worth

variable (keys more : List Text) (key : Text) (sum : Nat)

theorem worth_append : worth (keys ++ more) = more.foldl addWord (worth keys) := List.foldl_append

theorem worth_concat : worth (keys ++ [key]) = addWord (worth keys) key := worth_append keys [key]

theorem worth_singleton : worth [key] = wordValue key := by
  show addWord 0 key = wordValue key
  unfold addWord
  split
  · rename_i h
    rw [h, wordValue_mil]
    rfl
  · exact Nat.zero_add _

theorem le_addWord : sum ≤ addWord sum key := by
  unfold addWord
  split
  · have := Nat.le_max_left sum 1
    omega
  · exact Nat.le_add_right _ _

theorem wordValue_le_addWord : wordValue key ≤ addWord sum key := by
  unfold addWord
  split
  · rename_i h
    have := Nat.le_max_right sum 1
    rw [h, wordValue_mil]
    omega
  · exact Nat.le_add_left _ _

theorem le_foldl_addWord : sum ≤ keys.foldl addWord sum := by
  induction keys generalizing sum with
  | nil => exact Nat.le_refl sum
  | cons key keys ih => exact Nat.le_trans (le_addWord key sum) (ih (addWord sum key))

/-- With "mil" among them, words are worth a thousand at least. -/
theorem thousand_le_of_mem {keys : List Text} (h : mil ∈ keys) (sum : Nat) :
    1000 ≤ keys.foldl addWord sum := by
  induction keys generalizing sum with
  | nil => simp at h
  | cons key keys ih =>
    rcases List.mem_cons.mp h with rfl | h
    · have hmil := wordValue_le_addWord mil sum
      rw [wordValue_mil] at hmil
      exact Nat.le_trans hmil (le_foldl_addWord keys _)
    · exact ih h _

theorem mil_not_mem {keys : List Text} (h : worth keys < 1000) : mil ∉ keys := by
  intro hmem
  have := thousand_le_of_mem hmem 0
  unfold worth at h
  omega

/-- Without "mil", words add what they are worth. -/
theorem foldl_addWord_of_not_mem {keys : List Text} (h : mil ∉ keys) (sum : Nat) :
    keys.foldl addWord sum = sum + worth keys := by
  induction keys generalizing sum with
  | nil => rfl
  | cons key keys ih =>
    have hkey : key ≠ mil := fun heq => h (heq ▸ List.mem_cons_self)
    have hkeys : mil ∉ keys := fun hmem => h (List.mem_cons_of_mem key hmem)
    have hstep : ∀ s, addWord s key = s + wordValue key := by
      intro s
      rw [addWord, if_neg hkey]
    unfold worth
    rw [List.foldl_cons, List.foldl_cons, ih hkeys, ih hkeys (addWord 0 key), hstep, hstep]
    omega

theorem worth_append_of_lt {keys more : List Text} (h : worth more < 1000) :
    worth (keys ++ more) = worth keys + worth more := by
  rw [worth_append, foldl_addWord_of_not_mem (mil_not_mem h)]

theorem worth_mil {keys : List Text} : worth (keys ++ [mil]) = max (worth keys) 1 * 1000 := by
  rw [worth_concat, addWord, if_pos rfl]

theorem worth_cons_of_lt {key : Text} {more : List Text} (h : worth more < 1000) :
    worth (key :: more) = wordValue key + worth more := by
  rw [← worth_singleton key]
  exact @worth_append_of_lt [key] more h

end Worth

/-! ## Scales -/

theorem scaleOf_singleton (key : Text) : scaleOf [key] = none := if_neg (by simp)

/-- Words that end with words without "mil" have no scale. -/
theorem scaleOf_append {keys more : List Text} (hne : more ≠ []) (h : worth more < 1000) :
    scaleOf (keys ++ more) = none := by
  apply if_neg
  rintro ⟨_, hlast⟩
  rw [List.getLast?_append, List.getLast?_eq_getLast_of_ne_nil hne, Option.some_or] at hlast
  exact mil_not_mem h (Option.some.inj hlast ▸ List.getLast_mem hne)

theorem scaleOf_mil {keys : List Text} (hne : keys ≠ []) : scaleOf (keys ++ [mil]) = some 3 := by
  apply if_pos
  have := List.length_pos_of_ne_nil hne
  simp
  omega

/-! ## What holds of spellings -/

/-- After a word for less than a hundred there comes "mil", or "y". -/
def Follows (a b : Text) : Prop :=
  a = andWord ∨ 100 ≤ wordValue a ∨ b = andWord ∨ b = mil

namespace Spells

variable {n : Nat} {keys : List Text}

theorem ne_nil (h : Spells n keys) : keys ≠ [] := by
  cases h <;> simp

theorem lt_million (h : Spells n keys) : n < 1000000 := by
  cases h <;> omega

theorem mem_vocabulary (h : Spells n keys) : ∀ key ∈ keys, key ∈ vocabulary := by
  have hand : andWord ∈ vocabulary := List.mem_cons_self
  have hmil := spells_mil.mem_vocabulary hundreds_mem
  induction h with
  | word _ hkey =>
    rw [List.forall_mem_singleton]
    rcases hkey with hkey | hkey | hkey
    · exact hkey.mem_vocabulary ones_mem
    · exact hkey.mem_vocabulary teens_mem
    · exact hkey.mem_vocabulary tens_mem
  | tensAnd _ _ _ hten hunit =>
    simp only [List.forall_mem_cons, List.not_mem_nil, false_implies, implies_true, and_true]
    exact ⟨hten.mem_vocabulary tens_mem, hand, hunit.mem_vocabulary ones_mem⟩
  | hundreds _ _ _ hkey =>
    rw [List.forall_mem_singleton]
    exact hkey.mem_vocabulary hundreds_mem
  | hundredsAnd _ _ _ hkey _ ih =>
    exact List.forall_mem_cons.mpr ⟨hkey.mem_vocabulary hundreds_mem, ih⟩
  | thousand =>
    rw [List.forall_mem_singleton]
    exact hmil
  | thousandAnd _ _ _ ih => exact List.forall_mem_cons.mpr ⟨hmil, ih⟩
  | thousands _ _ _ _ ih =>
    refine List.forall_mem_append.mpr ⟨ih, ?_⟩
    rw [List.forall_mem_singleton]
    exact hmil
  | thousandsAnd _ _ _ _ _ ih ih' =>
    exact List.forall_mem_append.mpr ⟨ih, List.forall_mem_cons.mpr ⟨hmil, ih'⟩⟩

/-- The words of a spelling are worth the number together. -/
theorem worth_eq (h : Spells n keys) : worth keys = n := by
  induction h with
  | word _ hkey =>
    rw [worth_singleton]
    rcases hkey with hkey | hkey | hkey
    · exact hkey.wordValue_eq ones_mem
    · exact hkey.wordValue_eq teens_mem
    · exact hkey.wordValue_eq tens_mem
  | @tensAnd n ten unit _ _ _ hten hunit =>
    have hvalue := hunit.wordValue_eq ones_mem
    have hrest : worth [andWord, unit] = n % 10 := by
      rw [worth_cons_of_lt (by rw [worth_singleton, hvalue]; omega), worth_singleton, hvalue,
        wordValue_andWord, Nat.zero_add]
    rw [worth_cons_of_lt (by rw [hrest]; omega), hrest, hten.wordValue_eq tens_mem]
    omega
  | hundreds _ _ _ hkey =>
    rw [worth_singleton, hkey.wordValue_eq hundreds_mem]
    omega
  | @hundredsAnd n key keys _ _ _ hkey _ ih =>
    rw [worth_cons_of_lt (by omega), ih, hkey.wordValue_eq hundreds_mem]
    omega
  | thousand => rw [worth_singleton, wordValue_mil]
  | thousandAnd _ _ _ ih =>
    rw [worth_cons_of_lt (by omega), ih, wordValue_mil]
    omega
  | thousands _ _ _ _ ih =>
    rw [worth_mil, ih]
    omega
  | @thousandsAnd n keys rest _ _ _ _ _ ih ih' =>
    rw [List.append_cons, worth_append_of_lt (by omega), worth_mil, ih, ih']
    omega

theorem scaleOf_eq (h : Spells n keys) :
    scaleOf keys = if 2000 ≤ n ∧ n % 1000 = 0 then some 3 else none := by
  cases h with
  | word hn _ => rw [scaleOf_singleton, if_neg (by omega)]
  | @tensAnd _ ten unit _ hlt _ _ hunit =>
    have hvalue : worth [unit] = n % 10 := by
      rw [worth_singleton, hunit.wordValue_eq ones_mem]
    rw [show [ten, andWord, unit] = [ten, andWord] ++ [unit] from rfl,
      scaleOf_append (by simp) (by omega), if_neg (by omega)]
  | hundreds _ _ _ _ => rw [scaleOf_singleton, if_neg (by omega)]
  | @hundredsAnd _ key keys _ _ _ _ hrest =>
    rw [show key :: keys = [key] ++ keys from rfl,
      scaleOf_append hrest.ne_nil (by rw [hrest.worth_eq]; omega), if_neg (by omega)]
  | thousand => rfl
  | @thousandAnd _ keys _ _ hrest =>
    rw [show mil :: keys = [mil] ++ keys from rfl,
      scaleOf_append hrest.ne_nil (by rw [hrest.worth_eq]; omega), if_neg (by omega)]
  | thousands h1 _ h2 hkeys => rw [scaleOf_mil hkeys.ne_nil, if_pos ⟨h1, h2⟩]
  | @thousandsAnd _ keys rest _ _ h2 _ hrest =>
    rw [List.append_cons, scaleOf_append hrest.ne_nil (by rw [hrest.worth_eq]; omega),
      if_neg fun h => h2 h.2]

theorem chain (h : Spells n keys) : keys.IsChain Follows := by
  have hmil : ∀ b, Follows mil b := fun b => Or.inr (Or.inl (by rw [wordValue_mil]; decide))
  have hcons : ∀ {key : Text} {keys : List Text}, (∀ b, Follows key b) → keys.IsChain Follows →
      (key :: keys).IsChain Follows := by
    intro key keys hkey hkeys
    exact List.isChain_cons.mpr ⟨fun b _ => hkey b, hkeys⟩
  induction h with
  | word _ _ => exact List.isChain_singleton _
  | tensAnd _ _ _ _ _ =>
    refine List.isChain_cons_cons.mpr ⟨Or.inr (Or.inr (Or.inl rfl)), ?_⟩
    exact hcons (fun b => Or.inl rfl) (List.isChain_singleton _)
  | hundreds _ _ _ _ => exact List.isChain_singleton _
  | hundredsAnd _ _ _ hkey _ ih =>
    refine hcons (fun b => Or.inr (Or.inl ?_)) ih
    rw [hkey.wordValue_eq hundreds_mem]
    omega
  | thousand => exact List.isChain_singleton _
  | thousandAnd _ _ _ ih => exact hcons hmil ih
  | thousands _ _ _ _ ih =>
    refine List.isChain_append.mpr ⟨ih, List.isChain_singleton _, ?_⟩
    intro a _ b hb
    exact Or.inr (Or.inr (Or.inr (Option.some.inj hb).symm))
  | thousandsAnd _ _ _ _ _ ih ih' =>
    refine List.isChain_append.mpr ⟨ih, hcons hmil ih', ?_⟩
    intro a _ b hb
    exact Or.inr (Or.inr (Or.inr (Option.some.inj hb).symm))

end Spells

/-! ## Every number below a million has a spelling -/

theorem WordTable.spells_of_any {table : WordTable} {n : Nat}
    (h : table.entries.any (fun (_, m) => m = n) = true) : ∃ key, table.Spells n key := by
  obtain ⟨⟨word, m⟩, hentry, hm⟩ := List.any_eq_true.mp h
  obtain rfl : m = n := of_decide_eq_true hm
  exact ⟨word.toList, word, hentry, rfl⟩

theorem any_small : ∀ n < 30, ones.entries.any (fun (_, m) => m = n) = true ∨
    teens.entries.any (fun (_, m) => m = n) = true ∨
      tens.entries.any (fun (_, m) => m = n) = true := by
  decide

theorem any_ten : ∀ n < 10, 2 ≤ n → tens.entries.any (fun (_, m) => m = n * 10) = true := by
  decide

theorem any_unit : ∀ n < 10, ones.entries.any (fun (_, m) => m = n) = true := by decide

theorem any_hundred : ∀ n < 10, 1 ≤ n →
    hundreds.entries.any (fun (_, m) => m = 100 * n) = true := by
  decide

namespace Spells

variable {n : Nat}

theorem exists_below_hundred (h : n < 100) : ∃ keys, Spells n keys := by
  by_cases hsmall : n < 30
  · rcases any_small n hsmall with hword | hword | hword
    · obtain ⟨key, hkey⟩ := WordTable.spells_of_any hword
      exact ⟨[key], word (by omega) (Or.inl hkey)⟩
    · obtain ⟨key, hkey⟩ := WordTable.spells_of_any hword
      exact ⟨[key], word (by omega) (Or.inr (Or.inl hkey))⟩
    · obtain ⟨key, hkey⟩ := WordTable.spells_of_any hword
      exact ⟨[key], word (by omega) (Or.inr (Or.inr hkey))⟩
  · obtain ⟨ten, hten⟩ := WordTable.spells_of_any (any_ten (n / 10) (by omega) (by omega))
    by_cases hunits : n % 10 = 0
    · rw [show n / 10 * 10 = n by omega] at hten
      exact ⟨[ten], word (Or.inr ⟨h, hunits⟩) (Or.inr (Or.inr hten))⟩
    · obtain ⟨unit, hunit⟩ := WordTable.spells_of_any (any_unit (n % 10) (by omega))
      exact ⟨[ten, andWord, unit], tensAnd (by omega) h hunits hten hunit⟩

theorem exists_below_thousand (h : n < 1000) : ∃ keys, Spells n keys := by
  by_cases hsmall : n < 100
  · exact exists_below_hundred hsmall
  · obtain ⟨key, hkey⟩ := WordTable.spells_of_any (any_hundred (n / 100) (by omega) (by omega))
    by_cases hrest : n % 100 = 0
    · exact ⟨[key], hundreds (by omega) h hrest hkey⟩
    · obtain ⟨keys, hkeys⟩ := exists_below_hundred (Nat.mod_lt n (by decide : 0 < 100))
      exact ⟨key :: keys, hundredsAnd (by omega) h hrest hkey hkeys⟩

theorem exists_iff : (∃ keys, Spells n keys) ↔ n < 1000000 := by
  constructor
  · rintro ⟨keys, hkeys⟩
    exact hkeys.lt_million
  · intro h
    by_cases hsmall : n < 1000
    · exact exists_below_thousand hsmall
    · obtain ⟨rest, hrest⟩ := exists_below_thousand (Nat.mod_lt n (by decide : 0 < 1000))
      by_cases hone : n < 2000
      · by_cases hthousand : n = 1000
        · exact ⟨[mil], hthousand ▸ thousand⟩
        · exact ⟨mil :: rest, thousandAnd (by omega) hone hrest⟩
      · obtain ⟨keys, hkeys⟩ := @exists_below_thousand (n / 1000) (by omega)
        by_cases hround : n % 1000 = 0
        · exact ⟨keys ++ [mil], thousands (by omega) h hround hkeys⟩
        · exact ⟨keys ++ mil :: rest, thousandsAnd (by omega) h hround hkeys hrest⟩

end Spells

end SpanishNumerals
