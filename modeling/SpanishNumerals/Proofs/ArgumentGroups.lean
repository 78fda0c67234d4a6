-- The arguments of the command line as groups: an option with its value, a flag, or an argument
-- by itself. The first group that decides gives the outcome. When none does, each field has its
-- last value, so that groups of different kinds may stand in any order.
import Mathlib.Data.List.Basic
import Mathlib.Data.List.Induction
import SpanishNumerals.Options

namespace SpanishNumerals

/-! ## Groups -/

/-- A group of arguments. -/
inductive ArgumentGroup
  /-- The option for the language, and its value. -/
  | language (value : String)
  /-- The option for the file to read, and its value. -/
  | input (value : String)
  | candidates
  | verbose
  | help
  /-- An option that needs a value and stands last, under its long name. -/
  | valueless (option : String)
  /-- Any other argument. -/
  | other (argument : String)
deriving DecidableEq

/-- The kinds of groups. -/
inductive GroupKind
  | language
  | input
  | candidates
  | verbose
  | help
  | valueless
  | other
deriving DecidableEq

def languageOptions : List String := ["-l", "--lang"]

def inputOptions : List String := ["-i", "--input"]

def candidatesFlags : List String := ["-c", "--candidates"]

def verboseFlags : List String := ["-v", "--verbose"]

def helpFlags : List String := ["-h", "--help"]

/-- The cut of the arguments into groups, from left to right. An option takes the next argument
for its value, whatever it is. -/
inductive Cut : List String → List ArgumentGroup → Prop
  | nil : Cut [] []
  | language {option value : String} {rest : List String} {groups : List ArgumentGroup} :
      option ∈ languageOptions → Cut rest groups →
      Cut (option :: value :: rest) (.language value :: groups)
  | languageAlone {option : String} :
      option ∈ languageOptions → Cut [option] [.valueless "--lang"]
  | input {option value : String} {rest : List String} {groups : List ArgumentGroup} :
      option ∈ inputOptions → Cut rest groups →
      Cut (option :: value :: rest) (.input value :: groups)
  | inputAlone {option : String} : option ∈ inputOptions → Cut [option] [.valueless "--input"]
  | candidates {flag : String} {rest : List String} {groups : List ArgumentGroup} :
      flag ∈ candidatesFlags → Cut rest groups → Cut (flag :: rest) (.candidates :: groups)
  | verbose {flag : String} {rest : List String} {groups : List ArgumentGroup} :
      flag ∈ verboseFlags → Cut rest groups → Cut (flag :: rest) (.verbose :: groups)
  | help {flag : String} {rest : List String} {groups : List ArgumentGroup} :
      flag ∈ helpFlags → Cut rest groups → Cut (flag :: rest) (.help :: groups)
  | other {argument : String} {rest : List String} {groups : List ArgumentGroup} :
      argument ∉ languageOptions ++ inputOptions ++ candidatesFlags ++ verboseFlags ++ helpFlags →
      Cut rest groups → Cut (argument :: rest) (.other argument :: groups)

/-- The groups of the arguments. -/
def groupsOf : List String → List ArgumentGroup
  | [] => []
  | argument :: rest =>
    if argument ∈ languageOptions then
      match rest with
      | [] => [.valueless "--lang"]
      | value :: rest => .language value :: groupsOf rest
    else if argument ∈ inputOptions then
      match rest with
      | [] => [.valueless "--input"]
      | value :: rest => .input value :: groupsOf rest
    else if argument ∈ candidatesFlags then .candidates :: groupsOf rest
    else if argument ∈ verboseFlags then .verbose :: groupsOf rest
    else if argument ∈ helpFlags then .help :: groupsOf rest
    else .other argument :: groupsOf rest

/-- The argument begins with a hyphen and goes on as no number does. -/
def ReadsAsOption (argument : String) : Prop :=
  ∃ c rest, argument.toList = '-' :: c :: rest ∧ ¬('0' ≤ c ∧ c ≤ '9') ∧ c ≠ ',' ∧ c ≠ '.'

namespace ArgumentGroup

def kind : ArgumentGroup → GroupKind
  | language _ => .language
  | input _ => .input
  | candidates => .candidates
  | verbose => .verbose
  | help => .help
  | valueless _ => .valueless
  | other _ => .other

/-- The group alone gives the outcome, whatever stands behind it. -/
def Decisive : ArgumentGroup → Prop
  | help => True
  | valueless _ => True
  | other argument => ReadsAsOption argument
  | _ => False

/-- The value that a group holds. -/
def value? : ArgumentGroup → Option String
  | language value => some value
  | input value => some value
  | other argument => some argument
  | _ => none

/-- The options after one more group. -/
def addTo (options : Options) : ArgumentGroup → Options
  | language value => { options with language := value }
  | input value => { options with inputFile := some value }
  | candidates => { options with showCandidates := true }
  | verbose => { options with verbose := true }
  | other argument => { options with text := some argument }
  | _ => options

end ArgumentGroup

open ArgumentGroup

/-- The last value in the groups of a kind. -/
def lastValue? (kind : GroupKind) (groups : List ArgumentGroup) : Option String :=
  ((groups.filter fun group => group.kind = kind).filterMap value?).getLast?

/-- The fields that the groups give: the last value of each kind, and the flags that occur. -/
def fieldsOf (groups : List ArgumentGroup) : Options where
  language := (lastValue? .language groups).getD "es"
  inputFile := lastValue? .input groups
  text := lastValue? .other groups
  showCandidates := .candidates ∈ groups
  verbose := .verbose ∈ groups
  showHelp := false

/-! ## The cut -/

theorem cut_groupsOf (arguments : List String) : Cut arguments (groupsOf arguments) := by
  fun_induction groupsOf arguments with
  | case1 => exact .nil
  | case2 option hoption => exact .languageAlone hoption
  | case3 option hoption value rest ih => exact .language hoption ih
  | case4 option _ hoption => exact .inputAlone hoption
  | case5 option _ hoption value rest ih => exact .input hoption ih
  | case6 flag rest _ _ hflag ih => exact .candidates hflag ih
  | case7 flag rest _ _ _ hflag ih => exact .verbose hflag ih
  | case8 flag rest _ _ _ _ hflag ih => exact .help hflag ih
  | case9 argument rest hlanguage hinput hcandidates hverbose hhelp ih =>
    exact .other (by simp [hlanguage, hinput, hcandidates, hverbose, hhelp]) ih

/-- There is one cut. -/
theorem Cut.eq_groupsOf {arguments : List String} {groups : List ArgumentGroup}
    (h : Cut arguments groups) : groups = groupsOf arguments := by
  induction h with
  | nil => rfl
  | language hoption _ ih => simp [groupsOf, hoption, ih]
  | languageAlone hoption => simp [groupsOf, hoption]
  | input hoption _ ih =>
    obtain rfl | rfl := List.mem_pair.mp hoption <;> simp [groupsOf, languageOptions, inputOptions, ih]
  | inputAlone hoption =>
    obtain rfl | rfl := List.mem_pair.mp hoption <;> simp [groupsOf, languageOptions, inputOptions]
  | candidates hflag _ ih =>
    unfold groupsOf
    obtain rfl | rfl := List.mem_pair.mp hflag <;>
      simp [languageOptions, inputOptions, candidatesFlags, ih]
  | verbose hflag _ ih =>
    unfold groupsOf
    obtain rfl | rfl := List.mem_pair.mp hflag <;>
      simp [languageOptions, inputOptions, candidatesFlags, verboseFlags, ih]
  | help hflag _ ih =>
    unfold groupsOf
    obtain rfl | rfl := List.mem_pair.mp hflag <;>
      simp [languageOptions, inputOptions, candidatesFlags, verboseFlags, helpFlags, ih]
  | other hargument _ ih =>
    simp only [List.mem_append, not_or, and_assoc] at hargument
    unfold groupsOf
    simp [hargument, ih]

/-! ## Reading group by group -/

/-- The arguments read group by group. -/
def readGroups (options : Options) : List ArgumentGroup → Except OptionError Options
  | [] => options.withLanguageCode
  | group :: groups =>
    match group with
    | .help => .ok { options with showHelp := true }
    | .valueless name => .error (.missingValue name)
    | .other argument =>
      if Options.looksLikeOption argument then .error (.unknownOption argument)
      else readGroups ((ArgumentGroup.other argument).addTo options) groups
    | group => readGroups (group.addTo options) groups

theorem Cut.readArguments_eq {arguments : List String} {groups : List ArgumentGroup}
    (h : Cut arguments groups) (options : Options) :
    options.readArguments arguments = readGroups options groups := by
  induction h generalizing options with
  | nil => rfl
  | language hoption _ ih =>
    obtain rfl | rfl := List.mem_pair.mp hoption <;>
      simp [Options.readArguments, readGroups, addTo, ih]
  | languageAlone hoption =>
    obtain rfl | rfl := List.mem_pair.mp hoption <;> simp [Options.readArguments, readGroups]
  | input hoption _ ih =>
    obtain rfl | rfl := List.mem_pair.mp hoption <;>
      simp [Options.readArguments, readGroups, addTo, ih]
  | inputAlone hoption =>
    obtain rfl | rfl := List.mem_pair.mp hoption <;> simp [Options.readArguments, readGroups]
  | candidates hflag _ ih =>
    unfold Options.readArguments
    obtain rfl | rfl := List.mem_pair.mp hflag <;> simp [readGroups, addTo, ih]
  | verbose hflag _ ih =>
    unfold Options.readArguments
    obtain rfl | rfl := List.mem_pair.mp hflag <;> simp [readGroups, addTo, ih]
  | help hflag _ ih =>
    unfold Options.readArguments
    obtain rfl | rfl := List.mem_pair.mp hflag <;> simp [readGroups]
  | other hargument _ ih =>
    unfold Options.readArguments
    simp only [languageOptions, inputOptions, candidatesFlags, verboseFlags, helpFlags,
      List.cons_append, List.nil_append, List.mem_cons, List.not_mem_nil, or_false,
      not_or] at hargument
    simp [hargument, readGroups, addTo, ih]

theorem isDigit_iff {c : Char} : c.isDigit = true ↔ '0' ≤ c ∧ c ≤ '9' := by
  simp only [Char.isDigit, Bool.and_eq_true, decide_eq_true_eq, ge_iff_le]
  rfl

theorem looksLikeOption_iff {argument : String} :
    Options.looksLikeOption argument = true ↔ ReadsAsOption argument := by
  unfold Options.looksLikeOption ReadsAsOption
  split
  · rename_i c rest heq
    simp only [heq, List.cons.injEq, true_and, Bool.not_eq_true', Bool.or_eq_false_iff,
      decide_eq_false_iff_not, ← isDigit_iff, Bool.not_eq_true, and_assoc]
    constructor
    · exact fun h => ⟨c, rest, rfl, rfl, h⟩
    · rintro ⟨_, _, rfl, rfl, h⟩
      exact h
  · rename_i hshape
    simp only [Bool.false_eq_true, false_iff]
    rintro ⟨c, rest, heq, _⟩
    exact hshape c rest heq

instance (argument : String) : Decidable (ReadsAsOption argument) :=
  decidable_of_iff _ looksLikeOption_iff

instance : DecidablePred ArgumentGroup.Decisive
  | .help => inferInstanceAs (Decidable True)
  | .valueless _ => inferInstanceAs (Decidable True)
  | .other argument => inferInstanceAs (Decidable (ReadsAsOption argument))
  | .language _ | .input _ | .candidates | .verbose => inferInstanceAs (Decidable False)

theorem readGroups_append {before : List ArgumentGroup} (hbefore : ∀ g ∈ before, ¬g.Decisive)
    (options : Options) (groups : List ArgumentGroup) :
    readGroups options (before ++ groups) = readGroups (before.foldl addTo options) groups := by
  induction before generalizing options with
  | nil => rfl
  | cons group before ih =>
    obtain ⟨hgroup, hrest⟩ := List.forall_mem_cons.mp hbefore
    rw [List.foldl_cons, ← ih hrest]
    cases group with
    | help => exact absurd trivial hgroup
    | valueless name => exact absurd trivial hgroup
    | other argument =>
      have hplain : Options.looksLikeOption argument = false :=
        Bool.eq_false_iff.mpr fun h => hgroup (looksLikeOption_iff.mp h)
      simp [readGroups, hplain]
    | _ => rfl

theorem fieldsOf_concat (groups : List ArgumentGroup) (group : ArgumentGroup) :
    fieldsOf (groups ++ [group]) = group.addTo (fieldsOf groups) := by
  cases group <;> simp [fieldsOf, lastValue?, addTo, kind, value?]

theorem foldl_addTo (groups : List ArgumentGroup) :
    groups.foldl addTo Options.initial = fieldsOf groups := by
  induction groups using List.reverseRecOn with
  | nil => rfl
  | append_singleton groups group ih =>
    rw [List.foldl_append, ih, fieldsOf_concat]
    rfl

/-! ## The language -/

def languageNames : List String := ["es", "spanish", "espanol", "español"]

/-- The name of a language without the blanks at its ends and in small letters. -/
def plainName (name : String) : String := String.ofList (lowercase (trimBlank name.toList))

theorem languageCode_eq (name : String) :
    languageCode name =
      if plainName name ∈ languageNames then .ok "es" else .error (plainName name) := by
  simp only [languageCode, plainName, languageNames, List.mem_cons, List.not_mem_nil, or_false]

theorem withLanguageCode_eq (options : Options) :
    options.withLanguageCode =
      if plainName options.language ∈ languageNames then .ok { options with language := "es" }
      else .error (.unsupportedLanguage (plainName options.language)) := by
  rw [Options.withLanguageCode, languageCode_eq]
  by_cases h : plainName options.language ∈ languageNames
  · simp only [if_pos h]
  · simp only [if_neg h]

/-- Options that are read to the end without a call for help have a language that is known. -/
theorem find?_of_readGroups {options result : Options} {groups : List ArgumentGroup}
    (h : readGroups options groups = .ok result) (hhelp : result.showHelp = false) :
    Language.find? result.language = some spanish := by
  fun_induction readGroups options groups with
  | case1 options =>
    rw [withLanguageCode_eq] at h
    split at h
    · cases h
      rfl
    · simp at h
  | case2 =>
    cases h
    simp at hhelp
  | case3 => simp at h
  | case4 => simp at h
  | case5 _ _ _ _ ih => exact ih h
  | case6 _ _ _ _ _ _ ih => exact ih h

/-! ## Groups in another order -/

section Order

variable {groups others : List ArgumentGroup}
  (h : ∀ kind, others.filter (fun g => g.kind = kind) = groups.filter (fun g => g.kind = kind))

include h

theorem mem_iff_of_kinds (group : ArgumentGroup) : group ∈ others ↔ group ∈ groups := by
  have hmem : ∀ l : List ArgumentGroup,
      group ∈ l ↔ group ∈ l.filter fun g => g.kind = group.kind := by simp
  rw [hmem others, hmem groups, h]

theorem fieldsOf_eq_of_kinds : fieldsOf others = fieldsOf groups := by
  simp only [fieldsOf, lastValue?, h, mem_iff_of_kinds h]

end Order

/-! ## Every list of arguments -/

/-- What is read when the groups before a place decide nothing. -/
theorem Cut.ofArguments_eq {arguments : List String} {before groups : List ArgumentGroup}
    (h : Cut arguments (before ++ groups)) (hbefore : ∀ group ∈ before, ¬group.Decisive) :
    Options.ofArguments arguments = readGroups (fieldsOf before) groups := by
  rw [Options.ofArguments, h.readArguments_eq, readGroups_append hbefore, foldl_addTo]

theorem Cut.ofArguments_of_not_decisive {arguments : List String} {groups : List ArgumentGroup}
    (h : Cut arguments groups) (hgroups : ∀ group ∈ groups, ¬group.Decisive) :
    Options.ofArguments arguments =
      if plainName (fieldsOf groups).language ∈ languageNames then
        .ok { fieldsOf groups with language := "es" }
      else .error (.unsupportedLanguage (plainName (fieldsOf groups).language)) := by
  rw [← List.append_nil groups] at h
  rw [h.ofArguments_eq hgroups, readGroups, withLanguageCode_eq]

/-- The arguments are read from left to right. They have one cut into groups, and the first group
that decides gives the outcome: the help with the fields of the groups before it, an option
without its value, or an option that is unknown. When no group decides, each field has its last
value and the language is looked up, so that only the order within one kind of groups matters.
The language of options that are read to the end is known. -/
theorem the_first_decisive_group_or_the_last_values_count (arguments : List String) :
    ∃ groups, Cut arguments groups ∧ (∀ others, Cut arguments others → others = groups) ∧
      (∀ before after, (∀ group ∈ before, ¬group.Decisive) →
        (groups = before ++ .help :: after →
          Options.ofArguments arguments = .ok { fieldsOf before with showHelp := true }) ∧
        (∀ option, groups = before ++ .valueless option :: after →
          Options.ofArguments arguments = .error (.missingValue option)) ∧
        (∀ argument, ReadsAsOption argument → groups = before ++ .other argument :: after →
          Options.ofArguments arguments = .error (.unknownOption argument))) ∧
      ((∀ group ∈ groups, ¬group.Decisive) →
        (plainName (fieldsOf groups).language ∈ languageNames →
          Options.ofArguments arguments = .ok { fieldsOf groups with language := "es" }) ∧
        (plainName (fieldsOf groups).language ∉ languageNames →
          Options.ofArguments arguments =
            .error (.unsupportedLanguage (plainName (fieldsOf groups).language))) ∧
        ∀ arguments' groups', Cut arguments' groups' →
          (∀ kind, groups'.filter (fun group => group.kind = kind) =
            groups.filter fun group => group.kind = kind) →
          Options.ofArguments arguments' = Options.ofArguments arguments) ∧
      ∀ options, Options.ofArguments arguments = .ok options → options.showHelp = false →
        Language.find? options.language = some spanish := by
  have hcut := cut_groupsOf arguments
  refine ⟨groupsOf arguments, hcut, fun others h => h.eq_groupsOf, ?decisive, ?last, ?known⟩
  case decisive =>
    intro before after hbefore
    refine ⟨fun hgroups => ?_, fun option hgroups => ?_, fun argument hargument hgroups => ?_⟩ <;>
      rw [hgroups] at hcut <;> rw [hcut.ofArguments_eq hbefore, readGroups]
    rw [if_pos (looksLikeOption_iff.mpr hargument)]
  case last =>
    intro hgroups
    have houtcome := hcut.ofArguments_of_not_decisive hgroups
    refine ⟨fun hname => ?_, fun hname => ?_, fun arguments' groups' hcut' hkinds => ?_⟩
    · rw [houtcome, if_pos hname]
    · rw [houtcome, if_neg hname]
    · have hgroups' : ∀ group ∈ groups', ¬group.Decisive := fun group hgroup =>
        hgroups group ((mem_iff_of_kinds hkinds group).mp hgroup)
      rw [hcut'.ofArguments_of_not_decisive hgroups', houtcome, fieldsOf_eq_of_kinds hkinds]
  case known =>
    intro options hoptions hhelp
    rw [Options.ofArguments, hcut.readArguments_eq] at hoptions
    exact find?_of_readGroups hoptions hhelp

/-- The last of two languages counts, and "-5" is a text. A call for help comes before the look at
the language, and an option that is unknown before the call for help behind it. -/
theorem the_last_language_counts :
    Options.ofArguments ["-l", "ca", "-c", "dos", "--lang", " Español", "-5"] =
        .ok ⟨"es", none, some "-5", true, false, false⟩ ∧
      Options.ofArguments ["-l", "ca", "-h", "--nada"] =
        .ok ⟨"ca", none, none, false, false, true⟩ ∧
      Options.ofArguments ["-i", "-v", "--nada", "-h"] = .error (.unknownOption "--nada") := by
  refine ⟨?_, ?_, ?_⟩
  · obtain ⟨groups, hcut, _, _, hlast, _⟩ := the_first_decisive_group_or_the_last_values_count
      ["-l", "ca", "-c", "dos", "--lang", " Español", "-5"]
    obtain rfl := hcut.eq_groupsOf
    rw [(hlast (by decide)).1 (by decide)]
    rfl
  · obtain ⟨groups, hcut, _, hdecisive, _⟩ :=
      the_first_decisive_group_or_the_last_values_count ["-l", "ca", "-h", "--nada"]
    obtain rfl := hcut.eq_groupsOf
    rw [(hdecisive [.language "ca"] [.other "--nada"] (by decide)).1 rfl]
    rfl
  · obtain ⟨groups, hcut, _, hdecisive, _⟩ :=
      the_first_decisive_group_or_the_last_values_count ["-i", "-v", "--nada", "-h"]
    obtain rfl := hcut.eq_groupsOf
    exact (hdecisive [.input "-v"] [.help] (by decide)).2.2 "--nada" (by decide) rfl

end SpanishNumerals
