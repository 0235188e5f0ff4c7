import Mathlib.Data.List.Basic
import TreeBuild.Proofs.Path.Spelling
import TreeBuild.Request.Basic

/-!
# Which targets a request may name

The names of targets are given by a grammar: editions of the language, and engines with a version. The digits
of the grammar are a parameter, because a request takes those of every script for digits. It also overlooks one
line end behind a name, and a name with a line end is compared with no edition. Where neither shows, exactly
the names with the digits 0 to 9 are accepted.
-/
namespace TreeBuild

namespace Target

/-! ### The grammar -/

/-- A group of digits is not empty. -/
def IsGroup (digit : Char → Bool) (text : List Char) : Prop := text ≠ [] ∧ ∀ c ∈ text, digit c

/-- A version: groups of digits with points between them. -/
def IsVersion (digit : Char → Bool) (text : List Char) : Prop :=
  ∃ groups, groups ≠ [] ∧ (∀ group ∈ groups, IsGroup digit group) ∧ text = List.intercalate ['.'] groups

/-- The names of targets, with these digits. -/
inductive Names (digit : Char → Bool) : List Char → Prop where
  | edition {word : String} (known : word = "esnext" ∨ word = "es5" ∨ word = "es6") :
      Names digit word.toList
  | year {first second : Char} (tens : digit first) (ones : digit second) :
      Names digit ("es20".toList ++ [first, second])
  | dotted {engine : String} {version : List Char}
      (known : engine = "node" ∨ engine = "safari" ∨ engine = "deno") (isVersion : IsVersion digit version) :
      Names digit (engine.toList ++ version)
  | plain {engine : String} {version : List Char}
      (known : engine = "chrome" ∨ engine = "firefox" ∨ engine = "edge") (isGroup : IsGroup digit version) :
      Names digit (engine.toList ++ version)

/-- A version number is a group of digits. -/
theorem isNumber_iff (text : List Char) : isNumber text ↔ IsGroup Text.isDigit text := by
  simp [isNumber, IsGroup]

/-- There is no point in a group. -/
theorem noPoint_of_isGroup {group : List Char} (isGroup : IsGroup Text.isDigit group) : '.' ∉ group := by
  intro member
  exact absurd (isGroup.2 '.' member) (by decide)

/-- The pieces between points are the groups that are joined by them. -/
theorem isDotted_iff (text : List Char) : isDotted text ↔ IsVersion Text.isDigit text := by
  rw [isDotted, Text.splitAt_eq_splitOn, List.all_eq_true]
  constructor
  · intro numbers
    refine ⟨text.splitOn '.', List.splitOn_ne_nil '.' text, fun group member => ?_, ?_⟩
    · exact (isNumber_iff group).mp (numbers group member)
    · exact (List.intercalate_splitOn '.').symm
  · rintro ⟨groups, nonempty, each, rfl⟩
    rw [List.splitOn_intercalate '.' (fun group member => noPoint_of_isGroup (each group member)) nonempty]
    exact fun group member => (isNumber_iff group).mpr (each group member)

/-- What follows a word passes a test if the text is the word and something that passes it. -/
theorem after?_any (word : String) (test : List Char → Bool) (text : List Char) :
    (after? word text).any test ↔ ∃ rest, text = word.toList ++ rest ∧ test rest := by
  unfold after?
  split
  · rename_i front
    obtain ⟨rest, rfl⟩ := List.isPrefixOf_iff_prefix.mp front
    rw [← String.length_toList, List.drop_left]
    simp
  · rename_i other
    simp only [Option.any_none, Bool.false_eq_true, false_iff, not_exists, not_and]
    rintro rest rfl
    simp at other

/-- What is recognized as a name is one of the grammar. -/
theorem isName_iff (text : List Char) : isName text ↔ Names Text.isDigit text := by
  simp only [isName, Bool.or_eq_true, or_assoc, List.any_eq_true, editions, dottedEngines, plainEngines,
    after?_any, decide_eq_true_eq, Bool.and_eq_true]
  constructor
  · rintro (⟨word, known, rfl⟩ | ⟨rest, rfl, length, digits⟩ | ⟨engine, known, version, rfl, isDotted⟩ |
      ⟨engine, known, version, rfl, isNumber⟩)
    · exact .edition (by simpa using known)
    · obtain ⟨first, second, rfl⟩ := List.length_eq_two.mp length
      obtain ⟨tens, ones⟩ : Text.isDigit first ∧ Text.isDigit second := by simpa using digits
      exact .year tens ones
    · exact .dotted (by simpa using known) ((isDotted_iff version).mp isDotted)
    · exact .plain (by simpa using known) ((isNumber_iff version).mp isNumber)
  · intro names
    cases names with
    | edition known => exact .inl ⟨_, by simpa using known, rfl⟩
    | year tens ones => exact .inr (.inl ⟨_, rfl, rfl, by simp [tens, ones]⟩)
    | dotted known isVersion =>
      exact .inr (.inr (.inl ⟨_, by simpa using known, _, rfl, (isDotted_iff _).mpr isVersion⟩))
    | plain known isGroup =>
      exact .inr (.inr (.inr ⟨_, by simpa using known, _, rfl, (isNumber_iff _).mpr isGroup⟩))

/-- What is accepted is a name, or a name with a line end behind it. -/
theorem accepts_iff (target : String) : accepts target ↔
    ∃ name, Names Text.isDigit name ∧ (target.toList = name ∨ target.toList = name ++ ['\n']) := by
  simp only [accepts, Bool.or_eq_true, Bool.and_eq_true, decide_eq_true_eq, isName_iff]
  constructor
  · rintro (names | ⟨ends, names⟩)
    · exact ⟨_, names, .inl rfl⟩
    · exact ⟨_, names, .inr (List.dropLast_append_getLast? '\n' ends).symm⟩
  · rintro ⟨name, names, rfl | same⟩
    · exact .inl names
    · right
      rw [same]
      simpa using names

/-! ### Digits of other scripts and line ends -/

/-- No digits but 0 to 9 stand in a text, and no line end behind it. -/
structure IsPlain (text : List Char) : Prop where
  digits : ∀ c ∈ text, Text.isDigit c → c.isDigit
  noLineEnd : text.getLast? ≠ some '\n'

/-- The digits of ASCII are digits. -/
theorem isDigit_of_ascii {c : Char} (digit : c.isDigit) : Text.isDigit c := by
  obtain ⟨least, most⟩ := Char.isDigit_iff_toNat.mp digit
  change 48 ≤ c.toNat at least
  change c.toNat ≤ 57 at most
  rw [Text.isDigit, Text.digitValue?, Option.isSome_map, List.find?_isSome]
  exact ⟨48, by decide, by simp; omega⟩

/-- A group of digits of one kind is a group of digits of a wider kind. -/
theorem IsGroup.mono {digit other : Char → Bool} {text : List Char} (isGroup : IsGroup digit text)
    (same : ∀ c ∈ text, digit c → other c) : IsGroup other text :=
  ⟨isGroup.1, fun c member => same c member (isGroup.2 c member)⟩

/-- What stands in a group stands in the version. -/
theorem mem_intercalate {groups : List (List Char)} {group : List Char} (member : group ∈ groups) {c : Char}
    (inside : c ∈ group) : c ∈ List.intercalate ['.'] groups := by
  induction groups with
  | nil => cases member
  | cons first others inductionHypothesis =>
    cases others with
    | nil => simpa [List.mem_singleton.mp member] using inside
    | cons second others =>
      rw [List.intercalate_cons_cons, List.append_assoc]
      rcases List.mem_cons.mp member with rfl | later
      · exact List.mem_append_left _ inside
      · exact List.mem_append_right _ (List.mem_append_right _ (inductionHypothesis later))

/-- A version in digits of one kind is a version in digits of a wider kind. -/
theorem IsVersion.mono {digit other : Char → Bool} {text : List Char} (isVersion : IsVersion digit text)
    (same : ∀ c ∈ text, digit c → other c) : IsVersion other text := by
  obtain ⟨groups, nonempty, each, rfl⟩ := isVersion
  exact ⟨groups, nonempty, fun group member =>
    (each group member).mono fun c inside => same c (mem_intercalate member inside), rfl⟩

/-- A name is one with other digits, too, if those in it are among them. -/
theorem Names.mono {digit other : Char → Bool} {text : List Char} (names : Names digit text)
    (same : ∀ c ∈ text, digit c → other c) : Names other text := by
  cases names with
  | edition known => exact .edition known
  | year tens ones => exact .year (same _ (by simp) tens) (same _ (by simp) ones)
  | dotted known isVersion =>
    exact .dotted known (isVersion.mono fun c inside => same c (List.mem_append_right _ inside))
  | plain known isGroup =>
    exact .plain known (isGroup.mono fun c inside => same c (List.mem_append_right _ inside))

/-- A version consists of digits and points. -/
theorem IsVersion.forall_mem {digit : Char → Bool} {text : List Char} (isVersion : IsVersion digit text) :
    ∀ c ∈ text, digit c ∨ c = '.' := by
  obtain ⟨groups, -, each, rfl⟩ := isVersion
  induction groups with
  | nil => simp
  | cons first others inductionHypothesis =>
    obtain ⟨front, back⟩ := List.forall_mem_cons.mp each
    cases others with
    | nil => exact fun c member => .inl (front.2 c (by simpa using member))
    | cons second others =>
      rw [List.intercalate_cons_cons, List.append_assoc]
      refine List.forall_mem_append.mpr ⟨fun c member => .inl (front.2 c member), ?_⟩
      exact List.forall_mem_append.mpr ⟨by simp, inductionHypothesis back⟩

/-- A name with the digits 0 to 9 is made of lower-case letters, of these digits and of points. -/
theorem Names.isPlain {text : List Char} (names : Names Char.isDigit text) : IsPlain text := by
  have letters : ∀ word ∈ ["esnext", "es5", "es6", "es20", "node", "safari", "deno", "chrome", "firefox", "edge"],
      ∀ c ∈ word.toList, (Text.isDigit c → c.isDigit) ∧ c ≠ '\n' := by decide +kernel
  have digit {c : Char} (isDigit : c.isDigit) : (Text.isDigit c → c.isDigit) ∧ c ≠ '\n' := by
    refine ⟨fun _ => isDigit, ?_⟩
    rintro rfl
    cases isDigit
  have each : ∀ c ∈ text, (Text.isDigit c → c.isDigit) ∧ c ≠ '\n' := by
    cases names with
    | edition known => exact letters _ (by rcases known with rfl | rfl | rfl <;> simp)
    | year tens ones =>
      refine List.forall_mem_append.mpr ⟨letters _ (by simp), ?_⟩
      simp only [List.forall_mem_cons, List.not_mem_nil, false_implies, implies_true, and_true]
      exact ⟨digit tens, digit ones⟩
    | dotted known isVersion =>
      refine List.forall_mem_append.mpr ⟨letters _ (by rcases known with rfl | rfl | rfl <;> simp), ?_⟩
      intro c member
      rcases isVersion.forall_mem c member with isDigit | rfl
      · exact digit isDigit
      · decide
    | plain known isGroup =>
      refine List.forall_mem_append.mpr ⟨letters _ (by rcases known with rfl | rfl | rfl <;> simp), ?_⟩
      exact fun c member => digit (isGroup.2 c member)
  exact ⟨fun c member => (each c member).1, fun last => (each '\n' (List.mem_of_getLast? last)).2 rfl⟩

/-- Where there are no other digits and no line end, exactly the names with the digits 0 to 9 are accepted. -/
theorem accepts_iff_of_isPlain {target : String} (isPlain : IsPlain target.toList) :
    accepts target ↔ Names Char.isDigit target.toList := by
  rw [accepts_iff]
  constructor
  · rintro ⟨name, names, rfl | same⟩
    · exact names.mono isPlain.digits
    · exact absurd (by simp [same]) isPlain.noLineEnd
  · intro names
    exact ⟨_, names.mono fun c _ => isDigit_of_ascii, .inl rfl⟩

end Target

namespace Request

/-- Apart from its target a request can be carried out: a text that is compiled has a place, and only
such a text may be left unwritten. -/
structure IsCoherent (request : Request) : Prop where
  placed : request.isLiteral → request.hasPlace
  written : request.noWrite → request.isLiteral

/-- A coherent request can be carried out if its target can be compiled to. -/
theorem fault?_of_isCoherent {request : Request} (coherent : request.IsCoherent) :
    request.fault? = targetFault? request.format request.target := by
  have placed : ¬ (request.isLiteral && !request.hasPlace) := by
    intro unplaced
    obtain ⟨literal, noPlace⟩ := (Bool.and_eq_true _ _).mp unplaced
    rw [coherent.placed literal] at noPlace
    cases noPlace
  have written : ¬ (request.noWrite && !request.isLiteral) := by
    intro unwritten
    obtain ⟨noWrite, file⟩ := (Bool.and_eq_true _ _).mp unwritten
    rw [coherent.written noWrite] at file
    cases file
  rw [fault?, if_neg placed, if_neg written]

/-- A target can be compiled to if it is accepted and is not the edition that the format excludes. -/
theorem targetFault?_eq_none_iff (format : OutputFormat) (target : String) :
    targetFault? format (.proper target) = none ↔
      Target.accepts target ∧ ¬ (format = .esm ∧ target = "es5") := by
  simp only [targetFault?, Bool.not_eq_true', Bool.and_eq_true, decide_eq_true_eq]
  split
  · rename_i refused
    simp [refused]
  · rename_i accepted
    split
    · rename_i excluded
      simp [excluded]
    · rename_i possible
      simpa [possible] using accepted

/-- A request that is accepted has no fault, and is carried out as it is settled. -/
theorem accepted_of_normalized {request settled : Request}
    (accepted : request.normalized = .ok settled) : request.fault? = none ∧ settled = request.settled := by
  unfold normalized at accepted
  split at accepted
  · cases accepted
  · rename_i sound
    exact ⟨sound, (Except.ok.inj accepted).symm⟩

/-- A request with this format and this target, and with other options as they are given, is made. -/
def IsMade (development : Bool) (format : OutputFormat) (options : Request) (target : String) : Prop :=
  ∃ request, create development (.proper format.name) { options with target := .proper target } = .ok request

/-- A request that is otherwise coherent is made if its target can be compiled to. -/
theorem isMade_iff {options : Request} (coherent : options.IsCoherent) (development : Bool)
    (format : OutputFormat) (target : String) :
    IsMade development format options target ↔ Target.accepts target ∧ ¬ (format = .esm ∧ target = "es5") := by
  have named : formatOf (.proper format.name) = .ok format := by cases format <;> rfl
  have other : IsCoherent { options with
      target := .proper target, format, mode := if development then .development else .production } :=
    ⟨coherent.placed, coherent.written⟩
  rw [IsMade, ← targetFault?_eq_none_iff, ← fault?_of_isCoherent other, create, named]
  change (∃ request, normalized _ = _) ↔ _
  unfold normalized
  split
  · rename_i fault found
    simp [found]
  · rename_i found
    simp [found]

/-- A request whose other options can be carried out is made exactly if its target is a name, or a name with a
line end behind it, and is not the edition that its format excludes; the digits of the name may be those of
any script. Where a target has no digits but 0 to 9 and no line end behind it, as is the case for every name
with these digits, it is taken exactly if it is such a name. -/
theorem create_takes_names (options : Request) (coherent : options.IsCoherent) (development : Bool)
    (target : String) :
    (∀ format, IsMade development format options target ↔
      (∃ name, Target.Names Text.isDigit name ∧ (target.toList = name ∨ target.toList = name ++ ['\n'])) ∧
        ¬ (format = .esm ∧ target = "es5")) ∧
    (Target.IsPlain target.toList →
      (IsMade development .cjs options target ↔ Target.Names Char.isDigit target.toList) ∧
      (IsMade development .esm options target ↔
        Target.Names Char.isDigit target.toList ∧ target ≠ "es5")) ∧
    (Target.Names Char.isDigit target.toList → Target.IsPlain target.toList) := by
  refine ⟨fun format => ?_, fun isPlain => ?_, Target.Names.isPlain⟩
  · rw [isMade_iff coherent, Target.accepts_iff]
  · simp [isMade_iff coherent, Target.accepts_iff_of_isPlain isPlain]

/-- An engine with a version is taken for both formats, and the edition without modules for one only. -/
theorem create_takes_names_of_version :
    Target.IsPlain "node18.2".toList ∧ IsMade true .cjs {} "node18.2" ∧ IsMade true .esm {} "node18.2" ∧
      IsMade true .cjs {} "es5" ∧ ¬ IsMade true .esm {} "es5" := by
  have coherent : IsCoherent {} := ⟨nofun, nofun⟩
  have engine : Target.Names Char.isDigit "node18.2".toList :=
    @Target.Names.dotted _ _ "18.2".toList (.inl rfl) ⟨[['1', '8'], ['2']], by decide, by simp [Target.IsGroup], rfl⟩
  have edition : Target.Names Char.isDigit "es5".toList := .edition (.inr (.inl rfl))
  obtain ⟨-, engines, plain⟩ := create_takes_names {} coherent true "node18.2"
  obtain ⟨-, editions, plainEdition⟩ := create_takes_names {} coherent true "es5"
  refine ⟨plain engine, (engines (plain engine)).1.mpr engine, (engines (plain engine)).2.mpr ⟨engine, by decide⟩,
    (editions (plainEdition edition)).1.mpr edition, fun made => ?_⟩
  exact ((editions (plainEdition edition)).2.mp made).2 rfl

/-- A line end behind a name is overlooked, and the name is then compared with no edition; digits of other
scripts are taken for those of a version. -/
theorem create_overlooks_line_end :
    IsMade false .esm {} "es5\n" ∧ ¬ Target.Names Char.isDigit "es5\n".toList ∧
      IsMade false .cjs {} "node\u0661" ∧ ¬ Target.Names Char.isDigit "node\u0661".toList := by
  have coherent : IsCoherent {} := ⟨nofun, nofun⟩
  refine ⟨?_, fun names => ?_, ?_, fun names => ?_⟩
  · rw [isMade_iff coherent]
    decide +kernel
  · exact names.isPlain.noLineEnd (by decide)
  · rw [isMade_iff coherent]
    decide +kernel
  · exact absurd (names.isPlain.digits '\u0661' (by decide) (by decide)) (by decide)

end Request

end TreeBuild
