import Mathlib.Data.List.Infix
import TreeBuild.Logging.Line
import TreeBuild.Proofs.Project.Discovery

/-!
# What writes a record

Loggers are asked for one after the other, each with a handler of its own for structured records or without
one. What the calls leave under a name does not depend on their order, and a record is written by the nearest
logger upwards that has a handler of its own: a logger that was given one keeps its records to itself, and above
the logger of the package there is no handler. So one handler writes each record, with one exception. The logger
of the package has a handler before anyone asks for one. If that is one for lines of text, asking for structured
records gives it a second handler, and both write.
-/
namespace TreeBuild.Logging.Registry

variable {environment : Environment} {level : Int} {calls : List (String × Bool)} {registry : Registry}

/-- Asks for loggers one after the other, each with structured records or without. -/
def obtainAll (environment : Environment) (calls : List (String × Bool)) : Except Fault Registry :=
  calls.foldlM (fun registry call => registry.obtain environment call.1 call.2) start

/-- The first name is the second one, or what stands in front of one of its dots. -/
def IsAtOrAbove (above name : String) : Prop :=
  above = name ∨ ∃ rest, name.toList = above.toList ++ '.' :: rest

/-- No two dots stand side by side in a name. -/
def IsDotted (name : String) : Prop := ¬ ['.', '.'] <:+: name.toList

/-- On the way up from a name, the logger of `holder` is the first with a handler of its own. -/
def Serves (registry : Registry) (holder name : String) : Prop :=
  ∃ below above, registry.lineage name = below ++ holder :: above ∧
    (∀ other ∈ below, (registry.logger other).handlers = []) ∧ (registry.logger holder).handlers ≠ []

/-- How the handler of a logger writes: structured records if they were asked for, and otherwise what the
environment wants. -/
def styleOf (environment : Environment) (calls : List (String × Bool)) (holder : String) : Style :=
  if (holder, true) ∈ calls then .json else styleFrom environment

/-- The logger of the package writes lines of text, and was asked for with structured records, too. -/
def IsDoubled (environment : Environment) (calls : List (String × Bool)) : Prop :=
  (packageName, true) ∈ calls ∧ styleFrom environment = .text

/-! ### Names -/

/-- The letters of a name that is above another one, read backwards. -/
theorem reverse_of_above {above name : String} {rest : List Char}
    (told : name.toList = above.toList ++ '.' :: rest) :
    name.toList.reverse = rest.reverse ++ '.' :: above.toList.reverse := by
  simp [told]

/-- What belongs to the package is its own name and what is below it. -/
theorem inPackage_iff (name : String) : inPackage name ↔ IsAtOrAbove packageName name := by
  have joined : (packageName ++ ".").toList = packageName.toList ++ ['.'] := by simp
  rw [inPackage, Bool.or_eq_true, decide_eq_true_eq, List.isPrefixOf_iff_prefix, joined, IsAtOrAbove,
    eq_comm]
  refine or_congr_right ⟨?_, ?_⟩
  · rintro ⟨rest, same⟩
    exact ⟨rest, by simpa using same.symm⟩
  · rintro ⟨rest, same⟩
    exact ⟨rest, by simpa using same.symm⟩

/-- The root of all loggers is not in the package. -/
theorem ne_root_of_inPackage {name : String} (package : inPackage name) : name ≠ rootName := by
  rintro rfl
  revert package
  decide +kernel

/-- A name in the package is the proper name of its logger. -/
theorem properName_of_inPackage {name : String} (package : inPackage name) : properName name = name := by
  unfold properName
  split
  · rename_i empty
    subst empty
    revert package
    decide +kernel
  · rfl

section

variable {known : String → Bool}

/-- Every name on the way up is known, stands in front of a dot, and is followed by the names above it. -/
theorem namesAbove_split {letters : List Char} {before after : List String} {name : String}
    (told : namesAbove known letters = before ++ name :: after) :
    known name ∧ after = namesAbove known name.toList.reverse ∧
      ∃ rest, letters = rest ++ '.' :: name.toList.reverse := by
  fun_induction namesAbove known letters generalizing before with
  | case1 c next rest noDot inductionHypothesis =>
    obtain ⟨known, above, front, same⟩ := inductionHypothesis told
    exact ⟨known, above, c :: front, by rw [same]; rfl⟩
  | case2 c next rest dot isKnown inductionHypothesis =>
    obtain rfl := not_not.mp dot
    cases before with
    | nil =>
      obtain ⟨rfl, rfl⟩ := List.cons.inj told
      exact ⟨isKnown, by simp [nameOf], [], by simp [nameOf]⟩
    | cons first before =>
      obtain ⟨known, above, front, same⟩ := inductionHypothesis (List.cons.inj told).2
      exact ⟨known, above, '.' :: front, by rw [same]; rfl⟩
  | case3 c next rest dot unknown inductionHypothesis =>
    obtain ⟨known, above, front, same⟩ := inductionHypothesis told
    exact ⟨known, above, c :: next :: front, by rw [same]; rfl⟩
  | case4 => simp at told

/-- A name on the way up is above the one that the way starts from. -/
theorem isAtOrAbove_of_mem {above name : String} (member : above ∈ namesAbove known name.toList.reverse) :
    IsAtOrAbove above name := by
  obtain ⟨before, after, told⟩ := List.append_of_mem member
  obtain ⟨-, -, rest, same⟩ := namesAbove_split told
  have forward := congrArg List.reverse same
  exact .inr ⟨rest.reverse, by simpa using forward⟩

/-- Where no two dots stand side by side, every known name in front of a dot is on the way up. -/
theorem mem_namesAbove {letters rest : List Char} {name : String} (isKnown : known name) (nonempty : name ≠ "")
    (dotted : ¬ ['.', '.'] <:+: letters) (told : letters = rest ++ '.' :: name.toList.reverse) :
    name ∈ namesAbove known letters := by
  have named {letters : List Char} (same : letters = name.toList.reverse) : nameOf letters = name := by
    simp [nameOf, same]
  fun_induction namesAbove known letters generalizing rest with
  | case1 c next others noDot inductionHypothesis =>
    cases rest with
    | nil => exact absurd (List.cons.inj told).1 noDot
    | cons first rest =>
      have later := (List.cons.inj told).2
      exact inductionHypothesis (fun found => dotted (found.trans ⟨[c], [], by simp⟩)) later
  | case2 c next others dot foundKnown inductionHypothesis =>
    cases rest with
    | nil => exact named (List.cons.inj told).2 ▸ List.mem_cons_self
    | cons first rest =>
      have later := (List.cons.inj told).2
      exact List.mem_cons_of_mem _
        (inductionHypothesis (fun found => dotted (found.trans ⟨[c], [], by simp⟩)) later)
  | case3 c next others dot unknown inductionHypothesis =>
    obtain rfl := not_not.mp dot
    match rest, told with
    | [], told => exact absurd (named (List.cons.inj told).2 ▸ isKnown) unknown
    | [_], told =>
      obtain ⟨rfl, -⟩ := List.cons.inj (List.cons.inj told).2
      exact absurd ⟨[], others, rfl⟩ dotted
    | _ :: _ :: rest, told =>
      have later := (List.cons.inj (List.cons.inj told).2).2
      exact inductionHypothesis (fun found => dotted (found.trans ⟨['.', next], [], by simp⟩)) later
  | case4 letters short =>
    obtain ⟨last, front, letters⟩ : ∃ last front, name.toList.reverse = last :: front :=
      List.exists_cons_of_ne_nil (by simpa using nonempty)
    rw [told, letters] at short
    match rest with
    | [] => exact (short _ _ _ rfl).elim
    | [_] => exact (short _ _ _ rfl).elim
    | _ :: _ :: _ => exact (short _ _ _ rfl).elim

end

/-! ### What calls leave -/

/-- The logger that calls leave under a name. -/
def called (environment : Environment) (level : Int) (calls : List (String × Bool)) (name : String) : Logger :=
  if name = rootName then { level := number .warning }
  else if name = packageName then
    if (packageName, true) ∈ calls ∧ styleFrom environment = .text then
      { level, handlers := [.text, .json], propagates := false }
    else { level, handlers := [styleFrom environment] }
  else if (name, true) ∈ calls then { handlers := [.json], propagates := false }
  else {}

/-- A logger that is called for has the handler for structured records or passes its records on. -/
theorem called_cases (environment : Environment) (level : Int) (calls : List (String × Bool)) (name : String) :
    let logger := called environment level calls name
    logger.handlers = [] ∧ logger.propagates ∧ name ≠ packageName ∨
    name = packageName ∧ ¬ IsDoubled environment calls ∧ logger.handlers = [styleFrom environment] ∨
    name = packageName ∧ IsDoubled environment calls ∧ logger.handlers = [.text, .json] ∧ ¬ logger.propagates ∨
    name ≠ packageName ∧ (name, true) ∈ calls ∧ logger.handlers = [.json] ∧ ¬ logger.propagates := by
  unfold called
  dsimp only
  split
  · rename_i isRoot
    exact .inl ⟨rfl, rfl, by subst isRoot; decide⟩
  split
  · rename_i isPackage
    split
    · rename_i doubled
      exact .inr (.inr (.inl ⟨isPackage, doubled, rfl, nofun⟩))
    · rename_i single
      exact .inr (.inl ⟨isPackage, single, rfl⟩)
  · rename_i isOther
    split
    · rename_i asked
      exact .inr (.inr (.inr ⟨isOther, asked, rfl, nofun⟩))
    · exact .inl ⟨rfl, rfl, isOther⟩

/-- The loggers are those that calls leave, and the logger of the package has its handler. -/
structure Reflects (environment : Environment) (level : Int) (calls : List (String × Bool))
    (registry : Registry) : Prop where
  logger : ∀ name, registry.logger name = called environment level calls name
  known : ∀ name, registry.isKnown name ↔ name = packageName ∨ name ∈ calls.map Prod.fst
  configured : registry.configured

/-- A name is looked up at its own place first. -/
theorem lookup_cons_eq (name place : String) (logger : Logger) (entries : List (String × Logger)) :
    ((place, logger) :: entries).lookup name = if name = place then some logger else entries.lookup name := by
  rw [List.lookup_cons]
  split
  · rename_i same
    rw [if_pos (beq_iff_eq.mp same)]
  · rename_i different
    rw [if_neg (beq_eq_false_iff_ne.mp different)]

/-- Without the entries of one name, every other name is looked up as before. -/
theorem lookup_filter (name other : String) (entries : List (String × Logger)) :
    (entries.filter fun entry => entry.1 ≠ name).lookup other =
      if other = name then none else entries.lookup other := by
  induction entries with
  | nil => simp
  | cons entry entries inductionHypothesis =>
    obtain ⟨place, logger⟩ := entry
    rw [List.filter_cons, lookup_cons_eq]
    by_cases removed : place = name
    · subst removed
      rw [if_neg (by simp), inductionHypothesis]
      split <;> rfl
    · rw [if_pos (by simpa using removed), lookup_cons_eq, inductionHypothesis]
      by_cases found : other = place
      · simp [found, removed]
      · simp [found]

/-- Putting in a logger changes what is found for its name, and for no other. -/
theorem lookup_put (registry : Registry) (name other : String) (logger : Logger) :
    (registry.put name logger).loggers.lookup other =
      if other = name then some logger else registry.loggers.lookup other := by
  rw [put, List.lookup_append, lookup_filter, lookup_cons_eq]
  by_cases same : other = name <;> simp [same]

/-- So it changes this logger, and no other. -/
theorem logger_put (registry : Registry) (name other : String) (logger : Logger) :
    (registry.put name logger).logger other = if other = name then logger else registry.logger other := by
  rw [Registry.logger, lookup_put]
  split
  · rfl
  · rfl

/-- A logger that is put in becomes known, and no other one does. -/
theorem isKnown_put (registry : Registry) {name : String} (named : name ≠ rootName) (other : String)
    (logger : Logger) : (registry.put name logger).isKnown other ↔ other = name ∨ registry.isKnown other := by
  simp only [isKnown, lookup_put, Bool.and_eq_true, decide_eq_true_eq]
  split
  · rename_i same
    simp [same, named]
  · rename_i different
    simp [different]

/-- The environment asks for one of the two forms of records. -/
theorem styleFrom_cases (environment : Environment) :
    styleFrom environment = .text ∨ styleFrom environment = .json := by
  unfold styleFrom
  dsimp only
  split
  · exact .inr rfl
  · exact .inl rfl

/-- One more call for the logger of a name leaves the loggers of other names as they are. -/
theorem called_of_ne {name other : String} (different : other ≠ name) (structured : Bool) :
    called environment level (calls ++ [(name, structured)]) other = called environment level calls other := by
  have same : (other, true) ∈ calls ++ [(name, structured)] ↔ (other, true) ∈ calls := by simp [different]
  unfold called
  by_cases isPackage : other = packageName
  · subst isPackage
    simp only [same]
  · simp only [isPackage, if_false, same]

/-- Asking for structured records adds a handler for them if there is none. -/
theorem called_again {name : String} (named : name ≠ rootName) (structured : Bool) :
    (let logger := called environment level calls name
     if structured && !logger.handlers.contains .json
      then { logger with handlers := logger.handlers ++ [.json], propagates := false } else logger) =
      called environment level (calls ++ [(name, structured)]) name := by
  cases structured with
  | false => simp [called, named]
  | true =>
    by_cases isPackage : name = packageName
    · subst isPackage
      rcases styleFrom_cases environment with text | json
      · by_cases asked : (packageName, true) ∈ calls <;> simp [called, named, text, asked]
      · simp [called, named, json]
    · by_cases asked : (name, true) ∈ calls <;> simp [called, named, isPackage, asked]

/-- A logger that has a handler was called for, or is that of the package. -/
theorem Reflects.isKnown_of_handles (reflects : Reflects environment level calls registry) {name : String}
    (handles : (registry.logger name).handlers ≠ []) : registry.isKnown name := by
  rw [reflects.logger] at handles
  rw [reflects.known]
  rcases called_cases environment level calls name with
    ⟨noHandler, -, -⟩ | ⟨isPackage, -, -⟩ | ⟨isPackage, -, -, -⟩ | ⟨-, asked, -, -⟩
  · exact absurd noHandler handles
  · exact .inl isPackage
  · exact .inl isPackage
  · exact .inr (List.mem_map_of_mem asked)

/-- A registry that reflects its calls is configured already. -/
theorem Reflects.configure (reflects : Reflects environment level calls registry) :
    registry.configure environment = .ok registry := by
  rw [Registry.configure, if_pos reflects.configured]
  rfl

/-- A call leaves what it asks for, whatever was asked for before. -/
theorem Reflects.obtain (reflects : Reflects environment level calls registry) {name : String}
    (package : inPackage name) (structured : Bool) :
    ∃ next, registry.obtain environment name structured = .ok next ∧
      Reflects environment level (calls ++ [(name, structured)]) next := by
  have named := ne_root_of_inPackage package
  refine ⟨registry.put name (called environment level (calls ++ [(name, structured)]) name), ?_, ?_⟩
  · rw [← called_again named, Registry.obtain, reflects.configure, ← reflects.logger, properName_of_inPackage package]
    simp only [package, if_true]
    rfl
  · refine ⟨fun other => ?_, fun other => ?_, reflects.configured⟩
    · rw [logger_put]
      split
      · rename_i same
        rw [same]
      · rename_i different
        rw [reflects.logger, called_of_ne different]
    · rw [isKnown_put registry named, reflects.known]
      simp only [List.map_append, List.map_cons, List.map_nil, List.mem_append, List.mem_singleton]
      tauto

/-- The first call finds the logger of the package with its handler. -/
theorem configure_start (told : levelFrom environment = .ok level) :
    ∃ ready, start.configure environment = .ok ready ∧ Reflects environment level [] ready := by
  refine ⟨{ start.put packageName { level, handlers := [styleFrom environment] } with configured := true },
    ?_, ?_⟩
  · rw [configure, told]
    rfl
  · have begun (name : String) :
        start.loggers.lookup name = if name = rootName then some { level := number .warning } else none :=
      lookup_cons_eq name rootName _ []
    refine ⟨fun name => ?_, fun name => ?_, rfl⟩
    · change (start.put packageName _).logger name = _
      rw [logger_put, Registry.logger, begun]
      by_cases isRoot : name = rootName
      · subst isRoot
        rfl
      · by_cases isPackage : name = packageName
        · subst isPackage
          rfl
        · simp [called, isPackage, isRoot]
    · change (start.put packageName _).isKnown name ↔ _
      rw [isKnown_put start (by decide), isKnown, begun]
      by_cases isRoot : name = rootName <;> simp [isRoot]

/-- Calls for loggers of the package leave what they ask for, in whatever order they come. -/
theorem Reflects.foldlM (more : List (String × Bool)) (package : ∀ call ∈ more, inPackage call.1)
    (reflects : Reflects environment level calls registry) :
    ∃ last, more.foldlM (fun registry call => registry.obtain environment call.1 call.2) registry = .ok last ∧
      Reflects environment level (calls ++ more) last := by
  induction more generalizing calls registry with
  | nil => exact ⟨registry, rfl, by simpa using reflects⟩
  | cons call more inductionHypothesis =>
    obtain ⟨next, told, reflects⟩ := reflects.obtain (package call List.mem_cons_self) call.2
    obtain ⟨last, others, reflects⟩ :=
      inductionHypothesis (fun other member => package other (List.mem_cons_of_mem _ member)) reflects
    refine ⟨last, ?_, by simpa using reflects⟩
    rw [List.foldlM_cons, told]
    exact others

/-- Any calls are reflected by a registry, if the environment gives a level and all names are in the package. -/
theorem obtainAll_reflects (told : levelFrom environment = .ok level) (nonempty : calls ≠ [])
    (package : ∀ call ∈ calls, inPackage call.1) :
    ∃ registry, obtainAll environment calls = .ok registry ∧ Reflects environment level calls registry := by
  obtain ⟨ready, begun, reflects⟩ := configure_start told
  -- the first call configures the package before it does anything else
  have first (name : String) (structured : Bool) :
      start.obtain environment name structured = ready.obtain environment name structured := by
    rw [Registry.obtain, Registry.obtain, begun, reflects.configure]
  obtain ⟨call, more, rfl⟩ := List.exists_cons_of_ne_nil nonempty
  obtain ⟨registry, ends, reflects⟩ := reflects.foldlM (call :: more) package
  refine ⟨registry, ?_, reflects⟩
  rw [List.foldlM_cons] at ends
  rw [obtainAll, List.foldlM_cons, first]
  exact ends

/-! ### The way up -/

/-- The way up from a name that is known starts there, and every name on it is known. -/
theorem lineage_of_isKnown {name : String} (isKnown : registry.isKnown name) :
    registry.lineage name = name :: (namesAbove registry.isKnown name.toList.reverse ++ [rootName]) := by
  have known : ∀ other ∈ namesAbove registry.isKnown name.toList.reverse, registry.isKnown other := by
    intro other member
    obtain ⟨before, after, told⟩ := List.append_of_mem member
    exact (namesAbove_split told).1
  rw [lineage, List.filter_cons_of_pos isKnown, List.filter_eq_self.mpr known]
  rfl

/-- What follows a name on the way up from one that is known is the way up from there. -/
theorem lineage_split {holder name : String} {below above : List String} (isKnown : registry.isKnown name)
    (named : holder ≠ rootName) (told : registry.lineage name = below ++ holder :: above) :
    IsAtOrAbove holder name ∧ above = namesAbove registry.isKnown holder.toList.reverse ++ [rootName] := by
  rw [lineage_of_isKnown isKnown] at told
  cases below with
  | nil =>
    obtain ⟨rfl, rfl⟩ := List.cons.inj told
    exact ⟨.inl rfl, rfl⟩
  | cons first below =>
    have rest : _ = below ++ holder :: above := (List.cons.inj told).2
    rcases List.eq_nil_or_concat' above with rfl | ⟨middle, last, rfl⟩
    · exact absurd (List.append_inj' rest rfl).2 (by simpa using Ne.symm named)
    · rw [← List.cons_append, ← List.append_assoc] at rest
      obtain ⟨names, last⟩ := List.append_inj' rest rfl
      obtain ⟨-, rfl, -⟩ := namesAbove_split names
      exact ⟨isAtOrAbove_of_mem (names ▸ List.mem_append_right _ List.mem_cons_self), by rw [last]⟩

/-- On the way up from a name either some logger is the first with a handler of its own, or none has one. -/
theorem serves_or_silent (registry : Registry) (name : String) :
    (∃ holder, registry.Serves holder name) ∨
      ∀ other ∈ registry.lineage name, (registry.logger other).handlers = [] := by
  cases found : (registry.lineage name).find? fun other => (registry.logger other).handlers ≠ [] with
  | none =>
    refine .inr fun other member => ?_
    simpa using List.find?_eq_none.mp found other member
  | some holder =>
    obtain ⟨handles, below, above, told, silent⟩ := List.find?_eq_some_iff_append.mp found
    exact .inl ⟨holder, below, above, told, by simpa using silent, by simpa using handles⟩

/-- Loggers that have no handlers and pass their records on change nothing for those below. -/
theorem handlersAlong_append {below : List Logger}
    (silent : ∀ logger ∈ below, logger.handlers = [] ∧ logger.propagates) (above : List Logger) :
    handlersAlong (below ++ above) = handlersAlong above := by
  induction below with
  | nil => rfl
  | cons logger below inductionHypothesis =>
    obtain ⟨⟨noHandler, passesOn⟩, others⟩ := List.forall_mem_cons.mp silent
    rw [List.cons_append, handlersAlong, noHandler, if_pos passesOn, inductionHypothesis others]
    rfl

/-- A logger without a handler is passed over on the way up. -/
theorem handlersAlong_called (reflects : Reflects environment level calls registry) {below : List String}
    (silent : ∀ other ∈ below, (registry.logger other).handlers = []) (above : List String) :
    handlersAlong ((below ++ above).map registry.logger) = handlersAlong (above.map registry.logger) := by
  rw [List.map_append]
  refine handlersAlong_append (fun logger member => ?_) _
  obtain ⟨other, inside, rfl⟩ := List.mem_map.mp member
  have noHandler := silent other inside
  refine ⟨noHandler, ?_⟩
  rw [reflects.logger] at noHandler ⊢
  rcases called_cases environment level calls other with
    ⟨-, passesOn, -⟩ | ⟨-, -, handlers⟩ | ⟨-, -, handlers, -⟩ | ⟨-, -, handlers, -⟩
  · exact passesOn
  all_goals simp [handlers] at noHandler

/-- The handlers of the first logger that has some are all that write: it keeps its records to itself, or is that
of the package, above which there are no handlers. -/
theorem handlers_of_serves (reflects : Reflects environment level calls registry) {holder name : String}
    (isKnown : registry.isKnown name) (serves : registry.Serves holder name) :
    registry.handlers name = (registry.logger holder).handlers := by
  obtain ⟨below, above, told, silent, handles⟩ := serves
  rw [handlers, chain, told, handlersAlong_called reflects silent, List.map_cons, handlersAlong]
  have named : holder ≠ rootName := by
    rintro rfl
    rw [reflects.logger] at handles
    exact handles rfl
  have next := (lineage_split isKnown named told).2
  have atRoot : (registry.logger rootName).handlers = [] ∧ (registry.logger rootName).propagates := by
    rw [reflects.logger]
    exact ⟨rfl, rfl⟩
  have nothing : registry.logger holder |>.propagates → handlersAlong (above.map registry.logger) = [] := by
    intro passesOn
    rw [reflects.logger] at passesOn handles
    rcases called_cases environment level calls holder with
      ⟨noHandler, -, -⟩ | ⟨rfl, -, -⟩ | ⟨-, -, -, keeps⟩ | ⟨-, -, -, keeps⟩
    · exact absurd noHandler handles
    · rw [next]
      exact @handlersAlong_append [registry.logger rootName] (by simpa using atRoot) []
    · exact absurd passesOn keeps
    · exact absurd passesOn keeps
  split
  · rename_i passesOn
    rw [nothing passesOn, List.append_nil]
  · rw [List.append_nil]

/-- Where no logger on the way up has a handler, that of the package is not among them, and the level is the one
above all. -/
theorem threshold_of_silent (reflects : Reflects environment level calls registry) {name : String}
    (silent : ∀ other ∈ registry.lineage name, (registry.logger other).handlers = []) :
    registry.threshold name = number .warning := by
  have root : (registry.logger rootName).level = number .warning := by
    rw [reflects.logger]
    rfl
  have others : ∀ other ∈ registry.lineage name, other ≠ rootName → (registry.logger other).level = 0 := by
    intro other member named
    have noHandler := silent other member
    rw [reflects.logger] at noHandler ⊢
    rcases called_cases environment level calls other with
      ⟨-, -, isOther⟩ | ⟨-, -, handlers⟩ | ⟨-, -, handlers, -⟩ | ⟨-, -, handlers, -⟩
    · simp only [called, named, isOther, if_false]
      split <;> rfl
    all_goals simp [handlers] at noHandler
  have member : rootName ∈ registry.lineage name := List.mem_append_right _ List.mem_cons_self
  rw [threshold, chain, List.map_map]
  cases found : ((registry.lineage name).map (Logger.level ∘ registry.logger)).find? fun level => level ≠ 0 with
  | none =>
    have none := List.find?_eq_none.mp found _ (List.mem_map_of_mem member)
    rw [Function.comp_apply, root] at none
    exact absurd (by decide) none
  | some level =>
    obtain ⟨other, inside, rfl⟩ := List.mem_map.mp (List.mem_of_find?_eq_some found)
    have counts := List.find?_some found
    by_cases isRoot : other = rootName
    · rw [isRoot]
      exact root
    · simp [others other inside isRoot] at counts

/-- Below the package and with no dots side by side, a name is served by the nearest logger that has a handler of
its own: every other one above the name that has one is above that logger, too. -/
theorem serves_of_isDotted (reflects : Reflects environment level calls registry) {name : String}
    (isKnown : registry.isKnown name) (package : inPackage name) (dotted : IsDotted name) :
    ∃ holder, registry.Serves holder name ∧ IsAtOrAbove holder name ∧
      ∀ other, inPackage other → (registry.logger other).handlers ≠ [] → IsAtOrAbove other name →
        IsAtOrAbove other holder := by
  have inside {other : String} (otherPackage : inPackage other) (handles : (registry.logger other).handlers ≠ [])
      (isAbove : IsAtOrAbove other name) : other ∈ registry.lineage name := by
    rw [lineage_of_isKnown isKnown]
    rcases isAbove with rfl | ⟨rest, same⟩
    · exact List.mem_cons_self
    · refine List.mem_cons_of_mem _ (List.mem_append_left _ ?_)
      have nonempty : other ≠ "" := by
        rintro rfl
        revert otherPackage
        decide +kernel
      refine mem_namesAbove (reflects.isKnown_of_handles handles) nonempty (fun found => dotted ?_)
        (reverse_of_above same)
      simpa using List.reverse_infix.mpr found
  have topHandles : (registry.logger packageName).handlers ≠ [] := by
    rw [reflects.logger]
    rcases called_cases environment level calls packageName with
      ⟨-, -, isOther⟩ | ⟨-, -, handlers⟩ | ⟨-, -, handlers, -⟩ | ⟨isOther, -⟩
    · exact absurd rfl isOther
    · simp [handlers]
    · simp [handlers]
    · exact absurd rfl isOther
  rcases serves_or_silent registry name with ⟨holder, serves⟩ | silent
  · refine ⟨holder, serves, ?_⟩
    obtain ⟨below, above, told, silent, handles⟩ := serves
    have named : holder ≠ rootName := by
      rintro rfl
      rw [reflects.logger] at handles
      exact handles rfl
    obtain ⟨isAbove, next⟩ := lineage_split isKnown named told
    refine ⟨isAbove, fun other otherPackage otherHandles otherAbove => ?_⟩
    have member := inside otherPackage otherHandles otherAbove
    rw [told, List.mem_append, List.mem_cons] at member
    rcases member with early | rfl | late
    · exact absurd (silent other early) otherHandles
    · exact .inl rfl
    · rw [next, List.mem_append, List.mem_singleton] at late
      rcases late with inAbove | rfl
      · exact isAtOrAbove_of_mem inAbove
      · exact absurd rfl (ne_root_of_inPackage otherPackage)
  · have top := inside (by decide +kernel) topHandles ((inPackage_iff name).mp package)
    exact absurd (silent _ top) topHandles

/-- How a record is written after calls for loggers. -/
structure IsWritten (environment : Environment) (calls : List (String × Bool)) (registry : Registry)
    (entry : Entry) : Prop where
  /-- One handler writes it: that of the first logger upwards that has one of its own. -/
  once : ∀ holder, registry.Serves holder entry.record.source →
    ¬ (holder = packageName ∧ IsDoubled environment calls) →
    registry.handlers entry.record.source = [styleOf environment calls holder] ∧
      registry.write entry = entry.write (styleOf environment calls holder)
  /-- The logger of the package writes twice if it was given a second handler. -/
  twice : registry.Serves packageName entry.record.source → IsDoubled environment calls →
    registry.write entry = entry.write .text ++ entry.write .json
  /-- Without dots side by side, that logger is the nearest one of those above the name. -/
  nearest : IsDotted entry.record.source → ∃ holder, registry.Serves holder entry.record.source ∧
    IsAtOrAbove holder entry.record.source ∧ ∀ other, inPackage other →
      (registry.logger other).handlers ≠ [] → IsAtOrAbove other entry.record.source → IsAtOrAbove other holder
  /-- If there is none, the message is written bare. -/
  bare : (¬ ∃ holder, registry.Serves holder entry.record.source) →
    registry.handlers entry.record.source = [] ∧ registry.write entry = entry.write .bare

/-- An enabled record is written by the handlers of its logger, if there are any. -/
theorem write_of_isEnabled {entry : Entry} {first : Style} {others : List Style}
    (enabled : registry.isEnabled entry.record.source (number entry.record.level))
    (told : registry.handlers entry.record.source = first :: others) :
    registry.write entry = String.join ((first :: others).map entry.write) := by
  simp [Registry.write, enabled, told]

/-- What one logger with handlers writes: in one style, or in two. -/
theorem Reflects.isWritten (reflects : Reflects environment level calls registry) {entry : Entry}
    (package : inPackage entry.record.source) (requested : entry.record.source ∈ calls.map Prod.fst)
    (enabled : registry.isEnabled entry.record.source (number entry.record.level)) :
    IsWritten environment calls registry entry := by
  have isKnown := (reflects.known entry.record.source).mpr (.inr requested)
  refine ⟨fun holder serves single => ?_, fun serves doubled => ?_,
    serves_of_isDotted reflects isKnown package, fun unserved => ?_⟩
  · have written := handlers_of_serves reflects isKnown serves
    obtain ⟨-, -, -, -, handles⟩ := serves
    rw [reflects.logger] at written handles
    suffices told : (called environment level calls holder).handlers = [styleOf environment calls holder] by
      rw [told] at written
      exact ⟨written, by simp [write_of_isEnabled enabled written]⟩
    unfold styleOf
    rcases called_cases environment level calls holder with
      ⟨noHandler, -, -⟩ | ⟨rfl, notDoubled, handlers⟩ | ⟨isPackage, doubled, -, -⟩ | ⟨-, asked, handlers, -⟩
    · exact absurd noHandler handles
    · rw [handlers]
      split
      · rename_i asked
        rw [(styleFrom_cases environment).resolve_left fun text => notDoubled ⟨asked, text⟩]
      · rfl
    · exact absurd ⟨isPackage, doubled⟩ single
    · rw [handlers, if_pos asked]
  · have written := handlers_of_serves reflects isKnown serves
    rw [reflects.logger] at written
    rcases called_cases environment level calls packageName with
      ⟨-, -, isOther⟩ | ⟨-, notDoubled, -⟩ | ⟨-, -, handlers, -⟩ | ⟨isOther, -⟩
    · exact absurd rfl isOther
    · exact absurd doubled notDoubled
    · rw [handlers] at written
      rw [write_of_isEnabled enabled written]
      simp [String.join]
    · exact absurd rfl isOther
  · have silent := (serves_or_silent registry entry.record.source).resolve_left unserved
    have nothing : registry.handlers entry.record.source = [] := by
      have passed := handlersAlong_called reflects silent []
      rw [List.append_nil] at passed
      exact passed
    refine ⟨nothing, ?_⟩
    have least : number .warning ≤ number entry.record.level := by
      have level := enabled
      rw [isEnabled, threshold_of_silent reflects silent, decide_eq_true_eq] at level
      exact level
    simp [Registry.write, enabled, nothing, least]

/-- Loggers of the package are asked for one after the other, each with structured records or without. A record
of one of them that is enabled is then written once, by the first logger upwards that has a handler of its own:
as a structured record if that logger was asked for with them or the environment wants them, and as a line of
text otherwise. Only the logger of the package writes what it serves twice, if its handler is one for text and
it was asked for with structured records. Where the way up misses the package, as it can behind two dots side by
side, the message is written bare. -/
theorem obtained_write_once (environment : Environment) {level : Int} (told : levelFrom environment = .ok level)
    (calls : List (String × Bool)) (package : ∀ call ∈ calls, inPackage call.1) :
    ∃ registry, obtainAll environment calls = .ok registry ∧
      ∀ entry : Entry, entry.record.source ∈ calls.map Prod.fst →
        registry.isEnabled entry.record.source (number entry.record.level) →
        IsWritten environment calls registry entry := by
  by_cases none : calls = []
  · subst none
    exact ⟨start, rfl, nofun⟩
  · obtain ⟨registry, obtained, reflects⟩ := obtainAll_reflects told none package
    refine ⟨registry, obtained, fun entry requested enabled => reflects.isWritten ?_ requested enabled⟩
    obtain ⟨call, member, named⟩ := List.mem_map.mp requested
    exact named ▸ package call member

/-- A warning of a part of the builds. -/
def warning (source : String) : Entry := { time := "now", record := { source, level := .warning, message := "late" } }

/-- The builds are asked for with structured records and their steps without, and so is the command line. -/
def buildCalls : List (String × Bool) :=
  [("modbuild.build.steps", false), ("modbuild.build", true), ("modbuild.cli", false)]

/-- The handler of the builds serves their steps, too; the command line writes lines of text. -/
theorem obtained_write_once_of_builds :
    ∃ registry, obtainAll [] buildCalls = .ok registry ∧
      registry.Serves "modbuild.build" "modbuild.build.steps" ∧
      registry.write (warning "modbuild.build.steps") = (warning "modbuild.build.steps").write .json ∧
      registry.Serves "modbuild" "modbuild.cli" ∧
      registry.write (warning "modbuild.cli") = (warning "modbuild.cli").write .text := by
  obtain ⟨registry, obtained, written⟩ := @obtained_write_once [] (number .info)
    (ok_of_toOption (by decide +kernel)) buildCalls (by decide +kernel)
  have facts : (obtainAll [] buildCalls).toOption.map (fun registry =>
      (["modbuild.build.steps", "modbuild.cli"].map fun name =>
          (registry.isEnabled name (number .warning), registry.lineage name),
        ["modbuild.build.steps", "modbuild.build", "modbuild.cli", "modbuild"].map fun name =>
          (registry.logger name).handlers)) =
      some ([(true, ["modbuild.build.steps", "modbuild.build", "modbuild", "root"]),
        (true, ["modbuild.cli", "modbuild", "root"])], [[], [.json], [], [.text]]) := by
    decide +kernel
  rw [obtained] at facts
  simp only [Except.toOption, Option.map_some, Option.some.injEq, Prod.mk.injEq, List.map_cons, List.map_nil,
    List.cons.injEq, and_true] at facts
  obtain ⟨⟨⟨stepsEnabled, stepsUp⟩, cliEnabled, cliUp⟩, noSteps, build, noCli, top⟩ := facts
  have steps : registry.Serves "modbuild.build" "modbuild.build.steps" :=
    ⟨["modbuild.build.steps"], _, stepsUp, by simpa using noSteps, by simp [build]⟩
  have cli : registry.Serves "modbuild" "modbuild.cli" :=
    ⟨["modbuild.cli"], _, cliUp, by simpa using noCli, by simp [top]⟩
  have single : ¬ IsDoubled [] buildCalls := fun doubled => absurd doubled.1 (by decide)
  refine ⟨registry, obtained, steps, ?_, cli, ?_⟩
  · exact ((written (warning "modbuild.build.steps") (by decide +kernel) stepsEnabled).once _ steps
      fun doubled => single doubled.2).2
  · exact ((written (warning "modbuild.cli") (by decide +kernel) cliEnabled).once _ cli
      fun doubled => single doubled.2).2

/-- If the logger of the package is asked for with structured records, it writes each of its records twice. -/
theorem obtained_write_twice :
    ∃ registry, obtainAll [] [("modbuild", true)] = .ok registry ∧
      registry.isEnabled "modbuild" (number .warning) ∧ registry.handlers "modbuild" = [.text, .json] ∧
      registry.write (warning "modbuild") =
        (warning "modbuild").write .text ++ (warning "modbuild").write .json := by
  have facts : (obtainAll [] [("modbuild", true)]).toOption.map (fun registry =>
      (registry.isEnabled "modbuild" (number .warning), registry.handlers "modbuild")) =
      some (true, [.text, .json]) := by
    decide +kernel
  cases obtained : obtainAll [] [("modbuild", true)] with
  | error fault => simp [obtained, Except.toOption] at facts
  | ok registry =>
    rw [obtained] at facts
    obtain ⟨enabled, handlers⟩ := Prod.mk.inj (Option.some.inj facts)
    refine ⟨registry, rfl, enabled, handlers, ?_⟩
    have written : registry.write (warning "modbuild") = _ := write_of_isEnabled enabled handlers
    simpa [String.join] using written

end TreeBuild.Logging.Registry
