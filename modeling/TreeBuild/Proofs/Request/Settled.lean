import Mathlib.Logic.Relation
import TreeBuild.Proofs.Project.Discovery
import TreeBuild.Proofs.Request.Targets

/-!
# Requests stay settled

A request is checked and settled once, when it is made. Whoever holds it later may settle it again or narrow it
to one file, as often and in any order, and nothing is checked anew on the way: narrowing only replaces fields.
What was settled stays settled all the same. Settling such a request is never refused and leaves it as it is,
and what narrowing has made of it, a request for one absolute path, is left by every later step.
-/
namespace TreeBuild.Request

open Relation

/-- No field holds a value of another kind than it asks for. -/
structure IsTyped (request : Request) : Prop where
  input : ∃ text, request.input = .proper text
  stdinFile : ∀ given, request.stdinFile = some given → ∃ text, given = .proper text
  target : ∃ text, request.target = .proper text
  tsconfig : ∃ text, request.tsconfig = .proper text
  styles : ∃ text, request.styles = .proper text
  external : ∃ names, request.external = .proper names

/-- Why a request of this kind cannot be carried out. -/
inductive IsRefused (request : Request) : Prop where
  /-- It is not said where the text that is compiled is taken to come from. -/
  | unplaced (literal : request.isLiteral)
      (nowhere : request.stdinFile = none ∨ request.stdinFile = some (.proper ""))
  /-- Files are compiled, and are to be left unwritten. -/
  | unwritten (noWrite : request.noWrite) (file : ¬ request.isLiteral)
  /-- The target is none of those known. -/
  | unsupported {target : String} (told : request.target = .proper target) (unknown : ¬ Target.accepts target)
  /-- The format cannot be written in the language of the target. -/
  | excluded (modules : request.format = .esm) (told : request.target = .proper "es5")

/-- What is known of a request that has been made. -/
structure IsSettled (request : Request) : Prop where
  /-- Development stops once the output can be run. -/
  stops : request.isDevelopment → request.runtimeOnly
  /-- A standalone build bundles. -/
  bundles : request.standalone → request.bundle
  /-- A text that is compiled has a place. -/
  placed : request.isLiteral → ∃ place, request.stdinFile = some (.proper place) ∧ place ≠ ""
  /-- Only the output of a text that is compiled is left unwritten. -/
  written : request.noWrite → request.isLiteral
  /-- The target is one of those known. -/
  supported : ∃ target, request.target = .proper target ∧ Target.accepts target
  /-- The format can be written in the language of the target. -/
  possible : ¬ (request.format = .esm ∧ request.target = .proper "es5")

/-- What is done with a request that has been made. -/
inductive Step : Request → Request → Prop where
  /-- It is settled once more. -/
  | settle {request settled : Request} (accepted : request.normalized = .ok settled) : Step request settled
  /-- It is narrowed to the file that an absolute path leads to. -/
  | narrow {request narrowed : Request} (tree : Tree) {path : Path} (absolute : path.isAbsolute)
      (found : request.forPath tree path = .ok narrowed) : Step request narrowed

/-! ### What is refused -/

/-- With fields of the kinds that are asked for, a text has no place if none is given or an empty one. -/
theorem hasPlace_eq_false_iff {request : Request} (typed : request.IsTyped) :
    request.hasPlace = false ↔ request.stdinFile = none ∨ request.stdinFile = some (.proper "") := by
  unfold hasPlace
  cases given : request.stdinFile with
  | none => simp
  | some place =>
    obtain ⟨text, rfl⟩ := typed.stdinFile place given
    simp [Given.isSet]

/-- What is found fault with is refused for one of the reasons, and no other kind of fault is found. -/
theorem isRefused_of_fault? {request : Request} (typed : request.IsTyped) {fault : Fault}
    (found : request.fault? = some fault) :
    request.IsRefused ∧ ∃ error, fault = .configuration error := by
  obtain ⟨target, told⟩ := typed.target
  unfold fault? at found
  split at found
  · rename_i unplaced
    obtain ⟨literal, noPlace⟩ := (Bool.and_eq_true _ _).mp unplaced
    cases found
    exact ⟨.unplaced literal ((hasPlace_eq_false_iff typed).mp (by simpa using noPlace)), _, rfl⟩
  split at found
  · rename_i unwritten
    obtain ⟨noWrite, file⟩ := (Bool.and_eq_true _ _).mp unwritten
    cases found
    exact ⟨.unwritten noWrite (by simpa using file), _, rfl⟩
  rw [told, targetFault?] at found
  split at found
  · rename_i unknown
    cases found
    exact ⟨.unsupported told (by simpa using unknown), _, rfl⟩
  split at found
  · rename_i excluded
    obtain ⟨modules, edition⟩ : request.format = .esm ∧ target = "es5" := by simpa using excluded
    cases found
    exact ⟨.excluded modules (edition ▸ told), _, rfl⟩
  · cases found

/-- What is refused for one of the reasons is found fault with. -/
theorem IsRefused.fault?_ne_none {request : Request} (refused : request.IsRefused) : request.fault? ≠ none := by
  intro sound
  unfold fault? at sound
  split at sound
  · cases sound
  rename_i placed
  split at sound
  · cases sound
  rename_i written
  cases refused with
  | unplaced literal nowhere =>
    have noPlace : request.hasPlace = false := by
      rcases nowhere with none | empty <;> simp [hasPlace, Given.isSet, *]
    simp [literal, noPlace] at placed
  | unwritten noWrite file => simp [noWrite, file] at written
  | unsupported told unknown =>
    rw [told, targetFault?_eq_none_iff] at sound
    exact unknown sound.1
  | excluded modules told =>
    rw [told, targetFault?_eq_none_iff] at sound
    exact sound.2 ⟨modules, rfl⟩

/-- What is not refused is settled. -/
theorem normalized_of_not_isRefused {request : Request} (typed : request.IsTyped)
    (sound : ¬ request.IsRefused) : request.normalized = .ok request.settled := by
  unfold normalized
  cases found : request.fault? with
  | none => rfl
  | some fault => exact absurd (isRefused_of_fault? typed found).1 sound

/-- A request is refused for one of the reasons, and then by an error of the configuration. -/
theorem normalized_eq_error_iff {request : Request} (typed : request.IsTyped) :
    (∃ error, request.normalized = .error (.configuration error)) ↔ request.IsRefused := by
  constructor
  · rintro ⟨error, told⟩
    unfold normalized at told
    split at told
    · rename_i found
      exact (isRefused_of_fault? typed found).1
    · cases told
  · intro refused
    obtain ⟨fault, found⟩ := Option.ne_none_iff_exists'.mp refused.fault?_ne_none
    obtain ⟨-, error, rfl⟩ := isRefused_of_fault? typed found
    exact ⟨error, by rw [normalized, found]⟩

/-! ### What one step preserves -/

/-- Fields of the kinds that are asked for are what making a request leaves of them. -/
theorem isSettled_of_normalized {request settled : Request} (typed : request.IsTyped)
    (accepted : request.normalized = .ok settled) : settled.IsSettled := by
  obtain ⟨sound, rfl⟩ := accepted_of_normalized accepted
  have notRefused : ¬ request.IsRefused := fun refused => refused.fault?_ne_none sound
  obtain ⟨target, told⟩ := typed.target
  exact {
    stops := fun development => by simpa [settled] using .inr development
    bundles := fun standalone => by simpa [settled] using .inr standalone
    placed := fun literal => by
      cases given : request.stdinFile with
      | none => exact absurd (.unplaced literal (.inl given)) notRefused
      | some place =>
        obtain ⟨text, rfl⟩ := typed.stdinFile place given
        refine ⟨text, given, ?_⟩
        rintro rfl
        exact notRefused (.unplaced literal (.inr given))
    written := fun noWrite => by
      by_contra file
      exact notRefused (.unwritten noWrite file)
    supported := ⟨target, told, by
      by_contra unknown
      exact notRefused (.unsupported told unknown)⟩
    possible := fun ⟨modules, edition⟩ => notRefused (.excluded modules edition) }

namespace IsSettled

variable {request : Request}

/-- Nothing is left to be settled. -/
theorem settled_eq (isSettled : request.IsSettled) : request.settled = request := by
  have stops : (request.runtimeOnly || request.isDevelopment) = request.runtimeOnly := by
    cases development : request.isDevelopment with
    | false => simp
    | true => simp [isSettled.stops development]
  have bundles : (request.bundle || request.standalone) = request.bundle := by
    cases standalone : request.standalone with
    | false => simp
    | true => simp [isSettled.bundles standalone]
  rw [settled, stops, bundles]

/-- Settling is not refused, and leaves the request as it is. -/
theorem normalized_eq (isSettled : request.IsSettled) : request.normalized = .ok request := by
  obtain ⟨target, told, accepted⟩ := isSettled.supported
  have coherent : request.IsCoherent := by
    refine ⟨fun literal => ?_, isSettled.written⟩
    obtain ⟨place, given, nonempty⟩ := isSettled.placed literal
    simpa [hasPlace, given, Given.isSet] using nonempty
  have possible : ¬ (request.format = .esm ∧ target = "es5") := by
    rintro ⟨modules, rfl⟩
    exact isSettled.possible ⟨modules, told⟩
  have sound : request.fault? = none := by
    rw [fault?_of_isCoherent coherent, told]
    exact (targetFault?_eq_none_iff _ _).mpr ⟨accepted, possible⟩
  rw [normalized, sound]
  exact congrArg Except.ok isSettled.settled_eq

/-- Narrowing takes the text away together with what needs one. -/
theorem forFile (isSettled : request.IsSettled) (path : Path) : (request.forFile path).IsSettled where
  stops := isSettled.stops
  bundles := isSettled.bundles
  placed := nofun
  written := nofun
  supported := isSettled.supported
  possible := isSettled.possible

/-- Each step leads from a settled request to a settled one. -/
theorem step {next : Request} (isSettled : request.IsSettled) (step : Step request next) : next.IsSettled := by
  cases step with
  | settle accepted =>
    obtain rfl : request = next := Except.ok.inj (isSettled.normalized_eq.symm.trans accepted)
    exact isSettled
  | narrow tree absolute found =>
    obtain ⟨resolved, -, narrowed⟩ := exists_of_bind_eq_ok found
    cases narrowed
    exact isSettled.forFile resolved

/-- However long a request is handed on, it stays settled. -/
theorem steps {last : Request} (isSettled : request.IsSettled) (steps : ReflTransGen Step request last) :
    last.IsSettled := by
  induction steps with
  | refl => exact isSettled
  | tail _ step inductionHypothesis => exact inductionHypothesis.step step

end IsSettled

/-! ### What narrowing leaves -/

/-- The second request asks for one absolute path, and for everything else what the first one asks for. -/
structure IsNarrowed (request narrowed : Request) : Prop where
  file : narrowed.isLiteral = false
  single : narrowed.isSinglePath = .ok true
  same : narrowed = { request with input := narrowed.input, literalSource := none, noWrite := false }

/-- The text of an absolute path is the text of an absolute path. -/
theorem isAbsolute_ofString_toString {path : Path} (absolute : path.isAbsolute) :
    (Path.ofString path.toString).isAbsolute := by
  have slash : path.toString.toList.head? = some '/' := by
    rw [Path.toList_toString_of_isAbsolute absolute]
    cases anchor : path.anchor with
    | relative => simp [Path.isAbsolute, anchor] at absolute
    | root => simp [Path.anchorText]
    | doubleRoot => simp [Path.anchorText]
  obtain ⟨rest, begins⟩ := List.head?_eq_some_iff.mp slash
  have relative : Path.anchorOf path.toString.toList ≠ .relative := by
    unfold Path.anchorOf
    split
    · rename_i none
      simp [begins] at none
    · simp
    · simp
  exact decide_eq_true relative

/-- A request for a path that is found is the request narrowed to it. -/
theorem isNarrowed_of_forPath {tree : Tree} {request narrowed : Request} {path : Path}
    (found : request.forPath tree path = .ok narrowed) : IsNarrowed request narrowed := by
  obtain ⟨resolved, told, same⟩ := exists_of_bind_eq_ok found
  cases same
  have rooted : resolved.isAbsolute := by
    unfold Sources.resolvePath at told
    dsimp only at told
    split at told
    · cases told
    split at told
    · cases told
    split at told
    · cases told
    · cases told
      rfl
  refine ⟨rfl, ?_, rfl⟩
  exact congrArg Except.ok (isAbsolute_ofString_toString rooted)

/-- What narrowing leaves is left by every later step: settling changes nothing, and narrowing again replaces
the path. -/
theorem IsNarrowed.steps {request narrowed last : Request} (isNarrowed : IsNarrowed request narrowed)
    (isSettled : narrowed.IsSettled) (steps : ReflTransGen Step narrowed last) : IsNarrowed request last := by
  induction steps with
  | refl => exact isNarrowed
  | @tail middle last before step inductionHypothesis =>
    cases step with
    | settle accepted =>
      obtain rfl : middle = last := Except.ok.inj ((isSettled.steps before).normalized_eq.symm.trans accepted)
      exact inductionHypothesis
    | narrow tree absolute found =>
      have again := isNarrowed_of_forPath found
      refine ⟨again.file, again.single, ?_⟩
      rw [again.same, inductionHypothesis.same]

/-- A request with fields of the kinds that are asked for, once made, stays settled through every sequence of
settling and narrowing to absolute paths: settling it again is accepted and answers the very same request, and
after a narrowing it is one for a single absolute path that asks for everything else as before. Where nothing
has been checked yet, settling is refused as an error of the configuration for exactly the four reasons, and
otherwise changes only whether to stop early and whether to bundle. -/
theorem made_stays_settled (options : Request) (typed : options.IsTyped) :
    (∀ development format made request, create development format options = .ok made →
      ReflTransGen Step made request →
      request.normalized = .ok request ∧ request.IsSettled ∧
      ∀ tree path narrowed last, path.isAbsolute → request.forPath tree path = .ok narrowed →
        ReflTransGen Step narrowed last → IsNarrowed request last) ∧
    ((∃ error, options.normalized = .error (.configuration error)) ↔ options.IsRefused) ∧
    (¬ options.IsRefused → options.normalized =
      .ok { options with
        runtimeOnly := options.runtimeOnly || options.isDevelopment
        bundle := options.bundle || options.standalone }) := by
  refine ⟨fun development format made request told steps => ?_, normalized_eq_error_iff typed,
    normalized_of_not_isRefused typed⟩
  obtain ⟨linkage, -, accepted⟩ := exists_of_bind_eq_ok told
  have isSettled : request.IsSettled := by
    refine IsSettled.steps (isSettled_of_normalized ?_ accepted) steps
    exact ⟨typed.input, typed.stdinFile, typed.target, typed.tsconfig, typed.styles, typed.external⟩
  refine ⟨isSettled.normalized_eq, isSettled, fun tree path narrowed last absolute found later => ?_⟩
  exact (isNarrowed_of_forPath found).steps (isSettled.step (.narrow tree absolute found)) later

/-- The text of a module, to be compiled for development without being written, and bundled alone. -/
def pageOptions : Request :=
  { literalSource := some "let page", stdinFile := some (.proper "src/page.ts"), noWrite := true, standalone := true }

/-- A tree with that module. -/
def pageTree : Tree := ⟨[(["p"], .directory), (["p", "page.ts"], .file [] false)]⟩

/-- A request for the text is made, narrowed to the module and settled again; a request to leave files unwritten
is refused. -/
theorem made_stays_settled_of_page :
    ∃ made narrowed, create true (.proper "cjs") pageOptions = .ok made ∧ made.normalized = .ok made ∧
      made.forPath pageTree ⟨.root, ["p", "page.ts"]⟩ = .ok narrowed ∧
      narrowed.normalized = .ok narrowed ∧ IsNarrowed made narrowed ∧
      narrowed.input = .proper "/p/page.ts" ∧ narrowed.runtimeOnly ∧ narrowed.bundle ∧
      ∃ error, ({ noWrite := true } : Request).normalized = .error (.configuration error) := by
  have typed : pageOptions.IsTyped :=
    ⟨⟨_, rfl⟩, fun _ given => ⟨_, (Option.some.inj given).symm⟩, ⟨_, rfl⟩, ⟨_, rfl⟩, ⟨_, rfl⟩, ⟨_, rfl⟩⟩
  have unwritten : ({ noWrite := true } : Request).IsTyped :=
    ⟨⟨_, rfl⟩, nofun, ⟨_, rfl⟩, ⟨_, rfl⟩, ⟨_, rfl⟩, ⟨_, rfl⟩⟩
  let made : Request :=
    { pageOptions with format := .cjs, mode := .development, runtimeOnly := true, bundle := true }
  have told : create true (.proper "cjs") pageOptions = .ok made := rfl
  have resolved : Sources.resolvePath pageTree ⟨.root, ["p", "page.ts"]⟩ = .ok ⟨.root, ["p", "page.ts"]⟩ :=
    ok_of_toOption (by decide +kernel)
  have found : made.forPath pageTree ⟨.root, ["p", "page.ts"]⟩ =
      .ok (made.forFile ⟨.root, ["p", "page.ts"]⟩) := by
    rw [forPath, resolved]
    rfl
  have absolute : Path.isAbsolute ⟨.root, ["p", "page.ts"]⟩ := rfl
  obtain ⟨-, refused, -⟩ := made_stays_settled { noWrite := true } unwritten
  obtain ⟨lasting, -, -⟩ := made_stays_settled pageOptions typed
  obtain ⟨again, -, narrowing⟩ := lasting true (.proper "cjs") made made told .refl
  obtain ⟨later, -, -⟩ := lasting true (.proper "cjs") made _ told
    (.single (.narrow pageTree absolute found))
  exact ⟨made, _, told, again, found, later,
    narrowing pageTree _ _ _ absolute found .refl, rfl, rfl, rfl, refused.mpr (.unwritten rfl nofun)⟩

end TreeBuild.Request
