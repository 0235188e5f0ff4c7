import TreeBuild.Proofs.Build.Containment
import TreeBuild.Proofs.Watch.Acts

/-!
# Rebuilds of different sources

Events about different sources are handled at the same time, so their order is left open. It makes no
difference to the files unless the events meet in the output: they may have the same destination, one may
remove the descriptor that the other patches, or one may make a file appear or vanish where the
specifiers of the other's module look for it.
-/
namespace TreeBuild.Watch

open TreeBuild.Tree

/-! ### Acts in either order -/

section

variable {format : OutputFormat} {descriptor place other : Location} {start middle final : Contents}
  {act : Act} {bytes : Text.Bytes}

/-- An act has one outcome. -/
theorem Act.Takes.unique (first : act.Takes format descriptor place start middle)
    (second : act.Takes format descriptor place start final) : middle = final := by
  cases act with
  | removes => exact Eq.trans first (Eq.symm second)
  | makes bytes =>
    obtain ⟨patched, patches, rfl⟩ := first
    obtain ⟨again, patchesAgain, rfl⟩ := second
    rw [patches.unique patchesAgain]
  | nothing => exact Eq.trans first (Eq.symm second)

/-- A removal and the making of a product can be done in either order, unless what is removed is the
descriptor. -/
theorem Act.removes_makes (apart : place ≠ other) (keeps : place ≠ descriptor) {reversed : Contents}
    (removes : Act.removes.Takes format descriptor place start middle)
    (makes : (Act.makes bytes).Takes format descriptor other middle final)
    (makesFirst : (Act.makes bytes).Takes format descriptor other start reversed) :
    Act.removes.Takes format descriptor place reversed final := by
  obtain ⟨patched, patches, rfl⟩ := makes
  obtain ⟨again, patchesAgain, rfl⟩ := makesFirst
  cases removes
  rw [Function.update_comm apart, Function.update_of_ne keeps.symm] at patches
  rw [patches.unique patchesAgain, Function.update_comm apart, Function.update_comm keeps]
  rfl

/-- Two products can be made in either order: the descriptor is patched once. -/
theorem Act.makes_makes (apart : place ≠ other) {one two : Text.Bytes} {late reversed : Contents}
    (first : (Act.makes one).Takes format descriptor place start middle)
    (second : (Act.makes two).Takes format descriptor other middle final)
    (secondFirst : (Act.makes two).Takes format descriptor other start late)
    (firstSecond : (Act.makes one).Takes format descriptor place late reversed) : final = reversed := by
  obtain ⟨early, patchesEarly, rfl⟩ := first
  obtain ⟨patched, patches, rfl⟩ := second
  obtain ⟨lateEarly, patchesLateEarly, rfl⟩ := secondFirst
  obtain ⟨again, patchesAgain, rfl⟩ := firstSecond
  have same : patched = again := by
    by_cases atPlace : descriptor = place
    · subst atPlace
      rw [Function.update_of_ne apart, Function.update_self] at patches
      rw [Function.update_self] at patchesEarly patchesAgain
      rw [patchesEarly.again patches, patchesEarly.unique patchesAgain]
    by_cases atOther : descriptor = other
    · subst atOther
      rw [Function.update_self] at patches patchesLateEarly
      rw [Function.update_of_ne apart.symm, Function.update_self] at patchesAgain
      rw [patchesLateEarly.again patchesAgain, patchesLateEarly.unique patches]
    · rw [Function.update_of_ne atOther, Function.update_self] at patches
      rw [Function.update_of_ne atPlace, Function.update_self] at patchesAgain
      rw [Function.update_of_ne atPlace] at patchesEarly
      rw [Function.update_of_ne atOther] at patchesLateEarly
      rw [patchesEarly.again patches, patchesLateEarly.again patchesAgain,
        patchesEarly.unique patchesLateEarly]
  funext location
  by_cases atDescriptor : location = descriptor
  · rw [atDescriptor, Function.update_self, Function.update_self, same]
  · simp only [Function.update_of_ne atDescriptor, Function.update_apply]
    by_cases atPlace : location = place
    · simp [atPlace, apart]
    · simp [atPlace]

/-- Acts at different places can be done in either order, unless one removes the descriptor. -/
theorem Act.commutes {one two : Act} (apart : place ≠ other)
    (keepsFirst : one = .removes → place ≠ descriptor) (keepsSecond : two = .removes → other ≠ descriptor)
    {late reversed : Contents} (first : one.Takes format descriptor place start middle)
    (second : two.Takes format descriptor other middle final)
    (secondFirst : two.Takes format descriptor other start late)
    (firstSecond : one.Takes format descriptor place late reversed) : final = reversed := by
  cases one with
  | nothing =>
    cases first
    cases firstSecond
    exact second.unique secondFirst
  | removes =>
    cases two with
    | nothing =>
      cases second
      cases secondFirst
      exact first.unique firstSecond
    | removes =>
      cases first
      cases second
      cases secondFirst
      cases firstSecond
      exact Function.update_comm apart _ _ _
    | makes bytes =>
      exact (Act.removes_makes apart (keepsFirst rfl) first second secondFirst).unique firstSecond
  | makes bytes =>
    cases two with
    | nothing =>
      cases second
      cases secondFirst
      exact first.unique firstSecond
    | removes =>
      exact second.unique (Act.removes_makes apart.symm (keepsSecond rfl) secondFirst firstSecond first)
    | makes more => exact Act.makes_makes apart first second secondFirst firstSecond

end

/-! ### Events in either order -/

/-- Events do not meet in the output: they lead to different places, neither removes the descriptor, and
handling one of them makes no file appear or vanish where the module of the other's source looks for files. -/
structure Apart (tools : Toolchain) (layout : Layout) (request : Request) (first second : WatchEvent)
    (before afterFirst afterSecond : Tree) : Prop where
  places : (layout.destination first.path).parts ≠ (layout.destination second.path).parts
  keepsFirst : first.kind = .removed →
    (layout.destination first.path).parts ≠ layout.outputDescriptor.parts
  keepsSecond : second.kind = .removed →
    (layout.destination second.path).parts ≠ layout.outputDescriptor.parts
  unseenBySecond : ∀ path, Consults tools layout request before second.path path →
    (before.contentAt? path.parts).isSome = (afterFirst.contentAt? path.parts).isSome
  unseenByFirst : ∀ path, Consults tools layout request before first.path path →
    (before.contentAt? path.parts).isSome = (afterSecond.contentAt? path.parts).isSome

section

variable {tools : Toolchain} {emit : CompilerOptions → Path → Text.Bytes → Text.Bytes} {root : Path}
  {request : Request} {event first second : WatchEvent}
  {before after afterFirst afterSecond both reversed : Session}

/-- An event calls for a removal only if its source has been removed. -/
theorem Demands.kind {layout : Layout} {rewrites : Bool} {tree : Tree} {act : Act}
    (demands : Demands tools layout request rewrites event tree act) (removes : act = .removes) :
    event.kind = .removed := by
  cases demands with
  | removes gone => exact gone
  | makes => cases removes
  | nothing => cases removes

/-- Handling an event changes nothing that matters to the other event, if the other's module does not look
for what appears or vanishes. -/
theorem agree_of_unseen (setting : Setting tools root request)
    (watched : IsWatched (Layout.ofRoot root) event) {source : Path}
    (place : IsPlace (Layout.ofRoot root) source) {act : Act}
    (takes : act.Takes request.format (Layout.ofRoot root).outputDescriptor.parts
      ((Layout.ofRoot root).destination event.path).parts before.tree.contentAt? after.tree.contentAt?)
    (unseen : ∀ path, Consults tools (Layout.ofRoot root) request before.tree source path →
      (before.tree.contentAt? path.parts).isSome = (after.tree.contentAt? path.parts).isSome) :
    Agree tools (Layout.ofRoot root) request source before.tree after.tree := by
  have inside := watched.place.destination_within setting.placed
  have descriptorInside := output_prefix_descriptor (Layout.ofRoot root)
  constructor
  · exact (takes.outside inside descriptorInside place.outside).symm
  · exact (takes.outside inside descriptorInside (Layout.descriptor_outside root)).symm
  · exact unseen

/-- Events that do not meet in the output can be handled in either order. -/
theorem handle_commutes (setting : Setting tools root request)
    (makes : tools.MakesBy (Layout.ofRoot root) emit) (ready : Ready root before)
    (watchedFirst : IsWatched (Layout.ofRoot root) first)
    (watchedSecond : IsWatched (Layout.ofRoot root) second)
    (one : Succeeds tools request (Layout.ofRoot root) first before afterFirst)
    (oneTwo : Succeeds tools request (Layout.ofRoot root) second afterFirst both)
    (two : Succeeds tools request (Layout.ofRoot root) second before afterSecond)
    (twoOne : Succeeds tools request (Layout.ofRoot root) first afterSecond reversed)
    (apart : Apart tools (Layout.ofRoot root) request first second before.tree afterFirst.tree
      afterSecond.tree) : both.tree.contentAt? = reversed.tree.contentAt? := by
  obtain ⟨readyFirst, -, environmentFirst, act, demands, takes⟩ := one.acts setting ready watchedFirst
  obtain ⟨readySecond, -, environmentSecond, other, demandsOther, takesOther⟩ :=
    two.acts setting ready watchedSecond
  obtain ⟨-, -, -, otherLate, demandsOtherLate, takesOtherLate⟩ :=
    oneTwo.acts setting readyFirst watchedSecond
  obtain ⟨-, -, -, actLate, demandsLate, takesLate⟩ := twoOne.acts setting readySecond watchedFirst
  rw [environmentFirst] at demandsOtherLate
  rw [environmentSecond] at demandsLate
  -- Whichever event is handled first, each of them calls for the same act.
  have plain (event : WatchEvent) (watched : IsWatched (Layout.ofRoot root) event) :=
    Layout.destination_isPlain setting.placed watched.place.absolute watched.place.plain
  have absolute (event : WatchEvent) (watched : IsWatched (Layout.ofRoot root) event) :=
    Layout.destination_isAbsolute setting.placed watched.place.absolute watched.place.plain.proper
  have sameOther : other = otherLate := demandsOther.unique makes (absolute second watchedSecond)
    (plain second watchedSecond).proper
    (agree_of_unseen setting watchedFirst watchedSecond.place takes apart.unseenBySecond) demandsOtherLate
  have sameAct : act = actLate := demands.unique makes (absolute first watchedFirst)
    (plain first watchedFirst).proper
    (agree_of_unseen setting watchedSecond watchedFirst.place takesOther apart.unseenByFirst) demandsLate
  subst sameOther
  subst sameAct
  exact Act.commutes apart.places (fun removes => apart.keepsFirst (demands.kind removes))
    (fun removes => apart.keepsSecond (demandsOther.kind removes)) takes takesOtherLate takesOther takesLate

end

/-! ### A project with one module left -/

/-- A project with one module, which imports another one. The sources of this and of a third module have
just been removed, while their products are still there. -/
def watchSession : Session where
  tree := ⟨[(["p"], .directory), (["p", "src"], .directory),
    (["p", "src", "a.ts"], .file (Text.Utf8.encode "import './b'") false), (["p", "dist"], .directory),
    (["p", "dist", "b.js"], .file [] false), (["p", "dist", "c.js"], .file [] false), (["t"], .directory)]⟩
  environment := []
  directory := ⟨.root, ["p"]⟩
  temporary := ⟨.root, ["t"]⟩
  clock := 1

/-- A request for development. -/
def watchRequest : Request := { mode := .development }

/-- An event about a source file of the project. -/
def sourceEvent (name : String) (kind : EventKind) : WatchEvent := { path := ⟨.root, ["p", "src", name]⟩, kind }

/-- The session after an event that has been handled without an error in the log. -/
def afterwards? (event : WatchEvent) (session : Session) : Option Session :=
  match handle Build.plainCompiler.toolchain event watchRequest (.ofRoot ⟨.root, ["p"]⟩) session with
  | (.ok (), after) => if after.journal.all (·.level ≠ .error) then some after else none
  | (.error _, _) => none

/-- What comes afterwards has come by handling the event with success. -/
theorem succeeds_of_afterwards {event : WatchEvent} {before after : Session}
    (ended : afterwards? event before = some after) :
    Succeeds Build.plainCompiler.toolchain watchRequest (.ofRoot ⟨.root, ["p"]⟩) event before after := by
  unfold afterwards? at ended
  split at ended
  · rename_i final handled
    split at ended
    · rename_i clean
      cases ended
      exact .of_clean handled clean
    · cases ended
  · cases ended

/-- The watched project and its request are a setting. -/
theorem watchSetting : Setting Build.plainCompiler.toolchain ⟨.root, ["p"]⟩ watchRequest where
  writes := Build.plainCompiler.toolchain_writesTargets _
  rooted := rfl
  plain := by decide
  development := rfl

/-- The toolchain makes each output from its source alone. -/
theorem watchSetting_makes : Build.plainCompiler.toolchain.MakesBy (.ofRoot ⟨.root, ["p"]⟩)
    fun _ => Build.plainCompiler.emitted :=
  Build.plainCompiler.toolchain_makesBy (Layout.isPlaced_ofRoot rfl (by decide)).1

/-- The watched project is ready for events. -/
theorem watchSession_ready : Ready ⟨.root, ["p"]⟩ watchSession where
  regular := isRegular_of_entries (by decide +kernel)
  plainTemporary := by decide
  outside := by decide +kernel
  free clock := by
    refine contentAt?_eq_none_of_none (Option.eq_none_iff_forall_not_mem.mpr fun entry present => ?_)
    have inside : (Configuration.copyPath watchSession.temporary clock).parts ≠ [] := by
      simp [Configuration.copyPath_eq]
    have member := mem_entries_of_get? present inside
    simp [watchSession, Configuration.copyPath_eq] at member

/-- An event of one of the three sources is watched. -/
theorem watched_sourceEvent (kind : EventKind) {name : String} (member : name ∈ ["a.ts", "b.ts", "c.ts"]) :
    IsWatched (.ofRoot ⟨.root, ["p"]⟩) (sourceEvent name kind) := by
  have places : ∀ name ∈ ["a.ts", "b.ts", "c.ts"], (Path.mk .root ["p", "src", name]).IsPlain ∧
      Glob.hasMagic (Path.mk .root ["p", "src", name]).toString = false ∧
      ¬ (Layout.ofRoot ⟨.root, ["p"]⟩).output.parts <+: ["p", "src", name] := by decide +kernel
  obtain ⟨plain, literal, outside⟩ := places name member
  exact ⟨⟨rfl, plain, List.cons_ne_nil _ _, literal, outside⟩, rfl⟩

/-- The module looks for the second module only. -/
theorem consults_second {path : Path} (consults : Consults Build.plainCompiler.toolchain
    (.ofRoot ⟨.root, ["p"]⟩) watchRequest watchSession.tree (sourceEvent "a.ts" .modified).path path) :
    path ∈ [Path.mk .root ["p", "dist", "b"], Path.mk .root ["p", "dist", "b.js"],
      Path.mk .root ["p", "dist", "b", "index.js"]] := by
  obtain ⟨copy, options, content, raw, -, held, made, member⟩ := consults
  have known : content = Text.Utf8.encode "import './b'" := (Option.some.inj held).symm
  have isRaw : raw = Text.Utf8.encode "import './b'" := by
    rw [watchSetting_makes _ _ _ _ made, known]
    exact (by decide +kernel : Build.plainCompiler.emitted ⟨.root, ["p", "src", "a.ts"]⟩
      (Text.Utf8.encode "import './b'") = Text.Utf8.encode "import './b'")
  rw [isRaw] at member
  have all : Build.consulted ((Layout.ofRoot ⟨.root, ["p"]⟩).destination (sourceEvent "a.ts" .modified).path)
      (Text.Utf8.encode "import './b'") = [Path.mk .root ["p", "dist", "b"],
        Path.mk .root ["p", "dist", "b.js"], Path.mk .root ["p", "dist", "b", "index.js"]] := by decide +kernel
  exact all ▸ member

/-- What the change of the module and the removal of another source lead to in either order: of the third one,
which spares all that the module looks for, and of the one that it imports. The events of both cases begin with
the same rebuild, so they are evaluated together. -/
theorem afterwards_evaluated :
    ((afterwards? (sourceEvent "a.ts" .modified) watchSession).bind
      (afterwards? (sourceEvent "c.ts" .removed))).isSome ∧
    ((afterwards? (sourceEvent "c.ts" .removed) watchSession).bind fun after =>
      if ∀ path ∈ [Path.mk .root ["p", "dist", "b"], Path.mk .root ["p", "dist", "b.js"],
          Path.mk .root ["p", "dist", "b", "index.js"]],
          (watchSession.tree.contentAt? path.parts).isSome = (after.tree.contentAt? path.parts).isSome
      then afterwards? (sourceEvent "a.ts" .modified) after else none).isSome ∧
    (((afterwards? (sourceEvent "a.ts" .modified) watchSession).bind
      (afterwards? (sourceEvent "b.ts" .removed))).map (·.tree.contentAt? ["p", "dist", "a.js"])) =
        some (some (Text.Utf8.encode "import './b.js'")) ∧
    (((afterwards? (sourceEvent "b.ts" .removed) watchSession).bind
      (afterwards? (sourceEvent "a.ts" .modified))).map (·.tree.contentAt? ["p", "dist", "a.js"])) =
        some (some (Text.Utf8.encode "import './b'")) := by decide +kernel

/-- The module is built again, and the product of the third one is removed, in either order. -/
theorem handle_commutes_of_third : ∃ afterFirst both afterSecond reversed,
    afterwards? (sourceEvent "a.ts" .modified) watchSession = some afterFirst ∧
    afterwards? (sourceEvent "c.ts" .removed) afterFirst = some both ∧
    afterwards? (sourceEvent "c.ts" .removed) watchSession = some afterSecond ∧
    afterwards? (sourceEvent "a.ts" .modified) afterSecond = some reversed ∧
    both.tree.contentAt? = reversed.tree.contentAt? := by
  obtain ⟨late, early, -, -⟩ := afterwards_evaluated
  obtain ⟨both, ended⟩ := Option.isSome_iff_exists.mp late
  obtain ⟨afterFirst, first, second⟩ := Option.bind_eq_some_iff.mp ended
  obtain ⟨reversed, endedReversed⟩ := Option.isSome_iff_exists.mp early
  obtain ⟨afterSecond, secondFirst, checked⟩ := Option.bind_eq_some_iff.mp endedReversed
  split at checked
  · rename_i same
    refine ⟨afterFirst, both, afterSecond, reversed, first, second, secondFirst, checked, ?_⟩
    refine handle_commutes watchSetting watchSetting_makes watchSession_ready (watched_sourceEvent _ (by simp))
      (watched_sourceEvent _ (by simp)) (succeeds_of_afterwards first) (succeeds_of_afterwards second)
      (succeeds_of_afterwards secondFirst) (succeeds_of_afterwards checked) ?_
    constructor
    · decide +kernel
    · intro removed
      cases removed
    · intro _
      decide +kernel
    · rintro path ⟨_, _, content, _, _, held, _⟩
      have gone : watchSession.tree.contentAt? (sourceEvent "c.ts" .removed).path.parts = none := by
        decide +kernel
      rw [gone] at held
      cases held
    · intro path consults
      exact same path (consults_second consults)
  · cases checked

/-- When the module is built again, what it imports is resolved if the product of that is still there: the
order of a change of the module and of the removal of what it imports shows in the output. -/
theorem handle_depends_on_order :
    Setting Build.plainCompiler.toolchain ⟨.root, ["p"]⟩ watchRequest ∧
    Build.plainCompiler.toolchain.MakesBy (.ofRoot ⟨.root, ["p"]⟩) (fun _ => Build.plainCompiler.emitted) ∧
    Ready ⟨.root, ["p"]⟩ watchSession ∧
    IsWatched (.ofRoot ⟨.root, ["p"]⟩) (sourceEvent "a.ts" .modified) ∧
    IsWatched (.ofRoot ⟨.root, ["p"]⟩) (sourceEvent "b.ts" .removed) ∧
    ∃ afterFirst both afterSecond reversed,
      Succeeds Build.plainCompiler.toolchain watchRequest (.ofRoot ⟨.root, ["p"]⟩)
        (sourceEvent "a.ts" .modified) watchSession afterFirst ∧
      Succeeds Build.plainCompiler.toolchain watchRequest (.ofRoot ⟨.root, ["p"]⟩)
        (sourceEvent "b.ts" .removed) afterFirst both ∧
      Succeeds Build.plainCompiler.toolchain watchRequest (.ofRoot ⟨.root, ["p"]⟩)
        (sourceEvent "b.ts" .removed) watchSession afterSecond ∧
      Succeeds Build.plainCompiler.toolchain watchRequest (.ofRoot ⟨.root, ["p"]⟩)
        (sourceEvent "a.ts" .modified) afterSecond reversed ∧
      both.tree.contentAt? ["p", "dist", "a.js"] = some (Text.Utf8.encode "import './b.js'") ∧
      reversed.tree.contentAt? ["p", "dist", "a.js"] = some (Text.Utf8.encode "import './b'") := by
  obtain ⟨-, -, late, early⟩ := afterwards_evaluated
  obtain ⟨both, ended, content⟩ := Option.map_eq_some_iff.mp late
  obtain ⟨afterFirst, first, second⟩ := Option.bind_eq_some_iff.mp ended
  obtain ⟨reversed, endedReversed, contentReversed⟩ := Option.map_eq_some_iff.mp early
  obtain ⟨afterSecond, secondFirst, firstSecond⟩ := Option.bind_eq_some_iff.mp endedReversed
  exact ⟨watchSetting, watchSetting_makes, watchSession_ready, watched_sourceEvent _ (by simp),
    watched_sourceEvent _ (by simp), afterFirst, both, afterSecond, reversed, succeeds_of_afterwards first,
    succeeds_of_afterwards second, succeeds_of_afterwards secondFirst, succeeds_of_afterwards firstSecond,
    content, contentReversed⟩

end TreeBuild.Watch
