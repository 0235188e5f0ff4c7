import TreeBuild.Proofs.Watch.Effect

/-!
# What an event calls for

What handling an event comes to is settled by a few things: what its source holds, what the descriptor of
the project holds, and whether there are files where the specifiers of its module look for them. To the
files, handling an event then does one thing at the destination of its source, and declares the linkage of
the output if something has been made.
-/
namespace TreeBuild

open TreeBuild.Tree

namespace Build

/-- The paths at which the specifiers of a module look for files. -/
def consulted (path : Path) (raw : Text.Bytes) : List Path :=
  match Text.Utf8.decode raw with
  | .error _ => []
  | .ok text =>
    (Specifier.relatives (String.ofList (Text.unifyLineEnds text.toList))).flatMap
      (Specifier.candidates path.parent)

section

variable {has other : Path → Bool} {path : Path} {raw bytes others : Text.Bytes}

/-- What becomes of a module is told by the files that are there when its specifiers are resolved. -/
theorem Rewritten.chooses (absolute : path.isAbsolute) (proper : path.IsProper)
    (rewritten : Rewritten has path raw bytes) : ∃ text, Text.Utf8.decode raw = .ok text ∧
      bytes = if (Specifier.chooseText has path.parent path.toString
          (String.ofList (Text.unifyLineEnds text.toList))).rewritten = 0 then raw
        else Text.Utf8.encode (Specifier.chooseText has path.parent path.toString
          (String.ofList (Text.unifyLineEnds text.toList))).text := by
  obtain ⟨tree, text, normalized, regular, holds, decoded, told, rfl⟩ := rewritten
  have absoluteParent : path.parent.isAbsolute := absolute
  have properParent : path.parent.IsProper := fun part member => proper part (List.dropLast_subset _ member)
  refine ⟨text, decoded, ?_⟩
  rw [Specifier.normalizeText_eq_chooseText regular absoluteParent properParent told, funext holds]

/-- The candidates of a module that is a text are those of its relative specifiers. -/
theorem mem_consulted {text : String} (decoded : Text.Utf8.decode raw = .ok text) {candidate : Path} :
    candidate ∈ consulted path raw ↔
      ∃ specifier ∈ Specifier.relatives (String.ofList (Text.unifyLineEnds text.toList)),
        candidate ∈ Specifier.candidates path.parent specifier := by
  rw [consulted, decoded]
  exact List.mem_flatMap

/-- What becomes of a module is settled by whether there are files where its specifiers look for them. -/
theorem Rewritten.unique (absolute : path.isAbsolute) (proper : path.IsProper)
    (same : ∀ candidate ∈ consulted path raw, has candidate = other candidate)
    (first : Rewritten has path raw bytes) (second : Rewritten other path raw others) : bytes = others := by
  obtain ⟨text, decoded, isFirst⟩ := first.chooses absolute proper
  obtain ⟨otherText, otherDecoded, isSecond⟩ := second.chooses absolute proper
  rw [decoded] at otherDecoded
  cases otherDecoded
  rw [isFirst, isSecond, Specifier.chooseText_congr fun specifier member => Specifier.choose_congr fun candidate found =>
    same candidate ((mem_consulted decoded).mpr ⟨specifier, member, found⟩)]

/-- Nothing becomes of a module because a file appears to which a specifier leads. -/
theorem Rewritten.unique_of_appears (absolute : path.isAbsolute) (proper : path.IsProper) {place : Path}
    (same : ∀ candidate ∈ consulted path raw, candidate ≠ place → has candidate = other candidate)
    (notModule : ∀ path, Specifier.sibling path ≠ place) (notIndex : ∀ path, Specifier.index path ≠ place)
    (seen : place ∈ consulted path raw → has place = other place ∨ Specifier.Appears has other place)
    (first : Rewritten has path raw bytes) (second : Rewritten other path raw others) : bytes = others := by
  obtain ⟨text, decoded, isFirst⟩ := first.chooses absolute proper
  obtain ⟨otherText, otherDecoded, isSecond⟩ := second.chooses absolute proper
  rw [decoded] at otherDecoded
  cases otherDecoded
  obtain ⟨sameText, sameCount⟩ := @Specifier.chooseText_keeps has other path.parent path.toString
    (String.ofList (Text.unifyLineEnds text.toList)) fun specifier member =>
      Specifier.choose_appears
        (fun candidate found => same candidate ((mem_consulted decoded).mpr ⟨specifier, member, found⟩))
        notModule notIndex fun found => seen ((mem_consulted decoded).mpr ⟨specifier, member, found⟩)
  rw [isFirst, isSecond, sameText, sameCount]

variable {tools : Toolchain} {layout : Layout} {emit : CompilerOptions → Path → Text.Bytes → Text.Bytes}
  {options more : CompilerOptions} {base start : Contents} {file : SourceFile} {rewrites : Bool}

/-- What a source leads to is settled by what it holds, by the options, and by what becomes of its module. -/
theorem Product.unique_of_rewritten (makes : tools.MakesBy layout emit)
    (first : Product tools layout options rewrites has base file bytes)
    (second : Product tools layout more rewrites other start file others)
    (sameOptions : { options with tsconfig := none } = { more with tsconfig := none })
    (sameSource : base file.path.parts = start file.path.parts)
    (same : ∀ content raw, base file.path.parts = some content →
      tools.Compiled layout options file.path content raw → ∀ bytes others,
        Rewritten has (layout.destination file.path) raw bytes →
        Rewritten other (layout.destination file.path) raw others → bytes = others) :
    bytes = others := by
  unfold Product at first second
  split at first
  · rename_i compiled
    rw [if_pos compiled] at second
    obtain ⟨raw, ⟨content, held, made⟩, becomes⟩ := first
    obtain ⟨rawAgain, ⟨contentAgain, heldAgain, madeAgain⟩, becomesAgain⟩ := second
    have isContent : contentAgain = content := by
      rw [← sameSource, held] at heldAgain
      exact (Option.some.inj heldAgain).symm
    subst isContent
    have isRaw : rawAgain = raw := by
      rw [makes _ _ _ _ made, makes _ _ _ _ madeAgain, sameOptions]
    subst isRaw
    cases rewrites with
    | false => exact becomes.trans becomesAgain.symm
    | true => exact same _ _ held made _ _ becomes becomesAgain
  · rename_i asset
    rw [if_neg asset] at second
    rw [sameSource, second] at first
    exact (Option.some.inj first).symm

/-- What a source leads to is settled by what it holds, by the options, and by whether there are files where
the specifiers of its module look for them. -/
theorem Product.unique (makes : tools.MakesBy layout emit)
    (first : Product tools layout options rewrites has base file bytes)
    (second : Product tools layout more rewrites other start file others)
    (absolute : (layout.destination file.path).isAbsolute) (proper : (layout.destination file.path).IsProper)
    (sameOptions : { options with tsconfig := none } = { more with tsconfig := none })
    (sameSource : base file.path.parts = start file.path.parts)
    (same : ∀ content raw, base file.path.parts = some content →
      tools.Compiled layout options file.path content raw →
      ∀ candidate ∈ consulted (layout.destination file.path) raw, has candidate = other candidate) :
    bytes = others :=
  first.unique_of_rewritten makes second sameOptions sameSource fun _ _ held made _ _ =>
    Rewritten.unique absolute proper (same _ _ held made)

end

end Build

namespace Watch

/-- What handling an event does to the files. -/
inductive Act where
  /-- The product of the source is removed. -/
  | removes
  /-- The product of the source is made, with this content. -/
  | makes (bytes : Text.Bytes)
  /-- Nothing is done. -/
  | nothing

/-- How an act changes what files hold: it concerns one place, and if something is made there, the
descriptor of the output is patched. -/
def Act.Takes (format : OutputFormat) (descriptor place : Location) (before after : Contents) : Act → Prop
  | .removes => after = Function.update before place none
  | .makes bytes => ∃ patched,
      Output.Patches format (Function.update before place (some bytes) descriptor) patched ∧
      after = Function.update (Function.update before place (some bytes)) descriptor patched
  | .nothing => after = before

/-- What an event calls for in a tree. -/
inductive Demands (tools : Toolchain) (layout : Layout) (request : Request) (rewrites : Bool)
    (event : WatchEvent) (tree : Tree) : Act → Prop where
  | removes (gone : event.kind = .removed) (emitted : Dialect.ofPath event.path ≠ .declaration) :
      Demands tools layout request rewrites event tree .removes
  | makes {bytes : Text.Bytes} (copy : Path) (options : CompilerOptions) (there : event.kind ≠ .removed)
      (emitted : Dialect.ofPath event.path ≠ .declaration) (held : tree.holdsFile event.path = true)
      (chosen : CompilerOptions.Chosen (request.forFile event.path).settled
        (tree.contentAt? layout.descriptor.parts) (some copy) options)
      (product : Build.Product tools layout options rewrites
        (Build.standing layout [SourceFile.ofPath layout event.path] tree.contentAt?) tree.contentAt?
        (SourceFile.ofPath layout event.path) bytes)
      (fits : (layout.destination event.path).Fits) :
      Demands tools layout request rewrites event tree (.makes bytes)
  | nothing (reason : Dialect.ofPath event.path = .declaration ∨
        event.kind ≠ .removed ∧ tree.holdsFile event.path = false) :
      Demands tools layout request rewrites event tree .nothing

/-- Whether the module of a source looks for a file at a path. -/
def Consults (tools : Toolchain) (layout : Layout) (request : Request) (tree : Tree) (source path : Path) :
    Prop :=
  ∃ copy options content raw, CompilerOptions.Chosen (request.forFile source).settled
      (tree.contentAt? layout.descriptor.parts) (some copy) options ∧
    tree.contentAt? source.parts = some content ∧ tools.Compiled layout options source content raw ∧
    path ∈ Build.consulted (layout.destination source) raw

/-- Trees that are the same as far as an event about this source matters. -/
structure Agree (tools : Toolchain) (layout : Layout) (request : Request) (source : Path)
    (tree other : Tree) : Prop where
  same : tree.contentAt? source.parts = other.contentAt? source.parts
  descriptor : tree.contentAt? layout.descriptor.parts = other.contentAt? layout.descriptor.parts
  consulted : ∀ path, Consults tools layout request tree source path →
    (tree.contentAt? path.parts).isSome = (other.contentAt? path.parts).isSome

section

variable {tools : Toolchain} {layout : Layout} {request : Request} {rewrites : Bool} {event : WatchEvent}
  {tree other before after : Tree} {act another : Act} {temporary : Path}
  {emit : CompilerOptions → Path → Text.Bytes → Text.Bytes}

/-- An event calls for one thing in trees that are the same as far as it matters. -/
theorem Demands.unique (makes : tools.MakesBy layout emit)
    (absolute : (layout.destination event.path).isAbsolute)
    (proper : (layout.destination event.path).IsProper)
    (agree : Agree tools layout request event.path tree other)
    (first : Demands tools layout request rewrites event tree act)
    (second : Demands tools layout request rewrites event other another) : act = another := by
  have held : tree.holdsFile event.path = other.holdsFile event.path := by
    rw [holdsFile, holdsFile, agree.same]
  cases first with
  | removes gone emitted =>
    cases second with
    | removes => rfl
    | makes _ _ there => exact absurd gone there
    | nothing reason => exact absurd reason (by simp [gone, emitted])
  | nothing reason =>
    cases second with
    | removes gone emitted => exact absurd reason (by simp [gone, emitted])
    | makes _ _ _ emitted present => exact absurd reason (by simp [emitted, held, present])
    | nothing => rfl
  | makes copy options there emitted present chosen product =>
    cases second with
    | removes gone => exact absurd gone there
    | nothing reason => exact absurd reason (by simp [emitted, ← held, present])
    | makes _ more _ _ _ chosenAgain productAgain =>
      have sameOptions : { options with tsconfig := none } = { more with tsconfig := none } := by
        rw [← agree.descriptor] at chosenAgain
        exact chosen.unique chosenAgain
      have consults (content raw : Text.Bytes) (known : tree.contentAt? event.path.parts = some content)
          (made : tools.Compiled layout options event.path content raw) :
          ∀ candidate ∈ Build.consulted (layout.destination event.path) raw,
            Build.standing layout [SourceFile.ofPath layout event.path] tree.contentAt? candidate =
              Build.standing layout [SourceFile.ofPath layout event.path] other.contentAt? candidate := by
        intro candidate found
        simp only [Build.standing,
          agree.consulted candidate ⟨copy, options, content, raw, chosen, known, made, found⟩]
      exact congrArg Act.makes
        (product.unique makes productAgain absolute proper sameOptions agree.same consults)

/-- A file is there once it has been made, whether or not there was one before. -/
theorem standing_vacated (layout : Layout) (file : SourceFile) (base : Contents) :
    Build.standing layout [file] (Function.update base (Build.placeOf layout file) none) =
      Build.standing layout [file] base := by
  funext path
  by_cases here : path.parts = Build.placeOf layout file
  · simp [Build.standing, here]
  · simp [Build.standing, Function.update_of_ne here]

/-- Handling an event does what the event calls for. -/
theorem Effect.acts (free : ∀ clock, before.contentAt? (Configuration.copyPath temporary clock).parts = none)
    (effect : Effect tools layout request rewrites temporary event before after) :
    after.IsRegular ∧ ∃ act, Demands tools layout request rewrites event before act ∧
      act.Takes request.format layout.outputDescriptor.parts (layout.destination event.path).parts
        before.contentAt? after.contentAt? := by
  cases effect with
  | removed gone emitted regular contents => exact ⟨regular, .removes, .removes gone emitted, contents⟩
  | ignored reason regular contents => exact ⟨regular, .nothing, .nothing reason, contents⟩
  | rebuilt clock there emitted held rebuilt =>
    obtain ⟨options, bytes, patched, chosen, product, patches, contents⟩ := rebuilt.product
    have isFree := free clock
    have noCopy : Function.update before.contentAt? (Configuration.copyPath temporary clock).parts none =
        before.contentAt? := Function.update_eq_self_iff.mpr isFree.symm
    have stillNone : Function.update (Function.update before.contentAt? (layout.destination event.path).parts
        none) (Configuration.copyPath temporary clock).parts none =
          Function.update before.contentAt? (layout.destination event.path).parts none := by
      refine Function.update_eq_self_iff.mpr ?_
      rw [Function.update_apply, isFree, ite_self]
    have vacated := standing_vacated layout (SourceFile.ofPath layout event.path) before.contentAt?
    simp only [Build.placeOf, SourceFile.path_ofPath] at vacated
    simp only [noCopy] at patches contents
    simp only [stillNone, vacated] at product
    exact ⟨rebuilt.regular, .makes bytes, .makes _ options there emitted held chosen product rebuilt.fits,
      patched, patches, contents⟩

/-- An act changes nothing outside of its place and of the descriptor. -/
theorem Act.Takes.elsewhere {format : OutputFormat} {descriptor place location : Location}
    {start final : Contents} (takes : act.Takes format descriptor place start final)
    (notPlace : location ≠ place) (notDescriptor : location ≠ descriptor) : final location = start location := by
  cases act with
  | removes => rw [show final = _ from takes, Function.update_of_ne notPlace]
  | makes bytes =>
    obtain ⟨patched, -, same⟩ := takes
    rw [same, Function.update_of_ne notDescriptor, Function.update_of_ne notPlace]
  | nothing => rw [show final = start from takes]

/-- What lies in the output differs from what does not. -/
theorem ne_of_outside {top inside outside : Location} (front : top <+: inside) (away : ¬ top <+: outside) :
    outside ≠ inside := by
  rintro rfl
  exact away front

/-- An act in the output changes nothing outside of the output. -/
theorem Act.Takes.outside {format : OutputFormat} {descriptor place location top : Location}
    {start final : Contents} (takes : act.Takes format descriptor place start final) (inside : top <+: place)
    (descriptorInside : top <+: descriptor) (away : ¬ top <+: location) : final location = start location :=
  takes.elsewhere (ne_of_outside inside away) (ne_of_outside descriptorInside away)

end

/-- A project whose sources are watched while it is developed. -/
structure Setting (tools : Toolchain) (root : Path) (request : Request) : Prop where
  writes : tools.WritesTargets (Layout.ofRoot root)
  rooted : root.anchor = .root
  plain : root.IsPlain
  development : request.isDevelopment

/-- A session in which the sources of a project can be built: there are no links, and the copies of the
compiler configuration go to places outside of the output at which there are no files. -/
structure Ready (root : Path) (session : Session) : Prop where
  regular : session.tree.IsRegular
  plainTemporary : session.temporary.IsPlain
  outside : ¬ (Layout.ofRoot root).output.parts <+: session.temporary.parts
  free : ∀ clock, session.tree.contentAt? (Configuration.copyPath session.temporary clock).parts = none

/-- An event about a source file. -/
structure IsWatched (layout : Layout) (event : WatchEvent) : Prop where
  place : IsPlace layout event.path
  isFile : event.isDirectory = false

section

variable {tools : Toolchain} {root path : Path} {request : Request} {event : WatchEvent}
  {before after : Session}

/-- The project in a setting is placed. -/
theorem Setting.placed (setting : Setting tools root request) : (Layout.ofRoot root).IsPlaced :=
  (Layout.isPlaced_ofRoot (by simp [Path.isAbsolute, setting.rooted]) setting.plain).1

/-- A place is an absolute path. -/
theorem IsPlace.absolute {layout : Layout} (place : IsPlace layout path) : path.isAbsolute := by
  simp [Path.isAbsolute, place.rooted]

/-- The descriptor of the output lies in the output. -/
theorem output_prefix_descriptor (layout : Layout) :
    layout.output.parts <+: layout.outputDescriptor.parts := by
  change _ <+: (Output.descriptorOf layout.output).parts
  rw [Output.descriptorOf_eq]
  exact List.prefix_append _ _

/-- What a source leads to lies in the output. -/
theorem IsPlace.destination_within {layout : Layout} (place : IsPlace layout path) (placed : layout.IsPlaced) :
    layout.output.parts <+: (layout.destination path).parts := by
  obtain ⟨rest, same, -⟩ :=
    Layout.destination_eq placed Layout.saysOfParts_isName place.absolute place.plain
  rw [same]
  exact List.prefix_append _ _

/-- Copies of the configuration lie outside of a directory of the project if temporary files do. -/
theorem copyPath_outside {top : Location} {name : String} {temporary : Path}
    (other : name.toList.head? ≠ some 't') (away : ¬ top ++ [name] <+: temporary.parts) (clock : Nat) :
    ¬ top ++ [name] <+: (Configuration.copyPath temporary clock).parts := by
  rw [Configuration.copyPath_eq, List.prefix_concat_iff]
  rintro (whole | front)
  · have same : name = s!"tsconfig.{clock}.json" :=
      List.singleton_inj.mp (List.append_inj_right' whole rfl)
    rw [same, Configuration.toList_copyName] at other
    exact other rfl
  · exact away front

/-- Copies of the configuration lie outside of the output. -/
theorem Ready.copy_outside (ready : Ready root before) (clock : Nat) :
    ¬ (Layout.ofRoot root).output.parts <+: (Configuration.copyPath before.temporary clock).parts := by
  have dist : (Layout.ofRoot root).output.parts = root.parts ++ ["dist"] :=
    congrArg Path.parts (root.div_of_isPart ⟨by decide, by decide, by decide⟩)
  have away := ready.outside
  rw [dist] at away ⊢
  exact copyPath_outside (by decide) away clock

/-- The descriptor of the project is no product. -/
theorem IsPlace.descriptor_ne (place : IsPlace (Layout.ofRoot root) path)
    (placed : (Layout.ofRoot root).IsPlaced) :
    (Layout.ofRoot root).descriptor.parts ≠ ((Layout.ofRoot root).destination path).parts :=
  ne_of_outside (place.destination_within placed) (Layout.descriptor_outside root)

/-- What handling an event leaves behind is what the event calls for. -/
theorem Leaves.acts (leaves : Leaves tools (Layout.ofRoot root) request event before after)
    (placed : (Layout.ofRoot root).IsPlaced) (ready : Ready root before)
    (place : IsPlace (Layout.ofRoot root) event.path) :
    Ready root after ∧ after.temporary = before.temporary ∧ after.environment = before.environment ∧
      ∃ act, Demands tools (Layout.ofRoot root) request (!Tools.rewritesDisabled before.environment) event
          before.tree act ∧
        act.Takes request.format (Layout.ofRoot root).outputDescriptor.parts
          ((Layout.ofRoot root).destination event.path).parts before.tree.contentAt? after.tree.contentAt? := by
  have inside := place.destination_within placed
  obtain ⟨effect, temporary, environment⟩ := leaves
  obtain ⟨regular, act, demands, takes⟩ := effect.acts ready.free
  have stillReady : Ready root after := by
    constructor
    · exact regular
    · rw [temporary]
      exact ready.plainTemporary
    · rw [temporary]
      exact ready.outside
    · intro clock
      rw [temporary, takes.outside inside (output_prefix_descriptor _) (ready.copy_outside clock)]
      exact ready.free clock
  exact ⟨stillReady, temporary, environment, act, demands, takes⟩

/-- Handling an event without a failure does what the event calls for. -/
theorem Succeeds.acts (succeeds : Succeeds tools request (Layout.ofRoot root) event before after)
    (setting : Setting tools root request) (ready : Ready root before)
    (watched : IsWatched (Layout.ofRoot root) event) :
    Ready root after ∧ after.temporary = before.temporary ∧ after.environment = before.environment ∧
      ∃ act, Demands tools (Layout.ofRoot root) request (!Tools.rewritesDisabled before.environment) event
          before.tree act ∧
        act.Takes request.format (Layout.ofRoot root).outputDescriptor.parts
          ((Layout.ofRoot root).destination event.path).parts before.tree.contentAt? after.tree.contentAt? := by
  have stops : request.settled.runtimeOnly := by
    simp [Request.settled, setting.development]
  exact (succeeds.leaves setting.writes setting.placed watched.place
    (watched.place.descriptor_ne setting.placed) ready.plainTemporary ready.regular watched.isFile stops).acts
      setting.placed ready watched.place

end

end Watch

end TreeBuild
