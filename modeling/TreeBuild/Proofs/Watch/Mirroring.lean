import TreeBuild.Proofs.Watch.Acts

/-!
# Destinations that mirror their sources

A destination mirrors its source if it is there whenever the source is, and holds what was made of what the
source holds. Handling an event makes the destination of its source mirror it, as long as the event says
rightly whether the source is there, and leaves all other destinations as they were. An event that comes too
late may be wrong about its source; then nothing is said of the destination, and it takes another event to
put it right.
-/
namespace TreeBuild.Watch

open TreeBuild.Tree

/-- The destination of a source holds what is made of what the source holds, its specifiers resolved among
some files. -/
def Emitted (tools : Toolchain) (layout : Layout) (request : Request) (rewrites : Bool) (tree : Tree)
    (path : Path) : Prop :=
  ∃ (copy : Path) (options : CompilerOptions) (has : Path → Bool) (bytes : Text.Bytes),
    CompilerOptions.Chosen (request.forFile path).settled (tree.contentAt? layout.descriptor.parts) (some copy)
      options ∧
    Build.Product tools layout options rewrites has tree.contentAt? (SourceFile.ofPath layout path) bytes ∧
    tree.contentAt? (layout.destination path).parts = some bytes

/-- There is a file at the destination of a source if and only if there is one at the source, and it was
made of what the source holds. -/
structure Mirrored (tools : Toolchain) (layout : Layout) (request : Request) (rewrites : Bool) (tree : Tree)
    (path : Path) : Prop where
  present : tree.holdsFile (layout.destination path) = tree.holdsFile path
  emitted : tree.holdsFile path = true → Emitted tools layout request rewrites tree path

/-- An event says rightly whether there is a file at its source. -/
def IsTrue (tree : Tree) (event : WatchEvent) : Prop :=
  event.kind = .removed ↔ tree.holdsFile event.path = false

section

variable {tools : Toolchain} {root path : Path} {layout : Layout} {request : Request} {rewrites : Bool}
  {event : WatchEvent} {tree other : Tree} {before after : Session}

/-- Trees with the same content at a path hold a file there or not alike. -/
theorem holdsFile_congr (same : tree.contentAt? path.parts = other.contentAt? path.parts) :
    tree.holdsFile path = other.holdsFile path := by
  rw [holdsFile, holdsFile, same]

/-- What is made of a source depends on the source only, among all files that are there. -/
theorem product_congr {options : CompilerOptions} {has : Path → Bool} {base start : Contents}
    {file : SourceFile} {bytes : Text.Bytes} (same : base file.path.parts = start file.path.parts)
    (product : Build.Product tools layout options rewrites has base file bytes) :
    Build.Product tools layout options rewrites has start file bytes := by
  unfold Build.Product Build.Makes at product ⊢
  rw [← same]
  exact product

/-- Whether a destination mirrors its source depends on these two and the descriptor of the project. -/
theorem Mirrored.congr (mirrored : Mirrored tools layout request rewrites tree path)
    (source : tree.contentAt? path.parts = other.contentAt? path.parts)
    (destination : tree.contentAt? (layout.destination path).parts =
      other.contentAt? (layout.destination path).parts)
    (descriptor : tree.contentAt? layout.descriptor.parts = other.contentAt? layout.descriptor.parts) :
    Mirrored tools layout request rewrites other path := by
  constructor
  · rw [← holdsFile_congr source, ← holdsFile_congr destination]
    exact mirrored.present
  · intro held
    rw [← holdsFile_congr source] at held
    obtain ⟨copy, options, has, bytes, chosen, product, content⟩ := mirrored.emitted held
    exact ⟨copy, options, has, bytes, descriptor ▸ chosen, product_congr source product, destination ▸ content⟩

/-- A file is there where there is a content and a name that fits. -/
theorem holdsFile_of_content {content : Text.Bytes} (fits : path.Fits)
    (here : tree.contentAt? path.parts = some content) : tree.holdsFile path = true := by
  simp [holdsFile, fits, here]

/-- Where there is no content, there is no file. -/
theorem holdsFile_of_none (none : tree.contentAt? path.parts = none) : tree.holdsFile path = false := by
  simp [holdsFile, none]

/-- What an event does leaves everything outside of the output as it was, so that its source and the
descriptor of the project still hold the same. -/
theorem Act.Takes.same_sources {act : Act} {format : OutputFormat} (placed : (Layout.ofRoot root).IsPlaced)
    (place : IsPlace (Layout.ofRoot root) path)
    (takes : act.Takes format (Layout.ofRoot root).outputDescriptor.parts
      ((Layout.ofRoot root).destination path).parts tree.contentAt? other.contentAt?)
    {location : Location} (away : ¬ (Layout.ofRoot root).output.parts <+: location) :
    tree.contentAt? location = other.contentAt? location :=
  (takes.outside (place.destination_within placed) (output_prefix_descriptor _) away).symm

/-- What an event calls for makes the destination of its source mirror it. -/
theorem Demands.mirrors {act : Act} {format : OutputFormat} (placed : (Layout.ofRoot root).IsPlaced)
    (place : IsPlace (Layout.ofRoot root) event.path) (emitted : Dialect.ofPath event.path ≠ .declaration)
    (apart : (Layout.ofRoot root).outputDescriptor.parts ≠ ((Layout.ofRoot root).destination event.path).parts)
    (isTrue : IsTrue tree event)
    (demands : Demands tools (Layout.ofRoot root) request rewrites event tree act)
    (takes : act.Takes format (Layout.ofRoot root).outputDescriptor.parts
      ((Layout.ofRoot root).destination event.path).parts tree.contentAt? other.contentAt?) :
    Mirrored tools (Layout.ofRoot root) request rewrites other event.path := by
  have source := takes.same_sources placed place place.outside
  have descriptor := takes.same_sources placed place (Layout.descriptor_outside root)
  have still := holdsFile_congr source
  cases demands with
  | removes gone =>
    have absent : other.holdsFile event.path = false := still ▸ isTrue.mp gone
    have vacated : other.contentAt? ((Layout.ofRoot root).destination event.path).parts = none := by
      rw [show other.contentAt? = _ from takes, Function.update_self]
    refine ⟨?_, fun held => ?_⟩
    · rw [holdsFile_of_none vacated, absent]
    · rw [absent] at held
      cases held
  | @makes bytes copy options there _ held chosen product fits =>
    obtain ⟨patched, -, contents⟩ := takes
    have made : other.contentAt? ((Layout.ofRoot root).destination event.path).parts = some bytes := by
      rw [contents, Function.update_of_ne apart.symm, Function.update_self]
    refine ⟨?_, fun _ => ⟨copy, options, _, bytes, descriptor ▸ chosen, product_congr source product, made⟩⟩
    rw [holdsFile_of_content fits made, ← still, held]
  | nothing reason =>
    rcases reason with declaration | ⟨there, absent⟩
    · exact absurd declaration emitted
    · exact absurd (isTrue.mpr absent) there

/-- A failure is excused only where there is nothing to be done. -/
theorem Fails.mirrors (fails : Fails layout event before after) (isTrue : IsTrue before.tree event) :
    Mirrored tools layout request rewrites after.tree event.path := by
  obtain ⟨rfl, removed, built⟩ := fails
  by_cases gone : event.kind = .removed
  · have absent := isTrue.mp gone
    refine ⟨by rw [removed gone, absent], fun held => ?_⟩
    rw [absent] at held
    cases held
  · exact absurd (isTrue.mpr (built gone)) gone

/-- What handling an event changes: nothing but the destination of its source, which then mirrors the source,
and the descriptor of the output. -/
structure Mirrors (tools : Toolchain) (root : Path) (request : Request) (event : WatchEvent)
    (before after : Session) : Prop where
  ready : Ready root after
  temporary : after.temporary = before.temporary
  environment : after.environment = before.environment
  elsewhere : ∀ location, location ≠ ((Layout.ofRoot root).destination event.path).parts →
    location ≠ (Layout.ofRoot root).outputDescriptor.parts →
    after.tree.contentAt? location = before.tree.contentAt? location
  mirrored : Dialect.ofPath event.path ≠ .declaration → IsTrue before.tree event →
    Mirrored tools (Layout.ofRoot root) request (!Tools.rewritesDisabled before.environment) after.tree
      event.path

/-- Handling an event makes the destination of its source mirror it if the event is true, unless its build
fails. -/
theorem Settles.mirrors (settles : Settles tools request (Layout.ofRoot root) event before after)
    (writes : tools.WritesTargets (Layout.ofRoot root)) (placed : (Layout.ofRoot root).IsPlaced)
    (stops : request.settled.runtimeOnly) (ready : Ready root before)
    (watched : IsWatched (Layout.ofRoot root) event)
    (apart : Dialect.ofPath event.path ≠ .declaration → (Layout.ofRoot root).outputDescriptor.parts ≠
      ((Layout.ofRoot root).destination event.path).parts) :
    Mirrors tools root request event before after := by
  rcases settles.leaves writes placed watched.place (watched.place.descriptor_ne placed) ready.plainTemporary
    ready.regular watched.isFile stops with leaves | fails
  · obtain ⟨still, temporary, environment, act, demands, takes⟩ := leaves.acts placed ready watched.place
    refine ⟨still, temporary, environment, fun location notPlace notDescriptor => ?_, fun emitted isTrue => ?_⟩
    · exact takes.elsewhere notPlace notDescriptor
    · exact demands.mirrors placed watched.place emitted (apart emitted) isTrue takes
  · obtain rfl := fails.same
    exact ⟨ready, rfl, rfl, fun _ _ _ => rfl, fun _ isTrue => fails.mirrors isTrue⟩

end

end TreeBuild.Watch
